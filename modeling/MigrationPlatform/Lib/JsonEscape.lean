import Mathlib.Data.Char
import MigrationPlatform.Lib.JsonText

/-!
# Escapes of JSON strings

`escapeChar` writes a character of a string in ASCII, as Python's `json.dumps` does by
default: what is beyond sixteen bits becomes two escapes, a surrogate pair. A reader
puts such a pair together again, which `joinPairs` does before the text is cut into
tokens; `scan` is the machine of `tokens` behind it.

`scan_dumpString` says that a string is read back from what is written for it, with the
rest of the text explicit.
-/

namespace JsonText

/-! ## Writing -/

/-- A hexadecimal digit, in lower case. -/
def hexDigit (n : Nat) : Char := if n < 10 then Char.ofNat (48 + n) else Char.ofNat (87 + n)

/-- A code of sixteen bits, written as an escape. -/
def unicodeEscape (code : Nat) : List Char :=
  ['\\', 'u', hexDigit (code / 4096 % 16), hexDigit (code / 256 % 16), hexDigit (code / 16 % 16),
    hexDigit (code % 16)]

/-- The characters that are escaped by a single one. -/
def shortEscapes : List (Char × Char) := [
  ('\\', '\\'), ('"', '"'), ('\x08', 'b'), ('\x0c', 'f'), ('\n', 'n'), ('\r', 'r'), ('\t', 't')]

/-- A character of a string, in ASCII. -/
def escapeChar (c : Char) : List Char :=
  match shortEscapes.lookup c with
  | some e => ['\\', e]
  | none =>
    if 32 ≤ c.toNat ∧ c.toNat < 127 then [c]
    else if c.toNat < 0x10000 then unicodeEscape c.toNat
    else
      let n := c.toNat - 0x10000
      unicodeEscape (0xD800 + n / 0x400) ++ unicodeEscape (0xDC00 + n % 0x400)

/-- A string, quoted. -/
def dumpString (s : List Char) : List Char := '"' :: s.flatMap escapeChar ++ ['"']

/-! ## Surrogate pairs -/

/-- The code of the escape that a text begins with, if it does. -/
def hex4 : List Char → Option Nat
  | '\\' :: 'u' :: a :: b :: c :: d :: _ => do
      return 4096 * (← hexValue a) + 256 * (← hexValue b) + 16 * (← hexValue c) + (← hexValue d)
  | _ => none

/-- The character of the surrogate pair that a text begins with, if it does. -/
def pairAt (text : List Char) : Option Char := do
  let high ← hex4 text
  let low ← hex4 (text.drop 6)
  if 0xD800 ≤ high ∧ high < 0xDC00 ∧ 0xDC00 ≤ low ∧ low < 0xE000 then
    some (Char.ofNat (0x10000 + (high - 0xD800) * 0x400 + (low - 0xDC00)))
  else none

/-- The pairs of a text put together, after some characters to drop and some to keep. -/
def joinFrom : Nat → Nat → List Char → List Char
  | _, _, [] => []
  | drop + 1, keep, _ :: cs => joinFrom drop keep cs
  | 0, keep + 1, c :: cs => c :: joinFrom 0 keep cs
  | 0, 0, c :: cs =>
      if c = '\\' then
        match pairAt (c :: cs) with
        | some joined => joined :: joinFrom 11 0 cs
        -- the character behind a backslash is no beginning of an escape
        | none => c :: joinFrom 0 1 cs
      else c :: joinFrom 0 0 cs

/-- A text with its surrogate pairs put together. -/
def joinPairs (text : List Char) : List Char := joinFrom 0 0 text

theorem joinPairs_cons {c : Char} (h : c ≠ '\\') (rest : List Char) :
    joinPairs (c :: rest) = c :: joinPairs rest := by
  unfold joinPairs
  rw [joinFrom, if_neg h]

theorem hexValue_hexDigit : ∀ n < 16, hexValue (hexDigit n) = some n := by decide

theorem hexDigit_ne_backslash : ∀ n < 16, hexDigit n ≠ '\\' := by decide

/-- The escape of a code is read back. -/
theorem hex4_unicodeEscape {code : Nat} (h : code < 0x10000) (rest : List Char) :
    hex4 (unicodeEscape code ++ rest) = some code := by
  have hdigit : ∀ n, hexValue (hexDigit (n % 16)) = some (n % 16) := fun n =>
    hexValue_hexDigit _ (Nat.mod_lt n (by omega))
  show (do
    return 4096 * (← hexValue (hexDigit (code / 4096 % 16)))
      + 256 * (← hexValue (hexDigit (code / 256 % 16)))
      + 16 * (← hexValue (hexDigit (code / 16 % 16))) + (← hexValue (hexDigit (code % 16)))) = _
  rw [hdigit, hdigit, hdigit, hdigit]
  show some _ = some code
  congr 1
  omega

theorem pairAt_low {code : Nat} (h : code < 0x10000) (hlow : code < 0xD800 ∨ 0xDFFF < code)
    (rest : List Char) : pairAt (unicodeEscape code ++ rest) = none := by
  unfold pairAt
  rw [hex4_unicodeEscape h]
  cases hex4 ((unicodeEscape code ++ rest).drop 6) with
  | none => rfl
  | some low =>
      have hnot : ¬ (0xD800 ≤ code ∧ code < 0xDC00 ∧ 0xDC00 ≤ low ∧ low < 0xE000) := by omega
      exact if_neg hnot

theorem pairAt_pair {n : Nat} (h : n < 0x100000) (rest : List Char) :
    pairAt (unicodeEscape (0xD800 + n / 0x400) ++ (unicodeEscape (0xDC00 + n % 0x400) ++ rest))
      = some (Char.ofNat (0x10000 + n)) := by
  have hdrop : (unicodeEscape (0xD800 + n / 0x400)
      ++ (unicodeEscape (0xDC00 + n % 0x400) ++ rest)).drop 6
      = unicodeEscape (0xDC00 + n % 0x400) ++ rest := rfl
  have hcond : 0xD800 ≤ 0xD800 + n / 0x400 ∧ 0xD800 + n / 0x400 < 0xDC00
      ∧ 0xDC00 ≤ 0xDC00 + n % 0x400 ∧ 0xDC00 + n % 0x400 < 0xE000 := by omega
  have hcode : 0x10000 + (0xD800 + n / 0x400 - 0xD800) * 0x400 + (0xDC00 + n % 0x400 - 0xDC00)
      = 0x10000 + n := by omega
  unfold pairAt
  rw [hdrop, hex4_unicodeEscape (by omega), hex4_unicodeEscape (by omega)]
  show (if _ then some (Char.ofNat _) else none) = _
  rw [if_pos hcond, hcode]

/-- A short escape is no pair. -/
theorem pairAt_short {e : Char} (h : e ≠ 'u') (rest : List Char) :
    pairAt ('\\' :: e :: rest) = none := by
  have hnone : hex4 ('\\' :: e :: rest) = none := by
    unfold hex4
    split
    · rename_i he
      simp only [List.cons.injEq, true_and] at he
      exact absurd he.1 h
    · rfl
  unfold pairAt
  rw [hnone]
  rfl

/-- An escape that is no pair stays as it is. -/
theorem joinPairs_escape {e : Char} {rest : List Char} (h : pairAt ('\\' :: e :: rest) = none) :
    joinPairs ('\\' :: e :: rest) = '\\' :: e :: joinPairs rest := by
  unfold joinPairs
  rw [joinFrom, if_pos rfl, h]
  rfl

theorem joinPairs_unicodeEscape {code : Nat} {rest : List Char}
    (h : pairAt (unicodeEscape code ++ rest) = none) :
    joinPairs (unicodeEscape code ++ rest) = unicodeEscape code ++ joinPairs rest := by
  have hdigit : ∀ n, hexDigit (n % 16) ≠ '\\' := fun n =>
    hexDigit_ne_backslash _ (Nat.mod_lt n (by omega))
  unfold unicodeEscape at h ⊢
  simp only [List.cons_append, List.nil_append] at h ⊢
  rw [joinPairs_escape h, joinPairs_cons (hdigit _), joinPairs_cons (hdigit _),
    joinPairs_cons (hdigit _), joinPairs_cons (hdigit _)]

theorem joinPairs_pair {n : Nat} (h : n < 0x100000) (rest : List Char) :
    joinPairs (unicodeEscape (0xD800 + n / 0x400) ++ (unicodeEscape (0xDC00 + n % 0x400) ++ rest))
      = Char.ofNat (0x10000 + n) :: joinPairs rest := by
  have hpair := pairAt_pair h rest
  unfold joinPairs
  unfold unicodeEscape at hpair ⊢
  rw [List.cons_append, joinFrom, if_pos rfl]
  rw [List.cons_append] at hpair
  rw [hpair]
  rfl

theorem mem_of_lookup {α β : Type} [BEq α] [LawfulBEq α] {a : α} {b : β} {table : List (α × β)}
    (h : table.lookup a = some b) : (a, b) ∈ table := by
  obtain ⟨before, after, rfl, -⟩ := List.lookup_eq_some_iff.mp h
  exact List.mem_append_right _ List.mem_cons_self

/-- What is escaped by a single character is read back from it. -/
theorem shortEscapes_spec : ∀ p ∈ shortEscapes,
    unescape p.2 = some p.1 ∧ p.2 ≠ 'u' ∧ p.1.toNat < 0x10000 := by decide

theorem isPlain_of_lookup {c : Char} (h : shortEscapes.lookup c = none) (hc : 32 ≤ c.toNat) :
    isPlain c = true := by
  have hnot := List.lookup_eq_none_iff.mp h
  have hb : c ≠ '\\' := by simpa using hnot ('\\', '\\') (by decide)
  have hq : c ≠ '"' := by simpa using hnot ('"', '"') (by decide)
  simp [isPlain, hb, hq, hc]

/-- **The ways in which a character is written.** -/
inductive Written (c : Char) : List Char → Prop
  | short {e : Char} : unescape e = some c → e ≠ 'u' → c.toNat < 0x10000 → Written c ['\\', e]
  | plain : isPlain c = true → c.toNat < 0x10000 → Written c [c]
  | unicode : c.toNat < 0x10000 → Written c (unicodeEscape c.toNat)
  | pair {n : Nat} : c.toNat = 0x10000 + n → n < 0x100000 →
      Written c (unicodeEscape (0xD800 + n / 0x400) ++ unicodeEscape (0xDC00 + n % 0x400))

theorem written_escapeChar (c : Char) : Written c (escapeChar c) := by
  unfold escapeChar
  cases hshort : shortEscapes.lookup c with
  | some e =>
      obtain ⟨hback, hu, hlt⟩ := shortEscapes_spec _ (mem_of_lookup hshort)
      exact .short hback hu hlt
  | none =>
      by_cases hascii : 32 ≤ c.toNat ∧ c.toNat < 127
      · simp only [if_pos hascii]
        exact .plain (isPlain_of_lookup hshort hascii.1) (by omega)
      · by_cases hlt : c.toNat < 0x10000
        · simp only [if_neg hascii, if_pos hlt]
          exact .unicode hlt
        · simp only [if_neg hascii, if_neg hlt]
          have hvalid : c.toNat.isValidChar := c.valid
          simp only [Nat.isValidChar] at hvalid
          exact .pair (by omega) (by omega)

/-- The code of a character is no surrogate. -/
theorem toNat_no_surrogate (c : Char) : c.toNat < 0xD800 ∨ 0xDFFF < c.toNat := by
  have hvalid : c.toNat.isValidChar := c.valid
  simp only [Nat.isValidChar] at hvalid
  omega

/-! ## Reading -/

/-- The machine over a text, once its pairs are put together. -/
def scan (s : List Token × Mode) (text : List Char) : Option (List Token × Mode) :=
  run s (joinPairs text)

theorem scan_cons {c : Char} (h : c ≠ '\\') (s : List Token × Mode) (rest : List Char) :
    scan s (c :: rest) = (step s c).bind fun s => scan s rest := by
  unfold scan
  rw [joinPairs_cons h]
  rfl

theorem step_hex {ts : List Token} {read : List Char} {left code n : Nat} (hn : n < 16)
    (hleft : 1 < left) :
    step (ts, .hex read left code) (hexDigit n)
      = some (ts, .hex read (left - 1) (16 * code + n)) := by
  unfold step
  simp only [hexValue_hexDigit n hn]
  show (if left ≤ 1 then _ else _) = _
  rw [if_neg (by omega)]

theorem step_hex_last {ts : List Token} {read : List Char} {code n : Nat} (hn : n < 16)
    (hvalid : (16 * code + n).isValidChar) :
    step (ts, .hex read 1 code) (hexDigit n)
      = some (ts, .str (Char.ofNat (16 * code + n) :: read)) := by
  unfold step
  simp [hexValue_hexDigit n hn, hvalid]

/-- The machine reads the four digits of an escape. -/
theorem run_unicodeEscape {code : Nat} {c : Char} (h : code < 0x10000) (hc : c.toNat = code)
    (ts : List Token) (read rest : List Char) :
    run (ts, .str read) (unicodeEscape code ++ rest) = run (ts, .str (c :: read)) rest := by
  have hmod : ∀ n, n % 16 < 16 := fun n => Nat.mod_lt n (by omega)
  have hcode : 16 * (16 * (16 * (16 * 0 + code / 4096 % 16) + code / 256 % 16) + code / 16 % 16)
      + code % 16 = code := by omega
  have hvalid : code.isValidChar := hc ▸ c.valid
  have hchar : Char.ofNat code = c := hc ▸ Char.ofNat_toNat c
  have hrun : run (ts, .str read) (unicodeEscape code) = some (ts, .str (c :: read)) := by
    unfold unicodeEscape
    show (step (ts, .hex read 4 0) _).bind _ = _
    rw [step_hex (hmod _) (by omega)]
    show (step (ts, .hex read 3 _) _).bind _ = _
    rw [step_hex (hmod _) (by omega)]
    show (step (ts, .hex read 2 _) _).bind _ = _
    rw [step_hex (hmod _) (by omega)]
    show (step (ts, .hex read 1 _) _).bind _ = _
    rw [step_hex_last (hmod _) (hcode.symm ▸ hvalid), hcode, hchar]
    rfl
  rw [run_append, hrun]
  rfl

/-- A character is read back from its escape in a string. -/
theorem scan_escapeChar (c : Char) (ts : List Token) (read rest : List Char) :
    scan (ts, .str read) (escapeChar c ++ rest) = scan (ts, .str (c :: read)) rest := by
  have hwritten := written_escapeChar c
  generalize escapeChar c = text at hwritten
  have hplain_step : isPlain c = true → ∀ text,
      run (ts, .str read) (c :: text) = run (ts, .str (c :: read)) text := by
    intro hplain text
    have hrun := run_str (List.forall_mem_singleton.mpr hplain) ts read
    show run _ ([c] ++ text) = _
    rw [run_append, hrun]
    rfl
  unfold scan
  cases hwritten with
  | @short e hback hu _ =>
      rw [List.cons_append, List.singleton_append, joinPairs_escape (pairAt_short hu rest)]
      have hstep : step (ts, .escape read) e = some (ts, .str (c :: read)) := by
        unfold step
        simp only [hback]
      show (step (ts, .escape read) e).bind _ = _
      rw [hstep]
      rfl
  | plain hplain _ =>
      have hne : c ≠ '\\' := by
        simp only [isPlain, Bool.and_eq_true, bne_iff_ne] at hplain
        exact hplain.1.2
      rw [List.singleton_append, joinPairs_cons hne]
      exact hplain_step hplain _
  | unicode hlt =>
      rw [joinPairs_unicodeEscape (pairAt_low hlt (toNat_no_surrogate c) rest)]
      exact run_unicodeEscape hlt rfl ts read _
  | @pair n hc hn =>
      have hchar : Char.ofNat (0x10000 + n) = c := hc ▸ Char.ofNat_toNat c
      rw [List.append_assoc, joinPairs_pair hn, hchar]
      refine hplain_step ?_ _
      have hne : ∀ d : Char, d.toNat < 0x10000 → c ≠ d := by
        intro d hd he
        rw [he] at hc
        omega
      simp only [isPlain, Bool.and_eq_true, bne_iff_ne, decide_eq_true_eq]
      exact ⟨⟨hne '"' (by decide), hne '\\' (by decide)⟩, by omega⟩

/-- **A string is read back from what is written for it.** -/
theorem scan_dumpString (s : List Char) (ts : List Token) (rest : List Char) :
    scan (ts, .gap) (dumpString s ++ rest) = scan (.str s :: ts, .gap) rest := by
  have hinner : ∀ read, scan (ts, .str read) (s.flatMap escapeChar ++ '"' :: rest)
      = scan (.str (read.reverse ++ s) :: ts, .gap) rest := by
    induction s with
    | nil =>
        intro read
        rw [List.append_nil]
        exact scan_cons (by decide) _ _
    | cons c s ih =>
        intro read
        rw [List.flatMap_cons, List.append_assoc, scan_escapeChar, ih, List.reverse_cons,
          List.append_assoc, List.singleton_append]
  unfold dumpString
  rw [List.cons_append, List.cons_append, List.append_assoc, scan_cons (by decide)]
  exact hinner []

end JsonText
