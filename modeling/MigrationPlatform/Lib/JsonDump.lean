import Mathlib.Data.List.Nodup
import Mathlib.Data.List.TakeDrop
import Mathlib.Data.List.TakeWhile
import MigrationPlatform.Lib.JsonEscape

/-!
# Documents written as JSON

`dumps` writes a document as Python's `json.dumps(…, indent=2)` does: strings in ASCII,
each element of an array and each member of an object on a line of its own, and an
empty container on none. `loads` is a reader of what a JSON text stands for, surrogate
pairs included.

What is written is read back (`loads_dumps`): the tokens of a written document are its
own tokens, whatever the indentation, and a document is the value of its tokens.
-/

namespace JsonText

/-- A document with integers for numbers. -/
inductive Doc where
  | null
  | bool (b : Bool)
  | int (n : Int)
  | str (s : List Char)
  | list (docs : List Doc)
  | dict (members : List (List Char × Doc))

/-! ## Writing -/

/-- The decimal text of an integer. -/
def intChars : Int → List Char
  | .ofNat n => Nat.toDigits 10 n
  | .negSucc n => '-' :: Nat.toDigits 10 (n + 1)

/-- A new line at a level of indentation. -/
def newline (level : Nat) : List Char := '\n' :: List.replicate (2 * level) ' '

mutual

/-- A document at a level of indentation. -/
def dump (level : Nat) : Doc → List Char
  | .null => "null".toList
  | .bool true => "true".toList
  | .bool false => "false".toList
  | .int n => intChars n
  | .str s => dumpString s
  | .list [] => ['[', ']']
  | .list (d :: docs) => '[' :: newline (level + 1) ++ dump (level + 1) d ++ dumpElements level docs
  | .dict [] => ['\x7b', '\x7d']
  | .dict (m :: members) =>
      '\x7b' :: newline (level + 1) ++ dumpMember (level + 1) m ++ dumpMembers level members
termination_by structural d => d

/-- The elements of an array behind the first one, and its end. -/
def dumpElements (level : Nat) : List Doc → List Char
  | [] => newline level ++ [']']
  | d :: docs => ',' :: newline (level + 1) ++ dump (level + 1) d ++ dumpElements level docs
termination_by structural docs => docs

/-- The members of an object behind the first one, and its end. -/
def dumpMembers (level : Nat) : List (List Char × Doc) → List Char
  | [] => newline level ++ ['\x7d']
  | m :: members =>
      ',' :: newline (level + 1) ++ dumpMember (level + 1) m ++ dumpMembers level members
termination_by structural members => members

def dumpMember (level : Nat) : List Char × Doc → List Char
  | (key, d) => dumpString key ++ [':', ' '] ++ dump level d
termination_by structural m => m

end

/-- A document, written. -/
def dumps (d : Doc) : List Char := dump 0 d

/-! ## What a document stands for -/

mutual

def Doc.value : Doc → Value
  | .null => .null
  | .bool b => .bool b
  | .int n => .num n
  | .str s => .str (String.ofList s)
  | .list docs => .list (values docs)
  | .dict members => .dict (memberValues members)
termination_by structural d => d

def values : List Doc → List Value
  | [] => []
  | d :: docs => d.value :: values docs
termination_by structural docs => docs

def memberValues : List (List Char × Doc) → List (String × Value)
  | [] => []
  | m :: members => memberValue m :: memberValues members
termination_by structural members => members

def memberValue : List Char × Doc → String × Value
  | (key, d) => (String.ofList key, d.value)
termination_by structural m => m

end

mutual

/-- No object has two members of one name. -/
def Doc.Keyed : Doc → Prop
  | .list docs => AllKeyed docs
  | .dict members => (members.map Prod.fst).Nodup ∧ MembersKeyed members
  | _ => True
termination_by structural d => d

def AllKeyed : List Doc → Prop
  | [] => True
  | d :: docs => d.Keyed ∧ AllKeyed docs
termination_by structural docs => docs

def MembersKeyed : List (List Char × Doc) → Prop
  | [] => True
  | m :: members => MemberKeyed m ∧ MembersKeyed members
termination_by structural members => members

def MemberKeyed : List Char × Doc → Prop
  | (_, d) => d.Keyed
termination_by structural m => m

end

/-! ## The tokens of a document -/

mutual

def Doc.tokens : Doc → List Token
  | .null => [.word "null".toList]
  | .bool b => [.word (if b then "true".toList else "false".toList)]
  | .int n => [.word (intChars n)]
  | .str s => [.str s]
  | .list [] => [.mark '[', .mark ']']
  | .list (d :: docs) => .mark '[' :: (d.tokens ++ elementTokens docs)
  | .dict [] => [.mark '\x7b', .mark '\x7d']
  | .dict (m :: members) => .mark '\x7b' :: (memberTokens m ++ membersTokens members)
termination_by structural d => d

def elementTokens : List Doc → List Token
  | [] => [.mark ']']
  | d :: docs => .mark ',' :: (d.tokens ++ elementTokens docs)
termination_by structural docs => docs

def membersTokens : List (List Char × Doc) → List Token
  | [] => [.mark '\x7d']
  | m :: members => .mark ',' :: (memberTokens m ++ membersTokens members)
termination_by structural members => members

def memberTokens : List Char × Doc → List Token
  | (key, d) => .str key :: .mark ':' :: d.tokens
termination_by structural m => m

end

/-- The machine may begin a token; a word that it is still reading is among those it has. -/
inductive Between : List Token → List Token × Mode → Prop
  | gap (ts : List Token) : Between ts (ts, .gap)
  | word (ts : List Token) (read : List Char) : Between (.word read.reverse :: ts) (ts, .word read)

theorem Between.step_eq {ts : List Token} {s : List Token × Mode} (h : Between ts s) {c : Char}
    (hc : isWord c = false) : step s c = begin ts c := by
  cases h with
  | gap => rfl
  | word read => exact if_neg (by rw [hc]; exact Bool.false_ne_true)

theorem scan_mark {ts : List Token} {s : List Token × Mode} (h : Between ts s) {c : Char}
    (hc : isMark c = true) (rest : List Char) :
    scan s (c :: rest) = scan (.mark c :: ts, .gap) rest := by
  have hmark : c ≠ '\\' ∧ isWord c = false ∧ isBlank c = false := by
    simp only [isMark, Bool.or_eq_true, beq_iff_eq] at hc
    rcases hc with ((((rfl | rfl) | rfl) | rfl) | rfl) | rfl <;> decide
  have hbegin : begin ts c = some (.mark c :: ts, .gap) := by
    unfold begin
    rw [hmark.2.2, hc]
    rfl
  rw [scan_cons hmark.1, h.step_eq hmark.2.1, hbegin]
  rfl

theorem scan_newline {ts : List Token} {s : List Token × Mode} (h : Between ts s) (level : Nat)
    (rest : List Char) : scan s (newline level ++ rest) = scan (ts, .gap) rest := by
  have hspaces : ∀ n, scan (ts, .gap) (List.replicate n ' ' ++ rest) = scan (ts, .gap) rest := by
    intro n
    induction n with
    | zero => rfl
    | succ n ih =>
        rw [List.replicate_succ, List.cons_append, scan_cons (by decide)]
        exact ih
  unfold newline
  rw [List.cons_append, scan_cons (by decide), h.step_eq (by decide)]
  exact hspaces _

/-- A word is read up to its end. -/
theorem scan_word {w : List Char} (hw : ∀ c ∈ w, isWord c = true) (hne : w ≠ []) (ts : List Token)
    (rest : List Char) :
    ∃ s, Between (.word w :: ts) s ∧ scan (ts, .gap) (w ++ rest) = scan s rest := by
  have hword : ∀ c, isWord c = true →
      c ≠ '\\' ∧ isBlank c = false ∧ isMark c = false ∧ c ≠ '"' := by
    intro c hc
    have hnot : ∀ d, isWord d = false → c ≠ d := by
      intro d hd he
      rw [he, hd] at hc
      cases hc
    simp only [isBlank, isMark, Bool.or_eq_false_iff, beq_eq_false_iff_ne]
    refine ⟨hnot _ (by decide), ⟨⟨⟨?_, ?_⟩, ?_⟩, ?_⟩, ⟨⟨⟨⟨⟨?_, ?_⟩, ?_⟩, ?_⟩, ?_⟩, ?_⟩,
      hnot _ (by decide)⟩ <;> exact hnot _ (by decide)
  have hread : ∀ w : List Char, (∀ c ∈ w, isWord c = true) → ∀ read,
      scan (ts, .word read) (w ++ rest) = scan (ts, .word (w.reverse ++ read)) rest := by
    intro w hw
    induction w with
    | nil => intro read; rfl
    | cons c w ih =>
        intro read
        have hc := hw c List.mem_cons_self
        have hstep : step (ts, .word read) c = some (ts, .word (c :: read)) := if_pos hc
        rw [List.cons_append, scan_cons (hword c hc).1, hstep, Option.bind_some,
          ih (fun c hc => hw c (List.mem_cons_of_mem _ hc)), List.reverse_cons, List.append_assoc,
          List.singleton_append]
  cases w with
  | nil => exact absurd rfl hne
  | cons c w =>
      have hc := hw c List.mem_cons_self
      obtain ⟨hback, hblank, hmark, hquote⟩ := hword c hc
      have hbegin : step (ts, .gap) c = some (ts, .word [c]) := by
        show begin ts c = _
        unfold begin
        rw [hblank, hmark, hc, if_neg hquote]
        rfl
      refine ⟨(ts, .word (w.reverse ++ [c])), ?_, ?_⟩
      · have hbetween := Between.word ts (w.reverse ++ [c])
        rw [List.reverse_append, List.reverse_reverse] at hbetween
        exact hbetween
      · rw [List.cons_append, scan_cons hback, hbegin, Option.bind_some,
          hread w fun c hc => hw c (List.mem_cons_of_mem _ hc)]

theorem isWord_intChars (n : Int) : (∀ c ∈ intChars n, isWord c = true) ∧ intChars n ≠ [] := by
  have hdigits : ∀ n, ∀ c ∈ Nat.toDigits 10 n, isWord c = true := by
    intro n c hc
    have hdigit := Nat.isDigit_of_mem_toDigits (by omega) (by omega) hc
    simp [isWord, Char.isAlphanum, hdigit]
  cases n with
  | ofNat n => exact ⟨hdigits n, Nat.toDigits_ne_nil⟩
  | negSucc n => exact ⟨List.forall_mem_cons.mpr ⟨by decide, hdigits _⟩, List.cons_ne_nil _ _⟩

/-- A mark ends a line, and the next one begins further to the right. -/
theorem scan_line {ts : List Token} {s : List Token × Mode} (hs : Between ts s) {c : Char}
    (hc : isMark c = true) (level : Nat) (text more rest : List Char) :
    scan s (c :: newline level ++ text ++ more ++ rest)
      = scan (.mark c :: ts, .gap) (text ++ (more ++ rest)) := by
  simp only [List.cons_append, List.append_assoc]
  rw [scan_mark hs hc, scan_newline (.gap _)]

mutual

/-- **The tokens of a written document are its own**, at every level. -/
theorem scan_dump (level : Nat) (ts : List Token) (rest : List Char) : (d : Doc) →
    ∃ s, Between (d.tokens.reverse ++ ts) s
      ∧ scan (ts, .gap) (dump level d ++ rest) = scan s rest
  | .null => scan_word (List.all_eq_true.mp rfl) (by decide) ts rest
  | .bool true => scan_word (List.all_eq_true.mp rfl) (by decide) ts rest
  | .bool false => scan_word (List.all_eq_true.mp rfl) (by decide) ts rest
  | .int n => scan_word (isWord_intChars n).1 (isWord_intChars n).2 ts rest
  | .str s => ⟨_, .gap _, scan_dumpString s ts rest⟩
  | .list [] => by
      refine ⟨_, .gap _, ?_⟩
      show scan (ts, .gap) ('[' :: ']' :: rest) = _
      rw [scan_mark (.gap ts) rfl, scan_mark (.gap _) rfl]
      rfl
  | .list (d :: docs) => by
      refine ⟨_, .gap _, ?_⟩
      obtain ⟨s, hs, hd⟩ := scan_dump (level + 1) (.mark '[' :: ts)
        (dumpElements level docs ++ rest) d
      rw [dump, scan_line (.gap ts) rfl, hd, scan_dumpElements level hs rest docs]
      simp [Doc.tokens]
  | .dict [] => by
      refine ⟨_, .gap _, ?_⟩
      show scan (ts, .gap) ('\x7b' :: '\x7d' :: rest) = _
      rw [scan_mark (.gap ts) rfl, scan_mark (.gap _) rfl]
      rfl
  | .dict (m :: members) => by
      refine ⟨_, .gap _, ?_⟩
      obtain ⟨s, hs, hm⟩ := scan_dumpMember (level + 1) (.mark '\x7b' :: ts)
        (dumpMembers level members ++ rest) m
      rw [dump, scan_line (.gap ts) rfl, hm, scan_dumpMembers level hs rest members]
      simp [Doc.tokens]
termination_by structural d => d

theorem scan_dumpElements (level : Nat) {ts : List Token} {s : List Token × Mode}
    (hs : Between ts s) (rest : List Char) : (docs : List Doc) →
    scan s (dumpElements level docs ++ rest)
      = scan ((elementTokens docs).reverse ++ ts, .gap) rest
  | [] => by
      rw [dumpElements, List.append_assoc, scan_newline hs, List.singleton_append,
        scan_mark (.gap ts) rfl]
      rfl
  | d :: docs => by
      obtain ⟨s', hs', hd⟩ := scan_dump (level + 1) (.mark ',' :: ts)
        (dumpElements level docs ++ rest) d
      rw [dumpElements, scan_line hs rfl, hd, scan_dumpElements level hs' rest docs]
      simp [elementTokens]
termination_by structural docs => docs

theorem scan_dumpMembers (level : Nat) {ts : List Token} {s : List Token × Mode}
    (hs : Between ts s) (rest : List Char) : (members : List (List Char × Doc)) →
    scan s (dumpMembers level members ++ rest)
      = scan ((membersTokens members).reverse ++ ts, .gap) rest
  | [] => by
      rw [dumpMembers, List.append_assoc, scan_newline hs, List.singleton_append,
        scan_mark (.gap ts) rfl]
      rfl
  | m :: members => by
      obtain ⟨s', hs', hm⟩ := scan_dumpMember (level + 1) (.mark ',' :: ts)
        (dumpMembers level members ++ rest) m
      rw [dumpMembers, scan_line hs rfl, hm, scan_dumpMembers level hs' rest members]
      simp [membersTokens]
termination_by structural members => members

theorem scan_dumpMember (level : Nat) (ts : List Token) (rest : List Char) :
    (m : List Char × Doc) →
    ∃ s, Between ((memberTokens m).reverse ++ ts) s
      ∧ scan (ts, .gap) (dumpMember level m ++ rest) = scan s rest
  | (key, d) => by
      obtain ⟨s, hs, hd⟩ := scan_dump level (.mark ':' :: .str key :: ts) rest d
      refine ⟨s, by simpa [memberTokens] using hs, ?_⟩
      have hblank : ∀ ts rest, scan (ts, .gap) (' ' :: rest) = scan (ts, .gap) rest :=
        fun ts rest => scan_cons (by decide) (ts, .gap) rest
      rw [dumpMember, List.append_assoc, List.append_assoc, scan_dumpString, List.cons_append,
        scan_mark (.gap _) rfl, List.singleton_append, hblank, hd]
termination_by structural m => m

end

/-! ## Numbers -/

/-- The text of a number begins with a zero only if it is zero. -/
theorem head?_toDigits {n : Nat} (h : 0 < n) : (Nat.toDigits 10 n).head? ≠ some '0' := by
  induction n using Nat.strongRecOn with
  | ind n ih =>
      rw [Nat.toDigits_eq_if (by omega)]
      split
      · rename_i hlt
        have hdigit : ∀ m < 10, 0 < m → m.digitChar ≠ '0' := by decide
        intro he
        exact hdigit n hlt h (Option.some.inj he)
      · rw [List.head?_append_of_ne_nil _ Nat.toDigits_ne_nil]
        exact ih (n / 10) (by omega) (by omega)

theorem digits_toDigits (n : Nat) : digits (Nat.toDigits 10 n) = n :=
  Nat.ofDigitChars_ten_toDigits

/-- A word of digits, with or without a sign, is the number that it writes. -/
theorem number_digits {w : List Char} (hw : ∀ c ∈ w, c.isDigit = true) (hne : w ≠ [])
    (hzero : w.head? = some '0' → w.length = 1) :
    number w = some (digits w : Rat) ∧ number ('-' :: w) = some (-(digits w : Rat)) := by
  have hspan : w.span Char.isDigit = (w, []) := by
    rw [List.span_eq_takeWhile_dropWhile, List.takeWhile_eq_self_iff.mpr hw,
      List.dropWhile_eq_nil_iff.mpr hw]
  have hcond : (w.isEmpty || (w.head? == some '0' && w.length != 1)) = false := by
    have hempty : w.isEmpty = false := by simpa using hne
    rw [hempty, Bool.false_or, Bool.and_eq_false_iff, beq_eq_false_iff_ne, bne_eq_false_iff_eq]
    by_cases hhead : w.head? = some '0'
    · exact .inr (hzero hhead)
    · exact .inl hhead
  have hpow : (10 : Rat) ^ (0 - ((0 : Nat) : Int)) = 1 := rfl
  constructor
  · have hsign : ∀ w', w ≠ '-' :: w' := by
      intro w' he
      have hdigit := hw '-' (by rw [he]; exact List.mem_cons_self)
      cases hdigit
    unfold number
    split
    rename_i sign w₀ hw₀
    split at hw₀
    · exact absurd rfl (hsign _)
    · cases hw₀
      rw [hspan]
      simp only [hcond]
      show some ((1 : Rat) * digits (w ++ []) * 10 ^ (0 - ((0 : Nat) : Int))) = _
      rw [List.append_nil, hpow, Rat.mul_one, Rat.one_mul]
  · unfold number
    simp only
    rw [hspan]
    simp only [hcond]
    show some ((-1 : Rat) * digits (w ++ []) * 10 ^ (0 - ((0 : Nat) : Int))) = _
    rw [List.append_nil, hpow, Rat.mul_one, Rat.neg_mul, Rat.one_mul]

/-- An integer is read back from its text. -/
theorem word_intChars (n : Int) : word (intChars n) = some (.num n) := by
  have hdigit : ∀ n, ∀ c ∈ Nat.toDigits 10 n, c.isDigit = true := fun n c hc =>
    Nat.isDigit_of_mem_toDigits (by omega) (by omega) hc
  have hzero : ∀ n, (Nat.toDigits 10 n).head? = some '0' → (Nat.toDigits 10 n).length = 1 := by
    intro n h
    cases n with
    | zero => rfl
    | succ n => exact absurd h (head?_toDigits (Nat.succ_pos n))
  -- no keyword is written with digits and signs
  have hlow : ∀ c ∈ intChars n, c.toNat ≤ 57 := by
    have hle : ∀ n, ∀ c ∈ Nat.toDigits 10 n, c.toNat ≤ 57 := fun n c hc =>
      (Char.isDigit_iff_toNat.mp (hdigit n c hc)).2
    cases n with
    | ofNat n => exact hle n
    | negSucc n => exact List.forall_mem_cons.mpr ⟨by decide, hle (n + 1)⟩
  have hne : ∀ w : List Char, (∃ c ∈ w, 57 < c.toNat) → intChars n ≠ w := by
    rintro w ⟨c, hc, hlt⟩ rfl
    have hle := hlow c hc
    omega
  have hnumber : number (intChars n) = some (n : Rat) := by
    cases n with
    | ofNat n =>
        have hnumber := (number_digits (hdigit n) Nat.toDigits_ne_nil (hzero n)).1
        rw [digits_toDigits] at hnumber
        exact hnumber
    | negSucc n =>
        have hnumber := (number_digits (hdigit (n + 1)) Nat.toDigits_ne_nil (hzero (n + 1))).2
        rw [digits_toDigits] at hnumber
        exact hnumber
  unfold word
  rw [if_neg (hne _ ⟨'t', by decide⟩), if_neg (hne _ ⟨'f', by decide⟩),
    if_neg (hne _ ⟨'n', by decide⟩), hnumber]
  rfl

/-! ## The value of the tokens -/

theorem elementTokens_pos (docs : List Doc) : 0 < (elementTokens docs).length := by
  cases docs <;> exact Nat.succ_pos _

theorem membersTokens_pos (members : List (List Char × Doc)) :
    0 < (membersTokens members).length := by
  cases members <;> exact Nat.succ_pos _

/-- The tokens behind an opening bracket do not close it. -/
theorem value_list {n : Nat} (d : Doc) (more : List Token) :
    value (n + 1) (.mark '[' :: (d.tokens ++ more))
      = (elements n (d.tokens ++ more)).map fun (vs, ts) => (.list vs, ts) := by
  match d with
  | .null | .bool _ | .int _ | .str _ | .list [] | .dict [] => rfl
  | .list (_ :: _) | .dict (_ :: _) => rfl

/-- A key that is not there yet is set at the end. -/
theorem set_of_nodup {items : List (String × Value)} {key : String} {keys : List String}
    (h : (items.map Prod.fst ++ key :: keys).Nodup) (v : Value) :
    Items.set items key v = items ++ [(key, v)] := by
  refine Items.set_of_not_has v (Items.has_eq_false.mpr fun b hb he => ?_)
  have hdisjoint := (List.nodup_append.mp h).2.2 b.1 (List.mem_map_of_mem hb) key
    List.mem_cons_self
  exact hdisjoint he

mutual

/-- **A document is the value of its tokens**, whatever comes behind them. -/
theorem value_tokens (rest : List Token) : (d : Doc) → d.Keyed → ∀ n, d.tokens.length < n →
    value n (d.tokens ++ rest) = some (d.value, rest)
  | .null, _, n + 1, _ => rfl
  | .bool true, _, n + 1, _ => rfl
  | .bool false, _, n + 1, _ => rfl
  | .int k, _, n + 1, _ => by
      show (word (intChars k)).map (fun v => (v, rest)) = _
      rw [word_intChars]
      rfl
  | .str s, _, n + 1, _ => rfl
  | .list [], _, n + 1, _ => rfl
  | .list (d :: docs), h, n + 1, hn => by
      have hpos := elementTokens_pos docs
      have hlength : (Doc.list (d :: docs)).tokens.length
          = d.tokens.length + (elementTokens docs).length + 1 := by simp [Doc.tokens]
      obtain ⟨m, rfl⟩ : ∃ m, n = m + 1 := ⟨n - 1, by omega⟩
      have hd := value_tokens (elementTokens docs ++ rest) d h.1 m (by omega)
      rw [Doc.tokens, List.cons_append, List.append_assoc, value_list,
        elements_tokens rest docs h.2 (by omega) hd]
      rfl
  | .dict [], _, n + 1, _ => rfl
  | .dict ((key, d) :: members), h, n + 1, hn => by
      have hpos := membersTokens_pos members
      have hlength : (Doc.dict ((key, d) :: members)).tokens.length
          = d.tokens.length + (membersTokens members).length + 3 := by
        simp [Doc.tokens, memberTokens]
      obtain ⟨m, rfl⟩ : ∃ m, n = m + 1 := ⟨n - 1, by omega⟩
      have hd := value_tokens (membersTokens members ++ rest) d h.2.1 m (by omega)
      have hkeys : (((key, d) :: members).map fun m => String.ofList m.1).Nodup := by
        have hmap := h.1.map fun _ _ => String.ofList_injective
        rwa [List.map_map] at hmap
      have hmembers := members_tokens rest members h.2.2 key [] hkeys (by omega) hd
      have htokens : (Doc.dict ((key, d) :: members)).tokens ++ rest = .mark '\x7b' :: .str key
          :: .mark ':' :: (d.tokens ++ (membersTokens members ++ rest)) := by
        simp [Doc.tokens, memberTokens]
      rw [htokens]
      show (JsonText.members (m + 1) _ []).map (fun (items, ts) => (Value.dict items, ts)) = _
      rw [hmembers]
      rfl
termination_by structural d => d

theorem elements_tokens (rest : List Token) : (docs : List Doc) → AllKeyed docs →
    ∀ {n : Nat} {ts : List Token} {v : Value}, (elementTokens docs).length ≤ n →
    value n ts = some (v, elementTokens docs ++ rest) →
    elements (n + 1) ts = some (v :: values docs, rest)
  | [], _, n, ts, v, _, hv => by
      unfold elements
      rw [hv]
      rfl
  | d :: docs, h, n, ts, v, hn, hv => by
      have hpos := elementTokens_pos docs
      have hlength : (elementTokens (d :: docs)).length
          = d.tokens.length + (elementTokens docs).length + 1 := by simp [elementTokens]
      obtain ⟨m, rfl⟩ : ∃ m, n = m + 1 := ⟨n - 1, by omega⟩
      have hd := value_tokens (elementTokens docs ++ rest) d h.1 m (by omega)
      have hrest := elements_tokens rest docs h.2 (by omega) hd
      unfold elements
      rw [hv]
      show (elements (m + 1) ((d.tokens ++ elementTokens docs) ++ rest)).map _ = _
      rw [List.append_assoc, hrest]
      rfl
termination_by structural docs => docs

theorem members_tokens (rest : List Token) : (members : List (List Char × Doc)) →
    MembersKeyed members → ∀ {n : Nat} {ts : List Token} {v : Value} (key : List Char)
      (items : List (String × Value)),
    (items.map Prod.fst ++ String.ofList key :: members.map fun m => String.ofList m.1).Nodup →
    (membersTokens members).length ≤ n →
    value n ts = some (v, membersTokens members ++ rest) →
    JsonText.members (n + 1) (.str key :: .mark ':' :: ts) items
      = some (items ++ (String.ofList key, v) :: memberValues members, rest)
  | [], _, n, ts, v, key, items, hkeys, _, hv => by
      show (value n ts).bind _ = _
      rw [hv]
      show some (Items.set items (String.ofList key) v, rest) = _
      rw [set_of_nodup hkeys]
      rfl
  | (key', d) :: members, h, n, ts, v, key, items, hkeys, hn, hv => by
      have hpos := membersTokens_pos members
      have hlength : (membersTokens ((key', d) :: members)).length
          = d.tokens.length + (membersTokens members).length + 3 := by
        simp [membersTokens, memberTokens]
      obtain ⟨m, rfl⟩ : ∃ m, n = m + 1 := ⟨n - 1, by omega⟩
      have hd := value_tokens (membersTokens members ++ rest) d h.1 m (by omega)
      have hkeys' : ((items ++ [(String.ofList key, v)]).map Prod.fst
          ++ String.ofList key' :: members.map fun m => String.ofList m.1).Nodup := by
        simpa using hkeys
      have hrest := members_tokens rest members h.2 key' (items ++ [(String.ofList key, v)]) hkeys'
        (by omega) hd
      have htokens : membersTokens ((key', d) :: members) ++ rest = .mark ',' :: .str key'
          :: .mark ':' :: (d.tokens ++ (membersTokens members ++ rest)) := by
        simp [membersTokens, memberTokens]
      show (value (m + 1) ts).bind _ = _
      rw [hv, htokens]
      show JsonText.members (m + 1) _ (Items.set items (String.ofList key) v) = _
      rw [set_of_nodup hkeys, hrest, List.append_assoc]
      rfl
termination_by structural members => members

end

/-! ## The round trip -/

/-- The value of a text, whose surrogate pairs are put together first. -/
def reads (text : List Char) : Option Value := loads (joinPairs text)

/--
**What is written is read back.** The text of a document is JSON, and what it stands
for is the document.
-/
theorem reads_dumps {d : Doc} (h : d.Keyed) : reads (dumps d) = some d.value := by
  obtain ⟨s, hs, hscan⟩ := scan_dump 0 [] [] d
  have hscan : run ([], .gap) (joinPairs (dumps d)) = some s := by
    rw [List.append_nil] at hscan
    exact hscan
  have htokens : JsonText.tokens (joinPairs (dumps d)) = some d.tokens := by
    unfold JsonText.tokens
    rw [hscan]
    rw [List.append_nil] at hs
    generalize hts : d.tokens.reverse = ts at hs
    have hback : d.tokens = ts.reverse := by rw [← hts, List.reverse_reverse]
    rw [hback]
    cases hs with
    | gap => rfl
    | word => rfl
  have hvalue := value_tokens [] d h (d.tokens.length + 1) (Nat.lt_succ_self _)
  rw [List.append_nil] at hvalue
  unfold reads loads
  rw [htokens]
  show (value (d.tokens.length + 1) d.tokens).bind _ = _
  rw [hvalue]
  rfl

mutual

/-- Different documents stand for different values. -/
theorem Doc.value_inj : (d d' : Doc) → d.value = d'.value → d = d'
  | .null, d', h => by
      cases d' <;> cases h
      rfl
  | .bool b, d', h => by
      cases d' <;> cases h
      rfl
  | .int n, d', h => by
      cases d' with
      | int n' =>
          have hcast : (n : Rat) = n' := Value.num.inj h
          rw [Rat.intCast_inj.mp hcast]
      | _ => cases h
  | .str s, d', h => by
      cases d' with
      | str s' => rw [String.ofList_injective (Value.str.inj h)]
      | _ => cases h
  | .list docs, d', h => by
      cases d' with
      | list docs' => rw [values_inj docs docs' (Value.list.inj h)]
      | _ => cases h
  | .dict members, d', h => by
      cases d' with
      | dict members' => rw [memberValues_inj members members' (Value.dict.inj h)]
      | _ => cases h
termination_by structural d => d

theorem values_inj : (docs docs' : List Doc) → values docs = values docs' → docs = docs'
  | [], docs', h => by
      cases docs' with
      | nil => rfl
      | cons => cases h
  | d :: docs, docs', h => by
      cases docs' with
      | nil => cases h
      | cons d' docs' =>
          obtain ⟨hd, hdocs⟩ := List.cons.inj h
          rw [Doc.value_inj d d' hd, values_inj docs docs' hdocs]
termination_by structural docs => docs

theorem memberValues_inj : (ms ms' : List (List Char × Doc)) →
    memberValues ms = memberValues ms' → ms = ms'
  | [], ms', h => by
      cases ms' with
      | nil => rfl
      | cons => cases h
  | m :: ms, ms', h => by
      cases ms' with
      | nil => cases h
      | cons m' ms' =>
          obtain ⟨hm, hms⟩ := List.cons.inj h
          rw [memberValue_inj m m' hm, memberValues_inj ms ms' hms]
termination_by structural ms => ms

theorem memberValue_inj : (m m' : List Char × Doc) → memberValue m = memberValue m' → m = m'
  | (key, d), (key', d'), h => by
      obtain ⟨hkey, hd⟩ := Prod.mk.inj h
      rw [String.ofList_injective hkey, Doc.value_inj d d' hd]
termination_by structural m => m

end

/-- A text is written for one document only. -/
theorem dumps_inj {d d' : Doc} (h : d.Keyed) (h' : d'.Keyed) (he : dumps d = dumps d') :
    d = d' := by
  have hread := reads_dumps h
  rw [he, reads_dumps h'] at hread
  exact (Doc.value_inj d' d (Option.some.inj hread)).symm

end JsonText
