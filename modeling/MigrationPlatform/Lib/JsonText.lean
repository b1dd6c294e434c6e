import MigrationPlatform.Lib.Value

/-!
# JSON texts

`loads` reads a JSON text (RFC 8259) into the value that it stands for. The text is
first cut into tokens by a machine that takes one character at a time, so that the
tokens of a text are those of its beginning and then those of the rest.

A string holds no control characters. An escape `\u` stands for the character with
that code; the halves of a surrogate pair are not put together.
-/

namespace JsonText

/-- A number or one of `true`, `false` and `null` is a word. -/
inductive Token where
  | mark (c : Char)
  | str (s : List Char)
  | word (w : List Char)
  deriving DecidableEq

/-- Where the machine stands; what it has read of a token is kept newest first. -/
inductive Mode where
  | gap
  | word (read : List Char)
  | str (read : List Char)
  | escape (read : List Char)
  /-- Behind `\u`, with the digits still to come and the code so far. -/
  | hex (read : List Char) (left : Nat) (code : Nat)
  deriving DecidableEq

def isBlank (c : Char) : Bool := c == ' ' || c == '\t' || c == '\n' || c == '\r'

def isMark (c : Char) : Bool :=
  c == '\x7b' || c == '\x7d' || c == '[' || c == ']' || c == ':' || c == ','

def isWord (c : Char) : Bool := c.isAlphanum || c == '+' || c == '-' || c == '.'

/-- A character that stands for itself in a string. -/
def isPlain (c : Char) : Bool := c != '"' && c != '\\' && 32 ≤ c.toNat

/-- What a single character stands for behind a backslash. -/
def unescape (c : Char) : Option Char :=
  if c = '"' ∨ c = '\\' ∨ c = '/' then some c
  else if c = 'b' then some '\x08'
  else if c = 'f' then some '\x0c'
  else if c = 'n' then some '\n'
  else if c = 'r' then some '\r'
  else if c = 't' then some '\t'
  else none

def hexValue (c : Char) : Option Nat :=
  if c.isDigit then some (c.toNat - 48)
  else if 'a' ≤ c ∧ c ≤ 'f' then some (c.toNat - 87)
  else if 'A' ≤ c ∧ c ≤ 'F' then some (c.toNat - 55)
  else none

/-- The beginning of a token. -/
def begin (ts : List Token) (c : Char) : Option (List Token × Mode) :=
  if isBlank c then some (ts, .gap)
  else if isMark c then some (.mark c :: ts, .gap)
  else if c = '"' then some (ts, .str [])
  else if isWord c then some (ts, .word [c])
  else none

/-- One character, with the tokens before it, newest first. -/
def step : List Token × Mode → Char → Option (List Token × Mode)
  | (ts, .gap), c => begin ts c
  | (ts, .word read), c =>
      if isWord c then some (ts, .word (c :: read)) else begin (.word read.reverse :: ts) c
  | (ts, .str read), c =>
      if c = '"' then some (.str read.reverse :: ts, .gap)
      else if c = '\\' then some (ts, .escape read)
      else if isPlain c then some (ts, .str (c :: read))
      else none
  | (ts, .escape read), c =>
      match unescape c with
      | some c' => some (ts, .str (c' :: read))
      | none => if c = 'u' then some (ts, .hex read 4 0) else none
  | (ts, .hex read left code), c => do
      let code := 16 * code + (← hexValue c)
      if left ≤ 1 then
        if code.isValidChar then some (ts, .str (Char.ofNat code :: read)) else none
      else some (ts, .hex read (left - 1) code)

/-- The machine, over a text. -/
def run (s : List Token × Mode) (text : List Char) : Option (List Token × Mode) :=
  text.foldlM step s

/-- The tokens of a text. -/
def tokens (text : List Char) : Option (List Token) := do
  match ← run ([], .gap) text with
  | (ts, .gap) => some ts.reverse
  | (ts, .word read) => some (.word read.reverse :: ts).reverse
  | _ => none

/-! ## Values -/

/-- The value of a string of decimal digits. -/
def digits (w : List Char) : Nat := w.foldl (fun n c => 10 * n + (c.toNat - 48)) 0

/-- The part of a number behind the point and before the exponent. -/
def fraction : List Char → Option (List Char × List Char)
  | '.' :: w => let (frac, w) := w.span Char.isDigit; if frac.isEmpty then none else some (frac, w)
  | w => some ([], w)

/-- The exponent of a number. -/
def exponent : List Char → Option Int
  | [] => some 0
  | e :: w =>
      if e = 'e' ∨ e = 'E' then
        let (sign, w) : Int × List Char := match w with
          | '-' :: w => (-1, w)
          | '+' :: w => (1, w)
          | w => (1, w)
        if w.isEmpty || !w.all Char.isDigit then none else some (sign * digits w)
      else none

/-- A number. -/
def number (w : List Char) : Option Rat := do
  let (sign, w) : Rat × List Char := match w with
    | '-' :: w => (-1, w)
    | w => (1, w)
  let (int, w) := w.span Char.isDigit
  if int.isEmpty || (int.head? == some '0' && int.length != 1) then none
  let (frac, w) ← fraction w
  let exp ← exponent w
  return sign * digits (int ++ frac) * (10 : Rat) ^ (exp - frac.length)

/-- The value of a word. -/
def word (w : List Char) : Option Value :=
  if w = "true".toList then some (.bool true)
  else if w = "false".toList then some (.bool false)
  else if w = "null".toList then some .null
  else (number w).map .num

mutual

/-- A value and the tokens behind it. Each call takes a token, which bounds their depth. -/
def value : Nat → List Token → Option (Value × List Token)
  | _ + 1, .str s :: ts => some (.str (String.ofList s), ts)
  | _ + 1, .word w :: ts => (word w).map fun v => (v, ts)
  | n + 1, .mark '[' :: ts =>
      match ts with
      | .mark ']' :: ts => some (.list [], ts)
      | ts => (elements n ts).map fun (vs, ts) => (.list vs, ts)
  | n + 1, .mark '\x7b' :: ts =>
      match ts with
      | .mark '\x7d' :: ts => some (.dict [], ts)
      | ts => (members n ts []).map fun (items, ts) => (.dict items, ts)
  | _, _ => none

/-- The elements of an array, behind its bracket. -/
def elements : Nat → List Token → Option (List Value × List Token)
  | 0, _ => none
  | n + 1, ts => do
      match ← value n ts with
      | (v, .mark ',' :: ts) => (elements n ts).map fun (vs, ts) => (v :: vs, ts)
      | (v, .mark ']' :: ts) => some ([v], ts)
      | _ => none

/-- The members of an object, behind its brace; of equal names the last one counts. -/
def members : Nat → List Token → List (String × Value) →
    Option (List (String × Value) × List Token)
  | n + 1, .str key :: .mark ':' :: ts, items => do
      let (v, ts) ← value n ts
      let items := Items.set items (String.ofList key) v
      match ts with
      | .mark ',' :: ts => members n ts items
      | .mark '\x7d' :: ts => some (items, ts)
      | _ => none
  | _, _, _ => none

end

/-- The value of a text. -/
def loads (text : List Char) : Option Value := do
  let ts ← tokens text
  match ← value (ts.length + 1) ts with
  | (v, []) => some v
  | _ => none

/-! ## The tokens of a text in pieces -/

theorem run_append (s : List Token × Mode) (xs ys : List Char) :
    run s (xs ++ ys) = (run s xs).bind fun s => run s ys :=
  List.foldlM_append

/-- The machine does not look at the tokens it has. -/
theorem step_append (ts ts₀ : List Token) (mode : Mode) (c : Char) :
    step (ts ++ ts₀, mode) c = (step (ts, mode) c).map fun s => (s.1 ++ ts₀, s.2) := by
  have hbegin : ∀ ts, begin (ts ++ ts₀) c = (begin ts c).map fun s => (s.1 ++ ts₀, s.2) := by
    intro ts
    unfold begin
    repeat' split
    all_goals rfl
  cases mode with
  | gap => exact hbegin ts
  | word read =>
      unfold step
      simp only
      split
      · rfl
      · exact hbegin (.word read.reverse :: ts)
  | str read =>
      unfold step
      simp only
      repeat' split
      all_goals rfl
  | escape read =>
      unfold step
      simp only
      repeat' split
      all_goals rfl
  | hex read left code =>
      unfold step
      simp only
      cases hexValue c with
      | none => rfl
      | some k =>
          simp only [Option.bind_eq_bind, Option.bind_some]
          repeat' split
          all_goals rfl

theorem run_tokens (ts ts₀ : List Token) (mode : Mode) (text : List Char) :
    run (ts ++ ts₀, mode) text = (run (ts, mode) text).map fun s => (s.1 ++ ts₀, s.2) := by
  induction text generalizing ts mode with
  | nil => rfl
  | cons c text ih =>
      show (step (ts ++ ts₀, mode) c).bind (fun s => run s text) = _
      rw [step_append]
      show _ = ((step (ts, mode) c).bind fun s => run s text).map _
      cases step (ts, mode) c with
      | none => rfl
      | some s => exact ih s.1 s.2

/-- The tokens of a text that begins and ends between two of them are put in front. -/
theorem run_gap {text : List Char} {ts : List Token} {mode : Mode}
    (h : run ([], .gap) text = some (ts, mode)) (ts₀ : List Token) :
    run (ts₀, .gap) text = some (ts ++ ts₀, mode) := by
  have hrun := run_tokens [] ts₀ .gap text
  rw [h] at hrun
  exact hrun

/-- Inside a string, plain characters are kept. -/
theorem run_str {xs : List Char} (h : ∀ c ∈ xs, isPlain c = true) (ts : List Token)
    (read : List Char) : run (ts, .str read) xs = some (ts, .str (xs.reverse ++ read)) := by
  induction xs generalizing read with
  | nil => rfl
  | cons c xs ih =>
      have hc := h c List.mem_cons_self
      have hstep : step (ts, .str read) c = some (ts, .str (c :: read)) := by
        have hplain := hc
        simp only [isPlain, Bool.and_eq_true, bne_iff_ne] at hplain
        unfold step
        simp only [hplain.1.1, hplain.1.2, if_false, hc, if_true]
      show (step (ts, .str read) c).bind (fun s => run s xs) = _
      rw [hstep]
      show run (ts, .str (c :: read)) xs = _
      rw [ih (fun c hc => h c (List.mem_cons_of_mem _ hc)), List.reverse_cons, List.append_assoc,
        List.singleton_append]

/-- A string ends at its quote. -/
theorem run_string {xs : List Char} (h : ∀ c ∈ xs, isPlain c = true) (ts : List Token)
    (read rest : List Char) :
    run (ts, .str read) (xs ++ '"' :: rest) = run (.str (read.reverse ++ xs) :: ts, .gap) rest := by
  rw [run_append, run_str h]
  show run (.str (xs.reverse ++ read).reverse :: ts, .gap) rest = _
  rw [List.reverse_append, List.reverse_reverse]

/-- A control character stops the machine inside a string. -/
theorem run_str_control {xs : List Char} (hquote : ∀ c ∈ xs, c ≠ '"' ∧ c ≠ '\\')
    (h : ∃ c ∈ xs, c.toNat < 32) (ts : List Token) (read : List Char) :
    run (ts, .str read) xs = none := by
  induction xs generalizing read with
  | nil => obtain ⟨c, hc, -⟩ := h; cases hc
  | cons c xs ih =>
      obtain ⟨hq, hb⟩ := hquote c List.mem_cons_self
      show (step (ts, .str read) c).bind (fun s => run s xs) = none
      have hstep : step (ts, .str read) c
          = if isPlain c then some (ts, .str (c :: read)) else none := by
        unfold step
        simp only [hq, hb, if_false]
      rw [hstep]
      by_cases hc : isPlain c = true
      · rw [if_pos hc]
        refine ih (fun c hc => hquote c (List.mem_cons_of_mem _ hc)) ?_ (c :: read)
        obtain ⟨c', hc', hcontrol⟩ := h
        rcases List.mem_cons.mp hc' with rfl | hc'
        · simp only [isPlain, Bool.and_eq_true, decide_eq_true_eq] at hc
          omega
        · exact ⟨c', hc', hcontrol⟩
      · rw [if_neg hc]
        rfl

end JsonText
