import MigrationPlatform.Hack.Formats

/-!
# The argument rules of formats

What Go's rules make of a format: it is a list of elements, literal text and verbs,
and `selections` says which value each verb stands for. `go_format` is to put these
values in, and nothing else (`goFormat_writeFormat`).

A format is written with its percent signs doubled. `go_format` hides them behind a
NUL while it looks for verbs, so they are followed in three steps: the text with
the hidden signs, what is put in for its verbs, and the signs shown again.
-/

namespace MigrationPlatform.Hack

open Regex Py

/-! ## Elements -/

/-- No NUL in a text. -/
def noNul (s : List Char) : Bool := s.all (· != '\x00')

/-- The letters of the verbs. -/
inductive Letter where
  | s
  | d
  | v

def Letter.char : Letter → Char
  | .s => 's'
  | .d => 'd'
  | .v => 'v'

/-- An element of a format: literal text, a verb, or a verb with the number of its value. -/
inductive Element where
  | text (s : List Char) (hs : noNul s = true)
  | verb (l : Letter)
  | nthVerb (n : Nat) (hn : 1 ≤ n) (l : Letter)

/-- A literal text, with each percent sign doubled. -/
def doubled (s : List Char) : List Char := s.flatMap fun c => if c = '%' then ['%', '%'] else [c]

/-- An element as it is written in a format. -/
def Element.chars : Element → List Char
  | .text s _ => doubled s
  | .verb l => ['%', l.char]
  | .nthVerb n _ l => '%' :: '[' :: (Nat.toDigits 10 n ++ [']', l.char])

/-- A format, written. -/
def writeFormat (elems : List Element) : String := String.ofList (elems.flatMap Element.chars)

/-- A value for a verb: a string or an integer. -/
inductive Arg where
  | str (s : String) (hs : noNul s.toList = true)
  | int (n : Int)

/-- The value as Python has it. -/
def Arg.toTree : Arg → Tree
  | .str s _ => .str s
  | .int n => .int n

/-- The string, or the decimal form of the integer. -/
def Arg.text : Arg → List Char
  | .str s _ => s.toList
  | .int n => (toString n).toList

/--
**The argument rules**: what a format comes to, by its literal texts and the
positions of the values it selects. A verb with a number selects the value of that
number; one without selects the value behind the one that was selected last, the
first one at the beginning.
-/
def selections : List Element → Nat → List (List Char ⊕ Nat)
  | [], _ => []
  | .text s _ :: elems, next => .inl s :: selections elems next
  | .verb _ :: elems, next => .inr next :: selections elems (next + 1)
  | .nthVerb n _ _ :: elems, _ => .inr (n - 1) :: selections elems n

/-- There is a value for each verb. -/
def LongEnough (args : List Arg) (selected : List (List Char ⊕ Nat)) : Prop :=
  ∀ i, .inr i ∈ selected → i < args.length

/-- The value is a string, or an integer that Python converts. -/
def Arg.Short : Arg → Prop
  | .str _ _ => True
  | .int n => Convertible n.natAbs

/-- The number of a verb, if it has one, is one that Python converts. -/
def Element.Short : Element → Prop
  | .nthVerb n _ _ => Convertible n
  | _ => True

/-- The values that are selected are not too long. -/
def ShortValues (args : List Arg) (selected : List (List Char ⊕ Nat)) : Prop :=
  ∀ i arg, .inr i ∈ selected → args[i]? = some arg → arg.Short

/-- The literal texts and the selected values, one after the other. -/
def formatted (args : List Arg) (selected : List (List Char ⊕ Nat)) : List Char :=
  selected.flatMap (Sum.elim id fun i => (args[i]?.map Arg.text).getD [])

/-! ## Hidden percent signs -/

/-- A percent sign, hidden. -/
def hide (c : Char) : Char := if c = '%' then '\x00' else c

/-- An element with its percent signs hidden. -/
def Element.hidden : Element → List Char
  | .text s _ => s.map hide
  | elem => elem.chars

theorem hide_ne (c : Char) : hide c ≠ '%' := by
  unfold hide
  split
  · decide
  · assumption

theorem hidePercents_cons {c : Char} (h : c ≠ '%') (rest : List Char) :
    hidePercents (c :: rest) = c :: hidePercents rest :=
  hidePercents_plain (p := [c]) (fun a ha => by rwa [List.mem_singleton.mp ha]) rest

theorem hidePercents_doubled (s rest : List Char) :
    hidePercents (doubled s ++ rest) = s.map hide ++ hidePercents rest := by
  induction s with
  | nil => rfl
  | cons c s ih =>
      unfold doubled at ih ⊢
      rw [List.flatMap_cons, List.append_assoc, List.map_cons, List.cons_append, ← ih]
      unfold hide
      split
      · rename_i hc
        rfl
      · rename_i hc
        exact hidePercents_cons hc _

/-- A percent sign in front of a verb is not one of two. -/
theorem hidePercents_verb {c : Char} (h : c ≠ '%') (rest : List Char) :
    hidePercents ('%' :: c :: rest) = '%' :: c :: hidePercents rest := by
  rw [hidePercents, hidePercents_cons h]
  intro _ _ hcs
  exact h (List.cons.inj hcs).1

theorem Letter.char_ne (l : Letter) : l.char ≠ '%' := by
  cases l <;> decide

theorem hidePercents_element (elem : Element) (rest : List Char) :
    hidePercents (elem.chars ++ rest) = elem.hidden ++ hidePercents rest := by
  cases elem with
  | text s hs => exact hidePercents_doubled s rest
  | verb l => exact hidePercents_verb l.char_ne rest
  | nthVerb n hn l =>
      have hdigits : ∀ c ∈ Nat.toDigits 10 n, c ≠ '%' := fun c hc => digit_ne_of_mem rfl hc
      show hidePercents ('%' :: '[' :: (Nat.toDigits 10 n ++ [']', l.char] ++ rest))
        = '%' :: '[' :: (Nat.toDigits 10 n ++ [']', l.char] ++ hidePercents rest)
      rw [hidePercents_verb (by decide), List.append_assoc, hidePercents_plain hdigits,
        List.append_assoc]
      show '%' :: '[' :: (Nat.toDigits 10 n ++ hidePercents (']' :: l.char :: rest)) = _
      rw [hidePercents_cons (by decide), hidePercents_cons l.char_ne]
      rfl

theorem hidePercents_writeFormat (elems : List Element) :
    hidePercents (writeFormat elems).toList = elems.flatMap Element.hidden := by
  unfold writeFormat
  rw [String.toList_ofList]
  induction elems with
  | nil => rfl
  | cons elem elems ih =>
      rw [List.flatMap_cons, List.flatMap_cons, hidePercents_element, ih]

/-! ## Verbs -/

section Verbs

variable {d : Digits}

/-- The characters that a verb can end with. -/
theorem Letter.isLetter (l : Letter) :
    (l.char == 's' || l.char == 'd' || l.char == 'v') = true := by
  cases l <;> decide

/-- A verb without a number. -/
theorem matchAt_verb_letter (l : Letter) (before rest : List Char) :
    matchAt id (fun _ => false) (verb d).re before ('%' :: l.char :: rest)
      = some ⟨['%', l.char], [(2, [l.char])]⟩ := by
  have hlen : rest.length + 1 + 1 - rest.length = 2 := by omega
  cases l <;> simp [matchAt, verb, Letter.char, Re.all, Re.opt, Re.lit, results, hlen]

/-- A verb with a number. -/
theorem matchAt_verb_nth (hd : d.Ascii) (n : Nat) (l : Letter) (before rest : List Char) :
    matchAt id (fun _ => false) (verb d).re before
        ('%' :: '[' :: (Nat.toDigits 10 n ++ ']' :: l.char :: rest))
      = some ⟨'%' :: '[' :: (Nat.toDigits 10 n ++ [']', l.char]),
          [(2, [l.char]), (1, Nat.toDigits 10 n)]⟩ := by
  -- the digits end where the bracket is closed
  have hdecimal : (Nat.toDigits 10 n).all (fun c => (d.decimal c).isSome) = true := by
    rw [List.all_eq_true]
    intro c hc
    have hdigit := Nat.isDigit_of_mem_toDigits (by omega) (by omega) hc
    rw [hd.decimal c (toNat_lt_of_isDigit hdigit), if_pos hdigit]
    rfl
  have hbracket : (d.decimal ']').isSome = false := by
    rw [hd.decimal ']' (by decide)]
    rfl
  -- of the digits no more is needed
  generalize hdigits : Nat.toDigits 10 n = digits at hdecimal
  have hne : digits ≠ [] := hdigits ▸ Nat.toDigits_ne_nil
  have hpercent : (results id (fun _ => false) (.lit "%")
      ⟨before, '%' :: '[' :: (digits ++ ']' :: l.char :: rest), []⟩).head?
      = some ⟨'%' :: before, '[' :: (digits ++ ']' :: l.char :: rest), []⟩ := by
    show (results id (fun _ => false) (.lit "%")
      ⟨before, ['%'] ++ '[' :: (digits ++ ']' :: l.char :: rest), []⟩).head? = _
    exact head?_lit rfl _ _ _
  have hnumber : (results id (fun _ => false)
      (.all [.lit "[", .group 1 (.plus (.cls fun c => (d.decimal c).isSome)), .lit "]"])
      ⟨'%' :: before, '[' :: (digits ++ ']' :: l.char :: rest), []⟩).head?
      = some ⟨']' :: (digits.reverse ++ '[' :: '%' :: before), l.char :: rest, [(1, digits)]⟩ :=
    head?_delimited 1 rfl rfl hbracket hne hdecimal rfl rfl _ _ _
  have hindex : (results id (fun _ => false)
      (.opt (.all [.lit "[", .group 1 (.plus (.cls fun c => (d.decimal c).isSome)), .lit "]"]))
      ⟨'%' :: before, '[' :: (digits ++ ']' :: l.char :: rest), []⟩).head?
      = some ⟨']' :: (digits.reverse ++ '[' :: '%' :: before), l.char :: rest, [(1, digits)]⟩ := by
    rw [Re.opt, results, List.head?_append, hnumber]
    rfl
  have hletter : (results id (fun _ => false)
      (.all [.group 2 (.cls fun c => c == 's' || c == 'd' || c == 'v')])
      ⟨']' :: (digits.reverse ++ '[' :: '%' :: before), l.char :: rest, [(1, digits)]⟩).head?
      = some ⟨l.char :: ']' :: (digits.reverse ++ '[' :: '%' :: before), rest,
          [(2, [l.char]), (1, digits)]⟩ := by
    rw [results_all_cons, results, results_cls_cons, id, if_pos l.isLetter]
    simp [Re.all, results]
  have hhead : (results id (fun _ => false) (verb d).re
      ⟨before, '%' :: '[' :: (digits ++ ']' :: l.char :: rest), []⟩).head?
      = some ⟨l.char :: ']' :: (digits.reverse ++ '[' :: '%' :: before), rest,
          [(2, [l.char]), (1, digits)]⟩ :=
    head?_flatMap_of_head hpercent (head?_flatMap_of_head hindex hletter)
  rw [matchAt_of_head hhead (n := digits.length + 4) (by simp)]
  simp [List.take_append]

/-! ## Following the scan -/

theorem pyStr_arg (d : Digits) {arg : Arg} (h : arg.Short) :
    pyStr d arg.toTree = .ok (String.ofList arg.text) := by
  cases arg with
  | str s hs =>
      show Except.ok s = Except.ok (String.ofList s.toList)
      rw [String.ofList_toList]
  | int n =>
      show intStr n = Except.ok (String.ofList (toString n).toList)
      rw [intStr, if_pos (show Convertible n.natAbs from h), String.ofList_toList]

/-- **One verb**: the value it selects is put in, and the scan goes on behind it. -/
theorem substituteFrom_select {args : List Arg} {before text rest out : List Char} {m : Match Char}
    {next : Int} {i : Nat} (hi : i < args.length) (hshort : ∀ arg, args[i]? = some arg → arg.Short)
    (hm : matchAt id (fun _ => false) (verb d).re before (text ++ rest) = some m)
    (htext : m.text = text)
    (hindex : verbIndex d m next = .ok i)
    (hrest : substituteFrom d (args.map Arg.toTree) (text.reverse ++ before) rest
        ((i + 1 : Nat) : Int) = .ok out) :
    substituteFrom d (args.map Arg.toTree) before (text ++ rest) next
      = .ok ((args[i]?.map Arg.text).getD [] ++ out) := by
  have hvalue := pyStr_arg d (hshort _ (List.getElem?_eq_getElem hi))
  rw [substituteFrom_match hm htext hindex, List.getElem?_map, List.getElem?_eq_getElem hi]
  show (do
      let value ← pyStr d args[i].toTree
      (value.toList ++ ·) <$> substituteFrom d _ _ rest ((i : Int) + 1)) = _
  rw [hvalue]
  show ((String.ofList args[i].text).toList ++ ·) <$> substituteFrom d _ _ rest ((i : Int) + 1) = _
  rw [String.toList_ofList]
  exact congrArg (Functor.map (args[i].text ++ ·)) hrest

/-- The selections with the percent signs of the texts hidden. -/
def hideTexts (selected : List (List Char ⊕ Nat)) : List (List Char ⊕ Nat) :=
  selected.map (Sum.map (List.map hide) id)

/-- **The whole scan**: each verb has the value that the rules select for it. -/
theorem substituteFrom_elements (hd : d.Ascii) {args : List Arg} {elems : List Element} {next : Nat}
    (h : LongEnough args (selections elems next)) (helems : ∀ elem ∈ elems, elem.Short)
    (hargs : ShortValues args (selections elems next)) (before : List Char) :
    substituteFrom d (args.map Arg.toTree) before (elems.flatMap Element.hidden) next
      = .ok (formatted args (hideTexts (selections elems next))) := by
  -- `next` is the value behind the last selection, for the rules and for the scan
  induction elems generalizing next before with
  | nil => rfl
  | cons elem elems ih =>
      have helems' : ∀ elem ∈ elems, elem.Short := fun e he => helems e (List.mem_cons_of_mem _ he)
      rw [List.flatMap_cons]
      cases elem with
      | text s hs =>
          have hrest : LongEnough args (selections elems next) :=
            fun i hi => h i (List.mem_cons_of_mem _ hi)
          have hargs' : ShortValues args (selections elems next) :=
            fun i arg hi => hargs i arg (List.mem_cons_of_mem _ hi)
          have hplain : ∀ c ∈ s.map hide, c ≠ '%' := by
            intro c hc
            obtain ⟨a, -, rfl⟩ := List.mem_map.mp hc
            exact hide_ne a
          show substituteFrom d _ before (s.map hide ++ _) next = _
          rw [substituteFrom_plain d hplain, ih hrest helems' hargs']
          rfl
      | verb l =>
          have hrest : LongEnough args (selections elems (next + 1)) :=
            fun i hi => h i (List.mem_cons_of_mem _ hi)
          have hargs' : ShortValues args (selections elems (next + 1)) :=
            fun i arg hi => hargs i arg (List.mem_cons_of_mem _ hi)
          exact substituteFrom_select (h next List.mem_cons_self)
            (fun arg => hargs next arg List.mem_cons_self)
            (matchAt_verb_letter l before _) rfl rfl (ih hrest helems' hargs' _)
      | nthVerb n hn l =>
          have hrest : LongEnough args (selections elems n) :=
            fun i hi => h i (List.mem_cons_of_mem _ hi)
          have hargs' : ShortValues args (selections elems n) :=
            fun i arg hi => hargs i arg (List.mem_cons_of_mem _ hi)
          have hm := matchAt_verb_nth hd n l before (elems.flatMap Element.hidden)
          have htext : '%' :: '[' :: (Nat.toDigits 10 n ++ ']' :: l.char
                :: elems.flatMap Element.hidden)
              = (Element.nthVerb n hn l).chars ++ elems.flatMap Element.hidden := by
            show _ = '%' :: '[' :: (Nat.toDigits 10 n ++ [']', l.char] ++ _)
            rw [List.append_assoc]
            rfl
          have hindex : (fun n : Nat => (n : Int) - 1) <$> d.int (Nat.toDigits 10 n)
              = Except.ok ((n - 1 : Nat) : Int) := by
            rw [hd.int_toDigits (helems _ List.mem_cons_self)]
            show Except.ok ((n : Int) - 1) = _
            rw [Int.natCast_sub hn]
            rfl
          -- behind the `n`-th value comes the one at position `n`
          have hnext : n - 1 + 1 = n := Nat.sub_add_cancel hn
          have hrest : substituteFrom d (args.map Arg.toTree)
              ((Element.nthVerb n hn l).chars.reverse ++ before) (elems.flatMap Element.hidden)
              ((n - 1 + 1 : Nat) : Int)
              = .ok (formatted args (hideTexts (selections elems n))) := by
            rw [hnext]
            exact ih hrest helems' hargs' _
          rw [htext] at hm
          exact substituteFrom_select (h (n - 1) List.mem_cons_self)
            (fun arg => hargs (n - 1) arg List.mem_cons_self) hm rfl hindex hrest

end Verbs

/-! ## The percent signs shown again -/

theorem showPercents_noNul {s : List Char} (h : noNul s = true) : showPercents s = s :=
  showPercents_eq_self fun c hc => bne_iff_ne.mp (List.all_eq_true.mp h c hc)

theorem showPercents_hide {s : List Char} (h : noNul s = true) :
    showPercents (s.map hide) = s := by
  unfold showPercents
  rw [List.map_map]
  refine (List.map_congr_left fun c hc => ?_).trans (List.map_id s)
  have hc : c ≠ '\x00' := bne_iff_ne.mp (List.all_eq_true.mp h c hc)
  show (if hide c = '\x00' then '%' else hide c) = c
  unfold hide
  split
  · rename_i hpercent
    exact hpercent.symm
  · rfl

/-- A value has no NUL, so it is shown as it is. -/
theorem Arg.noNul_text (arg : Arg) : noNul arg.text = true := by
  cases arg with
  | str s hs => exact hs
  | int n =>
      unfold noNul
      rw [List.all_eq_true]
      intro c hc
      rw [bne_iff_ne]
      have hdigits : ∀ {k : Nat}, c ∈ (Nat.repr k).toList → c ≠ '\x00' := by
        intro k hk
        rw [Nat.toList_repr] at hk
        exact digit_ne_of_mem rfl hk
      have hc : c ∈ (toString n).toList := hc
      cases n with
      | ofNat k => exact hdigits hc
      | negSucc k =>
          have hsign : (toString (Int.negSucc k)).toList = '-' :: (Nat.repr (k + 1)).toList := by
            show ("-" ++ Nat.repr (k + 1)).toList = _
            rw [String.toList_append]
            rfl
          rw [hsign] at hc
          rcases List.mem_cons.mp hc with rfl | hc
          · decide
          · exact hdigits hc

theorem noNul_of_mem_selections {s : List Char} {elems : List Element} {next : Nat}
    (h : .inl s ∈ selections elems next) : noNul s = true := by
  induction elems generalizing next with
  | nil => cases h
  | cons elem elems ih =>
      cases elem with
      | text t ht =>
          rcases List.mem_cons.mp h with h | h
          · obtain rfl := Sum.inl.inj h
            exact ht
          · exact ih h
      | verb l => exact ih ((List.mem_cons.mp h).resolve_left (by simp))
      | nthVerb n hn l => exact ih ((List.mem_cons.mp h).resolve_left (by simp))

theorem showPercents_formatted (args : List Arg) {selected : List (List Char ⊕ Nat)}
    (h : ∀ s, .inl s ∈ selected → noNul s = true) :
    showPercents (formatted args (hideTexts selected)) = formatted args selected := by
  unfold formatted hideTexts
  induction selected with
  | nil => rfl
  | cons x selected ih =>
      rw [List.map_cons, List.flatMap_cons, List.flatMap_cons, showPercents_append,
        ih fun s hs => h s (List.mem_cons_of_mem _ hs)]
      congr 1
      cases x with
      | inl s => exact showPercents_hide (h s List.mem_cons_self)
      | inr i =>
          show showPercents ((args[i]?.map Arg.text).getD []) = (args[i]?.map Arg.text).getD []
          cases args[i]? with
          | none => rfl
          | some arg => exact showPercents_noNul arg.noNul_text

/--
**`go_format` follows the argument rules** on every format of literal texts and verbs,
if no number of a verb and no integer that is selected is too long.
-/
theorem goFormat_writeFormat {d : Digits} (hd : d.Ascii) (elems : List Element) (args : List Arg)
    (h : LongEnough args (selections elems 0)) (helems : ∀ elem ∈ elems, elem.Short)
    (hargs : ShortValues args (selections elems 0)) :
    goFormat d (writeFormat elems) (args.map Arg.toTree)
      = .ok (String.ofList (formatted args (selections elems 0))) := by
  have hscan := substituteFrom_elements hd h helems hargs []
  unfold goFormat
  rw [hidePercents_writeFormat]
  show (do
      let out ← substituteFrom d (args.map Arg.toTree) [] (elems.flatMap Element.hidden) (0 : Nat)
      return String.ofList (showPercents out)) = _
  rw [hscan, ← showPercents_formatted args fun s hs => noNul_of_mem_selections hs]
  rfl

/-- Percent signs in front of verbs, a number in mid-format, and a value that looks like a verb. -/
theorem goFormat_writeFormat_mixed :
    let args : List Arg := [.str "%s" (by decide), .int (-7)]
    goFormat asciiDigits "100%%%d: %[1]s %v" (args.map Arg.toTree) = .ok "100%%s: %s -7" := by
  intro args
  have hselected : ∀ i, .inr i ∈ selections [.text "100%".toList (by decide), .verb .d,
      .text ": ".toList (by decide), .nthVerb 1 (by decide) .s, .text " ".toList (by decide),
      .verb .v] 0 → i = 0 ∨ i = 1 := by
    intro i hi
    simpa [selections] using hi
  refine goFormat_writeFormat asciiDigits_ascii [.text "100%".toList (by decide), .verb .d,
    .text ": ".toList (by decide), .nthVerb 1 (by decide) .s, .text " ".toList (by decide),
    .verb .v] args (fun i hi => ?_) ?_ fun i arg hi harg => ?_
  · rcases hselected i hi with rfl | rfl <;> decide
  · simp only [List.forall_mem_cons, Element.Short]
    exact ⟨trivial, trivial, trivial, by decide, trivial, trivial, by simp⟩
  · rcases hselected i hi with rfl | rfl <;> obtain rfl := Option.some.inj harg
    · trivial
    · show Convertible 7
      decide

theorem intStr_of_not_convertible {n : Nat} (h : ¬ Convertible n) :
    intStr n = .error .valueError := by
  unfold intStr
  rw [Int.natAbs_natCast, if_neg h]

/-- An integer of 4301 digits has no decimal form in Python, so it cannot be put in. -/
theorem not_goFormat_writeFormat :
    ¬ ∀ (d : Digits), d.Ascii → ∀ (elems : List Element) (args : List Arg),
      LongEnough args (selections elems 0) →
      goFormat d (writeFormat elems) (args.map Arg.toTree)
        = .ok (String.ofList (formatted args (selections elems 0))) := by
  intro h
  have hlong : ¬ Convertible (10 ^ maxStrDigits) := by
    rw [convertible_iff]
    exact Nat.lt_irrefl _
  have henough : ∀ n : Int, LongEnough [.int n] (selections [.verb .d] 0) := by
    intro n i hi
    obtain rfl : i = 0 := by simpa [selections] using hi
    exact Nat.zero_lt_one
  -- the one verb asks for the text of the one value
  have hraises : ∀ n : Int, goFormat asciiDigits (writeFormat [.verb .d]) [.int n]
      = (intStr n).map fun text => String.ofList (showPercents text.toList) := by
    intro n
    unfold goFormat
    rw [hidePercents_writeFormat]
    show (do
        let out ← substituteFrom asciiDigits [.int n] [] (['%', 'd'] ++ []) (0 : Nat)
        return String.ofList (showPercents out)) = _
    have hm : matchAt id (fun _ => false) (verb asciiDigits).re [] (['%', 'd'] ++ [])
        = some ⟨['%', 'd'], [(2, ['d'])]⟩ := matchAt_verb_letter .d [] []
    have hindex : verbIndex asciiDigits ⟨['%', 'd'], [(2, ['d'])]⟩ (0 : Nat) = .ok (0 : Nat) := rfl
    rw [substituteFrom_match hm rfl hindex]
    show (do
        let out ← (do
          let value ← intStr n
          return value.toList ++ [])
        return String.ofList (showPercents out)) = _
    cases intStr n with
    | error e => rfl
    | ok text =>
        show Except.ok (String.ofList (showPercents (text.toList ++ []))) = _
        rw [List.append_nil]
        rfl
  have hformat := h asciiDigits asciiDigits_ascii [.verb .d]
    [.int ((10 ^ maxStrDigits : Nat) : Int)] (henough _)
  rw [List.map_singleton, Arg.toTree, hraises, intStr_of_not_convertible hlong] at hformat
  cases hformat

end MigrationPlatform.Hack
