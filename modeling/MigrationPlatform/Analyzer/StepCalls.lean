import MigrationPlatform.Lib.RegexWalk
import MigrationPlatform.Analyzer.Findings

/-!
# Step calls, read without regular expressions

What the step pattern finds in a line, as a reading of the line: a call begins at a
statement start, with the whole of an identifier, and what follows the identifier
shows that it is called. A match never reaches the next statement start, so every
call is found, and found once.
-/

namespace MigrationPlatform.Analyzer

open Regex

/-- The characters behind which a statement starts. -/
def isBrace (c : Char) : Bool := c == '\x7b' || c == ';'

/-- What stands behind each `\x7b` and `;`. -/
def behindBraces : Text → List Text
  | [] => []
  | x :: xs => if isBrace x then xs :: behindBraces xs else behindBraces xs

/-- The statement starts of a line, each with what follows it. -/
def statementStarts (line : Text) : List Text := line :: behindBraces line

/--
What follows a name shows that it is called: an opening parenthesis after optional
white space; or white space and a quote; or white space, an identifier and, after
optional white space, a colon.
-/
def showsCall (behind : Text) : Bool :=
  let next := behind.dropWhile isSpace
  next.head?.any (· == '(')
    || (behind.head?.any isSpace && (next.head?.any isQuote
      || (next.head?.any isIdentStart
        && ((next.dropWhile isIdent).dropWhile isSpace).head?.any (· == ':'))))

/-- The name that is called at a statement start, by the identifier after optional white space. -/
def calledName (start : Text) : Option Text :=
  let next := start.dropWhile isSpace
  if next.head?.any isIdentStart && showsCall (next.dropWhile isIdent) then
    some (next.takeWhile isIdent)
  else none

/-- The names that a line calls, one for each statement start with a call. -/
def calledNames (line : Text) : List Text := (statementStarts line).filterMap calledName

/-! ## Classes that exclude each other -/

theorem isIdent_of_isIdentStart {c : Char} (h : isIdentStart c = true) : isIdent c = true := by
  simp only [isIdentStart, Bool.or_eq_true] at h
  simp only [isIdent, Char.isAlphanum, Bool.or_eq_true]
  exact h.imp_left .inl

theorem not_isIdentStart_of_isSpace {c : Char} (h : isSpace c = true) : isIdentStart c = false := by
  by_contra hc
  have hident := isIdent_of_isIdentStart (Bool.not_eq_false _ ▸ hc : isIdentStart c = true)
  rw [not_isIdent_of_isSpace h] at hident
  cases hident

theorem not_isSpace_of_isIdent {c : Char} (h : isIdent c = true) : isSpace c = false := by
  by_contra hc
  rw [not_isIdent_of_isSpace (Bool.not_eq_false _ ▸ hc : isSpace c = true)] at h
  cases h

/-- A character outside a class is none of the class. -/
theorem ne_of_class {p : Char → Bool} {a c : Char} (ha : p a = false) (h : p c = true) :
    (c == a) = false :=
  beq_eq_false_iff_ne.mpr fun he => by rw [he, ha] at h; cases h

theorem not_isQuote_of_class {p : Char → Bool} {c : Char} (h1 : p '\'' = false)
    (h2 : p '"' = false) (h : p c = true) : isQuote c = false := by
  rw [isQuote, ne_of_class h1 h, ne_of_class h2 h]
  rfl

theorem not_isBrace_of_class {p : Char → Bool} {c : Char} (h1 : p '\x7b' = false)
    (h2 : p ';' = false) (h : p c = true) : isBrace c = false := by
  rw [isBrace, ne_of_class h1 h, ne_of_class h2 h]
  rfl

/-! ## The call pattern -/

section Pattern

variable (word : Char → Bool)

/-- What follows the name in the step pattern. -/
def callTail : Re :=
  .any [.all [spaces, .lit "("], .all [someSpaces, ident, spaces, .lit ":"],
    .all [someSpaces, quote]]

/-- The step pattern behind its statement start. -/
def callBody : Re := .all [spaces, .group 1 ident, callTail]

/-- `\s*\(`. -/
theorem results_spaces_lit {s : String} {a : Char} (hs : s.toList = [a]) (ha : isSpace a = false)
    (c : Cursor Char) :
    results id word (.all [spaces, .lit s]) c
      = if (c.skipWhile id isSpace).sees id (· == a) then [(c.skipWhile id isSpace).advance 1]
        else [] := by
  have hlit : ∀ c, results id word (.all [.lit s]) c
      = if c.sees id (· == a) then [c.advance 1] else [] := by
    intro c
    rw [results_all_cons, results_lit_one hs]
    split <;> rfl
  rw [results_all_cons, spaces, flatMap_star, hlit]
  intro c hc
  rw [hlit, Cursor.not_sees (fun b hb => ne_of_class ha hb) hc]
  rfl

/-- No part of an identifier is followed by the character. -/
theorem results_spaces_lit_of_ident {s : String} {a : Char} (hs : s.toList = [a])
    (ha : isSpace a = false) (ha' : isIdent a = false) {c : Cursor Char}
    (hc : c.sees id isIdent = true) : results id word (.all [spaces, .lit s]) c = [] := by
  have hnext : c.skipWhile id isSpace = c :=
    Cursor.skipWhile_of_not_sees (Cursor.not_sees (fun b hb => not_isSpace_of_isIdent hb) hc)
  rw [results_spaces_lit word hs ha, hnext,
    Cursor.not_sees (fun b hb => ne_of_class ha' hb) hc]
  rfl

/-- `\s+['"]`. -/
theorem results_spaces_quote (c : Cursor Char) :
    results id word (.all [someSpaces, quote]) c
      = if c.sees id isSpace && (c.skipWhile id isSpace).sees id isQuote then
          [(c.skipWhile id isSpace).advance 1]
        else [] := by
  have hquote : ∀ c, results id word (.all [quote]) c
      = if c.sees id isQuote then [c.advance 1] else [] := by
    intro c
    rw [results_all_cons, quote, results_cls]
    split <;> rfl
  rw [results_all_cons, someSpaces, flatMap_plus, hquote]
  · cases c.sees id isSpace <;> rfl
  · intro c hc
    rw [hquote, Cursor.not_sees (fun b hb => not_isQuote_of_class (by decide) (by decide) hb) hc]
    rfl

/-- `\s+[A-Za-z_][A-Za-z0-9_]*\s*:`. -/
theorem results_spaces_key (c : Cursor Char) :
    results id word (.all [someSpaces, ident, spaces, .lit ":"]) c
      = if c.sees id isSpace && ((c.skipWhile id isSpace).sees id isIdentStart
          && (((c.skipWhile id isSpace).skipWhile id isIdent).skipWhile id isSpace).sees id
            (· == ':')) then
          [(((c.skipWhile id isSpace).skipWhile id isIdent).skipWhile id isSpace).advance 1]
        else [] := by
  have hcolon := results_spaces_lit word (show ":".toList = [':'] from rfl) (by decide)
  have hident : ∀ c, results id word (.all [ident, spaces, .lit ":"]) c
      = if c.sees id isIdentStart then
          results id word (.all [spaces, .lit ":"]) (c.skipWhile id isIdent)
        else [] := by
    intro c
    rw [results_all_cons, ident, flatMap_cls_star fun _ h => isIdent_of_isIdentStart h]
    intro c hc
    exact results_spaces_lit_of_ident word rfl (by decide) (by decide) hc
  rw [results_all_cons, someSpaces, flatMap_plus, hident, hcolon]
  · cases c.sees id isSpace <;> cases (c.skipWhile id isSpace).sees id isIdentStart <;> rfl
  · intro c hc
    rw [hident, Cursor.not_sees (fun b hb => not_isIdentStart_of_isSpace hb) hc]
    rfl

/-- **The end of the pattern matches where a call is shown.** -/
theorem results_callTail (c : Cursor Char) :
    results id word callTail c = [] ↔ showsCall c.rest = false := by
  have hany : results id word callTail c
      = results id word (.all [spaces, .lit "("]) c
        ++ (results id word (.all [someSpaces, ident, spaces, .lit ":"]) c
          ++ results id word (.all [someSpaces, quote]) c) := rfl
  rw [hany, results_spaces_lit word (show "(".toList = ['('] from rfl) (by decide),
    results_spaces_key, results_spaces_quote]
  simp only [Cursor.sees_skipWhile, Cursor.rest_skipWhile, id, List.append_eq_nil_iff,
    ite_eq_right_iff, List.cons_ne_nil, imp_false, Bool.not_eq_true]
  rw [showsCall, Bool.or_eq_false_iff]
  refine and_congr_right fun _ => ?_
  cases hspace : c.sees id isSpace with
  | false =>
      have hspace : c.rest.head?.any isSpace = false := hspace
      simp [hspace]
  | true =>
      have hspace : c.rest.head?.any isSpace = true := hspace
      simp only [hspace, Bool.true_and, Bool.or_eq_false_iff]
      exact and_comm

theorem showsCall_of_ident {behind : Text} (h : behind.head?.any isIdent = true) :
    showsCall behind = false := by
  cases behind with
  | nil => cases h
  | cons x xs =>
      have hx : isIdent x = true := by simpa using h
      have hparen : (x == '(') = false := ne_of_class (by decide) hx
      simp only [showsCall, List.dropWhile_cons, not_isSpace_of_isIdent hx, List.head?_cons,
        Option.any_some, hparen, Bool.false_eq_true, if_false, Bool.false_and, Bool.or_self]

/-- An identifier is read to its end if what follows cannot begin with its characters. -/
theorem flatMap_ident {β : Type} {f : Cursor Char → List β}
    (hf : ∀ c, c.sees id isIdent = true → f c = []) (c : Cursor Char) :
    (results id word (.group 1 ident) c).flatMap f
      = if c.sees id isIdentStart then
          f { c.skipWhile id isIdent with groups := (1, c.rest.takeWhile isIdent) :: c.groups }
        else [] := by
  have hlength : c.rest.length - (c.rest.dropWhile isIdent).length
      = (c.rest.takeWhile isIdent).length := by
    have hsum := congrArg List.length (List.takeWhile_append_dropWhile (p := isIdent) (l := c.rest))
    rw [List.length_append] at hsum
    omega
  rw [results, List.flatMap_map, ident, flatMap_cls_star fun _ h => isIdent_of_isIdentStart h]
  · simp only [Cursor.rest_skipWhile, Cursor.groups_skipWhile, id, hlength, take_takeWhile]
  · intro c' hc'
    exact hf _ hc'

/-- **The pattern behind its start**: white space, the whole of an identifier, and a call. -/
theorem results_callBody (c : Cursor Char) :
    results id word callBody c
      = if (c.skipWhile id isSpace).sees id isIdentStart then
          results id word callTail
            { (c.skipWhile id isSpace).skipWhile id isIdent with
              groups := (1, (c.rest.dropWhile isSpace).takeWhile isIdent) :: c.groups }
        else [] := by
  have htail : ∀ c, results id word (.all [callTail]) c = results id word callTail c := by
    intro c
    rw [results_all_cons]
    exact List.flatMap_singleton' _
  have hgroup : ∀ c, results id word (.all [.group 1 ident, callTail]) c
      = if c.sees id isIdentStart then
          results id word callTail
            { c.skipWhile id isIdent with groups := (1, c.rest.takeWhile isIdent) :: c.groups }
        else [] := by
    intro c
    rw [results_all_cons, flatMap_ident, htail]
    intro c' hc'
    rw [htail, results_callTail]
    exact showsCall_of_ident hc'
  rw [callBody, results_all_cons, spaces, flatMap_star, hgroup]
  · simp only [Cursor.rest_skipWhile, Cursor.groups_skipWhile, id]
  · intro c hc
    rw [hgroup, Cursor.not_sees (fun b hb => not_isIdentStart_of_isSpace hb) hc]
    rfl

theorem within_callBody : callBody.Within fun c => !isBrace c := by
  have hspace : ∀ c, isSpace c = true → (!isBrace c) = true := fun c h => by
    rw [not_isBrace_of_class (by decide) (by decide) h]
    rfl
  have hident : ∀ c, isIdent c = true → (!isBrace c) = true := fun c h => by
    rw [not_isBrace_of_class (by decide) (by decide) h]
    rfl
  have hstart : ∀ c, isIdentStart c = true → (!isBrace c) = true := fun c h =>
    hident c (isIdent_of_isIdentStart h)
  have hquote : ∀ c, isQuote c = true → (!isBrace c) = true := fun c h => by
    rw [not_isBrace_of_class (by decide) (by decide) h]
    rfl
  have hlit : ∀ a, isBrace a = false → ∀ c, (c == a) = true → (!isBrace c) = true :=
    fun a ha c h => by rw [beq_iff_eq.mp h, ha]; rfl
  exact ⟨hspace, ⟨hstart, hident⟩, ⟨⟨hspace, ⟨hlit '(' (by decide), trivial⟩, trivial⟩,
    ⟨⟨hspace, hspace⟩, ⟨hstart, hident⟩, hspace, ⟨hlit ':' (by decide), trivial⟩, trivial⟩,
    ⟨hspace, hspace⟩, hquote, trivial⟩, trivial⟩

/-- **A call at a statement start**: its name is captured, and no brace is read. -/
theorem head?_callBody (c : Cursor Char) :
    match calledName c.rest with
    | none => results id word callBody c = []
    | some name => ∃ c', (results id word callBody c).head? = some c'
        ∧ c'.groups = (1, name) :: c.groups
        ∧ ∃ y u, c.Reads (y :: u) c' ∧ ∀ x ∈ y :: u, isBrace x = false := by
  have hbody := results_callBody word c
  rw [Cursor.sees_skipWhile] at hbody
  simp only [id] at hbody
  rw [calledName]
  cases hstart : (c.rest.dropWhile isSpace).head?.any isIdentStart with
  | false =>
      rw [hstart] at hbody
      simpa using hbody
  | true =>
      rw [hstart, if_pos rfl] at hbody
      have htail := results_callTail word
        { (c.skipWhile id isSpace).skipWhile id isIdent with
          groups := (1, (c.rest.dropWhile isSpace).takeWhile isIdent) :: c.groups }
      rw [← hbody] at htail
      simp only [Cursor.rest_skipWhile, id] at htail
      cases hcall : showsCall ((c.rest.dropWhile isSpace).dropWhile isIdent) with
      | false => simpa [hcall] using htail
      | true =>
          rw [hcall] at htail
          cases hres : results id word callBody c with
          | nil => exact absurd (htail.mp hres) Bool.noConfusion
          | cons c' cs =>
              have hmem : c' ∈ results id word callBody c := hres ▸ List.mem_cons_self
              have hway := way_of_mem_results hmem
              obtain ⟨u, hu, hlength⟩ := hway.reads
              obtain ⟨v, hv, hbrace⟩ := hway.readsWithin within_callBody
              obtain rfl := hu.unique hv
              have hlength : 2 ≤ u.length := hlength
              cases u with
              | nil => cases hlength
              | cons y u =>
                  refine ⟨c', rfl, ?_, y, u, hu, fun x hx => by simpa using hbrace x hx⟩
                  rw [hbody] at hmem
                  exact (way_of_mem_results hmem).groups rfl

/-- The same where the call counts only under a condition. -/
theorem head?_callBody_if (b : Bool) (c : Cursor Char) :
    match (if b then calledName c.rest else none) with
    | none => (if b then results id word callBody c else []) = []
    | some name => ∃ c', (if b then results id word callBody c else []).head? = some c'
        ∧ c'.groups = (1, name) :: c.groups
        ∧ ∃ y u, c.Reads (y :: u) c' ∧ ∀ x ∈ y :: u, isBrace x = false := by
  cases b with
  | false => rfl
  | true => exact head?_callBody word c

/-- The step pattern at a position: from the start of the line, or from a brace. -/
theorem results_stepCall (before : Text) (x : Char) (xs : Text) :
    results id word stepCall.re ⟨before, x :: xs, []⟩
      = (if before.isEmpty then results id word callBody ⟨before, x :: xs, []⟩ else [])
        ++ if isBrace x then results id word callBody ⟨x :: before, xs, []⟩ else [] := by
  have hstart : results id word (.alt .start (.cls fun c => c == '\x7b' || c == ';'))
        ⟨before, x :: xs, []⟩
      = (if before.isEmpty then [Cursor.mk before (x :: xs) []] else [])
        ++ if isBrace x then [⟨x :: before, xs, []⟩] else [] := rfl
  have hseq : results id word stepCall.re ⟨before, x :: xs, []⟩
      = (results id word (.alt .start (.cls fun c => c == '\x7b' || c == ';'))
          ⟨before, x :: xs, []⟩).flatMap (results id word callBody) := rfl
  rw [hseq, hstart, List.flatMap_append]
  cases before.isEmpty <;> cases isBrace x <;> simp

end Pattern

/-! ## Every call is found -/

/-- The names in matches of the step pattern. -/
def matchedNames (ts : List (Char ⊕ Match Char)) : List Text :=
  (ts.filterMap Sum.getRight?).map fun m => (m.group 1).getD []

theorem behindBraces_append {u : Text} (h : ∀ x ∈ u, isBrace x = false) (v : Text) :
    behindBraces (u ++ v) = behindBraces v := by
  induction u with
  | nil => rfl
  | cons x u ih =>
      rw [List.cons_append, behindBraces, h x List.mem_cons_self]
      exact ih fun y hy => h y (List.mem_cons_of_mem _ hy)

/-- The name that is called at a position, if a statement starts there. -/
def nameAt (before : Text) (x : Char) (xs : Text) : Option Text :=
  (if before.isEmpty then calledName (x :: xs) else none).or
    (if isBrace x then calledName xs else none)

/-- What is read behind the first character holds no further statement start. -/
theorem matchAt_of_way {word : Char → Bool} {before xs name u : Text} {x : Char} {c : Cursor Char}
    (hhead : (results id word stepCall.re ⟨before, x :: xs, []⟩).head? = some c)
    (hgroups : c.groups = [(1, name)]) (hxs : xs = u ++ c.rest) (hu : ∀ y ∈ u, isBrace y = false) :
    ∃ m n, matchAt id word stepCall.re before (x :: xs) = some m ∧ m.group 1 = some name
      ∧ m.text.length - 1 = n ∧ behindBraces (xs.drop n) = behindBraces xs := by
  have hrest : c.rest = (x :: xs).drop (u.length + 1) := by
    rw [List.drop_succ_cons, hxs, List.drop_left]
  refine ⟨_, u.length, matchAt_of_head hhead hrest, ?_, ?_, ?_⟩
  · rw [hgroups]
    rfl
  · rw [List.length_take, hxs, List.length_cons, List.length_append]
    omega
  · rw [hxs, List.drop_left, behindBraces_append hu]

/-- **Where the step pattern matches**: what it reads holds no further statement start. -/
theorem matchAt_stepCall (word : Char → Bool) (before : Text) (x : Char) (xs : Text) :
    match nameAt before x xs with
    | none => matchAt id word stepCall.re before (x :: xs) = none
    | some name => ∃ m n, matchAt id word stepCall.re before (x :: xs) = some m
        ∧ m.group 1 = some name ∧ m.text.length - 1 = n
        ∧ behindBraces (xs.drop n) = behindBraces xs := by
  have hres := results_stepCall word before x xs
  have hline := head?_callBody_if word before.isEmpty ⟨before, x :: xs, []⟩
  have hbrace := head?_callBody_if word (isBrace x) ⟨x :: before, xs, []⟩
  unfold nameAt
  cases hfirst : (if before.isEmpty then calledName (x :: xs) else none) with
  | some name =>
      rw [hfirst] at hline
      obtain ⟨c, hhead, hgroups, y, u, ⟨hrest, _⟩, hu⟩ := hline
      obtain ⟨rfl, hxs⟩ := List.cons.inj (show x :: xs = y :: (u ++ c.rest) from hrest)
      rw [Option.some_or]
      refine matchAt_of_way ?_ hgroups hxs fun z hz => hu z (List.mem_cons_of_mem _ hz)
      rw [hres, List.head?_append, hhead]
      rfl
  | none =>
      rw [hfirst] at hline
      rw [hline, List.nil_append] at hres
      rw [Option.none_or]
      cases hsecond : (if isBrace x then calledName xs else none) with
      | some name =>
          rw [hsecond] at hbrace
          obtain ⟨c, hhead, hgroups, y, u, ⟨hrest, _⟩, hu⟩ := hbrace
          exact matchAt_of_way (hres ▸ hhead) hgroups hrest hu
      | none =>
          rw [hsecond] at hbrace
          rw [hbrace] at hres
          simp only [matchAt, hres]
          rfl

/--
**What a pattern finds**, by a reading of the text: at a position where the pattern
does not match nothing is read, and a match is read as its name, with whatever is
read behind it.
-/
theorem matchedNames_tokens {word : Char → Bool} {p : Pattern} (read : Text → Text → List Text)
    (hnil : ∀ before, read before [] = [])
    (hstep : ∀ before x xs,
      (matchAt id word p.re before (x :: xs) = none
        ∧ read before (x :: xs) = read (x :: before) xs)
      ∨ ∃ m name, matchAt id word p.re before (x :: xs) = some m ∧ m.group 1 = some name
        ∧ read before (x :: xs)
          = name :: read ((xs.take (m.text.length - 1)).reverse ++ x :: before)
            (xs.drop (m.text.length - 1)))
    (before rest : Text) (skip : Nat) :
    matchedNames (tokens id word p before rest skip)
      = read ((rest.take skip).reverse ++ before) (rest.drop skip) := by
  induction rest generalizing before skip with
  | nil =>
      rw [List.take_nil, List.drop_nil, hnil]
      cases skip <;> rfl
  | cons x xs ih =>
      cases skip with
      | succ skip =>
          have htokens : tokens id word p before (x :: xs) (skip + 1)
              = tokens id word p (x :: before) xs skip := rfl
          rw [htokens, ih]
          simp
      | zero =>
          rw [List.take_zero, List.drop_zero, List.reverse_nil, List.nil_append, tokens]
          rcases hstep before x xs with ⟨hm, hread⟩ | ⟨m, name, hm, hgroup, hread⟩
          · rw [hm, hread]
            exact ih (x :: before) 0
          · rw [hm, hread, ← ih]
            simp [matchedNames, hgroup]

/-- A name does not begin with a brace. -/
theorem calledName_of_isBrace {x : Char} (hx : isBrace x = true) (xs : Text) :
    calledName (x :: xs) = none := by
  have hspace : isSpace x = false := by
    by_contra h
    rw [not_isBrace_of_class (p := isSpace) (by decide) (by decide)
      (Bool.not_eq_false _ ▸ h : isSpace x = true)] at hx
    cases hx
  have hident : isIdentStart x = false := by
    by_contra h
    rw [not_isBrace_of_class (p := isIdentStart) (by decide) (by decide)
      (Bool.not_eq_false _ ▸ h : isIdentStart x = true)] at hx
    cases hx
  simp [calledName, hspace, hident]

/-- The names that are called from a position on. -/
def namesFrom (before rest : Text) : List Text :=
  (if before.isEmpty then calledName rest else none).toList
    ++ (behindBraces rest).filterMap calledName

theorem namesFrom_cons (before : Text) (x : Char) (xs : Text) :
    namesFrom before (x :: xs)
      = (nameAt before x xs).toList ++ (behindBraces xs).filterMap calledName := by
  unfold namesFrom nameAt
  rw [behindBraces]
  cases hx : isBrace x with
  | false => simp
  | true =>
      rw [calledName_of_isBrace hx]
      cases hname : calledName xs <;> simp [hname]

/-- Behind a character there is no line start. -/
theorem namesFrom_behind {before : Text} (h : before ≠ []) (rest : Text) :
    namesFrom before rest = (behindBraces rest).filterMap calledName := by
  unfold namesFrom
  rw [List.isEmpty_eq_false_iff.mpr h, if_neg Bool.false_ne_true]
  rfl

/-- **Every call at a statement start is found, once**, in the order of the starts. -/
theorem lineCalls_eq (u : Unicode) (line : Text) : lineCalls u line = calledNames line := by
  have hnames : lineCalls u line = matchedNames (tokens id u.word stepCall [] line 0) := rfl
  rw [hnames, matchedNames_tokens namesFrom]
  · unfold calledNames statementStarts
    cases hname : calledName line <;> simp [namesFrom, hname]
  · intro before
    cases before <;> rfl
  · intro before x xs
    have hmatch := matchAt_stepCall u.word before x xs
    cases hname : nameAt before x xs with
    | none =>
        rw [hname] at hmatch
        refine .inl ⟨hmatch, ?_⟩
        rw [namesFrom_cons, hname, namesFrom_behind (List.cons_ne_nil x before)]
        rfl
    | some name =>
        rw [hname] at hmatch
        obtain ⟨m, n, hm, hgroup, rfl, hskip⟩ := hmatch
        refine .inr ⟨m, name, hm, hgroup, ?_⟩
        rw [namesFrom_cons, hname, namesFrom_behind (by simp), hskip]
        rfl

example : calledNames "sh 'x'; node { foo (1) }".toList = ["sh".toList, "foo".toList] := by decide

/-! ## The table of calls -/

/-- How often the lines of the cleaned text call a name as a step. -/
def timesCalled (u : Unicode) (text name : Text) : Nat :=
  ((Lines.split id (strip u text)).map fun line => (calledNames line).count name).sum

/-- The note on a shared-library step counts its calls. -/
theorem libraryStepFinding_note (u : Unicode) (text name : Text) :
    (libraryStepFinding (scanned u text) name).note
      = "Called " ++ toString (timesCalled u text name) ++ " time(s)." := by
  have hcalls : (linesCalled (scanned u text).stepCalls name).length = timesCalled u text name := by
    unfold scanned timesCalled
    rw [linesCalled_scanLines, length_callLines]
    simp only [lineCalls_eq]
  exact congrArg (fun n : Nat => "Called " ++ toString n ++ " time(s).") hcalls

/--
**No step call is missed or counted twice.** For every name the table has a
non-decreasing list of lines, in which a line stands as often as a call of the name
starts in that line of the cleaned text; a name that no line calls is absent; and the
note on a shared-library step counts all calls of it in the file.
-/
theorem stepCalls_exact (u : Unicode) (text : Text) :
    ∃ s, scan u text = .ok s ∧ ∀ name,
      (linesCalled s.stepCalls name).Pairwise (· ≤ ·)
      ∧ (∀ k line, (Lines.split id (strip u text))[k]? = some line →
          (linesCalled s.stepCalls name).count (k + 1) = (calledNames line).count name)
      ∧ (∀ j ∈ linesCalled s.stepCalls name,
          1 ≤ j ∧ j ≤ (Lines.split id (strip u text)).length)
      ∧ (s.stepCalls.lookup name = none
          ↔ ∀ line ∈ Lines.split id (strip u text), name ∉ calledNames line)
      ∧ (libraryStepFinding s name).note
          = "Called " ++ toString (timesCalled u text name) ++ " time(s)." := by
  refine ⟨_, scan_eq u text, fun name => ?_⟩
  have hlines := linesCalled_scanLines u (Lines.split id text) (Lines.split id (strip u text)) name
  have htable := callTable_scanLines u (Lines.split id text) (Lines.split id (strip u text))
  refine ⟨?_, fun k line hline => ?_, fun j hj => ?_, ?_, libraryStepFinding_note u text name⟩
  · rw [hlines]
    exact pairwise_callLines u name _ 1
  · rw [hlines, Nat.add_comm, count_callLines, hline, ← lineCalls_eq u]
    rfl
  · rw [hlines] at hj
    obtain ⟨k, line, rfl, hline, _⟩ := mem_callLines.mp hj
    obtain ⟨hk, _⟩ := List.getElem?_eq_some_iff.mp hline
    exact ⟨Nat.le_add_right 1 k, by rw [Nat.add_comm]; exact hk⟩
  · rw [htable.lookup_eq, hlines]
    simp only [← lineCalls_eq u, ite_eq_left_iff, reduceCtorEq, imp_false, not_not]
    exact callLines_eq_nil

end MigrationPlatform.Analyzer
