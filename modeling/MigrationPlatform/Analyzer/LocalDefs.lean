import Mathlib.Data.List.Dedup
import MigrationPlatform.Analyzer.Agree
import MigrationPlatform.Analyzer.Methods
import MigrationPlatform.Analyzer.StepCalls

/-!
# Library steps and local definitions

The definition pattern is read without regular expressions, like the step pattern:
it finds the names that stand behind the word `def` with a parenthesis behind them.
A match never reaches another one, so it finds all of them. That is less than the
methods a file can define, and a method that is missed is reported as a step of the
shared library when it is called as a step.
-/

namespace MigrationPlatform.Analyzer

open Regex

/-! ## The definition pattern -/

/-- The name between white space and a parenthesis, behind `def`. -/
def defName (behind : Text) : Option Text :=
  let next := behind.dropWhile isSpace
  if behind.head?.any isSpace && (next.head?.any isIdentStart
      && ((next.dropWhile isIdent).dropWhile isSpace).head?.any (· == '(')) then
    some (next.takeWhile isIdent)
  else none

/-- The name that the word `def` introduces at a position. -/
def introducedAt (word : Char → Bool) (before rest : Text) : Option Text :=
  if !before.head?.any word && "def".toList.isPrefixOf rest then defName (rest.drop 3) else none

/-- The names that the word `def` introduces, from a position on; what stands before is given
newest first. -/
def introduced (word : Char → Bool) : Text → Text → List Text
  | _, [] => []
  | before, x :: xs =>
      (introducedAt word before (x :: xs)).toList ++ introduced word (x :: before) xs

section Pattern

variable (word : Char → Bool)

/-- The pattern behind the word `def`. -/
def defTail : Re := .all [someSpaces, .group 1 ident, spaces, .lit "("]

theorem results_defTail (c : Cursor Char) :
    results id word defTail c
      = if c.sees id isSpace && ((c.skipWhile id isSpace).sees id isIdentStart
          && (((c.skipWhile id isSpace).skipWhile id isIdent).skipWhile id isSpace).sees id
            (· == '(')) then
          [{ (((c.skipWhile id isSpace).skipWhile id isIdent).skipWhile id isSpace).advance 1 with
            groups := (1, (c.rest.dropWhile isSpace).takeWhile isIdent) :: c.groups }]
        else [] := by
  have hparen := results_spaces_lit word (show "(".toList = ['('] from rfl) (by decide)
  have hname : ∀ c, results id word (.all [.group 1 ident, spaces, .lit "("]) c
      = if c.sees id isIdentStart then
          results id word (.all [spaces, .lit "("])
            { c.skipWhile id isIdent with groups := (1, c.rest.takeWhile isIdent) :: c.groups }
        else [] := by
    intro c
    rw [results_all_cons, flatMap_ident]
    intro c hc
    exact results_spaces_lit_of_ident word rfl (by decide) (by decide) hc
  rw [defTail, results_all_cons, someSpaces, flatMap_plus, hname, hparen]
  · cases c.sees id isSpace with
    | false => rfl
    | true =>
        cases (c.skipWhile id isSpace).sees id isIdentStart with
        | false => rfl
        | true =>
            rw [Cursor.rest_skipWhile]
            rfl
  · intro c hc
    rw [hname, Cursor.not_sees (fun b hb => not_isIdentStart_of_isSpace hb) hc]
    rfl

/-- The word `def` and what the pattern wants behind it. -/
theorem results_def (hd : word 'd' = true) (before rest : Text) :
    results id word defPattern.re ⟨before, rest, []⟩
      = if !before.head?.any word && "def".toList.isPrefixOf rest then
          results id word defTail ((Cursor.mk before rest []).advance 3)
        else [] := by
  have hseq : results id word defPattern.re ⟨before, rest, []⟩
      = (results id word .boundary ⟨before, rest, []⟩).flatMap fun c =>
          (results id word (.lit "def") c).flatMap (results id word defTail) := rfl
  have hboundary : results id word .boundary ⟨before, rest, []⟩
      = if before.head?.any word != rest.head?.any word then [⟨before, rest, []⟩] else [] := rfl
  rw [hseq, hboundary]
  cases hdef : "def".toList.isPrefixOf rest with
  | false =>
      have hlit : results id word (.lit "def") ⟨before, rest, []⟩ = [] := by
        rw [results_lit, List.map_id, hdef]
        rfl
      rw [Bool.and_false]
      split
      · simp [hlit]
      · rfl
  | true =>
      have hhead : rest.head?.any word = true := by
        cases rest with
        | nil => cases hdef
        | cons x xs =>
            obtain ⟨hx, -⟩ := List.cons_prefix_cons.mp (List.isPrefixOf_iff_prefix.mp hdef)
            rw [← hx]
            exact hd
      have hlit : results id word (.lit "def") ⟨before, rest, []⟩
          = [(Cursor.mk before rest []).advance 3] := by
        rw [results_lit, List.map_id, hdef]
        rfl
      rw [hhead]
      cases before.head?.any word with
      | true => rfl
      | false => simp [hlit]

/-- The position behind the parenthesis of a definition. -/
def behindParen (c : Cursor Char) : Cursor Char :=
  (((c.skipWhile id isSpace).skipWhile id isIdent).skipWhile id isSpace).advance 1

theorem results_defTail_name (c : Cursor Char) :
    results id word defTail c = (defName c.rest).toList.map fun name =>
      { behindParen c with groups := (1, name) :: c.groups } := by
  rw [results_defTail]
  unfold defName
  simp only [Cursor.sees, Cursor.rest_skipWhile, id]
  split <;> rfl

/-- **The definition pattern** at a position: the word `def`, and a name behind it. -/
theorem results_defPattern (hd : word 'd' = true) (before rest : Text) :
    results id word defPattern.re ⟨before, rest, []⟩
      = (introducedAt word before rest).toList.map fun name =>
          { behindParen ((Cursor.mk before rest []).advance 3) with groups := [(1, name)] } := by
  rw [results_def word hd, results_defTail_name]
  unfold introducedAt
  split <;> rfl

/-! ## Every name is found -/

/-- What a definition is made of, from behind the word `def` on. -/
theorem defName_eq_some {behind name : Text} (h : defName behind = some name) :
    ∃ sp sp', behind = sp ++ (name ++ (sp' ++ '(' ::
          (((behind.dropWhile isSpace).dropWhile isIdent).dropWhile isSpace).drop 1))
      ∧ (∀ c ∈ sp, isSpace c = true) ∧ (∀ c ∈ name, isIdent c = true)
      ∧ ∀ c ∈ sp', isSpace c = true := by
  unfold defName at h
  simp only at h
  split at h
  case isFalse => cases h
  case isTrue hcond =>
    obtain rfl := Option.some.inj h
    simp only [Bool.and_eq_true] at hcond
    have hparen := hcond.2.2
    refine ⟨behind.takeWhile isSpace,
      ((behind.dropWhile isSpace).dropWhile isIdent).takeWhile isSpace,
      ?_, fun c hc => List.mem_takeWhile_imp hc, fun c hc => List.mem_takeWhile_imp hc,
      fun c hc => List.mem_takeWhile_imp hc⟩
    have hrest : (((behind.dropWhile isSpace).dropWhile isIdent).dropWhile isSpace)
        = '(' :: (((behind.dropWhile isSpace).dropWhile isIdent).dropWhile isSpace).drop 1 := by
      cases hnext : ((behind.dropWhile isSpace).dropWhile isIdent).dropWhile isSpace with
      | nil => rw [hnext] at hparen; cases hparen
      | cons x xs =>
          rw [hnext] at hparen
          obtain rfl : x = '(' := by simpa using hparen
          rfl
    rw [← hrest, List.takeWhile_append_dropWhile, List.takeWhile_append_dropWhile,
      List.takeWhile_append_dropWhile]

/-- No name is introduced among other characters than `d`. -/
theorem introduced_skip {u : Text} (hu : ∀ c ∈ u, c ≠ 'd') (before rest : Text) :
    introduced word before (u ++ rest) = introduced word (u.reverse ++ before) rest := by
  induction u generalizing before with
  | nil => rfl
  | cons x u ih =>
      have hx : 'd' ≠ x := (hu x List.mem_cons_self).symm
      have hnone : introducedAt word before (x :: (u ++ rest)) = none := by
        have hdef : "def".toList.isPrefixOf (x :: (u ++ rest)) = false := by
          show ('d' == x && _) = false
          rw [beq_eq_false_iff_ne.mpr hx, Bool.false_and]
        rw [introducedAt, hdef, Bool.and_false]
        rfl
      rw [List.cons_append, introduced, hnone, ih fun c hc => hu c (List.mem_cons_of_mem _ hc)]
      simp

/-- Nothing is named where a parenthesis stands behind the white space. -/
theorem defName_paren {sp : Text} (hsp : ∀ c ∈ sp, isSpace c = true) (rest : Text) :
    defName (sp ++ '(' :: rest) = none := by
  unfold defName
  rw [List.dropWhile_append_of_pos hsp]
  simp [isSpace, isIdentStart]

theorem defName_ident {x : Char} (hx : isIdent x = true) (xs : Text) :
    defName (x :: xs) = none := by
  unfold defName
  simp [not_isSpace_of_isIdent hx]

/-- Nor is one introduced within a name that has a parenthesis behind it. -/
theorem introducedAt_name {name sp : Text} (hne : name ≠ []) (hname : ∀ c ∈ name, isIdent c = true)
    (hsp : ∀ c ∈ sp, isSpace c = true) (before rest : Text) :
    introducedAt word before (name ++ (sp ++ '(' :: rest)) = none := by
  cases hdef : "def".toList.isPrefixOf (name ++ (sp ++ '(' :: rest)) with
  | false =>
      rw [introducedAt, hdef, Bool.and_false]
      rfl
  | true =>
      obtain ⟨w, hw⟩ := List.isPrefixOf_iff_prefix.mp hdef
      have hbehind : defName w = none := by
        rcases List.append_eq_append_iff.mp hw with ⟨t, rfl, rfl⟩ | ⟨t, ht, hnext⟩
        · -- the name goes on behind `def`, or ends there
          cases t with
          | nil => exact defName_paren hsp rest
          | cons x t => exact defName_ident (hname x (by simp)) _
        · cases t with
          | nil =>
              rw [show w = sp ++ '(' :: rest from hnext.symm]
              exact defName_paren hsp rest
          | cons x t =>
              -- what stands behind the name is no letter of `def`
              have hx : isIdentStart x = true := by
                have hmem : x ∈ "def".toList := by rw [ht]; simp
                revert hmem
                exact List.all_eq_true.mp (show ['d', 'e', 'f'].all isIdentStart = true by decide) x
              cases sp with
              | nil =>
                  obtain ⟨rfl, -⟩ := List.cons.inj hnext
                  exact absurd hx (by decide)
              | cons y sp =>
                  obtain ⟨rfl, -⟩ := List.cons.inj hnext
                  rw [not_isIdentStart_of_isSpace (hsp y List.mem_cons_self)] at hx
                  cases hx
      have hdrop : (name ++ (sp ++ '(' :: rest)).drop 3 = w := by
        rw [← hw]
        rfl
      rw [introducedAt, hdrop, hbehind, ite_self]

theorem introduced_name {name sp : Text} (hname : ∀ c ∈ name, isIdent c = true)
    (hsp : ∀ c ∈ sp, isSpace c = true) (before rest : Text) :
    introduced word before (name ++ (sp ++ '(' :: rest))
      = introduced word (name.reverse ++ before) (sp ++ '(' :: rest) := by
  induction name generalizing before with
  | nil => rfl
  | cons x name ih =>
      have hnone := introducedAt_name word (List.cons_ne_nil x name) hname hsp before rest
      rw [List.cons_append] at hnone ⊢
      rw [introduced, hnone, ih fun c hc => hname c (List.mem_cons_of_mem _ hc)]
      simp

/-- Behind a `d`, the rest of a definition introduces no further name. -/
theorem introduced_definition {sp name sp' : Text} (hsp : ∀ c ∈ sp, isSpace c = true)
    (hname : ∀ c ∈ name, isIdent c = true) (hsp' : ∀ c ∈ sp', isSpace c = true)
    (before rest : Text) :
    introduced word before ("ef".toList ++ (sp ++ (name ++ (sp' ++ '(' :: rest))))
      = introduced word (("ef".toList ++ (sp ++ (name ++ (sp' ++ ['('])))).reverse ++ before)
          rest := by
  have hspace : ∀ c, isSpace c = true → c ≠ 'd' := by
    intro c hc he
    rw [he] at hc
    exact absurd hc (by decide)
  rw [introduced_skip word (by simp), introduced_skip word fun c hc => hspace c (hsp c hc),
    introduced_name word hname hsp', introduced_skip word fun c hc => hspace c (hsp' c hc),
    ← List.singleton_append, introduced_skip word (by simp)]
  simp

/-- **Where the definition pattern matches**: what it reads introduces no further name. -/
theorem matchAt_defPattern (hd : word 'd' = true) (before : Text) (x : Char) (xs : Text) :
    match introducedAt word before (x :: xs) with
    | none => matchAt id word defPattern.re before (x :: xs) = none
    | some name => ∃ m, matchAt id word defPattern.re before (x :: xs) = some m
        ∧ m.group 1 = some name
        ∧ introduced word (x :: before) xs
          = introduced word ((xs.take (m.text.length - 1)).reverse ++ x :: before)
              (xs.drop (m.text.length - 1)) := by
  have hres := results_defPattern word hd before (x :: xs)
  cases hname : introducedAt word before (x :: xs) with
  | none =>
      rw [hname] at hres
      simp [matchAt, hres]
  | some name =>
      rw [hname] at hres
      unfold introducedAt at hname
      split at hname
      case isFalse => cases hname
      case isTrue hstart =>
        obtain ⟨hdef, hrest⟩ : x = 'd' ∧ "ef".toList <+: xs := by
          rw [Bool.and_eq_true] at hstart
          obtain ⟨hx, hrest⟩ := List.cons_prefix_cons.mp (List.isPrefixOf_iff_prefix.mp hstart.2)
          exact ⟨hx.symm, hrest⟩
        obtain ⟨behind, rfl⟩ := hrest
        obtain ⟨sp, sp', hbehind, hsp, hident, hsp'⟩ := defName_eq_some hname
        -- the match ends behind the parenthesis, and nothing else is introduced before that
        have hcursor :
            (behindParen ((Cursor.mk before (x :: ("ef".toList ++ behind)) []).advance 3)).rest
              = (((behind.dropWhile isSpace).dropWhile isIdent).dropWhile isSpace).drop 1 := by
          simp [behindParen]
        have hdrop : (x :: ("ef".toList ++ behind)).drop 3 = behind := rfl
        rw [hdrop] at hbehind
        generalize (((behind.dropWhile isSpace).dropWhile isIdent).dropWhile isSpace).drop 1 = r
          at hbehind hcursor
        subst hbehind hdef
        have hread : "ef".toList ++ (sp ++ (name ++ (sp' ++ '(' :: r)))
            = ("ef".toList ++ (sp ++ (name ++ (sp' ++ ['('])))) ++ r := by simp
        refine ⟨_, matchAt_of_head
          (n := ("ef".toList ++ (sp ++ (name ++ (sp' ++ ['('])))).length + 1)
          (by rw [hres]; rfl) ?_, rfl, ?_⟩
        · refine hcursor.trans ?_
          rw [hread, List.drop_succ_cons, List.drop_left]
        · rw [introduced_definition word hsp hident hsp', hread, List.take_succ_cons,
            List.take_left, List.length_cons, Nat.add_sub_cancel, List.take_left, List.drop_left]

/-- **Every introduced name is found.** -/
theorem matchedNames_defPattern (hd : word 'd' = true) (text : Text) :
    matchedNames (tokens id word defPattern [] text 0) = introduced word [] text := by
  rw [matchedNames_tokens (introduced word)]
  · rw [List.take_zero, List.drop_zero]
    rfl
  · intro before
    rfl
  · intro before x xs
    have hmatch := matchAt_defPattern word hd before x xs
    cases hname : introducedAt word before (x :: xs) with
    | none =>
        rw [hname] at hmatch
        refine .inl ⟨hmatch, ?_⟩
        rw [introduced, hname]
        rfl
    | some name =>
        rw [hname] at hmatch
        obtain ⟨m, hm, hgroup, hskip⟩ := hmatch
        refine .inr ⟨m, name, hm, hgroup, ?_⟩
        rw [introduced, hname, hskip]
        rfl

example : introduced asciiOnly.word [] "def f(x) {}\nundef g() def List h() def  k ()".toList
    = ["f".toList, "k".toList] := by decide

end Pattern

/-! ## The steps of a file that it defines itself -/

/-- **The local definitions of a scan** are the names that the word `def` introduces. -/
theorem mem_localDefs {u : Unicode} {text name : Text} :
    name ∈ (scanned u text).localDefs ↔ name ∈ introduced u.word [] (strip u text) := by
  have hdefs : (scanned u text).localDefs
      = (findall id u.word defPattern (Lines.join '\n' (Lines.split id (strip u text)))).dedup := by
    unfold scanned scanLines
    rfl
  have hnames : findall id u.word defPattern (strip u text)
      = matchedNames (tokens id u.word defPattern [] (strip u text) 0) := rfl
  rw [hdefs, List.mem_dedup, join_split_strip, hnames,
    matchedNames_defPattern u.word (u.ascii 'd' (by decide))]

/-- A line of the cleaned text calls the name as a step. -/
def CalledAsStep (u : Unicode) (text name : Text) : Prop :=
  ∃ line ∈ Lines.split id (strip u text), name ∈ calledNames line

theorem mem_stepCalls {u : Unicode} {text name : Text} :
    name ∈ (scanned u text).stepCalls.map Prod.fst ↔ CalledAsStep u text name := by
  have htable := callTable_scanLines u (Lines.split id text) (Lines.split id (strip u text))
  unfold scanned
  rw [htable.mem_keys, linesCalled_scanLines, Ne, callLines_eq_nil]
  unfold CalledAsStep
  simp only [lineCalls_eq, not_forall, not_not, exists_prop]

/-- The name is reported as a step of the shared library. -/
def Reported (r : Report) (name : Text) : Prop :=
  name ∈ r.sharedLibrarySteps ∨ ∃ f ∈ r.findings, f.rule = "shared-library-step" ∧ f.detail = name

theorem not_reported_iff {r : Report} {name : Text} :
    ¬ Reported r name ↔ name ∉ r.sharedLibrarySteps
      ∧ ∀ f ∈ r.findings, f.rule = "shared-library-step" → f.detail ≠ name := by
  unfold Reported
  simp only [not_or, not_exists, not_and, Ne]

theorem reported_iff {u : Unicode} {source : String} {text name : Text} :
    Reported (report u source (scanned u text)) name
      ↔ CalledAsStep u text name ∧ name ∉ knownSteps.map String.toList
        ∧ name ∉ introduced u.word [] (strip u text) ∧ (name.headD ' ').isUpper = false := by
  rw [← mem_stepCalls, ← mem_localDefs, ← isLibraryStep_iff, ← mem_librarySteps]
  constructor
  · intro h
    rcases h with h | ⟨f, hf, hrule, rfl⟩
    · exact h
    · rcases mem_findings.mp hf with ⟨rule, hmem, hf⟩ | ⟨name, hname, rfl⟩
      · obtain ⟨_, _, _, _, _, _, rfl⟩ := mem_ruleFindings.mp hf
        exact absurd hrule (rule_id_ne hmem)
      · exact hname
  · intro h
    exact .inl h

/--
**Which steps that a file defines are reported.** A method that the file defines
outside its comments is never reported as a step of the shared library if and only
if each such method that a statement of the cleaned text calls, and that is neither a
known step nor begins with an upper-case letter, stands somewhere in the cleaned text
behind the word `def`, with a parenthesis behind it.
-/
theorem localSteps_unreported_iff (u : Unicode) (text : Text) (source : String) :
    ∃ r, analyzeText u text source = .ok r
      ∧ ((∀ name, Defines text name → name ∉ r.sharedLibrarySteps
            ∧ ∀ f ∈ r.findings, f.rule = "shared-library-step" → f.detail ≠ name)
        ↔ ∀ name, Defines text name → CalledAsStep u text name →
            name ∉ knownSteps.map String.toList → (name.headD ' ').isUpper = false →
            name ∈ introduced u.word [] (strip u text)) := by
  refine ⟨_, analyzeText_scanned u text source, forall_congr' fun name => ?_⟩
  refine imp_congr_right fun _ => ?_
  rw [← not_reported_iff, reported_iff]
  constructor
  · intro h hcalled hknown hupper
    by_contra hdef
    exact h ⟨hcalled, hknown, hdef, hupper⟩
  · intro h hstep
    exact hstep.2.2.1 (h hstep.1 hstep.2.1 hstep.2.2.2)

/-- A method with a return type in the place of `def` is reported where it is called. -/
theorem not_localSteps_unreported :
    ¬ ∀ (u : Unicode) (text : Text) (source : String),
      ∃ r, analyzeText u text source = .ok r
        ∧ ∀ name, Defines text name → name ∉ r.sharedLibrarySteps
          ∧ ∀ f ∈ r.findings, f.rule = "shared-library-step" → f.detail ≠ name := by
  intro h
  obtain ⟨r, hr, hnames⟩ := h asciiOnly "void helper(x) { }\nhelper(1)".toList "<stdin>"
  obtain rfl := Except.ok.inj ((analyzeText_scanned _ _ _).symm.trans hr)
  have hdefines : Defines "void helper(x) { }\nhelper(1)".toList "helper".toList :=
    ⟨[], "void helper(x) { }\nhelper(1)".toList, by decide, rfl, by decide⟩
  have hstrip : strip asciiOnly "void helper(x) { }\nhelper(1)".toList
      = "void helper(x) { }\nhelper(1)".toList := by decide
  refine not_reported_iff.mpr (hnames _ hdefines) (reported_iff.mpr ⟨?_, ?_, ?_, by decide⟩)
  · refine ⟨"helper(1)".toList, ?_, by decide⟩
    rw [hstrip]
    decide
  · intro hknown
    obtain ⟨step, hstep, he⟩ := List.mem_map.mp hknown
    rw [String.toList_injective he] at hstep
    exact absurd hstep (by decide)
  · rw [hstrip]
    decide

end MigrationPlatform.Analyzer
