import Mathlib
import MigrationPlatform.Analyzer.LocalDefs

/-!
# The directories of composite actions

A shared-library step is to become a composite action, in a directory named after
it in kebab case. The names can be read back from the directories: a hyphen is put
before what was an upper-case letter, an identifier has no hyphen of its own, and
none is stripped since a library step does not begin with an upper-case letter. So
no two steps share a directory.
-/

namespace MigrationPlatform.Analyzer

open Regex

/-- A name in kebab case, before the hyphens in front are stripped. -/
def hyphenated (name : Text) : Text :=
  name.flatMap fun c => if c.isUpper then ['-', c.toLower] else [c]

/-- A name in kebab case, read back. -/
def unhyphenated : Text → Text
  | '-' :: c :: cs => c.toUpper :: unhyphenated cs
  | c :: cs => c :: unhyphenated cs
  | [] => []

/-- What can stand in the directory of an action. -/
def isDirectoryChar (c : Char) : Bool := c.isLower || c.isDigit || c == '_' || c == '-'

/-- The name of a library step: an identifier that does not begin with an upper-case letter. -/
structure StepName (name : Text) : Prop where
  ne_nil : name ≠ []
  ident : ∀ c ∈ name, isIdent c = true
  lower : (name.headD ' ').isUpper = false

/-! ## The names of the report -/

theorem calledName_ident {start name : Text} (h : calledName start = some name) :
    name ≠ [] ∧ ∀ c ∈ name, isIdent c = true := by
  rw [calledName] at h
  split at h
  · rename_i hstart
    obtain rfl := Option.some.inj h
    refine ⟨?_, fun c hc => List.mem_takeWhile_imp hc⟩
    -- the name has the first character of what is read
    have hfirst := (Bool.and_eq_true_iff.mp hstart).1
    cases hnext : start.dropWhile isSpace with
    | nil => rw [hnext] at hfirst; cases hfirst
    | cons c next =>
        rw [hnext] at hfirst
        rw [List.takeWhile_cons_of_pos (isIdent_of_isIdentStart hfirst)]
        exact List.cons_ne_nil c _
  · cases h

/-- **A library step has the name of one**, whatever the text. -/
theorem stepName_of_mem {u : Unicode} {text name : Text}
    (h : name ∈ librarySteps (scanned u text)) : StepName name := by
  obtain ⟨hcalled, hlibrary⟩ := mem_librarySteps.mp h
  obtain ⟨line, -, hname⟩ := mem_stepCalls.mp hcalled
  obtain ⟨start, -, hname⟩ := List.mem_filterMap.mp hname
  obtain ⟨hne, hident⟩ := calledName_ident hname
  exact ⟨hne, hident, (isLibraryStep_iff.mp hlibrary).2.2⟩

/-! ## Kebab case -/

theorem ne_hyphen_of_isIdent {c : Char} (h : isIdent c = true) : c ≠ '-' := by
  intro hc
  rw [hc] at h
  cases h

/-- **A name without hyphens is read back.** -/
theorem unhyphenated_hyphenated {name : Text} (h : ∀ c ∈ name, isIdent c = true) :
    unhyphenated (hyphenated name) = name := by
  induction name with
  | nil => rfl
  | cons c name ih =>
      have ih := ih fun c hc => h c (List.mem_cons_of_mem _ hc)
      have hc := ne_hyphen_of_isIdent (h c List.mem_cons_self)
      unfold hyphenated at ih ⊢
      rw [List.flatMap_cons]
      split
      · rename_i hupper
        have hlower : ¬ c.isLower = true := Char.not_isLower_of_isUpper hupper
        rw [List.cons_append, List.singleton_append, unhyphenated, ih,
          Char.toUpper_toLower_eq_toUpper, Char.toUpper_eq_of_not_isLower hlower]
      · rw [List.singleton_append, unhyphenated, ih]
        intro _ _ hhyphen _
        exact hc hhyphen

/-- Nothing is stripped from the name of a library step. -/
theorem StepName.kebab_eq {name : Text} (h : StepName name) : kebab name = hyphenated name := by
  obtain ⟨hne, hident, hlower⟩ := h
  cases name with
  | nil => exact absurd rfl hne
  | cons c name =>
      have hc := ne_hyphen_of_isIdent (hident c List.mem_cons_self)
      have hlower : ¬ c.isUpper = true := by simpa using hlower
      unfold kebab hyphenated
      rw [List.flatMap_cons, if_neg hlower, List.singleton_append,
        List.dropWhile_cons_of_neg (by simpa using hc)]

theorem StepName.kebab_injective {a b : Text} (ha : StepName a) (hb : StepName b)
    (h : kebab a = kebab b) : a = b := by
  rw [ha.kebab_eq, hb.kebab_eq] at h
  rw [← unhyphenated_hyphenated ha.ident, h, unhyphenated_hyphenated hb.ident]

theorem StepName.kebab_ne_nil {name : Text} (h : StepName name) : kebab name ≠ [] := by
  intro hnil
  have hread := unhyphenated_hyphenated h.ident
  rw [← h.kebab_eq, hnil] at hread
  exact h.ne_nil hread.symm

theorem StepName.kebab_chars {name : Text} (h : StepName name) :
    ∀ c ∈ kebab name, isDirectoryChar c = true := by
  rw [h.kebab_eq]
  unfold hyphenated
  intro c hc
  obtain ⟨a, ha, hc⟩ := List.mem_flatMap.mp hc
  unfold isDirectoryChar
  split at hc
  · rename_i hupper
    have halpha : a.isAlpha = true := by simp [Char.isAlpha, hupper]
    rcases List.mem_cons.mp hc with rfl | hc
    · rfl
    · obtain rfl := List.mem_singleton.mp hc
      rw [Char.isLower_toLower_eq_isAlpha, halpha]
      rfl
  · rename_i hupper
    obtain rfl := List.mem_singleton.mp hc
    have hident := h.ident _ ha
    unfold isIdent at hident
    simp only [Char.isAlphanum, Char.isAlpha, Bool.eq_false_iff.mpr hupper, Bool.false_or] at hident
    rw [hident]
    rfl

/--
**No two library steps share a directory**, and each directory has a name of
lower-case letters, digits, underscores and hyphens.
-/
theorem actionDirectories_distinct (u : Unicode) (text : Text) (source : String) :
    ∃ r, analyzeText u text source = .ok r
      ∧ (∀ a ∈ r.sharedLibrarySteps, ∀ b ∈ r.sharedLibrarySteps, a ≠ b → kebab a ≠ kebab b)
      ∧ ∀ a ∈ r.sharedLibrarySteps, kebab a ≠ [] ∧ ∀ c ∈ kebab a, isDirectoryChar c = true := by
  have hnames : ∀ a ∈ (report u source (scanned u text)).sharedLibrarySteps, StepName a := by
    intro a ha
    have ha : a ∈ librarySteps (scanned u text) := ha
    exact stepName_of_mem ha
  refine ⟨_, analyzeText_scanned u text source, ?_, ?_⟩
  · intro a ha b hb hne hkebab
    exact hne ((hnames a ha).kebab_injective (hnames b hb) hkebab)
  · intro a ha
    exact ⟨(hnames a ha).kebab_ne_nil, (hnames a ha).kebab_chars⟩

example : kebab "deployToEKS_v2".toList = "deploy-to-e-k-s_v2".toList := by decide

end MigrationPlatform.Analyzer
