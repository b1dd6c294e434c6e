import Mathlib.Data.List.Sort
import MigrationPlatform.Analyzer.Rules

/-!
# The report on a Jenkinsfile

`migration_analyzer/analyzer.py` and the report of `model.py`: the rule table is
applied to the cleaned lines, the step calls that nothing explains become
shared-library steps, and the findings are put in the order of their lines.
-/

namespace MigrationPlatform.Analyzer

open Regex

/-- One item of the checklist. -/
structure Finding where
  rule : String
  category : Category
  line : Nat
  snippet : Text
  title : String
  actionsEquivalent : String
  note : String
  detail : Text

/-- The report of `analyze_text`. -/
structure Report where
  source : String
  findings : List Finding
  stages : List Text
  credentialIds : List Text
  sharedLibrary : Option Text
  sharedLibrarySteps : List Text
  pluginSteps : List Text
  lines : Nat

/-- `str.strip()`. -/
def trim (s : Text) : Text := ((s.dropWhile isSpace).reverse.dropWhile isSpace).reverse

/-- The order of Python strings, by code points. -/
def textLe : Text → Text → Bool
  | [], _ => true
  | _ :: _, [] => false
  | a :: as, b :: bs => a.toNat < b.toNat || (a == b && textLe as bs)

/-- The stripped source of a 1-based line. -/
def Scanned.snippet (s : Scanned) (line : Nat) : Text := trim (s.originalLines.getD (line - 1) [])

/-- The lines that a pattern occurs on, numbered from `i` on, each with its first match. -/
def searchLines (u : Unicode) (p : Pattern) : Nat → List Text → List (Nat × Match Char)
  | _, [] => []
  | i, line :: lines =>
      match search id u.word p line with
      | none => searchLines u p (i + 1) lines
      | some m => (i, m) :: searchLines u p (i + 1) lines

/-- The finding of a rule on a line. -/
def ruleFinding (s : Scanned) (rule : Rule) (line : Nat) (m : Match Char) : Finding where
  rule := rule.id
  category := rule.category
  line := line
  snippet := s.snippet line
  title := rule.title
  actionsEquivalent := rule.actionsEquivalent
  note := rule.note
  detail := (m.group 1).getD []

/-- The findings of a rule. -/
def ruleFindings (u : Unicode) (s : Scanned) (rule : Rule) : List Finding :=
  let found := searchLines u rule.pattern 1 s.lines
  (if rule.once then found.take 1 else found).map fun (line, m) => ruleFinding s rule line m

/-- `_kebab`. -/
def kebab (name : Text) : Text :=
  (name.flatMap fun c => if c.isUpper then ['-', c.toLower] else [c]).dropWhile (· == '-')

/-- Whether a called name is assumed to come from the shared library. -/
def isLibraryStep (s : Scanned) (name : Text) : Bool :=
  !(knownSteps.map String.toList).contains name && !s.localDefs.contains name
    && !(name.headD ' ').isUpper

/-- The shared-library steps of a scan, sorted. -/
def librarySteps (s : Scanned) : List Text :=
  ((s.stepCalls.map Prod.fst).filter (isLibraryStep s)).insertionSort fun a b => textLe a b = true

/-- The plugin steps of a scan, sorted. -/
def scannedPluginSteps (s : Scanned) : List Text :=
  ((s.stepCalls.map Prod.fst).filter fun name =>
    (pluginSteps.map String.toList).contains name).insertionSort fun a b => textLe a b = true

/-- The finding of a shared-library step: a composite action to write. -/
def libraryStepFinding (s : Scanned) (name : Text) : Finding :=
  let calls := (s.stepCalls.lookup name).getD []
  { rule := "shared-library-step"
    category := .manual
    line := calls.headD 0
    snippet := s.snippet (calls.headD 0)
    title := "Shared-library step `" ++ String.ofList name ++ "`"
    actionsEquivalent :=
      "A composite action `.github/actions/" ++ String.ofList (kebab name) ++ "`."
    note := "Called " ++ toString calls.length ++ " time(s)."
    detail := name }

/-- The sort key of a finding: its line, then its rule. -/
def Finding.le (f g : Finding) : Bool :=
  f.line < g.line || (f.line == g.line && textLe f.rule.toList g.rule.toList)

/-- The findings of a scan, in the order in which they are made. -/
def collectFindings (u : Unicode) (s : Scanned) : List Finding :=
  rules.flatMap (ruleFindings u s) ++ (librarySteps s).map (libraryStepFinding s)

/-- The report on a scan. -/
def report (u : Unicode) (source : String) (s : Scanned) : Report where
  source := source
  lines := s.lines.length
  stages := s.stages
  sharedLibrary := s.sharedLibrary
  credentialIds := s.credentialIds
  sharedLibrarySteps := librarySteps s
  pluginSteps := scannedPluginSteps s
  findings := (collectFindings u s).insertionSort fun f g => f.le g = true

/-- `analyze_text`. -/
def analyzeText (u : Unicode) (text : Text) (source : String) : Except String Report :=
  (scan u text).map (report u source)

end MigrationPlatform.Analyzer
