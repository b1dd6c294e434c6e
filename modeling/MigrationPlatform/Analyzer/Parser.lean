import MigrationPlatform.Lib.Lines
import MigrationPlatform.Lib.Regex

/-!
# Scanning a Jenkinsfile

`migration_analyzer/parser.py`: comments are removed by three regex passes, and a
few structures are read off what is left. Not a Groovy parser.

A Python string is a list of characters. `\s` is the white space of `str.isspace`,
character by character; of the letters and digits beyond ASCII that `\w` and `\b`
know only that they exist matters here, so they are a parameter, `Unicode`.

The passes of `stripComments` are stated over any alphabet with a reading `ch`,
so that they can be run on a text whose characters carry marks.
-/

namespace MigrationPlatform.Analyzer

open Regex

/-- A Python `str`. -/
abbrev Text := List Char

/-- Which characters count as word characters; on ASCII that is fixed. -/
structure Unicode where
  word : Char → Bool
  ascii : ∀ c : Char, c.toNat < 128 → word c = (c.isAlphanum || c == '_')

/-- No word characters beyond ASCII. -/
def asciiOnly : Unicode where
  word := fun c => c.isAlphanum || c == '_'
  ascii := fun _ _ => rfl

/-- `str.isspace` of a character. -/
def isSpace (c : Char) : Bool :=
  (9 ≤ c.toNat && c.toNat ≤ 13) || (28 ≤ c.toNat && c.toNat ≤ 32) || c.toNat == 0x85
    || c.toNat == 0xA0 || c.toNat == 0x1680 || (0x2000 ≤ c.toNat && c.toNat ≤ 0x200A)
    || c.toNat == 0x2028 || c.toNat == 0x2029 || c.toNat == 0x202F || c.toNat == 0x205F
    || c.toNat == 0x3000

/-- `['"]`. -/
def isQuote (c : Char) : Bool := c == '\'' || c == '"'

/-- `[A-Za-z_]`. -/
def isIdentStart (c : Char) : Bool := c.isAlpha || c == '_'

/-- `[A-Za-z0-9_]`. -/
def isIdent (c : Char) : Bool := c.isAlphanum || c == '_'

/-- White space is no part of an identifier. -/
theorem not_isIdent_of_isSpace {c : Char} (h : isSpace c = true) : isIdent c = false := by
  have hbounds : ∀ {a b : Char}, (decide (a.val ≤ c.val) && decide (c.val ≤ b.val)) = true →
      a.toNat ≤ c.toNat ∧ c.toNat ≤ b.toNat := by
    intro a b hc
    rw [Bool.and_eq_true, decide_eq_true_eq, decide_eq_true_eq] at hc
    exact ⟨UInt32.le_iff_toNat_le.mp hc.1, UInt32.le_iff_toNat_le.mp hc.2⟩
  have hA : 'A'.toNat = 65 := rfl
  have hZ : 'Z'.toNat = 90 := rfl
  have ha : 'a'.toNat = 97 := rfl
  have hz : 'z'.toNat = 122 := rfl
  have h0 : '0'.toNat = 48 := rfl
  have h9 : '9'.toNat = 57 := rfl
  by_contra hc
  have hc : (((c.isUpper || c.isLower) || c.isDigit) || c == '_') = true :=
    eq_true_of_ne_false hc
  simp only [isSpace, Bool.or_eq_true, Bool.and_eq_true, decide_eq_true_eq, beq_iff_eq] at h
  rw [Bool.or_eq_true, Bool.or_eq_true, Bool.or_eq_true, beq_iff_eq] at hc
  rcases hc with ((hupper | hlower) | hdigit) | rfl
  · obtain ⟨hfirst, hlast⟩ := of_decide_eq_true hupper
    have hfirst : 'A'.toNat ≤ c.toNat := UInt32.le_iff_toNat_le.mp hfirst
    have hlast : c.toNat ≤ 'Z'.toNat := UInt32.le_iff_toNat_le.mp hlast
    omega
  · have hlower := hbounds (a := 'a') (b := 'z') hlower
    omega
  · have hdigit := hbounds (a := '0') (b := '9') hdigit
    omega
  · revert h; decide

/-- The characters before which `//` is taken for part of a URL or string: `[:'"]`. -/
def isGuard (c : Char) : Bool := c == ':' || isQuote c

/-! ## The patterns -/

/-- `\s*`. -/
def spaces : Re := .star true (.cls isSpace)

/-- `\s+`. -/
def someSpaces : Re := .plus (.cls isSpace)

/-- `['"]`. -/
def quote : Re := .cls isQuote

/-- `[^'"]+`. -/
def unquoted : Re := .plus (.cls fun c => !isQuote c)

/-- `[A-Za-z_][A-Za-z0-9_]*`. -/
def ident : Re := .seq (.cls isIdentStart) (.star true (.cls isIdent))

/-- `.`, which does not match a newline. -/
def dot : Re := .cls (· != '\n')

/-- `/\*.*?\*/` with DOTALL. -/
def blockComment : Pattern where
  re := .all [.lit "/*", .star false (.cls fun _ => true), .lit "*/"]
  consumes := by decide

/-- `(^|[^:'"])//.*$`. -/
def lineComment : Pattern where
  re := .all [.group 1 (.alt .start (.cls fun c => !isGuard c)), .lit "//", .star true dot, .stop]
  consumes := by decide

/-- `^#!.*$` with MULTILINE. -/
def shebang : Pattern where
  re := .all [.lineStart, .lit "#!", .star true dot, .lineStop]
  consumes := by decide

/-- `\bstage\s*\(\s*['"]([^'"]+)['"]\s*\)`. -/
def stage : Pattern where
  re := .all [.boundary, .lit "stage", spaces, .lit "(", spaces, quote, .group 1 unquoted, quote,
    spaces, .lit ")"]
  consumes := by decide

/-- `@Library\s*\(\s*['"]([^'"@]+)(?:@[^'"]+)?['"]\s*\)`. -/
def library : Pattern where
  re := .all [.lit "@Library", spaces, .lit "(", spaces, quote,
    .group 1 (.plus (.cls fun c => !(isQuote c || c == '@'))), .opt (.seq (.lit "@") unquoted),
    quote, spaces, .lit ")"]
  consumes := by decide

/-- `\bcredentials\s*\(\s*['"]([^'"]+)['"]\s*\)`. -/
def credentials : Pattern where
  re := .all [.boundary, .lit "credentials", spaces, .lit "(", spaces, quote, .group 1 unquoted,
    quote, spaces, .lit ")"]
  consumes := by decide

/-- `credentialsId\s*:\s*['"]([^'"]+)['"]`. -/
def credentialsId : Pattern where
  re := .all [.lit "credentialsId", spaces, .lit ":", spaces, quote, .group 1 unquoted, quote]
  consumes := by decide

/--
A step-style call at the start of a statement: `name(...)`, `name key: value`, or
`name 'literal'`.
-/
def stepCall : Pattern where
  re := .all [.alt .start (.cls fun c => c == '{' || c == ';'), spaces, .group 1 ident,
    .any [.all [spaces, .lit "("], .all [someSpaces, ident, spaces, .lit ":"],
      .all [someSpaces, quote]]]
  consumes := by decide

/-- `\bdef\s+([A-Za-z_][A-Za-z0-9_]*)\s*\(`. -/
def defPattern : Pattern where
  re := .all [.boundary, .lit "def", someSpaces, .group 1 ident, spaces, .lit "("]
  consumes := by decide

/-! ## Comments -/

section Strip

variable {α : Type} (ch : α → Char) (u : Unicode) (nl : α)

/-- `_blank_keep_newlines`: the newlines of the match. -/
def blankKeepNewlines (m : Match α) : List α := m.text.filter (ch · == '\n')

/-- `strip_comments`: remove block and line comments while preserving line count. -/
def stripComments (text : List α) : List α :=
  let text := sub ch u.word shebang (fun _ => []) text
  let text := sub ch u.word blockComment (blankKeepNewlines ch) text
  Lines.join nl ((Lines.split ch text).map
    (sub ch u.word lineComment fun m => (m.group 1).getD []))

end Strip

/-- `strip_comments` on a text. -/
def strip (u : Unicode) (text : Text) : Text := stripComments id u '\n' text

/-! ## The scan -/

/-- What `scan` has found. -/
structure Scanned where
  originalLines : List Text
  /-- Comment-stripped, same length as `originalLines`. -/
  lines : List Text
  stages : List Text := []
  sharedLibrary : Option Text := none
  credentialIds : List Text := []
  /-- Names and their 1-based lines, in the order of the first calls. -/
  stepCalls : List (Text × List Nat) := []
  localDefs : List Text := []

/-- The keys of a dict that is filled with `setdefault`. -/
def dedup (xs : List Text) : List Text :=
  xs.foldl (fun seen x => if seen.contains x then seen else seen ++ [x]) []

/-- `calls.setdefault(name, []).append(line)`. -/
def addCall (calls : List (Text × List Nat)) (name : Text) (line : Nat) :
    List (Text × List Nat) :=
  if (calls.lookup name).isSome then
    calls.map fun call => if call.1 = name then (name, call.2 ++ [line]) else call
  else calls ++ [(name, [line])]

/-- The step calls of the lines, which are numbered from `i` on. -/
def collectCalls (u : Unicode) : Nat → List Text → List (Text × List Nat) → List (Text × List Nat)
  | _, [], calls => calls
  | i, line :: lines, calls =>
      collectCalls u (i + 1) lines
        ((findall id u.word stepCall line).foldl (fun calls name => addCall calls name i) calls)

/-- What `scan` reads off the cleaned lines. -/
def scanLines (u : Unicode) (original cleaned : List Text) : Scanned :=
  let joined := Lines.join '\n' cleaned
  { originalLines := original
    lines := cleaned
    stages := findall id u.word stage joined
    sharedLibrary := (search id u.word library joined).bind fun m => m.group 1
    credentialIds := dedup (findall id u.word credentials joined
      ++ findall id u.word credentialsId joined)
    localDefs := (findall id u.word defPattern joined).dedup
    stepCalls := collectCalls u 1 cleaned [] }

/-- `scan`, which asserts that no line was lost. -/
def scan (u : Unicode) (text : Text) : Except String Scanned :=
  let original := Lines.split id text
  let cleaned := Lines.split id (strip u text)
  if cleaned.length = original.length then .ok (scanLines u original cleaned)
  else .error "AssertionError"

end MigrationPlatform.Analyzer
