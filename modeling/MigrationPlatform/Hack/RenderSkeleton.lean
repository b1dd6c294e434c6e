import MigrationPlatform.Analyzer.Parser

/-!
# Rendering the skeleton

`hack/render-skeleton.py`: the template skeleton with placeholder values, so that
what it contains can be linted. `render` works on the contents of a file and on its
path; the walk over the files is not modelled.
-/

namespace MigrationPlatform.Hack

open Regex
open Analyzer (spaces)

/-- `VALUES`. -/
def skeletonValues : List (String × String) :=
  [("name", "example-svc"),
   ("description", "Example service"),
   ("owner", "group:default/team-a"),
   ("goVersion", "1.22"),
   ("healthUrlStaging", ""),
   ("repoUrl", "github.com?owner=example-org&repo=example-svc"),
   ("destination.owner", "example-org"),
   ("destination.repo", "example-svc")]

/-- `(?:[^']|'')*`. -/
def quotedText : Re := .star true (.alt (.cls (· != '\'')) (.lit "''"))

/-- `_LITERAL`: `\$\{\{\s*'((?:[^']|'')*)'\s*\}\}`. -/
def literal : Pattern where
  re := .all [.lit "$\x7b\x7b", spaces, .lit "'", .group 1 quotedText, .lit "'", spaces,
    .lit "\x7d\x7d"]
  consumes := by decide

/-- `[a-zA-Z0-9_.]`. -/
def isKeyChar (c : Char) : Bool := c.isAlphanum || c == '_' || c == '.'

/-- `_VALUE`: `\$\{\{\s*values\.([a-zA-Z0-9_.]+)\s*\}\}`. -/
def value : Pattern where
  re := .all [.lit "$\x7b\x7b", spaces, .lit "values.", .group 1 (.plus (.cls isKeyChar)), spaces,
    .lit "\x7d\x7d"]
  consumes := by decide

/-- `s.replace("''", "'")`. -/
def undoubleQuotes : List Char → List Char
  | '\'' :: '\'' :: cs => '\'' :: undoubleQuotes cs
  | c :: cs => c :: undoubleQuotes cs
  | [] => []

/-- `VALUES.get(key, "placeholder")`. -/
def skeletonValue (key : List Char) : String :=
  (skeletonValues.lookup (String.ofList key)).getD "placeholder"

/-- `_LITERAL.sub`. -/
def renderLiterals (text : List Char) : List Char :=
  sub id (fun _ => false) literal (fun m => undoubleQuotes ((m.group 1).getD [])) text

/-- `_VALUE.sub`. -/
def renderValues (text : List Char) : List Char :=
  sub id (fun _ => false) value (fun m => (skeletonValue ((m.group 1).getD [])).toList) text

/-- `render`. -/
def render (text : String) : String :=
  String.ofList (renderValues (renderLiterals text.toList))

end MigrationPlatform.Hack
