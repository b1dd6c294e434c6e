import MigrationPlatform.Analyzer.Parser

/-!
# Groovy, lexed

What of a Jenkinsfile is code, string and comment. This is the meaning of the
text, not the program's view of it: strings in single or double quotes with
backslash escapes, the same in triple quotes, line and block comments, and a `#!`
line only at the very start. A single-line string that is not closed ends with
its line. Slashy strings are left out.
-/

namespace MigrationPlatform.Analyzer

/-- What a character belongs to. -/
inductive Kind where
  | code
  | string
  /-- The characters that open and close a comment. -/
  | delimiter
  /-- The contents of a comment. -/
  | comment
deriving DecidableEq, Repr

/-- Where the lexer stands. -/
inductive Mode where
  | code
  | line
  | block
  | string (q : Char)
  | triple (q : Char)
deriving DecidableEq, Repr

/-- The lexer, from a mode on. -/
def lexFrom : Mode → Text → List (Char × Kind)
  | _, [] => []
  | .code, '/' :: '/' :: cs => ('/', .delimiter) :: ('/', .delimiter) :: lexFrom .line cs
  | .code, '/' :: '*' :: cs => ('/', .delimiter) :: ('*', .delimiter) :: lexFrom .block cs
  | .code, '"' :: '"' :: '"' :: cs =>
      ('"', .string) :: ('"', .string) :: ('"', .string) :: lexFrom (.triple '"') cs
  | .code, '\'' :: '\'' :: '\'' :: cs =>
      ('\'', .string) :: ('\'', .string) :: ('\'', .string) :: lexFrom (.triple '\'') cs
  | .code, c :: cs =>
      if isQuote c then (c, .string) :: lexFrom (.string c) cs else (c, .code) :: lexFrom .code cs
  | .line, c :: cs =>
      if c = '\n' then (c, .code) :: lexFrom .code cs else (c, .comment) :: lexFrom .line cs
  | .block, '*' :: '/' :: cs => ('*', .delimiter) :: ('/', .delimiter) :: lexFrom .code cs
  | .block, c :: cs => (c, .comment) :: lexFrom .block cs
  | .string q, '\\' :: c :: cs => ('\\', .string) :: (c, .string) :: lexFrom (.string q) cs
  | .string q, c :: cs =>
      if c = '\n' then (c, .code) :: lexFrom .code cs
      else (c, .string) :: lexFrom (if c = q then .code else .string q) cs
  | .triple q, '\\' :: c :: cs => ('\\', .string) :: (c, .string) :: lexFrom (.triple q) cs
  | .triple q, a :: b :: c :: cs =>
      if a = q ∧ b = q ∧ c = q then
        (a, .string) :: (b, .string) :: (c, .string) :: lexFrom .code cs
      else (a, .string) :: lexFrom (.triple q) (b :: c :: cs)
  | .triple q, c :: cs => (c, .string) :: lexFrom (.triple q) cs

/-- The lexer. -/
def lex : Text → List (Char × Kind)
  | '#' :: '!' :: cs => ('#', .delimiter) :: ('!', .delimiter) :: lexFrom .line cs
  | text => lexFrom .code text

/-- Outside every comment: code and strings, but for the newlines. -/
def outside (x : Char × Kind) : Bool :=
  x.1 != '\n' && (x.2 == .code || x.2 == .string)

theorem map_fst_lexFrom (mode : Mode) (text : Text) :
    (lexFrom mode text).map Prod.fst = text := by
  fun_induction lexFrom mode text <;> simp_all

/-- The lexer keeps the text. -/
theorem map_fst_lex (text : Text) : (lex text).map Prod.fst = text := by
  rw [lex.eq_def]
  split
  · simp [map_fst_lexFrom]
  · exact map_fst_lexFrom .code text

example : (lex "'a//b' // c".toList).map Prod.snd
    = List.replicate 6 .string ++ [.code, .delimiter, .delimiter, .comment, .comment] := by decide

end MigrationPlatform.Analyzer
