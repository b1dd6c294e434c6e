import MigrationPlatform.Analyzer.SecretNames
import MigrationPlatform.Analyzer.TextReport

/-!
# The command

`main` of `cli.py`: what is read, what is written where, and the exit status. A
pipeline can gate on the status, with `--fail-on`, or read what the command has
written and decide by itself. Both come to the same, in each of the three formats.

An exception that nothing catches ends the command. Reading, decoding, encoding and
writing can raise one; nothing else here does.
-/

namespace MigrationPlatform.Analyzer

/-- The choices of `--format`. -/
inductive Format where
  | markdown
  | json
  | text
deriving DecidableEq, Repr

/-- `render`. -/
def render (u : Unicode) (caps : Capitals) (r : Report) : Format → Text
  | .json => toJson r
  | .text => toText r
  | .markdown => toMarkdown u caps r

/-- What the command leaves: its status, its output, its messages and a file. -/
structure Outcome where
  status : Nat
  out : Text
  err : Text
  written : Option (String × Text)

/-- What the command has shown, on its output or in a file. -/
def Outcome.shown (o : Outcome) : Text := o.written.elim o.out Prod.snd

/-! ## The gates of the three formats -/

end MigrationPlatform.Analyzer
