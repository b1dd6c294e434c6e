import MigrationPlatform.Analyzer.Groovy

/-!
# Methods that a Jenkinsfile defines

A method definition stands at a statement start: optional modifiers and
annotations, then `def` or a return type or both, the name, a parameter list in
parentheses and an opening brace. It is read off the code of the text, in which a
comment counts as a blank.

A statement starts at the start of a line, or behind `\x7b` or `;`. A line may end
behind a modifier, behind `def` and before the brace, but not behind a return type.
-/

namespace MigrationPlatform.Analyzer

/-- The code of a text: comments are blank, and of a string only its extent is left. -/
def codeView (text : Text) : Text :=
  (lex text).map fun (c, kind) =>
    match kind with
    | .code => c
    | .string => '"'
    | _ => ' '

/-! ## Words -/

/-- White space within a line. -/
def isBlank (c : Char) : Bool := c == ' ' || c == '\t' || c == '\x0c' || c == '\r'

def isBlankOrNewline (c : Char) : Bool := isBlank c || c == '\n'

/-- A letter of Groovy. -/
def isLetter (c : Char) : Bool :=
  c.isAlpha || c == '_' || c == '$'
    || (0xC0 ≤ c.toNat && c.toNat ≤ 0xFFFE && c.toNat != 0xD7 && c.toNat != 0xF7)

def isNamePart (c : Char) : Bool := isLetter c || c.isDigit

def primitiveTypes : List String :=
  ["void", "boolean", "byte", "char", "short", "int", "float", "long", "double"]

def modifiers : List String :=
  ["public", "protected", "private", "static", "final", "abstract", "synchronized", "native",
    "strictfp", "transient", "volatile"]

/-- The words that name neither a method nor a class. -/
def reserved : List String :=
  ["as", "assert", "break", "case", "catch", "class", "const", "continue", "def", "default", "do",
    "else", "enum", "extends", "false", "finally", "for", "goto", "if", "implements", "import",
    "in", "instanceof", "interface", "new", "null", "package", "return", "super", "switch", "this",
    "throw", "throws", "trait", "true", "try", "while"] ++ modifiers ++ primitiveTypes

def isOneOf (words : List String) (w : Text) : Bool := (words.map String.toList).contains w

/-- A name at the beginning of a text, and what follows it. -/
def readName (cs : Text) : Option (Text × Text) :=
  if cs.head?.any isLetter then some (cs.takeWhile isNamePart, cs.dropWhile isNamePart) else none

/-- A name that is not reserved. -/
def readFreeName (cs : Text) : Option (Text × Text) :=
  (readName cs).filter fun (w, _) => !isOneOf reserved w

/-- What follows the bracket that closes the one just opened. -/
def behindClosing (opening closing : Char) : Nat → Text → Option Text
  | _, [] => none
  | depth, c :: cs =>
      if c = closing then
        match depth with
        | 0 => some cs
        | depth + 1 => behindClosing opening closing depth cs
      else behindClosing opening closing (if c = opening then depth + 1 else depth) cs

/-! ## The parts of a definition -/

/-- What follows a qualified name of a class. The first argument bounds the number of its parts. -/
def behindPath : Nat → Text → Option Text
  | 0, _ => none
  | n + 1, cs => do
      match ← readFreeName cs with
      | (_, '.' :: rest) => behindPath n rest
      | (_, rest) => some rest

/-- What follows brackets of array dimensions. -/
def behindDims : Nat → Text → Text
  | 0, cs => cs
  | n + 1, cs =>
      match cs.dropWhile isBlank with
      | '[' :: rest =>
        match rest.dropWhile isBlank with
        | ']' :: rest => behindDims n rest
        | _ => cs
      | _ => cs

/-- What follows type arguments or parameters, if there are any. -/
def behindAngles (cs : Text) : Option Text :=
  match cs.dropWhile isBlank with
  | '<' :: rest => behindClosing '<' '>' 0 rest
  | _ => some cs

/-- What follows a return type. -/
def behindType (cs : Text) : Option Text := do
  let (w, rest) ← readName cs
  if isOneOf primitiveTypes w then return behindDims cs.length rest
  else return behindDims cs.length (← behindAngles (← behindPath cs.length cs))

/-- What follows modifiers and annotations, each with white space behind it. -/
def behindModifiers : Nat → Text → Text
  | 0, cs => cs
  | n + 1, '@' :: cs =>
      match behindPath cs.length cs with
      | none => '@' :: cs
      | some rest =>
        match rest.dropWhile isBlank with
        | '(' :: args =>
          match behindClosing '(' ')' 0 args with
          | none => '@' :: cs
          | some rest => behindModifiers n (rest.dropWhile isBlankOrNewline)
        | _ => behindModifiers n (rest.dropWhile isBlankOrNewline)
  | n + 1, cs =>
      match readName cs with
      | some (w, rest) =>
        if isOneOf modifiers w then behindModifiers n (rest.dropWhile isBlankOrNewline) else cs
      | none => cs

/-- The name of a method, if its parameter list and the opening brace of its body follow. -/
def methodName (cs : Text) : Option Text := do
  match ← readFreeName (cs.dropWhile isBlank) with
  | (w, rest) =>
    match rest.dropWhile isBlank with
    | '(' :: params =>
      match (← behindClosing '(' ')' 0 params).dropWhile isBlankOrNewline with
      | '\x7b' :: _ => some w
      | _ => none
    | _ => none

/-- A return type and the name of a method. -/
def typedMethodName (cs : Text) : Option Text := do
  methodName (← behindType ((← behindAngles cs).dropWhile isBlank))

/-- The method that a statement defines. -/
def definedMethod (statement : Text) : Option Text :=
  let cs := behindModifiers statement.length (statement.dropWhile isBlank)
  match readName cs with
  | some (['d', 'e', 'f'], rest) =>
    let rest := rest.dropWhile isBlankOrNewline
    (methodName rest).or (typedMethodName rest)
  | _ => typedMethodName cs

example : definedMethod "@NonCPS private static Map<String, int[]> f(List xs) \x7b".toList
    = some "f".toList := by decide

/-- A statement starts behind the character. -/
def endsStatement (c : Char) : Bool := c == '\n' || c == '\x7b' || c == ';'

/-- The text defines a method of this name outside its comments. -/
def Defines (text name : Text) : Prop :=
  ∃ before statement, codeView text = before ++ statement
    ∧ before.getLast?.all endsStatement = true ∧ definedMethod statement = some name

end MigrationPlatform.Analyzer
