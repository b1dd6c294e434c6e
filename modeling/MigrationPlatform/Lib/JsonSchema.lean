import MigrationPlatform.Lib.Value

/-!
# JSON Schema validation

What a validator accepts, for the keywords that a Kubernetes API schema is built
from. A schema is `true`, `false` or a dict of keywords, and a document is valid
under a dict when it meets each keyword. What every other keyword requires is a
parameter `ext`, so one definition covers a plain validator, which ignores the
keywords it does not know, and one that extends the language.

Only `additionalProperties` looks at another keyword: it is about the keys that
`properties` does not declare.
-/

namespace JsonSchema

/-- The document is an integer. -/
def isInteger : Value → Bool
  | .num q => q.den == 1
  | _ => false

/-- The document is a string. -/
def isString : Value → Bool
  | .str _ => true
  | _ => false

/-- The document has the named type. -/
def hasType (type : String) (d : Value) : Bool :=
  match d with
  | .null => type == "null"
  | .bool _ => type == "boolean"
  | .num _ => type == "number" || (type == "integer" && isInteger d)
  | .str _ => type == "string"
  | .list _ => type == "array"
  | .dict _ => type == "object"

/-- The keyword `type`: one name, or a list of them. -/
def meetsType : Value → Value → Bool
  | .str type, d => hasType type d
  | .list types, d => types.any fun type =>
      match type with
      | .str type => hasType type d
      | _ => false
  | _, _ => true

/-- The keyword `required`. -/
def meetsRequired : Value → Value → Bool
  | .list names, .dict items => names.all fun name =>
      match name with
      | .str name => Items.has items name
      | _ => true
  | _, _ => true

/-- The keyword `enum`. -/
def meetsEnum : Value → Value → Bool
  | .list values, d => values.any fun v => v.eqv d
  | _, _ => true

/-- The property names that a dict of keywords declares. -/
def declaredNames (keywords : List (String × Value)) : List String :=
  match keywords.lookup "properties" with
  | some (.dict props) => props.map Prod.fst
  | _ => []

/-- The document has no key outside `names`. -/
def hasOnly (names : List String) : Value → Bool
  | .dict items => items.all fun b => names.contains b.1
  | _ => true

section Valid

variable (ext : String → Value → Value → Bool)

mutual

/-- The document is valid under the schema. -/
def valid : Value → Value → Bool
  | .bool b, _ => b
  | .dict keywords, d => validKeywords (declaredNames keywords) keywords d
  | _, _ => true
termination_by structural schema => schema

/-- The document meets every keyword. `names` are the declared properties. -/
def validKeywords (names : List String) : List (String × Value) → Value → Bool
  | [], _ => true
  | kw :: rest, d => validKeyword names kw d && validKeywords names rest d
termination_by structural keywords => keywords

/-- The document meets a keyword. -/
def validKeyword (names : List String) : String × Value → Value → Bool
  | (key, value), d =>
      if key = "type" then meetsType value d
      else if key = "required" then meetsRequired value d
      else if key = "enum" then meetsEnum value d
      else if key = "properties" then validObject value d
      else if key = "items" then
        match d with
        | .list ds => ds.all fun d => valid value d
        | _ => true
      else if key = "additionalProperties" then
        match d with
        | .dict items => items.all fun b => names.contains b.1 || valid value b.2
        | _ => true
      else if key = "not" then !valid value d
      else if key = "allOf" then validBranches (fun valid all => valid == all) value d
      else if key = "anyOf" then validBranches (fun valid _ => valid != 0) value d
      else if key = "oneOf" then validBranches (fun valid _ => valid == 1) value d
      else ext key value d
termination_by structural keyword => keyword

/-- The keyword `properties`. -/
def validObject : Value → Value → Bool
  | .dict props, d => validProperties props d
  | _, _ => true
termination_by structural value => value

/-- Every declared property that is present is valid. -/
def validProperties : List (String × Value) → Value → Bool
  | [], _ => true
  | prop :: rest, d => validProperty prop d && validProperties rest d
termination_by structural props => props

/-- The declared property is valid if it is present. -/
def validProperty : String × Value → Value → Bool
  | (name, schema), d =>
      match d.get? name with
      | some v => valid schema v
      | none => true
termination_by structural prop => prop

/-- A logical keyword, which judges by how many of its branches are valid. -/
def validBranches (judge : Nat → Nat → Bool) : Value → Value → Bool
  | .list schemas, d => judge (countValid schemas d) schemas.length
  | _, _ => true
termination_by structural value => value

/-- How many of the schemas the document is valid under. -/
def countValid : List Value → Value → Nat
  | [], _ => 0
  | schema :: rest, d => (if valid schema d then 1 else 0) + countValid rest d
termination_by structural schemas => schemas

end

/-- The keywords with a meaning of their own. -/
def standardKeywords : List String :=
  ["type", "required", "enum", "properties", "items", "additionalProperties", "not", "allOf",
    "anyOf", "oneOf"]

/-- Every other keyword means what `ext` says. -/
theorem validKeyword_ext {names : List String} {key : String} {value d : Value}
    (h : key ∉ standardKeywords) : validKeyword ext names (key, value) d = ext key value d := by
  simp only [standardKeywords, List.mem_cons, List.not_mem_nil, or_false, not_or] at h
  simp [validKeyword, h]

theorem validKeywords_append (names : List String) (as bs : List (String × Value)) (d : Value) :
    validKeywords ext names (as ++ bs) d
      = (validKeywords ext names as d && validKeywords ext names bs d) := by
  induction as with
  | nil => rfl
  | cons kw as ih => simp [validKeywords, ih, Bool.and_assoc]

/-- `additionalProperties: false` allows the declared keys only. -/
theorem validKeyword_closed (names : List String) (d : Value) :
    validKeyword ext names ("additionalProperties", .bool false) d = hasOnly names d := by
  cases d <;> simp [validKeyword, valid, hasOnly]

/-- A string and an integer are never the same document. -/
theorem validKeyword_string_or_integer (names : List String) (d : Value) :
    validKeyword ext names ("oneOf",
        .list [.dict [("type", .str "string")], .dict [("type", .str "integer")]]) d
      = (isString d || isInteger d) := by
  cases d with
  | num q => cases hq : q.den == 1 <;>
      simp [validKeyword, validBranches, countValid, valid, validKeywords, meetsType, hasType,
        isString, isInteger, hq]
  | _ => simp [validKeyword, validBranches, countValid, valid, validKeywords, meetsType, hasType,
      isString, isInteger]

end Valid

end JsonSchema
