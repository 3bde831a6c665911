import AccessRules.Json.Basic

/-! Schemas: demands on JSON values. A schema is a single demand or a conjunction of demands in a
fixed order, and may refer to named definitions. -/
namespace AccessRules

inductive JsonType where
  | array
  | boolean
  | integer
  /-- An integer that is written as one. -/
  | integerLiteral
  | null
  | number
  | object
  | string
deriving DecidableEq, Repr

namespace JsonType

def all : List JsonType :=
  [.array, .boolean, .integer, .integerLiteral, .null, .number, .object, .string]

def token : JsonType → String
  | .array => "array"
  | .boolean => "boolean"
  | .integer | .integerLiteral => "integer"
  | .null => "null"
  | .number => "number"
  | .object => "object"
  | .string => "string"

def ofToken? (s : String) : Option JsonType := all.find? fun t => t.token == s

/-- Whether a value has a type; a number without a fraction is an integer too. -/
def holds : JsonType → Json → Bool
  | .array, .array _ => true
  | .boolean, .bool _ => true
  | .integer, .number n => n.isIntegral
  | .integerLiteral, .number (.int _) => true
  | .null, .null => true
  | .number, .number _ => true
  | .object, .object _ => true
  | .string, .string _ => true
  | _, _ => false

end JsonType

inductive Schema where
  | never
  | all (parts : List Schema)
  | enumeration (values : List Json)
  | items (item : Schema)
  | minItems (count : Nat)
  /-- Exactly one alternative holds. -/
  | oneOf (alternatives : List Schema)
  | properties (members : List (String × Schema))
  | reference (target : String)
  | required (names : List String)
  /-- The items of an array are valid one by one, as far as schemas are listed. -/
  | tuple (items : List Schema)
  | type (names : List JsonType)
deriving Repr

namespace Schema

def always : Schema := .all []

def ofType (t : JsonType) : Schema := .all [.type [t]]

def oneOfWords (tokens : List String) : Schema := .all [.enumeration (tokens.map .string)]

def see (target : String) : Schema := .all [.reference target]

def listOf (item : Schema) : Schema := .all [.items item, .type [.array]]

def nonemptyListOf (item : Schema) : Schema := .all [.items item, .minItems 1, .type [.array]]

def record (members : List (String × Schema)) (names : List String) : Schema :=
  .all [.properties members, .required names, .type [.object]]

end Schema

/-- A schema together with the definitions that it refers to. -/
structure SchemaDocument where
  root : Schema
  definitions : List (String × Schema) := []
deriving Repr

end AccessRules
