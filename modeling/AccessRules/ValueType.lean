import AccessRules.Text.Brace

/-! The types that a document field may be required to have. -/
namespace AccessRules

inductive ValueType where
  | bool
  | bytes
  | float
  | int
  | list
  | latlng
  | number
  | path
  | map
  | string
  | timestamp
deriving DecidableEq, Repr

namespace ValueType

def all : List ValueType :=
  [.bool, .bytes, .float, .int, .list, .latlng, .number, .path, .map, .string, .timestamp]

def token : ValueType → String
  | .bool => "bool"
  | .bytes => "bytes"
  | .float => "float"
  | .int => "int"
  | .list => "list"
  | .latlng => "latlng"
  | .number => "number"
  | .path => "path"
  | .map => "map"
  | .string => "string"
  | .timestamp => "timestamp"

def ofToken? (s : String) : Option ValueType := all.find? fun t => t.token == s

@[simp] theorem ofToken?_token (t : ValueType) : ofToken? t.token = some t := by
  cases t <;> decide

/-- The literal that stands in for an absent optional field of the type. -/
def placeholder : ValueType → String
  | .bool => "false"
  | .string => "''"
  | .number | .int | .float => "0"
  | .bytes => "b'\\x2A'"
  | .list => "[]"
  | .map => Text.braced ""
  | .latlng => "latlng.value(0,0)"
  | .timestamp => "timestamp.date(2000, 1, 1)"
  | .path => "path('')"

end ValueType
end AccessRules
