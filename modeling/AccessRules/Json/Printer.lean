import AccessRules.Decimal.Shortest
import AccessRules.Json.Basic
import AccessRules.Text.Brace

/-! The compact text of a JSON value: no blanks, and in strings only the quote, the backslash and
the control characters below the blank are escaped. -/
namespace AccessRules

def Number.text : Number → String
  | .int value => Text.signed value
  | .float value => value.text

namespace Json

/-- A control character by its code, in four lower-case hexadecimal digits. -/
def controlEscape (c : Char) : List Char :=
  let ds := Nat.toDigits 16 c.toNat
  ['\\', 'u'] ++ List.replicate (4 - ds.length) '0' ++ ds

def escapeChar (c : Char) : List Char :=
  if c = '"' then ['\\', '"']
  else if c = '\\' then ['\\', '\\']
  else if c = '\x08' then ['\\', 'b']
  else if c = '\t' then ['\\', 't']
  else if c = '\n' then ['\\', 'n']
  else if c = '\x0c' then ['\\', 'f']
  else if c = '\r' then ['\\', 'r']
  else if c.toNat < 0x20 then controlEscape c
  else [c]

def quote (s : String) : String :=
  String.ofList ('"' :: (s.toList.flatMap escapeChar ++ ['"']))

mutual

def text : Json → String
  | .null => "null"
  | .bool true => "true"
  | .bool false => "false"
  | .number n => n.text
  | .string s => quote s
  | .array items => "[" ++ ",".intercalate (itemTexts items) ++ "]"
  | .object members => Text.braced (",".intercalate (memberTexts members))

def itemTexts : List Json → List String
  | [] => []
  | item :: rest => item.text :: itemTexts rest

def memberTexts : List (String × Json) → List String
  | [] => []
  | (name, value) :: rest => (quote name ++ ":" ++ value.text) :: memberTexts rest

end

end Json
end AccessRules
