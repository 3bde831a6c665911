import AccessRules.Text.Brace
import AccessRules.Toml.DateTime
import AccessRules.Toml.Scalar
import AccessRules.Toml.Table

/-! Reading TOML documents as JSON values. -/
namespace AccessRules
namespace Toml
open Text

/-- Keys have fewer parts than this, and arrays and inline tables are nested less deeply. -/
def limit : Nat := 80

def space : Reader Unit := do
  let _ ← Reader.takeWhile isSpace

def comment : Reader Unit := do
  Reader.char '#'
  let _ ← Reader.takeWhile isPlain

def filler : Reader Unit := do
  let _ ← Reader.many ((do let _ ← Reader.takeSome isSpace) <|> (do comment; newline) <|> newline)

def lineEnd : Reader Unit := do
  space
  let _ ← Reader.optional comment
  newline <|> Reader.atEnd

def isBareKeyChar (c : Char) : Bool := c.isAlphanum || c == '_' || c == '-'

def simpleKey : Reader String :=
  String.ofList <$> (basicString <|> literalString <|> Reader.takeSome isBareKeyChar)

/-- The parts of a dotted key: those in front, and the last one. -/
def key : Reader (List String × String) := do
  space
  let parts ← Reader.separated (do let k ← simpleKey; space; return k) (do Reader.char '.'; space)
  if limit ≤ parts.length then failure
  match parts.getLast? with
  | some last => return (parts.dropLast, last)
  | none => failure

structure Assignment where
  path : List String
  key : String
  value : Json

def assignment (value : Reader Json) : Reader Assignment := do
  let (path, last) ← key
  Reader.char '='
  space
  return ⟨path, last, ← value⟩

def scalar : Reader Json :=
  (.string <$> stringText) <|> (.bool <$> boolean) <|>
    (dateTimeJson <$> dateTime) <|> float <|> notFinite <|>
    (fun n => .number (.int n)) <$> integer
where
  /-- A date or time is an object with its text under a reserved name. -/
  dateTimeJson (d : DateTime) : Json := .object [("$__toml_private_datetime", .string d.text)]

def arrayOf (value : Reader Json) : Reader Json := do
  Reader.char '['
  filler
  let items ← Reader.optional (do
    let items ← Reader.separated (do let v ← value; filler; return v) (do Reader.char ','; filler)
    let _ ← Reader.optional (do Reader.char ','; filler)
    return items)
  Reader.char ']'
  return .array (items.getD [])

def inlineTable (value : Reader Json) : Reader Json := do
  Reader.char leftBrace
  let parts ← Reader.optional
    (Reader.separated (do let a ← assignment value; space; return a) (Reader.char ','))
  space
  Reader.char rightBrace
  let built := (parts.getD []).foldlM
    (fun (es : Entries) a => es.assign a.path a.key a.value .opened) []
  match built with
  | some entries => return entries.toJson
  | none => failure

def value : (depth : Nat) → Reader Json
  | 0 => scalar
  | depth + 1 => do
    match ← Reader.peek with
    | some '[' => arrayOf (value depth)
    | some '\x7b' => inlineTable (value depth)
    | _ => scalar

inductive Directive where
  | table (path : List String) (key : String)
  | element (path : List String) (key : String)
  | assign (a : Assignment)

def directive : Reader Directive := do
  match ← Reader.peek with
  | some '[' => header
  | _ => .assign <$> assignment (value (limit - 1))
where
  header : Reader Directive := do
    Reader.char '['
    match ← Reader.peek with
    | some '[' => do
      Reader.char '['
      let (path, last) ← key
      Reader.word "]]"
      return .element path last
    | _ => do
      let (path, last) ← key
      Reader.char ']'
      return .table path last

def line : Reader (Option Directive) := do
  space
  match ← Reader.peek with
  | none => failure
  | some c =>
    if c == '#' || c == '\n' || c == '\r' then lineEnd; return none
    else
      let d ← directive
      lineEnd
      return some d

def directives : Reader (List Directive) := do
  let _ ← Reader.optional (Reader.char '\uFEFF')
  let ds ← Reader.many line
  space
  return ds.filterMap id

/-- The table of the current header, and all tables so far. -/
structure Progress where
  header : List String
  root : Entries

def Progress.step (p : Progress) : Directive → Option Progress
  | .table path key => do return ⟨path ++ [key], ← p.root.openTable path key⟩
  | .element path key => do return ⟨path ++ [key], ← p.root.openElement path key⟩
  | .assign a => do return { p with root := ← p.root.assignIn p.header a.path a.key a.value }

def ofText? (text : String) : Option Json := do
  let ds ← directives.run? text.toList
  let p ← ds.foldlM Progress.step ⟨[], []⟩
  return p.root.toJson

end Toml
end AccessRules
