import AccessRules.Json.Printer
import AccessRules.Schema.Dialect
import AccessRules.Schema.Unfold

/-! Reading schema documents. The keywords of a schema object become the parts of a conjunction in
the order of their names. Whether the schemas of the document look right is judged first; where a
reference leads to some other part of it, that part only has to make sense as a schema. -/
namespace AccessRules
namespace Schema

/-- The type of a name; integers are told apart by their spelling in the oldest version. -/
def type? (d : Dialect) (j : Json) : Option JsonType := do
  match ← JsonType.ofToken? (← j.string?) with
  | .integer => if d = .draft4 then return .integerLiteral else return .integer
  | t => return t

def types? (d : Dialect) : Json → Option (List JsonType)
  | .array xs => xs.mapM (type? d)
  | j => (type? d j).map ([·])

/-- The count that a bound asks for, within 64 bits. The oldest version takes only counts that are
written as such. -/
def bound? (d : Dialect) : Json → Option Nat
  | .number (.int (.ofNat n)) => some n
  | .number (.int _) => if d = .draft4 then none else some 0
  | .number (.float x) =>
    if d ≠ .draft4 && x.isIntegral then some (min x.toInt.toNat (Nat.pow 2 64 - 1)) else none
  | _ => none

mutual

/-- The schema that a JSON value describes in a version of the language. -/
def ofJson? (d : Dialect) (j : Json) : Option Schema :=
  match j with
  | .bool true => some always
  | .bool false => some .never
  | .object members =>
    match members.lookup "$ref", d.isNumbered with
    | some target, true => target.string?.map see
    | _, _ => do
      let parts ← members.attach.mapM fun m => keyword? d m.1.1 m.1.2
      return .all parts.flatten
  | _ => none
termination_by (sizeOf j, 0)
decreasing_by exact Prod.Lex.left _ _ (Json.sizeOf_member_lt (Subtype.property _))

def inner? (d : Dialect) (j : Json) : Option Schema :=
  ofJson? ((d.detect? j).getD .draft2020) j
termination_by (sizeOf j, 1)
decreasing_by exact Prod.Lex.right _ (by decide)

/-- The demands that a keyword adds. Keywords that are not known add none. -/
def keyword? (d : Dialect) (name : String) (value : Json) : Option (List Schema) :=
  match name with
  | "$ref" => value.string?.map fun target => [.reference target]
  | "enum" => value.items?.map fun values => [.enumeration values]
  | "items" =>
    match value with
    | .array xs => (xs.attach.mapM fun x => inner? d x.1).map fun listed => [.tuple listed]
    | .null | .number _ | .string _ => some []
    | item => (inner? d item).map fun s => [.items s]
  | "minItems" => (bound? d value).map fun count => [.minItems count]
  | "oneOf" =>
    match value with
    | .array xs => (xs.attach.mapM fun x => inner? d x.1).map fun listed => [.oneOf listed]
    | _ => none
  | "properties" =>
    match value with
    | .object members =>
      (members.attach.mapM fun m => (inner? d m.1.2).map fun s => (m.1.1, s)).map fun named =>
        [.properties named]
    | _ => none
  | "required" => (value.items?.bind (·.mapM Json.string?)).map fun names => [.required names]
  | "type" => (types? d value).map fun types => [.type types]
  | _ => some []
termination_by (sizeOf value, 2)
decreasing_by
  · exact Prod.Lex.left _ _ (Json.sizeOf_item_lt (Subtype.property _))
  · exact Prod.Lex.right _ (by decide)
  · exact Prod.Lex.left _ _ (Json.sizeOf_item_lt (Subtype.property _))
  · exact Prod.Lex.left _ _ (Json.sizeOf_member_lt (Subtype.property _))

end

mutual

def targets : Schema → List String
  | .reference target => [target]
  | .all parts => targetsOfAll parts
  | .oneOf alternatives => targetsOfAll alternatives
  | .items item => targets item
  | .tuple listed => targetsOfAll listed
  | .properties members => targetsOfMembers members
  | _ => []

def targetsOfAll : List Schema → List String
  | [] => []
  | s :: rest => targets s ++ targetsOfAll rest

def targetsOfMembers : List (String × Schema) → List String
  | [] => []
  | (_, s) :: rest => targets s ++ targetsOfMembers rest

end

/-- The definitions of pending names and of all names that these refer to in turn. -/
def definitions? (d : Dialect) (document : Json) :
    Nat → List String → List (String × Schema) → Option (List (String × Schema))
  | 0, _, done => some done
  | _, [], done => some done
  | fuel + 1, target :: pending, done =>
    if done.any fun known => known.1 == target then definitions? d document fuel pending done
    else do
      let s ← ofJson? d (← Reference.resolve? document target)
      definitions? d document fuel (s.targets ++ pending) (done ++ [(target, s)])

end Schema

/-- Reads a schema document of the version that it names, or else of the latest one. Its text is
longer than it has references, so each of the at most so many definitions adds at most so many
pending names. -/
def SchemaDocument.ofJson? (document : Json) : Option SchemaDocument := do
  let d ← Dialect.draft2020.detect? document
  if !d.admits document then none
  else
    let root ← Schema.ofJson? d document
    let size := document.text.length + 1
    let definitions ← Schema.definitions? d document (size * size) root.targets []
    return SchemaDocument.unfold ⟨root, definitions⟩

end AccessRules
