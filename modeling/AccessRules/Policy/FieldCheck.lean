import AccessRules.Policy.Basic

/-! The conditions that field rules impose on incoming documents. -/
namespace AccessRules

def directAccess (field : String) : String := "request.resource.data." ++ field

/-- A field of the incoming document, or the placeholder of a type where it is absent. -/
def defaultedAccess (field : String) (t : ValueType) : String :=
  "getOr(request, '" ++ field ++ "', " ++ t.placeholder ++ ")"

namespace FieldRule

def isOfType (r : FieldRule) (defaulted : Bool) (t : ValueType) : String :=
  (if defaulted then defaultedAccess r.field t else directAccess r.field) ++ " is " ++ t.token

def typeCheck (r : FieldRule) (defaulted : Bool) : String :=
  let text := " || ".intercalate (r.types.map (r.isOfType defaulted))
  if r.types.length > 1 then "(" ++ text ++ ")" else text

def isTyped (r : FieldRule) : Bool := !r.types.isEmpty

/-- The type check of a created document reads an optional field by its placeholder. -/
def createCheck (r : FieldRule) : String := r.typeCheck !r.required

/-- The type check of an updated document reads every field by its placeholder. -/
def updateCheck (r : FieldRule) : String := r.typeCheck true

end FieldRule

/-- The check on the set of fields of a created document. -/
def presenceCheck (fields : List String) (exclusive : Bool) : String :=
  let listed := ", ".intercalate (fields.map fun f => "'" ++ f ++ "'")
  let test := if exclusive then "hasOnly" else "hasAll"
  "request.resource.data.keys()." ++ test ++ "([" ++ listed ++ "])"

/-- The fields that a list of rules requires. -/
def requiredFields (rules : List FieldRule) : List String :=
  (rules.filter FieldRule.required).map FieldRule.field

end AccessRules
