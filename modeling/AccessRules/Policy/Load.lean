import AccessRules.Failure
import AccessRules.Policy.Decode
import AccessRules.Policy.Schema
import AccessRules.Rules.Layout
import AccessRules.Schema.Document

/-! From a document to a policy and on to the text of its rules. The names of types are checked on
the raw document first, so that an unknown one is told apart from other faults. -/
namespace AccessRules

def Format.parse (f : Format) (text : String) : Except Failure Json :=
  match f.read? text with
  | some j => .ok j
  | none => .error (.malformed f)

namespace SchemaDocument

def ofJson (j : Json) : Except Failure SchemaDocument :=
  match SchemaDocument.ofJson? j with
  | some d => .ok d
  | none => .error .badSchema

/-- Fails with all violations, if there are any. -/
def validate (d : SchemaDocument) (j : Json) : Except Failure Unit :=
  match d.violations j with
  | [] => .ok ()
  | violations => .error (.violated violations)

end SchemaDocument

namespace Node

/-- The type names in the field rules of a raw node. -/
def ownTypeNames (j : Json) : List String :=
  (j.itemsAt "structureRules").flatMap fun rule => (rule.itemsAt "type").filterMap Json.string?

/-- The type names of a raw node and of all nodes below it. -/
def typeNames (j : Json) : List String :=
  ownTypeNames j ++ (j.itemsAt "children").attach.flatMap fun child => typeNames child.1
termination_by sizeOf j
decreasing_by exact Json.sizeOf_lt_of_mem_itemsAt (Subtype.property _)

end Node

namespace Policy

/-- The first type name of a raw document that is not known. -/
def unknownType? (document : Json) : Option String :=
  ((document.itemsAt "matches").flatMap Node.typeNames).find? fun name =>
    (ValueType.ofToken? name).isNone

def ofJson (document : Json) : Except Failure Policy :=
  match unknownType? document with
  | some name => .error (.unsupportedType name)
  | none =>
    match Policy.decode document with
    | .error cause => .error (.undecodable cause)
    | .ok p =>
      match p.idleNode? with
      | some n => .error (.noMethods n.segment)
      | none => .ok p

/-- The policy of a document that satisfies a schema. -/
def load (s : SchemaDocument) (document : Json) : Except Failure Policy := do
  s.validate document
  ofJson document

def compileDocument (s : SchemaDocument) (style : Style) (document : Json) :
    Except Failure String := do
  let p ← load s document
  return p.compile.render style

def anySchema : SchemaDocument := ⟨Schema.always, []⟩

def readDocument (path : String) (contents : Except FileFault String) : Except Failure Json :=
  match contents with
  | .error fault => .error (.unreadable path fault)
  | .ok text => (Format.ofPath path).parse text

end Policy
end AccessRules
