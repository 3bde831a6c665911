import AccessRules.Expression
import AccessRules.Json.Printer
import AccessRules.Method
import AccessRules.Tree
import AccessRules.ValueType

/-! Access policies: a tree of document collections, each with the rules that allow access to its
documents and the rules on the shape of incoming documents. -/
namespace AccessRules

inductive ClaimValue where
  | bool (value : Bool)
  | number (value : Number)
  | string (value : String)
deriving DecidableEq, Repr

def ClaimValue.toJson : ClaimValue → Json
  | .bool b => .bool b
  | .number n => .number n
  | .string s => .string s

def ClaimValue.literal (v : ClaimValue) : String := v.toJson.text

/-- A claim that the token of a request has to carry, with any value or with a given one. -/
structure Claim where
  name : String
  value? : Option ClaimValue := none
deriving DecidableEq, Repr

/-- A grant of methods under conditions that all have to hold. -/
structure AllowRule where
  methods : List Method
  conditions : List Clause := []
  requireAuth : Bool := false
  claims : List Claim := []
deriving DecidableEq, Repr

/-- A demand on one field of an incoming document: it has one of the types, if any are listed. -/
structure FieldRule where
  field : String
  types : List ValueType := []
  required : Bool := false
deriving DecidableEq, Repr

/-- One step of a document path: a collection and the wildcard bound to its documents. -/
structure Segment where
  collection : String
  wildcard : String
  /-- Whether the wildcard also matches all that lies below. -/
  recursive : Bool := false
deriving DecidableEq, Repr

structure Node where
  segment : Segment
  allowRules : List AllowRule := []
  fieldRules : List FieldRule := []
  /-- Whether only the required fields may be present. -/
  exclusive : Bool := false
deriving DecidableEq, Repr

structure Policy where
  topLevel : String
  trees : List (Tree Node) := []
  functions : List String := []
deriving Repr

namespace Node

def grantsMethods (n : Node) : Bool := n.allowRules.all fun r => !r.methods.isEmpty

end Node

/-- The first node, a node before its children, that has an allow rule without methods. -/
def Policy.idleNode? (p : Policy) : Option Node :=
  (p.trees.flatMap Tree.labels).find? fun n => !n.grantsMethods

end AccessRules
