import AccessRules.Policy.Decode
import AccessRules.Policy.Encode
import AccessRules.Rules.Basic

/-! Compiled rules and grant nodes as JSON values. -/
namespace AccessRules

/-- A member that is left out when its list is empty. -/
def Json.unlessEmpty (name : String) (items : List Json) : List (String × Json) :=
  if items.isEmpty then [] else [(name, .array items)]

def Block.toJson (b : Block) (children : List Json) : Json :=
  .object (Json.unlessEmpty "children" children ++
    [("collectionPath", .string b.segment.collection),
      ("isWildCardRecursive", .bool b.segment.recursive),
      ("rules", Json.strings b.statements),
      ("wildcardName", .string b.segment.wildcard)])

def Rules.toJson (r : Rules) : Json :=
  .object (Json.unlessEmpty "customFunctions" (r.functions.map .string) ++
    Json.unlessEmpty "matches" (r.trees.map (Tree.toJson Block.toJson)) ++
    [("topLevelMatchPath", .string r.topLevel)])

def Block.spec : RecordSpec :=
  ⟨"MergedMatch", [⟨"collectionPath", true⟩, ⟨"wildcardName", true⟩, ⟨"isWildCardRecursive", false⟩,
    ⟨"rules", true⟩, ⟨"children", false⟩]⟩

def Block.put (b : Block) (name : String) (x : Json) : Decoded Block :=
  match name with
  | "rules" => do return { b with statements := ← Decoded.list Decoded.string x }
  | _ => do return { b with segment := ← b.segment.put name x }

def Block.decode : Json → Decoded (Tree Block) :=
  Tree.decode Block.spec ⟨Segment.blank, []⟩ Block.put

def Rules.spec : RecordSpec :=
  ⟨"Rules", [⟨"topLevelMatchPath", true⟩, ⟨"matches", false⟩, ⟨"customFunctions", false⟩]⟩

def Rules.put (r : Rules) (name : String) (x : Json) : Decoded Rules :=
  match name with
  | "topLevelMatchPath" => do return { r with topLevel := ← Decoded.string x }
  | "matches" => do return { r with trees := ← Decoded.list Block.decode x }
  | "customFunctions" => do return { r with functions := ← Decoded.list Decoded.string x }
  | _ => .ok r

def Rules.decode : Json → Decoded Rules := Rules.spec.fold { topLevel := "" } Rules.put

def Grant.toJson (g : Grant) : Json :=
  .object [("conditions", Json.strings g.conditions),
    ("methods", .array (g.methods.map Method.toJson))]

def GrantNode.toJson (n : GrantNode) (children : List Json) : Json :=
  .object [("allowRules", .array (n.grants.map Grant.toJson)),
    ("children", .array children),
    ("collectionPath", .string n.segment.collection),
    ("isStructureExclusive", .bool n.exclusive),
    ("isWildCardRecursive", .bool n.segment.recursive),
    ("structureRules", .array (n.fieldRules.map FieldRule.toJson)),
    ("wildcardName", .string n.segment.wildcard)]

def Grant.spec : RecordSpec := ⟨"FlatRuleIn", [⟨"methods", true⟩, ⟨"conditions", false⟩]⟩

def Grant.put (g : Grant) (name : String) (x : Json) : Decoded Grant :=
  match name with
  | "methods" => do return { g with methods := ← Decoded.list Method.decode x }
  | "conditions" => do return { g with conditions := ← Decoded.list Decoded.string x }
  | _ => .ok g

def Grant.decode : Json → Decoded Grant := Grant.spec.fold { methods := [] } Grant.put

def GrantNode.spec : RecordSpec :=
  ⟨"FlatIn", [⟨"collectionPath", false⟩, ⟨"wildcardName", false⟩, ⟨"isWildCardRecursive", false⟩,
    ⟨"allowRules", false⟩, ⟨"structureRules", false⟩, ⟨"isStructureExclusive", false⟩,
    ⟨"children", false⟩]⟩

def GrantNode.put (n : GrantNode) (name : String) (x : Json) : Decoded GrantNode :=
  match name with
  | "allowRules" => do return { n with grants := ← Decoded.list Grant.decode x }
  | "structureRules" => do return { n with fieldRules := ← Decoded.list FieldRule.decode x }
  | "isStructureExclusive" => do return { n with exclusive := ← Decoded.bool x }
  | _ => do return { n with segment := ← n.segment.put name x }

def GrantNode.decode : Json → Decoded (Tree GrantNode) :=
  Tree.decode GrantNode.spec { segment := Segment.blank } GrantNode.put

end AccessRules
