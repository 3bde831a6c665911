import AccessRules.Policy.Basic

/-! Policies and their parts as JSON values. Members are listed in the order of their names; an
absent claim value or override has no member. -/
namespace AccessRules

mutual

/-- A tree as a JSON value, from a function that writes a label together with the children. -/
def Tree.toJson {α : Type} (write : α → List Json → Json) : Tree α → Json
  | .node a ts => write a (Tree.allToJson write ts)

def Tree.allToJson {α : Type} (write : α → List Json → Json) : List (Tree α) → List Json
  | [] => []
  | t :: ts => t.toJson write :: Tree.allToJson write ts

end

@[simp] theorem Tree.allToJson_eq_map {α : Type} (write : α → List Json → Json)
    (ts : List (Tree α)) : Tree.allToJson write ts = ts.map (Tree.toJson write) := by
  induction ts with
  | nil => rfl
  | cons t ts ih => simp [Tree.allToJson, ih]

def Operand.toJson : Operand → Json
  | .literal s => .string s
  | .binary a o b =>
    .object [("fieldA", a.toJson), ("fieldB", b.toJson), ("operator", .string o.token)]

def Expression.toJson (e : Expression) : Json := e.toOperand.toJson

def Condition.toJson (c : Condition) : Json :=
  .object ([("comparator", .string c.comparator.token)] ++
    (match c.override? with
      | some s => [("customOverride", .string s)]
      | none => []) ++
    [("fieldA", c.left.toJson), ("fieldB", c.right.toJson), ("isInverted", .bool c.inverted)])

def Clause.toJson : Clause → Json
  | .raw s => .string s
  | .condition c => c.toJson

def Claim.toJson (c : Claim) : Json :=
  .object ([("name", .string c.name)] ++
    (match c.value? with
      | some v => [("value", v.toJson)]
      | none => []))

def Method.toJson (m : Method) : Json := .string m.token

def AllowRule.toJson (r : AllowRule) : Json :=
  .object [("conditions", .array (r.conditions.map Clause.toJson)),
    ("methods", .array (r.methods.map Method.toJson)),
    ("requireAuth", .bool r.requireAuth),
    ("requiredClaims", .array (r.claims.map Claim.toJson))]

def FieldRule.toJson (r : FieldRule) : Json :=
  .object [("field", .string r.field), ("required", .bool r.required),
    ("type", .array (r.types.map fun t => .string t.token))]

def Node.toJson (n : Node) (children : List Json) : Json :=
  .object [("allowRules", .array (n.allowRules.map AllowRule.toJson)),
    ("children", .array children),
    ("collectionPath", .string n.segment.collection),
    ("isStructureExclusive", .bool n.exclusive),
    ("isWildCardRecursive", .bool n.segment.recursive),
    ("structureRules", .array (n.fieldRules.map FieldRule.toJson)),
    ("wildcardName", .string n.segment.wildcard)]

def Policy.toJson (p : Policy) : Json :=
  .object [("customFunctions", Json.strings p.functions),
    ("matches", .array (p.trees.map (Tree.toJson Node.toJson))),
    ("topLevelMatchPath", .string p.topLevel)]

end AccessRules
