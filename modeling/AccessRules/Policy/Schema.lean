import AccessRules.Schema.Basic

/-! The schema of policy documents: each definition by the reference that leads to it, and the words
of each vocabulary in full. -/
namespace AccessRules
namespace Policy
open Schema

def methodWords : List String := ["read", "write", "get", "list", "create", "update", "delete"]

def comparatorWords : List String := ["<", "<=", "==", "!=", ">=", ">", "in", "is", "&&", "||"]

def operatorWords : List String :=
  ["<", "<=", "==", "!=", ">=", ">", "in", "is", "&&", "||", "+", "-", "*", "/", "%"]

def valueTypeWords : List String :=
  ["bool", "bytes", "float", "int", "list", "latlng", "number", "path", "map", "string",
    "timestamp"]

def operandSchema : Schema :=
  .all [.oneOf [ofType .string, see "#/$defs/field"]]

def expressionSchema : Schema :=
  record [("fieldA", see "#/$defs/operand"), ("fieldB", see "#/$defs/operand"),
    ("operator", see "#/$defs/operator")] ["fieldA", "operator", "fieldB"]

def conditionSchema : Schema :=
  record [("comparator", see "#/$defs/comparator"), ("customOverride", ofType .string),
    ("fieldA", see "#/$defs/operand"), ("fieldB", see "#/$defs/operand"),
    ("isInverted", ofType .boolean)] ["fieldA", "comparator", "fieldB"]

def claimSchema : Schema :=
  record [("name", ofType .string),
    ("value", .all [.type [.string, .number, .boolean, .null]])] ["name"]

def allowRuleSchema : Schema :=
  record [("conditions", listOf (.all [.oneOf [ofType .string, see "#/$defs/condition"]])),
    ("methods", nonemptyListOf (see "#/$defs/ruleMethod")),
    ("requireAuth", ofType .boolean),
    ("requiredClaims", listOf (see "#/$defs/requiredClaim"))] ["methods"]

def fieldRuleSchema : Schema :=
  record [("field", ofType .string), ("required", ofType .boolean),
    ("type", listOf (see "#/$defs/firestoreType"))] ["field"]

def nodeSchema : Schema :=
  record [("allowRules", listOf (see "#/$defs/allowRule")),
    ("children", listOf (see "#/$defs/match")),
    ("collectionPath", ofType .string),
    ("isStructureExclusive", ofType .boolean),
    ("isWildCardRecursive", ofType .boolean),
    ("structureRules", listOf (see "#/$defs/structureRule")),
    ("wildcardName", ofType .string)] ["collectionPath", "wildcardName"]

def policySchema : Schema :=
  record [("customFunctions", listOf (ofType .string)),
    ("matches", listOf (see "#/$defs/match")),
    ("topLevelMatchPath", ofType .string)] ["topLevelMatchPath"]

/-- The schema that every policy document has to satisfy. -/
def schema : SchemaDocument where
  root := policySchema
  definitions :=
    [("#/$defs/allowRule", allowRuleSchema),
      ("#/$defs/comparator", oneOfWords comparatorWords),
      ("#/$defs/condition", conditionSchema),
      ("#/$defs/field", expressionSchema),
      ("#/$defs/firestoreType", oneOfWords valueTypeWords),
      ("#/$defs/match", nodeSchema),
      ("#/$defs/operand", operandSchema),
      ("#/$defs/operator", oneOfWords operatorWords),
      ("#/$defs/requiredClaim", claimSchema),
      ("#/$defs/ruleMethod", oneOfWords methodWords),
      ("#/$defs/structureRule", fieldRuleSchema)]

end Policy
end AccessRules
