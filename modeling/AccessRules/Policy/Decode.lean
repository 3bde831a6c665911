import AccessRules.Json.Record
import AccessRules.Policy.Basic

/-! Decoding policies and their parts. Each record has a list of fields and a function that puts
one field into a partial record. -/
namespace AccessRules

/-- Decodes a tree of records: the member `children` holds the subtrees, and all other members
belong to the label. -/
def Tree.decode {α : Type} (spec : RecordSpec) (blank : α)
    (put : α → String → Json → Decoded α) (j : Json) : Decoded (Tree α) := do
  let (a, ts) ← spec.foldWith j (blank, []) fun p name x _ =>
    if name = "children" then do
      let ts ← Decoded.listWith x fun y _ => Tree.decode spec blank put y
      return (p.1, ts)
    else do
      let a ← put p.1 name x
      return (a, p.2)
  return .node a ts
termination_by sizeOf j

def Method.decode : Json → Decoded Method :=
  Decoded.word Method.ofToken? (Method.all.map Method.token)

def Comparator.decode : Json → Decoded Comparator :=
  Decoded.word Comparator.ofToken? (Comparator.all.map Comparator.token)

def Operator.decode (j : Json) : Decoded Operator := do
  let s ← Decoded.string j
  match Operator.ofToken? s with
  | some o => return o
  | none => .error (.unknownOperator s)

def ValueType.decode (j : Json) : Decoded ValueType := do
  let s ← Decoded.string j
  match ValueType.ofToken? s with
  | some t => return t
  | none => .error (.unsupportedType s)

def Decoded.within {α : Type} (context : DecodeError → DecodeError) : Decoded α → Decoded α
  | .ok a => .ok a
  | .error e => .error (context e)

def Expression.spec : RecordSpec :=
  ⟨"Field", [⟨"fieldA", true⟩, ⟨"operator", true⟩, ⟨"fieldB", true⟩]⟩

def Expression.blank : Expression := ⟨.literal "", .compare .eq, .literal ""⟩

def Expression.putWith (e : Expression) (name : String) (x : Json)
    (operand : Unit → Decoded Operand) : Decoded Expression :=
  match name with
  | "fieldA" => do return { e with left := ← operand () }
  | "fieldB" => do return { e with right := ← operand () }
  | "operator" => do return { e with operator := ← Operator.decode x }
  | _ => .ok e

/-- A string is raw text, and any other value has to be an expression. -/
def Operand.decode (j : Json) : Decoded Operand :=
  match j with
  | .string s => .ok (.literal s)
  | j => Decoded.within .inExpression do
    let e ← Expression.spec.foldWith j Expression.blank fun e name x _ =>
      e.putWith name x fun _ => Operand.decode x
    return e.toOperand
termination_by sizeOf j

def Expression.decode : Json → Decoded Expression :=
  Expression.spec.fold Expression.blank fun e name x => e.putWith name x fun _ => Operand.decode x

def Condition.spec : RecordSpec :=
  ⟨"Condition", [⟨"fieldA", true⟩, ⟨"comparator", true⟩, ⟨"fieldB", true⟩, ⟨"isInverted", false⟩,
    ⟨"customOverride", false⟩]⟩

def Condition.blank : Condition := { left := .literal "", comparator := .eq, right := .literal "" }

/-- Null means that there is no value. -/
def Decoded.unlessNull {α : Type} (f : Json → Decoded α) : Json → Decoded (Option α)
  | .null => .ok none
  | j => some <$> f j

def Condition.put (c : Condition) (name : String) (x : Json) : Decoded Condition :=
  match name with
  | "fieldA" => do return { c with left := ← Operand.decode x }
  | "comparator" => do return { c with comparator := ← Comparator.decode x }
  | "fieldB" => do return { c with right := ← Operand.decode x }
  | "isInverted" => do return { c with inverted := ← Decoded.bool x }
  | "customOverride" => do return { c with override? := ← Decoded.unlessNull Decoded.string x }
  | _ => .ok c

def Condition.decode : Json → Decoded Condition := Condition.spec.fold Condition.blank Condition.put

def Clause.decode : Json → Decoded Clause
  | .string s => .ok (.raw s)
  | j => Decoded.within .inCondition (.condition <$> Condition.decode j)

def ClaimValue.decode : Json → Decoded ClaimValue
  | .bool b => .ok (.bool b)
  | .number n => .ok (.number n)
  | .string s => .ok (.string s)
  | j => .error (.badClaimValue j)

def Claim.spec : RecordSpec := ⟨"RequiredClaim", [⟨"name", true⟩, ⟨"value", false⟩]⟩

def Claim.put (c : Claim) (name : String) (x : Json) : Decoded Claim :=
  match name with
  | "name" => do return { c with name := ← Decoded.string x }
  | "value" => do return { c with value? := ← Decoded.unlessNull ClaimValue.decode x }
  | _ => .ok c

def Claim.decode : Json → Decoded Claim := Claim.spec.fold { name := "" } Claim.put

def AllowRule.spec : RecordSpec :=
  ⟨"AllowRule", [⟨"methods", true⟩, ⟨"conditions", false⟩, ⟨"requireAuth", false⟩,
    ⟨"requiredClaims", false⟩]⟩

def AllowRule.put (r : AllowRule) (name : String) (x : Json) : Decoded AllowRule :=
  match name with
  | "methods" => do return { r with methods := ← Decoded.list Method.decode x }
  | "conditions" => do return { r with conditions := ← Decoded.list Clause.decode x }
  | "requireAuth" => do return { r with requireAuth := ← Decoded.bool x }
  | "requiredClaims" => do return { r with claims := ← Decoded.list Claim.decode x }
  | _ => .ok r

def AllowRule.decode : Json → Decoded AllowRule :=
  AllowRule.spec.fold { methods := [] } AllowRule.put

def FieldRule.spec : RecordSpec :=
  ⟨"StructureRule", [⟨"field", true⟩, ⟨"type", false⟩, ⟨"required", false⟩]⟩

def FieldRule.put (r : FieldRule) (name : String) (x : Json) : Decoded FieldRule :=
  match name with
  | "field" => do return { r with field := ← Decoded.string x }
  | "type" => do return { r with types := ← Decoded.list ValueType.decode x }
  | "required" => do return { r with required := ← Decoded.bool x }
  | _ => .ok r

def FieldRule.decode : Json → Decoded FieldRule := FieldRule.spec.fold { field := "" } FieldRule.put

def Segment.blank : Segment := { collection := "", wildcard := "" }

def Segment.put (s : Segment) (name : String) (x : Json) : Decoded Segment :=
  match name with
  | "collectionPath" => do return { s with collection := ← Decoded.string x }
  | "wildcardName" => do return { s with wildcard := ← Decoded.string x }
  | "isWildCardRecursive" => do return { s with recursive := ← Decoded.bool x }
  | _ => .ok s

def Node.spec : RecordSpec :=
  ⟨"Match", [⟨"collectionPath", true⟩, ⟨"wildcardName", true⟩, ⟨"isWildCardRecursive", false⟩,
    ⟨"allowRules", false⟩, ⟨"structureRules", false⟩, ⟨"isStructureExclusive", false⟩,
    ⟨"children", false⟩]⟩

def Node.put (n : Node) (name : String) (x : Json) : Decoded Node :=
  match name with
  | "allowRules" => do return { n with allowRules := ← Decoded.list AllowRule.decode x }
  | "structureRules" => do return { n with fieldRules := ← Decoded.list FieldRule.decode x }
  | "isStructureExclusive" => do return { n with exclusive := ← Decoded.bool x }
  | _ => do return { n with segment := ← n.segment.put name x }

def Node.decode : Json → Decoded (Tree Node) :=
  Tree.decode Node.spec { segment := Segment.blank } Node.put

def Policy.spec : RecordSpec :=
  ⟨"Model", [⟨"topLevelMatchPath", true⟩, ⟨"matches", false⟩, ⟨"customFunctions", false⟩]⟩

def Policy.put (p : Policy) (name : String) (x : Json) : Decoded Policy :=
  match name with
  | "topLevelMatchPath" => do return { p with topLevel := ← Decoded.string x }
  | "matches" => do return { p with trees := ← Decoded.list Node.decode x }
  | "customFunctions" => do return { p with functions := ← Decoded.list Decoded.string x }
  | _ => .ok p

def Policy.decode : Json → Decoded Policy := Policy.spec.fold { topLevel := "" } Policy.put

end AccessRules
