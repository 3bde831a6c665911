import AccessRules.Policy.Decode
import AccessRules.Rules.Basic

/-! Building a policy step by step. A draft holds a stack of nodes and the parts that are being put
together: an allow rule, a field rule, a condition and an operand. A step that lacks a part
fails. -/
namespace AccessRules

structure Draft where
  /-- The nodes, the one being worked on last. -/
  nodes : List (Tree Node) := []
  rule? : Option AllowRule := none
  fieldRule? : Option FieldRule := none
  condition? : Option Condition := none
  operand? : Option Operand := none

inductive DraftFault where
  | noParent
  | noNode
  | noRule
  | noFieldRule
  | noCondition
  | noOperand
  | unknownOperator
  | unknownStep (name : String)
  | undecodable (cause : DecodeError)
  | unsupportedType (name : String)

def DraftFault.message : DraftFault → String
  | .noParent => "no parent"
  | .noNode => "no node"
  | .noRule => "no rule"
  | .noFieldRule => "no structure"
  | .noCondition => "no condition"
  | .noOperand => "no operand"
  | .unknownOperator => "unknown operator"
  | .unknownStep name => "unknown step " ++ name
  | .undecodable cause => cause.message
  | .unsupportedType name => "unsupported type: " ++ name

/-- One side of an expression: raw text, or the operand at hand. -/
inductive Side where
  | text (s : String)
  | atHand
deriving DecidableEq, Repr

/-- A step of building. Words that may be unknown are looked up when the step is taken. -/
inductive DraftStep where
  | node (collection wildcard : String)
  | recursive
  | exclusive
  | attach
  | rule (methods : Json)
  | auth
  | literal (text : String)
  | claim (c : Claim)
  | operand (left : Side) (operator : String) (right : Side)
  | compare (left : Side) (comparator : Json) (right : Side)
  | invert
  | override (text : String)
  | condition
  | allow
  | field (name : String)
  | type (name : String)
  | required
  | fieldRule
  | unknown (name : String)

namespace Draft

abbrev Result := Except DraftFault Draft

def need {α : Type} (fault : DraftFault) : Option α → Except DraftFault α
  | some a => .ok a
  | none => .error fault

def onNode (d : Draft) (f : Node → Node) : Result := do
  let top ← need .noNode d.nodes.getLast?
  return { d with nodes := d.nodes.dropLast ++ [top.mapLabel f] }

def onRule (d : Draft) (f : AllowRule → AllowRule) : Result := do
  return { d with rule? := some (f (← need .noRule d.rule?)) }

def onFieldRule (d : Draft) (f : FieldRule → FieldRule) : Result := do
  return { d with fieldRule? := some (f (← need .noFieldRule d.fieldRule?)) }

def onCondition (d : Draft) (f : Condition → Condition) : Result := do
  return { d with condition? := some (f (← need .noCondition d.condition?)) }

def side (d : Draft) : Side → Except DraftFault Operand
  | .text s => .ok (.literal s)
  | .atHand => need .noOperand d.operand?

/-- Makes the last node the last child of the one before it. -/
def attach (d : Draft) : Result :=
  match d.nodes.reverse with
  | child :: parent :: rest => .ok { d with nodes := rest.reverse ++ [parent.push child] }
  | _ => .error .noParent

def step (d : Draft) : DraftStep → Result
  | .node collection wildcard =>
    .ok { d with nodes := d.nodes ++ [.node { segment := { collection, wildcard } } []] }
  | .recursive => d.onNode fun n => { n with segment := { n.segment with recursive := true } }
  | .exclusive => d.onNode fun n => { n with exclusive := true }
  | .attach => d.attach
  | .rule methods =>
    match Decoded.list Method.decode methods with
    | .ok ms => .ok { d with rule? := some { methods := ms } }
    | .error cause => .error (.undecodable cause)
  | .auth => d.onRule fun r => { r with requireAuth := true }
  | .literal text => d.onRule fun r => { r with conditions := r.conditions ++ [.raw text] }
  | .claim c => d.onRule fun r => { r with claims := r.claims ++ [c] }
  | .operand left operator right => do
    let a ← d.side left
    let b ← d.side right
    let o ← need .unknownOperator (Operator.ofToken? operator)
    return { d with operand? := some (.binary a o b) }
  | .compare left comparator right => do
    let a ← d.side left
    let b ← d.side right
    match Comparator.decode comparator with
    | .ok c => return { d with condition? := some { left := a, comparator := c, right := b } }
    | .error cause => .error (.undecodable cause)
  | .invert => d.onCondition fun c => { c with inverted := true }
  | .override text => d.onCondition fun c => { c with override? := some text }
  | .condition => do
    let c ← need .noCondition d.condition?
    let d ← d.onRule fun r => { r with conditions := r.conditions ++ [.condition c] }
    return { d with condition? := none }
  | .allow => do
    let r ← need .noRule d.rule?
    let d ← d.onNode fun n => { n with allowRules := n.allowRules ++ [r] }
    return { d with rule? := none }
  | .field name => .ok { d with fieldRule? := some { field := name } }
  | .type name => do
    let t ← need (.unsupportedType name) (ValueType.ofToken? name)
    d.onFieldRule fun r => { r with types := r.types ++ [t] }
  | .required => d.onFieldRule fun r => { r with required := true }
  | .fieldRule => do
    let r ← need .noFieldRule d.fieldRule?
    let d ← d.onNode fun n => { n with fieldRules := n.fieldRules ++ [r] }
    return { d with fieldRule? := none }
  | .unknown name => .error (.unknownStep name)

def blocks (d : Draft) : List (Tree Block) := d.nodes.map Node.compileTree

end Draft
end AccessRules
