import AccessRules.Schema.Basic

/-! References put in place. The references of a schema are met in the order of its parts. Where one
is met for the first time its definition takes its place, and the references in there come next.
Where it is met again it stays, to be followed when a value is judged; but a definition that refers
to itself has said all it says by then, so that such a reference demands nothing. -/
namespace AccessRules
namespace Schema

abbrev Unfolding := StateM (List String)

mutual

def replace (f : String → Unfolding Schema) : Schema → Unfolding Schema
  | .reference target => f target
  | .all parts => do return .all (← replaceAll f parts)
  | .items item => do return .items (← replace f item)
  | .oneOf alternatives => do return .oneOf (← replaceAll f alternatives)
  | .properties members => do return .properties (← replaceMembers f members)
  | .tuple listed => do return .tuple (← replaceAll f listed)
  | s => return s

def replaceAll (f : String → Unfolding Schema) : List Schema → Unfolding (List Schema)
  | [] => return []
  | s :: rest => do
    let first ← replace f s
    return first :: (← replaceAll f rest)

def replaceMembers (f : String → Unfolding Schema) :
    List (String × Schema) → Unfolding (List (String × Schema))
  | [] => return []
  | (name, s) :: rest => do
    let first ← replace f s
    return (name, first) :: (← replaceMembers f rest)

end

/-- Whether a definition is a conjunction with the reference to itself among its parts. -/
def refersToItself (definitions : List (String × Schema)) (target : String) : Bool :=
  match definitions.lookup target with
  | some (.all parts) => parts.any fun
    | .reference other => other == target
    | _ => false
  | _ => false

/-- What takes the place of a reference. Each definition takes the place of one reference only, so
their number bounds how deeply they are put into each other. -/
def place (definitions : List (String × Schema)) : Nat → String → Unfolding Schema
  | 0, target => return .reference target
  | budget + 1, target => do
    if (← get).contains target then
      return if refersToItself definitions target then always else .reference target
    else
      modify (target :: ·)
      match definitions.lookup target with
      | some s => replace (place definitions budget) s
      | none => return .reference target

/-- A schema with its references put in place. -/
def unfold (definitions : List (String × Schema)) (s : Schema) : Schema :=
  (replace (place definitions (definitions.length + 1)) s []).1

end Schema

def SchemaDocument.unfold (d : SchemaDocument) : SchemaDocument where
  root := d.root.unfold d.definitions
  definitions := d.definitions.map fun p => (p.1, p.2.unfold d.definitions)

end AccessRules
