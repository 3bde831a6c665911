import AccessRules.Policy.Basic

/-! Expansion of coarse methods. On a node with children the coarse methods are replaced by the
fine ones they stand for; on a leaf they stay. -/
namespace AccessRules

def AllowRule.expand (r : AllowRule) : AllowRule :=
  { r with methods := r.methods.flatMap Method.fine }

/-- The node with fine methods only, if it has children. -/
def Node.expand (inner : Bool) (n : Node) : Node :=
  if inner then { n with allowRules := n.allowRules.map AllowRule.expand } else n

def Node.expandTree : Tree Node → Tree Node := Tree.relabel Node.expand

end AccessRules
