import AccessRules.Policy.Expand
import AccessRules.Statement

/-! Compiled rules: a tree of segments with finished statements. A policy is compiled
node by node. -/
namespace AccessRules

/-- A segment and the texts of its statements. -/
structure Block where
  segment : Segment
  statements : List String
deriving DecidableEq, Repr

structure Rules where
  topLevel : String
  trees : List (Tree Block) := []
  functions : List String := []
deriving Repr

def GrantNode.merge (n : GrantNode) : Block := ⟨n.segment, n.statements.map Statement.text⟩

def GrantNode.mergeTree : Tree GrantNode → Tree Block := Tree.map GrantNode.merge

def Node.compileTree (t : Tree Node) : Tree Block :=
  GrantNode.mergeTree (Node.flattenTree (Node.expandTree t))

def Policy.compile (p : Policy) : Rules := ⟨p.topLevel, p.trees.map Node.compileTree, p.functions⟩

end AccessRules
