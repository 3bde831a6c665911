import AccessRules.Rules.Basic

/-! Positions in trees. A position is a list of child numbers; relabelling a tree keeps all
positions, so that the block of a policy node stands where the node stands, and depends on its
label and on whether it has children. -/
namespace AccessRules
namespace Tree
variable {α β : Type}

/-- The subtree at a position, if the position lies inside the tree. -/
def at? : List Nat → Tree α → Option (Tree α)
  | [], t => some t
  | i :: path, t => t.children[i]?.bind (at? path)

@[simp] theorem at?_nil (t : Tree α) : t.at? [] = some t := rfl

theorem at?_cons (i : Nat) (path : List Nat) (t : Tree α) :
    t.at? (i :: path) = t.children[i]?.bind (at? path) := rfl

theorem at?_relabel (f : Bool → α → β) (path : List Nat) (t : Tree α) :
    (relabel f t).at? path = (t.at? path).map (relabel f) := by
  induction path generalizing t with
  | nil => rfl
  | cons i path ih =>
    obtain ⟨a, ts⟩ := t
    simp only [relabel_node, at?_cons, children_node, List.getElem?_map]
    cases ts[i]? with
    | none => rfl
    | some c => exact ih c

def atAll? : List Nat → List (Tree α) → Option (Tree α)
  | [], _ => none
  | i :: path, ts => ts[i]?.bind (at? path)

theorem atAll?_map_relabel (f : Bool → α → β) (path : List Nat) (ts : List (Tree α)) :
    atAll? path (ts.map (relabel f)) = (atAll? path ts).map (relabel f) := by
  cases path with
  | nil => rfl
  | cons i path =>
    simp only [atAll?, List.getElem?_map]
    cases ts[i]? with
    | none => rfl
    | some t => exact at?_relabel f path t

theorem label_relabel (f : Bool → α → β) (t : Tree α) :
    (relabel f t).label = f t.isInner t.label := by
  obtain ⟨a, ts⟩ := t
  rw [relabel_node]
  rfl

end Tree

/-- The block of a node: its methods are expanded, its rules flattened and its grants merged. -/
def Node.block (inner : Bool) (n : Node) : Block := (n.expand inner).flatten.merge

theorem Node.compileTree_eq_relabel (t : Tree Node) :
    Node.compileTree t = Tree.relabel Node.block t := by
  simp only [Node.compileTree, GrantNode.mergeTree, Node.flattenTree, Node.expandTree, Tree.map,
    Tree.relabel_relabel]
  rfl

def Policy.at? (path : List Nat) (p : Policy) : Option (Tree Node) := Tree.atAll? path p.trees

def Rules.at? (path : List Nat) (r : Rules) : Option (Tree Block) := Tree.atAll? path r.trees

/-- Each node is compiled at its own position. -/
theorem Policy.at?_compile {p : Policy} {path : List Nat} {t : Tree Node}
    (h : p.at? path = some t) :
    ∃ b, p.compile.at? path = some b ∧ b.label = Node.block t.isInner t.label := by
  refine ⟨Tree.relabel Node.block t, ?_, Tree.label_relabel _ t⟩
  have hmap : p.compile.trees = p.trees.map (Tree.relabel Node.block) :=
    List.map_congr_left fun t _ => Node.compileTree_eq_relabel t
  rw [Rules.at?, hmap, Tree.atAll?_map_relabel, ← Policy.at?, h, Option.map_some]

end AccessRules
