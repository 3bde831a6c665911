import AccessRules.Proofs.Position

/-! Compiling is local. The three passes over a tree are one recursion that keeps the shape of the
tree and the segments, and makes the statements of a node from the node's own rules and from
whether it has children. Nodes with equal rules therefore get equal statements, whatever stands
around them. -/
namespace AccessRules

namespace AllowRule

/-- The methods that a rule reaches on a node with or without children. -/
def reach (inner : Bool) (r : AllowRule) : List Method :=
  if inner then r.methods.flatMap Method.fine else r.methods

end AllowRule

/-- All of a node that its statements are made from. -/
structure NodeRules where
  inner : Bool
  allowRules : List AllowRule
  fieldRules : List FieldRule
  exclusive : Bool
deriving DecidableEq, Repr

namespace NodeRules

/-- Grants all methods that a rule reaches, each once, under the conditions of the rule. -/
def addRule (inner : Bool) (done : List Statement) (r : AllowRule) : List Statement :=
  (r.reach inner).eraseDups.foldl (Statement.allow r.conditionTexts) done

def statements (n : NodeRules) : List Statement :=
  let granted := n.allowRules.foldl (addRule n.inner) []
  if n.fieldRules.isEmpty then granted
  else
    Statement.constrain .create (presenceCheck (requiredFields n.fieldRules) n.exclusive)
      (n.fieldRules.foldl Statement.addTypeChecks granted)

end NodeRules

namespace Node

def rules (inner : Bool) (n : Node) : NodeRules := ⟨inner, n.allowRules, n.fieldRules, n.exclusive⟩

mutual

/-- Compiles a tree in one pass. -/
def compileAtOnce : Tree Node → Tree Block
  | .node n ts =>
    .node ⟨n.segment, (n.rules (!ts.isEmpty)).statements.map Statement.text⟩ (compileAllAtOnce ts)

def compileAllAtOnce : List (Tree Node) → List (Tree Block)
  | [] => []
  | t :: ts => compileAtOnce t :: compileAllAtOnce ts

end

theorem segment_expand (inner : Bool) (n : Node) : (n.expand inner).segment = n.segment := by
  cases inner <;> rfl

theorem allowRules_expand (inner : Bool) (n : Node) : (n.expand inner).allowRules =
    n.allowRules.map fun r => { r with methods := r.reach inner } := by
  cases inner with
  | false => simp [expand, AllowRule.reach]
  | true => rfl

theorem grants_flatten_expand (inner : Bool) (n : Node) : (n.expand inner).flatten.grants =
    n.allowRules.map fun r => ⟨(r.reach inner).eraseDups, r.conditionTexts⟩ := by
  rw [flatten, allowRules_expand, List.map_map]
  rfl

theorem statements_flatten_expand (inner : Bool) (n : Node) :
    (n.expand inner).flatten.statements = (n.rules inner).statements := by
  have hfields : (n.expand inner).flatten.fieldRules = n.fieldRules := by cases inner <;> rfl
  have hexclusive : (n.expand inner).flatten.exclusive = n.exclusive := by cases inner <;> rfl
  have hgranted : (n.expand inner).flatten.grants.foldl Statement.addGrant [] =
      n.allowRules.foldl (NodeRules.addRule inner) [] := by
    rw [grants_flatten_expand, List.foldl_map]
    rfl
  rw [GrantNode.statements, hfields, hexclusive, hgranted]
  rfl

theorem block_eq (inner : Bool) (n : Node) :
    n.block inner = ⟨n.segment, (n.rules inner).statements.map Statement.text⟩ := by
  have hsegment : (n.expand inner).flatten.segment = n.segment := n.segment_expand inner
  rw [block, GrantNode.merge, statements_flatten_expand, hsegment]

mutual

theorem compileAtOnce_eq_relabel : (t : Tree Node) → compileAtOnce t = Tree.relabel Node.block t
  | .node n ts => by rw [compileAtOnce, Tree.relabel, block_eq, compileAllAtOnce_eq_relabelAll ts]

theorem compileAllAtOnce_eq_relabelAll :
    (ts : List (Tree Node)) → compileAllAtOnce ts = Tree.relabelAll Node.block ts
  | [] => rfl
  | t :: ts => by
    rw [compileAllAtOnce, Tree.relabelAll, compileAtOnce_eq_relabel t,
      compileAllAtOnce_eq_relabelAll ts]

end

theorem compileTree_eq_compileAtOnce (t : Tree Node) : compileTree t = compileAtOnce t := by
  rw [compileTree_eq_relabel, compileAtOnce_eq_relabel]

theorem map_segment_compileTree (t : Tree Node) :
    (compileTree t).map Block.segment = t.map Node.segment := by
  have hblock : (fun (inner : Bool) (n : Node) => (n.block inner).segment) =
      fun _ n => n.segment := by
    funext inner n
    rw [block_eq]
  rw [compileTree_eq_relabel, Tree.map, Tree.relabel_relabel, hblock]
  rfl

end Node

/-- The rules that the statements at a position are made from. -/
def Policy.rulesAt? (path : List Nat) (p : Policy) : Option NodeRules :=
  (p.at? path).map fun t => t.label.rules t.isInner

def Rules.statementsAt? (path : List Nat) (r : Rules) : Option (List String) :=
  (r.at? path).map fun b => b.label.statements

/-- The statements at a position are made from the rules at that position. -/
theorem Policy.statementsAt?_compile (p : Policy) (path : List Nat) :
    p.compile.statementsAt? path =
      (p.rulesAt? path).map fun n => n.statements.map Statement.text := by
  have htrees : p.compile.trees = p.trees.map (Tree.relabel Node.block) :=
    List.map_congr_left fun t _ => Node.compileTree_eq_relabel t
  rw [Rules.statementsAt?, Policy.rulesAt?, Rules.at?, htrees, Tree.atAll?_map_relabel, Policy.at?]
  cases Tree.atAll? path p.trees with
  | none => rfl
  | some t => simp only [Option.map_some, Tree.label_relabel, Node.block_eq]

/-- Compiling a tree is one recursion that keeps its shape and its segments, and makes the
statements of each node from the rules of that node alone. If two policies have the same rules at
some positions, they have the same statements there. -/
theorem Policy.compile_is_local :
    (∀ t : Tree Node, GrantNode.mergeTree (Node.flattenTree (Node.expandTree t)) =
      Node.compileAtOnce t ∧ (Node.compileAtOnce t).map Block.segment = t.map Node.segment) ∧
    (∀ (p q : Policy) (path other : List Nat) (n : NodeRules),
      p.rulesAt? path = some n → q.rulesAt? other = some n →
        ∃ statements, p.compile.statementsAt? path = some statements ∧
          q.compile.statementsAt? other = some statements) ∧
    ∀ p : Policy, p.compile.trees = p.trees.map Node.compileAtOnce ∧
      p.compile.topLevel = p.topLevel ∧ p.compile.functions = p.functions := by
  refine ⟨fun t => ⟨Node.compileTree_eq_compileAtOnce t, ?_⟩, fun p q path other n hp hq => ?_,
    fun p => ⟨?_, rfl, rfl⟩⟩
  · rw [← Node.compileTree_eq_compileAtOnce, Node.map_segment_compileTree]
  · refine ⟨n.statements.map Statement.text, ?_, ?_⟩
    · rw [statementsAt?_compile, hp, Option.map_some]
    · rw [statementsAt?_compile, hq, Option.map_some]
  · exact List.map_congr_left fun t _ => Node.compileTree_eq_compileAtOnce t

/-- Two containers with the same rules under other names, above and beside other nodes. -/
theorem Policy.compile_is_local_container :
    let rules : List AllowRule := [{ methods := [.read, .get], requireAuth := true }]
    let users : Node :=
      { segment := { collection := "users", wildcard := "uid" }, allowRules := rules }
    let teams : Node :=
      { segment := { collection := "teams", wildcard := "tid" }, allowRules := rules }
    let p : Policy := { topLevel := "/a", trees := [.node users [.node teams []]] }
    let q : Policy := { topLevel := "/b", trees := [.node teams [.node users [], .node users []]] }
    p.rulesAt? [0] = some (users.rules true) ∧ q.rulesAt? [0] = some (users.rules true) ∧
      ∃ statements, p.compile.statementsAt? [0] = some statements ∧
        q.compile.statementsAt? [0] = some statements := by
  intro rules users teams p q
  have hp : p.rulesAt? [0] = some (users.rules true) := rfl
  have hq : q.rulesAt? [0] = some (users.rules true) := rfl
  exact ⟨hp, hq, Policy.compile_is_local.2.1 p q [0] [0] (users.rules true) hp hq⟩

end AccessRules
