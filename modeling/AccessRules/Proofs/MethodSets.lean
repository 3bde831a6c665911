import AccessRules.Proofs.Enforcement
import AccessRules.Proofs.Locality

/-! The methods of an allow rule are a set. The condition of a method is made from one list of
condition texts for each rule that reaches the method, however often and in whatever place the rule
names it. Trees whose rules reach the same methods therefore get the same statements, up to their
order. -/
namespace AccessRules
open Statement

namespace Tree
variable {α β γ δ : Type}

mutual

/-- Two trees have the same shape, and their labels are related at each position, where the relation
may depend on whether the position has children. -/
def Agree (R : Bool → α → β → Prop) : Tree α → Tree β → Prop
  | .node a ts, .node b us => R (!ts.isEmpty) a b ∧ AgreeAll R ts us

def AgreeAll (R : Bool → α → β → Prop) : List (Tree α) → List (Tree β) → Prop
  | [], [] => True
  | t :: ts, u :: us => Agree R t u ∧ AgreeAll R ts us
  | _, _ => False

end

theorem isEmpty_eq_of_agreeAll {R : Bool → α → β → Prop} {ts : List (Tree α)} {us : List (Tree β)}
    (h : AgreeAll R ts us) : ts.isEmpty = us.isEmpty := by
  cases ts <;> cases us <;> simp_all [AgreeAll]

theorem isEmpty_relabelAll (f : Bool → α → β) (ts : List (Tree α)) :
    (relabelAll f ts).isEmpty = ts.isEmpty := by
  cases ts <;> rfl

section
variable {R : Bool → α → β → Prop} {S : Bool → γ → δ → Prop} {f : Bool → α → γ} {g : Bool → β → δ}

mutual

theorem agree_relabel (h : ∀ inner a b, R inner a b → S inner (f inner a) (g inner b)) :
    (t : Tree α) → (u : Tree β) → Agree R t u → Agree S (relabel f t) (relabel g u)
  | .node a ts, .node b us, ⟨hlabel, hall⟩ => by
    have hinner : (!us.isEmpty) = !ts.isEmpty := by rw [isEmpty_eq_of_agreeAll hall]
    refine ⟨?_, agreeAll_relabelAll h ts us hall⟩
    rw [isEmpty_relabelAll, hinner]
    exact h _ a b hlabel

theorem agreeAll_relabelAll (h : ∀ inner a b, R inner a b → S inner (f inner a) (g inner b)) :
    (ts : List (Tree α)) → (us : List (Tree β)) → AgreeAll R ts us →
      AgreeAll S (relabelAll f ts) (relabelAll g us)
  | [], [], _ => trivial
  | t :: ts, u :: us, ⟨ht, hts⟩ => ⟨agree_relabel h t u ht, agreeAll_relabelAll h ts us hts⟩

end

end

section
variable {S : Bool → α → β → Prop} {f : Bool → α → β}

mutual

theorem agree_relabel_self (h : ∀ inner a, S inner a (f inner a)) :
    (t : Tree α) → Agree S t (relabel f t)
  | .node a ts => ⟨h _ a, agreeAll_relabelAll_self h ts⟩

theorem agreeAll_relabelAll_self (h : ∀ inner a, S inner a (f inner a)) :
    (ts : List (Tree α)) → AgreeAll S ts (relabelAll f ts)
  | [] => trivial
  | t :: ts => ⟨agree_relabel_self h t, agreeAll_relabelAll_self h ts⟩

end

end

end Tree

/-- What grants under lists of condition texts demand together: all texts, or nothing if the first
list is no condition. -/
def Statement.demanded : List (List String) → List String
  | [] => []
  | first :: rest => if conjunction first = "" then [] else first ++ rest.flatten

namespace GrantNode

theorem conditionOf_eq_demanded (n : GrantNode) (m : Method) :
    n.conditionOf m = conjunction (demanded (n.occurrences m) ++ n.fieldChecks m) := by
  by_cases h : n.grantedCondition m = ""
  · have hnone : demanded (n.occurrences m) = [] := by
      rw [grantedCondition_eq_empty_iff] at h
      cases hlists : n.occurrences m with
      | nil => rfl
      | cons first rest => simp [demanded, h first (by simp [hlists])]
    simp [conditionOf, h, hnone]
  · have hall : demanded (n.occurrences m) = (n.occurrences m).flatten := by
      rw [grantedCondition_eq_empty_iff] at h
      cases hlists : n.occurrences m with
      | nil => rfl
      | cons first rest => simp_all [demanded]
    have hgranted := grantedCondition_of_ne_empty h
    have hne : (n.occurrences m).flatten ≠ [] := by
      intro hnil
      rw [hnil] at hgranted
      exact h hgranted
    rw [conditionOf, List.filter_cons_of_pos (by simpa using h), List.filter_nil,
      List.singleton_append, hgranted, conjunction_cons_conjunction hne, hall]

end GrantNode

namespace AllowRule

/-- The rules differ in their methods only, and reach the same ones. -/
structure Alike (inner : Bool) (r s : AllowRule) : Prop where
  reach : ∀ m, m ∈ r.reach inner ↔ m ∈ s.reach inner
  conditions : r.conditions = s.conditions
  requireAuth : r.requireAuth = s.requireAuth
  claims : r.claims = s.claims

theorem Alike.conditionTexts {inner : Bool} {r s : AllowRule} (h : Alike inner r s) :
    r.conditionTexts = s.conditionTexts := by
  simp only [AllowRule.conditionTexts, h.conditions, h.requireAuth, h.claims]

/-- The condition texts of each rule that reaches a method, in the order of the rules. -/
def conditionLists (inner : Bool) (rules : List AllowRule) (m : Method) : List (List String) :=
  (rules.filter fun r => m ∈ r.reach inner).map AllowRule.conditionTexts

theorem conditionLists_eq_of_alike {inner : Bool} {rules others : List AllowRule}
    (h : List.Forall₂ (Alike inner) rules others) (m : Method) :
    conditionLists inner rules m = conditionLists inner others m := by
  unfold conditionLists
  induction h with
  | nil => rfl
  | @cons r s rules others hr _ ih =>
    have hmem : decide (m ∈ r.reach inner) = decide (m ∈ s.reach inner) := by
      simp only [hr.reach m]
    rw [List.filter_cons, List.filter_cons, hmem]
    split
    · rw [List.map_cons, List.map_cons, hr.conditionTexts, ih]
    · exact ih

end AllowRule

namespace Node

/-- The nodes differ in the methods of their allow rules only, and the rules reach the same ones. -/
structure Alike (inner : Bool) (n k : Node) : Prop where
  segment : n.segment = k.segment
  allowRules : List.Forall₂ (AllowRule.Alike inner) n.allowRules k.allowRules
  fieldRules : n.fieldRules = k.fieldRules
  exclusive : n.exclusive = k.exclusive

def conditionLists (inner : Bool) (n : Node) (m : Method) : List (List String) :=
  AllowRule.conditionLists inner n.allowRules m

theorem occurrences_flatten_expand (inner : Bool) (n : Node) (m : Method) :
    (n.expand inner).flatten.occurrences m = n.conditionLists inner m := by
  rw [occurrences_flatten, granting, allowRules_expand, List.filter_map, List.map_map]
  rfl

def condition (inner : Bool) (n : Node) (m : Method) : String :=
  conjunction (demanded (n.conditionLists inner m) ++ n.flatten.fieldChecks m)

theorem exists_statements_block (inner : Bool) (n : Node) :
    ∃ ms : List Method, ms.Nodup ∧
      (∀ m, m ∈ ms ↔ n.conditionLists inner m ≠ [] ∨ n.flatten.fieldChecks m ≠ []) ∧
      (n.block inner).statements = ms.map fun m => Statement.text ⟨m, n.condition inner m⟩ := by
  refine ⟨(n.expand inner).flatten.methodOrder, nodup_eraseDups _, fun m => ?_, ?_⟩
  · rw [GrantNode.mem_methodOrder_iff, occurrences_flatten_expand, fieldChecks_flatten_expand]
  · rw [block, GrantNode.merge, GrantNode.statements_eq_map, List.map_map]
    apply List.map_congr_left
    intro m _
    simp only [Function.comp_apply, condition, GrantNode.conditionOf_eq_demanded,
      occurrences_flatten_expand, fieldChecks_flatten_expand]

theorem Alike.conditionLists_eq {inner : Bool} {n k : Node} (h : Alike inner n k) (m : Method) :
    n.conditionLists inner m = k.conditionLists inner m :=
  AllowRule.conditionLists_eq_of_alike h.allowRules m

theorem Alike.fieldChecks_eq {inner : Bool} {n k : Node} (h : Alike inner n k) (m : Method) :
    n.flatten.fieldChecks m = k.flatten.fieldChecks m := by
  have hfields : n.flatten.fieldRules = k.flatten.fieldRules := h.fieldRules
  have hexclusive : n.flatten.exclusive = k.flatten.exclusive := h.exclusive
  rw [GrantNode.fieldChecks, GrantNode.fieldChecks, hfields, hexclusive]

/-- Alike nodes have the same statements up to their order. -/
theorem Alike.perm_statements {inner : Bool} {n k : Node} (h : Alike inner n k) :
    (n.block inner).statements.Perm (k.block inner).statements := by
  obtain ⟨ms, hms, hmem, hn⟩ := n.exists_statements_block inner
  obtain ⟨ks, hks, hkmem, hk⟩ := k.exists_statements_block inner
  have hperm : ms.Perm ks := by
    rw [List.perm_ext_iff_of_nodup hms hks]
    intro m
    rw [hmem, hkmem, h.conditionLists_eq, h.fieldChecks_eq]
  have htext : (fun m => Statement.text ⟨m, n.condition inner m⟩) =
      fun m => Statement.text ⟨m, k.condition inner m⟩ := by
    funext m
    simp only [condition, h.conditionLists_eq, h.fieldChecks_eq]
  rw [hn, hk, htext]
  exact hperm.map _

end Node

/-- Trees that differ in the methods of their allow rules only, where each rule reaches the same
methods as its counterpart, are compiled to trees of the same shape with the same statements at each
position, up to their order. In each compiled tree a method has one statement at a position, and
each rule that reaches the method gives its condition texts to that statement once. -/
theorem Node.compileTree_methods_as_set :
    (∀ t u : Tree Node, t.Agree Node.Alike u →
      (Node.compileTree t).Agree
        (fun _ b c => b.segment = c.segment ∧ b.statements.Perm c.statements)
        (Node.compileTree u)) ∧
    ∀ t : Tree Node, t.Agree
      (fun inner n b => ∃ ms : List Method, ms.Nodup ∧
        (∀ m, m ∈ ms ↔ n.conditionLists inner m ≠ [] ∨ n.flatten.fieldChecks m ≠ []) ∧
        b.statements = ms.map fun m => Statement.text
          ⟨m, conjunction (demanded (n.conditionLists inner m) ++ n.flatten.fieldChecks m)⟩)
      (Node.compileTree t) := by
  refine ⟨fun t u h => ?_, fun t => ?_⟩
  · rw [Node.compileTree_eq_relabel, Node.compileTree_eq_relabel]
    refine Tree.agree_relabel (fun inner n k halike => ⟨?_, halike.perm_statements⟩) t u h
    rw [Node.block_eq, Node.block_eq]
    exact halike.segment
  · rw [Node.compileTree_eq_relabel]
    exact Tree.agree_relabel_self (fun inner n => n.exists_statements_block inner) t

/-- A container that names `get` twice, once inside `read`, above a node that names `write`
twice. -/
theorem Node.compileTree_methods_as_set_repeated :
    let node (collection : String) (methods : List Method) : Node :=
      { segment := { collection, wildcard := "id" }
        allowRules := [{ methods, conditions := [.raw "A"] }] }
    let t : Tree Node :=
      .node (node "users" [.read, .get]) [.node (node "posts" [.write, .read, .write]) []]
    let u : Tree Node :=
      .node (node "users" [.list, .get]) [.node (node "posts" [.read, .write]) []]
    t.Agree Node.Alike u ∧
      (Node.compileTree t).Agree
        (fun _ b c => b.segment = c.segment ∧ b.statements.Perm c.statements)
        (Node.compileTree u) ∧
      (Node.compileTree t).label.statements = ["allow get: if A;", "allow list: if A;"] := by
  intro node t u
  have halike : t.Agree Node.Alike u := by
    refine ⟨⟨rfl, .cons ⟨fun m => ?_, rfl, rfl, rfl⟩ .nil, rfl, rfl⟩,
      ⟨⟨rfl, .cons ⟨fun m => ?_, rfl, rfl, rfl⟩ .nil, rfl, rfl⟩, trivial⟩, trivial⟩ <;>
    cases m <;> decide
  exact ⟨halike, Node.compileTree_methods_as_set.1 t u halike, by decide⟩

end AccessRules
