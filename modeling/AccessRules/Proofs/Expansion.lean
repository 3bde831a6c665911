import AccessRules.Proofs.MethodSets
import Mathlib.Data.List.Forall2

/-! Expansion brings the methods of a tree into a normal form. On a node with children no coarse
method is left, and each rule covers the methods that it covered before; all else stays as it was.
A tree that has been expanded is therefore not changed by expanding it once more, and is compiled
to what the tree itself is compiled to. -/
namespace AccessRules

namespace Method

/-- Whether a statement for a method also grants a fine method. -/
def covers : Method → Method → Bool
  | .read, .get | .read, .list => true
  | .write, .create | .write, .update | .write, .delete => true
  | m, k => m == k

theorem mem_fine_iff {m k : Method} (hk : k.isCoarse = false) :
    k ∈ m.fine ↔ m.covers k = true := by
  revert hk
  cases m <;> cases k <;> decide

theorem covers_iff_eq {m k : Method} (hm : m.isCoarse = false) : m.covers k = true ↔ k = m := by
  revert hm
  cases m <;> cases k <;> decide

theorem flatMap_fine_of_fine {ms : List Method} (h : ∀ m ∈ ms, m.isCoarse = false) :
    ms.flatMap fine = ms := by
  induction ms with
  | nil => rfl
  | cons m ms ih =>
    have hm : m.fine = [m] := fine_of_not_isCoarse (h m (by simp))
    have hms : ms.flatMap fine = ms := ih fun k hk => h k (List.mem_cons_of_mem m hk)
    rw [List.flatMap_cons, hm, hms, List.singleton_append]

end Method

namespace AllowRule

def covers (r : AllowRule) (m : Method) : Bool := r.methods.any fun k => k.covers m

theorem not_isCoarse_of_mem_expand {r : AllowRule} {m : Method} (h : m ∈ r.expand.methods) :
    m.isCoarse = false := by
  obtain ⟨k, -, hm⟩ := List.mem_flatMap.1 h
  exact Method.not_isCoarse_of_mem_fine hm

theorem expand_of_fine {r : AllowRule} (h : ∀ m ∈ r.methods, m.isCoarse = false) :
    r.expand = r := by
  rw [expand, Method.flatMap_fine_of_fine h]

theorem expand_expand (r : AllowRule) : r.expand.expand = r.expand :=
  expand_of_fine fun _ => not_isCoarse_of_mem_expand

theorem covers_expand (r : AllowRule) {m : Method} (hm : m.isCoarse = false) :
    r.expand.covers m = r.covers m := by
  rw [Bool.eq_iff_iff]
  simp only [covers, List.any_eq_true]
  constructor
  · rintro ⟨f, hf, hcovers⟩
    have hfine : f.isCoarse = false := not_isCoarse_of_mem_expand hf
    obtain rfl := (Method.covers_iff_eq hfine).1 hcovers
    obtain ⟨k, hk, hmem⟩ := List.mem_flatMap.1 hf
    exact ⟨k, hk, (Method.mem_fine_iff hm).1 hmem⟩
  · rintro ⟨k, hk, hcovers⟩
    have hmem : m ∈ k.fine := (Method.mem_fine_iff hm).2 hcovers
    exact ⟨m, List.mem_flatMap.2 ⟨k, hk, hmem⟩, (Method.covers_iff_eq hm).2 rfl⟩

/-- The second rule has fine methods only, covers what the first one covers, and is otherwise the
same. -/
structure Refined (r s : AllowRule) : Prop where
  fine : ∀ m ∈ s.methods, m.isCoarse = false
  covers : ∀ m, m.isCoarse = false → s.covers m = r.covers m
  conditions : s.conditions = r.conditions
  requireAuth : s.requireAuth = r.requireAuth
  claims : s.claims = r.claims

theorem refined_expand (r : AllowRule) : Refined r r.expand where
  fine _ := not_isCoarse_of_mem_expand
  covers _ hm := r.covers_expand hm
  conditions := rfl
  requireAuth := rfl
  claims := rfl

end AllowRule

namespace Node

/-- The second node has refined rules in place of the rules of a node with children, and is
otherwise the same. -/
structure Refined (inner : Bool) (n k : Node) : Prop where
  segment : k.segment = n.segment
  fieldRules : k.fieldRules = n.fieldRules
  exclusive : k.exclusive = n.exclusive
  ofLeaf : inner = false → k.allowRules = n.allowRules
  ofInner : inner = true → List.Forall₂ AllowRule.Refined n.allowRules k.allowRules

theorem refined_expand (inner : Bool) (n : Node) : Refined inner n (n.expand inner) where
  segment := n.segment_expand inner
  fieldRules := n.fieldRules_expand inner
  exclusive := by cases inner <;> rfl
  ofLeaf h := by rw [h]; rfl
  ofInner h := by
    rw [h]
    exact List.forall₂_map_right_iff.2 (List.forall₂_same.2 fun r _ => r.refined_expand)

theorem expand_expand (inner : Bool) (n : Node) :
    (n.expand inner).expand inner = n.expand inner := by
  cases inner with
  | false => rfl
  | true =>
    have hrules : (n.allowRules.map AllowRule.expand).map AllowRule.expand =
        n.allowRules.map AllowRule.expand := by
      rw [List.map_map]
      exact List.map_congr_left fun r _ => r.expand_expand
    simp only [expand, if_true, hrules]

theorem expandTree_idem (t : Tree Node) : expandTree (expandTree t) = expandTree t := by
  have hexpand : (fun (inner : Bool) (n : Node) => (n.expand inner).expand inner) =
      Node.expand := by
    funext inner n
    exact n.expand_expand inner
  rw [expandTree, Tree.relabel_relabel, hexpand]

/-- Expanding a tree twice is expanding it once, and an expanded tree is compiled to the same
blocks. The expanded tree has the shape of the tree. At each position it has the same node, except
that the rules of a node with children have lost their coarse methods and cover what they
covered. -/
theorem expandTree_normal_form (t : Tree Node) :
    expandTree (expandTree t) = expandTree t ∧ compileTree (expandTree t) = compileTree t ∧
      t.Agree Node.Refined (expandTree t) := by
  refine ⟨expandTree_idem t, ?_, Tree.agree_relabel_self (fun inner n => n.refined_expand inner) t⟩
  rw [compileTree, expandTree_idem, ← compileTree]

end Node
end AccessRules
