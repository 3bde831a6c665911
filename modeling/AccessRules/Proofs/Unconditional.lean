import AccessRules.Proofs.Emission
import AccessRules.Proofs.Position

/-! Unconditional access. No condition is written as the empty text, and the only clauses with an
empty text are blank ones: an empty raw text, or an empty override. A single blank clause is
therefore taken for no clause at all, and nothing else is: longer lists of clauses, checks of the
user and checks of fields always leave a condition. -/
namespace AccessRules
open Statement

def Clause.isBlank : Clause → Bool
  | .raw s => s == ""
  | .condition c => c.override? == some ""

theorem Condition.comparison_ne_empty (c : Condition) : c.comparison ≠ "" := by
  unfold Condition.comparison
  cases c.inverted <;> simp [String.append_eq_empty_iff]

theorem Clause.text_eq_empty_iff {c : Clause} : c.text = "" ↔ c.isBlank = true := by
  cases c with
  | raw s => simp [Clause.text, Clause.isBlank]
  | condition c =>
    cases h : c.override? <;>
      simp [Clause.text, Clause.isBlank, Condition.text, h, Condition.comparison_ne_empty]

theorem Claim.check_ne_empty (c : Claim) : c.check ≠ "" := by
  unfold Claim.check
  cases c.value? <;> simp [String.append_eq_empty_iff]

namespace AllowRule

/-- The rule declares nothing that a request has to satisfy. -/
def IsBare (r : AllowRule) : Prop := r.conditions = [] ∧ r.requireAuth = false ∧ r.claims = []

/-- All that the rule declares is one blank clause. -/
def IsBlank (r : AllowRule) : Prop :=
  (∃ c, r.conditions = [c] ∧ c.isBlank = true) ∧ r.requireAuth = false ∧ r.claims = []

theorem conditionTexts_eq_nil_iff {r : AllowRule} : r.conditionTexts = [] ↔ r.IsBare := by
  simp [conditionTexts, IsBare]

theorem conditionTexts_eq_blank_iff {r : AllowRule} : r.conditionTexts = [""] ↔ r.IsBlank := by
  constructor
  · intro h
    have hempty : ∀ text ∈ r.conditionTexts, text = "" := by
      rw [h]
      simp
    have hauth : r.requireAuth = false := by
      by_contra hr
      exact absurd (hempty signedIn (by simp [conditionTexts, hr])) (by decide)
    have hclaims : r.claims = [] := by
      by_contra hr
      obtain ⟨c, hc⟩ := List.exists_mem_of_ne_nil _ hr
      have hmem : c.check ∈ r.conditionTexts :=
        List.mem_append_right _ (List.mem_map.2 ⟨c, hc, rfl⟩)
      exact c.check_ne_empty (hempty _ hmem)
    rw [conditionTexts, hauth, hclaims] at h
    simp only [Bool.false_eq_true, if_false, List.map_nil, List.append_nil] at h
    obtain ⟨c, hc, htext⟩ := List.map_eq_singleton_iff.1 h
    exact ⟨⟨c, hc, Clause.text_eq_empty_iff.1 htext⟩, hauth, hclaims⟩
  · rintro ⟨⟨c, hc, hblank⟩, hauth, hclaims⟩
    simp [conditionTexts, hc, hauth, hclaims, Clause.text_eq_empty_iff.2 hblank]

/-- A rule demands nothing if it declares nothing, or one blank clause only. -/
theorem conjunction_conditionTexts_eq_empty_iff {r : AllowRule} :
    conjunction r.conditionTexts = "" ↔ r.IsBare ∨ r.IsBlank := by
  rw [conjunction_eq_empty_iff, conditionTexts_eq_nil_iff, conditionTexts_eq_blank_iff]

end AllowRule

namespace GrantNode

theorem grantedCondition_eq_empty_iff {n : GrantNode} {m : Method} :
    n.grantedCondition m = "" ↔ ∀ first ∈ (n.occurrences m).head?, conjunction first = "" := by
  unfold grantedCondition
  cases n.occurrences m with
  | nil => simp
  | cons first rest =>
    by_cases h : conjunction first = ""
    · simp [h]
    · have hfirst : first ≠ [] := by
        rintro rfl
        exact h rfl
      have hne : conjunction (((first :: rest).filter fun cs => !cs.isEmpty).map conjunction) ≠
          "" := by
        rw [List.filter_cons_of_pos (by simp [hfirst]), List.map_cons, Ne,
          conjunction_eq_empty_iff]
        simp [h]
      simp only [h, if_false, hne, List.head?_cons, Option.mem_some_iff, forall_eq']

theorem conditionOf_eq_empty_iff {n : GrantNode} {m : Method} :
    n.conditionOf m = "" ↔ n.grantedCondition m = "" ∧ n.fieldChecks m = [] := by
  rw [conditionOf, conjunction_eq_empty_iff]
  constructor
  · rintro (h | h)
    · simpa using h
    · have hempty : ∀ text ∈ [n.grantedCondition m].filter (fun c => c ≠ "") ++ n.fieldChecks m,
          text = "" := by
        rw [h]
        simp
      have hchecks : n.fieldChecks m = [] := by
        by_contra hne
        obtain ⟨text, htext⟩ := List.exists_mem_of_ne_nil _ hne
        exact ne_empty_of_mem_fieldChecks htext (hempty text (by simp [htext]))
      refine ⟨?_, hchecks⟩
      by_contra hg
      exact hg (hempty _ (by simp [hg]))
  · rintro ⟨hg, hc⟩
    simp [hg, hc]

end GrantNode

theorem Node.allow_mem_merge_iff {n : Node} {m : Method} :
    "allow " ++ m.token ++ ";" ∈ n.flatten.merge.statements ↔
      (∃ r ∈ (n.granting m).head?, r.IsBare ∨ r.IsBlank) ∧ m ∉ n.flatten.checkedMethods := by
  rw [GrantNode.allow_mem_merge_iff, GrantNode.conditionOf_eq_empty_iff,
    GrantNode.grantedCondition_eq_empty_iff, GrantNode.mem_methodOrder_iff, n.occurrences_flatten,
    ← GrantNode.fieldChecks_ne_nil_iff, not_ne_iff]
  cases n.granting m with
  | nil => simp
  | cons r rest => simp [AllowRule.conjunction_conditionTexts_eq_empty_iff]

theorem Node.checkedMethods_expand (inner : Bool) (n : Node) :
    (n.expand inner).flatten.checkedMethods = n.flatten.checkedMethods := by
  cases inner <;> rfl

/-- A compiled policy says `allow m;` at a node exactly if no field rule of the node concerns `m`
and the first of its expanded rules that grants `m` declares nothing, or one blank clause only.
Unless that rule is blank, some rule that grants `m` declares nothing. -/
theorem Policy.allow_mem_compile_iff {p : Policy} {path : List Nat} {t : Tree Node}
    (h : p.at? path = some t) :
    ∃ b, p.compile.at? path = some b ∧ ∀ m : Method,
      ("allow " ++ m.token ++ ";" ∈ b.label.statements ↔
        (∃ r ∈ ((t.label.expand t.isInner).granting m).head?, r.IsBare ∨ r.IsBlank) ∧
          m ∉ t.label.flatten.checkedMethods) ∧
      ("allow " ++ m.token ++ ";" ∈ b.label.statements →
        (∀ r ∈ ((t.label.expand t.isInner).granting m).head?, ¬r.IsBlank) →
          ∃ r ∈ (t.label.expand t.isInner).granting m, r.IsBare) := by
  obtain ⟨b, hb, hlabel⟩ := Policy.at?_compile h
  refine ⟨b, hb, fun m => ?_⟩
  have hiff := @Node.allow_mem_merge_iff (t.label.expand t.isInner) m
  rw [Node.checkedMethods_expand] at hiff
  rw [hlabel]
  refine ⟨hiff, fun hmem hblank => ?_⟩
  obtain ⟨⟨r, hr, hopen⟩, -⟩ := hiff.1 hmem
  exact ⟨r, List.mem_of_mem_head? hr, hopen.resolve_right (hblank r hr)⟩

/-- A single empty clause opens a collection to everyone, though no rule is without a clause. -/
theorem Policy.allow_mem_compile_blank :
    let n : Node :=
      { segment := { collection := "users", wildcard := "uid" }
        allowRules := [{ methods := [.get], conditions := [.raw ""] }] }
    let p : Policy := { topLevel := "/documents", trees := [.node n []] }
    p.at? [0] = some (.node n []) ∧ (∀ r ∈ n.allowRules, ¬r.IsBare) ∧
      ∃ b, p.compile.at? [0] = some b ∧ "allow get;" ∈ b.label.statements := by
  intro n p
  have hp : p.at? [0] = some (.node n []) := rfl
  refine ⟨hp, by simp [n, AllowRule.IsBare], ?_⟩
  obtain ⟨b, hb, hall⟩ := Policy.allow_mem_compile_iff hp
  refine ⟨b, hb, (hall .get).1.2 ⟨⟨_, rfl, .inr ⟨⟨_, rfl, rfl⟩, rfl, rfl⟩⟩, by decide⟩⟩

end AccessRules
