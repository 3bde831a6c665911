import AccessRules.Proofs.CheckText
import AccessRules.Proofs.Rebinding
import AccessRules.Proofs.Unconditional

/-! Field checks in compiled rules. A statement for `create` or `update` demands all checks of the
node, whatever the allow rules say. A statement for `write` is never narrowed by them, and only a
node without children has one. -/
namespace AccessRules
open Statement Text

namespace Statement

/-- The check is one of the texts that the condition joins. -/
def Demands (s : Statement) (check : String) : Prop :=
  ∃ before after, s.condition = conjunction (before ++ check :: after)

/-- The condition joins the check to other texts, and each of the texts is taken as one operand of
`&&`: it closes its own parentheses, and has no `|` outside them. The texts are not parsed any
further; quotes, comments and the conditional operator are not read. -/
def Enforces (s : Statement) (check : String) : Prop :=
  ∃ before after, s.condition = conjunction (before ++ check :: after) ∧
    ∀ text ∈ before ++ check :: after, Solid ['|'] 0 text.toList

theorem not_demands_of_condition_eq_empty {s : Statement} (hs : s.condition = "") {check : String}
    (hcheck : check ≠ "") : ¬s.Demands check := by
  rintro ⟨before, after, h⟩
  rw [hs, eq_comm, conjunction_eq_empty_iff] at h
  have hmem : check ∈ before ++ check :: after := by simp
  rcases h with h | h
  · simp at h
  · rw [h, List.mem_singleton] at hmem
    exact hcheck hmem

theorem conjunction_cons_conjunction {xs : List String} (hx : xs ≠ []) (ys : List String) :
    conjunction (conjunction xs :: ys) = conjunction (xs ++ ys) := by
  cases ys with
  | nil => simp
  | cons y ys =>
    rw [conjunction_cons_cons, conjunction_append hx (by simp)]

end Statement

namespace GrantNode
variable {n : GrantNode} {m : Method}

/-- The condition of a method joins texts of the grants, and then all field checks. -/
theorem exists_conditionOf_eq (n : GrantNode) (m : Method) :
    ∃ granted, (∀ text ∈ granted, text ∈ (n.occurrences m).flatten) ∧
      n.conditionOf m = conjunction (granted ++ n.fieldChecks m) := by
  by_cases h : n.grantedCondition m = ""
  · exact ⟨[], by simp, by simp [conditionOf, h]⟩
  · have hgranted := grantedCondition_of_ne_empty h
    have hne : (n.occurrences m).flatten ≠ [] := by
      intro hnil
      rw [hnil] at hgranted
      exact h hgranted
    refine ⟨(n.occurrences m).flatten, fun _ ht => ht, ?_⟩
    rw [conditionOf, List.filter_cons_of_pos (by simpa using h), List.filter_nil,
      List.singleton_append, hgranted, conjunction_cons_conjunction hne]

theorem exists_conditionOf_eq_of_mem {check : String} (h : check ∈ n.fieldChecks m) :
    ∃ before after, n.conditionOf m = conjunction (before ++ check :: after) ∧
      ∀ text ∈ before ++ check :: after,
        text ∈ (n.occurrences m).flatten ∨ text ∈ n.fieldChecks m := by
  obtain ⟨granted, hgranted, hcondition⟩ := n.exists_conditionOf_eq m
  obtain ⟨before, after, hchecks⟩ := List.append_of_mem h
  have hjoined : granted ++ before ++ check :: after = granted ++ n.fieldChecks m := by
    rw [List.append_assoc, hchecks]
  refine ⟨granted ++ before, after, by rw [hjoined, hcondition], ?_⟩
  intro text ht
  rw [hjoined] at ht
  exact (List.mem_append.1 ht).imp_left (hgranted text)

theorem demands_of_mem_fieldChecks {check : String} (h : check ∈ n.fieldChecks m) :
    (⟨m, n.conditionOf m⟩ : Statement).Demands check := by
  obtain ⟨before, after, hcondition, -⟩ := exists_conditionOf_eq_of_mem h
  exact ⟨before, after, hcondition⟩

theorem solid_of_mem_typeChecks {rules : List FieldRule} (h : ∀ r ∈ rules, r.isNamed = true)
    {text : String} (ht : text ∈ typeChecks rules m) : Solid ['|'] 0 text.toList := by
  have hcheck (defaulted : FieldRule → Bool)
      (hmem : text ∈ (rules.filter FieldRule.isTyped).map fun r => r.typeCheck (defaulted r)) :
      Solid ['|'] 0 text.toList := by
    obtain ⟨r, hr, rfl⟩ := List.mem_map.1 hmem
    obtain ⟨hr, htyped⟩ := List.mem_filter.1 hr
    exact FieldRule.solid_typeCheck (h r hr) htyped
  cases m with
  | create => exact hcheck (fun r => !r.required) ht
  | update => exact hcheck (fun _ => true) ht
  | _ => simp [typeChecks] at ht

theorem solid_of_mem_fieldChecks (h : ∀ r ∈ n.fieldRules, r.isNamed = true) {text : String}
    (ht : text ∈ n.fieldChecks m) : Solid ['|'] 0 text.toList := by
  rcases List.mem_append.1 ht with ht | ht
  · exact solid_of_mem_typeChecks h ht
  · have hfields := isIdentifier_of_mem_requiredFields h
    split at ht
    · obtain rfl := List.mem_singleton.1 ht
      exact (solid_presenceCheck hfields).of_subset (by simp)
    · simp at ht

theorem enforces_of_mem_fieldChecks (hnamed : ∀ r ∈ n.fieldRules, r.isNamed = true)
    (hgranted : ∀ text ∈ (n.occurrences m).flatten, Solid ['|'] 0 text.toList) {check : String}
    (h : check ∈ n.fieldChecks m) : (⟨m, n.conditionOf m⟩ : Statement).Enforces check := by
  obtain ⟨before, after, hcondition, htexts⟩ := exists_conditionOf_eq_of_mem h
  refine ⟨before, after, hcondition, fun text ht => ?_⟩
  rcases htexts text ht with ht | ht
  · exact hgranted text ht
  · exact solid_of_mem_fieldChecks hnamed ht

theorem conditionOf_write (n : GrantNode) :
    n.conditionOf .write = n.grantedCondition .write := by
  have hnone : n.fieldChecks .write = [] := by simp [fieldChecks, typeChecks]
  by_cases h : n.grantedCondition .write = "" <;> simp [conditionOf, hnone, h]

end GrantNode

namespace Node

/-- What the field rules of a node demand of a document that a method writes. -/
def checks (n : Node) : Method → List String
  | .create => presenceCheck (requiredFields n.fieldRules) n.exclusive ::
      (n.fieldRules.filter FieldRule.isTyped).map FieldRule.createCheck
  | .update => (n.fieldRules.filter FieldRule.isTyped).map FieldRule.updateCheck
  | _ => []

@[simp] theorem fieldRules_expand (inner : Bool) (n : Node) :
    (n.expand inner).fieldRules = n.fieldRules := by
  cases inner <;> rfl

theorem fieldChecks_flatten_expand (inner : Bool) (n : Node) (m : Method) :
    (n.expand inner).flatten.fieldChecks m = n.flatten.fieldChecks m := by
  cases inner <;> rfl

theorem mem_fieldChecks_of_mem_checks {n : Node} (hrules : n.fieldRules ≠ []) {m : Method}
    {check : String} (h : check ∈ n.checks m) : check ∈ n.flatten.fieldChecks m := by
  have hflat : n.flatten.fieldRules = n.fieldRules := rfl
  cases m with
  | create =>
    rw [GrantNode.fieldChecks, hflat, if_pos ⟨rfl, hrules⟩]
    rcases List.mem_cons.1 h with rfl | h
    · exact List.mem_append_right _ (List.mem_singleton_self _)
    · exact List.mem_append_left _ h
  | update => exact List.mem_append_left _ h
  | _ => simp [checks] at h

theorem granting_expand_of_isCoarse {n : Node} {m : Method} (h : m.isCoarse = true) :
    (n.expand true).granting m = [] := by
  rw [granting, List.filter_eq_nil_iff]
  intro r hr
  obtain ⟨r, -, rfl⟩ := List.mem_map.1 hr
  simp only [AllowRule.expand, List.mem_flatMap, decide_eq_true_eq, not_exists, not_and]
  intro k _ hm
  simp [Method.not_isCoarse_of_mem_fine hm] at h

theorem not_isInner_of_write_mem {inner : Bool} {n : Node}
    (h : Method.write ∈ (n.expand inner).flatten.methodOrder) : inner = false := by
  cases inner with
  | false => rfl
  | true =>
    have hnone : (n.expand true).flatten.occurrences .write = [] := by
      rw [occurrences_flatten, granting_expand_of_isCoarse rfl, List.map_nil]
    rcases GrantNode.mem_methodOrder_iff.1 h with h | h
    · exact absurd hnone h
    · simp [GrantNode.fieldChecks, GrantNode.typeChecks] at h

end Node

/-- At a node with field rules, each compiled statement for `create` demands the check on the set of
fields and the type check of each typed rule, and each one for `update` the type check of each typed
rule. They are enforced if the conditions of the allow rules are operands of `&&`. Only a node
without children has a statement for `write`, and its condition is that of the allow rules. -/
theorem Policy.compile_demands_checks {p : Policy} {path : List Nat} {t : Tree Node}
    (h : p.at? path = some t) (hrules : t.label.fieldRules ≠ []) :
    ∃ (b : Tree Block) (statements : List Statement), p.compile.at? path = some b ∧
      b.label.statements = statements.map Statement.text ∧
      (∀ m, t.label.checks m ≠ [] → m ∈ statements.map Statement.method) ∧
      ∀ s ∈ statements,
        (∀ check ∈ t.label.checks s.method, s.Demands check) ∧
        ((∀ r ∈ t.label.fieldRules, r.isNamed = true) →
          (∀ r ∈ (t.label.expand t.isInner).granting s.method, ∀ text ∈ r.conditionTexts,
            Solid ['|'] 0 text.toList) →
          ∀ check ∈ t.label.checks s.method, s.Enforces check) ∧
        (s.method = .write →
          t.isInner = false ∧ s.condition = t.label.flatten.grantedCondition .write) := by
  obtain ⟨b, hb, hlabel⟩ := Policy.at?_compile h
  let n := t.label.expand t.isInner
  have hchecks {m : Method} {check : String} (hc : check ∈ t.label.checks m) :
      check ∈ n.flatten.fieldChecks m := by
    rw [Node.fieldChecks_flatten_expand]
    exact Node.mem_fieldChecks_of_mem_checks hrules hc
  refine ⟨b, n.flatten.statements, hb, by rw [hlabel]; rfl, fun m hm => ?_, fun s hs => ?_⟩
  · obtain ⟨check, hc⟩ := List.exists_mem_of_ne_nil _ hm
    have hmem : m ∈ n.flatten.methodOrder :=
      GrantNode.mem_methodOrder_iff.2 (.inr (List.ne_nil_of_mem (hchecks hc)))
    simpa [GrantNode.statements_eq_map] using hmem
  · rw [GrantNode.statements_eq_map] at hs
    obtain ⟨m, hm, rfl⟩ := List.mem_map.1 hs
    refine ⟨fun check hc => GrantNode.demands_of_mem_fieldChecks (hchecks hc),
      fun hnamed htexts check hc => ?_, ?_⟩
    · apply GrantNode.enforces_of_mem_fieldChecks _ _ (hchecks hc)
      · intro r hr
        exact hnamed r (by rwa [← Node.fieldRules_expand t.isInner])
      · intro text ht
        rw [Node.occurrences_flatten, ← List.flatMap_def, List.mem_flatMap] at ht
        obtain ⟨r, hr, ht⟩ := ht
        exact htexts r hr text ht
    · rintro rfl
      have hleaf : t.isInner = false := Node.not_isInner_of_write_mem hm
      have hn : n = t.label := by simp [n, hleaf, Node.expand]
      exact ⟨hleaf, by rw [GrantNode.conditionOf_write, hn]⟩

/-- A node with children, one optional field of two types and a grant under an alternative. -/
theorem Policy.compile_demands_checks_inner :
    let n : Node :=
      { segment := { collection := "users", wildcard := "uid" }
        allowRules := [{ methods := [.write], conditions := [.raw "(isOwner() || isAdmin())"] }]
        fieldRules := [{ field := "name", types := [.string, .int] }] }
    let leaf : Node := { segment := { collection := "posts", wildcard := "id" } }
    let p : Policy := { topLevel := "/documents", trees := [.node n [.node leaf []]] }
    p.at? [0] = some (.node n [.node leaf []]) ∧ n.fieldRules ≠ [] ∧
      ∃ (b : Tree Block) (statements : List Statement), p.compile.at? [0] = some b ∧
        b.label.statements = statements.map Statement.text ∧
        ∃ s ∈ statements, s.method = .update ∧
          s.Enforces "(getOr(request, 'name', '') is string || getOr(request, 'name', 0) is int)" := by
  intro n leaf p
  have hp : p.at? [0] = some (.node n [.node leaf []]) := rfl
  have hrules : n.fieldRules ≠ [] := by simp [n]
  refine ⟨hp, hrules, ?_⟩
  obtain ⟨b, statements, hb, htexts, hmethods, hall⟩ := Policy.compile_demands_checks hp hrules
  obtain ⟨s, hs, hmethod⟩ := List.mem_map.1 (hmethods .update (by decide))
  refine ⟨b, statements, hb, htexts, s, hs, hmethod, (hall s hs).2.1 (by decide) ?_ _ ?_⟩
  · rw [hmethod]
    decide
  · rw [hmethod]
    decide

/-- A node without children may have a statement for `write` that demands no check. -/
theorem Policy.compile_write_unchecked :
    let n : Node :=
      { segment := { collection := "users", wildcard := "uid" }
        allowRules := [{ methods := [.write] }]
        fieldRules := [{ field := "name", required := true }] }
    let p : Policy := { topLevel := "/documents", trees := [.node n []] }
    p.at? [0] = some (.node n []) ∧ n.fieldRules ≠ [] ∧
      ∃ b, p.compile.at? [0] = some b ∧
        ∃ s : Statement, s.method = .write ∧ s.text ∈ b.label.statements ∧
          "request.resource.data.keys().hasAll(['name'])" ∈ n.checks .create ∧
          ¬s.Demands "request.resource.data.keys().hasAll(['name'])" := by
  intro n p
  refine ⟨rfl, by simp [n], _, rfl, ⟨.write, ""⟩, rfl, by decide, by decide, ?_⟩
  exact not_demands_of_condition_eq_empty rfl (by decide)

end AccessRules
