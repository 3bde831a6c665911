import AccessRules.Proofs.Merging

/-! The texts of statements read back: which method a statement grants and under which condition
can be told from its text, and each statement of a node comes from the allow rules that grant its
method. -/
namespace AccessRules

/-- Texts that end at the first character outside a class are told apart from what follows. -/
theorem append_cons_inj {α : Type} {p : α → Prop} {xs ys r s : List α} {c d : α}
    (hx : ∀ x ∈ xs, p x) (hy : ∀ y ∈ ys, p y) (hc : ¬p c) (hd : ¬p d)
    (h : xs ++ c :: r = ys ++ d :: s) : xs = ys ∧ c = d ∧ r = s := by
  induction xs generalizing ys with
  | nil =>
    cases ys with
    | nil => simpa using h
    | cons y ys =>
      rw [List.nil_append, List.cons_append, List.cons.injEq] at h
      exact absurd (h.1 ▸ hy y (by simp)) hc
  | cons x xs ih =>
    cases ys with
    | nil =>
      rw [List.nil_append, List.cons_append, List.cons.injEq] at h
      exact absurd (h.1 ▸ hx x (by simp)) hd
    | cons y ys =>
      rw [List.cons_append, List.cons_append, List.cons.injEq] at h
      obtain ⟨hxs, hrest⟩ := ih (fun x hx' => hx x (List.mem_cons_of_mem _ hx'))
        (fun y hy' => hy y (List.mem_cons_of_mem _ hy')) h.2
      exact ⟨by rw [h.1, hxs], hrest⟩

theorem Method.token_injective {m k : Method} (h : m.token = k.token) : m = k := by
  have := congrArg Method.ofToken? h
  simpa using this

theorem Method.token_letters (m : Method) : ∀ c ∈ m.token.toList, c.isLower = true := by
  have hall : m.token.toList.all Char.isLower = true := by
    cases m <;> decide
  exact List.all_eq_true.1 hall

theorem Method.token_append_inj {m k : Method} {c d : Char} {r s : List Char}
    (hc : c.isLower = false) (hd : d.isLower = false)
    (h : m.token.toList ++ c :: r = k.token.toList ++ d :: s) : m = k ∧ c = d ∧ r = s := by
  obtain ⟨hm, hrest⟩ := append_cons_inj m.token_letters k.token_letters (by simp [hc])
    (by simp [hd]) h
  exact ⟨Method.token_injective (String.toList_inj.1 hm), hrest⟩

namespace Statement

theorem text_mk_empty (m : Method) : text ⟨m, ""⟩ = "allow " ++ m.token ++ ";" := rfl

theorem text_mk_of_ne {c : String} (h : c ≠ "") (m : Method) :
    text ⟨m, c⟩ = "allow " ++ m.token ++ ": if " ++ c ++ ";" := by
  simp [text, h]

theorem toList_allow (m : Method) : ("allow " ++ m.token ++ ";").toList =
    "allow ".toList ++ (m.token.toList ++ ';' :: []) := by
  simp only [String.toList_append, List.append_assoc]
  rfl

theorem toList_allow_if (m : Method) (c : String) :
    ("allow " ++ m.token ++ ": if " ++ c ++ ";").toList =
      "allow ".toList ++ (m.token.toList ++ ':' :: (" if ".toList ++ (c.toList ++ [';']))) := by
  simp only [String.toList_append, List.append_assoc]
  rfl

theorem text_eq_allow_iff {s : Statement} {m : Method} :
    s.text = "allow " ++ m.token ++ ";" ↔ s = ⟨m, ""⟩ := by
  obtain ⟨k, c⟩ := s
  refine ⟨fun h => ?_, fun h => by rw [h, text_mk_empty]⟩
  by_cases hc : c = ""
  · subst hc
    rw [text_mk_empty, ← String.toList_inj, toList_allow, toList_allow] at h
    obtain ⟨rfl, -⟩ := Method.token_append_inj (by decide) (by decide) (List.append_cancel_left h)
    rfl
  · rw [text_mk_of_ne hc, ← String.toList_inj, toList_allow, toList_allow_if] at h
    obtain ⟨-, hd, -⟩ := Method.token_append_inj (by decide) (by decide)
      (List.append_cancel_left h)
    exact absurd hd (by decide)

theorem text_eq_allow_if_iff {s : Statement} {m : Method} {c : String} :
    s.text = "allow " ++ m.token ++ ": if " ++ c ++ ";" ↔ s = ⟨m, c⟩ ∧ c ≠ "" := by
  obtain ⟨k, d⟩ := s
  refine ⟨fun h => ?_, fun ⟨h, hc⟩ => by rw [h, text_mk_of_ne hc]⟩
  by_cases hd : d = ""
  · subst hd
    rw [text_mk_empty, ← String.toList_inj, toList_allow, toList_allow_if] at h
    obtain ⟨-, he, -⟩ := Method.token_append_inj (by decide) (by decide)
      (List.append_cancel_left h)
    exact absurd he (by decide)
  · rw [text_mk_of_ne hd, ← String.toList_inj, toList_allow_if, toList_allow_if] at h
    obtain ⟨rfl, -, hrest⟩ := Method.token_append_inj (by decide) (by decide)
      (List.append_cancel_left h)
    have hcd : d = c :=
      String.toList_inj.1 (List.append_cancel_right (List.append_cancel_left hrest))
    exact ⟨by rw [hcd], hcd ▸ hd⟩

end Statement

namespace GrantNode

/-- A node emits `allow m;` if `m` is among its methods and nothing is demanded of it. -/
theorem allow_mem_merge_iff {n : GrantNode} {m : Method} :
    "allow " ++ m.token ++ ";" ∈ n.merge.statements ↔ m ∈ n.methodOrder ∧ n.conditionOf m = "" := by
  simp only [merge, statements_eq_map, List.map_map, List.mem_map, Function.comp_apply,
    Statement.text_eq_allow_iff, Statement.mk.injEq]
  constructor
  · rintro ⟨k, hk, rfl, hc⟩
    exact ⟨hk, hc⟩
  · rintro ⟨hm, hc⟩
    exact ⟨m, hm, rfl, hc⟩

/-- A node emits `allow m: if c;` if `m` is among its methods and `c` is what is demanded of it. -/
theorem allow_if_mem_merge_iff {n : GrantNode} {m : Method} {c : String} :
    "allow " ++ m.token ++ ": if " ++ c ++ ";" ∈ n.merge.statements ↔
      m ∈ n.methodOrder ∧ n.conditionOf m = c ∧ c ≠ "" := by
  simp only [merge, statements_eq_map, List.map_map, List.mem_map, Function.comp_apply,
    Statement.text_eq_allow_if_iff, Statement.mk.injEq]
  constructor
  · rintro ⟨k, hk, ⟨rfl, hc⟩, hne⟩
    exact ⟨hk, hc, hne⟩
  · rintro ⟨hm, hc, hne⟩
    exact ⟨m, hm, ⟨rfl, hc⟩, hne⟩

theorem occurrences_ne_nil_iff {n : GrantNode} {m : Method} :
    n.occurrences m ≠ [] ↔ m ∈ n.grants.flatMap Grant.methods := by
  simp only [occurrences, ne_eq, List.flatMap_eq_nil_iff, List.replicate_eq_nil_iff,
    List.count_eq_zero, List.mem_flatMap, not_forall, not_not, exists_prop]

theorem fieldChecks_ne_nil_iff {n : GrantNode} {m : Method} :
    n.fieldChecks m ≠ [] ↔ m ∈ n.checkedMethods := by
  by_cases hn : n.fieldRules = []
  · cases m <;> simp [fieldChecks, typeChecks, checkedMethods, hn]
  · cases ht : n.fieldRules.any FieldRule.isTyped with
    | false =>
      have hf : n.fieldRules.filter FieldRule.isTyped = [] :=
        List.filter_eq_nil_iff.2 (List.any_eq_false.1 ht)
      cases m <;> simp [fieldChecks, typeChecks, checkedMethods, hn, ht, hf]
    | true =>
      have hf : n.fieldRules.filter FieldRule.isTyped ≠ [] := by
        obtain ⟨r, hr, htyped⟩ := List.any_eq_true.1 ht
        exact List.ne_nil_of_mem (List.mem_filter.2 ⟨hr, htyped⟩)
      cases m <;> simp only [fieldChecks, typeChecks, checkedMethods, hn, ht] <;> simp [hf]

theorem mem_methodOrder_iff {n : GrantNode} {m : Method} :
    m ∈ n.methodOrder ↔ n.occurrences m ≠ [] ∨ n.fieldChecks m ≠ [] := by
  rw [methodOrder, List.mem_eraseDups, List.mem_append, occurrences_ne_nil_iff,
    fieldChecks_ne_nil_iff]

end GrantNode

/-- The rules of a node that grant a method. -/
def Node.granting (n : Node) (m : Method) : List AllowRule :=
  n.allowRules.filter fun r => m ∈ r.methods

theorem Node.occurrences_flatten (n : Node) (m : Method) :
    n.flatten.occurrences m = (n.granting m).map AllowRule.conditionTexts := by
  unfold GrantNode.occurrences Node.granting Node.flatten
  induction n.allowRules with
  | nil => rfl
  | cons r rules ih =>
    rw [List.map_cons, List.flatMap_cons, ih]
    have hcount : r.grant.methods.count m = if m ∈ r.methods then 1 else 0 := by
      rw [AllowRule.grant, (nodup_eraseDups r.methods).count]
      simp only [List.mem_eraseDups]
    have hconditions : r.grant.conditions = r.conditionTexts := rfl
    rw [hcount, hconditions]
    by_cases h : m ∈ r.methods <;> simp [h]

end AccessRules
