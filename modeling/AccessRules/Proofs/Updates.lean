import AccessRules.Proofs.Documents

/-! What the field checks of an update mean. An update reads each field with a placeholder for the
case that it is absent, so that a field which is present has to have one of its types, and one
which is absent passes if some placeholder has the type that it stands for. The placeholder of
floats is the literal zero, which is no float: a rule whose only type is `float` refuses documents
without its field. -/
namespace AccessRules
open Statement

/-- What is known of the placeholders: zero is an integer and a number and no float, and any other
placeholder has the type that it stands for. -/
structure Language.Standard {V : Type} (l : Language V) : Prop where
  zero_int : l.hasType (l.literal "0") .int = true
  zero_number : l.hasType (l.literal "0") .number = true
  zero_float : l.hasType (l.literal "0") .float = false
  placeholder : ∀ t : ValueType, t.placeholder ≠ "0" → l.hasType (l.literal t.placeholder) t = true

section
variable {V : Type} {l : Language V} {d : Document V}

theorem Language.Standard.hasType_placeholder_iff (h : l.Standard) (t : ValueType) :
    l.hasType (l.literal t.placeholder) t = true ↔ t ≠ .float := by
  cases t with
  | int => simpa [ValueType.placeholder] using h.zero_int
  | number => simpa [ValueType.placeholder] using h.zero_number
  | float => simpa [ValueType.placeholder] using h.zero_float
  | _ => simpa using h.placeholder _ (by decide)

namespace FieldRule
variable {r : FieldRule}

/-- The rule lists a type whose placeholder has that type. -/
def TypesPlaceholder (r : FieldRule) : Prop := ∃ t ∈ r.types, t ≠ ValueType.float

theorem holds_updateCheck_iff (h : l.Standard) : (r.check true).holds l d = true ↔
    (∀ v, d.value? r.field = some v → r.Admits l v) ∧
      (r.field ∉ d.fields → r.TypesPlaceholder) := by
  rw [Document.mem_fields_iff]
  cases hv : d.value? r.field with
  | some v => simpa using holds_check_of_eq_some hv true
  | none =>
    rw [holds_check_defaulted_of_eq_none hv]
    simp [h.hasType_placeholder_iff, TypesPlaceholder]

end FieldRule

namespace GrantNode
variable {n : GrantNode}

def updateChecks (n : GrantNode) : List Check :=
  (n.fieldRules.filter FieldRule.isTyped).map fun r => r.check true

theorem read?_fieldChecks_update (hnamed : ∀ r ∈ n.fieldRules, r.isNamed = true) :
    (n.fieldChecks .update).mapM Check.read? = some n.updateChecks := by
  have hchecks : n.fieldChecks .update = typeChecks n.fieldRules .update := by
    rw [fieldChecks, if_neg (by simp), List.append_nil]
  rw [hchecks]
  apply mapM_map_eq_some
  intro r hr
  obtain ⟨hr, htyped⟩ := List.mem_filter.1 hr
  exact FieldRule.read?_typeCheck (hnamed r hr) htyped

theorem holds_updateChecks_iff (h : l.Standard) :
    (∀ c ∈ n.updateChecks, c.holds l d = true) ↔
      ∀ r ∈ n.fieldRules, r.isTyped = true →
        (∀ v, d.value? r.field = some v → r.Admits l v) ∧
          (r.field ∉ d.fields → r.TypesPlaceholder) := by
  simp only [updateChecks, List.forall_mem_map, List.mem_filter, and_imp,
    FieldRule.holds_updateCheck_iff h]

/-- The field checks of an `update` statement hold of a document exactly if every field of a typed
rule that is present has one of the rule's types, and every rule whose field is absent lists
another type than `float`. So absent fields are passed over in all documents exactly if no rule
lists `float` alone. -/
theorem update_checks_hold_iff (hnamed : ∀ r ∈ n.fieldRules, r.isNamed = true) (h : l.Standard) :
    (n.fieldRules.any FieldRule.isTyped = true →
      (⟨.update, conjunction (([n.grantedCondition .update].filter fun c => c ≠ "") ++
        n.fieldChecks .update)⟩ : Statement) ∈ n.statements) ∧
    ∃ checks, (n.fieldChecks .update).mapM Check.read? = some checks ∧
      (∀ d : Document V, (∀ c ∈ checks, c.holds l d = true) ↔
        ∀ r ∈ n.fieldRules, r.isTyped = true →
          (∀ v, d.value? r.field = some v → ∃ t ∈ r.types, l.hasType v t = true) ∧
          (r.field ∉ d.fields → ∃ t ∈ r.types, t ≠ .float)) ∧
      ((∀ d : Document V, (∀ c ∈ checks, c.holds l d = true) ↔
        ∀ r ∈ n.fieldRules, r.isTyped = true →
          ∀ v, d.value? r.field = some v → ∃ t ∈ r.types, l.hasType v t = true) ↔
        ∀ r ∈ n.fieldRules, r.isTyped = true → ∃ t ∈ r.types, t ≠ .float) := by
  refine ⟨fun htyped => ?_, n.updateChecks, read?_fieldChecks_update hnamed,
    fun d => holds_updateChecks_iff h, ?_⟩
  · have hne : n.fieldChecks .update ≠ [] := by
      rw [fieldChecks_ne_nil_iff, checkedMethods, if_neg, if_pos htyped]
      · simp
      · rintro hnil
        simp [hnil] at htyped
    rw [statements_eq_map]
    exact List.mem_map.2 ⟨.update, mem_methodOrder_iff.2 (.inr hne), rfl⟩
  · constructor
    · -- All fields are absent from the empty document, which no rule has anything against.
      intro hall r hr htyped
      have hempty := (hall ⟨[]⟩).2 fun r _ _ v hv => by simp [Document.value?] at hv
      exact ((holds_updateChecks_iff h).1 hempty r hr htyped).2 (by simp [Document.fields])
    · intro hlists d
      rw [holds_updateChecks_iff h]
      exact ⟨fun hd r hr htyped => (hd r hr htyped).1,
        fun hd r hr htyped => ⟨hd r hr htyped, fun _ => hlists r hr htyped⟩⟩

end GrantNode
end

/-- A score that is a float, and votes that are integers or floats: documents without votes pass,
and documents without a score do not. -/
theorem GrantNode.update_checks_hold_iff_score :
    let n : GrantNode :=
      { segment := { collection := "posts", wildcard := "id" }
        fieldRules := [{ field := "score", types := [.float] },
          { field := "votes", types := [.int, .float] }] }
    let given (members : List (String × ValueType)) : Document ValueType := ⟨members⟩
    (∀ r ∈ n.fieldRules, r.isNamed = true) ∧ Language.ofKinds.Standard ∧
      n.fieldChecks .update = ["getOr(request, 'score', 0) is float",
        "(getOr(request, 'votes', 0) is int || getOr(request, 'votes', 0) is float)"] ∧
      ∃ checks, (n.fieldChecks .update).mapM Check.read? = some checks ∧
        (∀ c ∈ checks, c.holds .ofKinds (given [("score", .float)]) = true) ∧
        (¬∀ c ∈ checks, c.holds .ofKinds (given [("score", .float), ("votes", .string)]) = true) ∧
        ¬∀ c ∈ checks, c.holds .ofKinds (given [("votes", .int)]) = true := by
  intro n given
  have hnamed : ∀ r ∈ n.fieldRules, r.isNamed = true := by decide
  have hstandard : Language.ofKinds.Standard := by
    refine ⟨rfl, rfl, rfl, fun t ht => ?_⟩
    revert ht
    cases t <;> decide
  obtain ⟨-, checks, hread, hiff, -⟩ := update_checks_hold_iff hnamed hstandard
  refine ⟨hnamed, hstandard, by decide, checks, hread, (hiff _).2 ?_, fun hd => ?_, fun hd => ?_⟩
  · simp [n, given, Document.fields, Document.value?, List.lookup_cons, FieldRule.isTyped,
      Language.ofKinds]
  · obtain ⟨hvotes, -⟩ := (hiff _).1 hd { field := "votes", types := [.int, .float] }
      (by simp [n]) rfl
    have hkind := hvotes .string rfl
    simp [Language.ofKinds] at hkind
  · obtain ⟨-, habsent⟩ := (hiff _).1 hd { field := "score", types := [.float] } (by simp [n]) rfl
    simp [given, Document.fields] at habsent

end AccessRules
