import AccessRules.Proofs.CheckReading
import AccessRules.Proofs.Emission

/-! What field checks mean for incoming documents. A check is evaluated on a document: a type test
that reads an absent field directly fails, and one with a default reads the default. The checks of a
created document hold exactly if the fields of required rules are present and the fields of typed
rules have one of their types; an exclusive node accepts no field that is not required, and is
indifferent to whether a required field without types is present. -/
namespace AccessRules
open Statement

/-- What is known of the values of documents: which one a literal stands for, and which have a
type. -/
structure Language (V : Type) where
  literal : String → V
  hasType : V → ValueType → Bool

/-- An incoming document: its fields with their values, where the first value of a field counts. -/
structure Document (V : Type) where
  members : List (String × V)

namespace Document
variable {V : Type}

def value? (d : Document V) (field : String) : Option V := d.members.lookup field

def fields (d : Document V) : List String := d.members.map Prod.fst

theorem mem_fields_iff {d : Document V} {field : String} :
    field ∈ d.fields ↔ ∃ v, d.value? field = some v := by
  rw [← Option.isSome_iff_exists, value?, List.lookup_isSome_iff, fields, List.mem_map]
  simp only [beq_iff_eq, @eq_comm _ field]

end Document

section
variable {V : Type}

def Access.value? (l : Language V) (d : Document V) : Access → Option V
  | .direct field => d.value? field
  | .defaulted field text => some ((d.value? field).getD (l.literal text))

def TypeTest.holds (l : Language V) (d : Document V) (test : TypeTest) : Bool :=
  (test.access.value? l d).any fun v => l.hasType v test.type

def Check.holds (l : Language V) (d : Document V) : Check → Bool
  | .anyOf tests => tests.any (TypeTest.holds l d)
  | .hasAll fields => fields.all fun f => f ∈ d.fields
  | .hasOnly fields => d.fields.all fun f => f ∈ fields

def FieldRule.Admits (l : Language V) (r : FieldRule) (v : V) : Prop :=
  ∃ t ∈ r.types, l.hasType v t = true

variable {l : Language V} {d : Document V} {r : FieldRule}

namespace FieldRule

theorem holds_check_of_eq_some {v : V} (hv : d.value? r.field = some v) (defaulted : Bool) :
    (r.check defaulted).holds l d = true ↔ r.Admits l v := by
  have htest (t : ValueType) :
      TypeTest.holds l d ⟨r.accessOf defaulted t, t⟩ = l.hasType v t := by
    cases defaulted <;> simp [TypeTest.holds, accessOf, Access.value?, hv]
  simp only [Check.holds, check, List.any_map, List.any_eq_true, Function.comp_apply, htest, Admits]

theorem not_holds_check_direct (hnone : d.value? r.field = none) :
    (r.check false).holds l d = false := by
  have htest (t : ValueType) : TypeTest.holds l d ⟨r.accessOf false t, t⟩ = false := by
    simp [TypeTest.holds, accessOf, Access.value?, hnone]
  simp [Check.holds, check, Function.comp_def, htest]

theorem holds_check_defaulted_of_eq_none (hnone : d.value? r.field = none) :
    (r.check true).holds l d = true ↔
      ∃ t ∈ r.types, l.hasType (l.literal t.placeholder) t = true := by
  have htest (t : ValueType) : TypeTest.holds l d ⟨r.accessOf true t, t⟩ =
      l.hasType (l.literal t.placeholder) t := by
    simp [TypeTest.holds, accessOf, Access.value?, hnone]
  simp only [Check.holds, check, List.any_map, List.any_eq_true, Function.comp_apply, htest]

/-- A required field has to be present, and a field that is present has to have one of the types. -/
theorem holds_createCheck_iff (htyped : r.isTyped = true)
    (hdefaults : r.required = false →
      ∀ t ∈ r.types, l.hasType (l.literal t.placeholder) t = true) :
    (r.check !r.required).holds l d = true ↔
      (r.required = true → r.field ∈ d.fields) ∧ ∀ v, d.value? r.field = some v → r.Admits l v := by
  rw [Document.mem_fields_iff]
  cases hv : d.value? r.field with
  | some v => simpa using holds_check_of_eq_some hv (!r.required)
  | none =>
    cases hr : r.required with
    | true => simp [not_holds_check_direct hv]
    | false =>
      have hne : r.types ≠ [] := by simpa [isTyped] using htyped
      obtain ⟨t, ht⟩ := List.exists_mem_of_ne_nil _ hne
      have hholds : (r.check true).holds l d = true :=
        (holds_check_defaulted_of_eq_none hv).2 ⟨t, ht, hdefaults hr t ht⟩
      simpa using hholds

end FieldRule

namespace Check

theorem holds_ofKeys_iff {fields : List String} {exclusive : Bool} :
    (ofKeys fields exclusive).holds l d = true ↔
      (exclusive = false → ∀ f ∈ fields, f ∈ d.fields) ∧
      (exclusive = true → ∀ f ∈ d.fields, f ∈ fields) := by
  cases exclusive <;> simp [ofKeys, holds]

end Check
end

theorem mem_requiredFields_iff {rules : List FieldRule} {field : String} :
    field ∈ requiredFields rules ↔ ∃ r ∈ rules, r.required = true ∧ r.field = field := by
  simp only [requiredFields, List.mem_map, List.mem_filter, and_assoc]

namespace GrantNode

/-- What the field rules of a node demand of a created document. -/
def createChecks (n : GrantNode) : List Check :=
  (n.fieldRules.filter FieldRule.isTyped).map (fun r => r.check !r.required) ++
    [.ofKeys (requiredFields n.fieldRules) n.exclusive]

variable {n : GrantNode}

theorem read?_fieldChecks_create (hrules : n.fieldRules ≠ [])
    (hnamed : ∀ r ∈ n.fieldRules, r.isNamed = true) :
    (n.fieldChecks .create).mapM Check.read? = some n.createChecks := by
  have htypes : (typeChecks n.fieldRules .create).mapM Check.read? =
      some ((n.fieldRules.filter FieldRule.isTyped).map fun r => r.check !r.required) := by
    apply mapM_map_eq_some
    intro r hr
    obtain ⟨hr, htyped⟩ := List.mem_filter.1 hr
    exact FieldRule.read?_typeCheck (hnamed r hr) htyped
  have hfields := isIdentifier_of_mem_requiredFields hnamed
  have hkeys : [presenceCheck (requiredFields n.fieldRules) n.exclusive].mapM Check.read? =
      some [.ofKeys (requiredFields n.fieldRules) n.exclusive] := by
    rw [List.mapM_cons, Check.read?_presenceCheck hfields]
    rfl
  rw [fieldChecks, if_pos ⟨rfl, hrules⟩, List.mapM_append, htypes, hkeys]
  rfl

theorem holds_createChecks_iff {V : Type} {l : Language V} {d : Document V}
    (hdefaults : ∀ r ∈ n.fieldRules, r.required = false →
      ∀ t ∈ r.types, l.hasType (l.literal t.placeholder) t = true) :
    (∀ c ∈ n.createChecks, c.holds l d = true) ↔
      (∀ r ∈ n.fieldRules, r.isTyped = true →
        (r.required = true → r.field ∈ d.fields) ∧
          ∀ v, d.value? r.field = some v → r.Admits l v) ∧
      (n.exclusive = false → ∀ r ∈ n.fieldRules, r.required = true → r.field ∈ d.fields) ∧
      (n.exclusive = true → ∀ f ∈ d.fields, ∃ r ∈ n.fieldRules, r.required = true ∧ r.field = f) := by
  have htyped : (∀ c ∈ (n.fieldRules.filter FieldRule.isTyped).map fun r => r.check !r.required,
      c.holds l d = true) ↔ ∀ r ∈ n.fieldRules, r.isTyped = true →
        (r.required = true → r.field ∈ d.fields) ∧
          ∀ v, d.value? r.field = some v → r.Admits l v := by
    rw [List.forall_mem_map]
    constructor
    · intro h r hr ht
      exact (FieldRule.holds_createCheck_iff ht (hdefaults r hr)).1
        (h r (List.mem_filter.2 ⟨hr, ht⟩))
    · intro h r hr
      obtain ⟨hr, ht⟩ := List.mem_filter.1 hr
      exact (FieldRule.holds_createCheck_iff ht (hdefaults r hr)).2 (h r hr ht)
  have hpresent : (∀ f ∈ requiredFields n.fieldRules, f ∈ d.fields) ↔
      ∀ r ∈ n.fieldRules, r.required = true → r.field ∈ d.fields := by
    simp only [requiredFields, List.forall_mem_map, List.mem_filter, and_imp]
  rw [createChecks, List.forall_mem_append, htyped, List.forall_mem_singleton,
    Check.holds_ofKeys_iff, hpresent]
  simp only [mem_requiredFields_iff]

/-- The field checks of a `create` statement hold of a document exactly if the field of every
required rule is present, where an exclusive node asks this of typed rules only, every field of a
typed rule that is present has one of the rule's types, and an exclusive node has only fields of
required rules. -/
theorem create_checks_hold_iff {V : Type} (l : Language V) {n : GrantNode}
    (hrules : n.fieldRules ≠ []) (hnamed : ∀ r ∈ n.fieldRules, r.isNamed = true)
    (hdefaults : ∀ r ∈ n.fieldRules, r.required = false →
      ∀ t ∈ r.types, l.hasType (l.literal t.placeholder) t = true) :
    (⟨.create, conjunction (([n.grantedCondition .create].filter fun c => c ≠ "") ++
      n.fieldChecks .create)⟩ : Statement) ∈ n.statements ∧
    ∃ checks, (n.fieldChecks .create).mapM Check.read? = some checks ∧
      ∀ d : Document V, (∀ c ∈ checks, c.holds l d = true) ↔
        (∀ r ∈ n.fieldRules, r.required = true → r.isTyped = true ∨ n.exclusive = false →
          r.field ∈ d.fields) ∧
        (∀ r ∈ n.fieldRules, r.isTyped = true →
          ∀ v, d.value? r.field = some v → ∃ t ∈ r.types, l.hasType v t = true) ∧
        (n.exclusive = true →
          ∀ f ∈ d.fields, ∃ r ∈ n.fieldRules, r.required = true ∧ r.field = f) := by
  refine ⟨?_, n.createChecks, read?_fieldChecks_create hrules hnamed, fun d => ?_⟩
  · have hne : n.fieldChecks .create ≠ [] := by simp [fieldChecks, hrules]
    have hmem : Method.create ∈ n.methodOrder := mem_methodOrder_iff.2 (.inr hne)
    rw [statements_eq_map]
    exact List.mem_map.2 ⟨.create, hmem, rfl⟩
  · rw [holds_createChecks_iff hdefaults]
    constructor
    · rintro ⟨htyped, hpresent, honly⟩
      refine ⟨fun r hr hreq hcase => ?_, fun r hr ht => (htyped r hr ht).2, honly⟩
      rcases hcase with ht | hexclusive
      · exact (htyped r hr ht).1 hreq
      · exact hpresent hexclusive r hr hreq
    · rintro ⟨hpresent, htyped, honly⟩
      exact ⟨fun r hr ht => ⟨fun hreq => hpresent r hr hreq (.inl ht), htyped r hr ht⟩,
        fun hexclusive r hr hreq => hpresent r hr hreq (.inr hexclusive), honly⟩

end GrantNode

/-- Values of which only the type is known. A placeholder has the type that it stands for, and that
of numbers is an integer. -/
def Language.ofKinds : Language ValueType where
  literal text :=
    (ValueType.all.find? fun t => t != .float && t.placeholder == text).getD .string
  hasType v t := v == t || (t == .number && (v == .int || v == .float))

/-- A required title, and votes that may be absent: other fields are accepted, and titles that are
absent or no strings are not. If the node is exclusive and an owner of any type is required too, the
title still has to be present and the owner need not be, and votes are refused. -/
theorem GrantNode.create_checks_hold_iff_title :
    let n : GrantNode :=
      { segment := { collection := "posts", wildcard := "id" }
        fieldRules := [{ field := "title", types := [.string], required := true },
          { field := "votes", types := [.int, .number] }] }
    let e : GrantNode :=
      { n with
        fieldRules := { field := "owner", required := true } :: n.fieldRules
        exclusive := true }
    let given (members : List (String × ValueType)) : Document ValueType := ⟨members⟩
    (n.fieldRules ≠ [] ∧ (∀ r ∈ n.fieldRules, r.isNamed = true) ∧
      (∀ r ∈ n.fieldRules, r.required = false → ∀ t ∈ r.types,
        Language.ofKinds.hasType (Language.ofKinds.literal t.placeholder) t = true) ∧
      ∃ checks, (n.fieldChecks .create).mapM Check.read? = some checks ∧
        (∀ c ∈ checks, c.holds .ofKinds (given [("title", .string), ("draft", .bool)]) = true) ∧
        (¬∀ c ∈ checks, c.holds .ofKinds (given []) = true) ∧
        ¬∀ c ∈ checks, c.holds .ofKinds (given [("title", .int)]) = true) ∧
    (e.fieldRules ≠ [] ∧ (∀ r ∈ e.fieldRules, r.isNamed = true) ∧
      (∀ r ∈ e.fieldRules, r.required = false → ∀ t ∈ r.types,
        Language.ofKinds.hasType (Language.ofKinds.literal t.placeholder) t = true) ∧
      ∃ checks, (e.fieldChecks .create).mapM Check.read? = some checks ∧
        (∀ c ∈ checks, c.holds .ofKinds (given [("title", .string), ("owner", .map)]) = true) ∧
        (∀ c ∈ checks, c.holds .ofKinds (given [("title", .string)]) = true) ∧
        (¬∀ c ∈ checks, c.holds .ofKinds (given [("owner", .map)]) = true) ∧
        ¬∀ c ∈ checks, c.holds .ofKinds (given [("title", .string), ("votes", .int)]) = true) := by
  intro n e given
  let title : FieldRule := { field := "title", types := [.string], required := true }
  constructor
  · have hrules : n.fieldRules ≠ [] := by simp [n]
    have hnamed : ∀ r ∈ n.fieldRules, r.isNamed = true := by decide
    have hdefaults : ∀ r ∈ n.fieldRules, r.required = false → ∀ t ∈ r.types,
        Language.ofKinds.hasType (Language.ofKinds.literal t.placeholder) t = true := by decide
    obtain ⟨-, checks, hread, hiff⟩ := create_checks_hold_iff .ofKinds hrules hnamed hdefaults
    refine ⟨hrules, hnamed, hdefaults, checks, hread, (hiff _).2 ?_, fun h => ?_, fun h => ?_⟩
    · simp [n, given, Document.fields, Document.value?, List.lookup_cons, FieldRule.isTyped,
        Language.ofKinds]
    · have htitle := ((hiff _).1 h).1 title (by simp [n, title]) rfl (.inl rfl)
      simp [given, title, Document.fields] at htitle
    · have htitle := ((hiff _).1 h).2.1 title (by simp [n, title]) rfl .int rfl
      simp [title, Language.ofKinds] at htitle
  · have hrules : e.fieldRules ≠ [] := by simp [e]
    have hnamed : ∀ r ∈ e.fieldRules, r.isNamed = true := by decide
    have hdefaults : ∀ r ∈ e.fieldRules, r.required = false → ∀ t ∈ r.types,
        Language.ofKinds.hasType (Language.ofKinds.literal t.placeholder) t = true := by decide
    obtain ⟨-, checks, hread, hiff⟩ := create_checks_hold_iff .ofKinds hrules hnamed hdefaults
    refine ⟨hrules, hnamed, hdefaults, checks, hread, (hiff _).2 ?_, (hiff _).2 ?_, fun h => ?_,
      fun h => ?_⟩
    · simp [e, n, given, Document.fields, Document.value?, List.lookup_cons, FieldRule.isTyped,
        Language.ofKinds]
    · simp [e, n, given, Document.fields, Document.value?, List.lookup_cons, FieldRule.isTyped,
        Language.ofKinds]
    · have htitle := ((hiff _).1 h).1 title (by simp [e, n, title]) rfl (.inl rfl)
      simp [given, title, Document.fields] at htitle
    · have hvotes := ((hiff _).1 h).2.2 rfl "votes" (by simp [given, Document.fields])
      simp [e, n] at hvotes

/-- The checks of an exclusive node accept a document without a required field, and refuse one with
a field that a rule declares and does not require. -/
theorem GrantNode.create_checks_exclusive :
    let n : GrantNode :=
      { segment := { collection := "posts", wildcard := "id" }
        fieldRules := [{ field := "a", required := true }, { field := "b" }]
        exclusive := true }
    ∃ checks, (n.fieldChecks .create).mapM Check.read? = some checks ∧
      ∀ d ∈ [(⟨[]⟩ : Document ValueType), ⟨[("a", .int), ("b", .int)]⟩],
        ¬((∀ c ∈ checks, c.holds .ofKinds d = true) ↔
          (∀ r ∈ n.fieldRules, r.required = true → r.field ∈ d.fields) ∧
          (∀ r ∈ n.fieldRules, r.isTyped = true →
            ∀ v, d.value? r.field = some v → ∃ t ∈ r.types, Language.ofKinds.hasType v t = true) ∧
          (n.exclusive = true → ∀ f ∈ d.fields, ∃ r ∈ n.fieldRules, r.field = f)) := by
  intro n
  have hread : (n.fieldChecks .create).mapM Check.read? = some [.hasOnly ["a"]] := by
    decide +kernel
  refine ⟨_, hread, fun d hd hiff => ?_⟩
  simp only [List.mem_cons, List.not_mem_nil, or_false] at hd
  rcases hd with rfl | rfl
  · have hrequired := (hiff.1 (by simp [Check.holds, Document.fields])).1
      { field := "a", required := true } (by simp [n]) rfl
    simp [Document.fields] at hrequired
  · have honly := hiff.2 (by simp [n, Document.fields, FieldRule.isTyped])
      (.hasOnly ["a"]) (by simp)
    simp [Check.holds, Document.fields] at honly

end AccessRules
