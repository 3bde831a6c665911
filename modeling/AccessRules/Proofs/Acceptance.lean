import AccessRules.Schema.Violation
import Mathlib.Tactic.Common

/-! What the demands of a schema mean. A value passes a demand if it breaks it nowhere, and for each
kind of demand that is a plain fact about the value and its parts. A reference in place is the only
demand that looks at the definitions, so that the meaning of all others does not depend on how
references are followed. -/
namespace AccessRules
namespace Schema
variable {definitions : List (String × Schema)} {follow : String → List Violation} {j : Json}

/-- The value has no violation of the schema. -/
def Accepts (definitions : List (String × Schema)) (j : Json) (s : Schema) : Prop :=
  violations definitions j s = []

/-- The value has no violation of the schema, if references in place are judged as given. -/
def Passes (definitions : List (String × Schema)) (follow : String → List Violation) (j : Json)
    (s : Schema) : Prop :=
  judge follow j (partsOf definitions j) s = []

theorem accepts_iff_passes {s : Schema} :
    Accepts definitions j s ↔ Passes definitions
      (Schema.follow definitions j (partsOf definitions j) definitions.length) j s := by
  rw [Accepts, violations_eq_judge, Passes]

section Demands

theorem passes_all {demands : List Schema} :
    Passes definitions follow j (.all demands) ↔
      ∀ d ∈ demands, Passes definitions follow j d := by
  show judgeAll follow j (partsOf definitions j) demands = [] ↔ _
  rw [judgeAll_eq_flatMap, List.flatMap_eq_nil_iff]
  rfl

theorem passes_singleton {d : Schema} :
    Passes definitions follow j (.all [d]) ↔ Passes definitions follow j d := by
  simp [passes_all]

theorem passes_type {types : List JsonType} :
    Passes definitions follow j (.type types) ↔ ∃ t ∈ types, t.holds j = true := by
  show (if types.any fun t => t.holds j then []
    else [Violation.here (.wrongType j types)]) = [] ↔ _
  split
  · next h => simpa using h
  · next h => simpa using h

theorem passes_enumeration {values : List Json} :
    Passes definitions follow j (.enumeration values) ↔ ∃ v ∈ values, v.same j = true := by
  show (if values.any fun v => v.same j then []
    else [Violation.here (.notListed j values)]) = [] ↔ _
  split
  · next h => simpa using h
  · next h => simpa using h

theorem passes_items {item : Schema} {xs : List Json} :
    Passes definitions follow (.array xs) (.items item) ↔
      ∀ x ∈ xs, Accepts definitions x item := by
  show ((itemParts definitions 0 xs).flatMap fun p =>
    (p.violations item).map (Violation.under p.step)) = [] ↔ _
  simp only [itemParts_eq_map, List.flatMap_eq_nil_iff, List.map_eq_nil_iff, List.mem_map,
    forall_exists_index, and_imp, forall_apply_eq_imp_iff₂]
  constructor
  · intro h x hx
    obtain ⟨i, hi, rfl⟩ := List.mem_iff_getElem.1 hx
    exact h (xs[i], i) (List.mk_mem_zipIdx_iff_getElem?.2 (by simp [hi]))
  · intro h p hp
    exact h p.1 (List.fst_mem_of_mem_zipIdx hp)

theorem passes_minItems {count : Nat} {xs : List Json} :
    Passes definitions follow (.array xs) (.minItems count) ↔ count ≤ xs.length := by
  show (if xs.length < count then [Violation.here (.tooFewItems (.array xs) count)]
    else []) = [] ↔ _
  split
  · next h => simpa using h
  · next h => simpa using h

theorem passes_properties {members : List (String × Schema)} {ms : List (String × Json)} :
    Passes definitions follow (.object ms) (.properties members) ↔
      ∀ m ∈ ms, ∀ s, members.lookup m.1 = some s → Accepts definitions m.2 s := by
  simp only [Passes, judge, partsOf, memberParts_eq_map, List.flatMap_eq_nil_iff, List.mem_map,
    forall_exists_index, and_imp, forall_apply_eq_imp_iff₂]
  apply forall₂_congr
  intro m _
  cases members.lookup m.1 with
  | none => simp
  | some s => simp [Accepts]

theorem passes_required {names : List String} {ms : List (String × Json)} :
    Passes definitions follow (.object ms) (.required names) ↔
      ∀ name ∈ names, name ∈ ms.map Prod.fst := by
  show (names.filter fun name => !ms.any fun m => m.1 == name).map
    (fun name => Violation.here (.missing name)) = [] ↔ _
  rw [List.map_eq_nil_iff, List.filter_eq_nil_iff]
  apply forall₂_congr
  intro name _
  simp

theorem passes_oneOf {alternatives : List Schema} :
    Passes definitions follow j (.oneOf alternatives) ↔
      alternatives.countP (fun s => (judge follow j (partsOf definitions j) s).isEmpty) = 1 := by
  simp only [Passes, judge, countValid_eq_countP]
  generalize alternatives.countP _ = count
  rcases count with _ | _ | count
  · simp
  · simp
  · simp

theorem exists_passes_of_oneOf {alternatives : List Schema}
    (h : Passes definitions follow j (.oneOf alternatives)) :
    ∃ s ∈ alternatives, Passes definitions follow j s := by
  have hpos := List.countP_pos_iff.1 (Nat.lt_of_lt_of_eq Nat.one_pos (passes_oneOf.1 h).symm)
  simpa [Passes] using hpos

theorem passes_reference {target : String} :
    Passes definitions follow j (.reference target) ↔ follow target = [] :=
  Iff.rfl

end Demands

section Shapes

theorem passes_ofType {t : JsonType} :
    Passes definitions follow j (ofType t) ↔ t.holds j = true := by
  simp [ofType, passes_all, passes_type]

theorem holds_string_iff : JsonType.string.holds j = true ↔ ∃ s, j = .string s := by
  cases j <;> simp [JsonType.holds]

theorem holds_boolean_iff : JsonType.boolean.holds j = true ↔ ∃ b, j = .bool b := by
  cases j <;> simp [JsonType.holds]

theorem holds_array_iff : JsonType.array.holds j = true ↔ ∃ xs, j = .array xs := by
  cases j <;> simp [JsonType.holds]

theorem holds_object_iff : JsonType.object.holds j = true ↔ ∃ ms, j = .object ms := by
  cases j <;> simp [JsonType.holds]

theorem passes_listOf {item : Schema} :
    Passes definitions follow j (listOf item) ↔
      ∃ xs, j = .array xs ∧ ∀ x ∈ xs, Accepts definitions x item := by
  simp only [listOf, passes_all, List.forall_mem_cons, List.mem_singleton, forall_eq, passes_type,
    exists_eq_left, holds_array_iff]
  constructor
  · rintro ⟨h, xs, rfl⟩
    exact ⟨xs, rfl, passes_items.1 h⟩
  · rintro ⟨xs, rfl, h⟩
    exact ⟨passes_items.2 h, xs, rfl⟩

theorem passes_nonemptyListOf {item : Schema} :
    Passes definitions follow j (nonemptyListOf item) ↔
      ∃ xs, j = .array xs ∧ xs ≠ [] ∧ ∀ x ∈ xs, Accepts definitions x item := by
  simp only [nonemptyListOf, passes_all, List.forall_mem_cons, List.mem_singleton, forall_eq,
    passes_type, exists_eq_left, holds_array_iff]
  constructor
  · rintro ⟨h, hmin, xs, rfl⟩
    have hlen := passes_minItems.1 hmin
    exact ⟨xs, rfl, List.ne_nil_of_length_pos hlen, passes_items.1 h⟩
  · rintro ⟨xs, rfl, hne, h⟩
    exact ⟨passes_items.2 h, passes_minItems.2 (List.length_pos_iff.2 hne), xs, rfl⟩

theorem passes_record {members : List (String × Schema)} {names : List String} :
    Passes definitions follow j (record members names) ↔
      ∃ ms, j = .object ms ∧
        (∀ m ∈ ms, ∀ s, members.lookup m.1 = some s → Accepts definitions m.2 s) ∧
        ∀ name ∈ names, name ∈ ms.map Prod.fst := by
  simp only [record, passes_all, List.forall_mem_cons, List.mem_singleton, forall_eq, passes_type,
    exists_eq_left, holds_object_iff]
  constructor
  · rintro ⟨hp, hr, ms, rfl⟩
    exact ⟨ms, rfl, passes_properties.1 hp, passes_required.1 hr⟩
  · rintro ⟨ms, rfl, hp, hr⟩
    exact ⟨passes_properties.2 hp, passes_required.2 hr, ms, rfl⟩

theorem passes_oneOfWords {tokens : List String} :
    Passes definitions follow j (oneOfWords tokens) ↔ ∃ w ∈ tokens, j = .string w := by
  simp only [oneOfWords, passes_all, List.mem_singleton, forall_eq, passes_enumeration,
    List.mem_map, exists_exists_and_eq_and]
  cases j <;> simp [Json.same]

theorem passes_see {target : String} :
    Passes definitions follow j (see target) ↔ follow target = [] := by
  simp [see, passes_all, passes_reference]

end Shapes

theorem accepts_see {target : String} {s : Schema} (h : definitions.lookup target = some s) :
    Accepts definitions j (see target) ↔ Passes definitions
      (Schema.follow definitions j (partsOf definitions j) (definitions.length - 1)) j s := by
  rw [accepts_iff_passes, passes_see]
  cases definitions with
  | nil => simp at h
  | cons d rest => rw [List.length_cons, Schema.follow, h, Nat.add_sub_cancel, Passes]

theorem accepts_ofType {t : JsonType} :
    Accepts definitions j (ofType t) ↔ t.holds j = true := by
  rw [accepts_iff_passes, passes_ofType]

theorem accepts_listOf {item : Schema} :
    Accepts definitions j (listOf item) ↔
      ∃ xs, j = .array xs ∧ ∀ x ∈ xs, Accepts definitions x item := by
  rw [accepts_iff_passes, passes_listOf]

end Schema
end AccessRules
