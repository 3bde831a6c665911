import AccessRules.Policy.Load
import AccessRules.Proofs.Decoding
import AccessRules.Proofs.Places
import AccessRules.Proofs.ReadDocuments

/-! Where type names stand in policy documents. The decoder takes the fields of a record by their
names from an object, or by their positions from an array, and refuses an unknown type name in either
place. The check that tells unknown types apart from other faults looks for names only. So an unknown
type is reported as such exactly if one stands in a place that is reached by names all the way. The
names of an object are taken to be distinct, as they are in every document that is read. -/
namespace AccessRules

namespace Decoded
variable {α β : Type} {name : String}

def Rejects (name : String) (d : Decoded α) : Prop := d = .error (.unsupportedType name)

theorem rejects_bind_pure {d : Decoded α} {f : α → β} :
    Rejects name (d >>= fun a => pure (f a)) ↔ Rejects name d := by
  cases d with
  | error e => simp [Rejects, bind, Except.bind]
  | ok a => simp [Rejects, bind, Except.bind, pure, Except.pure]

theorem not_rejects_string (j : Json) : ¬Rejects name (string j) := by
  cases j <;> simp [Rejects, string]

theorem not_rejects_bool (j : Json) : ¬Rejects name (bool j) := by
  cases j <;> simp [Rejects, bool]

theorem not_rejects_word {ofToken? : String → Option α} {known : List String} (j : Json) :
    ¬Rejects name (word ofToken? known j) := by
  have hfind (s : String) : ¬Rejects name (word.find ofToken? known s) := by
    unfold word.find
    split <;> simp [Rejects]
  unfold word
  split
  · exact hfind _
  · next s x =>
    intro h
    cases hs : word.find ofToken? known s with
    | error e =>
      rw [hs] at h
      exact hfind s (hs.trans h)
    | ok a =>
      rw [hs] at h
      cases x <;> simp [Rejects, bind, Except.bind, pure, Except.pure] at h
  · simp [Rejects]
  · simp [Rejects]

theorem not_rejects_unlessNull {f : Json → Decoded α} (h : ∀ x, ¬Rejects name (f x)) (j : Json) :
    ¬Rejects name (unlessNull f j) := by
  cases j with
  | null => simp [Rejects, unlessNull]
  | _ => exact fun hj => h _ (rejects_bind_pure.1 hj)

theorem exists_of_mapM_eq_error {f : Json → Decoded α} {xs : List Json} {e : DecodeError}
    (h : xs.mapM f = .error e) : ∃ (i : Nat) (x : Json), xs[i]? = some x ∧ f x = .error e := by
  induction xs with
  | nil => simp [pure, Except.pure] at h
  | cons x xs ih =>
    rw [List.mapM_cons] at h
    cases hx : f x with
    | error e' =>
      rw [hx] at h
      obtain rfl : e' = e := Except.error.inj h
      exact ⟨0, x, rfl, hx⟩
    | ok a =>
      cases hxs : xs.mapM f with
      | error e' =>
        rw [hx, hxs] at h
        obtain ⟨i, y, hi, hy⟩ := ih (hxs.trans h)
        exact ⟨i + 1, y, by simpa using hi, hy⟩
      | ok as =>
        rw [hx, hxs] at h
        cases h

theorem exists_of_rejects_list {f : Json → Decoded α} {j : Json} (h : Rejects name (list f j)) :
    ∃ i x, j.step? (.item i) = some x ∧ Rejects name (f x) := by
  cases j with
  | array xs => exact exists_of_mapM_eq_error h
  | _ => simp [list, Rejects] at h

theorem not_rejects_list {f : Json → Decoded α} (h : ∀ x, ¬Rejects name (f x)) (j : Json) :
    ¬Rejects name (list f j) := by
  intro hj
  obtain ⟨-, x, -, hx⟩ := exists_of_rejects_list hj
  exact h x hx

end Decoded
open Decoded

namespace RecordSpec
variable {α : Type} {r : RecordSpec} {blank : α} {put : α → String → Json → Decoded α}
  {name : String} {j : Json}

/-- The steps that lead to a field of a record: its name or its position. -/
def Leads (r : RecordSpec) (field : String) (s : Step) : Prop :=
  s = .member field ∨ ∃ k, r.names[k]? = some field ∧ s = .item k

theorem exists_of_foldlM_eq_error {β : Type} {step : α → β → Decoded α} {parts : List β} {a : α}
    {e : DecodeError} (h : parts.foldlM step a = .error e) :
    ∃ p ∈ parts, ∃ b, step b p = .error e := by
  induction parts generalizing a with
  | nil => simp [pure, Except.pure] at h
  | cons p parts ih =>
    rw [List.foldlM_cons] at h
    cases hp : step a p with
    | error e' =>
      rw [hp] at h
      exact ⟨p, by simp, a, hp.trans h⟩
    | ok b =>
      rw [hp] at h
      obtain ⟨q, hq, c, hc⟩ := ih h
      exact ⟨q, by simp [hq], c, hc⟩

theorem rejects_bind_report {d : Decoded α} {defect : Option DecodeError}
    (hdefect : defect ≠ some (.unsupportedType name))
    (h : Rejects name (d >>= report defect)) : Rejects name d := by
  cases d with
  | error e => exact h
  | ok a =>
    cases defect with
    | none => cases h
    | some e => exact absurd (congrArg some (Except.error.inj h)) hdefect

/-- A record is refused because of one of its fields, and not because of what is missing or in
excess. -/
theorem exists_part_of_rejects_fold (h : Rejects name (r.fold blank put j)) :
    ∃ field x a, Rejects name (put a field x) ∧
      ((∃ ms, j = .object ms ∧ (field, x) ∈ ms) ∨
        ∃ (xs : List Json) (k : Nat), j = .array xs ∧ r.names[k]? = some field ∧
          xs[k]? = some x) := by
  cases j with
  | object ms =>
    rw [fold, foldWith_object] at h
    have hmissing : r.missing? ms ≠ some (.unsupportedType name) := by
      simp [missing?]
    obtain ⟨m, hm, a, ha⟩ := exists_of_foldlM_eq_error (rejects_bind_report hmissing h)
    exact ⟨m.1, m.2, a, ha, .inl ⟨ms, rfl, (List.mem_filter.1 hm).1⟩⟩
  | array xs =>
    rw [fold, foldWith_array] at h
    have hmisfit : r.misfit? xs.length ≠ some (.unsupportedType name) := by
      unfold misfit?
      split <;> simp
    obtain ⟨⟨field, x⟩, hm, a, ha⟩ := exists_of_foldlM_eq_error (rejects_bind_report hmisfit h)
    obtain ⟨k, hk⟩ := List.mem_iff_getElem?.1 hm
    rw [List.getElem?_zip_eq_some] at hk
    exact ⟨field, x, a, ha, .inr ⟨xs, k, rfl, hk⟩⟩
  | _ => simp [fold, foldWith, Rejects] at h

theorem not_rejects_fold (h : ∀ a field x, ¬Rejects name (put a field x)) (j : Json) :
    ¬Rejects name (r.fold blank put j) := by
  intro hj
  obtain ⟨field, x, a, hx, -⟩ := exists_part_of_rejects_fold hj
  exact h a field x hx

theorem exists_step_of_rejects_fold (hj : j.hasDistinctNames = true)
    (h : Rejects name (r.fold blank put j)) :
    ∃ field s x a, r.Leads field s ∧ j.step? s = some x ∧ Rejects name (put a field x) := by
  obtain ⟨field, x, a, hx, ⟨ms, rfl, hm⟩ | ⟨xs, k, rfl, hfield, hk⟩⟩ := exists_part_of_rejects_fold h
  · have hstep := Json.lookup_of_mem (Json.hasDistinctNames_object_iff.1 hj).1 hm
    exact ⟨field, .member field, x, a, .inl rfl, hstep, hx⟩
  · exact ⟨field, .item k, x, a, .inr ⟨k, hfield, rfl⟩, hk, hx⟩

end RecordSpec
open RecordSpec

section Refusals
variable {name field : String} {x : Json}

theorem ValueType.eq_of_rejects {j : Json} (h : Rejects name (ValueType.decode j)) :
    j = .string name ∧ ValueType.ofToken? name = none := by
  cases j with
  | string s =>
    cases hs : ValueType.ofToken? s with
    | none =>
      simp only [Rejects, ValueType.decode, Decoded.string, bind, Except.bind, hs,
        Except.error.injEq, DecodeError.unsupportedType.injEq] at h
      exact ⟨by rw [h], h ▸ hs⟩
    | some t =>
      simp [Rejects, ValueType.decode, Decoded.string, bind, Except.bind, hs, pure, Except.pure] at h
  | _ => simp [Rejects, ValueType.decode, Decoded.string, bind, Except.bind] at h

theorem FieldRule.eq_of_rejects_put {r : FieldRule} (h : Rejects name (FieldRule.put r field x)) :
    field = "type" ∧ Rejects name (Decoded.list ValueType.decode x) := by
  unfold FieldRule.put at h
  split at h
  · exact absurd (rejects_bind_pure.1 h) (not_rejects_string x)
  · exact ⟨rfl, rejects_bind_pure.1 h⟩
  · exact absurd (rejects_bind_pure.1 h) (not_rejects_bool x)
  · simp [Rejects] at h

theorem Clause.not_rejects_decode (j : Json) : ¬Rejects name (Clause.decode j) := by
  have hwithin (d : Decoded Clause) : ¬Rejects name (Decoded.within .inCondition d) := by
    cases d <;> simp [Rejects, Decoded.within]
  unfold Clause.decode
  split
  · simp [Rejects]
  · exact hwithin _

theorem ClaimValue.not_rejects_decode (j : Json) : ¬Rejects name (ClaimValue.decode j) := by
  cases j <;> simp [Rejects, ClaimValue.decode]

theorem Claim.not_rejects_decode (j : Json) : ¬Rejects name (Claim.decode j) := by
  apply not_rejects_fold
  intro c field x h
  unfold Claim.put at h
  split at h
  · exact not_rejects_string x (rejects_bind_pure.1 h)
  · exact not_rejects_unlessNull ClaimValue.not_rejects_decode x (rejects_bind_pure.1 h)
  · simp [Rejects] at h

theorem AllowRule.not_rejects_decode (j : Json) : ¬Rejects name (AllowRule.decode j) := by
  apply not_rejects_fold
  intro r field x h
  unfold AllowRule.put at h
  split at h
  · exact not_rejects_list not_rejects_word x (rejects_bind_pure.1 h)
  · exact not_rejects_list Clause.not_rejects_decode x (rejects_bind_pure.1 h)
  · exact not_rejects_bool x (rejects_bind_pure.1 h)
  · exact not_rejects_list Claim.not_rejects_decode x (rejects_bind_pure.1 h)
  · simp [Rejects] at h

theorem Segment.not_rejects_put (s : Segment) : ¬Rejects name (s.put field x) := by
  intro h
  unfold Segment.put at h
  split at h
  · exact not_rejects_string x (rejects_bind_pure.1 h)
  · exact not_rejects_string x (rejects_bind_pure.1 h)
  · exact not_rejects_bool x (rejects_bind_pure.1 h)
  · simp [Rejects] at h

theorem Node.eq_of_rejects_put {n : Node} (h : Rejects name (n.put field x)) :
    field = "structureRules" ∧ Rejects name (Decoded.list FieldRule.decode x) := by
  unfold Node.put at h
  split at h
  · exact absurd (rejects_bind_pure.1 h) (not_rejects_list AllowRule.not_rejects_decode x)
  · exact ⟨rfl, rejects_bind_pure.1 h⟩
  · exact absurd (rejects_bind_pure.1 h) (not_rejects_bool x)
  · exact absurd (rejects_bind_pure.1 h) n.segment.not_rejects_put

theorem Policy.eq_of_rejects_put {p : Policy} (h : Rejects name (p.put field x)) :
    field = "matches" ∧ Rejects name (Decoded.list Node.decode x) := by
  unfold Policy.put at h
  split at h
  · exact absurd (rejects_bind_pure.1 h) (not_rejects_string x)
  · exact ⟨rfl, rejects_bind_pure.1 h⟩
  · exact absurd (rejects_bind_pure.1 h) (not_rejects_list not_rejects_string x)
  · simp [Rejects] at h

theorem Node.cases_of_rejects_putMember {p : Node × List (Tree Node)}
    (h : Rejects name (Tree.putMember Node.decode Node.put p field x)) :
    (field = "children" ∧ Rejects name (Decoded.list Node.decode x)) ∨
      field = "structureRules" ∧ Rejects name (Decoded.list FieldRule.decode x) := by
  unfold Tree.putMember at h
  split at h
  · next hfield => exact .inl ⟨hfield, rejects_bind_pure.1 h⟩
  · exact .inr (Node.eq_of_rejects_put (rejects_bind_pure.1 h))

end Refusals

/-- The steps from a node to the type names in its field rules and in those of the nodes below it,
given which steps lead to the fields of a record. -/
inductive Node.TypePlace (leads : RecordSpec → String → Step → Prop) : List Step → Prop
  | own {s t : Step} (rule index : Nat) (hs : leads Node.spec "structureRules" s)
      (ht : leads FieldRule.spec "type" t) : TypePlace leads [s, .item rule, t, .item index]
  | inChild {s : Step} {steps : List Step} (child : Nat) (hs : leads Node.spec "children" s)
      (hsteps : TypePlace leads steps) : TypePlace leads (s :: .item child :: steps)

/-- The steps from a policy document to the type names in it. -/
def Policy.TypePlace (leads : RecordSpec → String → Step → Prop) (steps : List Step) : Prop :=
  ∃ s tree rest, leads Policy.spec "matches" s ∧ Node.TypePlace leads rest ∧
    steps = s :: .item tree :: rest

def RecordSpec.LeadsByName (_ : RecordSpec) (field : String) (s : Step) : Prop := s = .member field

section Decoder
variable {name : String}

theorem FieldRule.exists_place {j : Json} (hj : j.hasDistinctNames = true)
    (h : Rejects name (FieldRule.decode j)) :
    ∃ t index, FieldRule.spec.Leads "type" t ∧ j.at? [t, .item index] = some (.string name) ∧
      ValueType.ofToken? name = none := by
  obtain ⟨field, t, x, r, ht, hx, hput⟩ := exists_step_of_rejects_fold hj h
  obtain ⟨rfl, hlist⟩ := FieldRule.eq_of_rejects_put hput
  obtain ⟨index, y, hy, hrejects⟩ := exists_of_rejects_list hlist
  obtain ⟨rfl, hname⟩ := ValueType.eq_of_rejects hrejects
  exact ⟨t, index, ht, by simp [hx, hy], hname⟩

/-- A node is refused because of a type name in one of the places where the decoder looks. -/
theorem Node.exists_place (j : Json) (hj : j.hasDistinctNames = true)
    (h : Rejects name (Node.decode j)) :
    ∃ steps, Node.TypePlace RecordSpec.Leads steps ∧ j.at? steps = some (.string name) ∧
      ValueType.ofToken? name = none := by
  rw [Node.decode, Tree.decode_eq_fold, rejects_bind_pure, ← Node.decode] at h
  obtain ⟨field, s, x, p, hs, hx, hput⟩ := exists_step_of_rejects_fold hj h
  have hdistinct : x.hasDistinctNames = true := Json.hasDistinctNames_of_step? hj hx
  rcases Node.cases_of_rejects_putMember hput with ⟨rfl, hlist⟩ | ⟨rfl, hlist⟩
  · obtain ⟨child, y, hy, hrejects⟩ := exists_of_rejects_list hlist
    have hsize : sizeOf y < sizeOf j :=
      Nat.lt_trans (Json.sizeOf_lt_of_step? hy) (Json.sizeOf_lt_of_step? hx)
    obtain ⟨steps, hplace, hat, hname⟩ :=
      Node.exists_place y (Json.hasDistinctNames_of_step? hdistinct hy) hrejects
    exact ⟨_, .inChild child hs hplace, by simp [hx, hy, hat], hname⟩
  · obtain ⟨rule, y, hy, hrejects⟩ := exists_of_rejects_list hlist
    obtain ⟨t, index, ht, hat, hname⟩ :=
      FieldRule.exists_place (Json.hasDistinctNames_of_step? hdistinct hy) hrejects
    exact ⟨_, .own rule index hs ht, by simpa [hx, hy] using hat, hname⟩
termination_by sizeOf j

theorem Policy.exists_place {j : Json} (hj : j.hasDistinctNames = true)
    (h : Rejects name (Policy.decode j)) :
    ∃ steps, Policy.TypePlace RecordSpec.Leads steps ∧ j.at? steps = some (.string name) ∧
      ValueType.ofToken? name = none := by
  obtain ⟨field, s, x, p, hs, hx, hput⟩ := exists_step_of_rejects_fold hj h
  obtain ⟨rfl, hlist⟩ := Policy.eq_of_rejects_put hput
  obtain ⟨tree, y, hy, hrejects⟩ := exists_of_rejects_list hlist
  have hdistinct : x.hasDistinctNames = true := Json.hasDistinctNames_of_step? hj hx
  obtain ⟨steps, hplace, hat, hname⟩ :=
    Node.exists_place y (Json.hasDistinctNames_of_step? hdistinct hy) hrejects
  exact ⟨_, ⟨s, tree, steps, hs, hplace, rfl⟩, by simp [hx, hy, hat], hname⟩

end Decoder
section Scan

theorem mem_itemsAt_iff {field : String} {j x : Json} :
    x ∈ j.itemsAt field ↔ ∃ i, j.at? [.member field, .item i] = some x := by
  have hnil : Json.at? [] = some := by
    funext y
    exact Json.at?_nil y
  cases hfield : j.get? field with
  | none => simp [Json.itemsAt, Json.step?, hfield]
  | some y =>
    cases y with
    | array xs =>
      simp [Json.itemsAt, Json.step?, Json.items?, hfield, hnil, List.mem_iff_getElem?]
    | _ => simp [Json.itemsAt, Json.step?, Json.items?, hfield]

theorem at?_items {s : Step} {i : Nat} {rest : List Step} {j x : Json} :
    j.at? (s :: .item i :: rest) = some x ↔
      ∃ y, j.at? [s, .item i] = some y ∧ y.at? rest = some x := by
  have hsteps : s :: .item i :: rest = [s, .item i] ++ rest := rfl
  rw [hsteps, Json.at?_append, Option.bind_eq_some_iff]

theorem Node.mem_ownTypeNames_iff {j : Json} {name : String} :
    name ∈ Node.ownTypeNames j ↔ ∃ rule index,
      j.at? [.member "structureRules", .item rule, .member "type", .item index] =
        some (.string name) := by
  have hstring (x : Json) : x.string? = some name ↔ x = .string name := by
    cases x <;> simp [Json.string?]
  simp only [Node.ownTypeNames, List.mem_flatMap, List.mem_filterMap, mem_itemsAt_iff, hstring]
  constructor
  · rintro ⟨rule, ⟨i, hrule⟩, x, ⟨k, hx⟩, rfl⟩
    exact ⟨i, k, at?_items.2 ⟨rule, hrule, hx⟩⟩
  · rintro ⟨i, k, h⟩
    obtain ⟨rule, hrule, hx⟩ := at?_items.1 h
    exact ⟨rule, ⟨i, hrule⟩, .string name, ⟨k, hx⟩, rfl⟩

theorem Node.mem_typeNames_iff (j : Json) {name : String} :
    name ∈ Node.typeNames j ↔ ∃ steps, Node.TypePlace RecordSpec.LeadsByName steps ∧
      j.at? steps = some (.string name) := by
  rw [Node.typeNames, List.mem_append, Node.mem_ownTypeNames_iff]
  constructor
  · rintro (⟨rule, index, h⟩ | h)
    · exact ⟨_, .own rule index rfl rfl, h⟩
    · obtain ⟨⟨child, hchild⟩, -, hname⟩ := List.mem_flatMap.1 h
      have hsize := Json.sizeOf_lt_of_mem_itemsAt hchild
      obtain ⟨i, hi⟩ := mem_itemsAt_iff.1 hchild
      obtain ⟨steps, hplace, hat⟩ := (Node.mem_typeNames_iff child).1 hname
      exact ⟨_, .inChild i rfl hplace, at?_items.2 ⟨child, hi, hat⟩⟩
  · rintro ⟨steps, hplace, h⟩
    cases hplace with
    | own rule index hs ht =>
      obtain rfl : _ = Step.member "structureRules" := hs
      obtain rfl : _ = Step.member "type" := ht
      exact .inl ⟨rule, index, h⟩
    | inChild i hs hplace =>
      obtain rfl : _ = Step.member "children" := hs
      obtain ⟨child, hi, hat⟩ := at?_items.1 h
      have hchild : child ∈ j.itemsAt "children" := mem_itemsAt_iff.2 ⟨i, hi⟩
      have hsize := Json.sizeOf_lt_of_mem_itemsAt hchild
      have hname := (Node.mem_typeNames_iff child).2 ⟨_, hplace, hat⟩
      exact .inr (List.mem_flatMap.2 ⟨⟨child, hchild⟩, List.mem_attach _ _, hname⟩)
termination_by sizeOf j

theorem Policy.exists_unknownType?_iff {document : Json} :
    (∃ name, Policy.unknownType? document = some name) ↔ ∃ steps name,
      Policy.TypePlace RecordSpec.LeadsByName steps ∧ document.at? steps = some (.string name) ∧
        ValueType.ofToken? name = none := by
  rw [Policy.unknownType?, ← Option.isSome_iff_exists, List.find?_isSome]
  simp only [List.mem_flatMap, mem_itemsAt_iff, Node.mem_typeNames_iff, Option.isNone_iff_eq_none]
  constructor
  · rintro ⟨name, ⟨node, ⟨tree, hnode⟩, steps, hplace, hat⟩, hname⟩
    exact ⟨_, name, ⟨_, tree, steps, rfl, hplace, rfl⟩, at?_items.2 ⟨node, hnode, hat⟩, hname⟩
  · rintro ⟨_, name, ⟨s, tree, steps, hs, hplace, rfl⟩, hat, hname⟩
    obtain rfl : s = Step.member "matches" := hs
    obtain ⟨node, hnode, hat⟩ := at?_items.1 hat
    exact ⟨name, ⟨node, ⟨tree, hnode⟩, steps, hplace, hat⟩, hname⟩

end Scan

namespace Policy
variable {document : Json} {name : String}

theorem ofJson_eq_unsupportedType_iff :
    ofJson document = .error (.unsupportedType name) ↔ unknownType? document = some name := by
  cases hunknown : unknownType? document with
  | some other => simp [ofJson, hunknown]
  | none =>
    simp only [ofJson, hunknown, reduceCtorEq, iff_false]
    cases Policy.decode document with
    | error e => simp
    | ok p => cases hidle : p.idleNode? <;> simp [hidle]

theorem ofJson_of_unknownType?_eq_none {e : DecodeError} (hunknown : unknownType? document = none)
    (h : Policy.decode document = .error e) : ofJson document = .error (.undecodable e) := by
  simp [ofJson, hunknown, h]

/-- What the decoder refuses in a document that was read stands in the document, in either format. -/
theorem exists_place_of_read {f : Format} {text : String} (hread : f.read? text = some document)
    (h : Policy.decode document = .error (.unsupportedType name)) :
    ∃ steps, TypePlace RecordSpec.Leads steps ∧ document.at? steps = some (.string name) ∧
      ValueType.ofToken? name = none :=
  exists_place (Format.hasDistinctNames_of_read? hread) h

/-- A document that the decoder refuses for an unknown type has that type in a place where the decoder
looks. It is reported as an unknown type exactly if some unknown type stands in a place that is
reached by names all the way, and otherwise as a fault that the decoder found. -/
theorem unsupportedType_iff_named (hd : document.hasDistinctNames = true)
    (h : Policy.decode document = .error (.unsupportedType name)) :
    (∃ steps, TypePlace RecordSpec.Leads steps ∧ document.at? steps = some (.string name) ∧
      ValueType.ofToken? name = none) ∧
    ((∃ other, ofJson document = .error (.unsupportedType other)) ↔ ∃ steps other,
      TypePlace RecordSpec.LeadsByName steps ∧ document.at? steps = some (.string other) ∧
        ValueType.ofToken? other = none) ∧
    ((¬∃ other, ofJson document = .error (.unsupportedType other)) →
      ofJson document = .error (.undecodable (.unsupportedType name))) := by
  simp only [ofJson_eq_unsupportedType_iff]
  refine ⟨exists_place hd h, exists_unknownType?_iff, fun hnone => ?_⟩
  exact ofJson_of_unknownType?_eq_none (Option.eq_none_iff_forall_ne_some.2
    fun other hother => hnone ⟨other, hother⟩) h

/-- A field rule in a node that lists its fields by position has its unknown type refused by the
decoder, and the same rule in an object is reported as an unknown type. -/
theorem unsupportedType_iff_named_position :
    let rule : Json := .object [("field", .string "f"), ("type", .array [.string "decimal"])]
    let listed : Json := .array [.string "a", .string "id", .bool false, .array [], .array [rule]]
    let named : Json := .object [("collectionPath", .string "a"),
      ("structureRules", .array [rule]), ("wildcardName", .string "id")]
    let document (node : Json) : Json :=
      .object [("matches", .array [node]), ("topLevelMatchPath", .string "/x")]
    ((document listed).hasDistinctNames = true ∧
      Policy.decode (document listed) = .error (.unsupportedType "decimal") ∧
      ofJson (document listed) = .error (.undecodable (.unsupportedType "decimal"))) ∧
    (document named).hasDistinctNames = true ∧
      Policy.decode (document named) = .error (.unsupportedType "decimal") ∧
      ∃ other, ofJson (document named) = .error (.unsupportedType other) := by
  intro rule listed named document
  have hdecode (node : Json) (h : Node.decode node = .error (.unsupportedType "decimal")) :
      Policy.decode (document node) = .error (.unsupportedType "decimal") := by
    rw [Policy.decode, RecordSpec.fold, RecordSpec.foldWith_object]
    simp [Policy.spec, RecordSpec.names, Policy.put, Decoded.list, h, bind, Except.bind]
  have hlisted : Policy.decode (document listed) = .error (.unsupportedType "decimal") :=
    hdecode listed (by rw [Node.decode, Tree.decode_eq_fold]; rfl)
  have hnamed : Policy.decode (document named) = .error (.unsupportedType "decimal") :=
    hdecode named (by rw [Node.decode, Tree.decode_eq_fold]; rfl)
  have hdistinct : (document listed).hasDistinctNames = true := by decide
  have hdistinct' : (document named).hasDistinctNames = true := by decide
  refine ⟨⟨hdistinct, hlisted, ?_⟩, hdistinct', hnamed, ?_⟩
  · apply (unsupportedType_iff_named hdistinct hlisted).2.2
    rintro ⟨other, hother⟩
    have hnames : Node.typeNames listed = [] := by
      rw [Node.typeNames]
      rfl
    rw [ofJson_eq_unsupportedType_iff] at hother
    simp [unknownType?, document, Json.itemsAt, Json.get?, Json.items?, hnames] at hother
  · apply (unsupportedType_iff_named hdistinct' hnamed).2.1.2
    exact ⟨[.member "matches", .item 0, .member "structureRules", .item 0, .member "type", .item 0],
      "decimal", ⟨_, 0, _, rfl, .own 0 0 rfl rfl, rfl⟩, rfl, by decide⟩

end Policy
end AccessRules
