import AccessRules.Policy.Decode
import Mathlib.Data.List.Basic

/-! How decoders succeed. A list is decoded if its items are, and a record if each member that it
knows is put in and no required one is missing; what every item or member keeps holds of the whole.
Decoders that call themselves are equal to the plain ones that call no smaller part by name. -/
namespace AccessRules

namespace Decoded
variable {α β : Type}

def Succeeds (d : Decoded α) : Prop := ∃ a, d = .ok a

theorem succeeds_ok (a : α) : Succeeds (.ok a) := ⟨a, rfl⟩

theorem Succeeds.bind_pure {d : Decoded α} (h : d.Succeeds) (f : α → β) :
    Succeeds (d >>= fun a => pure (f a)) := by
  obtain ⟨a, rfl⟩ := h
  exact ⟨f a, rfl⟩

/-- What holds of a record after a field is put in holds whatever the field's value is. -/
theorem Succeeds.bind_pure_ok {d : Decoded α} (h : d.Succeeds) {f : α → β} {Q : β → Prop}
    (hQ : ∀ a, Q (f a)) : ∃ b, (d >>= fun a => pure (f a)) = .ok b ∧ Q b := by
  obtain ⟨a, rfl⟩ := h
  exact ⟨f a, rfl, hQ a⟩

theorem list_ok {f : Json → Decoded α} {P : α → Prop} {xs : List Json}
    (h : ∀ x ∈ xs, ∃ a, f x = .ok a ∧ P a) :
    ∃ as, list f (.array xs) = .ok as ∧ as.length = xs.length ∧ ∀ a ∈ as, P a := by
  simp only [list]
  induction xs with
  | nil => exact ⟨[], rfl, rfl, by simp⟩
  | cons x xs ih =>
    obtain ⟨a, ha, hP⟩ := h x (by simp)
    obtain ⟨as, has, hlen, hall⟩ := ih fun y hy => h y (by simp [hy])
    refine ⟨a :: as, ?_, by simp [hlen], by simpa using ⟨hP, hall⟩⟩
    rw [List.mapM_cons, ha, has]
    rfl

theorem list_succeeds {f : Json → Decoded α} {xs : List Json} (h : ∀ x ∈ xs, (f x).Succeeds) :
    (list f (.array xs)).Succeeds := by
  have hitem : ∀ x ∈ xs, ∃ a, f x = .ok a ∧ True := by
    intro x hx
    obtain ⟨a, ha⟩ := h x hx
    exact ⟨a, ha, trivial⟩
  obtain ⟨as, has, -⟩ := list_ok hitem
  exact ⟨as, has⟩

theorem within_succeeds {d : Decoded α} (h : d.Succeeds) (context : DecodeError → DecodeError) :
    (within context d).Succeeds := by
  obtain ⟨a, rfl⟩ := h
  exact ⟨a, rfl⟩

end Decoded

namespace RecordSpec
variable {α : Type}

def requiredNames (r : RecordSpec) : List String :=
  (r.fields.filter FieldSpec.isRequired).map FieldSpec.name

theorem mem_names_of_mem_requiredNames {r : RecordSpec} {name : String}
    (h : name ∈ r.requiredNames) : name ∈ r.names := by
  obtain ⟨f, hf, rfl⟩ := List.mem_map.1 h
  exact List.mem_map.2 ⟨f, (List.mem_filter.1 hf).1, rfl⟩

theorem missing?_eq_none {r : RecordSpec} {ms : List (String × Json)}
    (h : ∀ name ∈ r.requiredNames, name ∈ ms.map Prod.fst) : r.missing? ms = none := by
  rw [missing?, Option.map_eq_none_iff, List.find?_eq_none]
  intro f hf
  by_cases hr : f.isRequired = true
  · have hmem := h f.name (List.mem_map.2 ⟨f, List.mem_filter.2 ⟨hf, hr⟩, rfl⟩)
    simpa [hr] using hmem
  · simp [hr]

/-- Putting in known members one after the other succeeds if each step does. The invariant speaks
of the names put in so far. -/
theorem foldlM_put_ok {put : α → String → Json → Decoded α} {P : List String → α → Prop}
    {ms : List (String × Json)}
    (hput : ∀ m ∈ ms, ∀ seen a, P seen a → ∃ b, put a m.1 m.2 = .ok b ∧ P (m.1 :: seen) b)
    {seen : List String} {a : α} (ha : P seen a) :
    ∃ b, ms.foldlM (fun a m => put a m.1 m.2) a = .ok b ∧
      P ((ms.map Prod.fst).reverse ++ seen) b := by
  induction ms generalizing seen a with
  | nil => exact ⟨a, rfl, ha⟩
  | cons m ms ih =>
    obtain ⟨b, hb, hP⟩ := hput m (by simp) seen a ha
    obtain ⟨c, hc, hQ⟩ := ih (fun k hk => hput k (by simp [hk])) hP
    refine ⟨c, ?_, by simpa using hQ⟩
    rw [List.foldlM_cons, hb]
    exact hc

/-- An object is decoded as a record if each known member is put in and no required one is
missing. -/
theorem fold_ok {r : RecordSpec} {blank : α} {put : α → String → Json → Decoded α}
    {P : List String → α → Prop} {ms : List (String × Json)} (hblank : P [] blank)
    (hput : ∀ m ∈ ms, m.1 ∈ r.names → ∀ seen a, P seen a →
      ∃ b, put a m.1 m.2 = .ok b ∧ P (m.1 :: seen) b)
    (hreq : ∀ name ∈ r.requiredNames, name ∈ ms.map Prod.fst) :
    ∃ a seen, r.fold blank put (.object ms) = .ok a ∧ P seen a ∧
      ∀ name ∈ r.requiredNames, name ∈ seen := by
  have hknown : ∀ m ∈ ms.filter fun m => r.names.contains m.1, ∀ seen a, P seen a →
      ∃ b, put a m.1 m.2 = .ok b ∧ P (m.1 :: seen) b := by
    intro m hm
    rw [List.mem_filter] at hm
    exact hput m hm.1 (by simpa using hm.2)
  obtain ⟨a, ha, hP⟩ := foldlM_put_ok hknown hblank
  refine ⟨a, _, ?_, hP, ?_⟩
  · rw [fold, foldWith_object, ha, missing?_eq_none hreq]
    rfl
  · intro name hname
    obtain ⟨m, hm, rfl⟩ := List.mem_map.1 (hreq name hname)
    have hnames := mem_names_of_mem_requiredNames hname
    simp only [List.append_nil, List.mem_reverse, List.mem_map, List.mem_filter]
    exact ⟨m, ⟨hm, by simpa using hnames⟩, rfl⟩

end RecordSpec

theorem Operand.decode_eq_within {j : Json} (h : ∀ s, j ≠ .string s) :
    Operand.decode j =
      Decoded.within .inExpression (Expression.toOperand <$> Expression.decode j) := by
  cases j with
  | string s => exact absurd rfl (h s)
  | _ =>
    rw [Operand.decode]
    · rfl
    · simp

namespace Tree
variable {α : Type} {child : Json → Decoded (Tree α)} {put : α → String → Json → Decoded α}
  {p : α × List (Tree α)} {name : String} {x : Json}

def putMember (child : Json → Decoded (Tree α)) (put : α → String → Json → Decoded α)
    (p : α × List (Tree α)) (name : String) (x : Json) : Decoded (α × List (Tree α)) :=
  if name = "children" then do
    let ts ← Decoded.list child x
    return (p.1, ts)
  else do
    let a ← put p.1 name x
    return (a, p.2)

/-- A tree is a record whose member `children` is a list of trees. -/
theorem decode_eq_fold (spec : RecordSpec) (blank : α) (put : α → String → Json → Decoded α)
    (j : Json) :
    Tree.decode spec blank put j = (do
      let p ← spec.fold (blank, []) (putMember (Tree.decode spec blank put) put) j
      return .node p.1 p.2) := by
  rw [Tree.decode]
  simp only [Decoded.listWith_eq_list]
  rfl

theorem putMember_children_ok {Q : List (Tree α) → Prop}
    (h : ∃ ts, Decoded.list child x = .ok ts ∧ Q ts) :
    ∃ q, putMember child put p "children" x = .ok q ∧ q.1 = p.1 ∧ Q q.2 := by
  obtain ⟨ts, hts, hQ⟩ := h
  refine ⟨(p.1, ts), ?_, rfl, hQ⟩
  rw [putMember, if_pos rfl, hts]
  rfl

theorem putMember_label_ok {Q : α → Prop} (hname : name ≠ "children")
    (h : ∃ a, put p.1 name x = .ok a ∧ Q a) :
    ∃ q, putMember child put p name x = .ok q ∧ Q q.1 ∧ q.2 = p.2 := by
  obtain ⟨a, ha, hQ⟩ := h
  refine ⟨(a, p.2), ?_, hQ, rfl⟩
  rw [putMember, if_neg hname, ha]
  rfl

end Tree
end AccessRules
