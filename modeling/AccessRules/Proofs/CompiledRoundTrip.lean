import AccessRules.Proofs.RoundTrip
import AccessRules.Rules.Codec
import AccessRules.Rules.Layout

/-! Compiled rules written and read back. A list that may be empty has no member then, and a
record that is read starts with empty lists, so that a member that is left out is read back as
well. The statements of a block are always written. -/
namespace AccessRules

/-- A list that is written only if it has items is read back in either case, if the value that is
read into has no items yet. -/
theorem Json.foldlM_unlessEmpty {β : Type} {put : β → String × Json → Decoded β} {name : String}
    {items : List Json} {b c : β} (hput : put b (name, .array items) = .ok c)
    (hempty : items = [] → c = b) (ms : List (String × Json)) :
    (unlessEmpty name items ++ ms).foldlM put b = ms.foldlM put c := by
  cases items with
  | nil =>
    rw [hempty rfl]
    rfl
  | cons item items => exact Decoded.foldlM_cons_ok hput ms

theorem Decoded.list_strings (texts : List String) :
    Decoded.list Decoded.string (.array (texts.map .string)) = .ok texts :=
  Decoded.list_array_map fun _ _ => rfl

theorem Block.fold_toJson {b : Block} {ts : List (Tree Block)} {children : List Json}
    (h : Decoded.list Block.decode (.array children) = .ok ts) :
    Block.spec.fold ((⟨Segment.blank, []⟩ : Block), ([] : List (Tree Block)))
      (Tree.putMember Block.decode Block.put) (b.toJson children) = .ok (b, ts) := by
  have hstatements (c : Block) : c.put "rules" (Json.strings b.statements) =
      .ok { c with statements := b.statements } := by
    simp only [put, Json.strings, Decoded.list_strings]
    rfl
  have hempty (c : Block) (hnil : children = []) : (c, ts) = (c, []) := by
    rw [hnil] at h
    rw [← Except.ok.inj h]
    rfl
  rw [toJson, RecordSpec.fold_object (by cases children <;> rfl) (by cases children <;> rfl),
    Json.foldlM_unlessEmpty (Tree.putMember_children h) (hempty _),
    Decoded.foldlM_cons_ok (Tree.putMember_label (by simp) rfl),
    Decoded.foldlM_cons_ok (Tree.putMember_label (by simp) rfl),
    Decoded.foldlM_cons_ok (Tree.putMember_label (by decide) (hstatements _)),
    Decoded.foldlM_cons_ok (Tree.putMember_label (by simp) rfl)]
  rfl

theorem Block.decode_toJson (t : Tree Block) : Block.decode (t.toJson Block.toJson) = .ok t := by
  induction t with
  | node b ts ih =>
    have hchildren := Decoded.list_array_map ih
    rw [Block.decode, Tree.decode_eq_fold, ← Block.decode, Tree.toJson, Tree.allToJson_eq_map,
      Block.fold_toJson hchildren]
    rfl

namespace Rules

theorem put_functions (r : Rules) (functions : List String) :
    r.put "customFunctions" (.array (functions.map .string)) = .ok { r with functions } := by
  simp only [put, Decoded.list_strings]
  rfl

theorem put_trees (r : Rules) (trees : List (Tree Block)) :
    r.put "matches" (.array (trees.map (Tree.toJson Block.toJson))) = .ok { r with trees } := by
  simp only [put, Decoded.list_array_map fun t (_ : t ∈ trees) => Block.decode_toJson t]
  rfl

/-- Rules are decoded from their own JSON value, whichever of their lists are empty, and have the
same text then. -/
theorem decode_toJson_round_trip (r : Rules) : Rules.decode r.toJson = .ok r ∧
    ∀ style : Style, Rules.render style <$> Rules.decode r.toJson = .ok (r.render style) := by
  have hdecode : Rules.decode r.toJson = .ok r := by
    obtain ⟨topLevel, trees, functions⟩ := r
    rw [decode, toJson, RecordSpec.fold_object (by cases functions <;> cases trees <;> rfl)
      (by cases functions <;> cases trees <;> rfl), List.append_assoc,
      Json.foldlM_unlessEmpty (put_functions _ functions) (by simp),
      Json.foldlM_unlessEmpty (put_trees _ trees) (by simp)]
    rfl
  refine ⟨hdecode, fun style => ?_⟩
  rw [hdecode]
  rfl

end Rules
end AccessRules
