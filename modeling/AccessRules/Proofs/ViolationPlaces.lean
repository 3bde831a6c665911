import AccessRules.Policy.Load
import AccessRules.Proofs.Places
import AccessRules.Proofs.ReadDocuments

/-! Where violations are reported. Each violation stands at a part of the value that is judged. A
record reports what its members report, and a list what its items report, each of them in its own
place and whatever the others report; so what a policy document is told about one of its nodes is
what the node is told when it is judged alone. The names of an object are taken to be distinct, as
they are in every document that is read (`Format.hasDistinctNames_of_read?`). -/
namespace AccessRules

namespace Violation

/-- The violation as seen from the value that some steps start from. -/
def below (steps : List Step) (v : Violation) : Violation :=
  { v with location := steps ++ v.location }

theorem below_nil : below [] = id := by
  funext v
  rfl

theorem below_append (p q : List Step) : below (p ++ q) = below p ∘ below q := by
  funext v
  simp [below]

theorem pointer_eq (v : Violation) : v.pointer = pointerTo v.location := rfl

theorem text_below (steps : List Step) (v : Violation) :
    (v.below steps).text = pointerTo steps ++ v.text := by
  simp only [text, pointer_eq, below, pointerTo_append, String.append_assoc]

def isBelow (steps : List Step) (v : Violation) : Bool := steps.isPrefixOf v.location

@[simp] theorem isBelow_nil (v : Violation) : v.isBelow [] = true := by
  simp [isBelow]

@[simp] theorem isBelow_here (s : Step) (steps : List Step) (b : Breach) :
    (here b).isBelow (s :: steps) = false := by
  simp [isBelow, here]

@[simp] theorem isBelow_under (s t : Step) (steps : List Step) (v : Violation) :
    (under t v).isBelow (s :: steps) = (s == t && v.isBelow steps) := by
  simp [isBelow, under, List.isPrefixOf]

theorem filter_under_self (s : Step) (steps : List Step) (vs : List Violation) :
    (vs.map (under s)).filter (isBelow (s :: steps)) =
      (vs.filter (isBelow steps)).map (under s) := by
  rw [List.filter_map]
  congr 1
  apply List.filter_congr
  simp

theorem filter_under_of_ne {s t : Step} (h : s ≠ t) (steps : List Step) (vs : List Violation) :
    (vs.map (under t)).filter (isBelow (s :: steps)) = [] := by
  simp [List.filter_eq_nil_iff, h]

end Violation
open Violation

section Resolution
variable {definitions : List (String × Schema)}

def Violation.Resolves (j : Json) (v : Violation) : Prop := ∃ x, j.at? v.location = some x

theorem Violation.resolves_here (j : Json) (b : Breach) : (here b).Resolves j := ⟨j, by simp [here]⟩

theorem Violation.Resolves.under {j x : Json} {s : Step} {v : Violation} (h : v.Resolves x)
    (hs : j.step? s = some x) : (under s v).Resolves j := by
  obtain ⟨y, hy⟩ := h
  exact ⟨y, by simp [Violation.under, hs, hy]⟩

namespace Schema

variable {follow : String → List Violation} {j : Json} {parts : List Part}

/-- What a schema reports resolves if what the parts and the references report does. -/
theorem resolves_of_mem_judge (hfollow : ∀ target, ∀ v ∈ follow target, v.Resolves j)
    (hparts : ∀ p ∈ parts, ∀ s, ∀ v ∈ p.violations s, (under p.step v).Resolves j) (s : Schema)
    {v : Violation} (hv : v ∈ judge follow j parts s) : v.Resolves j := by
  have hhere {b : Breach} (h : v = here b) : v.Resolves j := h ▸ resolves_here j b
  match s, hv with
  | .never, hv => exact hhere (by simpa [judge] using hv)
  | .all demands, hv =>
    rw [judge, judgeAll_eq_flatMap] at hv
    obtain ⟨d, hd, hv⟩ := List.mem_flatMap.1 hv
    exact resolves_of_mem_judge hfollow hparts d hv
  | .enumeration values, hv =>
    rw [judge] at hv
    split at hv
    · simp at hv
    · exact hhere (by simpa using hv)
  | .items item, hv =>
    cases j with
    | array xs =>
      obtain ⟨p, hp, hv⟩ := List.mem_flatMap.1 hv
      obtain ⟨w, hw, rfl⟩ := List.mem_map.1 hv
      exact hparts p hp item w hw
    | _ => simp [judge] at hv
  | .minItems count, hv =>
    cases j with
    | array xs =>
      rw [judge] at hv
      split at hv
      · exact hhere (by simpa using hv)
      · simp at hv
    | _ => simp [judge] at hv
  | .oneOf alternatives, hv =>
    rw [judge] at hv
    split at hv
    · exact hhere (by simpa using hv)
    · simp at hv
    · exact hhere (by simpa using hv)
  | .properties members, hv =>
    cases j with
    | object ms =>
      obtain ⟨p, hp, hv⟩ := List.mem_flatMap.1 hv
      split at hv
      · split at hv
        · next demand _ =>
          obtain ⟨w, hw, rfl⟩ := List.mem_map.1 hv
          exact hparts p hp demand w hw
        · simp at hv
      · simp at hv
    | _ => simp [judge] at hv
  | .reference target, hv => exact hfollow target v hv
  | .required names, hv =>
    cases j with
    | object ms =>
      obtain ⟨name, -, rfl⟩ := List.mem_map.1 hv
      exact hhere rfl
    | _ => simp [judge] at hv
  | .tuple listed, hv =>
    cases j with
    | array xs =>
      obtain ⟨⟨p, s⟩, hp, hv⟩ := List.mem_flatMap.1 hv
      obtain ⟨w, hw, rfl⟩ := List.mem_map.1 hv
      exact hparts p (List.of_mem_zip hp).1 s w hw
    | _ => simp [judge] at hv
  | .type types, hv =>
    rw [judge] at hv
    split at hv
    · simp at hv
    · exact hhere (by simpa using hv)
termination_by sizeOf s
decreasing_by
  have := List.sizeOf_lt_of_mem hd
  simp only [all.sizeOf_spec]
  omega

theorem resolves_of_mem_follow
    (hparts : ∀ p ∈ parts, ∀ s, ∀ v ∈ p.violations s, (under p.step v).Resolves j) (budget : Nat)
    (target : String) : ∀ v ∈ Schema.follow definitions j parts budget target, v.Resolves j := by
  induction budget generalizing target with
  | zero => simp [Schema.follow]
  | succ budget ih =>
    intro v hv
    rw [Schema.follow] at hv
    split at hv
    · next s _ => exact resolves_of_mem_judge ih hparts s hv
    · simp at hv

/-- Every violation of a schema stands at a part of the value. -/
theorem resolves_of_mem_violations (j : Json) (hj : j.hasDistinctNames = true) (s : Schema)
    {v : Violation} (hv : v ∈ violations definitions j s) : v.Resolves j := by
  have hparts : ∀ p ∈ partsOf definitions j, ∀ s, ∀ v ∈ p.violations s,
      (under p.step v).Resolves j := by
    intro p hp s v hv
    cases j with
    | array xs =>
      rw [partsOf, itemParts_eq_map] at hp
      obtain ⟨⟨x, i⟩, hx, rfl⟩ := List.mem_map.1 hp
      have hi : xs[i]? = some x := List.mk_mem_zipIdx_iff_getElem?.1 hx
      have hstep : (Json.array xs).step? (.item i) = some x := hi
      have := Json.sizeOf_item_lt (List.mem_of_getElem? hi)
      exact (resolves_of_mem_violations x (Json.hasDistinctNames_of_step? hj hstep) s hv).under hstep
    | object ms =>
      rw [partsOf, memberParts_eq_map] at hp
      obtain ⟨⟨name, x⟩, hx, rfl⟩ := List.mem_map.1 hp
      have hstep : (Json.object ms).step? (.member name) = some x :=
        Json.lookup_of_mem (Json.hasDistinctNames_object_iff.1 hj).1 hx
      have := Json.sizeOf_member_lt hx
      exact (resolves_of_mem_violations x (Json.hasDistinctNames_of_step? hj hstep) s hv).under hstep
    | _ => simp [partsOf] at hp
  rw [violations_eq_judge] at hv
  exact resolves_of_mem_judge (resolves_of_mem_follow hparts _) hparts s hv
termination_by sizeOf j

end Schema
end Resolution
section Locality
variable {definitions : List (String × Schema)} {members : List (String × Schema)}
  {names : List String} {ms : List (String × Json)} {xs : List Json} {x : Json}

theorem flatMap_eq_of_nodup_key {α β κ : Type} {l : List α} {key : α → κ} {f : α → List β} {a : α}
    (h : (l.map key).Nodup) (ha : a ∈ l) (hf : ∀ b, key b ≠ key a → f b = []) :
    l.flatMap f = f a := by
  obtain ⟨before, behind, rfl⟩ := List.append_of_mem ha
  rw [List.map_append, List.map_cons, List.nodup_append, List.nodup_cons] at h
  have hbefore : before.flatMap f = [] := List.flatMap_eq_nil_iff.2 fun b hb =>
    hf b (h.2.2 (key b) (List.mem_map_of_mem hb) (key a) (by simp))
  have hbehind : behind.flatMap f = [] := List.flatMap_eq_nil_iff.2 fun b hb =>
    hf b fun hkey => h.2.1.1 (hkey ▸ List.mem_map_of_mem hb)
  rw [List.flatMap_append, List.flatMap_cons, hbefore, hbehind, List.nil_append, List.append_nil]

namespace Schema

theorem violations_record (ms : List (String × Json)) (members : List (String × Schema))
    (names : List String) :
    violations definitions (.object ms) (record members names) =
      (ms.flatMap fun m => ((members.lookup m.1).elim [] fun s =>
        (violations definitions m.2 s).map (under (.member m.1)))) ++
      (names.filter fun name => !ms.any fun m => m.1 == name).map fun name =>
        here (.missing name) := by
  rw [violations_eq_judge]
  have htype : JsonType.object.holds (.object ms) = true := rfl
  simp only [record, judge, judgeAll, partsOf, memberParts_eq_map, List.flatMap_map, List.any_cons,
    List.any_nil, htype, Bool.or_false, if_true, List.append_nil]
  congr 1
  apply List.flatMap_congr
  intro m _
  cases members.lookup m.1 <;> rfl

theorem violations_listOf (xs : List Json) (item : Schema) :
    violations definitions (.array xs) (listOf item) =
      xs.zipIdx.flatMap fun p => (violations definitions p.1 item).map (under (.item p.2)) := by
  rw [violations_eq_judge]
  have htype : JsonType.array.holds (.array xs) = true := rfl
  simp only [listOf, judge, judgeAll, partsOf, itemParts_eq_map, List.flatMap_map, List.any_cons,
    List.any_nil, htype, Bool.or_false, if_true, List.append_nil]

theorem violations_see {target : String}
    (h : definitions.lookup target = some (record members names)) (j : Json) :
    violations definitions j (see target) = violations definitions j (record members names) := by
  rw [violations_eq_judge, violations_eq_judge]
  cases definitions with
  | nil => simp at h
  | cons d rest =>
    simp only [see, judge, judgeAll, List.append_nil, List.length_cons, Schema.follow, h]
    simp only [record, judge, judgeAll]

theorem filter_violations_record {name : String} {s : Schema} (h : (ms.map Prod.fst).Nodup)
    (hx : ms.lookup name = some x) (hs : members.lookup name = some s) (steps : List Step) :
    (violations definitions (.object ms) (record members names)).filter
        (isBelow (.member name :: steps)) =
      ((violations definitions x s).filter (isBelow steps)).map (under (.member name)) := by
  have hmissing (lacked : List String) : (lacked.map fun name => here (.missing name)).filter
      (isBelow (.member name :: steps)) = [] := by
    simp [List.filter_eq_nil_iff]
  rw [violations_record, List.filter_append, List.filter_flatMap, hmissing, List.append_nil,
    flatMap_eq_of_nodup_key h (Json.mem_of_lookup hx)]
  · rw [hs, Option.elim_some, filter_under_self]
  · intro m hm
    cases members.lookup m.1 with
    | none => rfl
    | some s => exact filter_under_of_ne (by simpa using Ne.symm hm) steps _

theorem filter_violations_listOf {i : Nat} (hx : xs[i]? = some x) (item : Schema)
    (steps : List Step) :
    (violations definitions (.array xs) (listOf item)).filter (isBelow (.item i :: steps)) =
      ((violations definitions x item).filter (isBelow steps)).map (under (.item i)) := by
  have hkeys : (xs.zipIdx.map Prod.snd).Nodup := by
    rw [List.zipIdx_map_snd]
    exact List.nodup_range'
  have hmem : (x, i) ∈ xs.zipIdx := List.mk_mem_zipIdx_iff_getElem?.2 hx
  rw [violations_listOf, List.filter_flatMap, flatMap_eq_of_nodup_key hkeys hmem, filter_under_self]
  intro p hp
  exact filter_under_of_ne (by simpa using Ne.symm hp) steps _

end Schema
end Locality

theorem SchemaDocument.validate_eq (d : SchemaDocument) (j : Json) :
    d.validate j = if d.violations j = [] then .ok () else .error (.violated (d.violations j)) := by
  rw [validate]
  cases d.violations j <;> rfl

namespace Policy
open Schema

/-- The steps from a node to a node below it, by the numbers of the children on the way. -/
def childSteps (path : List Nat) : List Step :=
  path.flatMap fun i => [.member "children", .item i]

/-- The steps from a policy document to a node, by the numbers of the tree and of the children. -/
def nodeSteps (tree : Nat) (path : List Nat) : List Step :=
  .member "matches" :: .item tree :: childSteps path

/-- The schema of a node, with all that it refers to. -/
def nodeDocument : SchemaDocument := ⟨nodeSchema, schema.definitions⟩

theorem violations_see_node (j : Json) :
    violations schema.definitions j (see "#/$defs/match") = nodeDocument.violations j :=
  violations_see rfl j

/-- One level down: what a record reports about an item of a list of nodes is what the item is told
alone. -/
theorem filter_violations_child {members : List (String × Schema)} {names : List String}
    {j x : Json} {name : String} {i : Nat} (hj : j.hasDistinctNames = true)
    (hx : j.at? [.member name, .item i] = some x)
    (hname : members.lookup name = some (listOf (see "#/$defs/match"))) (steps : List Step) :
    (violations schema.definitions j (record members names)).filter
        (isBelow (.member name :: .item i :: steps)) =
      ((nodeDocument.violations x).filter (isBelow steps)).map
        (below [.member name, .item i]) := by
  obtain ⟨list, hlist, hx⟩ := Option.bind_eq_some_iff.1 ((Json.at?_cons _ _ j).symm.trans hx)
  obtain ⟨item, hitem, hx⟩ := Option.bind_eq_some_iff.1 ((Json.at?_cons _ _ list).symm.trans hx)
  obtain rfl : item = x := Option.some.inj ((Json.at?_nil item).symm.trans hx)
  obtain ⟨ms, rfl, hlookup⟩ := Json.step?_member_eq_some_iff.1 hlist
  obtain ⟨xs, rfl, hget⟩ := Json.step?_item_eq_some_iff.1 hitem
  rw [filter_violations_record (Json.hasDistinctNames_object_iff.1 hj).1 hlookup hname,
    filter_violations_listOf hget, violations_see_node, List.map_map]
  rfl

theorem filter_violations_node {j x : Json} {path : List Nat} (hj : j.hasDistinctNames = true)
    (hx : j.at? (childSteps path) = some x) :
    (nodeDocument.violations j).filter (isBelow (childSteps path)) =
      (nodeDocument.violations x).map (below (childSteps path)) := by
  induction path generalizing j with
  | nil =>
    have hsteps : childSteps [] = [] := rfl
    obtain rfl : j = x := by simpa [hsteps] using hx
    simp [hsteps, below_nil]
  | cons i path ih =>
    have hsteps : childSteps (i :: path) = [.member "children", .item i] ++ childSteps path := rfl
    rw [hsteps, Json.at?_append] at hx
    obtain ⟨child, hchild, hx⟩ := Option.bind_eq_some_iff.1 hx
    have hlevel : (nodeDocument.violations j).filter (isBelow (childSteps (i :: path))) =
        ((nodeDocument.violations child).filter (isBelow (childSteps path))).map
          (below [.member "children", .item i]) :=
      filter_violations_child hj hchild rfl _
    rw [hlevel, ih (Json.hasDistinctNames_of_at? hj hchild) hx, List.map_map, hsteps, below_append]

theorem filter_violations_policy {document x : Json} {tree : Nat} {path : List Nat}
    (hd : document.hasDistinctNames = true) (hx : document.at? (nodeSteps tree path) = some x) :
    (schema.violations document).filter (isBelow (nodeSteps tree path)) =
      (nodeDocument.violations x).map (below (nodeSteps tree path)) := by
  have hsteps : nodeSteps tree path = [.member "matches", .item tree] ++ childSteps path := rfl
  rw [hsteps, Json.at?_append] at hx
  obtain ⟨node, hnode, hx⟩ := Option.bind_eq_some_iff.1 hx
  have hlevel : (schema.violations document).filter (isBelow (nodeSteps tree path)) =
      ((nodeDocument.violations node).filter (isBelow (childSteps path))).map
        (below [.member "matches", .item tree]) :=
    filter_violations_child hd hnode rfl _
  rw [hlevel, filter_violations_node (Json.hasDistinctNames_of_at? hd hnode) hx, List.map_map,
    hsteps, below_append]

theorem resolves_of_mem_policy {document : Json} (hd : document.hasDistinctNames = true) :
    ∀ v ∈ schema.violations document, v.Resolves document :=
  fun _ hv => resolves_of_mem_violations document hd policySchema hv

/-- The pointer to a node selects what the node is told when it is judged alone. -/
theorem filter_isWithin_policy {document x : Json} {tree : Nat} {path : List Nat}
    (hd : document.hasDistinctNames = true) (hx : document.at? (nodeSteps tree path) = some x) :
    ((schema.violations document).filter fun v =>
        isWithin (pointerTo (nodeSteps tree path)) v.pointer) =
      (nodeDocument.violations x).map (below (nodeSteps tree path)) := by
  rw [← filter_violations_policy hd hx]
  apply List.filter_congr
  intro v hv
  obtain ⟨y, hy⟩ := resolves_of_mem_policy hd v hv
  rw [Bool.eq_iff_iff, pointer_eq, isWithin_pointerTo_iff hx hy, isBelow,
    List.isPrefixOf_iff_prefix]

/-- In a document that was read, each violation is about a part of it, and a node is told what it is
told alone. -/
theorem violations_of_read {f : Format} {text : String} {document : Json}
    (hread : f.read? text = some document) :
    (∀ v ∈ schema.violations document, v.Resolves document) ∧
    ∀ tree path x, document.at? (nodeSteps tree path) = some x →
      ((schema.violations document).filter fun v =>
          isWithin (pointerTo (nodeSteps tree path)) v.pointer) =
        (nodeDocument.violations x).map (below (nodeSteps tree path)) := by
  have hd := Format.hasDistinctNames_of_read? hread
  exact ⟨resolves_of_mem_policy hd, fun _ _ _ hx => filter_isWithin_policy hd hx⟩

/-- A policy document fails its check with all its violations. What it is told at a node and below it
is what the node is told when it is judged alone, in the same order and with the pointer to the node
in front, whatever else is wrong in the document. And all that the document is told is about some
part of it. -/
theorem violations_within_node (document : Json) (hd : document.hasDistinctNames = true) :
    (schema.validate document = if schema.violations document = [] then .ok ()
      else .error (.violated (schema.violations document))) ∧
    (∀ tree path x, document.at? (nodeSteps tree path) = some x →
      let pointer := pointerTo (nodeSteps tree path)
      let within := (schema.violations document).filter fun v => isWithin pointer v.pointer
      within = (nodeDocument.violations x).map (below (nodeSteps tree path)) ∧
        within.map Violation.text = (nodeDocument.violations x).map fun v => pointer ++ v.text) ∧
    ∀ v ∈ schema.violations document, ∃ x, document.at? v.location = some x := by
  refine ⟨schema.validate_eq document, fun tree path x hx => ?_, resolves_of_mem_policy hd⟩
  intro pointer within
  have hwithin : within = (nodeDocument.violations x).map (below (nodeSteps tree path)) :=
    filter_isWithin_policy hd hx
  refine ⟨hwithin, ?_⟩
  rw [hwithin, List.map_map]
  exact List.map_congr_left fun v _ => text_below _ v

/-- A node below a faulty node, next to a value that is no node and in a document without its path:
the node is told of its own faults. -/
theorem violations_within_node_inner :
    let inner : Json := .object [("collectionPath", .number (.int 7))]
    let outer : Json := .object [("children", .array [inner]), ("wildcardName", .null)]
    let document : Json := .object [("matches", .array [.bool true, outer])]
    document.hasDistinctNames = true ∧ document.at? (nodeSteps 1 [0]) = some inner ∧
      (schema.violations document).length = 6 ∧
      ((schema.violations document).filter fun v =>
        isWithin "/matches/1/children/0" v.pointer).map Violation.text =
        ["/matches/1/children/0/collectionPath: 7 is not of type \"string\"",
          "/matches/1/children/0: \"wildcardName\" is a required property"] := by
  intro inner outer document
  have hd : document.hasDistinctNames = true := by decide
  have hinner : document.at? (nodeSteps 1 [0]) = some inner := rfl
  have hpointer : pointerTo (nodeSteps 1 [0]) = "/matches/1/children/0" := by decide
  have htexts := ((violations_within_node document hd).2.1 1 [0] inner hinner).2
  refine ⟨hd, hinner, by decide +kernel, ?_⟩
  rw [hpointer] at htexts
  rw [htexts]
  decide +kernel

end Policy
end AccessRules
