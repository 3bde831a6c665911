import AccessRules.Proofs.RoundTrip
import AccessRules.Proofs.TypePlaces
import Mathlib.Logic.Function.Iterate

/-! Errors of nested expressions. A frame is a value with one part left open, and frames around
each other lead from a document to a part of it. If the whole decodes with one value in the open
part, then the error of any other value there is the error of the whole: lists and records pass it
on, one after the other, and each expression and each condition on the way adds its own words in
front. -/
namespace AccessRules

/-- A value with one part left open: a member of an object or an item of an array. -/
inductive Frame where
  | member (before : List (String × Json)) (name : String) (after : List (String × Json))
  | item (before after : List Json)

namespace Frame

def fill : Frame → Json → Json
  | .member before name after, x => .object (before ++ (name, x) :: after)
  | .item before after, x => .array (before ++ x :: after)

def step : Frame → Step
  | .member _ name _ => .member name
  | .item before _ => .item before.length

/-- The value that frames around each other make, the first of them outermost. -/
def fillAll (fs : List Frame) (x : Json) : Json := fs.foldr fill x

@[simp] theorem fillAll_nil (x : Json) : fillAll [] x = x := rfl

@[simp] theorem fillAll_cons (f : Frame) (fs : List Frame) (x : Json) :
    fillAll (f :: fs) x = f.fill (fillAll fs x) := rfl

@[simp] theorem fillAll_append (fs gs : List Frame) (x : Json) :
    fillAll (fs ++ gs) x = fillAll fs (fillAll gs x) := List.foldr_append

theorem fill_ne_string (f : Frame) (x : Json) (s : String) : f.fill x ≠ .string s := by
  cases f <;> simp [fill]

end Frame
open AccessRules.Frame

namespace Decoded
variable {α β γ : Type}

theorem Succeeds.of_bind {d : Decoded α} {f : α → Decoded β} (h : (d >>= f).Succeeds) :
    ∃ a, d = .ok a ∧ (f a).Succeeds := by
  cases d with
  | ok a => exact ⟨a, rfl, h⟩
  | error e =>
    obtain ⟨b, hb⟩ := h
    cases hb

theorem error_bind {d : Decoded α} {e : DecodeError} (h : d = .error e) (f : α → Decoded β) :
    d >>= f = .error e := by
  rw [h]
  rfl

/-- Where the whole is decoded, the part inside the frames is decoded too, and an error of any other
part in its place is the error of the whole. -/
def Exposes (outer : Json → Decoded α) (fs : List Frame) (inner : Json → Decoded β) : Prop :=
  ∀ y, (outer (fillAll fs y)).Succeeds →
    (inner y).Succeeds ∧ ∀ x e, inner x = .error e → outer (fillAll fs x) = .error e

theorem Exposes.append {outer : Json → Decoded α} {middle : Json → Decoded β}
    {inner : Json → Decoded γ} {fs gs : List Frame} (h : Exposes outer fs middle)
    (h' : Exposes middle gs inner) : Exposes outer (fs ++ gs) inner := by
  intro y hy
  rw [fillAll_append] at hy
  obtain ⟨hmiddle, houter⟩ := h _ hy
  obtain ⟨hinner, herror⟩ := h' _ hmiddle
  refine ⟨hinner, fun x e hx => ?_⟩
  rw [fillAll_append]
  exact houter _ e (herror x e hx)

theorem Exposes.map {outer : Json → Decoded α} {inner : Json → Decoded γ} {fs : List Frame}
    (h : Exposes outer fs inner) (g : α → β) :
    Exposes (fun j => outer j >>= fun a => pure (g a)) fs inner := by
  intro y hy
  obtain ⟨a, ha, -⟩ := hy.of_bind
  obtain ⟨hinner, herror⟩ := h y ⟨a, ha⟩
  exact ⟨hinner, fun x e hx => error_bind (herror x e hx) _⟩

theorem exposes_list (f : Json → Decoded α) (before after : List Json) :
    Exposes (list f) [.item before after] f := by
  intro y hy
  simp only [fillAll_cons, fillAll_nil, fill, list, List.mapM_append, List.mapM_cons] at hy ⊢
  obtain ⟨as, has, hrest⟩ := hy.of_bind
  obtain ⟨bs, hbs, -⟩ := hrest.of_bind
  obtain ⟨b, hb, -⟩ := Succeeds.of_bind ⟨bs, hbs⟩
  refine ⟨⟨b, hb⟩, fun x e hx => ?_⟩
  rw [has]
  exact error_bind (error_bind hx _) _

theorem Exposes.item {outer : Json → Decoded α} {inner : Json → Decoded β} {f : Frame}
    (h : Exposes outer [f] (list inner)) (before after : List Json) :
    Exposes outer [f, .item before after] inner :=
  h.append (exposes_list inner before after)

theorem foldlM_hole {put : α → β → Decoded α} {before after : List β} {q : β} {a : α}
    (h : ((before ++ q :: after).foldlM put a).Succeeds) :
    ∃ b, (put b q).Succeeds ∧ ∀ p e, put b p = .error e →
      (before ++ p :: after).foldlM put a = .error e := by
  simp only [List.foldlM_append, List.foldlM_cons] at h ⊢
  obtain ⟨b, hb, hrest⟩ := h.of_bind
  obtain ⟨c, hc, -⟩ := hrest.of_bind
  refine ⟨b, ⟨c, hc⟩, fun p e hp => ?_⟩
  rw [hb]
  exact error_bind hp _

end Decoded
open Decoded

namespace RecordSpec
variable {α β : Type} {r : RecordSpec} {blank : α} {put : α → String → Json → Decoded α}
  {field : String} {f : Frame}

/-- A record with an open field is decoded by putting in what stands before the field, the field and
what stands behind it. -/
theorem exists_fold_fill (blank : α) (put : α → String → Json → Decoded α)
    (hfield : field ∈ r.names) (hf : r.Leads field f.step) :
    ∃ (before after : List (String × Json)) (defect : Json → Option DecodeError), ∀ x,
      r.fold blank put (f.fill x) =
        (before ++ (field, x) :: after).foldlM (fun a m => put a m.1 m.2) blank >>=
          report (defect x) := by
  cases f with
  | member before name after =>
    obtain rfl : name = field := by simpa [RecordSpec.Leads, step] using hf
    refine ⟨before.filter fun m => r.names.contains m.1, after.filter fun m => r.names.contains m.1,
      fun x => r.missing? (before ++ (name, x) :: after), fun x => ?_⟩
    simp [fold, foldWith_object, fill, hfield]
  | item before after =>
    have hk : r.names[before.length]? = some field := by simpa [RecordSpec.Leads, step] using hf
    obtain ⟨hlt, hget⟩ := List.getElem?_eq_some_iff.1 hk
    have hnames : r.names = r.names.take before.length ++
        field :: r.names.drop (before.length + 1) := by
      rw [← hget, List.getElem_cons_drop, List.take_append_drop]
    have hlength : (r.names.take before.length).length = before.length := by
      rw [List.length_take, Nat.min_eq_left (Nat.le_of_lt hlt)]
    have hzip (x : Json) : r.names.zip (before ++ x :: after) =
        (r.names.take before.length).zip before ++
          (field, x) :: (r.names.drop (before.length + 1)).zip after := by
      conv_lhs => rw [hnames]
      exact List.zip_append hlength
    exact ⟨_, _, fun x => r.misfit? (before ++ x :: after).length,
      fun x => by rw [fold, fill, foldWith_array, hzip]⟩

theorem exposes_fold {inner : Json → Decoded β} (hfield : field ∈ r.names)
    (hf : r.Leads field f.step)
    (hput : ∀ a x, ∃ g : β → α, put a field x = inner x >>= fun b => pure (g b)) :
    Exposes (r.fold blank put) [f] inner := by
  intro y hy
  obtain ⟨before, after, defect, hfold⟩ := exists_fold_fill blank put hfield hf
  simp only [fillAll_cons, fillAll_nil, hfold] at hy ⊢
  obtain ⟨a, ha, -⟩ := hy.of_bind
  obtain ⟨b, hb, hrest⟩ := foldlM_hole ⟨a, ha⟩
  constructor
  · obtain ⟨g, hg⟩ := hput b y
    obtain ⟨v, hv, -⟩ := Succeeds.of_bind (hg ▸ hb)
    exact ⟨v, hv⟩
  · intro x e hx
    obtain ⟨g, hg⟩ := hput b x
    exact error_bind (hrest (field, x) e (hg.trans (error_bind hx _))) _

end RecordSpec

section Expressions

/-- One operand is left open in a record, and some value there makes it well formed. -/
structure RecordSpec.HoldsOperand {α : Type} (r : RecordSpec) (decode : Json → Decoded α)
    (f : Frame) : Prop where
  side : r.Leads "fieldA" f.step ∨ r.Leads "fieldB" f.step
  wellFormed : ∃ y, (decode (f.fill y)).Succeeds

variable {f : Frame} {x : Json} {e : DecodeError}

theorem RecordSpec.HoldsOperand.fill_error {α : Type} {r : RecordSpec} {decode : Json → Decoded α}
    (hf : r.HoldsOperand decode f)
    (hleft : r.Leads "fieldA" f.step → Exposes decode [f] Operand.decode)
    (hright : r.Leads "fieldB" f.step → Exposes decode [f] Operand.decode)
    (hx : Operand.decode x = .error e) : decode (f.fill x) = .error e := by
  obtain ⟨y, hy⟩ := hf.wellFormed
  exact (hf.side.elim hleft hright y hy).2 x e hx

theorem Expression.decode_fill (hf : Expression.spec.HoldsOperand Expression.decode f)
    (hx : Operand.decode x = .error e) : Expression.decode (f.fill x) = .error e :=
  hf.fill_error (fun h => RecordSpec.exposes_fold (by decide) h fun _ _ => ⟨_, rfl⟩)
    (fun h => RecordSpec.exposes_fold (by decide) h fun _ _ => ⟨_, rfl⟩) hx

theorem Condition.decode_fill (hf : Condition.spec.HoldsOperand Condition.decode f)
    (hx : Operand.decode x = .error e) : Condition.decode (f.fill x) = .error e :=
  hf.fill_error (fun h => RecordSpec.exposes_fold (by decide) h fun _ _ => ⟨_, rfl⟩)
    (fun h => RecordSpec.exposes_fold (by decide) h fun _ _ => ⟨_, rfl⟩) hx

theorem Operand.decode_eq_inExpression (hstring : ∀ s, x ≠ .string s)
    (hx : Expression.decode x = .error e) : Operand.decode x = .error (.inExpression e) := by
  rw [Operand.decode_eq_within hstring, hx]
  rfl

theorem Clause.decode_eq_inCondition (hstring : ∀ s, x ≠ .string s)
    (hx : Condition.decode x = .error e) : Clause.decode x = .error (.inCondition e) := by
  cases x with
  | string s => exact absurd rfl (hstring s)
  | _ =>
    rw [Clause.decode, hx]
    · rfl
    · simp

/-- Each expression around a value that is no expression tells of it once more. -/
theorem Operand.decode_fillAll {b : Json} {stack : List Frame} (hb : ∀ s, b ≠ .string s)
    (he : Expression.decode b = .error e)
    (hstack : ∀ f ∈ stack, Expression.spec.HoldsOperand Expression.decode f) :
    Operand.decode (fillAll stack b) = .error (DecodeError.inExpression^[stack.length + 1] e) := by
  induction stack with
  | nil => exact Operand.decode_eq_inExpression hb he
  | cons f stack ih =>
    have hinner := ih fun g hg => hstack g (by simp [hg])
    have hfields := Expression.decode_fill (hstack f (by simp)) hinner
    rw [List.length_cons, Function.iterate_succ_apply']
    exact Operand.decode_eq_inExpression (f.fill_ne_string _) hfields

theorem DecodeError.message_inExpression (cause : DecodeError) :
    (inExpression cause).message = "invalid field expression: " ++ cause.message := rfl

theorem DecodeError.message_inExpression_iterate (n : Nat) (e : DecodeError) :
    (DecodeError.inExpression^[n] e).message =
      String.join (List.replicate n "invalid field expression: ") ++ e.message := by
  induction n with
  | zero => simp
  | succ n ih =>
    rw [Function.iterate_succ_apply', message_inExpression, ih, List.replicate_succ,
      String.join_cons, String.append_assoc]

end Expressions

section Documents

/-- Frames from a node to a condition in its allow rules or in those of a node below it. -/
inductive Node.AroundClause : List Frame → Prop
  | own {f g : Frame} (rulesBefore rulesAfter before after : List Json)
      (hf : Node.spec.Leads "allowRules" f.step) (hg : AllowRule.spec.Leads "conditions" g.step) :
      AroundClause [f, .item rulesBefore rulesAfter, g, .item before after]
  | inChild {f : Frame} {fs : List Frame} (before after : List Json)
      (hf : Node.spec.Leads "children" f.step) (hfs : AroundClause fs) :
      AroundClause (f :: .item before after :: fs)

/-- Frames from a policy document to a condition in it. -/
def Policy.AroundClause (fs : List Frame) : Prop :=
  ∃ f before after rest, Policy.spec.Leads "matches" f.step ∧ Node.AroundClause rest ∧
    fs = f :: .item before after :: rest

variable {f : Frame} {fs : List Frame}

theorem AllowRule.exposes_decode (hf : AllowRule.spec.Leads "conditions" f.step)
    (before after : List Json) :
    Exposes AllowRule.decode [f, .item before after] Clause.decode :=
  Exposes.item (RecordSpec.exposes_fold (by decide) hf fun _ _ => ⟨_, rfl⟩) before after

theorem Node.exposes_fold {β : Type} {inner : Json → Decoded β}
    (h : Exposes (Node.spec.fold (({ segment := Segment.blank } : Node), ([] : List (Tree Node)))
      (Tree.putMember Node.decode Node.put)) fs inner) : Exposes Node.decode fs inner := by
  have hfold : Node.decode = fun j =>
      Node.spec.fold (({ segment := Segment.blank } : Node), ([] : List (Tree Node)))
        (Tree.putMember Node.decode Node.put) j >>= fun p => pure (.node p.1 p.2) := by
    funext j
    exact Tree.decode_eq_fold Node.spec _ Node.put j
  rw [hfold]
  exact h.map _

theorem Node.exposes_allowRules (hf : Node.spec.Leads "allowRules" f.step)
    (before after : List Json) : Exposes Node.decode [f, .item before after] AllowRule.decode := by
  refine Exposes.item (Node.exposes_fold (RecordSpec.exposes_fold (by decide) hf ?_)) before after
  intro p x
  refine ⟨fun rules => ({ p.1 with allowRules := rules }, p.2), ?_⟩
  rw [Tree.putMember, if_neg (by decide), Node.put]
  cases Decoded.list AllowRule.decode x <;> rfl

theorem Node.exposes_children (hf : Node.spec.Leads "children" f.step)
    (before after : List Json) : Exposes Node.decode [f, .item before after] Node.decode := by
  refine Exposes.item (Node.exposes_fold (RecordSpec.exposes_fold (by decide) hf ?_)) before after
  intro p x
  exact ⟨fun ts => (p.1, ts), by rw [Tree.putMember, if_pos rfl]⟩

theorem Node.exposes_decode (h : Node.AroundClause fs) :
    Exposes Node.decode fs Clause.decode := by
  induction h with
  | own rulesBefore rulesAfter before after hf hg =>
    exact (Node.exposes_allowRules hf rulesBefore rulesAfter).append
      (AllowRule.exposes_decode hg before after)
  | inChild before after hf _ ih => exact (Node.exposes_children hf before after).append ih

theorem Policy.exposes_decode (h : Policy.AroundClause fs) :
    Exposes Policy.decode fs Clause.decode := by
  obtain ⟨f, before, after, rest, hf, hrest, rfl⟩ := h
  have htrees : Exposes Policy.decode [f, .item before after] Node.decode :=
    Exposes.item (RecordSpec.exposes_fold (by decide) hf fun _ _ => ⟨_, rfl⟩) before after
  exact htrees.append (Node.exposes_decode hrest)

end Documents

section TypeNames
variable {name : String} {f : Frame} {fs : List Frame}

theorem Frame.itemsAt_fill (f : Frame) (name : String) :
    (f.step = .member name ∧ ∀ x, (f.fill x).itemsAt name = (x.items?).getD []) ∨
      ∀ x y, (f.fill x).itemsAt name = (f.fill y).itemsAt name := by
  cases f with
  | item before after => exact .inr fun _ _ => rfl
  | member before other after =>
    simp only [Json.itemsAt, Json.get?, fill, List.lookup_append, List.lookup_cons]
    cases hbefore : before.lookup name with
    | some v => exact .inr fun _ _ => rfl
    | none =>
      by_cases h : other = name
      · exact .inl (by simp [step, h])
      · have hne : (name == other) = false := by simpa using Ne.symm h
        exact .inr (by simp [hne])

theorem RecordSpec.Leads.itemsAt_fill {r : RecordSpec} {field : String}
    (h : r.Leads field f.step) (hne : field ≠ name) (x y : Json) :
    (f.fill x).itemsAt name = (f.fill y).itemsAt name := by
  rcases f.itemsAt_fill name with ⟨hstep, -⟩ | hsame
  · have hmember : field = name := by simpa [RecordSpec.Leads, hstep, eq_comm] using h
    exact absurd hmember hne
  · exact hsame x y

theorem Frame.flatMap_itemsAt_fill {α : Type} {g : Json → List α} {x y : Json} (h : g x = g y)
    (f : Frame) (before after : List Json) (name : String) :
    ((f.fill ((Frame.item before after).fill x)).itemsAt name).flatMap g =
      ((f.fill ((Frame.item before after).fill y)).itemsAt name).flatMap g := by
  rcases f.itemsAt_fill name with ⟨-, hitems⟩ | hsame
  · rw [hitems, hitems]
    simp [fill, Json.items?, h]
  · rw [hsame]

theorem Node.typeNames_congr {j k : Json}
    (hrules : j.itemsAt "structureRules" = k.itemsAt "structureRules")
    (hchildren : (j.itemsAt "children").flatMap Node.typeNames =
      (k.itemsAt "children").flatMap Node.typeNames) : Node.typeNames j = Node.typeNames k := by
  rw [Node.typeNames, Node.typeNames, Node.ownTypeNames, Node.ownTypeNames, hrules]
  simp [hchildren]

theorem Node.typeNames_fillAll (h : Node.AroundClause fs) (x y : Json) :
    Node.typeNames (fillAll fs x) = Node.typeNames (fillAll fs y) := by
  induction h with
  | own rulesBefore rulesAfter before after hf hg =>
    exact Node.typeNames_congr (hf.itemsAt_fill (by decide) _ _)
      (congrArg (List.flatMap Node.typeNames) (hf.itemsAt_fill (by decide) _ _))
  | inChild before after hf _ ih =>
    exact Node.typeNames_congr (hf.itemsAt_fill (by decide) _ _)
      (Frame.flatMap_itemsAt_fill ih _ before after "children")

theorem Policy.unknownType?_fillAll (h : Policy.AroundClause fs) (x y : Json) :
    Policy.unknownType? (fillAll fs x) = Policy.unknownType? (fillAll fs y) := by
  obtain ⟨f, before, after, rest, hf, hrest, rfl⟩ := h
  rw [Policy.unknownType?, Policy.unknownType?, fillAll_cons, fillAll_cons, fillAll_cons,
    fillAll_cons, Frame.flatMap_itemsAt_fill (Node.typeNames_fillAll hrest x y)]

end TypeNames

theorem Policy.decode_of_ofJson {document : Json} {p : Policy}
    (h : Policy.ofJson document = .ok p) :
    Policy.unknownType? document = none ∧ Policy.decode document = .ok p := by
  unfold Policy.ofJson at h
  split at h
  · cases h
  · next hunknown =>
    split at h
    · cases h
    · next q hq =>
      split at h
      · cases h
      · obtain rfl := Except.ok.inj h
        exact ⟨hunknown, hq⟩

/-- The error of a condition is why the whole policy is invalid, if all else in it is fine. -/
theorem Policy.ofJson_fillAll {document : List Frame} {x z : Json} {p : Policy} {e : DecodeError}
    (hdocument : Policy.AroundClause document) (hp : Policy.ofJson (fillAll document z) = .ok p)
    (hx : Clause.decode x = .error e) :
    Policy.ofJson (fillAll document x) = .error (.undecodable e) := by
  obtain ⟨hunknown, hdecode⟩ := Policy.decode_of_ofJson hp
  have herror : Policy.decode (fillAll document x) = .error e :=
    (Policy.exposes_decode hdocument z ⟨p, hdecode⟩).2 x e hx
  rw [Policy.unknownType?_fillAll hdocument z x] at hunknown
  exact Policy.ofJson_of_unknownType?_eq_none hunknown herror

theorem Operand.decode_string (s : String) : Operand.decode (.string s) = .ok (.literal s) := by
  rw [decode]

theorem Expression.decode_texts (a b o : String) :
    Expression.decode (.object [("fieldA", .string a), ("fieldB", .string b),
      ("operator", .string o)]) = (do
        let o ← Operator.decode (.string o)
        return ⟨.literal a, o, .literal b⟩) := by
  rw [decode, RecordSpec.fold_object rfl rfl]
  simp only [List.foldlM_cons, List.foldlM_nil, putWith, Operand.decode_string, bind_pure]
  rfl

/-- Expressions that hold each other, with a value inside that is no expression, are refused as an
operand with the words for a bad expression once for each of them and once for the value. As an
operand of a condition in a policy, where all else is well formed, they make the policy invalid,
with the words for a bad condition in front. -/
theorem Policy.nested_expression_reason {b : Json} {e : DecodeError} {stack : List Frame}
    (hb : ∀ s, b ≠ .string s) (he : Expression.decode b = .error e)
    (hstack : ∀ f ∈ stack, Expression.spec.HoldsOperand Expression.decode f) :
    let text := String.join (List.replicate (stack.length + 1) "invalid field expression: ") ++
      e.message
    (∃ cause, Operand.decode (fillAll stack b) = .error cause ∧ cause.message = text) ∧
    ∀ (c : Frame) (document : List Frame), Condition.spec.HoldsOperand Condition.decode c →
      Policy.AroundClause document → (∃ z p, Policy.ofJson (fillAll document z) = .ok p) →
      ∃ failure, Policy.ofJson (fillAll document (c.fill (fillAll stack b))) = .error failure ∧
        failure.kind = .model ∧ failure.reason = "invalid condition: " ++ text := by
  intro text
  have hoperand := Operand.decode_fillAll hb he hstack
  have hmessage := DecodeError.message_inExpression_iterate (stack.length + 1) e
  refine ⟨⟨_, hoperand, hmessage⟩, ?_⟩
  rintro c document hc hdocument ⟨z, p, hp⟩
  have hclause := Clause.decode_eq_inCondition (c.fill_ne_string _)
    (Condition.decode_fill hc hoperand)
  exact ⟨_, Policy.ofJson_fillAll hdocument hp hclause, rfl,
    congrArg ("invalid condition: " ++ ·) hmessage⟩

/-- An unknown operator inside two expressions, in a condition of a node that lies below another
one. -/
theorem Policy.nested_expression_reason_operator :
    let b : Json := .object [("fieldA", .string "x"), ("fieldB", .string "1"),
      ("operator", .string "^")]
    let left : Frame := .member [] "fieldA" [("fieldB", .string "1"), ("operator", .string "+")]
    let right : Frame := .member [("fieldA", .string "y")] "fieldB" [("operator", .string "*")]
    let c : Frame := .member [("comparator", .string "==")] "fieldA" [("fieldB", .string "b")]
    let others (collection wildcard : String) : List (String × Json) :=
      [("collectionPath", .string collection), ("isStructureExclusive", .bool false),
        ("isWildCardRecursive", .bool false), ("structureRules", .array []),
        ("wildcardName", .string wildcard)]
    let document : List Frame :=
      [.member [("customFunctions", .array [])] "matches" [("topLevelMatchPath", .string "/x")],
        .item [] [], .member [("allowRules", .array [])] "children" (others "users" "uid"),
        .item [] [], .member [] "allowRules" (("children", .array []) :: others "posts" "id"),
        .item [] [], .member [] "conditions" [("methods", .array [.string "get"]),
          ("requireAuth", .bool false), ("requiredClaims", .array [])],
        .item [.string "true"] []]
    (∀ s, b ≠ .string s) ∧ Expression.decode b = .error (.unknownOperator "^") ∧
      (∀ f ∈ [left, right], Expression.spec.HoldsOperand Expression.decode f) ∧
      Condition.spec.HoldsOperand Condition.decode c ∧ Policy.AroundClause document ∧
      (∃ z p, Policy.ofJson (fillAll document z) = .ok p) ∧
      ∃ failure, Policy.ofJson (fillAll document (c.fill (left.fill (right.fill b)))) =
          .error failure ∧ failure.kind = .model ∧
        failure.reason = "invalid condition: invalid field expression: " ++
          "invalid field expression: invalid field expression: unknown operator `^`" := by
  intro b left right c others document
  have hb : ∀ s, b ≠ .string s := by simp [b]
  have he : Expression.decode b = .error (.unknownOperator "^") :=
    Expression.decode_texts "x" "1" "^"
  have hleft : Expression.decode (left.fill (.string "")) =
      .ok ⟨.literal "", .arithmetic .add, .literal "1"⟩ := Expression.decode_texts "" "1" "+"
  have hright : Expression.decode (right.fill (.string "")) =
      .ok ⟨.literal "y", .arithmetic .mul, .literal ""⟩ := Expression.decode_texts "y" "" "*"
  have hstack : ∀ f ∈ [left, right], Expression.spec.HoldsOperand Expression.decode f := by
    intro f hf
    rw [List.mem_pair] at hf
    rcases hf with rfl | rfl
    · exact ⟨.inl (.inl rfl), _, _, hleft⟩
    · exact ⟨.inr (.inl rfl), _, _, hright⟩
  have hcondition : Condition.decode (c.fill (.string "")) =
      .ok { left := .literal "", comparator := .eq, right := .literal "b" } := by
    rw [Condition.decode, Frame.fill, RecordSpec.fold_object rfl rfl]
    simp only [List.cons_append, List.nil_append, List.foldlM_cons, Condition.put,
      Operand.decode_string]
    rfl
  have hc : Condition.spec.HoldsOperand Condition.decode c := ⟨.inl (.inl rfl), _, _, hcondition⟩
  have hdocument : Policy.AroundClause document :=
    ⟨_, [], [], _, .inl rfl, .inChild [] [] (.inl rfl)
      (.own [] [] [.string "true"] [] (.inl rfl) (.inl rfl)), rfl⟩
  have hvalid : ∃ p, Policy.ofJson (fillAll document (.string "false")) = .ok p := by
    let rule : AllowRule := { methods := [.get], conditions := [.raw "true", .raw "false"] }
    let posts : Node := { segment := ⟨"posts", "id", false⟩, allowRules := [rule] }
    let p : Policy := ⟨"/x", [.node { segment := ⟨"users", "uid", false⟩ } [.node posts []]], []⟩
    have hgrants : ∀ t ∈ p.trees, Policy.Grants t := by
      simp [p, posts, rule, Policy.Grants, Node.grantsMethods]
    exact ⟨p, Policy.ofJson_toJson hgrants⟩
  have htext : "invalid condition: " ++ (String.join
      (List.replicate ([left, right].length + 1) "invalid field expression: ") ++
        (DecodeError.unknownOperator "^").message) =
      "invalid condition: invalid field expression: " ++
        "invalid field expression: invalid field expression: unknown operator `^`" := by
    decide +kernel
  obtain ⟨failure, hfailure, hkind, hreason⟩ :=
    (Policy.nested_expression_reason hb he hstack).2 c document hc hdocument ⟨_, hvalid⟩
  exact ⟨hb, he, hstack, hc, hdocument, ⟨_, hvalid⟩, failure, hfailure, hkind,
    hreason.trans htext⟩

end AccessRules
