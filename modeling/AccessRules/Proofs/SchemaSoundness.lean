import AccessRules.Policy.Load
import AccessRules.Proofs.Acceptance
import AccessRules.Proofs.Decoding

/-! The schema of policy documents is sound for the decoder: what the schema accepts is decoded.
Each part of a policy has its own lemma, and the parts that contain themselves, operands and nodes,
are settled by induction on the size of the document. -/
namespace AccessRules
namespace Policy
open Schema

/-- The value satisfies a schema that may refer to the parts of policies. -/
abbrev Fits (j : Json) (s : Schema) : Prop := Accepts schema.definitions j s

theorem string_decodes {j : Json} (h : Fits j (ofType .string)) : (Decoded.string j).Succeeds := by
  obtain ⟨s, rfl⟩ := holds_string_iff.1 (accepts_ofType.1 h)
  exact Decoded.succeeds_ok s

theorem bool_decodes {j : Json} (h : Fits j (ofType .boolean)) : (Decoded.bool j).Succeeds := by
  obtain ⟨b, rfl⟩ := holds_boolean_iff.1 (accepts_ofType.1 h)
  exact Decoded.succeeds_ok b

theorem list_decodes {α : Type} {f : Json → Decoded α} {j : Json} {item : Schema}
    (h : Fits j (listOf item)) (hf : ∀ x, Fits x item → (f x).Succeeds) :
    (Decoded.list f j).Succeeds := by
  obtain ⟨xs, rfl, hxs⟩ := accepts_listOf.1 h
  exact Decoded.list_succeeds fun x hx => hf x (hxs x hx)

section Words

/-! The words of the schema are those that the decoder knows. -/

theorem methodWords_eq : methodWords = Method.all.map Method.token := rfl
theorem comparatorWords_eq : comparatorWords = Comparator.all.map Comparator.token := rfl
theorem operatorWords_eq : operatorWords = Operator.all.map Operator.token := rfl
theorem valueTypeWords_eq : valueTypeWords = ValueType.all.map ValueType.token := rfl

end Words

theorem method_decodes {j : Json} (h : Fits j (see "#/$defs/ruleMethod")) :
    (Method.decode j).Succeeds := by
  obtain ⟨w, hw, rfl⟩ := passes_oneOfWords.1 ((accepts_see rfl).1 h)
  rw [methodWords_eq] at hw
  obtain ⟨m, -, rfl⟩ := List.mem_map.1 hw
  exact ⟨m, by simp [Method.decode, Decoded.word, Decoded.word.find]⟩

theorem comparator_decodes {j : Json} (h : Fits j (see "#/$defs/comparator")) :
    (Comparator.decode j).Succeeds := by
  obtain ⟨w, hw, rfl⟩ := passes_oneOfWords.1 ((accepts_see rfl).1 h)
  rw [comparatorWords_eq] at hw
  obtain ⟨c, -, rfl⟩ := List.mem_map.1 hw
  exact ⟨c, by simp [Comparator.decode, Decoded.word, Decoded.word.find]⟩

theorem operator_decodes {j : Json} (h : Fits j (see "#/$defs/operator")) :
    (Operator.decode j).Succeeds := by
  obtain ⟨w, hw, rfl⟩ := passes_oneOfWords.1 ((accepts_see rfl).1 h)
  rw [operatorWords_eq] at hw
  obtain ⟨o, -, rfl⟩ := List.mem_map.1 hw
  exact ⟨o, by simp [Operator.decode, Decoded.string, bind, Except.bind, pure, Except.pure]⟩

theorem valueType_decodes {j : Json} (h : Fits j (see "#/$defs/firestoreType")) :
    (ValueType.decode j).Succeeds := by
  obtain ⟨w, hw, rfl⟩ := passes_oneOfWords.1 ((accepts_see rfl).1 h)
  rw [valueTypeWords_eq] at hw
  obtain ⟨t, -, rfl⟩ := List.mem_map.1 hw
  exact ⟨t, by simp [ValueType.decode, Decoded.string, bind, Except.bind, pure, Except.pure]⟩

theorem operand_cases {j : Json} (h : Fits j (see "#/$defs/operand")) :
    (∃ s, j = .string s) ∨ Fits j (see "#/$defs/field") := by
  obtain ⟨s, hs, hpass⟩ := exists_passes_of_oneOf (passes_singleton.1 ((accepts_see rfl).1 h))
  simp only [List.mem_cons, List.not_mem_nil, or_false] at hs
  rcases hs with rfl | rfl
  · exact .inl (holds_string_iff.1 (passes_ofType.1 hpass))
  · -- The reference in place is followed with a smaller budget, which a record does not spend.
    have hrecord : Passes schema.definitions
        (follow schema.definitions j (partsOf schema.definitions j) 9) j expressionSchema :=
      passes_see.1 hpass
    have hfits : Fits j (see "#/$defs/field") :=
      (accepts_see (s := expressionSchema) rfl).2 (passes_record.2 (passes_record.1 hrecord))
    exact .inr hfits

/-- A value that fits a record schema is decoded as a record if each of its fields is put in when
its value fits. The invariant speaks of the names put in so far. -/
theorem record_ok {α : Type} (r : RecordSpec) (blank : α) (put : α → String → Json → Decoded α)
    {P : List String → α → Prop} {j : Json} {follow : String → List Violation}
    {members : List (String × Schema)} {names : List String}
    (h : Passes schema.definitions follow j (record members names))
    (hreq : ∀ name ∈ r.requiredNames, name ∈ names) (hblank : P [] blank)
    (hput : r.names.Forall fun name => ∀ x, sizeOf x < sizeOf j →
      (∀ s, members.lookup name = some s → Fits x s) → ∀ seen a, P seen a →
        ∃ b, put a name x = .ok b ∧ P (name :: seen) b) :
    ∃ a seen, r.fold blank put j = .ok a ∧ P seen a ∧ ∀ name ∈ r.requiredNames, name ∈ seen := by
  obtain ⟨ms, rfl, hmembers, hnames⟩ := passes_record.1 h
  refine RecordSpec.fold_ok hblank ?_ fun name hn => hnames name (hreq name hn)
  intro m hm hname
  exact List.forall_iff_forall_mem.1 hput m.1 hname m.2 (Json.sizeOf_member_lt hm) (hmembers m hm)

theorem record_decodes {α : Type} {r : RecordSpec} {blank : α}
    {put : α → String → Json → Decoded α} {j : Json} {follow : String → List Violation}
    {members : List (String × Schema)} {names : List String}
    (h : Passes schema.definitions follow j (record members names))
    (hreq : ∀ name ∈ r.requiredNames, name ∈ names)
    (hput : r.names.Forall fun name => ∀ x, sizeOf x < sizeOf j →
      (∀ s, members.lookup name = some s → Fits x s) → ∀ a, (put a name x).Succeeds) :
    (r.fold blank put j).Succeeds := by
  have hput' : r.names.Forall fun name => ∀ x, sizeOf x < sizeOf j →
      (∀ s, members.lookup name = some s → Fits x s) → ∀ (_ : List String) (a : α), True →
        ∃ b, put a name x = .ok b ∧ True := by
    refine hput.imp fun name hname x hlt hx _ a _ => ?_
    obtain ⟨b, hb⟩ := hname x hlt hx a
    exact ⟨b, hb, trivial⟩
  obtain ⟨a, -, ha, -⟩ := record_ok r blank put (P := fun _ _ => True) h hreq trivial hput'
  exact ⟨a, ha⟩

theorem operand_decodes (j : Json) (h : Fits j (see "#/$defs/operand")) :
    (Operand.decode j).Succeeds := by
  rcases operand_cases h with ⟨s, rfl⟩ | h
  · exact ⟨.literal s, by rw [Operand.decode]⟩
  · have hj : ∀ s, j ≠ .string s := by
      rintro s rfl
      obtain ⟨ms, hms, -⟩ := passes_record.1 ((accepts_see (s := expressionSchema) rfl).1 h)
      cases hms
    rw [Operand.decode_eq_within hj]
    refine Decoded.within_succeeds (Decoded.Succeeds.bind_pure ?_ _) _
    refine record_decodes ((accepts_see rfl).1 h) (by decide) ?_
    exact ⟨fun x _ hx e => (operand_decodes x (hx _ rfl)).bind_pure _,
      fun x _ hx e => (operator_decodes (hx _ rfl)).bind_pure _,
      fun x _ hx e => (operand_decodes x (hx _ rfl)).bind_pure _⟩
termination_by sizeOf j

theorem unlessNull_decodes {α : Type} {f : Json → Decoded α} {j : Json}
    (h : j ≠ .null → (f j).Succeeds) : (Decoded.unlessNull f j).Succeeds := by
  cases j with
  | null => exact Decoded.succeeds_ok none
  | _ => exact (h (by simp)).bind_pure some

theorem condition_decodes {j : Json} (h : Fits j (see "#/$defs/condition")) :
    (Condition.decode j).Succeeds :=
  record_decodes ((accepts_see rfl).1 h) (by decide)
    ⟨fun x _ hx _ => (operand_decodes x (hx _ rfl)).bind_pure _,
      fun x _ hx _ => (comparator_decodes (hx _ rfl)).bind_pure _,
      fun x _ hx _ => (operand_decodes x (hx _ rfl)).bind_pure _,
      fun x _ hx _ => (bool_decodes (hx _ rfl)).bind_pure _,
      fun x _ hx _ => (unlessNull_decodes fun _ => string_decodes (hx _ rfl)).bind_pure _⟩

theorem clause_decodes {j : Json}
    (h : Fits j (.all [.oneOf [ofType .string, see "#/$defs/condition"]])) :
    (Clause.decode j).Succeeds := by
  obtain ⟨s, hs, hpass⟩ := exists_passes_of_oneOf (passes_singleton.1 (accepts_iff_passes.1 h))
  simp only [List.mem_cons, List.not_mem_nil, or_false] at hs
  rcases hs with rfl | rfl
  · obtain ⟨s, rfl⟩ := holds_string_iff.1 (passes_ofType.1 hpass)
    exact Decoded.succeeds_ok _
  · have hcondition : Fits j (see "#/$defs/condition") := accepts_iff_passes.2 hpass
    obtain ⟨ms, rfl, -⟩ := passes_record.1 ((accepts_see (s := conditionSchema) rfl).1 hcondition)
    exact Decoded.within_succeeds ((condition_decodes hcondition).bind_pure _) _

theorem claimValue_decodes {j : Json}
    (h : Fits j (.all [.type [.string, .number, .boolean, .null]])) :
    (Decoded.unlessNull ClaimValue.decode j).Succeeds := by
  obtain ⟨t, ht, hj⟩ := passes_type.1 (passes_singleton.1 (accepts_iff_passes.1 h))
  simp only [List.mem_cons, List.not_mem_nil, or_false] at ht
  rcases ht with rfl | rfl | rfl | rfl <;> cases j <;>
    simp only [JsonType.holds, Bool.false_eq_true] at hj
  all_goals exact Decoded.succeeds_ok _

theorem claim_decodes {j : Json} (h : Fits j (see "#/$defs/requiredClaim")) :
    (Claim.decode j).Succeeds :=
  record_decodes ((accepts_see rfl).1 h) (by decide)
    ⟨fun x _ hx _ => (string_decodes (hx _ rfl)).bind_pure _,
      fun x _ hx _ => (claimValue_decodes (hx _ rfl)).bind_pure _⟩

theorem fieldRule_decodes {j : Json} (h : Fits j (see "#/$defs/structureRule")) :
    (FieldRule.decode j).Succeeds :=
  record_decodes ((accepts_see rfl).1 h) (by decide)
    ⟨fun x _ hx _ => (string_decodes (hx _ rfl)).bind_pure _,
      fun x _ hx _ => (list_decodes (hx _ rfl) fun _ => valueType_decodes).bind_pure _,
      fun x _ hx _ => (bool_decodes (hx _ rfl)).bind_pure _⟩

theorem methods_decode {j : Json} (h : Fits j (nonemptyListOf (see "#/$defs/ruleMethod"))) :
    ∃ ms, Decoded.list Method.decode j = .ok ms ∧ ms ≠ [] := by
  obtain ⟨xs, rfl, hne, hxs⟩ := passes_nonemptyListOf.1 (accepts_iff_passes.1 h)
  have hitem : ∀ x ∈ xs, ∃ m, Method.decode x = .ok m ∧ True := by
    intro x hx
    obtain ⟨m, hm⟩ := method_decodes (hxs x hx)
    exact ⟨m, hm, trivial⟩
  obtain ⟨ms, hms, hlen, -⟩ := Decoded.list_ok hitem
  refine ⟨ms, hms, ?_⟩
  rintro rfl
  exact hne (List.length_eq_zero_iff.1 hlen.symm)

theorem allowRule_decodes {j : Json} (h : Fits j (see "#/$defs/allowRule")) :
    ∃ r, AllowRule.decode j = .ok r ∧ r.methods ≠ [] := by
  obtain ⟨r, seen, hr, hmethods, hseen⟩ := record_ok AllowRule.spec { methods := [] } AllowRule.put
    (P := fun seen r => "methods" ∈ seen → r.methods ≠ []) ((accepts_see rfl).1 h) (by decide)
    (by simp)
    ⟨fun x _ hx seen r _ => by
        obtain ⟨ms, hms, hne⟩ := methods_decode (hx _ rfl)
        exact ⟨{ r with methods := ms }, by simp only [AllowRule.put, hms]; rfl, fun _ => hne⟩,
      fun x _ hx seen r hr => (list_decodes (hx _ rfl) fun _ => clause_decodes).bind_pure_ok
        fun _ hmem => hr (by simpa using hmem),
      fun x _ hx seen r hr => (bool_decodes (hx _ rfl)).bind_pure_ok
        fun _ hmem => hr (by simpa using hmem),
      fun x _ hx seen r hr => (list_decodes (hx _ rfl) fun _ => claim_decodes).bind_pure_ok
        fun _ hmem => hr (by simpa using hmem)⟩
  exact ⟨r, hr, hmethods (hseen "methods" (by decide))⟩

theorem allowRules_decode {j : Json} (h : Fits j (listOf (see "#/$defs/allowRule"))) :
    ∃ rs, Decoded.list AllowRule.decode j = .ok rs ∧ ∀ r ∈ rs, r.methods ≠ [] := by
  obtain ⟨xs, rfl, hxs⟩ := accepts_listOf.1 h
  obtain ⟨rs, hrs, -, hall⟩ := Decoded.list_ok fun x hx => allowRule_decodes (hxs x hx)
  exact ⟨rs, hrs, hall⟩

/-- All nodes of a tree grant methods in each of their rules. -/
def Grants (t : Tree Node) : Prop := ∀ n ∈ t.labels, n.grantsMethods = true

theorem grants_node {n : Node} {ts : List (Tree Node)} :
    Grants (.node n ts) ↔ n.grantsMethods = true ∧ ∀ t ∈ ts, Grants t := by
  simp only [Grants, Tree.labels_node, List.forall_mem_cons, List.mem_flatMap]
  constructor
  · rintro ⟨hn, hts⟩
    exact ⟨hn, fun t ht k hk => hts k ⟨t, ht, hk⟩⟩
  · rintro ⟨hn, hts⟩
    exact ⟨hn, fun k ⟨t, ht, hk⟩ => hts t ht k hk⟩

theorem node_decodes (j : Json) (h : Fits j (see "#/$defs/match")) :
    ∃ t, Node.decode j = .ok t ∧ Grants t := by
  have hlabel {p : Node × List (Tree Node)} {name : String} {x : Json}
      (hp : p.1.grantsMethods = true ∧ ∀ t ∈ p.2, Grants t) (hname : name ≠ "children")
      (hput : ∃ n, Node.put p.1 name x = .ok n ∧ n.grantsMethods = true) :
      ∃ q, Tree.putMember Node.decode Node.put p name x = .ok q ∧
        q.1.grantsMethods = true ∧ ∀ t ∈ q.2, Grants t := by
    obtain ⟨q, hq, hq1, hq2⟩ := Tree.putMember_label_ok hname hput
    exact ⟨q, hq, hq1, hq2 ▸ hp.2⟩
  obtain ⟨p, seen, hp, hgrants, -⟩ := record_ok Node.spec
    (({ segment := Segment.blank } : Node), ([] : List (Tree Node)))
    (Tree.putMember Node.decode Node.put)
    (P := fun _ p => p.1.grantsMethods = true ∧ ∀ t ∈ p.2, Grants t) ((accepts_see rfl).1 h)
    (by decide) ⟨rfl, by simp⟩
    ⟨fun x _ hx seen p hp => hlabel hp (by decide)
        (((string_decodes (hx _ rfl)).bind_pure _).bind_pure_ok fun _ => hp.1),
      fun x _ hx seen p hp => hlabel hp (by decide)
        (((string_decodes (hx _ rfl)).bind_pure _).bind_pure_ok fun _ => hp.1),
      fun x _ hx seen p hp => hlabel hp (by decide)
        (((bool_decodes (hx _ rfl)).bind_pure _).bind_pure_ok fun _ => hp.1),
      fun x _ hx seen p hp => by
        obtain ⟨rs, hrs, hall⟩ := allowRules_decode (hx _ rfl)
        refine hlabel hp (by decide) ⟨{ p.1 with allowRules := rs }, ?_, ?_⟩
        · simp only [Node.put, hrs]
          rfl
        · simpa [Node.grantsMethods] using hall,
      fun x _ hx seen p hp => hlabel hp (by decide)
        ((list_decodes (hx _ rfl) fun _ => fieldRule_decodes).bind_pure_ok fun _ => hp.1),
      fun x _ hx seen p hp => hlabel hp (by decide)
        ((bool_decodes (hx _ rfl)).bind_pure_ok fun _ => hp.1),
      fun x hlt hx seen p hp => by
        obtain ⟨xs, rfl, hxs⟩ := accepts_listOf.1 (hx _ rfl)
        have hchild : ∀ y ∈ xs, ∃ t, Node.decode y = .ok t ∧ Grants t := by
          intro y hy
          have := Json.sizeOf_item_lt hy
          exact node_decodes y (hxs y hy)
        obtain ⟨ts, hts, -, hall⟩ := Decoded.list_ok hchild
        obtain ⟨q, hq, hq1, hq2⟩ :=
          Tree.putMember_children_ok (Q := fun ts => ∀ t ∈ ts, Grants t) ⟨ts, hts, hall⟩
        exact ⟨q, hq, hq1 ▸ hp.1, hq2⟩⟩
  refine ⟨.node p.1 p.2, ?_, grants_node.2 hgrants⟩
  rw [Node.decode, Tree.decode_eq_fold, ← Node.decode, hp]
  rfl
termination_by sizeOf j

theorem policy_decodes {j : Json} (h : Fits j policySchema) :
    ∃ p, Policy.decode j = .ok p ∧ ∀ t ∈ p.trees, Grants t := by
  obtain ⟨p, seen, hp, hgrants, -⟩ := record_ok Policy.spec { topLevel := "" } Policy.put
    (P := fun _ p => ∀ t ∈ p.trees, Grants t) (accepts_iff_passes.1 h) (by decide) (by simp)
    ⟨fun x _ hx seen p hp => (string_decodes (hx _ rfl)).bind_pure_ok fun _ => hp,
      fun x _ hx seen p hp => by
        obtain ⟨xs, rfl, hxs⟩ := accepts_listOf.1 (hx _ rfl)
        obtain ⟨ts, hts, -, hall⟩ := Decoded.list_ok fun y hy => node_decodes y (hxs y hy)
        refine ⟨{ p with trees := ts }, ?_, hall⟩
        simp only [Policy.put, hts]
        rfl,
      fun x _ hx seen p hp =>
        (list_decodes (hx _ rfl) fun _ => string_decodes).bind_pure_ok fun _ => hp⟩
  exact ⟨p, hp, hgrants⟩

theorem idleNode?_eq_none {p : Policy} (h : ∀ t ∈ p.trees, Grants t) : p.idleNode? = none := by
  rw [idleNode?, List.find?_eq_none]
  intro n hn
  obtain ⟨t, ht, hmem⟩ := List.mem_flatMap.1 hn
  simp [h t ht n hmem]

section TypeNames

theorem exists_of_mem_itemsAt {name : String} {ms : List (String × Json)} {x : Json}
    (h : x ∈ (Json.object ms).itemsAt name) : ∃ xs, (name, .array xs) ∈ ms ∧ x ∈ xs := by
  unfold Json.itemsAt Json.get? at h
  cases hl : ms.lookup name with
  | none => simp [hl] at h
  | some v =>
    obtain ⟨before, after, rfl, -⟩ := List.lookup_eq_some_iff.1 hl
    cases v with
    | array xs => exact ⟨xs, by simp, by simpa [hl, Json.items?] using h⟩
    | _ => simp [hl, Json.items?] at h

theorem fits_of_mem_itemsAt {ms : List (String × Json)} {members : List (String × Schema)}
    {name : String} {item : Schema} {x : Json}
    (hmembers : ∀ m ∈ ms, ∀ s, members.lookup m.1 = some s → Fits m.2 s)
    (hname : members.lookup name = some (listOf item))
    (h : x ∈ (Json.object ms).itemsAt name) : Fits x item := by
  obtain ⟨xs, hxs, hx⟩ := exists_of_mem_itemsAt h
  obtain ⟨ys, hys, hitems⟩ := accepts_listOf.1 (hmembers _ hxs _ hname)
  obtain rfl := Json.array.inj hys
  exact hitems x hx

theorem known_of_mem_ownTypeNames {j : Json} (h : Fits j (see "#/$defs/match")) {name : String}
    (hname : name ∈ Node.ownTypeNames j) : (ValueType.ofToken? name).isSome = true := by
  obtain ⟨ms, rfl, hmembers, -⟩ := passes_record.1 ((accepts_see (s := nodeSchema) rfl).1 h)
  obtain ⟨rule, hrule, hmem⟩ := List.mem_flatMap.1 hname
  have hfits : Fits rule (see "#/$defs/structureRule") := fits_of_mem_itemsAt hmembers rfl hrule
  obtain ⟨rs, rfl, hrs, -⟩ := passes_record.1 ((accepts_see (s := fieldRuleSchema) rfl).1 hfits)
  obtain ⟨x, hx, hs⟩ := List.mem_filterMap.1 hmem
  have htype : Fits x (see "#/$defs/firestoreType") := fits_of_mem_itemsAt hrs rfl hx
  obtain ⟨w, hw, rfl⟩ := passes_oneOfWords.1 ((accepts_see rfl).1 htype)
  rw [valueTypeWords_eq] at hw
  obtain ⟨t, -, rfl⟩ := List.mem_map.1 hw
  obtain rfl := Option.some.inj hs
  simp

/-- The scan of a raw node meets known type names only. -/
theorem known_of_mem_typeNames (j : Json) (h : Fits j (see "#/$defs/match")) {name : String}
    (hname : name ∈ Node.typeNames j) : (ValueType.ofToken? name).isSome = true := by
  rw [Node.typeNames, List.mem_append] at hname
  rcases hname with hname | hname
  · exact known_of_mem_ownTypeNames h hname
  · obtain ⟨⟨child, hchild⟩, -, hmem⟩ := List.mem_flatMap.1 hname
    have := Json.sizeOf_lt_of_mem_itemsAt hchild
    obtain ⟨ms, rfl, hmembers, -⟩ := passes_record.1 ((accepts_see (s := nodeSchema) rfl).1 h)
    exact known_of_mem_typeNames child (fits_of_mem_itemsAt hmembers rfl hchild) hmem
termination_by sizeOf j

theorem unknownType?_eq_none {j : Json} (h : Fits j policySchema) : unknownType? j = none := by
  obtain ⟨ms, rfl, hmembers, -⟩ := passes_record.1 (accepts_iff_passes.1 h)
  rw [unknownType?, List.find?_eq_none]
  intro name hname
  obtain ⟨x, hx, hmem⟩ := List.mem_flatMap.1 hname
  have hknown := known_of_mem_typeNames x (fits_of_mem_itemsAt hmembers rfl hx) hmem
  simp [Option.isSome_iff_ne_none.1 hknown]

end TypeNames

theorem accepts_iff_fits {j : Json} : schema.accepts j = true ↔ Fits j policySchema := by
  simp [SchemaDocument.accepts, SchemaDocument.violations, Accepts, schema]

/-- An accepted document is a policy. -/
theorem ofJson_of_accepts {j : Json} (h : schema.accepts j = true) : ∃ p, ofJson j = .ok p := by
  have hfits := accepts_iff_fits.1 h
  obtain ⟨p, hp, hgrants⟩ := policy_decodes hfits
  refine ⟨p, ?_⟩
  simp [ofJson, unknownType?_eq_none hfits, hp, idleNode?_eq_none hgrants]

/-- The schema is sound for the decoder, so that compiling a document fails with violations of the
schema or gives a text. -/
theorem schema_sound (j : Json) :
    (schema.accepts j = true → ∃ p, ofJson j = .ok p) ∧
      ∀ style : Style,
        (∃ vs, vs ≠ [] ∧ compileDocument schema style j = .error (.violated vs)) ∨
          ∃ text, compileDocument schema style j = .ok text := by
  refine ⟨ofJson_of_accepts, fun style => ?_⟩
  cases hv : schema.violations j with
  | nil =>
    have haccepts : schema.accepts j = true := by simp [SchemaDocument.accepts, hv]
    obtain ⟨p, hp⟩ := ofJson_of_accepts haccepts
    refine .inr ⟨p.compile.render style, ?_⟩
    simp only [compileDocument, load, SchemaDocument.validate, hv, hp]
    rfl
  | cons v vs =>
    refine .inl ⟨v :: vs, by simp, ?_⟩
    simp only [compileDocument, load, SchemaDocument.validate, hv]
    rfl

/-- A document with a nested expression and an unknown member is accepted and decoded. -/
theorem schema_sound_nested :
    let operand : Json := .object
      [("fieldA", .string "resource.data.count"), ("fieldB", .string "1"),
        ("operator", .string "+")]
    let rule : Json := .object
      [("conditions", .array [.object [("comparator", .string "<="), ("fieldA", operand),
        ("fieldB", .string "100")]]), ("methods", .array [.string "read"])]
    let node : Json := .object
      [("allowRules", .array [rule]), ("collectionPath", .string "users"), ("note", .null),
        ("wildcardName", .string "uid")]
    let document : Json := .object
      [("matches", .array [node]), ("topLevelMatchPath", .string "/documents")]
    schema.accepts document = true ∧ ∃ p, ofJson document = .ok p := by
  intro operand rule node document
  have haccepts : schema.accepts document = true := by decide +kernel
  exact ⟨haccepts, (schema_sound document).1 haccepts⟩

end Policy
end AccessRules
