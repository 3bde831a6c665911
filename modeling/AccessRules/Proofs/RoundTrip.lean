import AccessRules.Policy.Encode
import AccessRules.Proofs.SchemaSoundness

/-! Policies written and read back. The JSON value of each part of a policy is decoded to that part,
and satisfies the schema of that part. So a policy whose rules all grant a method is loaded from its
own JSON value, and every policy that was decoded from any document is such a policy. -/
namespace AccessRules

theorem RecordSpec.fold_object {α : Type} {r : RecordSpec} {blank : α}
    {put : α → String → Json → Decoded α} {ms : List (String × Json)}
    (hknown : (ms.all fun m => r.names.contains m.1) = true)
    (hreq : (r.requiredNames.all fun name => (ms.map Prod.fst).contains name) = true) :
    r.fold blank put (.object ms) = ms.foldlM (fun a m => put a m.1 m.2) blank := by
  have hall : (ms.filter fun m => r.names.contains m.1) = ms :=
    List.filter_eq_self.2 (List.all_eq_true.1 hknown)
  have hmissing : r.missing? ms = none := by
    apply missing?_eq_none
    intro name hname
    simpa using List.all_eq_true.1 hreq name hname
  rw [fold, foldWith_object, hall, hmissing]
  exact bind_pure _

section Decoding

theorem Method.decode_toJson (m : Method) : Method.decode m.toJson = .ok m := by
  simp [Method.decode, Method.toJson, Decoded.word, Decoded.word.find]

theorem Comparator.decode_token (c : Comparator) :
    Comparator.decode (.string c.token) = .ok c := by
  simp [Comparator.decode, Decoded.word, Decoded.word.find]

theorem Operator.decode_token (o : Operator) : Operator.decode (.string o.token) = .ok o := by
  simp [Operator.decode, Decoded.string, bind, Except.bind, pure, Except.pure]

theorem ValueType.decode_token (t : ValueType) : ValueType.decode (.string t.token) = .ok t := by
  simp [ValueType.decode, Decoded.string, bind, Except.bind, pure, Except.pure]

theorem Decoded.unlessNull_of_ne_null {α : Type} {f : Json → Decoded α} {j : Json}
    (h : j ≠ .null) : unlessNull f j = some <$> f j := by
  cases j with
  | null => exact absurd rfl h
  | _ => rfl

theorem ClaimValue.toJson_ne_null (v : ClaimValue) : v.toJson ≠ .null := by
  cases v <;> simp [toJson]

theorem ClaimValue.decode_toJson (v : ClaimValue) : ClaimValue.decode v.toJson = .ok v := by
  cases v <;> rfl

theorem Operand.decode_toJson (o : Operand) : Operand.decode o.toJson = .ok o := by
  induction o with
  | literal s => rw [toJson, decode]
  | binary a o b iha ihb =>
    have hfields : Expression.decode (binary a o b).toJson = .ok ⟨a, o, b⟩ := by
      rw [Expression.decode, toJson, RecordSpec.fold_object rfl rfl]
      simp only [List.foldlM_cons, List.foldlM_nil, Expression.putWith, iha, ihb,
        Operator.decode_token]
      rfl
    rw [decode_eq_within (by simp [toJson]), hfields]
    rfl

theorem Condition.decode_toJson (c : Condition) : Condition.decode c.toJson = .ok c := by
  obtain ⟨left, comparator, right, inverted, override?⟩ := c
  cases override?
  all_goals
    rw [decode, toJson, RecordSpec.fold_object rfl rfl]
    simp only [List.cons_append, List.nil_append, List.foldlM_cons, List.foldlM_nil, put,
      Operand.decode_toJson, Comparator.decode_token]
    rfl

theorem Clause.decode_toJson (c : Clause) : Clause.decode c.toJson = .ok c := by
  cases c with
  | raw s => rfl
  | condition c =>
    have hobject : Clause.decode c.toJson =
        Decoded.within .inCondition (.condition <$> Condition.decode c.toJson) := rfl
    rw [toJson, hobject, Condition.decode_toJson]
    rfl

theorem Claim.decode_toJson (c : Claim) : Claim.decode c.toJson = .ok c := by
  obtain ⟨name, _ | v⟩ := c
  · rfl
  · have hvalue : Decoded.unlessNull ClaimValue.decode v.toJson = .ok (some v) := by
      rw [Decoded.unlessNull_of_ne_null v.toJson_ne_null, v.decode_toJson]
      rfl
    rw [decode, toJson, RecordSpec.fold_object rfl rfl]
    simp only [List.cons_append, List.nil_append, List.foldlM_cons, List.foldlM_nil, put, hvalue]
    rfl

theorem AllowRule.decode_toJson (r : AllowRule) : AllowRule.decode r.toJson = .ok r := by
  have hmethods := Decoded.list_array_map fun m (_ : m ∈ r.methods) => m.decode_toJson
  have hconditions := Decoded.list_array_map fun c (_ : c ∈ r.conditions) => c.decode_toJson
  have hclaims := Decoded.list_array_map fun c (_ : c ∈ r.claims) => c.decode_toJson
  rw [decode, toJson, RecordSpec.fold_object rfl rfl]
  simp only [List.foldlM_cons, List.foldlM_nil, put, hmethods, hconditions, hclaims]
  rfl

theorem FieldRule.decode_toJson (r : FieldRule) : FieldRule.decode r.toJson = .ok r := by
  have htypes := Decoded.list_array_map fun t (_ : t ∈ r.types) => t.decode_token
  rw [decode, toJson, RecordSpec.fold_object rfl rfl]
  simp only [List.foldlM_cons, List.foldlM_nil, put, htypes]
  rfl

theorem Tree.putMember_label {α : Type} {child : Json → Decoded (Tree α)}
    {put : α → String → Json → Decoded α} {p : α × List (Tree α)} {name : String} {x : Json} {a : α}
    (hname : name ≠ "children") (h : put p.1 name x = .ok a) :
    Tree.putMember child put p name x = .ok (a, p.2) := by
  rw [putMember, if_neg hname, h]
  rfl

theorem Tree.putMember_children {α : Type} {child : Json → Decoded (Tree α)}
    {put : α → String → Json → Decoded α} {p : α × List (Tree α)} {x : Json} {ts : List (Tree α)}
    (h : Decoded.list child x = .ok ts) :
    Tree.putMember child put p "children" x = .ok (p.1, ts) := by
  rw [putMember, if_pos rfl, h]
  rfl

theorem Decoded.foldlM_cons_ok {α β : Type} {f : β → α → Decoded β} {a : α} {b c : β}
    (h : f b a = .ok c) (as : List α) : (a :: as).foldlM f b = as.foldlM f c := by
  rw [List.foldlM_cons, h]
  rfl

/-- A node is read back together with its children, if these are. -/
theorem Node.fold_toJson {n : Node} {ts : List (Tree Node)} {children : List Json}
    (h : Decoded.list Node.decode (.array children) = .ok ts) :
    Node.spec.fold (({ segment := Segment.blank } : Node), ([] : List (Tree Node)))
      (Tree.putMember Node.decode Node.put) (n.toJson children) = .ok (n, ts) := by
  have hallow (m : Node) : m.put "allowRules" (.array (n.allowRules.map AllowRule.toJson)) =
      .ok { m with allowRules := n.allowRules } := by
    simp only [put, Decoded.list_array_map fun r (_ : r ∈ n.allowRules) => r.decode_toJson]
    rfl
  have hfields (m : Node) : m.put "structureRules" (.array (n.fieldRules.map FieldRule.toJson)) =
      .ok { m with fieldRules := n.fieldRules } := by
    simp only [put, Decoded.list_array_map fun r (_ : r ∈ n.fieldRules) => r.decode_toJson]
    rfl
  rw [toJson, RecordSpec.fold_object rfl rfl,
    Decoded.foldlM_cons_ok (Tree.putMember_label (by decide) (hallow _)),
    Decoded.foldlM_cons_ok (Tree.putMember_children h),
    Decoded.foldlM_cons_ok (Tree.putMember_label (by simp) rfl),
    Decoded.foldlM_cons_ok (Tree.putMember_label (by simp) rfl),
    Decoded.foldlM_cons_ok (Tree.putMember_label (by simp) rfl),
    Decoded.foldlM_cons_ok (Tree.putMember_label (by decide) (hfields _)),
    Decoded.foldlM_cons_ok (Tree.putMember_label (by simp) rfl)]
  rfl

theorem Node.decode_toJson (t : Tree Node) : Node.decode (t.toJson Node.toJson) = .ok t := by
  induction t with
  | node n ts ih =>
    have hchildren := Decoded.list_array_map ih
    rw [Node.decode, Tree.decode_eq_fold, ← Node.decode, Tree.toJson, Tree.allToJson_eq_map,
      Node.fold_toJson hchildren]
    rfl

theorem Policy.decode_toJson (p : Policy) : Policy.decode p.toJson = .ok p := by
  have htrees := Decoded.list_array_map fun t (_ : t ∈ p.trees) => Node.decode_toJson t
  have hfunctions : Decoded.list Decoded.string (Json.strings p.functions) = .ok p.functions :=
    Decoded.list_array_map fun _ _ => rfl
  rw [decode, toJson, RecordSpec.fold_object rfl rfl]
  simp only [List.foldlM_cons, List.foldlM_nil, put, htrees, hfunctions]
  rfl

end Decoding

namespace Policy
open Schema

section Acceptance

theorem fits_string (s : String) : Fits (.string s) (ofType .string) := accepts_ofType.2 rfl

theorem fits_bool (b : Bool) : Fits (.bool b) (ofType .boolean) := accepts_ofType.2 rfl

theorem fits_list {α : Type} {f : α → Json} {xs : List α} {item : Schema}
    (h : ∀ x ∈ xs, Fits (f x) item) : Fits (.array (xs.map f)) (listOf item) := by
  refine accepts_listOf.2 ⟨xs.map f, rfl, ?_⟩
  intro y hy
  obtain ⟨x, hx, rfl⟩ := List.mem_map.1 hy
  exact h x hx

theorem fits_word {α : Type} {target : String} {words : List String} {all : List α}
    {token : α → String} (hdef : schema.definitions.lookup target = some (oneOfWords words))
    (hwords : words = all.map token) {a : α} (ha : a ∈ all) :
    Fits (.string (token a)) (see target) := by
  subst hwords
  exact (accepts_see hdef).2 (passes_oneOfWords.2 ⟨token a, List.mem_map_of_mem ha, rfl⟩)

theorem fits_method (m : Method) : Fits m.toJson (see "#/$defs/ruleMethod") :=
  fits_word rfl methodWords_eq (by cases m <;> decide : m ∈ Method.all)

theorem fits_comparator (c : Comparator) : Fits (.string c.token) (see "#/$defs/comparator") :=
  fits_word rfl comparatorWords_eq (by cases c <;> decide : c ∈ Comparator.all)

theorem fits_operator (o : Operator) : Fits (.string o.token) (see "#/$defs/operator") := by
  have ho : o ∈ Operator.all := by
    rcases o with c | a
    · cases c <;> decide
    · cases a <;> decide
  exact fits_word rfl operatorWords_eq ho

theorem fits_valueType (t : ValueType) : Fits (.string t.token) (see "#/$defs/firestoreType") :=
  fits_word rfl valueTypeWords_eq (by cases t <;> decide : t ∈ ValueType.all)

theorem passes_record_of_forall {follow : String → List Violation}
    {members : List (String × Schema)} {names : List String} {ms : List (String × Json)}
    (hms : ms.Forall fun m => ∃ s, members.lookup m.1 = some s ∧ Fits m.2 s)
    (hreq : (names.all fun name => (ms.map Prod.fst).contains name) = true) :
    Passes schema.definitions follow (.object ms) (record members names) := by
  refine passes_record.2 ⟨ms, rfl, ?_, ?_⟩
  · intro m hm s hs
    obtain ⟨s', hs', hfits⟩ := List.forall_iff_forall_mem.1 hms m hm
    obtain rfl : s' = s := Option.some.inj (hs'.symm.trans hs)
    exact hfits
  · intro name hname
    simpa using List.all_eq_true.1 hreq name hname

/-- A record is judged alike however many references are followed before it. -/
theorem passes_see_record {target : String} {members : List (String × Schema)}
    {names : List String} {j : Json} {budget : Nat}
    (hdef : schema.definitions.lookup target = some (record members names)) :
    Passes schema.definitions
      (follow schema.definitions j (partsOf schema.definitions j) (budget + 1)) j (see target) ↔
      Fits j (see target) := by
  have hbody : Passes schema.definitions
      (follow schema.definitions j (partsOf schema.definitions j) (budget + 1)) j (see target) ↔
      Passes schema.definitions
        (follow schema.definitions j (partsOf schema.definitions j) budget) j
        (record members names) := by
    rw [passes_see, follow, hdef]
    rfl
  rw [hbody, Fits, accepts_see hdef, passes_record, passes_record]

theorem passes_oneOf_pair {follow : String → List Violation} {j : Json} {a b : Schema} :
    Passes schema.definitions follow j (.oneOf [a, b]) ↔
      (Passes schema.definitions follow j a ∧ ¬Passes schema.definitions follow j b) ∨
      (¬Passes schema.definitions follow j a ∧ Passes schema.definitions follow j b) := by
  rw [passes_oneOf]
  simp only [List.countP_cons, List.countP_nil, List.isEmpty_iff, Passes]
  by_cases ha : judge follow j (partsOf schema.definitions j) a = [] <;>
    by_cases hb : judge follow j (partsOf schema.definitions j) b = [] <;> simp [ha, hb]

theorem passes_oneOf_string {target : String} {members : List (String × Schema)}
    {names : List String} (budget : Nat) (s : String)
    (hdef : schema.definitions.lookup target = some (record members names)) :
    Passes schema.definitions (follow schema.definitions (.string s)
      (partsOf schema.definitions (.string s)) (budget + 1)) (.string s)
      (.oneOf [ofType .string, see target]) := by
  refine passes_oneOf_pair.2 (.inl ⟨passes_ofType.2 rfl, ?_⟩)
  rw [passes_see_record hdef, Fits, accepts_see hdef, passes_record]
  rintro ⟨ms, hms, -⟩
  cases hms

theorem passes_oneOf_object {target : String} {members : List (String × Schema)}
    {names : List String} (budget : Nat) {ms : List (String × Json)}
    (hdef : schema.definitions.lookup target = some (record members names))
    (h : Fits (.object ms) (see target)) :
    Passes schema.definitions (follow schema.definitions (.object ms)
      (partsOf schema.definitions (.object ms)) (budget + 1)) (.object ms)
      (.oneOf [ofType .string, see target]) := by
  refine passes_oneOf_pair.2 (.inr ⟨?_, (passes_see_record hdef).2 h⟩)
  rw [passes_ofType]
  simp [JsonType.holds]

theorem fits_operand (o : Operand) : Fits o.toJson (see "#/$defs/operand") := by
  induction o with
  | literal s =>
    refine (accepts_see (s := operandSchema) rfl).2 (passes_singleton.2 ?_)
    exact passes_oneOf_string 9 s rfl
  | binary a o b iha ihb =>
    have hrecord : Fits (Operand.binary a o b).toJson (see "#/$defs/field") := by
      refine (accepts_see (s := expressionSchema) rfl).2 (passes_record_of_forall ?_ rfl)
      exact ⟨⟨_, rfl, iha⟩, ⟨_, rfl, ihb⟩, ⟨_, rfl, fits_operator o⟩⟩
    refine (accepts_see (s := operandSchema) rfl).2 (passes_singleton.2 ?_)
    exact passes_oneOf_object 9 rfl hrecord

theorem fits_condition (c : Condition) : Fits c.toJson (see "#/$defs/condition") := by
  obtain ⟨left, comparator, right, inverted, _ | s⟩ := c
  · refine (accepts_see (s := conditionSchema) rfl).2 (passes_record_of_forall ?_ rfl)
    exact ⟨⟨_, rfl, fits_comparator comparator⟩, ⟨_, rfl, fits_operand left⟩,
      ⟨_, rfl, fits_operand right⟩, ⟨_, rfl, fits_bool inverted⟩⟩
  · refine (accepts_see (s := conditionSchema) rfl).2 (passes_record_of_forall ?_ rfl)
    exact ⟨⟨_, rfl, fits_comparator comparator⟩, ⟨_, rfl, fits_string s⟩,
      ⟨_, rfl, fits_operand left⟩, ⟨_, rfl, fits_operand right⟩, ⟨_, rfl, fits_bool inverted⟩⟩

theorem fits_clause (c : Clause) :
    Fits c.toJson (.all [.oneOf [ofType .string, see "#/$defs/condition"]]) := by
  refine accepts_iff_passes.2 (passes_singleton.2 ?_)
  cases c with
  | raw s => exact passes_oneOf_string 10 s rfl
  | condition c => exact passes_oneOf_object 10 rfl (fits_condition c)

theorem fits_claim (c : Claim) : Fits c.toJson (see "#/$defs/requiredClaim") := by
  obtain ⟨name, _ | v⟩ := c
  · refine (accepts_see (s := claimSchema) rfl).2 (passes_record_of_forall ?_ rfl)
    exact ⟨_, rfl, fits_string name⟩
  · have hvalue : Fits v.toJson (.all [.type [.string, .number, .boolean, .null]]) := by
      refine accepts_iff_passes.2 (passes_singleton.2 (passes_type.2 ?_))
      cases v <;> simp [ClaimValue.toJson, JsonType.holds]
    refine (accepts_see (s := claimSchema) rfl).2 (passes_record_of_forall ?_ rfl)
    exact ⟨⟨_, rfl, fits_string name⟩, ⟨_, rfl, hvalue⟩⟩

theorem fits_fieldRule (r : FieldRule) : Fits r.toJson (see "#/$defs/structureRule") := by
  refine (accepts_see (s := fieldRuleSchema) rfl).2 (passes_record_of_forall ?_ rfl)
  exact ⟨⟨_, rfl, fits_string r.field⟩, ⟨_, rfl, fits_bool r.required⟩,
    ⟨_, rfl, fits_list fun t _ => fits_valueType t⟩⟩

theorem fits_allowRule {r : AllowRule} (h : r.methods ≠ []) :
    Fits r.toJson (see "#/$defs/allowRule") := by
  have hmethods : Fits (.array (r.methods.map Method.toJson))
      (nonemptyListOf (see "#/$defs/ruleMethod")) := by
    refine accepts_iff_passes.2 (passes_nonemptyListOf.2 ⟨_, rfl, by simpa using h, ?_⟩)
    intro x hx
    obtain ⟨m, -, rfl⟩ := List.mem_map.1 hx
    exact fits_method m
  refine (accepts_see (s := allowRuleSchema) rfl).2 (passes_record_of_forall ?_ rfl)
  exact ⟨⟨_, rfl, fits_list fun c _ => fits_clause c⟩, ⟨_, rfl, hmethods⟩,
    ⟨_, rfl, fits_bool r.requireAuth⟩, ⟨_, rfl, fits_list fun c _ => fits_claim c⟩⟩

theorem fits_node {t : Tree Node} (h : Grants t) :
    Fits (t.toJson Node.toJson) (see "#/$defs/match") := by
  induction t with
  | node n ts ih =>
    obtain ⟨hn, hts⟩ := grants_node.1 h
    have hrules : ∀ r ∈ n.allowRules, Fits r.toJson (see "#/$defs/allowRule") := by
      intro r hr
      have hmethods := List.all_eq_true.1 hn r hr
      exact fits_allowRule (by simpa using hmethods)
    have hchildren : ∀ t ∈ ts, Fits (t.toJson Node.toJson) (see "#/$defs/match") :=
      fun t ht => ih t ht (hts t ht)
    rw [Tree.toJson, Tree.allToJson_eq_map]
    refine (accepts_see (s := nodeSchema) rfl).2 (passes_record_of_forall ?_ rfl)
    exact ⟨⟨_, rfl, fits_list hrules⟩, ⟨_, rfl, fits_list hchildren⟩,
      ⟨_, rfl, fits_string n.segment.collection⟩, ⟨_, rfl, fits_bool n.exclusive⟩,
      ⟨_, rfl, fits_bool n.segment.recursive⟩, ⟨_, rfl, fits_list fun r _ => fits_fieldRule r⟩,
      ⟨_, rfl, fits_string n.segment.wildcard⟩⟩

end Acceptance

/-- A policy whose rules all grant a method satisfies the schema. -/
theorem fits_toJson {p : Policy} (h : ∀ t ∈ p.trees, Grants t) : Fits p.toJson policySchema := by
  refine accepts_iff_passes.2 (passes_record_of_forall ?_ rfl)
  exact ⟨⟨_, rfl, fits_list fun s _ => fits_string s⟩,
    ⟨_, rfl, fits_list fun t ht => fits_node (h t ht)⟩, ⟨_, rfl, fits_string p.topLevel⟩⟩

theorem ofJson_toJson {p : Policy} (h : ∀ t ∈ p.trees, Grants t) : ofJson p.toJson = .ok p := by
  simp [ofJson, unknownType?_eq_none (fits_toJson h), decode_toJson, idleNode?_eq_none h]

/-- The rules of a decoded policy all grant a method. -/
theorem grants_of_ofJson {j : Json} {p : Policy} (h : ofJson j = .ok p) :
    ∀ t ∈ p.trees, Grants t := by
  have hidle : p.idleNode? = none := by
    unfold ofJson at h
    split at h
    · simp at h
    · split at h
      · simp at h
      · split at h
        · simp at h
        · next hnone =>
          obtain rfl := Except.ok.inj h
          exact hnone
  intro t ht n hn
  have hgrants := List.find?_eq_none.1 hidle n (List.mem_flatMap.2 ⟨t, ht, hn⟩)
  simpa using hgrants

/-- A policy whose rules all grant a method has a JSON value that the schema accepts and that is
loaded as the policy. Every policy that is decoded from a document is such a policy, so that it is
decoded again from its own JSON value. -/
theorem load_toJson_round_trip :
    (∀ p : Policy, (∀ t ∈ p.trees, Grants t) →
      schema.accepts p.toJson = true ∧ load schema p.toJson = .ok p) ∧
    ∀ (j : Json) (p : Policy), ofJson j = .ok p →
      (∀ t ∈ p.trees, Grants t) ∧ ofJson p.toJson = .ok p := by
  constructor
  · intro p hp
    have haccepts : schema.accepts p.toJson = true := accepts_iff_fits.2 (fits_toJson hp)
    have hviolations : schema.violations p.toJson = [] := by
      simpa [SchemaDocument.accepts] using haccepts
    refine ⟨haccepts, ?_⟩
    rw [load, SchemaDocument.validate, hviolations, ofJson_toJson hp]
    rfl
  · intro j p hj
    have hp := grants_of_ofJson hj
    exact ⟨hp, ofJson_toJson hp⟩

/-- A policy with a nested node, a claim of any value, an override and an expression is loaded from
its own JSON value. -/
theorem load_toJson_nested :
    let rule : AllowRule :=
      { methods := [.read, .get]
        conditions := [.raw "",
          .condition
            { left := .binary (.literal "a") (.arithmetic .add) (.literal "1"), comparator := .le
              right := .literal "b", inverted := true },
          .condition { left := .literal "", comparator := .or, right := .literal "",
                       override? := some "" }]
        claims := [{ name := "admin" }, { name := "level", value? := some (.number (.int 3)) }] }
    let inner : Node :=
      { segment := { collection := "posts", wildcard := "id" }
        fieldRules := [{ field := "title", types := [.string], required := true }] }
    let outer : Node :=
      { segment := { collection := "users", wildcard := "uid" }, allowRules := [rule] }
    let p : Policy := { topLevel := "/documents", trees := [.node outer [.node inner []]] }
    (∀ t ∈ p.trees, Grants t) ∧ schema.accepts p.toJson = true ∧ load schema p.toJson = .ok p := by
  intro rule inner outer p
  have hp : ∀ t ∈ p.trees, Grants t := by simp [p, inner, outer, rule, Grants, Node.grantsMethods]
  exact ⟨hp, load_toJson_round_trip.1 p hp⟩

end Policy
end AccessRules
