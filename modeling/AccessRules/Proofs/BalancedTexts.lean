import AccessRules.Proofs.Braces
import AccessRules.Proofs.MethodSets

/-! Compiling keeps texts balanced. All texts of compiled rules are put together from the raw texts
of the policy and from pieces of the rule language that are balanced themselves, so they are
balanced if the raw texts are. -/
namespace AccessRules
open Text

namespace Text

theorem balanced_append {s t : String} (hs : Balanced s.toList) (ht : Balanced t.toList) :
    Balanced (s ++ t).toList := by
  rw [String.toList_append]
  exact hs.append ht

theorem balanced_join {separator : String} (hs : Balanced separator.toList) {texts : List String}
    (h : ∀ s ∈ texts, Balanced s.toList) : Balanced (separator.intercalate texts).toList := by
  rw [String.toList_intercalate]
  apply balanced_intercalate hs
  intro u hu
  obtain ⟨s, hmem, rfl⟩ := List.mem_map.1 hu
  exact h s hmem

end Text

namespace Operand

theorem balanced_token (o : Operator) : Balanced o.token.toList := by
  rcases o with c | a
  · cases c <;> exact balanced_of_isBraceless (by decide)
  · cases a <;> exact balanced_of_isBraceless (by decide)

theorem balanced_operation {a b : String} (ha : Balanced a.toList) (hb : Balanced b.toList)
    (o : Operator) : Balanced (a ++ " " ++ o.token ++ " " ++ b).toList := by
  have hblank : Balanced " ".toList := balanced_of_isBraceless (by decide)
  exact balanced_append (balanced_append (balanced_append (balanced_append ha hblank)
    (balanced_token o)) hblank) hb

theorem balanced_text {o : Operand} (h : ∀ s ∈ o.leaves, Balanced s.toList) :
    Balanced o.text.toList := by
  induction o with
  | literal s => exact h s (by simp [leaves])
  | binary a o b iha ihb =>
    have ha := iha fun s hs => h s (List.mem_append_left _ hs)
    have hb := ihb fun s hs => h s (List.mem_append_right _ hs)
    have hopen : Balanced "(".toList := balanced_of_isBraceless (by decide)
    have hclose : Balanced ")".toList := balanced_of_isBraceless (by decide)
    have hgroup := balanced_append (balanced_append hopen (balanced_operation ha hb o)) hclose
    simpa only [text, String.append_assoc] using hgroup

end Operand

def Clause.rawTexts : Clause → List String
  | .raw s => [s]
  | .condition c => c.leaves ++ c.override?.toList

theorem Condition.balanced_comparison {c : Condition} (h : ∀ s ∈ c.leaves, Balanced s.toList) :
    Balanced c.comparison.toList := by
  have hleft : Balanced c.left.text.toList :=
    Operand.balanced_text fun s hs => h s (List.mem_append_left _ hs)
  have hright : Balanced c.right.text.toList :=
    Operand.balanced_text fun s hs => h s (List.mem_append_right _ hs)
  have htext := Operand.balanced_operation hleft hright (.compare c.comparator)
  unfold Condition.comparison
  split
  · have hopen : Balanced "!(".toList := balanced_of_isBraceless (by decide)
    have hclose : Balanced ")".toList := balanced_of_isBraceless (by decide)
    exact balanced_append (balanced_append hopen htext) hclose
  · exact htext

theorem Clause.balanced_text {c : Clause} (h : ∀ s ∈ c.rawTexts, Balanced s.toList) :
    Balanced c.text.toList := by
  cases c with
  | raw s => exact h s (by simp [rawTexts])
  | condition c =>
    have htext : (Clause.condition c).text = c.text := rfl
    rw [htext, Condition.text]
    cases ho : c.override? with
    | some s => exact h s (by simp [rawTexts, ho])
    | none => exact Condition.balanced_comparison fun s hs => h s (List.mem_append_left _ hs)

def ClaimValue.rawTexts : ClaimValue → List String
  | .string s => [s]
  | _ => []

theorem ClaimValue.balanced_literal {v : ClaimValue} (h : ∀ s ∈ v.rawTexts, Balanced s.toList) :
    Balanced v.literal.toList := by
  cases v with
  | bool b => cases b <;> exact balanced_of_isBraceless (by decide)
  | number n => exact balanced_of_isBraceless n.isBraceless_text
  | string s => exact (h s (by simp [rawTexts])).of_filter_eq (Json.filter_quote s)

/-- The raw texts of a claim. -/
def Claim.rawTexts (c : Claim) : List String :=
  c.name :: c.value?.toList.flatMap ClaimValue.rawTexts

theorem Claim.balanced_accessor {name : String} (h : Balanced name.toList) :
    Balanced (Claim.accessor name).toList := by
  unfold Claim.accessor
  split
  · have htoken : Balanced "request.auth.token.".toList := balanced_of_isBraceless (by decide)
    exact balanced_append htoken h
  · have hopen : Balanced "request.auth.token['".toList := balanced_of_isBraceless (by decide)
    have hclose : Balanced "']".toList := balanced_of_isBraceless (by decide)
    have hquoted : Balanced (String.ofList (singleQuoted name.toList)).toList := by
      rw [String.toList_ofList]
      exact h.of_filter_eq (filter_singleQuoted name.toList)
    exact balanced_append (balanced_append hopen hquoted) hclose

theorem Claim.balanced_check {c : Claim} (h : ∀ s ∈ c.rawTexts, Balanced s.toList) :
    Balanced c.check.toList := by
  have haccessor := Claim.balanced_accessor (h c.name (by simp [rawTexts]))
  unfold Claim.check
  cases hv : c.value? with
  | none => exact balanced_append haccessor (balanced_of_isBraceless (by decide))
  | some v =>
    have hliteral : Balanced v.literal.toList :=
      ClaimValue.balanced_literal fun s hs => h s (by simp [rawTexts, hv, hs])
    have hequal : Balanced " == ".toList := balanced_of_isBraceless (by decide)
    exact balanced_append (balanced_append haccessor hequal) hliteral

namespace AllowRule

def rawTexts (r : AllowRule) : List String :=
  r.conditions.flatMap Clause.rawTexts ++ r.claims.flatMap Claim.rawTexts

theorem balanced_of_mem_conditionTexts {r : AllowRule} (h : ∀ s ∈ r.rawTexts, Balanced s.toList)
    {text : String} (ht : text ∈ r.conditionTexts) : Balanced text.toList := by
  simp only [conditionTexts, List.mem_append, List.mem_map] at ht
  rcases ht with (⟨c, hc, rfl⟩ | ht) | ⟨c, hc, rfl⟩
  · exact Clause.balanced_text fun s hs =>
      h s (List.mem_append_left _ (List.mem_flatMap.2 ⟨c, hc, hs⟩))
  · split at ht
    · obtain rfl := List.mem_singleton.1 ht
      exact balanced_of_isBraceless (by decide)
    · simp at ht
  · exact Claim.balanced_check fun s hs =>
      h s (List.mem_append_right _ (List.mem_flatMap.2 ⟨c, hc, hs⟩))

end AllowRule

theorem ValueType.balanced_placeholder (t : ValueType) : Balanced t.placeholder.toList := by
  cases t <;> decide

theorem balanced_defaultedAccess {field : String} (h : Balanced field.toList) (t : ValueType) :
    Balanced (defaultedAccess field t).toList := by
  have hcall : Balanced "getOr(request, '".toList := balanced_of_isBraceless (by decide)
  have hcomma : Balanced "', ".toList := balanced_of_isBraceless (by decide)
  have hclose : Balanced ")".toList := balanced_of_isBraceless (by decide)
  exact balanced_append (balanced_append (balanced_append (balanced_append hcall h) hcomma)
    t.balanced_placeholder) hclose

namespace FieldRule
variable {r : FieldRule}

theorem balanced_isOfType (h : Balanced r.field.toList) (defaulted : Bool) (t : ValueType) :
    Balanced (r.isOfType defaulted t).toList := by
  have his : Balanced " is ".toList := balanced_of_isBraceless (by decide)
  have htoken : Balanced t.token.toList := by
    cases t <;> exact balanced_of_isBraceless (by decide)
  refine balanced_append (balanced_append ?_ his) htoken
  cases defaulted with
  | true => exact balanced_defaultedAccess h t
  | false => exact balanced_append (balanced_of_isBraceless (by decide)) h

theorem balanced_typeCheck (h : Balanced r.field.toList) (defaulted : Bool) :
    Balanced (r.typeCheck defaulted).toList := by
  have hor : Balanced " || ".toList := balanced_of_isBraceless (by decide)
  have htext : Balanced (" || ".intercalate (r.types.map (r.isOfType defaulted))).toList := by
    apply balanced_join hor
    intro s hs
    obtain ⟨t, -, rfl⟩ := List.mem_map.1 hs
    exact balanced_isOfType h defaulted t
  unfold typeCheck
  dsimp only
  split
  · exact balanced_append (balanced_append (balanced_of_isBraceless (by decide)) htext)
      (balanced_of_isBraceless (by decide))
  · exact htext

end FieldRule

theorem balanced_presenceCheck {fields : List String} (h : ∀ f ∈ fields, Balanced f.toList)
    (exclusive : Bool) : Balanced (presenceCheck fields exclusive).toList := by
  have hquote : Balanced "'".toList := balanced_of_isBraceless (by decide)
  have hlisted : Balanced (", ".intercalate (fields.map fun f => "'" ++ f ++ "'")).toList := by
    apply balanced_join (balanced_of_isBraceless (by decide))
    intro s hs
    obtain ⟨f, hf, rfl⟩ := List.mem_map.1 hs
    exact balanced_append (balanced_append hquote (h f hf)) hquote
  have htest : Balanced (if exclusive then "hasOnly" else "hasAll").toList := by
    cases exclusive <;> exact balanced_of_isBraceless (by decide)
  exact balanced_append (balanced_append (balanced_append (balanced_append
    (balanced_of_isBraceless (by decide)) htest) (balanced_of_isBraceless (by decide))) hlisted)
    (balanced_of_isBraceless (by decide))

namespace GrantNode
variable {n : GrantNode} {m : Method}

theorem balanced_of_mem_typeChecks {rules : List FieldRule}
    (h : ∀ r ∈ rules, Balanced r.field.toList) {text : String} (ht : text ∈ typeChecks rules m) :
    Balanced text.toList := by
  have hcheck (defaulted : FieldRule → Bool)
      (hmem : text ∈ (rules.filter FieldRule.isTyped).map fun r => r.typeCheck (defaulted r)) :
      Balanced text.toList := by
    obtain ⟨r, hr, rfl⟩ := List.mem_map.1 hmem
    exact FieldRule.balanced_typeCheck (h r (List.mem_filter.1 hr).1) _
  cases m with
  | create => exact hcheck (fun r => !r.required) ht
  | update => exact hcheck (fun _ => true) ht
  | _ => simp [typeChecks] at ht

theorem balanced_of_mem_fieldChecks (h : ∀ r ∈ n.fieldRules, Balanced r.field.toList)
    {text : String} (ht : text ∈ n.fieldChecks m) : Balanced text.toList := by
  rcases List.mem_append.1 ht with ht | ht
  · exact balanced_of_mem_typeChecks h ht
  · split at ht
    · obtain rfl := List.mem_singleton.1 ht
      apply balanced_presenceCheck
      intro f hf
      obtain ⟨r, hr, rfl⟩ := List.mem_map.1 hf
      exact h r (List.mem_filter.1 hr).1
    · simp at ht

end GrantNode

namespace Statement

theorem mem_flatten_of_mem_demanded {lists : List (List String)} {text : String}
    (h : text ∈ demanded lists) : text ∈ lists.flatten := by
  cases lists with
  | nil => simp [demanded] at h
  | cons first rest =>
    by_cases hfirst : conjunction first = ""
    · simp [demanded, hfirst] at h
    · rwa [demanded, if_neg hfirst] at h

theorem balanced_text {m : Method} {condition : String} (h : Balanced condition.toList) :
    Balanced (Statement.text ⟨m, condition⟩).toList := by
  have hallow : Balanced ("allow " ++ m.token).toList := by
    cases m <;> exact balanced_of_isBraceless (by decide)
  have hend : Balanced ";".toList := balanced_of_isBraceless (by decide)
  have hif : Balanced ": if ".toList := balanced_of_isBraceless (by decide)
  unfold Statement.text
  split
  · exact balanced_append hallow hend
  · exact balanced_append (balanced_append (balanced_append hallow hif) h) hend

end Statement

namespace Node

def rawTexts (n : Node) : List String :=
  n.segment.collection :: n.segment.wildcard ::
    (n.allowRules.flatMap AllowRule.rawTexts ++ n.fieldRules.map FieldRule.field)

variable {n : Node}

theorem balanced_condition (h : ∀ s ∈ n.rawTexts, Balanced s.toList) (inner : Bool) (m : Method) :
    Balanced (n.condition inner m).toList := by
  apply balanced_join (balanced_of_isBraceless (by decide))
  intro text ht
  rcases List.mem_append.1 ht with ht | ht
  · obtain ⟨texts, hlist, ht⟩ := List.mem_flatten.1 (Statement.mem_flatten_of_mem_demanded ht)
    obtain ⟨r, hr, rfl⟩ := List.mem_map.1 hlist
    refine AllowRule.balanced_of_mem_conditionTexts (fun s hs => h s ?_) ht
    have hrule : s ∈ n.allowRules.flatMap AllowRule.rawTexts :=
      List.mem_flatMap.2 ⟨r, (List.mem_filter.1 hr).1, hs⟩
    simp only [rawTexts, List.mem_cons, List.mem_append]
    exact .inr (.inr (.inl hrule))
  · refine GrantNode.balanced_of_mem_fieldChecks (fun r hr => h r.field ?_) ht
    have hfield : r.field ∈ n.fieldRules.map FieldRule.field := List.mem_map.2 ⟨r, hr, rfl⟩
    simp only [rawTexts, List.mem_cons, List.mem_append]
    exact .inr (.inr (.inr hfield))

end Node

def Block.texts (b : Block) : List String :=
  b.segment.collection :: b.segment.wildcard :: b.statements

theorem Node.balanced_of_mem_texts_block {n : Node} (h : ∀ s ∈ n.rawTexts, Balanced s.toList)
    (inner : Bool) {text : String} (ht : text ∈ (n.block inner).texts) : Balanced text.toList := by
  have hsegment : (n.block inner).segment = n.segment := by rw [Node.block_eq]
  rw [Block.texts, hsegment] at ht
  rcases List.mem_cons.1 ht with rfl | ht
  · exact h _ (by simp [rawTexts])
  · rcases List.mem_cons.1 ht with rfl | ht
    · exact h _ (by simp [rawTexts])
    · obtain ⟨ms, -, -, hstatements⟩ := n.exists_statements_block inner
      rw [hstatements] at ht
      obtain ⟨m, -, rfl⟩ := List.mem_map.1 ht
      exact Statement.balanced_text (n.balanced_condition h inner m)

/-- The raw texts of a policy. -/
def Policy.rawTexts (p : Policy) : List String :=
  p.topLevel :: ((p.trees.flatMap Tree.labels).flatMap Node.rawTexts ++ p.functions)

def Rules.texts (r : Rules) : List String :=
  r.topLevel :: ((r.trees.flatMap Tree.labels).flatMap Block.texts ++ r.functions)

theorem Tree.exists_of_mem_labels_relabel {α β : Type} {f : Bool → α → β} {t : Tree α} {b : β}
    (h : b ∈ (relabel f t).labels) : ∃ a ∈ t.labels, ∃ inner, b = f inner a := by
  induction t with
  | node a ts ih =>
    rw [relabel_node, labels_node, List.mem_cons] at h
    rcases h with rfl | h
    · exact ⟨a, by simp, _, rfl⟩
    · obtain ⟨u, hu, hb⟩ := List.mem_flatMap.1 h
      obtain ⟨t, ht, rfl⟩ := List.mem_map.1 hu
      obtain ⟨c, hc, hf⟩ := ih t ht hb
      exact ⟨c, mem_labels_node ht hc, hf⟩

/-- If the raw texts of a policy are balanced, all texts of the compiled rules are. -/
theorem Policy.balanced_of_mem_texts_compile {p : Policy}
    (h : ∀ s ∈ p.rawTexts, Balanced s.toList) {text : String} (ht : text ∈ p.compile.texts) :
    Balanced text.toList := by
  rcases List.mem_cons.1 ht with rfl | ht
  · exact h p.topLevel (by simp [rawTexts])
  · rcases List.mem_append.1 ht with ht | ht
    · obtain ⟨b, hb, ht⟩ := List.mem_flatMap.1 ht
      obtain ⟨u, hu, hb⟩ := List.mem_flatMap.1 hb
      obtain ⟨t, htree, rfl⟩ := List.mem_map.1 hu
      rw [Node.compileTree_eq_relabel] at hb
      obtain ⟨n, hn, inner, rfl⟩ := Tree.exists_of_mem_labels_relabel hb
      refine Node.balanced_of_mem_texts_block (fun s hs => h s ?_) inner ht
      have hlabels : n ∈ p.trees.flatMap Tree.labels := List.mem_flatMap.2 ⟨t, htree, hn⟩
      exact List.mem_cons_of_mem _ (List.mem_append_left _ (List.mem_flatMap.2 ⟨n, hlabels, hs⟩))
    · exact h text (List.mem_cons_of_mem _ (List.mem_append_right _ ht))

end AccessRules
