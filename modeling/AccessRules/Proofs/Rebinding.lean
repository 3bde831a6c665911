import AccessRules.Proofs.Conjunction

/-! Whether joined conditions keep their meaning. The text that joins conditions never demands more
than all of them together, and it demands just that unless a `||` stands bare beside another
condition. Then some requests are let through that not all conditions allow, if no raw text occurs
twice in them. -/
namespace AccessRules
open Reading

namespace Condition

def holds (given : Formula → Bool) (c : Condition) : Bool := c.formula.truth given

/-- Whether one of the alternatives of joined conditions is met. -/
def anyHolds (given : Formula → Bool) (fs : List Formula) (cs : List Condition) : Bool :=
  (alternatives fs cs).any fun gs => gs.all (Formula.truth given)

variable {given : Formula → Bool}

theorem holds_of_isSplit {c : Condition} (h : c.isSplit = true) :
    c.holds given = (c.left.formula.truth given || c.right.formula.truth given) := by
  obtain ⟨hi, hor⟩ : c.inverted = false ∧ c.comparator = .or := by simpa [isSplit] using h
  simp [holds, formula, operand, Operand.formula, Formula.truth, hi, hor]

theorem all_parts (c : Condition) : c.parts.all (Formula.truth given) = c.holds given := by
  unfold parts holds
  split
  case isTrue h =>
    obtain ⟨hi, hand⟩ : c.inverted = false ∧ c.comparator = .and := by simpa using h
    simp [formula, operand, Operand.formula, Formula.truth, hi, hand]
  case isFalse => simp

theorem anyHolds_nil (fs : List Formula) :
    anyHolds given fs [] = fs.all (Formula.truth given) := by
  simp [anyHolds, alternatives]

theorem anyHolds_cons_of_isSplit {c : Condition} (h : c.isSplit = true) (fs : List Formula)
    (cs : List Condition) :
    anyHolds given fs (c :: cs) = ((fs.all (Formula.truth given) && c.left.formula.truth given) ||
      anyHolds given [c.right.formula] cs) := by
  simp [anyHolds, alternatives, ended, opened, h]

theorem anyHolds_cons_of_not_isSplit {c : Condition} (h : c.isSplit = false) (fs : List Formula)
    (cs : List Condition) : anyHolds given fs (c :: cs) = anyHolds given (fs ++ c.parts) cs := by
  simp [anyHolds, alternatives, ended, opened, h]

theorem anyHolds_of_all {fs : List Formula} {cs : List Condition}
    (hfs : fs.all (Formula.truth given) = true) (h : cs.all (holds given) = true) :
    anyHolds given fs cs = true := by
  induction cs generalizing fs with
  | nil => rw [anyHolds_nil, hfs]
  | cons c cs ih =>
    obtain ⟨hc, hcs⟩ : c.holds given = true ∧ cs.all (holds given) = true := by
      simpa [-List.all_eq_true] using h
    cases hs : c.isSplit with
    | true =>
      rw [anyHolds_cons_of_isSplit hs, hfs, Bool.true_and]
      rw [holds_of_isSplit hs, Bool.or_eq_true] at hc
      obtain hleft | hright := hc
      · rw [hleft, Bool.true_or]
      · rw [ih (by simpa using hright) hcs, Bool.or_true]
    | false =>
      rw [anyHolds_cons_of_not_isSplit hs]
      exact ih (by rw [List.all_append, hfs, all_parts, hc, Bool.true_and]) hcs

/-- Without a bare `||` there is one alternative, and it is that all conditions are met. -/
theorem anyHolds_of_not_isSplit {cs : List Condition} (h : ∀ c ∈ cs, c.isSplit = false)
    (fs : List Formula) :
    anyHolds given fs cs = (fs.all (Formula.truth given) && cs.all (holds given)) := by
  induction cs generalizing fs with
  | nil => rw [anyHolds_nil, List.all_nil, Bool.and_true]
  | cons c cs ih =>
    rw [anyHolds_cons_of_not_isSplit (h c (by simp)), ih fun d hd => h d (by simp [hd]),
      List.all_append, all_parts, List.all_cons, Bool.and_assoc]

/-- No `||` stands bare beside another condition. -/
def Unsplit (cs : List Condition) : Prop := cs.length ≤ 1 ∨ ∀ c ∈ cs, c.isSplit = false

theorem anyHolds_of_unsplit {cs : List Condition} (h : Unsplit cs) :
    anyHolds given [] cs = cs.all (holds given) := by
  obtain hlength | hsplit := h
  · match cs, hlength with
    | [], _ => rfl
    | [c], _ =>
      cases hs : c.isSplit with
      | true => simp [anyHolds_cons_of_isSplit hs, anyHolds_nil, holds_of_isSplit hs]
      | false => simp [anyHolds_cons_of_not_isSplit hs, anyHolds_nil, all_parts]
  · simpa using anyHolds_of_not_isSplit hsplit []

end Condition

def Operand.leaves : Operand → List String
  | .literal s => [s]
  | .binary a _ b => a.leaves ++ b.leaves

def Formula.lead : Formula → String
  | .atom s => s
  | .binary a _ _ => a.lead
  | .negation a => a.lead

theorem Operand.lead_mem_leaves (o : Operand) : o.formula.lead ∈ o.leaves := by
  induction o with
  | literal s => simp [formula, Formula.lead, leaves]
  | binary a o b iha _ => exact List.mem_append_left _ iha

theorem Operand.truth_eq {p : String → Bool} {v : Bool} {o : Operand}
    (h : ∀ s ∈ o.leaves, p s = v) : o.formula.truth (fun f => p f.lead) = v := by
  induction o with
  | literal s => exact h s (by simp [leaves])
  | binary a o b iha ihb =>
    have ha := iha fun s hs => h s (List.mem_append_left _ hs)
    have hb := ihb fun s hs => h s (List.mem_append_right _ hs)
    have hlead : p a.formula.lead = v := h _ (List.mem_append_left _ a.lead_mem_leaves)
    rcases o with c | arithmetic
    · cases c <;> simp [formula, Formula.truth, Formula.lead, ha, hb, hlead]
    · simp [formula, Formula.truth, Formula.lead, hlead]

namespace Condition

def leaves (c : Condition) : List String := c.operand.leaves

theorem ne_of_nodup_leaves {c d : Condition} {cs : List Condition}
    (h : ((c :: cs).flatMap leaves).Nodup) (hd : d ∈ cs) : d ≠ c := by
  rintro rfl
  obtain ⟨s, hs⟩ : ∃ s, s ∈ d.leaves := ⟨_, d.operand.lead_mem_leaves⟩
  rw [List.flatMap_cons, List.nodup_append] at h
  exact h.2.2 s hs s (List.mem_flatMap.2 ⟨d, hd, hs⟩) rfl

theorem exists_values {cs : List Condition} (h : (cs.flatMap leaves).Nodup)
    (wanted : Condition → Bool) :
    ∃ p : String → Bool, ∀ c ∈ cs, ∀ s ∈ c.leaves, p s = wanted c := by
  induction cs with
  | nil => exact ⟨fun _ => false, by simp⟩
  | cons c cs ih =>
    rw [List.flatMap_cons, List.nodup_append] at h
    obtain ⟨-, hcs, hdisjoint⟩ := h
    obtain ⟨p, hp⟩ := ih hcs
    refine ⟨fun s => if s ∈ c.leaves then wanted c else p s, ?_⟩
    intro d hd s hs
    obtain rfl | hd := List.mem_cons.1 hd
    · simp [hs]
    · have hnot : s ∉ c.leaves := fun hc =>
        hdisjoint s hc s (List.mem_flatMap.2 ⟨d, hd, hs⟩) rfl
      simp [hnot, hp d hd s hs]

/-- Conditions without a raw text in common can be met independently. -/
theorem exists_given {cs : List Condition} (h : (cs.flatMap leaves).Nodup)
    (wanted : Condition → Bool) : ∃ given : Formula → Bool, ∀ c ∈ cs, c.holds given = wanted c ∧
      (c.isSplit = true → c.left.formula.truth given = wanted c ∧
        c.right.formula.truth given = wanted c) := by
  obtain ⟨p, hp⟩ := exists_values h fun c => wanted c != c.inverted
  refine ⟨fun f => p f.lead, fun c hc => ?_⟩
  have hvalue := hp c hc
  have hoperand := Operand.truth_eq hvalue
  refine ⟨?_, fun hs => ?_⟩
  · cases hi : c.inverted <;> simp [holds, formula, Formula.truth, hi, hoperand]
  · have hi : c.inverted = false := by
      simp only [isSplit, Bool.and_eq_true, Bool.not_eq_true'] at hs
      exact hs.1
    have hleft := Operand.truth_eq fun s hs => hvalue s (List.mem_append_left _ hs)
    have hright := Operand.truth_eq fun s hs => hvalue s (List.mem_append_right _ hs)
    simp [hleft, hright, hi]

/-- A bare `||` that is met on its right makes up for all that stands before it. -/
theorem anyHolds_of_isSplit {given : Formula → Bool} {cs : List Condition}
    (hs : ∃ c ∈ cs, c.isSplit = true) (h : ∀ c ∈ cs, c.holds given = true)
    (hright : ∀ c ∈ cs, c.isSplit = true → c.right.formula.truth given = true)
    (fs : List Formula) : anyHolds given fs cs = true := by
  induction cs generalizing fs with
  | nil => simp at hs
  | cons c cs ih =>
    cases hc : c.isSplit with
    | true =>
      have hrest : anyHolds given [c.right.formula] cs = true := by
        refine anyHolds_of_all ?_ (List.all_eq_true.2 fun d hd => h d (by simp [hd]))
        simp [hright c (by simp) hc]
      rw [anyHolds_cons_of_isSplit hc, hrest, Bool.or_true]
    | false =>
      rw [anyHolds_cons_of_not_isSplit hc]
      refine ih ?_ (fun d hd => h d (by simp [hd])) (fun d hd => hright d (by simp [hd])) _
      simpa [hc] using hs

/-- A bare `||` beside another condition can open what the conditions close, if no two of their
raw texts are the same. -/
theorem exists_anyHolds_of_not_unsplit {cs : List Condition} (h : (cs.flatMap leaves).Nodup)
    (hs : ¬Unsplit cs) :
    ∃ given, anyHolds given [] cs = true ∧ cs.all (holds given) = false := by
  simp only [Unsplit, not_or, Nat.not_le, not_forall, Bool.not_eq_false, exists_prop] at hs
  obtain ⟨hlength, hsplit⟩ := hs
  rcases cs with _ | ⟨c, _ | ⟨d, cs⟩⟩
  · simp at hlength
  · simp at hlength
  · cases hc : c.isSplit with
    | true =>
      -- The left side of the first condition is an alternative of its own: only the second fails.
      obtain ⟨given, hgiven⟩ := exists_given h fun e => e != d
      have hcd : d ≠ c := ne_of_nodup_leaves h (by simp)
      have hleft := ((hgiven c (by simp)).2 hc).1
      have hd := (hgiven d (by simp)).1
      refine ⟨given, ?_, ?_⟩
      · rw [anyHolds_cons_of_isSplit hc, hleft]
        simp [hcd.symm]
      · simp [hd]
    | false =>
      -- The alternative after the last bare `||` leaves out the first condition: only that fails.
      obtain ⟨given, hgiven⟩ := exists_given h fun e => e != c
      have hother : ∀ e ∈ d :: cs, (e != c) = true := fun e he => by
        simpa using ne_of_nodup_leaves h he
      have hfirst := (hgiven c (by simp)).1
      refine ⟨given, ?_, by simp [hfirst]⟩
      rw [anyHolds_cons_of_not_isSplit hc]
      refine anyHolds_of_isSplit ?_ ?_ ?_ _
      · simpa [hc] using hsplit
      · intro e he
        rw [(hgiven e (List.mem_cons_of_mem c he)).1, hother e he]
      · intro e he hes
        rw [((hgiven e (List.mem_cons_of_mem c he)).2 hes).2, hother e he]

def signedIn : Condition :=
  { left := .literal "request.auth", comparator := .ne, right := .literal "null" }

end Condition

def Clause.condition? : Clause → Option Condition
  | .raw _ => none
  | .condition c => some c

def Clause.isPlain : Clause → Bool
  | .raw _ => false
  | .condition c => c.isPlain

namespace AllowRule

def isPlain (r : AllowRule) : Bool := r.conditions.all Clause.isPlain && r.claims.isEmpty

/-- What a plain rule demands. -/
def demands (r : AllowRule) : List Condition :=
  r.conditions.filterMap Clause.condition? ++ if r.requireAuth then [.signedIn] else []

theorem map_text_conditions {clauses : List Clause} (h : clauses.all Clause.isPlain = true) :
    clauses.map Clause.text = (clauses.filterMap Clause.condition?).map Condition.text := by
  induction clauses with
  | nil => rfl
  | cons c clauses ih =>
    obtain ⟨hc, hclauses⟩ : c.isPlain = true ∧ clauses.all Clause.isPlain = true := by
      simpa [-List.all_eq_true] using h
    cases c with
    | raw s => simp [Clause.isPlain] at hc
    | condition c => simp [Clause.text, Clause.condition?, ih hclauses]

theorem conditionTexts_eq_map {r : AllowRule} (h : r.isPlain = true) :
    r.conditionTexts = r.demands.map Condition.text := by
  obtain ⟨hconditions, hclaims⟩ : r.conditions.all Clause.isPlain = true ∧ r.claims = [] := by
    simpa [isPlain, -List.all_eq_true] using h
  rw [conditionTexts, demands, map_text_conditions hconditions, hclaims, List.map_append]
  have hsigned : Condition.signedIn.text = AccessRules.signedIn := by decide
  cases r.requireAuth <;> simp [hsigned]

theorem isPlain_of_mem_demands {r : AllowRule} (h : r.isPlain = true) {c : Condition}
    (hc : c ∈ r.demands) : c.isPlain = true := by
  obtain ⟨hconditions, -⟩ : r.conditions.all Clause.isPlain = true ∧ r.claims = [] := by
    simpa [isPlain, -List.all_eq_true] using h
  obtain hc | hc := List.mem_append.1 hc
  · obtain ⟨clause, hmem, hclause⟩ := List.mem_filterMap.1 hc
    have hplain := List.all_eq_true.1 hconditions clause hmem
    cases clause with
    | raw s => simp [Clause.isPlain] at hplain
    | condition d =>
      obtain rfl : d = c := by simpa [Clause.condition?] using hclause
      exact hplain
  · cases hr : r.requireAuth with
    | false => simp [hr] at hc
    | true =>
      obtain rfl : c = .signedIn := by simpa [hr] using hc
      decide

end AllowRule

/-- Where the grants demand something of a method, they demand all that each of them demands. -/
theorem GrantNode.grantedCondition_of_ne_empty {n : GrantNode} {m : Method}
    (h : n.grantedCondition m ≠ "") :
    n.grantedCondition m = Statement.conjunction (n.occurrences m).flatten := by
  rw [← Statement.conjunction_map_conjunction]
  unfold grantedCondition at h ⊢
  revert h
  cases n.occurrences m with
  | nil => simp
  | cons first rest =>
    intro h
    by_cases hfirst : Statement.conjunction first = ""
    · simp [hfirst] at h
    · simp only [hfirst, if_false]

namespace Node

def isPlain (n : Node) : Bool := n.allowRules.all AllowRule.isPlain && n.fieldRules.isEmpty

def demands (n : Node) (m : Method) : List Condition := (n.granting m).flatMap AllowRule.demands

theorem isPlain_of_mem_granting {n : Node} (h : n.isPlain = true) {m : Method} {r : AllowRule}
    (hr : r ∈ n.granting m) : r.isPlain = true :=
  List.all_eq_true.1 (Bool.and_eq_true_iff.1 h).1 r (List.mem_filter.1 hr).1

theorem isPlain_of_mem_demands {n : Node} (h : n.isPlain = true) {m : Method} {c : Condition}
    (hc : c ∈ n.demands m) : c.isPlain = true := by
  obtain ⟨r, hr, hc⟩ := List.mem_flatMap.1 hc
  exact AllowRule.isPlain_of_mem_demands (isPlain_of_mem_granting h hr) hc

theorem flatten_occurrences_flatten {n : Node} (h : n.isPlain = true) (m : Method) :
    (n.flatten.occurrences m).flatten = (n.demands m).map Condition.text := by
  have htexts : (n.granting m).map AllowRule.conditionTexts =
      (n.granting m).map fun r => r.demands.map Condition.text :=
    List.map_congr_left fun r hr => AllowRule.conditionTexts_eq_map (isPlain_of_mem_granting h hr)
  rw [n.occurrences_flatten, htexts, demands, List.map_flatMap, List.flatMap]

theorem conditionOf_eq_conjunction {n : Node} (h : n.isPlain = true) {m : Method}
    (hne : n.flatten.conditionOf m ≠ "") :
    n.flatten.conditionOf m = Statement.conjunction ((n.demands m).map Condition.text) := by
  have hfields : n.flatten.fieldChecks m = [] := by
    have hnone : n.flatten.fieldRules = [] := List.isEmpty_iff.1 (Bool.and_eq_true_iff.1 h).2
    cases m <;> simp [GrantNode.fieldChecks, GrantNode.typeChecks, hnone]
  have hgranted : n.flatten.grantedCondition m ≠ "" := by
    intro hempty
    exact hne (by simp [GrantNode.conditionOf, hfields, hempty])
  rw [GrantNode.conditionOf, hfields, List.filter_cons_of_pos (by simpa using hgranted),
    List.filter_nil, List.append_nil, Statement.conjunction_singleton,
    GrantNode.grantedCondition_of_ne_empty hgranted, flatten_occurrences_flatten h]

/-- The condition that a plain node states for a method holds if one of the alternatives of what
its rules demand does. So it holds whenever all demands are met. It holds only then if no `||`
stands bare beside another demand, and in no other case if no raw text occurs twice in the
demands. -/
theorem read_allow_condition {n : Node} (hn : n.isPlain = true) {m : Method} {text : String}
    (h : "allow " ++ m.token ++ ": if " ++ text ++ ";" ∈ n.flatten.merge.statements) :
    (∀ c ∈ n.demands m, Reading.read c.text = some c.formula) ∧
    ∃ f, Reading.read text = some f ∧
      (∀ given, f.truth given = Condition.anyHolds given [] (n.demands m)) ∧
      (∀ given, (n.demands m).all (Condition.holds given) = true → f.truth given = true) ∧
      (Condition.Unsplit (n.demands m) →
        ∀ given, f.truth given = (n.demands m).all (Condition.holds given)) ∧
      (((n.demands m).flatMap Condition.leaves).Nodup →
        (∀ given, f.truth given = (n.demands m).all (Condition.holds given)) →
          Condition.Unsplit (n.demands m)) := by
  obtain ⟨-, hcondition, hne⟩ := GrantNode.allow_if_mem_merge_iff.1 h
  have htext : text = Statement.conjunction ((n.demands m).map Condition.text) := by
    rw [← hcondition]
    exact conditionOf_eq_conjunction hn (hcondition ▸ hne)
  have hdemands : n.demands m ≠ [] := by
    intro hnil
    rw [hnil] at htext
    exact hne htext
  have hplain : ∀ c ∈ n.demands m, c.isPlain = true := fun c hc => isPlain_of_mem_demands hn hc
  obtain ⟨f, hf, htruth⟩ := Formula.exists_disjoin (Condition.alternatives_ne_nil [] (n.demands m))
    fun gs hg => Condition.ne_nil_of_mem_alternatives (.inr hdemands) hg
  refine ⟨fun c hc => Condition.read_text (hplain c hc), f, ?_, htruth, ?_, ?_, ?_⟩
  · rw [htext, Condition.read_conjunction hdemands hplain, hf]
  · intro given hall
    exact (htruth given).trans (Condition.anyHolds_of_all rfl hall)
  · intro hunsplit given
    exact (htruth given).trans (Condition.anyHolds_of_unsplit hunsplit)
  · intro hnodup hsame
    by_contra hsplit
    obtain ⟨given, hany, hall⟩ := Condition.exists_anyHolds_of_not_unsplit hnodup hsplit
    rw [← hsame given, htruth given] at hall
    exact Bool.noConfusion (hany.symm.trans hall)

/-- A bare `||` in front of another condition lets a request through that this condition forbids. -/
theorem read_allow_condition_rebound :
    let n : Node :=
      { segment := { collection := "users", wildcard := "uid" }
        allowRules := [{ methods := [.get], conditions := [
          .condition { left := .literal "a", comparator := .or, right := .literal "b" },
          .condition { left := .literal "c", comparator := .eq, right := .literal "d" }] }] }
    n.isPlain = true ∧
    "allow " ++ Method.get.token ++ ": if " ++ "a || b && c == d" ++ ";" ∈
      n.flatten.merge.statements ∧
    ∃ f given, Reading.read "a || b && c == d" = some f ∧ f.truth given = true ∧
      (n.demands .get).all (Condition.holds given) = false := by
  intro n
  have hn : n.isPlain = true := by decide
  have hmem : "allow " ++ Method.get.token ++ ": if " ++ "a || b && c == d" ++ ";" ∈
      n.flatten.merge.statements := by decide
  refine ⟨hn, hmem, ?_⟩
  obtain ⟨-, f, hf, htruth, -⟩ := read_allow_condition hn hmem
  refine ⟨f, fun g => g == .atom "a", hf, ?_, by decide⟩
  rw [htruth]
  decide

end Node
end AccessRules
