import AccessRules.Proofs.Reading
import AccessRules.Proofs.Emission

/-! Joined conditions read back. The conditions of a method are joined by `&&`, and a condition
stands in no parentheses of its own. Read back, a condition whose own operator is `||` therefore
ends one alternative and starts the next, and every other condition adds to the alternative it
stands in. -/
namespace AccessRules
open Reading

namespace Formula

def extend (c : Comparator) (left? : Option Formula) (f : Formula) : Formula :=
  left?.elim f fun left => .binary left (.compare c) f

def join (c : Comparator) (fs : List Formula) : Option Formula :=
  fs.foldl (fun left? f => some (extend c left? f)) none

/-- Alternatives joined by `||`, each of them joined by `&&`. -/
def disjoin (alternatives : List (List Formula)) : Option Formula :=
  join .or (alternatives.filterMap (join .and))

@[simp] theorem join_nil (c : Comparator) : join c [] = none := rfl

@[simp] theorem join_concat (c : Comparator) (fs : List Formula) (f : Formula) :
    join c (fs ++ [f]) = some (extend c (join c fs) f) := by
  simp [join, List.foldl_append]

theorem join_eq_none_iff {c : Comparator} {fs : List Formula} : join c fs = none ↔ fs = [] := by
  induction fs using List.reverseRecOn with
  | nil => simp
  | append_singleton fs f _ => simp

theorem disjoin_concat {alternatives : List (List Formula)} {fs : List Formula} {f : Formula}
    (h : join .and fs = some f) :
    disjoin (alternatives ++ [fs]) = some (extend .or (disjoin alternatives) f) := by
  have hone : [fs].filterMap (join .and) = [f] := by simp [h]
  rw [disjoin, List.filterMap_append, hone, join_concat]
  rfl

theorem truth_of_join_and {given : Formula → Bool} {fs : List Formula} {f : Formula}
    (h : join .and fs = some f) : f.truth given = fs.all (truth given) := by
  induction fs using List.reverseRecOn generalizing f with
  | nil => simp at h
  | append_singleton fs g ih =>
    rw [join_concat, Option.some.injEq] at h
    subst h
    cases hj : join .and fs with
    | none => simp [extend, join_eq_none_iff.1 hj]
    | some l => simp [extend, truth, ih hj]

theorem truth_of_join_or {given : Formula → Bool} {fs : List Formula} {f : Formula}
    (h : join .or fs = some f) : f.truth given = fs.any (truth given) := by
  induction fs using List.reverseRecOn generalizing f with
  | nil => simp at h
  | append_singleton fs g ih =>
    rw [join_concat, Option.some.injEq] at h
    subst h
    cases hj : join .or fs with
    | none => simp [extend, join_eq_none_iff.1 hj]
    | some l => simp [extend, truth, ih hj]

theorem any_truth_filterMap_join {given : Formula → Bool} {alternatives : List (List Formula)}
    (h : ∀ fs ∈ alternatives, fs ≠ []) :
    (alternatives.filterMap (join .and)).any (truth given) =
      alternatives.any fun fs => fs.all (truth given) := by
  induction alternatives with
  | nil => rfl
  | cons fs rest ih =>
    have hfs : join .and fs ≠ none := mt join_eq_none_iff.1 (h fs (by simp))
    obtain ⟨f, hf⟩ := Option.ne_none_iff_exists'.1 hfs
    rw [List.filterMap_cons_some hf, List.any_cons, List.any_cons, truth_of_join_and hf,
      ih fun gs hgs => h gs (by simp [hgs])]

theorem exists_disjoin {alternatives : List (List Formula)}
    (hne : alternatives ≠ []) (h : ∀ fs ∈ alternatives, fs ≠ []) :
    ∃ f, disjoin alternatives = some f ∧
      ∀ given, f.truth given = alternatives.any fun fs => fs.all (truth given) := by
  have hsome : disjoin alternatives ≠ none := by
    intro hnone
    obtain ⟨fs, hfs⟩ := List.exists_mem_of_ne_nil _ hne
    have hjoin := List.filterMap_eq_nil_iff.1 (join_eq_none_iff.1 hnone) fs hfs
    exact h fs hfs (join_eq_none_iff.1 hjoin)
  obtain ⟨f, hf⟩ := Option.ne_none_iff_exists'.1 hsome
  refine ⟨f, hf, fun given => ?_⟩
  rw [truth_of_join_or hf, any_truth_filterMap_join h]

end Formula

namespace Reading
open Formula

/-- What waits in front of the next condition: the open alternative, and those before it. -/
def waiting (before : List (List Formula)) (fs : List Formula) : List Pending :=
  ((join .and fs).map (Pending.binary · (.compare .and))).toList ++
    ((disjoin before).map (Pending.binary · (.compare .or))).toList

variable (before : List (List Formula)) (fs : List Formula) (f : Formula)

theorem close_waiting_of_lt {level : Nat} (h : 1 < level) :
    close level (waiting before fs) f = (waiting before fs, f) := by
  have hlevel : level ≠ 0 ∧ ¬level ≤ 1 := by omega
  unfold waiting
  cases join .and fs <;> cases disjoin before <;> simp [close, Operator.level, hlevel]

theorem close_one_waiting :
    close 1 (waiting before fs) f = (waiting before [], extend .and (join .and fs) f) := by
  unfold waiting
  cases join .and fs <;> cases disjoin before <;> simp [close, Operator.level, extend]

theorem close_zero_waiting : close 0 (waiting before fs) f =
    ([], extend .or (disjoin before) (extend .and (join .and fs) f)) := by
  unfold waiting
  cases join .and fs <;> cases disjoin before <;> simp [close, Operator.level, extend]

def resume (before : List (List Formula)) (fs : List Formula) : List Token → Option Formula
  | .operator (.compare .and) :: ts => readOperand (waiting before fs) ts
  | _ => disjoin (before ++ [fs])

/-- What can follow a condition. -/
def Ends (ts : List Token) : Prop := ts = [] ∨ ∃ rest, ts = .operator (.compare .and) :: rest

theorem readOperator_waiting {ts : List Token} (h : Ends ts) :
    readOperator (waiting before fs) f ts = resume before (fs ++ [f]) ts := by
  obtain rfl | ⟨rest, rfl⟩ := h
  · simp only [readOperator, close_zero_waiting, resume]
    rw [disjoin_concat (join_concat .and fs f)]
  · have hlevel : (Operator.compare .and).level = 1 := rfl
    simp only [readOperator, hlevel, close_one_waiting, resume]
    simp [waiting]

theorem readOperator_and (ts : List Token) :
    readOperator (waiting before fs) f (.operator (.compare .and) :: ts) =
      readOperand (waiting before (fs ++ [f])) ts :=
  readOperator_waiting before fs f (.inr ⟨ts, rfl⟩)

theorem readOperator_or (ts : List Token) :
    readOperator (waiting before fs) f (.operator (.compare .or) :: ts) =
      readOperand (waiting (before ++ [fs ++ [f]]) []) ts := by
  have hlevel : (Operator.compare .or).level = 0 := rfl
  simp only [readOperator, hlevel, close_zero_waiting]
  simp [waiting, disjoin_concat (join_concat .and fs f)]

theorem readOperator_binary {c : Comparator} (hc : 1 < (Operator.compare c).level) (a : Formula)
    (pending : List Pending) {ts : List Token} (h : Ends ts) :
    readOperator (.binary a (.compare c) :: pending) f ts =
      readOperator pending (.binary a (.compare c) f) ts := by
  obtain rfl | ⟨rest, rfl⟩ := h
  · simp [readOperator, close]
  · have hlevel : (Operator.compare .and).level ≤ (Operator.compare c).level := Nat.le_of_lt hc
    simp [readOperator, close, hlevel]

theorem readOperator_negation (pending : List Pending) (ts : List Token) :
    readOperator (.negation :: pending) f ts = readOperator pending (.negation f) ts := by
  cases ts with
  | nil => simp only [readOperator, close]
  | cons t ts => cases t <;> simp only [readOperator, close]

end Reading

namespace Condition

def operand (c : Condition) : Operand := .binary c.left (.compare c.comparator) c.right

def isPlain (c : Condition) : Bool := c.operand.isPlain && c.override?.isNone

def formula (c : Condition) : Formula :=
  if c.inverted then .negation c.operand.formula else c.operand.formula

def tokens (c : Condition) : List Token :=
  if c.inverted then .bang :: c.operand.tokens
  else c.left.tokens ++ .operator (.compare c.comparator) :: c.right.tokens

/-- The condition is a `||` without parentheses around it. -/
def isSplit (c : Condition) : Bool := !c.inverted && c.comparator == .or

/-- The formulas that the condition adds to an alternative: two for a bare `&&`, else itself. -/
def parts (c : Condition) : List Formula :=
  if !c.inverted && c.comparator == .and then [c.left.formula, c.right.formula] else [c.formula]

theorem toList_comparison_of_inverted {c : Condition} (h : c.inverted = true) :
    c.comparison.toList = '!' :: c.operand.text.toList := by
  rw [operand, Operand.toList_text_binary]
  simp only [comparison, h, if_true, String.toList_append, List.append_assoc]
  rfl

theorem toList_comparison_of_not_inverted {c : Condition} (h : c.inverted = false) :
    c.comparison.toList = c.left.text.toList ++
      ' ' :: ((Operator.compare c.comparator).token.toList ++ ' ' :: c.right.text.toList) := by
  simp only [comparison, h, Bool.false_eq_true, if_false, String.toList_append, List.append_assoc]
  rfl

theorem tokens_text {c : Condition} (hc : c.isPlain = true) {cs : List Char} (h : EndsWord cs) :
    Reading.tokens (c.text.toList ++ cs) = c.tokens ++ Reading.tokens cs := by
  obtain ⟨hoperand, hoverride⟩ : c.operand.isPlain = true ∧ c.override? = none := by
    simpa [isPlain] using hc
  obtain ⟨hleft, hright⟩ : c.left.isPlain = true ∧ c.right.isPlain = true := by
    simpa [operand, Operand.isPlain] using hoperand
  rw [text, hoverride]
  cases hi : c.inverted with
  | true =>
    obtain ⟨ds, hds⟩ : ∃ ds, c.operand.text.toList = '(' :: ds :=
      ⟨_, Operand.toList_text_binary c.left c.right (.compare c.comparator)⟩
    have htokens := Operand.tokens_text hoperand h
    rw [hds, List.cons_append, tokens_opening] at htokens
    simp only [toList_comparison_of_inverted hi, hds, List.cons_append, tokens_bang_opening,
      htokens, tokens, hi, if_true]
  | false =>
    simp only [toList_comparison_of_not_inverted hi, List.append_assoc, List.cons_append, tokens,
      hi]
    rw [Operand.tokens_text hleft (endsWord_cons rfl _), tokens_blank,
      tokens_operator, Operand.tokens_text hright h]
    simp

/-- The alternatives that a condition ends. -/
def ended (c : Condition) (fs : List Formula) : List (List Formula) :=
  if c.isSplit then [fs ++ [c.left.formula]] else []

/-- The alternative that a condition leaves open. -/
def opened (c : Condition) (fs : List Formula) : List Formula :=
  if c.isSplit then [c.right.formula] else fs ++ c.parts

/-- What reading a condition does to what waits in front of it. -/
theorem readOperand_tokens (c : Condition) (before : List (List Formula)) (fs : List Formula)
    {ts : List Token} (h : Ends ts) :
    readOperand (waiting before fs) (c.tokens ++ ts) =
      resume (before ++ c.ended fs) (c.opened fs) ts := by
  cases hi : c.inverted with
  | true =>
    have hread := Operand.readOperand_tokens c.operand (.negation :: waiting before fs) ts
    rw [readOperator_negation, readOperator_waiting before fs _ h] at hread
    simp only [tokens, hi, if_true, List.cons_append, readOperand, hread]
    simp [ended, opened, isSplit, parts, formula, hi]
  | false =>
    simp only [tokens, hi, Bool.false_eq_true, if_false, List.append_assoc, List.cons_append]
    rw [Operand.readOperand_tokens]
    by_cases hor : c.comparator = .or
    · rw [hor, readOperator_or, Operand.readOperand_tokens, readOperator_waiting _ _ _ h]
      simp [ended, opened, isSplit, hi, hor]
    by_cases hand : c.comparator = .and
    · rw [hand, readOperator_and, Operand.readOperand_tokens, readOperator_waiting _ _ _ h]
      simp [ended, opened, isSplit, parts, hi, hand]
    · have hlevel : 1 < (Operator.compare c.comparator).level := by
        revert hor hand
        cases c.comparator <;> decide
      simp only [readOperator, close_waiting_of_lt before fs _ hlevel]
      rw [Operand.readOperand_tokens, readOperator_binary _ hlevel _ _ h,
        readOperator_waiting _ _ _ h]
      simp [ended, opened, isSplit, parts, formula, operand, Operand.formula, hi, hor, hand]

/-- The alternatives that joined conditions amount to, after the formulas of an open one. -/
def alternatives (fs : List Formula) : List Condition → List (List Formula)
  | [] => [fs]
  | c :: cs => c.ended fs ++ alternatives (c.opened fs) cs

def joinedTokens : List Condition → List Token
  | [] => []
  | [c] => c.tokens
  | c :: d :: cs => c.tokens ++ .operator (.compare .and) :: joinedTokens (d :: cs)

theorem tokens_conjunction {cs : List Condition} (h : ∀ c ∈ cs, c.isPlain = true) :
    Reading.tokens (Statement.conjunction (cs.map text)).toList = joinedTokens cs := by
  induction cs using joinedTokens.induct with
  | case1 => rfl
  | case2 c =>
    have hc : Reading.tokens (c.text.toList ++ []) = c.tokens ++ Reading.tokens [] :=
      tokens_text (h c (by simp)) endsWord_nil
    simpa [joinedTokens] using hc
  | case3 c d cs ih =>
    have hjoined : (Statement.conjunction ((c :: d :: cs).map text)).toList = c.text.toList ++
        ' ' :: ((Operator.compare .and).token.toList ++
          ' ' :: (Statement.conjunction ((d :: cs).map text)).toList) := by
      rw [List.map_cons, List.map_cons, Statement.conjunction_cons_cons, Statement.conjoin]
      simp only [String.toList_append, List.append_assoc]
      rfl
    rw [hjoined, tokens_text (h c (by simp)) (endsWord_cons rfl _), tokens_blank,
      tokens_operator, ih fun e he => h e (by simp [he])]
    rfl

theorem readOperand_joinedTokens {cs : List Condition} (hne : cs ≠ [])
    (before : List (List Formula)) (fs : List Formula) :
    readOperand (waiting before fs) (joinedTokens cs) =
      Formula.disjoin (before ++ alternatives fs cs) := by
  induction cs using joinedTokens.induct generalizing before fs with
  | case1 => exact absurd rfl hne
  | case2 c =>
    have hread := readOperand_tokens c before fs (.inl rfl)
    simpa [joinedTokens, alternatives, resume] using hread
  | case3 c d cs ih =>
    rw [joinedTokens, readOperand_tokens c before fs (.inr ⟨_, rfl⟩), resume,
      ih (by simp), List.append_assoc]
    rfl

theorem read_conjunction {cs : List Condition} (hne : cs ≠ []) (h : ∀ c ∈ cs, c.isPlain = true) :
    Reading.read (Statement.conjunction (cs.map text)) = Formula.disjoin (alternatives [] cs) := by
  rw [Reading.read, tokens_conjunction h]
  exact readOperand_joinedTokens hne [] []

theorem parts_ne_nil (c : Condition) : c.parts ≠ [] := by
  unfold parts
  split <;> simp

theorem alternatives_ne_nil (fs : List Formula) (cs : List Condition) :
    alternatives fs cs ≠ [] := by
  induction cs generalizing fs with
  | nil => simp [alternatives]
  | cons c cs ih => simp [alternatives, ih]

theorem ne_nil_of_mem_alternatives {cs : List Condition} {fs gs : List Formula}
    (h : fs ≠ [] ∨ cs ≠ []) (hg : gs ∈ alternatives fs cs) : gs ≠ [] := by
  induction cs generalizing fs with
  | nil =>
    obtain rfl : gs = fs := by simpa [alternatives] using hg
    simpa using h
  | cons c cs ih =>
    obtain hended | hrest := List.mem_append.1 hg
    · unfold ended at hended
      split at hended
      · simp_all
      · simp at hended
    · refine ih (.inl ?_) hrest
      unfold opened
      split <;> simp [parts_ne_nil]

/-- A plain condition on its own is read as what it means. -/
theorem read_text {c : Condition} (h : c.isPlain = true) :
    Reading.read c.text = some c.formula := by
  have hread := read_conjunction (List.cons_ne_nil c []) (by simpa using h)
  rw [List.map_singleton, Statement.conjunction_singleton] at hread
  rw [hread]
  cases hi : c.inverted with
  | true => simp [alternatives, ended, opened, isSplit, parts, hi, Formula.disjoin, Formula.join,
      Formula.extend]
  | false =>
    by_cases hor : c.comparator = .or
    · simp [alternatives, ended, opened, isSplit, hi, hor, Formula.disjoin, Formula.join,
        Formula.extend, formula, operand, Operand.formula]
    by_cases hand : c.comparator = .and
    · simp [alternatives, ended, opened, isSplit, parts, hi, hand, Formula.disjoin, Formula.join,
        Formula.extend, formula, operand, Operand.formula]
    · simp [alternatives, ended, opened, isSplit, parts, hi, hor, hand, Formula.disjoin,
        Formula.join, Formula.extend]

end Condition
end AccessRules
