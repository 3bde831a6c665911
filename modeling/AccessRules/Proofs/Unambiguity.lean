import AccessRules.Proofs.Conjunction
import AccessRules.Proofs.Nesting

/-! Texts of expressions read back without a table of precedences. If no raw text holds a blank or
a parenthesis, the text of an expression has three pieces outside all parentheses: its left
operand, its operator and its right operand. An operand in parentheses is an expression again, so
that the whole tree is read back from its text, and different trees have different texts. -/
namespace AccessRules
open Text

namespace Operand

/-- No raw text of the operand holds a blank or a parenthesis. -/
def isCompact : Operand → Bool
  | .literal s => Text.isCompact s.toList
  | .binary a _ b => a.isCompact && b.isCompact

/-- Reads an operand: what stands in parentheses is an expression, and all else is raw text. -/
def ofText? (cs : List Char) : Option Operand :=
  match _ : enclosed? '(' ')' cs with
  | none => some (.literal (String.ofList cs))
  | some inner =>
    match _ : pieces 0 inner with
    | [left, operator, right] => do
      let a ← ofText? left
      let o ← Operator.ofToken? (String.ofList operator)
      let b ← ofText? right
      return .binary a o b
    | _ => none
termination_by cs.length
decreasing_by
  all_goals
    refine length_lt_of_mem_pieces_enclosed (u := inner) (by assumption) ?_
    rw [‹pieces 0 inner = [left, operator, right]›]
    simp

theorem ofText?_of_enclosed?_eq_none {cs : List Char} (h : enclosed? '(' ')' cs = none) :
    ofText? cs = some (.literal (String.ofList cs)) := by
  rw [ofText?]
  split
  · rfl
  · next hin => simp [h] at hin

theorem ofText?_of_pieces {cs inner left operator right : List Char}
    (h : enclosed? '(' ')' cs = some inner) (hp : pieces 0 inner = [left, operator, right]) :
    ofText? cs = (do
      let a ← ofText? left
      let o ← Operator.ofToken? (String.ofList operator)
      let b ← ofText? right
      return .binary a o b) := by
  rw [ofText?]
  split
  · next hin => simp [h] at hin
  · next inner' hin =>
    obtain rfl : inner = inner' := by simpa [h] using hin
    split
    · next hq =>
      rw [hp] at hq
      obtain ⟨rfl, rfl, rfl⟩ : left = _ ∧ operator = _ ∧ right = _ := by simpa using hq
      rfl
    · next hq => exact absurd hp (hq _ _ _)

end Operand

theorem Operator.solid_token (o : Operator) : Solid [' '] 0 o.token.toList := by
  have hcompact : Text.isCompact o.token.toList = true := by
    rcases o with c | a
    · cases c <;> decide
    · cases a <;> decide
  exact solid_of_isCompact hcompact

namespace Expression

def isCompact (e : Expression) : Bool := e.left.isCompact && e.right.isCompact

/-- Reads an expression from its three pieces. -/
def ofPieces? : List (List Char) → Option Expression
  | [left, operator, right] => do
    let a ← Operand.ofText? left
    let o ← Operator.ofToken? (String.ofList operator)
    let b ← Operand.ofText? right
    return ⟨a, o, b⟩
  | _ => none

def ofText? (s : String) : Option Expression := ofPieces? (pieces 0 s.toList)

theorem toList_text (e : Expression) : e.text.toList =
    e.left.text.toList ++ ' ' :: (e.operator.token.toList ++ ' ' :: e.right.text.toList) := by
  simp only [text, String.toList_append, List.append_assoc]
  rfl

theorem toList_text_toOperand (e : Expression) :
    e.toOperand.text.toList = '(' :: (e.text.toList ++ [')']) := by
  rw [toOperand, Operand.toList_text_binary, toList_text]
  simp

theorem solid_text {e : Expression} (hleft : Solid [' '] 0 e.left.text.toList)
    (hright : Solid [' '] 0 e.right.text.toList) : Solid [' '] 1 e.text.toList := by
  have ha : Solid [' '] 1 e.left.text.toList := hleft.mono (Nat.zero_le 1)
  have ho : Solid [' '] 1 e.operator.token.toList := e.operator.solid_token.mono (Nat.zero_le 1)
  have hb : Solid [' '] 1 e.right.text.toList := hright.mono (Nat.zero_le 1)
  have hblank : Solid [' '] 1 [' '] := by decide
  rw [toList_text]
  exact ha.append (hblank.cons (ho.append (hblank.cons hb)))

end Expression

namespace Operand

theorem solid_text {o : Operand} (h : o.isCompact = true) : Solid [' '] 0 o.text.toList := by
  induction o with
  | literal s => exact solid_of_isCompact h
  | binary a o b iha ihb =>
    obtain ⟨ha, hb⟩ : a.isCompact = true ∧ b.isCompact = true := by simpa [isCompact] using h
    have hinner : Solid [' '] 1 (Expression.mk a o b).text.toList :=
      Expression.solid_text (iha ha) (ihb hb)
    have htext := Expression.toList_text_toOperand ⟨a, o, b⟩
    rw [Expression.toOperand] at htext
    rw [htext]
    exact hinner.group

end Operand

namespace Expression

theorem pieces_text {e : Expression} (h : e.isCompact = true) :
    pieces 0 e.text.toList =
      [e.left.text.toList, e.operator.token.toList, e.right.text.toList] := by
  obtain ⟨hleft, hright⟩ : e.left.isCompact = true ∧ e.right.isCompact = true := by
    simpa [isCompact] using h
  have hblank : ' ' ∈ [' '] := List.mem_singleton_self ' '
  rw [toList_text, pieces_solid_blank (Operand.solid_text hleft) hblank,
    pieces_solid_blank e.operator.solid_token hblank,
    pieces_of_solid (Operand.solid_text hright) hblank]

end Expression

namespace Operand

theorem enclosed?_of_isCompact {s : String} (h : (literal s).isCompact = true) :
    enclosed? '(' ')' s.toList = none := by
  cases hs : s.toList with
  | nil => rfl
  | cons c cs =>
    have hcs : Text.isCompact (c :: cs) = true := hs ▸ h
    obtain ⟨-, hopen, -⟩ := isCompact_iff.1 hcs c (by simp)
    simp [enclosed?, hopen]

/-- A compact operand is read back from its text. -/
theorem ofText?_text {o : Operand} (h : o.isCompact = true) : ofText? o.text.toList = some o := by
  induction o with
  | literal s =>
    have hread := ofText?_of_enclosed?_eq_none (enclosed?_of_isCompact h)
    simpa using hread
  | binary a o b iha ihb =>
    obtain ⟨ha, hb⟩ : a.isCompact = true ∧ b.isCompact = true := by simpa [isCompact] using h
    have htext : (binary a o b).text.toList = '(' :: ((Expression.mk a o b).text.toList ++ [')']) :=
      Expression.toList_text_toOperand ⟨a, o, b⟩
    have hinner : enclosed? '(' ')' (binary a o b).text.toList =
        some (Expression.mk a o b).text.toList := by
      rw [htext, enclosed?_cons_concat]
    rw [ofText?_of_pieces hinner (Expression.pieces_text h), iha ha, ihb hb, String.ofList_toList,
      Operator.ofToken?_token]
    rfl

end Operand

namespace Expression

theorem ofPieces?_pieces_text {e : Expression} (h : e.isCompact = true) :
    ofPieces? (pieces 0 e.text.toList) = some e := by
  obtain ⟨hleft, hright⟩ : e.left.isCompact = true ∧ e.right.isCompact = true := by
    simpa [isCompact] using h
  rw [pieces_text h, ofPieces?, Operand.ofText?_text hleft, Operand.ofText?_text hright,
    String.ofList_toList, Operator.ofToken?_token]
  rfl

end Expression

namespace Condition

def expression (c : Condition) : Expression := ⟨c.left, .compare c.comparator, c.right⟩

def isCompact (c : Condition) : Bool := c.expression.isCompact

def ofExpression? (inverted : Bool) : Expression → Option Condition
  | ⟨a, .compare c, b⟩ => some { left := a, comparator := c, right := b, inverted := inverted }
  | ⟨_, .arithmetic _, _⟩ => none

/-- Reads a condition: one piece is an inverted comparison, and three pieces are a plain one. -/
def ofText? (s : String) : Option Condition :=
  match pieces 0 s.toList with
  | [piece] =>
    match piece with
    | '!' :: group => do
      let inner ← enclosed? '(' ')' group
      let e ← Expression.ofPieces? (pieces 0 inner)
      ofExpression? true e
    | _ => none
  | ps => do
    let e ← Expression.ofPieces? ps
    ofExpression? false e

theorem toList_text_of_inverted {c : Condition} (h : c.inverted = true) (hnone : c.override? = none) :
    c.text.toList = '!' :: '(' :: (c.expression.text.toList ++ [')']) := by
  rw [text, hnone]
  show c.comparison.toList = _
  rw [toList_comparison_of_inverted h]
  congr 1
  exact Expression.toList_text_toOperand c.expression

theorem toList_text_of_not_inverted {c : Condition} (h : c.inverted = false)
    (hnone : c.override? = none) : c.text.toList = c.expression.text.toList := by
  rw [text, hnone]
  show c.comparison.toList = _
  rw [toList_comparison_of_not_inverted h, Expression.toList_text]
  rfl

theorem pieces_text_of_inverted {c : Condition} (h : c.isCompact = true) (hi : c.inverted = true)
    (hnone : c.override? = none) : pieces 0 c.text.toList = [c.text.toList] := by
  obtain ⟨hleft, hright⟩ : c.left.isCompact = true ∧ c.right.isCompact = true := by
    simpa [isCompact, Expression.isCompact, expression] using h
  have hinner : Solid [' '] 1 c.expression.text.toList :=
    Expression.solid_text (Operand.solid_text hleft) (Operand.solid_text hright)
  have hbang : Solid [' '] 0 ['!'] := solid_of_isCompact (by decide)
  rw [toList_text_of_inverted hi hnone]
  exact pieces_of_solid (hbang.cons hinner.group) (List.mem_singleton_self ' ')

theorem ofText?_text {c : Condition} (h : c.isCompact = true) (hnone : c.override? = none) :
    ofText? c.text = some c := by
  have hread : Expression.ofPieces? (pieces 0 c.expression.text.toList) = some c.expression :=
    Expression.ofPieces?_pieces_text h
  have hself (inverted : Bool) (hi : c.inverted = inverted) :
      ofExpression? inverted c.expression = some c := by
    obtain ⟨left, comparator, right, inverted', override?⟩ := c
    obtain rfl : override? = none := hnone
    obtain rfl : inverted' = inverted := hi
    rfl
  cases hi : c.inverted with
  | true =>
    rw [ofText?, pieces_text_of_inverted h hi hnone, toList_text_of_inverted hi hnone]
    simp only [enclosed?_cons_concat, Option.bind_eq_bind, Option.bind_some, hread, hself true hi]
  | false =>
    have hpieces := Expression.pieces_text h
    rw [hpieces] at hread
    rw [ofText?, toList_text_of_not_inverted hi hnone, hpieces]
    simp only [hread, Option.bind_eq_bind, Option.bind_some, hself false hi]

end Condition

/-- The text of a compact expression has three pieces outside all parentheses, from which it is read
back, so that different expressions have different texts. Different compact conditions without
overrides have different texts too. -/
theorem Expression.text_unambiguous :
    (∀ e : Expression, e.isCompact = true →
      outerPieces e.text = [e.left.text, e.operator.token, e.right.text] ∧
        ofText? e.text = some e) ∧
    (∀ e f : Expression, e.isCompact = true → f.isCompact = true → e.text = f.text → e = f) ∧
    ∀ c d : Condition, c.isCompact = true → d.isCompact = true →
      c.override? = none → d.override? = none → c.text = d.text → c = d := by
  refine ⟨fun e he => ⟨?_, ofPieces?_pieces_text he⟩, ?_, ?_⟩
  · rw [outerPieces, pieces_text he]
    simp
  · intro e f he hf htext
    have hread : ofText? e.text = some e := ofPieces?_pieces_text he
    rw [htext] at hread
    exact Option.some.inj (hread.symm.trans (ofPieces?_pieces_text hf))
  · intro c d hc hd hcnone hdnone htext
    have hread := Condition.ofText?_text hc hcnone
    rw [htext] at hread
    exact Option.some.inj (hread.symm.trans (Condition.ofText?_text hd hdnone))

/-- Operators that are words, empty raw texts and nested expressions are told apart by their
places. -/
theorem Expression.text_unambiguous_words :
    let e : Expression := ⟨.binary (.literal "is") (.compare .isIn) (.literal ""),
      .compare .hasType, .binary (.literal "") (.arithmetic .sub) (.literal "in")⟩
    e.text = "(is in ) is ( - in)" ∧
      outerPieces e.text = ["(is in )", "is", "( - in)"] ∧ ofText? e.text = some e := by
  intro e
  have he : e.isCompact = true := by decide
  obtain ⟨hpieces, hread⟩ := text_unambiguous.1 e he
  have htext : e.text = "(is in ) is ( - in)" := by decide
  exact ⟨htext, hpieces, hread⟩

end AccessRules
