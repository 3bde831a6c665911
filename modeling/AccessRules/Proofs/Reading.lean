import AccessRules.Expression
import Mathlib.Tactic.Common

/-! Reading conditions back. The text of a condition is cut into tokens, and the tokens are read
with the precedence of the rule language: parentheses first, then `!`, arithmetic, comparisons, `&&`
and `||`, operators of one level from left to right. What is read is a formula, and its truth
depends on the truth of the parts that no logical operator joins. -/
namespace AccessRules

/-- A condition as it is read. -/
inductive Formula where
  | atom (text : String)
  | binary (left : Formula) (operator : Operator) (right : Formula)
  | negation (operand : Formula)
deriving DecidableEq, Repr

def Formula.truth (given : Formula → Bool) : Formula → Bool
  | .binary a (.compare .and) b => a.truth given && b.truth given
  | .binary a (.compare .or) b => a.truth given || b.truth given
  | .negation a => !a.truth given
  | f => given f

/-- How tightly an operator binds. -/
def Operator.level : Operator → Nat
  | .compare .or => 0
  | .compare .and => 1
  | .compare _ => 2
  | .arithmetic .add | .arithmetic .sub => 3
  | .arithmetic _ => 4

namespace Reading

inductive Token where
  | word (text : String)
  | operator (o : Operator)
  | bang
  | opening
  | closing
  | unknown (text : String)
deriving DecidableEq, Repr

def isWordChar (c : Char) : Bool := c.isAlphanum || c == '_' || c == '.'

def isMark (c : Char) : Bool := c == ' ' || c == '(' || c == ')'

/-- Whether a character continues the token that another one starts: words and operators are as
long as they can be. -/
def continues (c d : Char) : Bool :=
  if isWordChar c then isWordChar d
  else !isWordChar d && !isMark c && !isMark d

def runs : List Char → List (List Char)
  | [] => []
  | c :: cs =>
    match runs cs with
    | (d :: run) :: rest =>
      if continues c d then (c :: d :: run) :: rest else [c] :: (d :: run) :: rest
    | rest => [c] :: rest

def Token.ofRun (run : List Char) : Token :=
  if run = ['('] then .opening
  else if run = [')'] then .closing
  else if run = ['!'] then .bang
  else
    match Operator.ofToken? (String.ofList run) with
    | some o => .operator o
    | none => if run.all isWordChar then .word (String.ofList run) else .unknown (String.ofList run)

def tokens (cs : List Char) : List Token := ((runs cs).filter (· ≠ [' '])).map Token.ofRun

/-- What waits for an operand to its right. -/
inductive Pending where
  | binary (left : Formula) (o : Operator)
  | negation
  | group
deriving DecidableEq, Repr

/-- Ends all that waits and binds at least as tightly as a level, up to the last open group. -/
def close (level : Nat) : List Pending → Formula → List Pending × Formula
  | .binary a o :: rest, f =>
    if level ≤ o.level then close level rest (.binary a o f) else (.binary a o :: rest, f)
  | .negation :: rest, f => close level rest (.negation f)
  | pending, f => (pending, f)

mutual

/-- Reads on where an operand has to come. -/
def readOperand (pending : List Pending) : List Token → Option Formula
  | .word s :: ts => readOperator pending (.atom s) ts
  | .bang :: ts => readOperand (.negation :: pending) ts
  | .opening :: ts => readOperand (.group :: pending) ts
  | _ => none

def readOperator (pending : List Pending) (f : Formula) : List Token → Option Formula
  | [] =>
    match close 0 pending f with
    | ([], g) => some g
    | _ => none
  | .operator o :: ts =>
    let closed := close o.level pending f
    readOperand (.binary closed.2 o :: closed.1) ts
  | .closing :: ts =>
    match close 0 pending f with
    | (.group :: rest, g) => readOperator rest g ts
    | _ => none
  | _ => none

end

/-- The formula that a text stands for, if it is one. -/
def read (text : String) : Option Formula := readOperand [] (tokens text.toList)

example : read "a || !b && c + d * e == f" = some
    (.binary (.atom "a") (.compare .or) (.binary (.negation (.atom "b")) (.compare .and)
      (.binary (.binary (.atom "c") (.arithmetic .add)
        (.binary (.atom "d") (.arithmetic .mul) (.atom "e"))) (.compare .eq) (.atom "f")))) := by
  decide

/-- No token goes on from the first text into the second. -/
def Apart (xs ys : List Char) : Prop :=
  ∀ c ∈ xs.getLast?, ∀ d ∈ ys.head?, continues c d = false

theorem exists_runs_cons (c : Char) (cs : List Char) :
    ∃ run rest, runs (c :: cs) = (c :: run) :: rest := by
  rw [runs]
  split
  · split
    · exact ⟨_, _, rfl⟩
    · exact ⟨_, _, rfl⟩
  · exact ⟨_, _, rfl⟩

theorem runs_cons_of_apart {c : Char} {cs : List Char} (h : Apart [c] cs) :
    runs (c :: cs) = [c] :: runs cs := by
  cases cs with
  | nil => rfl
  | cons d ds =>
    obtain ⟨run, rest, hr⟩ := exists_runs_cons d ds
    have hcd : continues c d = false := h c rfl d rfl
    rw [runs, hr]
    simp [hcd]

theorem runs_append {xs ys : List Char} (h : Apart xs ys) :
    runs (xs ++ ys) = runs xs ++ runs ys := by
  induction xs with
  | nil => rfl
  | cons c cs ih =>
    cases cs with
    | nil => exact runs_cons_of_apart h
    | cons d ds =>
      obtain ⟨run, rest, hr⟩ := exists_runs_cons d ds
      have ht : runs (d :: ds ++ ys) = (d :: run) :: (rest ++ runs ys) := by
        rw [ih (by simpa [Apart] using h), hr]
        rfl
      rw [List.cons_append, runs, runs, ht, hr]
      by_cases hcd : continues c d = true <;> simp [hcd]

theorem runs_word {cs : List Char} (hne : cs ≠ []) (h : ∀ c ∈ cs, isWordChar c = true) :
    runs cs = [cs] := by
  induction cs with
  | nil => exact absurd rfl hne
  | cons c cs ih =>
    cases cs with
    | nil => rfl
    | cons d ds =>
      have hc : isWordChar c = true := h c (by simp)
      have hd : isWordChar d = true := h d (by simp)
      have hcd : continues c d = true := by simp [continues, hc, hd]
      rw [runs, ih (by simp) (fun x hx => h x (by simp [hx]))]
      simp [hcd]

theorem tokens_append {xs ys : List Char} (h : Apart xs ys) :
    tokens (xs ++ ys) = tokens xs ++ tokens ys := by
  simp [tokens, runs_append h]

theorem not_isWordChar_of_isMark {c : Char} (h : isMark c = true) : isWordChar c = false := by
  obtain (rfl | rfl) | rfl : (c = ' ' ∨ c = '(') ∨ c = ')' := by simpa [isMark] using h
  all_goals decide

theorem apart_singleton {c : Char} (h : isMark c = true) (cs : List Char) : Apart [c] cs := by
  intro d hd e _
  obtain rfl : c = d := by simpa using hd
  have hc := not_isWordChar_of_isMark h
  simp [continues, hc, h]

theorem apart_cons {c : Char} (h : isMark c = true) (xs cs : List Char) :
    Apart xs (c :: cs) := by
  intro d _ e he
  obtain rfl : c = e := by simpa using he
  have hc := not_isWordChar_of_isMark h
  by_cases hd : isWordChar d = true <;> simp [continues, hc, hd, h]

def EndsWord (cs : List Char) : Prop := ∀ c ∈ cs.head?, isWordChar c = false

theorem endsWord_nil : EndsWord [] := by simp [EndsWord]

theorem endsWord_cons {c : Char} (h : isMark c = true) (cs : List Char) : EndsWord (c :: cs) := by
  simpa [EndsWord] using not_isWordChar_of_isMark h

@[simp] theorem tokens_nil : tokens [] = [] := rfl

@[simp] theorem tokens_blank (cs : List Char) : tokens (' ' :: cs) = tokens cs :=
  tokens_append (apart_singleton (by decide) cs)

@[simp] theorem tokens_opening (cs : List Char) : tokens ('(' :: cs) = .opening :: tokens cs :=
  tokens_append (apart_singleton (by decide) cs)

@[simp] theorem tokens_closing (cs : List Char) : tokens (')' :: cs) = .closing :: tokens cs :=
  tokens_append (apart_singleton (by decide) cs)

@[simp] theorem tokens_bang_opening (cs : List Char) :
    tokens ('!' :: '(' :: cs) = .bang :: .opening :: tokens cs := by
  have h : tokens (['!'] ++ '(' :: cs) = _ := tokens_append (apart_cons (by decide) ['!'] cs)
  rw [tokens_opening] at h
  exact h

@[simp] theorem tokens_operator (o : Operator) (cs : List Char) :
    tokens (o.token.toList ++ ' ' :: cs) = .operator o :: tokens cs := by
  have ho : tokens o.token.toList = [.operator o] := by
    rcases o with c | a
    · cases c <;> decide
    · cases a <;> decide
  rw [tokens_append (apart_cons (by decide) _ cs), ho, tokens_blank]
  rfl

end Reading

def isName (s : String) : Bool :=
  s ≠ "" && s.toList.all Reading.isWordChar && (Operator.ofToken? s).isNone

namespace Reading

theorem tokens_name {s : String} (hs : isName s = true) {cs : List Char}
    (h : EndsWord cs) : tokens (s.toList ++ cs) = .word s :: tokens cs := by
  simp only [isName, Bool.and_eq_true, decide_eq_true_eq, List.all_eq_true,
    Option.isNone_iff_eq_none] at hs
  obtain ⟨⟨hne, hword⟩, hoperator⟩ := hs
  have hapart : Apart s.toList cs := by
    intro c hc d hd
    simp [continues, hword c (List.mem_of_getLast? hc), h d hd]
  have hsign : ∀ c, isWordChar c = false → s.toList ≠ [c] := by
    intro c hc heq
    have := hword c (by simp [heq])
    simp [hc] at this
  have hrun : Token.ofRun s.toList = .word s := by
    simp [Token.ofRun, hsign '(' (by decide), hsign ')' (by decide), hsign '!' (by decide),
      hoperator, List.all_eq_true.2 hword]
  have hruns : runs s.toList = [s.toList] := runs_word (by simpa using hne) hword
  rw [tokens_append hapart, tokens, hruns]
  simp [hsign ' ' (by decide), hrun]

end Reading

namespace Operand
open Reading

def isPlain : Operand → Bool
  | .literal s => isName s
  | .binary a _ b => a.isPlain && b.isPlain

def formula : Operand → Formula
  | .literal s => .atom s
  | .binary a o b => .binary a.formula o b.formula

def tokens : Operand → List Token
  | .literal s => [.word s]
  | .binary a o b => .opening :: (a.tokens ++ .operator o :: (b.tokens ++ [.closing]))

theorem toList_text_binary (a b : Operand) (o : Operator) :
    (Operand.binary a o b).text.toList =
      '(' :: (a.text.toList ++ ' ' :: (o.token.toList ++ ' ' :: (b.text.toList ++ [')']))) := by
  simp only [text, String.toList_append, List.append_assoc]
  rfl

theorem tokens_text {o : Operand} (ho : o.isPlain = true) {cs : List Char} (h : EndsWord cs) :
    Reading.tokens (o.text.toList ++ cs) = o.tokens ++ Reading.tokens cs := by
  induction o generalizing cs with
  | literal s => exact tokens_name ho h
  | binary a o b iha ihb =>
    obtain ⟨ha, hb⟩ : a.isPlain = true ∧ b.isPlain = true := by simpa [isPlain] using ho
    rw [toList_text_binary]
    simp only [List.cons_append, List.append_assoc, List.nil_append, tokens_opening, tokens]
    rw [iha ha (endsWord_cons rfl _), tokens_blank, tokens_operator,
      ihb hb (endsWord_cons rfl _), tokens_closing]

/-- An operand is read as one whole, whatever waits for it. -/
theorem readOperand_tokens (o : Operand) (pending : List Pending) (ts : List Token) :
    readOperand pending (o.tokens ++ ts) = readOperator pending o.formula ts := by
  induction o generalizing pending ts with
  | literal s => rfl
  | binary a o b iha ihb =>
    simp only [tokens, List.cons_append, List.append_assoc, readOperand]
    rw [iha, readOperator]
    simp only [close]
    rw [ihb, List.nil_append, readOperator]
    simp [close, formula]

end Operand
end AccessRules
