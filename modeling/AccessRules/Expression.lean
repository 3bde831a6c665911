/-! Expressions of the rule language and their texts. An operand is raw text or a binary expression,
and a binary expression inside another one stands in parentheses. -/
namespace AccessRules

inductive Comparator where
  | lt
  | le
  | eq
  | ne
  | ge
  | gt
  | isIn
  | hasType
  | and
  | or
deriving DecidableEq, Repr

namespace Comparator

def all : List Comparator := [.lt, .le, .eq, .ne, .ge, .gt, .isIn, .hasType, .and, .or]

def token : Comparator → String
  | .lt => "<"
  | .le => "<="
  | .eq => "=="
  | .ne => "!="
  | .ge => ">="
  | .gt => ">"
  | .isIn => "in"
  | .hasType => "is"
  | .and => "&&"
  | .or => "||"

def ofToken? (s : String) : Option Comparator := all.find? fun c => c.token == s

@[simp] theorem ofToken?_token (c : Comparator) : ofToken? c.token = some c := by
  cases c <;> decide

end Comparator

inductive Arithmetic where
  | add
  | sub
  | mul
  | div
  | rem
deriving DecidableEq, Repr

namespace Arithmetic

def all : List Arithmetic := [.add, .sub, .mul, .div, .rem]

def token : Arithmetic → String
  | .add => "+"
  | .sub => "-"
  | .mul => "*"
  | .div => "/"
  | .rem => "%"

end Arithmetic

inductive Operator where
  | compare (c : Comparator)
  | arithmetic (a : Arithmetic)
deriving DecidableEq, Repr

namespace Operator

def all : List Operator := Comparator.all.map .compare ++ Arithmetic.all.map .arithmetic

def token : Operator → String
  | .compare c => c.token
  | .arithmetic a => a.token

def ofToken? (s : String) : Option Operator := all.find? fun o => o.token == s

@[simp] theorem ofToken?_token (o : Operator) : ofToken? o.token = some o := by
  rcases o with c | a
  · cases c <;> decide
  · cases a <;> decide

end Operator

/-- One side of an expression or of a condition. -/
inductive Operand where
  | literal (text : String)
  | binary (left : Operand) (operator : Operator) (right : Operand)
deriving DecidableEq, Repr

structure Expression where
  left : Operand
  operator : Operator
  right : Operand
deriving DecidableEq, Repr

def Expression.toOperand (e : Expression) : Operand := .binary e.left e.operator e.right

/-- The text of an operand in its place: raw text as it is, an expression in parentheses. -/
def Operand.text : Operand → String
  | .literal s => s
  | .binary a o b => "(" ++ a.text ++ " " ++ o.token ++ " " ++ b.text ++ ")"

@[simp] theorem Operand.text_literal (s : String) : (Operand.literal s).text = s := rfl

def Expression.text (e : Expression) : String :=
  e.left.text ++ " " ++ e.operator.token ++ " " ++ e.right.text

structure Condition where
  left : Operand
  comparator : Comparator
  right : Operand
  inverted : Bool := false
  /-- A text that stands in place of the comparison. -/
  override? : Option String := none
deriving DecidableEq, Repr

namespace Condition

/-- The comparison without regard to an override. -/
def comparison (c : Condition) : String :=
  let text := c.left.text ++ " " ++ c.comparator.token ++ " " ++ c.right.text
  if c.inverted then "!(" ++ text ++ ")" else text

def text (c : Condition) : String :=
  match c.override? with
  | some s => s
  | none => c.comparison

end Condition

/-- An entry in the condition list of an allow rule. -/
inductive Clause where
  | raw (text : String)
  | condition (c : Condition)
deriving DecidableEq, Repr

def Clause.text : Clause → String
  | .raw s => s
  | .condition c => c.text

end AccessRules
