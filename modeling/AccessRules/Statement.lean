import AccessRules.Policy.FieldCheck
import AccessRules.Policy.Grant

/-! Allow statements, one for each method. A statement's condition grows as grants and field checks
are added; an empty condition is no condition at all. Grants never narrow a statement without a
condition, and field checks always do. -/
namespace AccessRules

structure Statement where
  method : Method
  condition : String
deriving DecidableEq, Repr

namespace Statement

def text (s : Statement) : String :=
  if s.condition.isEmpty then "allow " ++ s.method.token ++ ";"
  else "allow " ++ s.method.token ++ ": if " ++ s.condition ++ ";"

/-- Changes the condition of a method, or adds a statement for it behind all others. -/
def upsert (m : Method) (fresh : String) (change : String → String) :
    List Statement → List Statement
  | [] => [⟨m, fresh⟩]
  | s :: rest =>
    if s.method = m then ⟨m, change s.condition⟩ :: rest else s :: upsert m fresh change rest

theorem map_method_upsert (m : Method) (fresh : String) (change : String → String)
    (done : List Statement) :
    (upsert m fresh change done).map method =
      if m ∈ done.map method then done.map method else done.map method ++ [m] := by
  induction done with
  | nil => simp [upsert]
  | cons s rest ih =>
    by_cases h : s.method = m
    · simp [upsert, h]
    · have hm : m ≠ s.method := fun e => h e.symm
      simp only [upsert, h, if_false, List.map_cons, ih, List.mem_cons, hm, false_or]
      split <;> simp

def conjoin (a b : String) : String := a ++ " && " ++ b

/-- Grants a method under conditions. -/
def allow (conditions : List String) (done : List Statement) (m : Method) : List Statement :=
  let joined := " && ".intercalate conditions
  upsert m joined (fun c => if conditions.isEmpty || c.isEmpty then c else conjoin c joined) done

/-- Makes a check part of the condition of a method. -/
def constrain (m : Method) (check : String) (done : List Statement) : List Statement :=
  upsert m check (fun c => if c.isEmpty then check else conjoin c check) done

def addGrant (done : List Statement) (g : Grant) : List Statement :=
  g.methods.foldl (allow g.conditions) done

def addTypeChecks (done : List Statement) (r : FieldRule) : List Statement :=
  if r.isTyped then constrain .update r.updateCheck (constrain .create r.createCheck done)
  else done

end Statement

namespace GrantNode

/-- The statements of a node: its grants in order, then the type checks, then the check on the set
of fields. -/
def statements (n : GrantNode) : List Statement :=
  let granted := n.grants.foldl Statement.addGrant []
  if n.fieldRules.isEmpty then granted
  else
    Statement.constrain .create (presenceCheck (requiredFields n.fieldRules) n.exclusive)
      (n.fieldRules.foldl Statement.addTypeChecks granted)

end GrantNode
end AccessRules
