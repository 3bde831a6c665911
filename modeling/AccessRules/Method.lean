/-! The methods that an allow statement grants. Two of them are coarse and stand for several fine
ones. -/
namespace AccessRules

inductive Method where
  | read
  | write
  | get
  | list
  | create
  | update
  | delete
deriving DecidableEq, Repr

namespace Method

def all : List Method := [.read, .write, .get, .list, .create, .update, .delete]

def token : Method → String
  | .read => "read"
  | .write => "write"
  | .get => "get"
  | .list => "list"
  | .create => "create"
  | .update => "update"
  | .delete => "delete"

def ofToken? (s : String) : Option Method := all.find? fun m => m.token == s

@[simp] theorem ofToken?_token (m : Method) : ofToken? m.token = some m := by
  cases m <;> decide

/-- The methods that a method is replaced by on a node with children. -/
def fine : Method → List Method
  | .read => [.get, .list]
  | .write => [.create, .update, .delete]
  | m => [m]

def isCoarse : Method → Bool
  | .read | .write => true
  | _ => false

theorem not_isCoarse_of_mem_fine {m f : Method} (h : f ∈ m.fine) : f.isCoarse = false := by
  revert h
  cases m <;> cases f <;> decide

theorem fine_of_not_isCoarse {m : Method} (h : m.isCoarse = false) : m.fine = [m] := by
  revert h
  cases m <;> decide

end Method
end AccessRules
