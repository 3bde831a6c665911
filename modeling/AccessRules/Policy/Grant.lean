import AccessRules.Policy.Basic
import AccessRules.Text.Quoted

/-! Grants: allow rules reduced to distinct methods and condition texts. The texts of the declared
conditions come first, then the check for a signed-in user, then one check for each claim. -/
namespace AccessRules

structure Grant where
  methods : List Method
  conditions : List String := []
deriving DecidableEq, Repr

/-- A node whose allow rules are grants. -/
structure GrantNode where
  segment : Segment
  grants : List Grant := []
  fieldRules : List FieldRule := []
  exclusive : Bool := false
deriving DecidableEq, Repr

namespace Claim

/-- The accessor of a claim in the token: by a dot for an ASCII name, else by a quoted subscript. -/
def accessor (name : String) : String :=
  if name.toList.all fun c => c.toNat < 128 then "request.auth.token." ++ name
  else "request.auth.token['" ++ String.ofList (Text.singleQuoted name.toList) ++ "']"

def check (c : Claim) : String :=
  match c.value? with
  | none => accessor c.name ++ " != null"
  | some v => accessor c.name ++ " == " ++ v.literal

end Claim

def signedIn : String := "request.auth != null"

def AllowRule.conditionTexts (r : AllowRule) : List String :=
  r.conditions.map Clause.text ++ (if r.requireAuth then [signedIn] else []) ++
    r.claims.map Claim.check

def AllowRule.grant (r : AllowRule) : Grant := ⟨r.methods.eraseDups, r.conditionTexts⟩

def Node.flatten (n : Node) : GrantNode :=
  { segment := n.segment
    grants := n.allowRules.map AllowRule.grant
    fieldRules := n.fieldRules
    exclusive := n.exclusive }

def Node.flattenTree : Tree Node → Tree GrantNode := Tree.map Node.flatten

end AccessRules
