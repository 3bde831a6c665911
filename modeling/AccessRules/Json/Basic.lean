import AccessRules.Decimal.Binary64

/-! JSON values. The members of an object stand in the order of their names, each name once;
`insert` keeps that order and lets the later of two values win. -/
namespace AccessRules

/-- A JSON number: an integer of the 64-bit ranges, or a binary64 number. -/
inductive Number where
  | int (value : Int)
  | float (value : Binary64)
deriving DecidableEq, Repr

inductive Json where
  | null
  | bool (value : Bool)
  | number (value : Number)
  | string (value : String)
  | array (items : List Json)
  | object (members : List (String × Json))
deriving Repr

instance : Inhabited Json := ⟨.null⟩

namespace Number

/-- Equality of the numbers meant, however they are written. -/
def same : Number → Number → Bool
  | .int a, .int b => a == b
  | .float a, .float b => a.sameValue b
  | .int a, .float b => b.isIntegral && b.toInt == a
  | .float a, .int b => a.isIntegral && a.toInt == b

def isIntegral : Number → Bool
  | .int _ => true
  | .float x => x.isIntegral

def toNat? : Number → Option Nat
  | .int (.ofNat n) => some n
  | .int (.negSucc _) => none
  | .float x => if x.isIntegral && (!x.negative || x.isZero) then some x.toInt.toNat else none

end Number

namespace Json

/-- Puts a member at its place among members that are in order, in place of one of that name. -/
def insert (name : String) (value : Json) : List (String × Json) → List (String × Json)
  | [] => [(name, value)]
  | (other, old) :: rest =>
    if name < other then (name, value) :: (other, old) :: rest
    else if name = other then (name, value) :: rest
    else (other, old) :: insert name value rest

/-- The object of some members, the last one of each name. -/
def ofMembers (members : List (String × Json)) : Json :=
  .object (members.foldl (fun done m => insert m.1 m.2 done) [])

def get? (name : String) : Json → Option Json
  | .object members => members.lookup name
  | _ => none

/-- The member of a name, or null where there is none. -/
def getD (name : String) (j : Json) : Json := (j.get? name).getD .null

def items? : Json → Option (List Json)
  | .array items => some items
  | _ => none

def string? : Json → Option String
  | .string s => some s
  | _ => none

/-- The items of the array that a member holds; none if it is absent or no array. -/
def itemsAt (name : String) (j : Json) : List Json := ((j.get? name).bind items?).getD []

def strings (items : List String) : Json := .array (items.map .string)

mutual

def same : Json → Json → Bool
  | .null, .null => true
  | .bool a, .bool b => a == b
  | .number a, .number b => a.same b
  | .string a, .string b => a == b
  | .array a, .array b => sameItems a b
  | .object a, .object b => sameMembers a b
  | _, _ => false

def sameItems : List Json → List Json → Bool
  | [], [] => true
  | a :: as, b :: bs => same a b && sameItems as bs
  | _, _ => false

def sameMembers : List (String × Json) → List (String × Json) → Bool
  | [], [] => true
  | (k, a) :: as, (l, b) :: bs => k == l && same a b && sameMembers as bs
  | _, _ => false

end

theorem sizeOf_item_lt {items : List Json} {x : Json} (h : x ∈ items) :
    sizeOf x < sizeOf (Json.array items) := by
  have := List.sizeOf_lt_of_mem h
  simp only [array.sizeOf_spec]
  omega

theorem sizeOf_member_lt {members : List (String × Json)} {m : String × Json} (h : m ∈ members) :
    sizeOf m.2 < sizeOf (Json.object members) := by
  have := List.sizeOf_lt_of_mem h
  cases m
  simp only [object.sizeOf_spec, Prod.mk.sizeOf_spec] at *
  omega

theorem sizeOf_lt_of_get? {name : String} {j x : Json} (h : j.get? name = some x) :
    sizeOf x < sizeOf j := by
  cases j with
  | object members =>
    have hm : (name, x) ∈ members := by
      obtain ⟨before, after, rfl, -⟩ := List.lookup_eq_some_iff.1 h
      simp
    exact sizeOf_member_lt hm
  | _ => simp [get?] at h

theorem sizeOf_lt_of_mem_itemsAt {name : String} {j x : Json} (h : x ∈ j.itemsAt name) :
    sizeOf x < sizeOf j := by
  unfold itemsAt at h
  cases hg : j.get? name with
  | none => simp [hg] at h
  | some v =>
    cases v with
    | array items =>
      simp only [hg, Option.bind_some, items?, Option.getD_some] at h
      exact Nat.lt_trans (sizeOf_item_lt h) (sizeOf_lt_of_get? hg)
    | _ => simp [hg, items?] at h

end Json
end AccessRules
