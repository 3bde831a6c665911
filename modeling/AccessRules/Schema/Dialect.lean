import AccessRules.Schema.Basic
import AccessRules.Schema.Reference

/-! The published versions of the schema language. They differ in which keywords hold schemas and in
what a schema has to look like. -/
namespace AccessRules

inductive Dialect where
  | draft4
  | draft6
  | draft7
  | draft2019
  | draft2020
deriving DecidableEq, Repr

namespace Dialect

def all : List Dialect := [.draft4, .draft6, .draft7, .draft2019, .draft2020]

/-- Whether the version is one of the numbered ones, in which a reference stands alone. -/
def isNumbered : Dialect → Bool
  | .draft4 | .draft6 | .draft7 => true
  | .draft2019 | .draft2020 => false

def version : Dialect → String
  | .draft4 => "draft-04"
  | .draft6 => "draft-06"
  | .draft7 => "draft-07"
  | .draft2019 => "draft/2019-09"
  | .draft2020 => "draft/2020-12"

def home (d : Dialect) : String :=
  (if d.isNumbered then "http" else "https") ++ "://json-schema.org/" ++ d.version ++ "/"

def ofIdentifier? (identifier : String) : Option Dialect :=
  let bare := String.ofList (identifier.toList.reverse.dropWhile (· == '#')).reverse
  all.find? fun d => d.home ++ "schema" == bare

/-- The version of a schema inside one of another version. -/
def detect? (d : Dialect) (j : Json) : Option Dialect :=
  match j.get? "$schema" with
  | some (.string identifier) => ofIdentifier? identifier
  | _ => some d

/-! ### Which parts of a schema are schemas -/

def membersOf : Json → List Json
  | .object members => members.map Prod.snd
  | _ => []

def subschemas (d : Dialect) (keyword : String) (value : Json) : List Json :=
  match keyword, value with
  | "items", .array xs => if d = .draft2020 then [value] else xs
  | "items", _ => [value]
  | "oneOf", .array xs => xs
  | "properties", _ | "definitions", _ => membersOf value
  | "$defs", _ => if d.isNumbered then [] else membersOf value
  | _, _ => []

def nested (d : Dialect) : Json → List Json
  | .object members => members.flatMap fun m => d.subschemas m.1 m.2
  | _ => []

theorem sizeOf_le_of_mem_subschemas {d : Dialect} {keyword : String} {value x : Json}
    (h : x ∈ d.subschemas keyword value) : sizeOf x ≤ sizeOf value := by
  have members {j : Json} (hx : x ∈ membersOf j) : sizeOf x ≤ sizeOf j := by
    cases j with
    | object ms =>
      obtain ⟨m, hm, rfl⟩ := List.mem_map.1 hx
      exact Nat.le_of_lt (Json.sizeOf_member_lt hm)
    | _ => simp [membersOf] at hx
  unfold subschemas at h
  split at h
  · split at h
    · simp_all
    · exact Nat.le_of_lt (Json.sizeOf_item_lt h)
  · simp_all
  · exact Nat.le_of_lt (Json.sizeOf_item_lt h)
  · exact members h
  · exact members h
  · split at h
    · simp at h
    · exact members h
  · simp at h

theorem sizeOf_lt_of_mem_nested {d : Dialect} {j x : Json} (h : x ∈ d.nested j) :
    sizeOf x < sizeOf j := by
  cases j with
  | object members =>
    obtain ⟨m, hm, hx⟩ := List.mem_flatMap.1 h
    exact Nat.lt_of_le_of_lt (sizeOf_le_of_mem_subschemas hx) (Json.sizeOf_member_lt hm)
  | _ => simp [nested] at h

def schemas (d : Dialect) (j : Json) : List Json :=
  j :: (d.nested j).attach.flatMap fun x => schemas d x.1
termination_by sizeOf j
decreasing_by exact sizeOf_lt_of_mem_nested (Subtype.property _)

/-! ### What a schema looks like -/

def areDistinct : List Json → Bool
  | [] => true
  | x :: rest => !rest.any x.same && areDistinct rest

/-- A list of strings, no two of them the same. -/
def isNameList (items : List Json) : Bool :=
  items.all (fun x => x.string?.isSome) && areDistinct items

def isTypeName (j : Json) : Bool := (j.string?.bind JsonType.ofToken?).isSome

/-- Whether the value of a keyword has the right shape, apart from the schemas in it. -/
def fits (d : Dialect) (keyword : String) (value : Json) : Bool :=
  match keyword, value with
  | "$ref", .string reference =>
    !(d = .draft6 || d = .draft7) || Reference.isReference reference
  | "$ref", _ => d = .draft4
  | "$schema", .string identifier =>
    !(d = .draft6 || d = .draft7) || Reference.isReference identifier
  | "title", .string _ | "description", .string _ => true
  | "$schema", _ | "title", _ | "description", _ => false
  | "$defs", .object _ | "definitions", .object _ | "properties", .object _ => true
  | "$defs", _ => d.isNumbered
  | "definitions", _ | "properties", _ => false
  | "enum", .array xs => !(d = .draft4 || d = .draft6) || (!xs.isEmpty && areDistinct xs)
  | "items", .array xs => !xs.isEmpty
  | "items", _ => true
  | "minItems", .number (.int n) => 0 ≤ n
  | "minItems", .number n => d ≠ .draft4 && n.toNat?.isSome
  | "oneOf", .array xs => !xs.isEmpty
  | "required", .array xs => isNameList xs && !(d = .draft4 && xs.isEmpty)
  | "type", .array xs => isNameList xs && !xs.isEmpty && xs.all isTypeName
  | "type", _ => isTypeName value
  | "enum", _ | "minItems", _ | "oneOf", _ | "required", _ => false
  | _, _ => true

def isShaped (d : Dialect) : Json → Bool
  | .bool _ => d ≠ .draft4
  | .object members => members.all fun m => d.fits m.1 m.2
  | _ => false

/-- Whether a reference needs no other document than the one at hand and those that are published
with the schema language. -/
def isAtHand (j : Json) : Bool :=
  match j.get? "$ref" with
  | some (.string reference) =>
    reference.startsWith "#" || all.any (fun d => reference.startsWith d.home) ||
      (Reference.fragment? reference).isSome
  | _ => true

/-- Whether a document is a schema of a version. -/
def admits (d : Dialect) (document : Json) : Bool :=
  (d.schemas document).all fun j => d.isShaped j && (d.detect? j).isSome && isAtHand j

end Dialect
end AccessRules
