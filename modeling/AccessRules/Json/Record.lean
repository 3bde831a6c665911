import AccessRules.Json.Printer
import AccessRules.Text.Position
import AccessRules.Text.Quoted

/-! Decoding JSON values into records and lists. A record is read from an object, whose unknown
members are passed over, or from an array that lists its fields in order. The parts are decoded one
after the other, the first refusal ends the decoding, and what is missing or in excess is reported
after all parts that are there. -/
namespace AccessRules

inductive Wanted where
  | record (name : String)
  | string
  | boolean
  | list
  | token
  | nothing
deriving DecidableEq, Repr

def Wanted.text : Wanted → String
  | .record name => "struct " ++ name
  | .string => "a string"
  | .boolean => "a boolean"
  | .list => "a sequence"
  | .token => "string or map"
  | .nothing => "unit"

inductive DecodeError where
  | wrongType (got : Json) (wanted : Wanted)
  | missingField (name : String)
  | tooFewItems (position : Nat) (record : String) (fields : Nat)
  | tooManyItems (length : Nat)
  | notOneMember
  | unknownToken (token : String) (known : List String)
  | unknownOperator (token : String)
  | unsupportedType (name : String)
  | badClaimValue (got : Json)
  | inExpression (cause : DecodeError)
  | inCondition (cause : DecodeError)

/-- How a message names a value that has the wrong type. -/
def Json.kindText : Json → String
  | .null => "null"
  | .bool b => "boolean " ++ "`" ++ (Json.bool b).text ++ "`"
  | .number (.int n) => "integer " ++ "`" ++ (Number.int n).text ++ "`"
  | .number (.float x) => "floating point " ++ "`" ++ (Number.float x).text ++ "`"
  | .string s => "string " ++ Text.shown s
  | .array _ => "sequence"
  | .object _ => "map"

def DecodeError.message : DecodeError → String
  | .wrongType got wanted => "invalid type: " ++ got.kindText ++ ", expected " ++ wanted.text
  | .missingField name => "missing field `" ++ name ++ "`"
  | .tooFewItems position record fields =>
    "invalid length " ++ Text.decimal position ++ ", expected struct " ++ record ++ " with " ++
      Text.decimal fields ++ " elements"
  | .tooManyItems length =>
    "invalid length " ++ Text.decimal length ++ ", expected fewer elements in array"
  | .notOneMember => "invalid value: map, expected map with a single key"
  | .unknownToken token known =>
    "unknown variant `" ++ token ++ "`, expected one of " ++
      ", ".intercalate (known.map fun t => "`" ++ t ++ "`")
  | .unknownOperator token => "unknown operator `" ++ token ++ "`"
  | .unsupportedType name => Text.Position.tidy ("unsupported type: " ++ name)
  | .badClaimValue got => "claim value must be a string, number or boolean, got " ++ got.text
  | .inExpression cause => "invalid field expression: " ++ cause.message
  | .inCondition cause => "invalid condition: " ++ cause.message

abbrev Decoded (α : Type) := Except DecodeError α

namespace Decoded

def string : Json → Decoded String
  | .string s => .ok s
  | j => .error (.wrongType j .string)

def bool : Json → Decoded Bool
  | .bool b => .ok b
  | j => .error (.wrongType j .boolean)

/-- Decodes the items of an array by a decoder that may use that an item is smaller than the
array. -/
def listWith {α : Type} (j : Json) (f : (x : Json) → sizeOf x < sizeOf j → Decoded α) :
    Decoded (List α) :=
  match j with
  | .array items => items.attach.mapM fun ⟨x, h⟩ => f x (Json.sizeOf_item_lt h)
  | j => .error (.wrongType j .list)

def list {α : Type} (f : Json → Decoded α) : Json → Decoded (List α)
  | .array items => items.mapM f
  | j => .error (.wrongType j .list)

theorem listWith_eq_list {α : Type} (f : Json → Decoded α) (j : Json) :
    listWith j (fun x _ => f x) = list f j := by
  cases j <;> simp [listWith, list]

theorem list_array_map {α : Type} {f : Json → Decoded α} {g : α → Json} {xs : List α}
    (h : ∀ x ∈ xs, f (g x) = .ok x) : list f (.array (xs.map g)) = .ok xs := by
  simp only [list]
  induction xs with
  | nil => rfl
  | cons x xs ih =>
    have hx := h x (by simp)
    have hr := ih fun y hy => h y (by simp [hy])
    rw [List.map_cons, List.mapM_cons, hx, hr]
    rfl

/-- A word of a vocabulary: a string, or an object whose only member has the word for a name and
null for a value. -/
def word {α : Type} (ofToken? : String → Option α) (known : List String) : Json → Decoded α
  | .string s => find s
  | .object [(s, j)] => do
    let a ← find s
    match j with
    | .null => return a
    | j => .error (.wrongType j .nothing)
  | .object _ => .error .notOneMember
  | j => .error (.wrongType j .token)
where
  find (s : String) : Decoded α :=
    match ofToken? s with
    | some a => .ok a
    | none => .error (.unknownToken s known)

end Decoded

structure FieldSpec where
  name : String
  isRequired : Bool
deriving DecidableEq, Repr

structure RecordSpec where
  name : String
  fields : List FieldSpec
deriving DecidableEq, Repr

namespace RecordSpec

def names (r : RecordSpec) : List String := r.fields.map FieldSpec.name

/-- The first required field that an object lacks. -/
def missing? (r : RecordSpec) (members : List (String × Json)) : Option DecodeError :=
  (r.fields.find? fun f => f.isRequired && !members.any fun m => m.1 == f.name).map fun f =>
    .missingField f.name

def requiredFrom? (r : RecordSpec) (n : Nat) : Option Nat :=
  ((r.fields.drop n).findIdx? FieldSpec.isRequired).map (· + n)

/-- What is wrong with the length of an array that lists the fields. -/
def misfit? (r : RecordSpec) (length : Nat) : Option DecodeError :=
  if r.fields.length < length then some (.tooManyItems length)
  else (r.requiredFrom? length).map fun n => .tooFewItems n r.name r.fields.length

def report {α : Type} (defect : Option DecodeError) (a : α) : Decoded α :=
  match defect with
  | some e => .error e
  | none => .ok a

/-- Decodes a record by putting one part after the other into a blank value. The parts may be
decoded by use of their being smaller than the whole. -/
def foldWith {α : Type} (r : RecordSpec) (j : Json) (blank : α)
    (put : α → String → (x : Json) → sizeOf x < sizeOf j → Decoded α) : Decoded α :=
  match j with
  | .object members => do
    let known := members.attach.filter fun m => r.names.contains m.1.1
    let a ← known.foldlM (fun a m => put a m.1.1 m.1.2 (Json.sizeOf_member_lt m.2)) blank
    report (r.missing? members) a
  | .array items => do
    let parts := r.names.zip items.attach
    let a ← parts.foldlM (fun a p => put a p.1 p.2.1 (Json.sizeOf_item_lt p.2.2)) blank
    report (r.misfit? items.length) a
  | j => .error (.wrongType j (.record r.name))

theorem foldWith_object {α : Type} (r : RecordSpec) (blank : α)
    (put : α → String → Json → Decoded α) (members : List (String × Json)) :
    r.foldWith (.object members) blank (fun a name x _ => put a name x) = (do
      let a ← (members.filter fun m => r.names.contains m.1).foldlM
        (fun a m => put a m.1 m.2) blank
      report (r.missing? members) a) := by
  simp only [foldWith]
  congr 1
  rw [← List.foldlM_map (f := Subtype.val) (g := fun a (m : String × Json) => put a m.1 m.2)]
  congr 1
  have h := List.filter_map (f := Subtype.val) (p := fun m : String × Json => r.names.contains m.1)
    (l := members.attach)
  simp only [List.attach_map_subtype_val] at h
  rw [h]
  rfl

theorem foldWith_array {α : Type} (r : RecordSpec) (blank : α)
    (put : α → String → Json → Decoded α) (items : List Json) :
    r.foldWith (.array items) blank (fun a name x _ => put a name x) = (do
      let a ← (r.names.zip items).foldlM (fun a p => put a p.1 p.2) blank
      report (r.misfit? items.length) a) := by
  simp only [foldWith]
  congr 1
  have h : r.names.zip items = (r.names.zip items.attach).map (Prod.map id Subtype.val) := by
    rw [← List.zip_map_right]
    simp
  rw [h, List.foldlM_map]
  rfl

def fold {α : Type} (r : RecordSpec) (blank : α) (put : α → String → Json → Decoded α)
    (j : Json) : Decoded α :=
  r.foldWith j blank fun a name x _ => put a name x

end RecordSpec
end AccessRules
