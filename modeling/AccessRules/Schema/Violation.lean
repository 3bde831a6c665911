import AccessRules.Json.Printer
import AccessRules.Schema.Basic

/-! The violations of a schema by a JSON value, in the order of the schema's parts, and each with
the place where it occurs. -/
namespace AccessRules

/-- A step from a JSON value into one of its parts. -/
inductive Step where
  | item (index : Nat)
  | member (name : String)
deriving DecidableEq, Repr

/-- A step in a JSON pointer: a tilde and a slash inside a name are escaped. -/
def Step.text : Step → String
  | .item i => "/" ++ Text.decimal i
  | .member name =>
    "/" ++ String.ofList (name.toList.flatMap fun c =>
      if c = '~' then ['~', '0'] else if c = '/' then ['~', '1'] else [c])

def Json.at? : List Step → Json → Option Json
  | [], j => some j
  | .item i :: steps, .array items => (items[i]?).bind (Json.at? steps)
  | .member name :: steps, j => (j.get? name).bind (Json.at? steps)
  | _, _ => none

inductive Breach where
  | never (value : Json)
  | notListed (value : Json) (allowed : List Json)
  | tooFewItems (value : Json) (least : Nat)
  | noAlternative (value : Json)
  | severalAlternatives (value : Json)
  | missing (name : String)
  | wrongType (value : Json) (types : List JsonType)

def Breach.message : Breach → String
  | .never v => "False schema does not allow " ++ v.text
  | .notListed v allowed => v.text ++ " is not one of " ++ (Json.array allowed).text
  | .tooFewItems v least =>
    v.text ++ " has less than " ++ Text.decimal least ++ (if least = 1 then " item" else " items")
  | .noAlternative v =>
    v.text ++ " is not valid under any of the schemas listed in the 'oneOf' keyword"
  | .severalAlternatives v =>
    v.text ++ " is valid under more than one of the schemas listed in the 'oneOf' keyword"
  | .missing name => Json.quote name ++ " is a required property"
  | .wrongType v [t] => v.text ++ " is not of type " ++ Json.quote t.token
  | .wrongType v types =>
    v.text ++ " is not of types " ++
      ", ".intercalate ((JsonType.all.filter types.contains).map fun t => Json.quote t.token)

structure Violation where
  location : List Step
  breach : Breach

namespace Violation

def here (b : Breach) : Violation := ⟨[], b⟩

def under (s : Step) (v : Violation) : Violation := { v with location := s :: v.location }

def pointer (v : Violation) : String := String.join (v.location.map Step.text)

def text (v : Violation) : String := v.pointer ++ ": " ++ v.breach.message

end Violation

/-- A part of a value: where it is, and which violations of any schema it has. -/
structure Part where
  step : Step
  violations : Schema → List Violation

namespace Schema

mutual

/-- The violations of a schema by a value whose parts are judged already. A reference is followed
by the function given. -/
def judge (follow : String → List Violation) (j : Json) (parts : List Part) :
    Schema → List Violation
  | .never => [.here (.never j)]
  | .all demands => judgeAll follow j parts demands
  | .enumeration values =>
    if values.any fun v => v.same j then [] else [.here (.notListed j values)]
  | .items item =>
    match j with
    | .array _ => parts.flatMap fun p => (p.violations item).map (.under p.step)
    | _ => []
  | .minItems count =>
    match j with
    | .array xs => if xs.length < count then [.here (.tooFewItems j count)] else []
    | _ => []
  | .oneOf alternatives =>
    match countValid follow j parts alternatives with
    | 0 => [.here (.noAlternative j)]
    | 1 => []
    | _ => [.here (.severalAlternatives j)]
  | .properties members =>
    match j with
    | .object _ => parts.flatMap fun p =>
      match p.step with
      | .member name =>
        match members.lookup name with
        | some demand => (p.violations demand).map (.under p.step)
        | none => []
      | .item _ => []
    | _ => []
  | .reference target => follow target
  | .required names =>
    match j with
    | .object ms =>
      (names.filter fun name => !ms.any fun m => m.1 == name).map fun name => .here (.missing name)
    | _ => []
  | .tuple listed =>
    match j with
    | .array _ => (parts.zip listed).flatMap fun (p, s) => (p.violations s).map (.under p.step)
    | _ => []
  | .type types => if types.any fun t => t.holds j then [] else [.here (.wrongType j types)]

def judgeAll (follow : String → List Violation) (j : Json) (parts : List Part) :
    List Schema → List Violation
  | [] => []
  | s :: rest => judge follow j parts s ++ judgeAll follow j parts rest

/-- How many of the alternatives hold. -/
def countValid (follow : String → List Violation) (j : Json) (parts : List Part) :
    List Schema → Nat
  | [] => 0
  | s :: rest =>
    (if (judge follow j parts s).isEmpty then 1 else 0) + countValid follow j parts rest

end

@[simp] theorem judgeAll_eq_flatMap (follow : String → List Violation) (j : Json)
    (parts : List Part) (demands : List Schema) :
    judgeAll follow j parts demands = demands.flatMap (judge follow j parts) := by
  induction demands with
  | nil => rfl
  | cons s rest ih => simp [judgeAll, ih]

theorem countValid_eq_countP (follow : String → List Violation) (j : Json) (parts : List Part)
    (alternatives : List Schema) :
    countValid follow j parts alternatives =
      alternatives.countP fun s => (judge follow j parts s).isEmpty := by
  induction alternatives with
  | nil => rfl
  | cons s rest ih =>
    rw [countValid, ih, List.countP_cons]
    omega

/-- The violations of a definition. After as many references in a row as there are definitions the
next one closes a circle, and a circle demands nothing. -/
def follow (definitions : List (String × Schema)) (j : Json) (parts : List Part) :
    Nat → String → List Violation
  | 0, _ => []
  | budget + 1, target =>
    match definitions.lookup target with
    | some s => judge (follow definitions j parts budget) j parts s
    | none => []

mutual

/-- The violations of a schema by a value. -/
def violations (definitions : List (String × Schema)) : Json → Schema → List Violation
  | .array xs, s =>
    let parts := itemParts definitions 0 xs
    judge (follow definitions (.array xs) parts definitions.length) (.array xs) parts s
  | .object ms, s =>
    let parts := memberParts definitions ms
    judge (follow definitions (.object ms) parts definitions.length) (.object ms) parts s
  | j, s => judge (follow definitions j [] definitions.length) j [] s

def itemParts (definitions : List (String × Schema)) : Nat → List Json → List Part
  | _, [] => []
  | i, x :: xs => ⟨.item i, fun s => violations definitions x s⟩ :: itemParts definitions (i + 1) xs

def memberParts (definitions : List (String × Schema)) : List (String × Json) → List Part
  | [] => []
  | (name, x) :: ms => ⟨.member name, fun s => violations definitions x s⟩ ::
    memberParts definitions ms

end

def partsOf (definitions : List (String × Schema)) : Json → List Part
  | .array xs => itemParts definitions 0 xs
  | .object ms => memberParts definitions ms
  | _ => []

theorem violations_eq_judge (definitions : List (String × Schema)) (j : Json) (s : Schema) :
    violations definitions j s =
      judge (follow definitions j (partsOf definitions j) definitions.length) j
        (partsOf definitions j) s := by
  cases j <;> rfl

theorem itemParts_eq_map (definitions : List (String × Schema)) (i : Nat) (xs : List Json) :
    itemParts definitions i xs =
      (xs.zipIdx i).map fun p => ⟨.item p.2, violations definitions p.1⟩ := by
  induction xs generalizing i with
  | nil => rfl
  | cons x xs ih => rw [itemParts, ih, List.zipIdx_cons, List.map_cons]

theorem memberParts_eq_map (definitions : List (String × Schema)) (ms : List (String × Json)) :
    memberParts definitions ms =
      ms.map fun m => ⟨.member m.1, violations definitions m.2⟩ := by
  induction ms with
  | nil => rfl
  | cons m ms ih => rw [memberParts, ih, List.map_cons]

end Schema

def SchemaDocument.violations (d : SchemaDocument) (j : Json) : List Violation :=
  Schema.violations d.definitions j d.root

def SchemaDocument.accepts (d : SchemaDocument) (j : Json) : Bool := (d.violations j).isEmpty

end AccessRules
