import AccessRules.Proofs.CheckText
import Mathlib.Data.List.Basic

/-! Reading field checks. What a check demands is read from its text: a test that a field has one of
some types, with the field read directly or with a default, or a test on the set of all fields. The
checks that field rules give rise to are read as what the rules say. -/
namespace AccessRules
open Text

/-- How a field of the incoming document is read. -/
inductive Access where
  | direct (field : String)
  | defaulted (field : String) (literal : String)
deriving DecidableEq, Repr

/-- A test that what is read has a type. -/
structure TypeTest where
  access : Access
  type : ValueType
deriving DecidableEq, Repr

inductive Check where
  | anyOf (tests : List TypeTest)
  | hasAll (fields : List String)
  | hasOnly (fields : List String)
deriving DecidableEq, Repr

namespace Text

/-- The items of a list from its pieces: each of them but the last ends in a comma. -/
def items? : List (List Char) → Option (List (List Char))
  | [] => none
  | [item] => some [item]
  | item :: next :: rest => do
    let items ← items? (next :: rest)
    if item.getLast? = some ',' then some (item.dropLast :: items) else none

def name? (cs : List Char) : Option String := do
  let name ← enclosed? '\'' '\'' cs
  if isIdentifier name then some (String.ofList name) else none

def names? (cs : List Char) : Option (List String) := do
  let inner ← enclosed? '[' ']' cs
  if inner = [] then some [] else (← items? (pieces 0 inner)).mapM name?

def arguments? (function : String) (cs : List Char) : Option (List Char) := do
  enclosed? '(' ')' (← cs.dropPrefix? function.toList)

end Text

namespace Access

def direct? (cs : List Char) : Option Access := do
  let field ← cs.dropPrefix? "request.resource.data.".toList
  if isIdentifier field then some (.direct (String.ofList field)) else none

def defaulted? (cs : List Char) : Option Access := do
  let arguments ← arguments? "getOr" cs
  match ← items? (pieces 0 arguments) with
  | [request, name, literal] =>
    if request = "request".toList then
      (name? name).map fun field => .defaulted field (String.ofList literal)
    else none
  | _ => none

def read? (cs : List Char) : Option Access := direct? cs <|> defaulted? cs

end Access

/-- A type test has three pieces. -/
def TypeTest.read? : List (List Char) → Option TypeTest
  | [access, operator, token] =>
    if operator = "is".toList then do
      let access ← Access.read? access
      let t ← ValueType.ofToken? (String.ofList token)
      return ⟨access, t⟩
    else none
  | _ => none

namespace Check

def anyOf? (cs : List Char) : Option Check := do
  let inner ← enclosed? '(' ')' cs
  let tests ← ((pieces 0 inner).splitOn "||".toList).mapM TypeTest.read?
  return .anyOf tests

def keys? (cs : List Char) : Option Check := do
  let call ← cs.dropPrefix? "request.resource.data.keys().".toList
  ((arguments? "hasAll" call).bind names?).map .hasAll <|>
    ((arguments? "hasOnly" call).bind names?).map .hasOnly

/-- Reads a check: what has several pieces is a type test, and what is in one piece is a list of
alternatives or a test on the set of fields. -/
def read? (s : String) : Option Check :=
  match pieces 0 s.toList with
  | [piece] => anyOf? piece <|> keys? piece
  | ps => (TypeTest.read? ps).map fun test => .anyOf [test]

end Check

theorem mapM_map_eq_some {α β γ : Type} {xs : List α} {f : β → Option γ} {g : α → β} {k : α → γ}
    (h : ∀ x ∈ xs, f (g x) = some (k x)) : (xs.map g).mapM f = some (xs.map k) := by
  induction xs with
  | nil => rfl
  | cons x xs ih =>
    have hx : f (g x) = some (k x) := h x (by simp)
    have hxs : (xs.map g).mapM f = some (xs.map k) := ih fun y hy => h y (by simp [hy])
    rw [List.map_cons, List.mapM_cons, hx, hxs]
    rfl

namespace Text

theorem items?_concat_comma_cons {item : List Char} {ps items : List (List Char)}
    (hps : items? ps = some items) :
    items? ((item ++ [',']) :: ps) = some (item :: items) := by
  cases ps with
  | nil => simp [items?] at hps
  | cons next rest => simp [items?, hps]

theorem items?_pieces_intercalate {stops : List Char} (hblank : ' ' ∈ stops) (hcomma : ',' ∉ stops)
    {us : List (List Char)} (hne : us ≠ []) (h : ∀ u ∈ us, Solid stops 0 u) :
    items? (pieces 0 (", ".toList.intercalate us)) = some us := by
  induction us with
  | nil => simp at hne
  | cons u us ih =>
    have hu : Solid stops 0 u := h u (by simp)
    cases us with
    | nil =>
      rw [List.intercalate_singleton, pieces_of_solid hu hblank]
      rfl
    | cons v vs =>
      have hrest := ih (by simp) fun w hw => h w (by simp [hw])
      have hend : Solid stops 0 [','] := solid_of_forall (by simpa using hcomma)
      have htext : ", ".toList.intercalate (u :: v :: vs) =
          (u ++ [',']) ++ ' ' :: ", ".toList.intercalate (v :: vs) := by
        rw [List.intercalate_cons_cons, List.append_assoc, List.append_assoc]
        rfl
      rw [htext, pieces_solid_blank (hu.append hend) hblank]
      exact items?_concat_comma_cons hrest

theorem name?_quotedName {name : String} (h : isIdentifier name.toList = true) :
    name? (quotedName name).toList = some name := by
  simp [name?, toList_quotedName, h]

theorem arguments?_append (function : String) (arguments : List Char) :
    arguments? function (function.toList ++ '(' :: (arguments ++ [')'])) = some arguments := by
  simp [arguments?, List.dropPrefix?_append_of_beq]

theorem names?_quotedNames {fields : List String}
    (h : ∀ f ∈ fields, isIdentifier f.toList = true) :
    names? ('[' :: (", ".toList.intercalate (quotedNames fields) ++ [']'])) = some fields := by
  cases fields with
  | nil => rfl
  | cons f fs =>
    have hsolid : ∀ u ∈ quotedNames (f :: fs), Solid [' ', '|'] 0 u := by
      intro u hu
      obtain ⟨g, hg, rfl⟩ := List.mem_map.1 hu
      exact solid_quotedName (h g hg)
    have hitems := items?_pieces_intercalate (by decide) (by decide) (by simp [quotedNames]) hsolid
    have hnames : (quotedNames (f :: fs)).mapM name? = some ((f :: fs).map id) :=
      mapM_map_eq_some fun g hg => name?_quotedName (h g hg)
    have hne : ", ".toList.intercalate (quotedNames (f :: fs)) ≠ [] := by
      intro hnil
      rw [hnil] at hitems
      simp [items?, quotedNames, toList_quotedName] at hitems
    simp only [names?, enclosed?_cons_concat, Option.bind_eq_bind, Option.bind_some, hne, if_false,
      hitems, hnames, List.map_id]

end Text

namespace FieldRule
variable {r : FieldRule} {defaulted : Bool} {t : ValueType}

/-- How the type check of a rule reads the field. -/
def accessOf (r : FieldRule) (defaulted : Bool) (t : ValueType) : Access :=
  if defaulted then .defaulted r.field t.placeholder else .direct r.field

def check (r : FieldRule) (defaulted : Bool) : Check :=
  .anyOf (r.types.map fun t => ⟨r.accessOf defaulted t, t⟩)

theorem read?_access (h : r.isNamed = true) :
    Access.read? (r.access defaulted t).toList = some (r.accessOf defaulted t) := by
  have hname : isIdentifier r.field.toList = true := h
  cases defaulted with
  | false =>
    have hread : Access.direct? (directAccess r.field).toList = some (.direct r.field) := by
      rw [Access.direct?, toList_directAccess,
        List.dropPrefix?_append_of_beq _ (beq_self_eq_true _), Option.bind_eq_bind,
        Option.bind_some, if_pos hname, String.ofList_toList]
    simp [Access.read?, access, accessOf, hread]
  | true =>
    have hsolid : ∀ u ∈ defaultArguments r.field t, Solid [' ', '|'] 0 u :=
      fun u hu => solid_of_mem_defaultArguments hname hu
    have hitems :=
      items?_pieces_intercalate (by decide) (by decide) (by simp [defaultArguments]) hsolid
    have hdirect : Access.direct? (defaultedAccess r.field t).toList = none := by
      rw [toList_defaultedAccess]
      rfl
    have hread : Access.defaulted? (defaultedAccess r.field t).toList =
        some (.defaulted r.field t.placeholder) := by
      rw [toList_defaultedAccess, Access.defaulted?, arguments?_append, Option.bind_eq_bind,
        Option.bind_some, hitems, defaultArguments, Option.bind_eq_bind, Option.bind_some]
      simp only [if_true, name?_quotedName hname, Option.map_some, String.ofList_toList]
    simp [Access.read?, access, accessOf, hdirect, hread]

def typePieces (r : FieldRule) (defaulted : Bool) (t : ValueType) : List (List Char) :=
  [(r.access defaulted t).toList, "is".toList, t.token.toList]

theorem read?_typePieces (h : r.isNamed = true) :
    TypeTest.read? (r.typePieces defaulted t) = some ⟨r.accessOf defaulted t, t⟩ := by
  simp [typePieces, TypeTest.read?, read?_access h]

theorem pieces_isOfType (h : r.isNamed = true) :
    pieces 0 (r.isOfType defaulted t).toList = r.typePieces defaulted t := by
  have htoken : pieces 0 (t.token.toList ++ []) = [t.token.toList] := by
    rw [List.append_nil]
    exact pieces_of_solid t.solid_token (by decide)
  have hpieces : pieces 0 ((r.isOfType defaulted t).toList ++ []) = r.typePieces defaulted t :=
    pieces_isOfType_append h htoken
  rwa [List.append_nil] at hpieces

theorem pieces_isOfType_blank (h : r.isNamed = true) (rest : List Char) :
    pieces 0 ((r.isOfType defaulted t).toList ++ ' ' :: rest) =
      r.typePieces defaulted t ++ pieces 0 rest :=
  pieces_isOfType_append h (pieces_solid_blank t.solid_token (by decide) rest)

theorem pieces_intercalate_isOfType (h : r.isNamed = true) {ts : List ValueType} (hne : ts ≠ []) :
    pieces 0 (" || ".toList.intercalate (ts.map fun t => (r.isOfType defaulted t).toList)) =
      ["||".toList].intercalate (ts.map (r.typePieces defaulted)) := by
  induction ts with
  | nil => simp at hne
  | cons t ts ih =>
    cases ts with
    | nil => simpa using pieces_isOfType h
    | cons t' ts =>
      have hrest := ih (by simp)
      have hbar : Solid [' '] 0 "||".toList := by decide
      have htext (rest : List Char) : " || ".toList ++ rest = ' ' :: ("||".toList ++ ' ' :: rest) :=
        rfl
      simp only [List.map_cons] at hrest ⊢
      rw [List.intercalate_cons_cons, List.append_assoc, htext, pieces_isOfType_blank h,
        pieces_solid_blank hbar (by decide), hrest, List.intercalate_cons_cons, List.append_assoc]
      rfl

theorem bar_not_mem_typePieces (h : r.isNamed = true) :
    "||".toList ∉ r.typePieces defaulted t := by
  have hne {u : List Char} (hu : Solid [' ', '|'] 0 u) : "||".toList ≠ u := by
    rintro rfl
    exact absurd hu (by decide)
  simp only [typePieces, List.mem_cons, List.not_mem_nil, or_false, not_or]
  exact ⟨hne (solid_access h), by decide, hne t.solid_token⟩

theorem splitOn_typeTexts (h : r.isNamed = true) (htyped : r.types ≠ []) :
    (pieces 0 (" || ".toList.intercalate (r.typeTexts defaulted))).splitOn "||".toList =
      r.types.map (r.typePieces defaulted) := by
  rw [typeTexts, pieces_intercalate_isOfType h htyped]
  apply List.splitOn_intercalate
  · intro ps hps
    obtain ⟨t, -, rfl⟩ := List.mem_map.1 hps
    exact bar_not_mem_typePieces h
  · simpa using htyped

theorem read?_typeCheck (h : r.isNamed = true) (htyped : r.isTyped = true) :
    Check.read? (r.typeCheck defaulted) = some (r.check defaulted) := by
  match htypes : r.types with
  | [] => simp [isTyped, htypes] at htyped
  | [t] =>
    have hpieces : pieces 0 (r.typeCheck defaulted).toList = r.typePieces defaulted t := by
      rw [toList_typeCheck_of_singleton htypes, pieces_isOfType h]
    have hread := @read?_typePieces r defaulted t h
    rw [typePieces] at hread hpieces
    rw [Check.read?, hpieces, check, htypes]
    simp only [hread, Option.map_some, List.map_cons, List.map_nil]
  | t :: t' :: ts =>
    have hlt : 1 < r.types.length := by simp [htypes]
    have hne : r.types ≠ [] := by simp [htypes]
    have hpiece : pieces 0 (r.typeCheck defaulted).toList = [(r.typeCheck defaulted).toList] :=
      pieces_of_solid (solid_typeCheck_of_lt h hlt) (by decide)
    have htests : (r.types.map (r.typePieces defaulted)).mapM TypeTest.read? =
        some (r.types.map fun t => ⟨r.accessOf defaulted t, t⟩) :=
      mapM_map_eq_some fun t _ => read?_typePieces h
    have hread : Check.anyOf? (r.typeCheck defaulted).toList = some (r.check defaulted) := by
      rw [Check.anyOf?, toList_typeCheck_of_lt hlt]
      simp only [enclosed?_cons_concat, Option.bind_eq_bind, Option.bind_some,
        splitOn_typeTexts h hne, htests, Option.pure_def, check]
    simp [Check.read?, hpiece, hread]

end FieldRule

namespace Check

def ofKeys (fields : List String) (exclusive : Bool) : Check :=
  if exclusive then .hasOnly fields else .hasAll fields

theorem keys?_presenceCheck {fields : List String} (h : ∀ f ∈ fields, isIdentifier f.toList = true)
    (exclusive : Bool) :
    keys? (presenceCheck fields exclusive).toList = some (ofKeys fields exclusive) := by
  rw [toList_presenceCheck, keys?, List.dropPrefix?_append_of_beq _ (beq_self_eq_true _),
    Option.bind_eq_bind, Option.bind_some]
  cases exclusive with
  | false =>
    have htest : presenceTest false = "hasAll" := rfl
    rw [htest, arguments?_append, Option.bind_some, names?_quotedNames h]
    rfl
  | true =>
    have htest : presenceTest true = "hasOnly" := rfl
    have hall (rest : List Char) : arguments? "hasAll" ("hasOnly".toList ++ rest) = none := by
      simp [arguments?, List.dropPrefix?]
    rw [htest, hall, arguments?_append, Option.bind_some, names?_quotedNames h]
    rfl

theorem read?_presenceCheck {fields : List String}
    (h : ∀ f ∈ fields, isIdentifier f.toList = true) (exclusive : Bool) :
    read? (presenceCheck fields exclusive) = some (ofKeys fields exclusive) := by
  have hpiece : pieces 0 (presenceCheck fields exclusive).toList =
      [(presenceCheck fields exclusive).toList] :=
    pieces_of_solid (solid_presenceCheck h) (by decide)
  have hgroup : anyOf? (presenceCheck fields exclusive).toList = none := by
    rw [toList_presenceCheck]
    cases exclusive <;> rfl
  simp [read?, hpiece, hgroup, keys?_presenceCheck h]

end Check
end AccessRules
