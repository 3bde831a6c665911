import AccessRules.Policy.FieldCheck
import AccessRules.Proofs.Nesting

/-! The texts of field checks. If the name of a field is an identifier, the check for one type has
three pieces, and a check for several types and a check on the set of fields are in one piece each.
No check has a `|` outside its own parentheses. -/
namespace AccessRules

namespace Text

/-- The text is a letter or an underscore, and then letters, digits and underscores. -/
def isIdentifier : List Char → Bool
  | [] => false
  | c :: cs => (c.isAlpha || c == '_') && cs.all fun d => d.isAlphanum || d == '_'

theorem word_of_mem {cs : List Char} (h : isIdentifier cs = true) {c : Char} (hc : c ∈ cs) :
    (c.isAlphanum || c == '_') = true := by
  cases cs with
  | nil => simp at hc
  | cons d cs =>
    rw [isIdentifier, Bool.and_eq_true, List.all_eq_true] at h
    rcases List.mem_cons.1 hc with rfl | hc
    · have hfirst := h.1
      simp only [Char.isAlphanum, Bool.or_eq_true] at hfirst ⊢
      exact hfirst.imp_left .inl
    · exact h.2 c hc

theorem solid_of_isIdentifier {around : Nat} {cs : List Char} (h : isIdentifier cs = true) :
    Solid [' ', '|'] around cs := by
  apply solid_of_forall
  intro c hc
  have hword := word_of_mem h hc
  have hne (d : Char) (hd : (d.isAlphanum || d == '_') = false) : c ≠ d := by
    rintro rfl
    simp [hword] at hd
  exact ⟨hne '(' (by decide), hne ')' (by decide),
    by simpa using ⟨hne ' ' (by decide), hne '|' (by decide)⟩⟩

end Text
open Text

namespace ValueType

theorem solid_token (t : ValueType) : Solid [' ', '|'] 0 t.token.toList := by
  cases t <;> decide

theorem solid_placeholder (t : ValueType) : Solid [' ', '|'] 0 t.placeholder.toList := by
  cases t <;> decide

end ValueType

def quotedName (name : String) : String := "'" ++ name ++ "'"

theorem toList_quotedName (name : String) :
    (quotedName name).toList = '\'' :: (name.toList ++ ['\'']) := by
  simp only [quotedName, String.toList_append]
  rfl

theorem solid_quotedName {name : String} (h : isIdentifier name.toList = true) :
    Solid [' ', '|'] 0 (quotedName name).toList := by
  have hquote : Solid [' ', '|'] 0 ['\''] := by decide
  rw [toList_quotedName]
  exact hquote.cons ((solid_of_isIdentifier h).append hquote)

theorem toList_directAccess (field : String) :
    (directAccess field).toList = "request.resource.data.".toList ++ field.toList :=
  String.toList_append

theorem solid_directAccess {field : String} (h : isIdentifier field.toList = true) :
    Solid [' ', '|'] 0 (directAccess field).toList := by
  have hdata : Solid [' ', '|'] 0 "request.resource.data.".toList := by decide
  rw [toList_directAccess]
  exact hdata.append (solid_of_isIdentifier h)

def defaultArguments (field : String) (t : ValueType) : List (List Char) :=
  ["request".toList, (quotedName field).toList, t.placeholder.toList]

theorem toList_defaultedAccess (field : String) (t : ValueType) :
    (defaultedAccess field t).toList =
      "getOr".toList ++ '(' :: (", ".toList.intercalate (defaultArguments field t) ++ [')']) := by
  unfold defaultedAccess
  simp only [defaultArguments, quotedName, String.toList_append,
    List.intercalate_cons_cons, List.intercalate_singleton, List.append_assoc]
  rfl

theorem solid_of_mem_defaultArguments {field : String} (h : isIdentifier field.toList = true)
    {t : ValueType} {u : List Char} (hu : u ∈ defaultArguments field t) :
    Solid [' ', '|'] 0 u := by
  simp only [defaultArguments, List.mem_cons, List.not_mem_nil, or_false] at hu
  rcases hu with rfl | rfl | rfl
  · decide
  · exact solid_quotedName h
  · exact t.solid_placeholder

theorem solid_separator : Solid [' ', '|'] 1 ", ".toList := by decide

theorem solid_defaultedAccess {field : String} (h : isIdentifier field.toList = true)
    (t : ValueType) : Solid [' ', '|'] 0 (defaultedAccess field t).toList := by
  have hcall : Solid [' ', '|'] 0 "getOr".toList := by decide
  have harguments : Solid [' ', '|'] 1 (", ".toList.intercalate (defaultArguments field t)) :=
    solid_intercalate solid_separator fun u hu =>
      (solid_of_mem_defaultArguments h hu).mono (Nat.zero_le 1)
  rw [toList_defaultedAccess]
  exact hcall.append harguments.group

namespace FieldRule

def access (r : FieldRule) (defaulted : Bool) (t : ValueType) : String :=
  if defaulted then defaultedAccess r.field t else directAccess r.field

def isNamed (r : FieldRule) : Bool := isIdentifier r.field.toList

variable {r : FieldRule} {defaulted : Bool} {t : ValueType}

theorem solid_access (h : r.isNamed = true) :
    Solid [' ', '|'] 0 (r.access defaulted t).toList := by
  cases defaulted with
  | true => exact solid_defaultedAccess h t
  | false => exact solid_directAccess h

theorem toList_isOfType (r : FieldRule) (defaulted : Bool) (t : ValueType) :
    (r.isOfType defaulted t).toList =
      (r.access defaulted t).toList ++ ' ' :: ("is".toList ++ ' ' :: t.token.toList) := by
  simp only [isOfType, access, String.toList_append, List.append_assoc]
  rfl

theorem pieces_isOfType_append (h : r.isNamed = true) {rest : List Char}
    {ps : List (List Char)} (htoken : pieces 0 (t.token.toList ++ rest) = t.token.toList :: ps) :
    pieces 0 ((r.isOfType defaulted t).toList ++ rest) =
      (r.access defaulted t).toList :: "is".toList :: t.token.toList :: ps := by
  have his : Solid [' ', '|'] 0 "is".toList := by decide
  rw [toList_isOfType]
  simp only [List.append_assoc, List.cons_append]
  rw [pieces_solid_blank (solid_access h) (by simp), pieces_solid_blank his (by simp), htoken]

theorem solid_isOfType (h : r.isNamed = true) {around : Nat} {stops : List Char}
    (hstops : ∀ c ∈ stops, c ∈ [' ', '|']) (hblank : Solid stops around [' ']) :
    Solid stops around (r.isOfType defaulted t).toList := by
  have hsolid {u : List Char} (hu : Solid [' ', '|'] 0 u) : Solid stops around u :=
    (hu.of_subset hstops).mono (Nat.zero_le around)
  have his : Solid [' ', '|'] 0 "is".toList := by decide
  rw [toList_isOfType]
  exact (hsolid (solid_access h)).append
    (hblank.cons ((hsolid his).append (hblank.cons (hsolid t.solid_token))))

def typeTexts (r : FieldRule) (defaulted : Bool) : List (List Char) :=
  r.types.map fun t => (r.isOfType defaulted t).toList

theorem toList_typeCheck_of_singleton (h : r.types = [t]) :
    (r.typeCheck defaulted).toList = (r.isOfType defaulted t).toList := by
  simp [typeCheck, h]

theorem toList_typeCheck_of_lt (h : 1 < r.types.length) :
    (r.typeCheck defaulted).toList =
      '(' :: (" || ".toList.intercalate (r.typeTexts defaulted) ++ [')']) := by
  simp only [typeCheck, gt_iff_lt, h, if_true, String.toList_append, String.toList_intercalate,
    List.map_map, typeTexts, Function.comp_def]
  rfl

theorem solid_typeCheck_of_lt (hr : r.isNamed = true) (h : 1 < r.types.length) :
    Solid [' ', '|'] 0 (r.typeCheck defaulted).toList := by
  have hbar : Solid [' ', '|'] 1 " || ".toList := by decide
  have htexts : Solid [' ', '|'] 1 (" || ".toList.intercalate (r.typeTexts defaulted)) := by
    apply solid_intercalate hbar
    intro u hu
    obtain ⟨t, -, rfl⟩ := List.mem_map.1 hu
    exact solid_isOfType hr (fun _ hc => hc) (by decide)
  rw [toList_typeCheck_of_lt h]
  exact htexts.group

/-- The type check of a rule has no `|` outside its own parentheses. -/
theorem solid_typeCheck (hr : r.isNamed = true) (h : r.isTyped = true) :
    Solid ['|'] 0 (r.typeCheck defaulted).toList := by
  have hbar : ∀ c ∈ ['|'], c ∈ [' ', '|'] := by simp
  match htypes : r.types with
  | [] => simp [isTyped, htypes] at h
  | [t] =>
    rw [toList_typeCheck_of_singleton htypes]
    exact solid_isOfType hr hbar (by decide)
  | _ :: _ :: _ => exact (solid_typeCheck_of_lt hr (by simp [htypes])).of_subset hbar

end FieldRule

theorem isIdentifier_of_mem_requiredFields {rules : List FieldRule}
    (h : ∀ r ∈ rules, r.isNamed = true) : ∀ f ∈ requiredFields rules,
      isIdentifier f.toList = true := by
  intro f hf
  obtain ⟨r, hr, rfl⟩ := List.mem_map.1 hf
  exact h r (List.mem_filter.1 hr).1

def presenceTest (exclusive : Bool) : String := if exclusive then "hasOnly" else "hasAll"

def quotedNames (fields : List String) : List (List Char) :=
  fields.map fun f => (quotedName f).toList

theorem toList_presenceCheck (fields : List String) (exclusive : Bool) :
    (presenceCheck fields exclusive).toList =
      "request.resource.data.keys().".toList ++ ((presenceTest exclusive).toList ++
        '(' :: ('[' :: (", ".toList.intercalate (quotedNames fields) ++ [']']) ++ [')'])) := by
  have hnames : (", ".intercalate (fields.map fun f => "'" ++ f ++ "'")).toList =
      ", ".toList.intercalate (quotedNames fields) := by
    rw [String.toList_intercalate, List.map_map]
    rfl
  unfold presenceCheck presenceTest
  simp only [String.toList_append, hnames, List.append_assoc, List.cons_append]
  rfl

theorem solid_presenceCheck {fields : List String} {exclusive : Bool}
    (h : ∀ f ∈ fields, isIdentifier f.toList = true) :
    Solid [' ', '|'] 0 (presenceCheck fields exclusive).toList := by
  have hkeys : Solid [' ', '|'] 0 "request.resource.data.keys().".toList := by decide
  have htest : Solid [' ', '|'] 0 (presenceTest exclusive).toList := by
    cases exclusive <;> decide
  have hnames : Solid [' ', '|'] 1 (", ".toList.intercalate (quotedNames fields)) := by
    apply solid_intercalate solid_separator
    intro u hu
    obtain ⟨f, hf, rfl⟩ := List.mem_map.1 hu
    exact (solid_quotedName (h f hf)).mono (Nat.zero_le 1)
  have hopen : Solid [' ', '|'] 1 ['['] := by decide
  have hclose : Solid [' ', '|'] 1 [']'] := by decide
  rw [toList_presenceCheck]
  exact hkeys.append (htest.append (hopen.cons (hnames.append hclose)).group)

end AccessRules
