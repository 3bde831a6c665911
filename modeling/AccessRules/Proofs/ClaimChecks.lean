import AccessRules.Policy.Grant
import AccessRules.Proofs.NumberTexts
import AccessRules.Proofs.QuotedTexts
import Mathlib.Data.List.Basic

/-! Claim checks are told apart. The check of a claim is the accessor of its name, followed by a
comparison. A quoted name ends at its closing quote. A name behind a dot is not quoted and may
itself look like a comparison; but no comparison ends with another one, so that the text of a check
can be cut in one place only. -/
namespace AccessRules
open Text

namespace ClaimValue

theorem toList_literal_string (s : String) : (string s).literal.toList =
    '"' :: (s.toList.flatMap Json.escapeChar ++ ['"']) := by
  simp [literal, toJson, Json.text, Json.quote]

theorem not_mem_literal {v : ClaimValue} (h : ∀ s, v ≠ string s) :
    ' ' ∉ v.literal.toList ∧ '"' ∉ v.literal.toList := by
  cases v with
  | bool b => cases b <;> decide
  | number n =>
    have hnumeric : ∀ c ∈ (number n).literal.toList, isNumeric c = true :=
      isNumeral_iff.1 n.isNumeral_text
    exact ⟨fun hmem => absurd (hnumeric _ hmem) (by decide),
      fun hmem => absurd (hnumeric _ hmem) (by decide)⟩
  | string s => exact absurd rfl (h s)

theorem getLast?_literal (v : ClaimValue) : v.literal.toList.getLast? ≠ some 'l' := by
  cases v with
  | bool b => cases b <;> decide
  | number n =>
    intro hlast
    have hnumeric : isNumeric 'l' = true :=
      isNumeral_iff.1 n.isNumeral_text 'l' (List.mem_of_getLast? hlast)
    exact absurd hnumeric (by decide)
  | string s =>
    rw [toList_literal_string, ← List.cons_append, List.getLast?_concat]
    decide

/-- No literal ends in a blank and another literal. -/
theorem literal_ne_append_blank (v w : ClaimValue) (x : List Char) :
    v.literal.toList ≠ x ++ ' ' :: w.literal.toList := by
  intro h
  by_cases hv : ∀ s, v ≠ string s
  · exact (not_mem_literal hv).1 (by simp [h])
  obtain ⟨s, rfl⟩ := not_forall_not.1 hv
  rw [toList_literal_string] at h
  by_cases hw : ∀ t, w ≠ string t
  · -- The string ends in a quote, and the blank and the literal have none.
    have hlast : (x ++ ' ' :: w.literal.toList).getLast? = some '"' := by
      rw [← h, ← List.cons_append, List.getLast?_concat]
    rw [List.getLast?_append_of_ne_nil _ (List.cons_ne_nil _ _)] at hlast
    have hquote := List.mem_of_getLast? hlast
    simp [(not_mem_literal hw).2] at hquote
  · obtain ⟨t, rfl⟩ := not_forall_not.1 hw
    rw [toList_literal_string] at h
    match x with
    | [] => simp at h
    | c :: x =>
      have hinner : s.toList.flatMap Json.escapeChar ++ ['"'] =
          (x ++ ' ' :: '"' :: t.toList.flatMap Json.escapeChar) ++ ['"'] := by
        simpa using (List.cons.inj h).2
      have hblank : ' ' = '\\' :=
        Json.eq_backslash_of_flatMap_escapeChar (List.append_cancel_right hinner)
      exact absurd hblank (by decide)

end ClaimValue

namespace Claim

def comparison : Option ClaimValue → List Char
  | none => " != null".toList
  | some v => " == ".toList ++ v.literal.toList

theorem toList_check (c : Claim) :
    c.check.toList = (accessor c.name).toList ++ comparison c.value? := by
  unfold check comparison
  cases c.value? <;> simp

theorem comparison_some (v : ClaimValue) :
    comparison (some v) = " == ".toList ++ v.literal.toList := rfl

theorem comparison_some_ne_none (v : ClaimValue) : comparison (some v) ≠ comparison none := by
  intro h
  have hmarks : ' ' :: '=' :: ("= ".toList ++ v.literal.toList) = ' ' :: '!' :: "= null".toList := h
  exact absurd (List.cons.inj (List.cons.inj hmarks).2).1 (by decide)

/-- Names behind a dot have ASCII characters only. -/
def isDotted (name : String) : Bool := name.toList.all fun c => c.toNat < 128

theorem toList_accessor_of_isDotted {name : String} (h : isDotted name = true) :
    (accessor name).toList = "request.auth.token".toList ++ '.' :: name.toList := by
  have hdot : "request.auth.token.".toList = "request.auth.token".toList ++ ['.'] := by decide
  rw [accessor, ← isDotted, if_pos h, String.toList_append, hdot, List.append_assoc,
    List.singleton_append]

theorem toList_accessor_of_not_isDotted {name : String} (h : ¬isDotted name = true) :
    (accessor name).toList = "request.auth.token".toList ++
      '[' :: '\'' :: (singleQuoted name.toList ++ "']".toList) := by
  have hbracket : "request.auth.token['".toList = "request.auth.token".toList ++ ['[', '\''] := by
    decide
  have hquoted : (String.ofList (singleQuoted name.toList)).toList = singleQuoted name.toList :=
    String.toList_ofList
  rw [accessor, ← isDotted, if_neg h, String.toList_append, String.toList_append, hbracket,
    hquoted, List.append_assoc, List.append_assoc, List.cons_append, List.singleton_append]

theorem map_literal_eq_of_comparison_eq {v w : Option ClaimValue}
    (h : comparison v = comparison w) :
    v.map ClaimValue.literal = w.map ClaimValue.literal := by
  cases v with
  | none =>
    cases w with
    | none => rfl
    | some w => exact absurd h.symm (comparison_some_ne_none w)
  | some v =>
    cases w with
    | none => exact absurd h (comparison_some_ne_none v)
    | some w =>
      have hliteral : v.literal = w.literal := String.toList_inj.1 (List.append_cancel_left h)
      rw [Option.map_some, Option.map_some, hliteral]

theorem getLast?_comparison_none : (comparison none).getLast? = some 'l' := by decide

theorem getLast?_comparison_some (v : ClaimValue) :
    (comparison (some v)).getLast? ≠ some 'l' := by
  intro hlast
  rw [comparison_some] at hlast
  by_cases hempty : v.literal.toList = []
  · rw [hempty] at hlast
    exact absurd hlast (by decide)
  · rw [List.getLast?_append_of_ne_nil _ hempty] at hlast
    exact v.getLast?_literal hlast

theorem count_comparison_none : (comparison none).count '=' = 1 := by decide

theorem two_le_count_comparison_some (v : ClaimValue) :
    2 ≤ (comparison (some v)).count '=' := by
  have hmark : (" == ".toList).count '=' = 2 := by decide
  rw [comparison_some, List.count_append, hmark]
  omega

theorem eq_nil_of_append_comparison {v w : Option ClaimValue} {z : List Char}
    (h : z ++ comparison v = comparison w) : z = [] := by
  cases v with
  | none =>
    cases w with
    | none => exact List.append_left_eq_self.1 h
    | some w =>
      have hlast : (comparison (some w)).getLast? = some 'l' := by
        rw [← h, List.getLast?_append_of_ne_nil _ (by decide), getLast?_comparison_none]
      exact absurd hlast (getLast?_comparison_some w)
  | some v =>
    cases w with
    | none =>
      have hcount : (z ++ comparison (some v)).count '=' = 1 := by rw [h, count_comparison_none]
      rw [List.count_append] at hcount
      have htwo := two_le_count_comparison_some v
      omega
    | some w =>
      by_contra hz
      have hlength : 0 < z.length := List.length_pos_of_ne_nil hz
      have hcut : (z ++ " ==".toList) ++ ' ' :: v.literal.toList =
          " == ".toList ++ w.literal.toList := by
        rw [List.append_assoc]
        exact h
      -- The literal at the end starts behind the first operator, so the other one ends with it.
      rcases List.append_eq_append_iff.1 hcut with ⟨x, hx, hw⟩ | ⟨x, -, hw⟩
      · have hnil : x = [] := by
          have hsizes := congrArg List.length hx
          simp only [List.length_append, String.length_toList] at hsizes
          have hfour : " == ".length = 4 := by decide
          have hthree : " ==".length = 3 := by decide
          exact List.eq_nil_of_length_eq_zero (by omega)
        rw [hnil, List.nil_append] at hw
        exact ClaimValue.literal_ne_append_blank w v [] hw.symm
      · exact ClaimValue.literal_ne_append_blank w v x hw

/-- A text in front of a comparison is told apart from it. -/
theorem append_comparison_inj {x y : List Char} {v w : Option ClaimValue}
    (h : x ++ comparison v = y ++ comparison w) : x = y ∧ comparison v = comparison w := by
  rcases List.append_eq_append_iff.1 h with ⟨z, rfl, hz⟩ | ⟨z, rfl, hz⟩
  · obtain rfl := eq_nil_of_append_comparison hz.symm
    exact ⟨(List.append_nil x).symm, hz⟩
  · obtain rfl := eq_nil_of_append_comparison hz.symm
    exact ⟨List.append_nil y, hz.symm⟩

theorem eq_of_check_eq {c d : Claim} (h : c.check = d.check) :
    c.name = d.name ∧ comparison c.value? = comparison d.value? := by
  rw [← String.toList_inj, toList_check, toList_check] at h
  by_cases hc : isDotted c.name = true <;> by_cases hd : isDotted d.name = true
  · rw [toList_accessor_of_isDotted hc, toList_accessor_of_isDotted hd, List.append_assoc,
      List.append_assoc] at h
    obtain ⟨hname, hvalue⟩ := append_comparison_inj (List.cons.inj (List.append_cancel_left h)).2
    exact ⟨String.toList_inj.1 hname, hvalue⟩
  · rw [toList_accessor_of_isDotted hc, toList_accessor_of_not_isDotted hd, List.append_assoc,
      List.append_assoc] at h
    exact absurd (List.cons.inj (List.append_cancel_left h)).1 (by decide)
  · rw [toList_accessor_of_not_isDotted hc, toList_accessor_of_isDotted hd, List.append_assoc,
      List.append_assoc] at h
    exact absurd (List.cons.inj (List.append_cancel_left h)).1 (by decide)
  · rw [toList_accessor_of_not_isDotted hc, toList_accessor_of_not_isDotted hd, List.append_assoc,
      List.append_assoc] at h
    have hquoted : singleQuoted c.name.toList ++ '\'' :: ']' :: comparison c.value? =
        singleQuoted d.name.toList ++ '\'' :: ']' :: comparison d.value? := by
      simpa using h
    obtain ⟨hname, hvalue⟩ := singleQuoted_append_inj hquoted
    exact ⟨String.toList_inj.1 hname, (List.cons.inj hvalue).2⟩

/-- Two claims have the same check exactly if they have the same name, and either no values or
values with the same literal; two strings have the same literal only if they are the same. -/
theorem check_eq_check_iff :
    (∀ c d : Claim, c.check = d.check ↔ c.name = d.name ∧
      c.value?.map ClaimValue.literal = d.value?.map ClaimValue.literal) ∧
    ∀ s t : String, (ClaimValue.string s).literal = (ClaimValue.string t).literal ↔ s = t := by
  refine ⟨fun c d => ⟨fun h => ?_, ?_⟩, fun s t => ⟨Json.quote_injective, fun h => by rw [h]⟩⟩
  · obtain ⟨hname, hvalue⟩ := eq_of_check_eq h
    exact ⟨hname, map_literal_eq_of_comparison_eq hvalue⟩
  · rintro ⟨hname, hvalue⟩
    unfold check
    rw [hname]
    cases hc : c.value? <;> cases hd : d.value? <;> simp_all

end Claim
end AccessRules
