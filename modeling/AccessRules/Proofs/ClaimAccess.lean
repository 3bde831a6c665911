import AccessRules.Proofs.CheckText
import AccessRules.Proofs.ClaimChecks

/-! What the accessor of a claim denotes. In the rule language a claim of the token is read by a dot
and an identifier, or by a subscript with a single-quoted literal. A name that has other than ASCII
characters is quoted, and what is quoted is read back as the name. All other names stand bare behind
the dot, so that an ASCII name which is no identifier gets a text that is no access at all. -/
namespace AccessRules
namespace Text

theorem toNat_lt_of_word {c : Char} (h : (c.isAlphanum || c == '_') = true) : c.toNat < 128 := by
  have hupper (hc : c.isUpper = true) : c.toNat ≤ 'Z'.toNat := (of_decide_eq_true hc).2
  have hlower (hc : c.isLower = true) : c.toNat ≤ 'z'.toNat :=
    of_decide_eq_true (Bool.and_eq_true_iff.1 hc).2
  have hdigit (hc : c.isDigit = true) : c.toNat ≤ '9'.toNat :=
    of_decide_eq_true (Bool.and_eq_true_iff.1 hc).2
  rcases Bool.or_eq_true_iff.1 h with h | h
  · rcases Bool.or_eq_true_iff.1 h with hletter | hc
    · rcases Bool.or_eq_true_iff.1 hletter with hc | hc
      · exact Nat.lt_of_le_of_lt (hupper hc) (by decide)
      · exact Nat.lt_of_le_of_lt (hlower hc) (by decide)
    · exact Nat.lt_of_le_of_lt (hdigit hc) (by decide)
  · obtain rfl : c = '_' := beq_iff_eq.1 h
    decide

/-- The inside of a single-quoted literal has no bare quote, and is read as a text. -/
def ReadsAs (inside text : List Char) : Prop :=
  quotedRest (inside ++ ['\'']) = some (text, [])

theorem readsAs_singleQuoted (text : List Char) : ReadsAs (singleQuoted text) text :=
  quotedRest_singleQuoted text []

theorem ReadsAs.unique {inside text other : List Char} (h : ReadsAs inside text)
    (ho : ReadsAs inside other) : other = text := by
  unfold ReadsAs at h ho
  rw [h] at ho
  simpa using ho.symm

end Text
open Text

namespace Claim
variable {name other : String}

/-- The text is a dot and an identifier, which is the name of the claim. -/
def IsDotAccess (text name : String) : Prop :=
  isIdentifier name.toList = true ∧ text = "request.auth.token." ++ name

/-- The text is a subscript with a literal that is read as the name of the claim. -/
def IsSubscript (text name : String) : Prop :=
  ∃ q : String, text = "request.auth.token['" ++ q ++ "']" ∧ ReadsAs q.toList name.toList

theorem isDotted_of_isIdentifier (h : isIdentifier name.toList = true) : isDotted name = true := by
  simp only [isDotted, List.all_eq_true, decide_eq_true_eq]
  exact fun c hc => toNat_lt_of_word (word_of_mem h hc)

theorem accessor_of_isDotted (h : isDotted name = true) :
    accessor name = "request.auth.token." ++ name := by
  rw [accessor, ← isDotted, if_pos h]

theorem accessor_of_not_isDotted (h : ¬isDotted name = true) : accessor name =
    "request.auth.token['" ++ String.ofList (singleQuoted name.toList) ++ "']" := by
  rw [accessor, ← isDotted, if_neg h]

theorem dot_ne_subscript (s t : String) :
    "request.auth.token." ++ s ≠ "request.auth.token['" ++ t := by
  intro h
  have hlists := congrArg String.toList h
  simp at hlists

theorem isDotAccess_accessor_iff : IsDotAccess (accessor name) other ↔
    other = name ∧ isIdentifier name.toList = true := by
  constructor
  · rintro ⟨hother, htext⟩
    by_cases hname : isDotted name = true
    · rw [accessor_of_isDotted hname, String.append_right_inj] at htext
      exact ⟨htext.symm, htext ▸ hother⟩
    · rw [accessor_of_not_isDotted hname, String.append_assoc] at htext
      exact absurd htext.symm (dot_ne_subscript _ _)
  · rintro ⟨rfl, hname⟩
    exact ⟨hname, accessor_of_isDotted (isDotted_of_isIdentifier hname)⟩

theorem isSubscript_accessor_iff : IsSubscript (accessor name) other ↔
    other = name ∧ ¬isDotted name = true := by
  constructor
  · rintro ⟨q, htext, hother⟩
    by_cases hname : isDotted name = true
    · rw [accessor_of_isDotted hname, String.append_assoc] at htext
      exact absurd htext (dot_ne_subscript _ _)
    · rw [accessor_of_not_isDotted hname, String.append_left_inj, String.append_right_inj] at htext
      subst htext
      rw [String.toList_ofList] at hother
      exact ⟨String.toList_inj.1 ((readsAs_singleQuoted name.toList).unique hother), hname⟩
  · rintro ⟨rfl, hname⟩
    refine ⟨_, accessor_of_not_isDotted hname, ?_⟩
    rw [String.toList_ofList]
    exact readsAs_singleQuoted _

/-- The accessor of a name is a dot access exactly if the name is an identifier, and a subscript
exactly if the name has a character that is not ASCII; either way the claim is the one of that name.
So an accessor denotes its claim unless the name has ASCII characters only and is no identifier, and
then it is neither kind of access, to no claim at all. -/
theorem accessor_denotes_iff (name other : String) :
    (IsDotAccess (accessor name) other ↔ other = name ∧ isIdentifier name.toList = true) ∧
    (IsSubscript (accessor name) other ↔ other = name ∧ ∃ c ∈ name.toList, 128 ≤ c.toNat) ∧
    (IsDotAccess (accessor name) name ∨ IsSubscript (accessor name) name ↔
      isIdentifier name.toList = true ∨ ∃ c ∈ name.toList, 128 ≤ c.toNat) := by
  have hascii : ¬isDotted name = true ↔ ∃ c ∈ name.toList, 128 ≤ c.toNat := by
    simp [isDotted]
  rw [← hascii]
  refine ⟨isDotAccess_accessor_iff, isSubscript_accessor_iff, ?_⟩
  rw [isDotAccess_accessor_iff, isSubscript_accessor_iff]
  simp only [true_and]

example : accessor "my-claim" = "request.auth.token.my-claim" ∧
    isIdentifier "my-claim".toList = false := by
  decide

end Claim
end AccessRules
