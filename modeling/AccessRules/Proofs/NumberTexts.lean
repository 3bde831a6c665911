import AccessRules.Json.Printer

/-! The texts of numbers. Integers and binary64 numbers are written with digits, signs, points and
exponent marks, and with no other characters. -/
namespace AccessRules
namespace Text

def isNumeric (c : Char) : Bool := c.isDigit || c == '-' || c == '+' || c == '.' || c == 'e'

/-- The text has only characters that numbers are written with. -/
def isNumeral (cs : List Char) : Bool := cs.all isNumeric

@[simp] theorem isNumeral_append (u v : List Char) :
    isNumeral (u ++ v) = (isNumeral u && isNumeral v) :=
  List.all_append

theorem isNumeral_iff {cs : List Char} : isNumeral cs = true ↔ ∀ c ∈ cs, isNumeric c = true :=
  List.all_eq_true

theorem isNumeral_toDigits (n : Nat) : isNumeral (Nat.toDigits 10 n) = true := by
  rw [isNumeral_iff]
  intro c hc
  have hdigit : c.isDigit = true := Nat.isDigit_of_mem_toDigits (by decide) (by decide) hc
  simp [isNumeric, hdigit]

theorem isNumeral_sublist {u v : List Char} (h : u.Sublist v) (hv : isNumeral v = true) :
    isNumeral u = true :=
  isNumeral_iff.2 fun c hc => isNumeral_iff.1 hv c (h.subset hc)

theorem isNumeral_zeros (n : Nat) : isNumeral (List.replicate n '0') = true := by
  rw [isNumeral_iff]
  intro c hc
  rw [List.eq_of_mem_replicate hc]
  rfl

theorem isNumeral_decimal (n : Nat) : isNumeral (decimal n).toList = true := by
  rw [decimal, String.toList_ofList, isNumeral_toDigits]

theorem isNumeral_signed (n : Int) : isNumeral (signed n).toList = true := by
  cases n with
  | ofNat n => exact isNumeral_decimal n
  | negSucc n =>
    rw [signed, String.toList_append, isNumeral_append, isNumeral_decimal]
    rfl

end Text
open Text

namespace Binary64

theorem isNumeral_positional {ds : List Char} (h : isNumeral ds = true) (n : Int) :
    isNumeral (positional ds n).toList = true := by
  have htake (k : Nat) : isNumeral (ds.take k) = true :=
    isNumeral_sublist (List.take_sublist k ds) h
  have hdrop (k : Nat) : isNumeral (ds.drop k) = true :=
    isNumeral_sublist (List.drop_sublist k ds) h
  unfold positional
  split
  · simp only [String.toList_append, String.toList_ofList, isNumeral_append, htake,
      isNumeral_zeros, Bool.true_and, Bool.and_eq_true]
    refine ⟨by decide, ?_⟩
    split
    · decide
    · rw [String.toList_ofList, hdrop]
  · simp only [String.toList_append, String.toList_ofList, isNumeral_append, h, Bool.and_true]
    decide
  · simp only [String.toList_append, String.toList_ofList, isNumeral_append, h,
      isNumeral_zeros, Bool.and_true]
    decide

theorem isNumeral_scientific {ds : List Char} (h : isNumeral ds = true) (lead : Int) :
    isNumeral (scientific layout ds lead).toList = true := by
  have hmarked {mantissa : List Char} {mark : String} (hm : isNumeral mantissa = true)
      (hmark : isNumeral mark.toList = true) (n : Nat) :
      isNumeral (String.ofList mantissa ++ mark ++ decimal n).toList = true := by
    simp only [String.toList_append, String.toList_ofList, isNumeral_append, hm, hmark,
      isNumeral_decimal, Bool.and_self]
  have hpoint {d : Char} {rest : List Char} (h : isNumeral (d :: rest) = true) :
      isNumeral (d :: '.' :: rest) = true := by
    rw [isNumeral_iff] at h ⊢
    intro c hc
    rcases List.mem_cons.1 hc with rfl | hc
    · exact h c (by simp)
    · rcases List.mem_cons.1 hc with rfl | hc
      · rfl
      · exact h c (List.mem_cons_of_mem d hc)
  have hup : isNumeral layout.upMark.toList = true := by decide
  have hdown : isNumeral layout.downMark.toList = true := by decide
  rcases ds with _ | ⟨d, _ | ⟨e, rest⟩⟩ <;> rcases lead with n | n
  · exact hmarked h hup n
  · exact hmarked h hdown (n + 1)
  · exact hmarked h hup n
  · exact hmarked h hdown (n + 1)
  · exact hmarked (hpoint h) hup n
  · exact hmarked (hpoint h) hdown (n + 1)

theorem isNumeral_text (x : Binary64) : isNumeral x.text.toList = true := by
  have hdigits (d : Decimal) :
      isNumeral ((Nat.toDigits 10 d.digits).reverse.dropWhile (· == '0')).reverse = true := by
    rw [isNumeral_iff]
    intro c hc
    have hmem := (List.dropWhile_sublist _).subset (List.mem_reverse.1 hc)
    exact isNumeral_iff.1 (isNumeral_toDigits d.digits) c (List.mem_reverse.1 hmem)
  have hmagnitude : isNumeral (magnitudeText layout x.rank).toList = true := by
    unfold magnitudeText
    split
    · decide
    · dsimp only
      split
      · exact isNumeral_positional (hdigits _) _
      · exact isNumeral_scientific (hdigits _) _
  rw [text, String.toList_append, isNumeral_append, hmagnitude]
  cases x.negative <;> rfl

end Binary64

theorem Number.isNumeral_text (n : Number) : isNumeral n.text.toList = true := by
  cases n with
  | int value => exact isNumeral_signed value
  | float value => exact value.isNumeral_text

end AccessRules
