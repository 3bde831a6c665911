import AccessRules.Json.Printer
import AccessRules.Json.Reader
import AccessRules.Text.Quoted
import Mathlib.Tactic.SplitIfs

/-! Quoted texts read back. Both the strings of JSON texts and the single-quoted literals of the
rule language end at the first quote that no backslash stands before, and what is read up to there
is the text that was quoted. So equal quoted texts come from equal texts, whatever follows them. -/
namespace AccessRules
namespace Text

def pushRead (c : Char) : Option (List Char × List Char) → Option (List Char × List Char) :=
  Option.map fun r => (c :: r.1, r.2)

/-- Reads the inside of a single-quoted literal up to its closing quote, and yields what follows. A
character behind a backslash stands for itself. -/
def quotedRest : List Char → Option (List Char × List Char)
  | [] => none
  | '\'' :: rest => some ([], rest)
  | '\\' :: [] => none
  | '\\' :: c :: rest => pushRead c (quotedRest rest)
  | c :: rest => pushRead c (quotedRest rest)

theorem quotedRest_singleQuotedChar (c : Char) (rest : List Char) :
    quotedRest (singleQuotedChar c ++ rest) = pushRead c (quotedRest rest) := by
  by_cases hslash : c = '\\'
  · subst hslash
    rfl
  · by_cases hquote : c = '\''
    · subst hquote
      rfl
    · have hplain : singleQuotedChar c = [c] := by simp [singleQuotedChar, hslash, hquote]
      rw [hplain, List.singleton_append, quotedRest]
      · exact fun h => hquote h
      · exact fun h _ => hslash h
      · exact fun _ _ h => absurd h hslash

/-- The inside of a quoted literal is read as the text that it denotes. -/
theorem quotedRest_singleQuoted (cs rest : List Char) :
    quotedRest (singleQuoted cs ++ '\'' :: rest) = some (cs, rest) := by
  induction cs with
  | nil => rfl
  | cons c cs ih =>
    have htext : singleQuoted (c :: cs) ++ '\'' :: rest =
        singleQuotedChar c ++ (singleQuoted cs ++ '\'' :: rest) := by
      simp [singleQuoted]
    rw [htext, quotedRest_singleQuotedChar, ih]
    rfl

theorem singleQuoted_append_inj {cs ds r s : List Char}
    (h : singleQuoted cs ++ '\'' :: r = singleQuoted ds ++ '\'' :: s) : cs = ds ∧ r = s := by
  have hread := congrArg quotedRest h
  simpa [quotedRest_singleQuoted] using hread

theorem scalar?_toNat (c : Char) : scalar? c.toNat = some c :=
  dif_pos c.valid

end Text

namespace Json
open Text

theorem stringRest_short {c d : Char} (h : shortEscape? d = some c) (rest : List Char) :
    stringRest ('\\' :: d :: rest) = pushRead c (stringRest rest) := by
  have hcode : d ≠ 'u' := by
    rintro rfl
    simp [shortEscape?] at h
  rw [stringRest, h]
  · cases stringRest rest <;> rfl
  · exact fun _ _ _ _ _ hd => absurd hd hcode

theorem stringRest_code {w x y z c : Char} (h : hexCode? [w, x, y, z] = some c.toNat)
    (rest : List Char) :
    stringRest ('\\' :: 'u' :: w :: x :: y :: z :: rest) = pushRead c (stringRest rest) := by
  rw [stringRest, h]
  simp only [Option.bind_eq_bind, Option.bind_some, scalar?_toNat]
  cases stringRest rest <;> rfl

theorem stringRest_plain {c : Char} (hquote : c ≠ '"') (hslash : c ≠ '\\') (h : ¬c.toNat < 0x20)
    (rest : List Char) : stringRest (c :: rest) = pushRead c (stringRest rest) := by
  rw [stringRest]
  · rw [if_neg (by simp [hslash, h])]
    cases stringRest rest <;> rfl
  · exact fun hc => hquote hc
  · exact fun _ _ _ _ _ hc => absurd hc hslash
  · exact fun _ _ hc => absurd hc hslash

theorem exists_controlEscape {c : Char} (h : c.toNat < 0x20) :
    ∃ w x y z, controlEscape c = ['\\', 'u', w, x, y, z] ∧
      hexCode? [w, x, y, z] = some c.toNat := by
  have hall : ∀ n < 0x20,
      let ds := List.replicate (4 - (Nat.toDigits 16 n).length) '0' ++ Nat.toDigits 16 n
      ds.length = 4 ∧ hexCode? ds = some n := by
    decide
  obtain ⟨hlength, hcode⟩ := hall c.toNat h
  have hescape : controlEscape c = ['\\', 'u'] ++
      (List.replicate (4 - (Nat.toDigits 16 c.toNat).length) '0' ++ Nat.toDigits 16 c.toNat) :=
    List.append_assoc _ _ _
  rw [hescape]
  match List.replicate (4 - (Nat.toDigits 16 c.toNat).length) '0' ++ Nat.toDigits 16 c.toNat,
    hlength, hcode with
  | [w, x, y, z], _, hcode => exact ⟨w, x, y, z, rfl, hcode⟩

theorem stringRest_escapeChar (c : Char) (rest : List Char) :
    stringRest (escapeChar c ++ rest) = pushRead c (stringRest rest) := by
  unfold escapeChar
  split_ifs with hquote hslash hback htab hfeed hform hreturn hcontrol
  · rw [hquote]
    exact stringRest_short rfl rest
  · rw [hslash]
    exact stringRest_short rfl rest
  · rw [hback]
    exact stringRest_short rfl rest
  · rw [htab]
    exact stringRest_short rfl rest
  · rw [hfeed]
    exact stringRest_short rfl rest
  · rw [hform]
    exact stringRest_short rfl rest
  · rw [hreturn]
    exact stringRest_short rfl rest
  · obtain ⟨w, x, y, z, hescape, hcode⟩ := exists_controlEscape hcontrol
    rw [hescape]
    exact stringRest_code hcode rest
  · exact stringRest_plain hquote hslash hcontrol rest

theorem stringRest_flatMap_escapeChar (cs rest : List Char) :
    stringRest (cs.flatMap escapeChar ++ '"' :: rest) = some (cs, rest) := by
  induction cs with
  | nil => rfl
  | cons c cs ih =>
    rw [List.flatMap_cons, List.append_assoc, stringRest_escapeChar, ih]
    rfl

theorem quote_injective {s t : String} (h : quote s = quote t) : s = t := by
  rw [← String.toList_inj, quote, quote, String.toList_ofList, String.toList_ofList,
    List.cons.injEq] at h
  have hread := congrArg stringRest h.2
  rw [stringRest_flatMap_escapeChar, stringRest_flatMap_escapeChar] at hread
  simpa [String.toList_inj] using hread

theorem eq_quote_of_mem_escapeChar {c : Char} (h : '"' ∈ escapeChar c) : c = '"' := by
  have hcontrol : ∀ n < 0x20, '"' ∉ ['\\', 'u'] ++
      List.replicate (4 - (Nat.toDigits 16 n).length) '0' ++ Nat.toDigits 16 n := by
    decide
  unfold escapeChar at h
  split_ifs at h with hquote _ _ _ _ _ _ hlow
  · exact hquote
  · simp at h
  · simp at h
  · simp at h
  · simp at h
  · simp at h
  · simp at h
  · exact absurd h (hcontrol c.toNat hlow)
  · exact (List.mem_singleton.1 h).symm

theorem flatMap_escapeChar_ne_quote_cons (cs v : List Char) :
    cs.flatMap escapeChar ≠ '"' :: v := by
  intro h
  have hread := stringRest_flatMap_escapeChar cs []
  rw [h, List.cons_append, stringRest] at hread
  simp at hread

/-- Inside a string only a backslash stands before a quote. -/
theorem eq_backslash_of_flatMap_escapeChar {cs u v : List Char} {c : Char}
    (h : cs.flatMap escapeChar = u ++ c :: '"' :: v) : c = '\\' := by
  induction cs generalizing u with
  | nil => simp at h
  | cons x cs ih =>
    rw [List.flatMap_cons] at h
    rcases List.append_eq_append_iff.1 h with ⟨w, -, hrest⟩ | ⟨w, hx, hrest⟩
    · exact ih hrest
    · match w with
      | [] =>
        have hfirst : cs.flatMap escapeChar = [] ++ c :: '"' :: v := hrest.symm
        exact ih hfirst
      | [d] =>
        rw [List.singleton_append, List.cons.injEq] at hrest
        exact absurd hrest.2.symm (flatMap_escapeChar_ne_quote_cons cs v)
      | d :: e :: w =>
        rw [List.cons_append, List.cons_append, List.cons.injEq, List.cons.injEq] at hrest
        obtain ⟨rfl, rfl, -⟩ := hrest
        obtain rfl : x = '"' := eq_quote_of_mem_escapeChar (by simp [hx])
        have hescape : ['\\', '"'] = u ++ c :: '"' :: w := hx
        match u with
        | [] => exact (List.cons.inj hescape).1.symm
        | _ :: u =>
          have hlength := congrArg List.length hescape
          simp only [List.length_append, List.length_cons, List.length_nil] at hlength
          omega

end Json
end AccessRules
