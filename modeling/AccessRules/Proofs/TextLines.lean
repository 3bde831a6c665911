import AccessRules.Text.Blank
import AccessRules.Text.Split
import Mathlib.Data.List.Basic

/-! Lines of texts. The lines of a text are its parts between line feeds, without the carriage
returns that belong to the line ends, and without an empty part behind the last line feed. -/
namespace AccessRules
namespace Text

theorem splitOn_append_of_not_mem {separator : Char} {us : List Char} (h : separator ∉ us)
    (vs : List Char) :
    splitOn separator (us ++ vs) = (splitOn separator vs).modifyHead (us ++ ·) := by
  induction us with
  | nil =>
    rw [List.nil_append]
    cases splitOn separator vs <;> rfl
  | cons c us ih =>
    have hc : c ≠ separator := fun e => h (by simp [e])
    have hus : separator ∉ us := fun hmem => h (List.mem_cons_of_mem c hmem)
    rw [List.cons_append, splitOn, if_neg hc, ih hus]
    cases hs : splitOn separator vs with
    | nil => exact absurd hs (splitOn_ne_nil separator vs)
    | cons part more => rfl

def withoutReturn (line : List Char) : List Char :=
  if line.getLast? = some '\r' then line.dropLast else line

@[simp] theorem withoutReturn_nil : withoutReturn [] = [] := rfl

theorem withoutReturn_of_getLast? {line : List Char} (h : line.getLast? ≠ some '\r') :
    withoutReturn line = line :=
  if_neg h

theorem withoutReturn_append {us : List Char} (h : '\r' ∉ us) (line : List Char) :
    withoutReturn (us ++ line) = us ++ withoutReturn line := by
  by_cases hline : line = []
  · have hlast : us.getLast? ≠ some '\r' := fun e => h (List.mem_of_getLast? e)
    rw [hline, List.append_nil, withoutReturn_of_getLast? hlast, withoutReturn_nil, List.append_nil]
  · unfold withoutReturn
    rw [List.getLast?_append_of_ne_nil us hline]
    split
    · exact List.dropLast_append_of_ne_nil hline
    · rfl

theorem withoutReturn_cons {c d : Char} (line : List Char) :
    withoutReturn (c :: d :: line) = c :: withoutReturn (d :: line) := by
  unfold withoutReturn
  rw [List.getLast?_cons_cons, List.dropLast_cons_cons]
  split <;> rfl

theorem lines_cons {c : Char} {rest : List Char} (hc : c ≠ '\n')
    (hreturn : c = '\r' → rest.head? ≠ some '\n') :
    lines (c :: rest) =
      match lines rest with
      | [] => [[c]]
      | line :: more => (c :: line) :: more := by
  refine lines.eq_4 c rest hc ?_
  rintro behind hc rfl
  exact hreturn hc rfl

theorem lines_of_not_mem {line : List Char} (hne : line ≠ []) (h : '\n' ∉ line) :
    lines line = [line] := by
  induction line with
  | nil => exact absurd rfl hne
  | cons c rest ih =>
    have hc : c ≠ '\n' := fun e => h (by simp [e])
    have hrest : '\n' ∉ rest := fun hmem => h (List.mem_cons_of_mem c hmem)
    rw [lines_cons hc fun _ e => hrest (List.mem_of_head? e)]
    by_cases hnil : rest = []
    · rw [hnil, lines_nil]
    · rw [ih hnil hrest]

theorem head?_append_of_splitOn {separator : Char} {cs part : List Char} {more : List (List Char)}
    (h : splitOn separator cs = part :: more) (rest : List Char) :
    (cs ++ separator :: rest).head? = some separator ↔ part = [] := by
  cases cs with
  | nil =>
    obtain ⟨rfl, -⟩ := List.cons.inj h
    simp
  | cons c cs =>
    rw [splitOn] at h
    split at h
    · next hc =>
      obtain ⟨rfl, -⟩ := List.cons.inj h
      simp [hc]
    · next hc =>
      obtain ⟨part', more', hs⟩ := List.exists_cons_of_ne_nil (splitOn_ne_nil separator cs)
      rw [hs] at h
      obtain ⟨rfl, -⟩ := List.cons.inj h
      simp [hc]

/-- The lines up to a line feed and those behind it. -/
theorem lines_append_lf (cs rest : List Char) :
    lines (cs ++ '\n' :: rest) = (splitOn '\n' cs).map withoutReturn ++ lines rest := by
  induction cs with
  | nil => simp [splitOn]
  | cons c cs ih =>
    by_cases hc : c = '\n'
    · rw [hc, List.cons_append, lines_lf, ih, splitOn, if_pos rfl]
      rfl
    · obtain ⟨part, more, hs⟩ := List.exists_cons_of_ne_nil (splitOn_ne_nil '\n' cs)
      have hhead := head?_append_of_splitOn hs rest
      rw [hs] at ih
      rw [List.cons_append, splitOn, if_neg hc, hs]
      by_cases hend : c = '\r' ∧ part = []
      · obtain ⟨rfl, rfl⟩ := hend
        obtain ⟨tail, htail⟩ := List.head?_eq_some_iff.1 (hhead.2 rfl)
        rw [htail, lines_lf] at ih
        rw [htail, lines_crlf, ih]
        rfl
      · have hreturn : c = '\r' → (cs ++ '\n' :: rest).head? ≠ some '\n' :=
          fun e hmem => hend ⟨e, hhead.1 hmem⟩
        have hline : withoutReturn (c :: part) = c :: withoutReturn part := by
          cases part with
          | nil => exact withoutReturn_of_getLast? (by simpa using hend)
          | cons d part => exact withoutReturn_cons part
        rw [lines_cons hc hreturn, ih, List.map_cons, List.map_cons, hline]
        rfl

end Text
end AccessRules
