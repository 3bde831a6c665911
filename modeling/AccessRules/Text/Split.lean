/-! Texts cut at a separating character. -/
namespace AccessRules
namespace Text

/-- The parts of a text between separators. There is always one part more than there are
separators, and the parts hold none. -/
def splitOn (separator : Char) : List Char → List (List Char)
  | [] => [[]]
  | c :: rest =>
    if c = separator then [] :: splitOn separator rest
    else
      match splitOn separator rest with
      | [] => [[c]]
      | part :: more => (c :: part) :: more

theorem splitOn_ne_nil (separator : Char) (cs : List Char) : splitOn separator cs ≠ [] := by
  cases cs with
  | nil => simp [splitOn]
  | cons c rest =>
    unfold splitOn
    split
    · simp
    · split <;> simp

theorem splitOn_of_not_mem {separator : Char} {cs : List Char} (h : separator ∉ cs) :
    splitOn separator cs = [cs] := by
  induction cs with
  | nil => rfl
  | cons c rest ih =>
    have hc : c ≠ separator := fun e => h (by simp [e])
    have hrest : separator ∉ rest := fun hmem => h (List.mem_cons_of_mem c hmem)
    rw [splitOn, if_neg hc, ih hrest]

theorem splitOn_append_cons (separator : Char) (us vs : List Char) :
    splitOn separator (us ++ separator :: vs) = splitOn separator us ++ splitOn separator vs := by
  induction us with
  | nil => simp [splitOn]
  | cons c us ih =>
    rw [List.cons_append, splitOn, splitOn, ih]
    split
    · rfl
    · cases hs : splitOn separator us with
      | nil => exact absurd hs (splitOn_ne_nil separator us)
      | cons part more => rfl

theorem intercalate_splitOn (separator : Char) (cs : List Char) :
    [separator].intercalate (splitOn separator cs) = cs := by
  induction cs with
  | nil => rfl
  | cons c cs ih =>
    obtain ⟨first, more, hs⟩ := List.exists_cons_of_ne_nil (splitOn_ne_nil separator cs)
    rw [hs] at ih
    rw [splitOn, hs]
    split
    · next hc =>
      rw [List.intercalate_cons_cons, ih, hc]
      rfl
    · cases more with
      | nil => simpa using ih
      | cons second more =>
        rw [List.intercalate_cons_cons] at ih ⊢
        simp [← ih]

end Text
end AccessRules
