import Mathlib.Tactic.Common

/-! Parentheses. A text is cut into pieces at the blanks that stand outside all parentheses. A text
is solid if it closes the parentheses that it opens and no others, and certain characters stand in
it inside parentheses only. Solid texts are closed under putting them side by side and under putting
them in parentheses, and one without a bare blank stays in one piece wherever it stands. -/
namespace AccessRules
namespace Text

/-- How many parentheses are open after a character. One that closes nothing is passed over. -/
def nest (depth : Nat) (c : Char) : Nat :=
  if c = '(' then depth + 1 else if c = ')' then depth - 1 else depth

/-- The parts of a text between the blanks that stand outside all parentheses. -/
def pieces : Nat → List Char → List (List Char)
  | _, [] => [[]]
  | depth, c :: cs =>
    if c = ' ' ∧ depth = 0 then [] :: pieces 0 cs
    else (pieces (nest depth c) cs).modifyHead (c :: ·)

def outerPieces (s : String) : List String := (pieces 0 s.toList).map String.ofList

@[simp] theorem pieces_nil (depth : Nat) : pieces depth [] = [[]] := rfl

@[simp] theorem pieces_blank (cs : List Char) : pieces 0 (' ' :: cs) = [] :: pieces 0 cs := by
  simp [pieces]

theorem pieces_cons {depth : Nat} {c : Char} (h : ¬(c = ' ' ∧ depth = 0)) (cs : List Char) :
    pieces depth (c :: cs) = (pieces (nest depth c) cs).modifyHead (c :: ·) := by
  rw [pieces, if_neg h]

theorem pieces_ne_nil (depth : Nat) (cs : List Char) : pieces depth cs ≠ [] := by
  induction cs generalizing depth with
  | nil => simp
  | cons c cs ih =>
    by_cases h : c = ' ' ∧ depth = 0
    · simp [pieces, h]
    · rw [pieces_cons h, Ne, List.modifyHead_eq_nil_iff]
      exact ih _

theorem length_le_of_mem_pieces {depth : Nat} {cs piece : List Char}
    (h : piece ∈ pieces depth cs) : piece.length ≤ cs.length := by
  induction cs generalizing depth piece with
  | nil =>
    obtain rfl : piece = [] := by simpa using h
    simp
  | cons c cs ih =>
    by_cases hc : c = ' ' ∧ depth = 0
    · obtain ⟨rfl, rfl⟩ := hc
      rw [pieces_blank, List.mem_cons] at h
      rcases h with rfl | h
      · simp
      · have := ih h
        simp only [List.length_cons]
        omega
    · rw [pieces_cons hc] at h
      obtain ⟨first, rest, hp⟩ := List.exists_cons_of_ne_nil (pieces_ne_nil (nest depth c) cs)
      have hfirst : first.length ≤ cs.length := @ih (nest depth c) first (by simp [hp])
      rw [hp, List.modifyHead_cons, List.mem_cons] at h
      rcases h with rfl | h
      · simpa using hfirst
      · have hrest : piece.length ≤ cs.length := @ih (nest depth c) piece (by simp [hp, h])
        simp only [List.length_cons]
        omega

/-- How many of the parentheses that a text has opened are open after a character of it. There is
no answer if the character closes none of them, or if it may not stand outside all parentheses and
does: it is inside its own ones and those around the text. -/
def enter? (stops : List Char) (around own : Nat) (c : Char) : Option Nat :=
  if c = '(' then some (own + 1)
  else if c = ')' then if own = 0 then none else some (own - 1)
  else if around + own = 0 ∧ c ∈ stops then none else some own

/-- Whether a text closes its own parentheses only and all of them, and has none of the stops
outside all parentheses. -/
def isNested (stops : List Char) (around : Nat) : Nat → List Char → Bool
  | own, [] => own == 0
  | own, c :: cs =>
    match enter? stops around own c with
    | some next => isNested stops around next cs
    | none => false

/-- Inside so many parentheses the text is nested. -/
def Solid (stops : List Char) (around : Nat) (u : List Char) : Prop :=
  isNested stops around 0 u = true

instance (stops : List Char) (around : Nat) (u : List Char) : Decidable (Solid stops around u) :=
  inferInstanceAs (Decidable (_ = true))

section
variable {stops fewer : List Char} {around more own next : Nat} {c : Char} {u v : List Char}

theorem isNested_nil_iff : isNested stops around own [] = true ↔ own = 0 := by
  simp [isNested]

theorem isNested_cons_iff : isNested stops around own (c :: u) = true ↔
    ∃ next, enter? stops around own c = some next ∧ isNested stops around next u = true := by
  rw [isNested]
  cases enter? stops around own c <;> simp

theorem enter?_mono (hstops : ∀ x ∈ fewer, x ∈ stops) (hmore : around ≤ more)
    (h : enter? stops around own c = some next) : enter? fewer more own c = some next := by
  unfold enter? at h ⊢
  grind

theorem isNested_mono (hstops : ∀ x ∈ fewer, x ∈ stops) (hmore : around ≤ more)
    (h : isNested stops around own u = true) : isNested fewer more own u = true := by
  induction u generalizing own with
  | nil => exact h
  | cons c u ih =>
    obtain ⟨next, hc, hu⟩ := isNested_cons_iff.1 h
    exact isNested_cons_iff.2 ⟨next, enter?_mono hstops hmore hc, ih hu⟩

theorem Solid.mono (h : Solid stops around u) (hmore : around ≤ more) : Solid stops more u :=
  isNested_mono (fun _ hx => hx) hmore h

theorem Solid.of_subset (h : Solid stops around u) (hstops : ∀ x ∈ fewer, x ∈ stops) :
    Solid fewer around u :=
  isNested_mono hstops (Nat.le_refl around) h

theorem isNested_append (hu : isNested stops around own u = true) (hv : Solid stops around v) :
    isNested stops around own (u ++ v) = true := by
  induction u generalizing own with
  | nil =>
    obtain rfl : own = 0 := isNested_nil_iff.1 hu
    exact hv
  | cons c u ih =>
    obtain ⟨next, hc, hu⟩ := isNested_cons_iff.1 hu
    exact isNested_cons_iff.2 ⟨next, hc, ih hu⟩

theorem Solid.append (hu : Solid stops around u) (hv : Solid stops around v) :
    Solid stops around (u ++ v) :=
  isNested_append hu hv

theorem Solid.cons (hc : Solid stops around [c]) (hu : Solid stops around u) :
    Solid stops around (c :: u) :=
  hc.append hu

theorem solid_nil : Solid stops around [] := rfl

theorem enter?_inside (h : enter? stops (around + 1) own c = some next) :
    enter? stops around (own + 1) c = some (next + 1) := by
  unfold enter? at h ⊢
  grind

theorem isNested_inside (h : isNested stops (around + 1) own u = true) :
    isNested stops around (own + 1) (u ++ [')']) = true := by
  induction u generalizing own with
  | nil =>
    obtain rfl : own = 0 := isNested_nil_iff.1 h
    rfl
  | cons c u ih =>
    obtain ⟨next, hc, hu⟩ := isNested_cons_iff.1 h
    exact isNested_cons_iff.2 ⟨next + 1, enter?_inside hc, ih hu⟩

theorem Solid.group (h : Solid stops (around + 1) u) : Solid stops around ('(' :: (u ++ [')'])) :=
  isNested_inside h

theorem solid_intercalate {separator : List Char} (hs : Solid stops around separator)
    {us : List (List Char)} (h : ∀ u ∈ us, Solid stops around u) :
    Solid stops around (separator.intercalate us) := by
  induction us with
  | nil => exact solid_nil
  | cons u us ih =>
    have hu : Solid stops around u := h u (by simp)
    have hus : Solid stops around (separator.intercalate us) := ih fun v hv => h v (by simp [hv])
    cases us with
    | nil => simpa using hu
    | cons v vs =>
      rw [List.intercalate_cons_cons]
      exact (hu.append hs).append hus

theorem solid_of_forall (h : ∀ c ∈ u, c ≠ '(' ∧ c ≠ ')' ∧ c ∉ stops) : Solid stops around u := by
  induction u with
  | nil => exact solid_nil
  | cons c u ih =>
    obtain ⟨hopen, hclose, hstop⟩ := h c (by simp)
    have hc : Solid stops around [c] := by simp [Solid, isNested, enter?, hopen, hclose, hstop]
    exact hc.cons (ih fun d hd => h d (by simp [hd]))

end

/-- The text holds no blank and no parenthesis. -/
def isCompact (cs : List Char) : Bool := cs.all fun c => c != ' ' && c != '(' && c != ')'

theorem isCompact_iff {cs : List Char} :
    isCompact cs = true ↔ ∀ c ∈ cs, c ≠ ' ' ∧ c ≠ '(' ∧ c ≠ ')' := by
  simp [isCompact, and_assoc]

theorem solid_of_isCompact {around : Nat} {u : List Char} (h : isCompact u = true) :
    Solid [' '] around u := by
  apply solid_of_forall
  intro c hc
  obtain ⟨hblank, hopen, hclose⟩ := isCompact_iff.1 h c hc
  exact ⟨hopen, hclose, by simpa using hblank⟩

theorem nest_of_enter? {stops : List Char} {around own next depth : Nat} {c : Char}
    (h : enter? stops around own c = some next) (hblank : ' ' ∈ stops) (hdepth : around ≤ depth) :
    nest (depth + own) c = depth + next ∧ ¬(c = ' ' ∧ depth + own = 0) := by
  unfold enter? at h
  unfold nest
  grind

theorem pieces_of_isNested {stops : List Char} {around own : Nat} {u : List Char}
    (h : isNested stops around own u = true) (hblank : ' ' ∈ stops) {depth : Nat}
    (hdepth : around ≤ depth) (rest : List Char) :
    pieces (depth + own) (u ++ rest) = (pieces depth rest).modifyHead (u ++ ·) := by
  -- The depth is that of the text and the parentheses that it has opened itself so far.
  induction u generalizing own with
  | nil =>
    obtain rfl : own = 0 := isNested_nil_iff.1 h
    have hid : (fun piece : List Char => [] ++ piece) = id := rfl
    rw [Nat.add_zero, List.nil_append, hid, List.modifyHead_id, id]
  | cons c u ih =>
    obtain ⟨next, hc, hu⟩ := isNested_cons_iff.1 h
    obtain ⟨hnest, hcut⟩ := nest_of_enter? hc hblank hdepth
    rw [List.cons_append, pieces_cons hcut, hnest, ih hu, List.modifyHead_modifyHead]
    rfl

section
variable {stops : List Char} {u : List Char}

theorem pieces_solid_blank (h : Solid stops 0 u) (hblank : ' ' ∈ stops) (rest : List Char) :
    pieces 0 (u ++ ' ' :: rest) = u :: pieces 0 rest := by
  have hu := pieces_of_isNested h hblank (Nat.le_refl 0) (' ' :: rest)
  simpa using hu

theorem pieces_of_solid (h : Solid stops 0 u) (hblank : ' ' ∈ stops) : pieces 0 u = [u] := by
  have hu := pieces_of_isNested h hblank (Nat.le_refl 0) []
  simpa using hu

end

def enclosed? (first last : Char) : List Char → Option (List Char)
  | [] => none
  | c :: cs => if c = first ∧ cs.getLast? = some last then some cs.dropLast else none

@[simp] theorem enclosed?_cons_concat (first last : Char) (u : List Char) :
    enclosed? first last (first :: (u ++ [last])) = some u := by
  simp [enclosed?]

theorem enclosed?_eq_some_iff {first last : Char} {cs u : List Char} :
    enclosed? first last cs = some u ↔ cs = first :: (u ++ [last]) := by
  constructor
  · cases cs with
    | nil => simp [enclosed?]
    | cons c cs =>
      rw [enclosed?, Option.ite_none_right_eq_some, Option.some.injEq]
      rintro ⟨⟨rfl, hlast⟩, rfl⟩
      obtain ⟨u, rfl⟩ := List.getLast?_eq_some_iff.1 hlast
      rw [List.dropLast_concat]
  · rintro rfl
    exact enclosed?_cons_concat first last u

theorem length_lt_of_enclosed? {first last : Char} {cs u : List Char}
    (h : enclosed? first last cs = some u) : u.length < cs.length := by
  cases cs with
  | nil => simp [enclosed?] at h
  | cons c cs =>
    rw [enclosed?, Option.ite_none_right_eq_some, Option.some.injEq] at h
    obtain ⟨-, rfl⟩ := h
    rw [List.length_dropLast, List.length_cons]
    omega

theorem length_lt_of_mem_pieces_enclosed {first last : Char} {cs u piece : List Char}
    (h : enclosed? first last cs = some u) (hp : piece ∈ pieces 0 u) :
    piece.length < cs.length :=
  Nat.lt_of_le_of_lt (length_le_of_mem_pieces hp) (length_lt_of_enclosed? h)

end Text
end AccessRules
