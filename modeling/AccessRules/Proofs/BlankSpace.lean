import AccessRules.Proofs.TextLines
import Mathlib.Data.List.DropRight

/-! Texts up to blank space. Blank space around a text and behind its lines does not matter: the
normal form of a text has none of it, and a text with other blank space before its line feeds,
such as carriage returns, has the same normal form. So the normal form is its own normal form, and
its lines are those of the text without the blank space. -/
namespace AccessRules
namespace Text
variable {cs ds us vs bs : List Char}

section Trimming

def IsBlankText (cs : List Char) : Prop := ∀ c ∈ cs, isBlank c = true

theorem trimEnd_append_of_blank (h : IsBlankText bs) (cs : List Char) :
    trimEnd (cs ++ bs) = trimEnd cs := by
  rw [trimEnd, List.reverse_append, List.dropWhile_append_of_pos (by simpa [IsBlankText] using h),
    trimEnd]

theorem trimStart_append_of_blank (h : IsBlankText bs) (cs : List Char) :
    trimStart (bs ++ cs) = trimStart cs :=
  List.dropWhile_append_of_pos h

theorem exists_eq_trimEnd_append (cs : List Char) : ∃ bs, IsBlankText bs ∧ cs = trimEnd cs ++ bs :=
  ⟨cs.rtakeWhile isBlank, fun _ => List.mem_rtakeWhile_imp,
    List.rdropWhile_append_rtakeWhile.symm⟩

theorem exists_eq_append_trim (cs : List Char) :
    ∃ us vs, IsBlankText us ∧ IsBlankText vs ∧ cs = us ++ (trim cs ++ vs) := by
  obtain ⟨vs, hvs, hend⟩ := exists_eq_trimEnd_append (trimStart cs)
  refine ⟨cs.takeWhile isBlank, vs, fun _ => List.mem_takeWhile_imp, hvs, ?_⟩
  rw [trim, ← hend]
  exact List.takeWhile_append_dropWhile.symm

theorem isBlank_of_getLast?_trimEnd {c : Char} (h : (trimEnd cs).getLast? = some c) :
    isBlank c = false := by
  have hne : trimEnd cs ≠ [] := by
    rintro hnil
    simp [hnil] at h
  have hlast := List.rdropWhile_last_not isBlank cs hne
  rw [List.getLast?_eq_some_getLast hne, Option.some.injEq] at h
  rw [← h]
  exact Bool.eq_false_iff.2 hlast

theorem trimEnd_of_getLast? (h : ∀ c, cs.getLast? = some c → isBlank c = false) :
    trimEnd cs = cs := by
  rcases List.eq_nil_or_concat' cs with rfl | ⟨ds, c, rfl⟩
  · rfl
  · exact List.rdropWhile_concat_neg isBlank ds c (by simp [h c (by simp)])

@[simp] theorem trimEnd_trimEnd (cs : List Char) : trimEnd (trimEnd cs) = trimEnd cs :=
  trimEnd_of_getLast? fun _ => isBlank_of_getLast?_trimEnd

theorem trimEnd_cons_congr (c : Char) (h : trimEnd cs = trimEnd ds) :
    trimEnd (c :: cs) = trimEnd (c :: ds) := by
  have htrim (text : List Char) : trimEnd (c :: text) = trimEnd (c :: trimEnd text) := by
    obtain ⟨bs, hbs, hend⟩ := exists_eq_trimEnd_append text
    conv_lhs => rw [hend]
    exact trimEnd_append_of_blank hbs (c :: trimEnd text)
  rw [htrim, h, ← htrim]

theorem trimEnd_withoutReturn (line : List Char) : trimEnd (withoutReturn line) = trimEnd line := by
  unfold withoutReturn
  split
  · next h =>
    obtain ⟨before, rfl⟩ := List.getLast?_eq_some_iff.1 h
    rw [List.dropLast_concat, trimEnd_append_of_blank (by simp [IsBlankText, isBlank])]
  · rfl

/-- The text neither begins nor ends with a blank character. -/
structure Tight (cs : List Char) : Prop where
  start : ∀ c, cs.head? = some c → isBlank c = false
  last : ∀ c, cs.getLast? = some c → isBlank c = false

theorem tight_trim (cs : List Char) : Tight (trim cs) where
  start := by
    intro c hc
    obtain ⟨bs, -, hend⟩ := exists_eq_trimEnd_append (trimStart cs)
    have hhead : (trimStart cs).head? = some c := by
      rw [hend, List.head?_append, ← trim, hc, Option.some_or]
    have hblank := List.head?_dropWhile_not isBlank cs
    rw [← trimStart, hhead] at hblank
    exact hblank
  last := fun _ => isBlank_of_getLast?_trimEnd

theorem Tight.trim_append (h : Tight cs) (hus : IsBlankText us) (hvs : IsBlankText vs) :
    trim (us ++ (cs ++ vs)) = cs := by
  rw [trim, trimStart_append_of_blank hus]
  cases cs with
  | nil =>
    rw [List.nil_append, ← List.append_nil vs, trimStart_append_of_blank hvs]
    rfl
  | cons c cs =>
    rw [trimStart, List.cons_append, List.dropWhile_cons_of_neg (by simp [h.start c rfl]),
      ← List.cons_append, trimEnd_append_of_blank hvs, trimEnd_of_getLast? h.last]

theorem Tight.trim_eq (h : Tight cs) : trim cs = cs := by
  have hblank : IsBlankText [] := by simp [IsBlankText]
  simpa using h.trim_append hblank hblank

end Trimming

section Alike

/-- The second text is the first one with blank space put in before some of its line feeds. -/
inductive Alike : List Char → List Char → Prop
  | nil : Alike [] []
  | keep {cs ds : List Char} (c : Char) (h : Alike cs ds) : Alike (c :: cs) (c :: ds)
  | pad {cs ds bs : List Char} (hblank : IsBlankText bs) (hline : '\n' ∉ bs) (h : Alike cs ds) :
      Alike ('\n' :: cs) (bs ++ '\n' :: ds)

namespace Alike

theorem refl : ∀ cs : List Char, Alike cs cs
  | [] => .nil
  | c :: cs => .keep c (refl cs)

theorem keepAll (us : List Char) (h : Alike cs ds) : Alike (us ++ cs) (us ++ ds) := by
  induction us with
  | nil => exact h
  | cons c us ih => exact .keep c ih

theorem exists_append (h : Alike (us ++ vs) ds) :
    ∃ us' vs', ds = us' ++ vs' ∧ Alike us us' ∧ Alike vs vs' := by
  induction us generalizing ds with
  | nil => exact ⟨[], ds, rfl, .nil, h⟩
  | cons c us ih =>
    cases h with
    | keep _ h =>
      obtain ⟨us', vs', rfl, hus, hvs⟩ := ih h
      exact ⟨c :: us', vs', rfl, .keep c hus, hvs⟩
    | pad hblank hline h =>
      obtain ⟨us', vs', rfl, hus, hvs⟩ := ih h
      exact ⟨_ ++ '\n' :: us', vs', by simp, .pad hblank hline hus, hvs⟩

theorem isBlankText (h : Alike cs ds) (hcs : IsBlankText cs) : IsBlankText ds := by
  induction h with
  | nil => exact hcs
  | keep c _ ih =>
    have hds := ih fun d hd => hcs d (List.mem_cons_of_mem c hd)
    simpa [IsBlankText] using ⟨hcs c (by simp), hds⟩
  | pad hblank _ _ ih =>
    have hds := ih fun d hd => hcs d (List.mem_cons_of_mem _ hd)
    intro d hd
    rcases List.mem_append.1 hd with hd | hd
    · exact hblank d hd
    · rcases List.mem_cons.1 hd with rfl | hd
      · exact hcs '\n' (by simp)
      · exact hds d hd

theorem getLast?_eq (h : Alike cs ds) : ds.getLast? = cs.getLast? := by
  induction h with
  | nil => rfl
  | keep c _ ih => rw [List.getLast?_cons, List.getLast?_cons, ih]
  | pad _ _ _ ih =>
    rw [List.getLast?_append_of_ne_nil _ (by simp), List.getLast?_cons, List.getLast?_cons, ih]

theorem eq_nil_iff (h : Alike cs ds) : ds = [] ↔ cs = [] := by
  rw [← List.getLast?_eq_none_iff, h.getLast?_eq, List.getLast?_eq_none_iff]

theorem tight (h : Alike cs ds) (hcs : Tight cs) : Tight ds where
  start := by
    cases h with
    | nil => exact hcs.start
    | keep c h => exact hcs.start
    | pad _ _ _ => exact absurd (hcs.start '\n' rfl) (by decide)
  last := by
    rw [h.getLast?_eq]
    exact hcs.last

theorem trim (h : Alike cs ds) : Alike (trim cs) (trim ds) := by
  -- Blank space may be put in at the ends too, where it is trimmed with what was blank there.
  obtain ⟨us, vs, hus, hvs, hcs⟩ := exists_eq_append_trim cs
  rw [hcs] at h
  obtain ⟨us', rest, rfl, hbefore, hrest⟩ := h.exists_append
  obtain ⟨middle, vs', rfl, hmiddle, hbehind⟩ := hrest.exists_append
  rw [(hmiddle.tight (tight_trim cs)).trim_append (hbefore.isBlankText hus)
    (hbehind.isBlankText hvs)]
  exact hmiddle

theorem map_trimEnd_splitOn (h : Alike cs ds) :
    (splitOn '\n' ds).map trimEnd = (splitOn '\n' cs).map trimEnd := by
  induction h with
  | nil => rfl
  | @keep cs ds c _ ih =>
    by_cases hc : c = '\n'
    · simp [splitOn, hc, ih]
    · -- The character belongs to the first row of both texts.
      obtain ⟨part, more, hs⟩ := List.exists_cons_of_ne_nil (splitOn_ne_nil '\n' cs)
      obtain ⟨part', more', hs'⟩ := List.exists_cons_of_ne_nil (splitOn_ne_nil '\n' ds)
      rw [hs, hs', List.map_cons, List.map_cons, List.cons.injEq] at ih
      simp [splitOn, hc, hs, hs', trimEnd_cons_congr c ih.1, ih.2]
  | @pad cs ds bs hblank hline _ ih =>
    have hrow : trimEnd bs = [] := by
      simpa using trimEnd_append_of_blank hblank []
    rw [splitOn_append_cons, splitOn_of_not_mem hline, splitOn, if_pos rfl]
    simp [hrow, ih]

end Alike

end Alike

section Rows
variable {separator : Char}

theorem not_mem_of_mem_splitOn {part : List Char} (h : part ∈ splitOn separator cs) :
    separator ∉ part := by
  induction cs generalizing part with
  | nil => simp_all [splitOn]
  | cons c cs ih =>
    obtain ⟨first, more, hs⟩ := List.exists_cons_of_ne_nil (splitOn_ne_nil separator cs)
    rw [hs] at ih
    rw [splitOn, hs] at h
    split at h
    · rcases List.mem_cons.1 h with rfl | h
      · simp
      · exact ih h
    · next hc =>
      rcases List.mem_cons.1 h with rfl | h
      · have hfirst := ih (List.mem_cons_self (a := first))
        simp [hfirst, Ne.symm hc]
      · exact ih (List.mem_cons_of_mem first h)

theorem intercalate_rest {row second : List Char} {rows : List (List Char)}
    (hlast : ∀ c, (['\n'].intercalate (row :: second :: rows)).getLast? = some c →
      isBlank c = false) :
    ['\n'].intercalate (second :: rows) ≠ [] ∧
      ∀ c, (['\n'].intercalate (second :: rows)).getLast? = some c → isBlank c = false := by
  rw [List.intercalate_cons_cons, List.append_assoc, List.singleton_append,
    List.getLast?_append_of_ne_nil _ (by simp)] at hlast
  have hrest : ['\n'].intercalate (second :: rows) ≠ [] := by
    intro hnil
    exact absurd (hlast '\n' (by simp [hnil])) (by decide)
  rw [List.getLast?_cons_of_ne_nil hrest] at hlast
  exact ⟨hrest, hlast⟩

theorem lines_intercalate {rows : List (List Char)} (hrows : ∀ row ∈ rows, '\n' ∉ row)
    (hne : ['\n'].intercalate rows ≠ [])
    (hlast : ∀ c, (['\n'].intercalate rows).getLast? = some c → isBlank c = false) :
    lines (['\n'].intercalate rows) = rows.map withoutReturn := by
  induction rows with
  | nil => exact absurd rfl hne
  | cons row rows ih =>
    have hrow : '\n' ∉ row := hrows row (by simp)
    cases rows with
    | nil =>
      rw [List.intercalate_singleton] at hne hlast ⊢
      have hreturn : row.getLast? ≠ some '\r' := fun e => absurd (hlast '\r' e) (by decide)
      rw [lines_of_not_mem hne hrow, List.map_singleton, withoutReturn_of_getLast? hreturn]
    | cons second rows =>
      obtain ⟨hrest, hend⟩ := intercalate_rest hlast
      rw [List.intercalate_cons_cons, List.append_assoc, List.singleton_append, lines_append_lf,
        splitOn_of_not_mem hrow, ih (fun r hr => hrows r (by simp [hr])) hrest hend]
      rfl

theorem Tight.lines_eq (h : Tight cs) (hne : cs ≠ []) :
    lines cs = (splitOn '\n' cs).map withoutReturn := by
  have hlines := @lines_intercalate (splitOn '\n' cs) fun _ => not_mem_of_mem_splitOn
  rw [intercalate_splitOn] at hlines
  exact hlines hne h.last

theorem alike_intercalate {rows : List (List Char)} (hrows : ∀ row ∈ rows, '\n' ∉ row)
    (hlast : ∀ c, (['\n'].intercalate rows).getLast? = some c → isBlank c = false) :
    Alike (['\n'].intercalate (rows.map trimEnd)) (['\n'].intercalate rows) := by
  induction rows with
  | nil => exact .nil
  | cons row rows ih =>
    cases rows with
    | nil =>
      rw [List.intercalate_singleton] at hlast
      rw [List.map_singleton, trimEnd_of_getLast? hlast, List.intercalate_singleton]
      exact Alike.refl row
    | cons second rows =>
      have hrest := ih (fun r hr => hrows r (by simp [hr])) (intercalate_rest hlast).2
      obtain ⟨bs, hblank, hrow⟩ := exists_eq_trimEnd_append row
      have hline : '\n' ∉ bs := by
        intro hmem
        refine hrows row (by simp) ?_
        rw [hrow]
        exact List.mem_append_right _ hmem
      have halike := (Alike.pad hblank hline hrest).keepAll (trimEnd row)
      rw [← List.append_assoc, ← hrow] at halike
      simpa [List.intercalate_cons_cons] using halike

end Rows

section Normal

/-- The lines of a text without blank space around the text and behind the lines. -/
def normalLines (cs : List Char) : List (List Char) := (lines (trim cs)).map trimEnd

def normal (text : String) : String :=
  String.ofList (['\n'].intercalate (normalLines text.toList))

theorem normalLines_eq (h : trim cs ≠ []) :
    normalLines cs = (splitOn '\n' (trim cs)).map trimEnd := by
  rw [normalLines, (tight_trim cs).lines_eq h, List.map_map]
  exact List.map_congr_left fun row _ => trimEnd_withoutReturn row

theorem normalLines_eq_nil (h : trim cs = []) : normalLines cs = [] := by
  rw [normalLines, h]
  rfl

theorem Alike.normalLines_eq (h : Alike cs ds) : normalLines ds = normalLines cs := by
  by_cases hne : Text.trim cs = []
  · rw [normalLines_eq_nil hne, normalLines_eq_nil (h.trim.eq_nil_iff.2 hne)]
  · rw [Text.normalLines_eq hne, Text.normalLines_eq (mt h.trim.eq_nil_iff.1 hne),
      h.trim.map_trimEnd_splitOn]

theorem alike_normal (cs : List Char) : Alike (['\n'].intercalate (normalLines cs)) (trim cs) := by
  by_cases hne : trim cs = []
  · rw [normalLines_eq_nil hne, hne]
    exact .nil
  · have hlast := (tight_trim cs).last
    rw [← intercalate_splitOn '\n' (trim cs)] at hlast
    have halike := alike_intercalate (fun _ => not_mem_of_mem_splitOn) hlast
    rwa [intercalate_splitOn, ← Text.normalLines_eq hne] at halike

theorem normalLines_trim (cs : List Char) : normalLines (trim cs) = normalLines cs := by
  rw [normalLines, (tight_trim cs).trim_eq, normalLines]

theorem normalLines_normal (text : String) :
    normalLines (normal text).toList = normalLines text.toList := by
  rw [normal, String.toList_ofList, ← (alike_normal text.toList).normalLines_eq, normalLines_trim]

theorem normal_normal (text : String) : normal (normal text) = normal text := by
  rw [normal, normalLines_normal, ← normal]

theorem mem_normalLines {line : List Char} (h : line ∈ normalLines cs) :
    trimEnd line = line ∧ '\n' ∉ line := by
  have hne : trim cs ≠ [] := fun hnil => by simp [normalLines_eq_nil hnil] at h
  rw [normalLines_eq hne] at h
  obtain ⟨row, hrow, rfl⟩ := List.mem_map.1 h
  refine ⟨trimEnd_trimEnd row, fun hmem => not_mem_of_mem_splitOn hrow ?_⟩
  obtain ⟨bs, -, hend⟩ := exists_eq_trimEnd_append row
  rw [hend]
  exact List.mem_append_left bs hmem

theorem withoutReturn_of_trimEnd {line : List Char} (h : trimEnd line = line) :
    withoutReturn line = line := by
  refine withoutReturn_of_getLast? fun hlast => ?_
  rw [← h] at hlast
  exact absurd (isBlank_of_getLast?_trimEnd hlast) (by decide)

theorem lines_normal (text : String) : lines (normal text).toList = normalLines text.toList := by
  have halike := alike_normal text.toList
  rw [normal, String.toList_ofList]
  by_cases hne : trim text.toList = []
  · rw [normalLines_eq_nil hne]
    rfl
  · have hlast := (tight_trim text.toList).last
    rw [halike.getLast?_eq] at hlast
    rw [lines_intercalate (fun _ hrow => (mem_normalLines hrow).2) (mt halike.eq_nil_iff.2 hne)
      hlast]
    refine Eq.trans (List.map_congr_left fun line hline => ?_) (List.map_id _)
    exact withoutReturn_of_trimEnd (mem_normalLines hline).1

end Normal

section Returns

/-- The text with a carriage return before each line feed. -/
def withReturns (text : String) : String :=
  String.ofList (text.toList.flatMap fun c => if c = '\n' then ['\r', '\n'] else [c])

/-- The characters with a carriage return before each line feed that has none. -/
def addReturns : List Char → List Char
  | [] => []
  | '\n' :: rest => '\r' :: '\n' :: addReturns rest
  | '\r' :: '\n' :: rest => '\r' :: '\n' :: addReturns rest
  | c :: rest => c :: addReturns rest

def withMissingReturns (text : String) : String := String.ofList (addReturns text.toList)

theorem Alike.return (h : Alike cs ds) : Alike ('\n' :: cs) ('\r' :: '\n' :: ds) := by
  have hreturn : IsBlankText ['\r'] := by simp [IsBlankText, isBlank]
  exact .pad hreturn (by simp) h

theorem alike_withReturns (text : String) : Alike text.toList (withReturns text).toList := by
  rw [withReturns, String.toList_ofList]
  induction text.toList with
  | nil => exact .nil
  | cons c cs ih =>
    rw [List.flatMap_cons]
    split
    · next hc => exact hc ▸ ih.return
    · exact .keep c ih

theorem alike_addReturns (cs : List Char) : Alike cs (addReturns cs) := by
  fun_induction addReturns cs with
  | case1 => exact .nil
  | case2 rest ih => exact ih.return
  | case3 rest ih => exact .keep _ (.keep _ ih)
  | case4 c rest _ _ ih => exact .keep c ih

theorem normalLines_withReturns (text : String) :
    normalLines (withReturns text).toList = normalLines text.toList :=
  (alike_withReturns text).normalLines_eq

theorem normalLines_withMissingReturns (text : String) :
    normalLines (withMissingReturns text).toList = normalLines text.toList := by
  rw [withMissingReturns, String.toList_ofList, (alike_addReturns text.toList).normalLines_eq]

end Returns

end Text
end AccessRules
