import AccessRules.Files.Path
import Mathlib.Data.List.Basic

/-! Paths and their extensions. A path is a folder followed by a name without slashes. The path with
another extension has the same folder, and a name that keeps the stem of the old one. The name stays
the same only if it had that extension before. -/
namespace AccessRules
open Text

namespace Path

/-- The text is empty or ends with a slash, so that a name can follow. -/
def IsFolder (cs : List Char) : Prop := ∀ c, cs.getLast? = some c → c = '/'

/-- The name is that of a file or directory below its folder. -/
structure IsName (name : List Char) : Prop where
  no_slash : '/' ∉ name
  ne_nil : name ≠ []
  ne_dot : name ≠ ['.']
  ne_dots : name ≠ ['.', '.']

theorem exists_folder_name (cs : List Char) :
    ∃ folder name, cs = folder ++ name ∧ IsFolder folder ∧ '/' ∉ name := by
  induction cs with
  | nil => exact ⟨[], [], rfl, by simp [IsFolder], by simp⟩
  | cons c cs ih =>
    obtain ⟨folder, name, rfl, hfolder, hname⟩ := ih
    cases folder with
    | nil =>
      by_cases hc : c = '/'
      · exact ⟨[c], name, rfl, by simp [IsFolder, hc], hname⟩
      · refine ⟨[], c :: name, rfl, by simp [IsFolder], ?_⟩
        simp [hname, Ne.symm hc]
    | cons d folder => exact ⟨c :: d :: folder, name, rfl, by simpa [IsFolder] using hfolder, hname⟩

section
variable {folder name : List Char}

theorem splitOn_folder_name (hfolder : IsFolder folder) (hname : '/' ∉ name) :
    splitOn '/' (folder ++ name) = (splitOn '/' folder).dropLast ++ [name] := by
  rcases List.eq_nil_or_concat folder with rfl | ⟨above, c, rfl⟩
  · simpa [splitOn] using splitOn_of_not_mem hname
  · obtain rfl : c = '/' := hfolder c (by simp)
    have hends : splitOn '/' (above ++ ['/']) = splitOn '/' above ++ [[]] :=
      splitOn_append_cons '/' above []
    rw [List.concat_eq_append, hends, List.dropLast_concat, List.append_assoc,
      List.singleton_append, splitOn_append_cons, splitOn_of_not_mem hname]

theorem intercalate_folder_name (hfolder : IsFolder folder) (hname : '/' ∉ name) :
    ['/'].intercalate ((splitOn '/' folder).dropLast ++ [name]) = folder ++ name := by
  rw [← splitOn_folder_name hfolder hname, intercalate_splitOn]

theorem parts_folder_name (hfolder : IsFolder folder) (hname : '/' ∉ name) :
    parts (String.ofList (folder ++ name)) =
      (splitOn '/' folder).dropLast.map String.ofList ++ [String.ofList name] := by
  rw [parts, String.toList_ofList, splitOn_folder_name hfolder hname, List.map_append]
  rfl

theorem ofList_ne {cs ds : List Char} (h : cs ≠ ds) : String.ofList cs ≠ String.ofList ds :=
  fun e => h (String.ofList_inj.1 e)

theorem fileName?_folder_name (hfolder : IsFolder folder) (h : IsName name) :
    fileName? (String.ofList (folder ++ name)) = some (String.ofList name) := by
  have hempty : String.ofList name ≠ "" := ofList_ne h.ne_nil
  have hdot : String.ofList name ≠ "." := ofList_ne h.ne_dot
  have hdots : String.ofList name ≠ ".." := ofList_ne h.ne_dots
  have hlast : ((parts (String.ofList (folder ++ name))).filter
      fun p => p != "" && p != ".").getLast? = some (String.ofList name) := by
    rw [parts_folder_name hfolder h.no_slash, List.filter_append,
      List.filter_cons_of_pos (by simp [hempty, hdot]), List.filter_nil, List.getLast?_concat]
  rw [fileName?, hlast]
  split
  · next e => exact absurd (Option.some.inj e) hdots
  · rfl

end

/-- A name is cut at its last dot, unless nothing stands before it. -/
theorem splitName_append_dot (stem : List Char) {ext : List Char} (hext : '.' ∉ ext) :
    splitName (stem ++ '.' :: ext) =
      if stem ++ '.' :: ext = ['.', '.'] ∨ stem = [] then (stem ++ '.' :: ext, none)
      else (stem, some ext) := by
  have hreverse : (stem ++ '.' :: ext).reverse = ext.reverse ++ '.' :: stem.reverse := by simp
  have hall : ∀ c ∈ ext.reverse, (c != '.') = true := by
    intro c hc
    rw [List.mem_reverse] at hc
    simpa using fun e : c = '.' => hext (e ▸ hc)
  have hafter : (ext.reverse ++ '.' :: stem.reverse).takeWhile (· != '.') = ext.reverse := by
    rw [List.takeWhile_append_of_pos hall, List.takeWhile_cons_of_neg (by decide), List.append_nil]
  have hbefore : (ext.reverse ++ '.' :: stem.reverse).drop (ext.reverse.length + 1) =
      stem.reverse := by
    rw [List.drop_append, List.drop_of_length_le (Nat.le_succ _), Nat.add_sub_cancel_left]
    rfl
  rw [splitName, hreverse]
  simp only [hafter, hbefore, List.reverse_reverse]
  by_cases hstem : stem = [] <;> simp [hstem]

theorem splitName_cases (name : List Char) : splitName name = (name, none) ∨
    ∃ stem ext, name = stem ++ '.' :: ext ∧ stem ≠ [] ∧ '.' ∉ ext ∧
      splitName name = (stem, some ext) := by
  by_cases hmem : '.' ∈ name
  · obtain ⟨after, before, hreverse, hafter⟩ :=
      List.eq_append_cons_of_mem (List.mem_reverse.2 hmem)
    obtain rfl : name = before.reverse ++ '.' :: after.reverse := by
      simpa using congrArg List.reverse hreverse
    have hext : '.' ∉ after.reverse := by simpa using hafter
    have hsplit := splitName_append_dot before.reverse hext
    split at hsplit
    · exact .inl hsplit
    · next h => exact .inr ⟨_, _, rfl, fun e => h (.inr e), hext, hsplit⟩
  · left
    simp [splitName, hmem]

/-- The name with another extension in place of its own. Of two dots and an extension only the dots
are left. -/
def renamed (ext name : List Char) : List Char :=
  if (splitName name).1 = ['.'] then ['.', '.'] else (splitName name).1 ++ '.' :: ext

section
variable {folder name : List Char}

theorem slash_not_mem_stem (h : '/' ∉ name) : '/' ∉ (splitName name).1 := by
  rcases splitName_cases name with hsplit | ⟨stem, old, rfl, -, -, hsplit⟩
  · rwa [hsplit]
  · rw [hsplit]
    exact fun hmem => h (List.mem_append_left _ hmem)

theorem setExtension_folder_name (hfolder : IsFolder folder) (hname : '/' ∉ name) (hne : name ≠ [])
    (hdot : name ≠ ['.']) (ext : String) :
    setExtension ext (String.ofList (folder ++ name)) =
      if name = ['.', '.'] then String.ofList (folder ++ name)
      else String.ofList (folder ++ (splitName name).1 ++ '.' :: ext.toList) := by
  rw [setExtension, String.toList_ofList, splitOn_folder_name hfolder hname, List.reverse_append,
    List.reverse_singleton, List.singleton_append, List.dropWhile_cons_of_neg (by simp [hne, hdot])]
  dsimp only
  split
  · rfl
  · rw [List.reverse_reverse, intercalate_folder_name hfolder (slash_not_mem_stem hname),
      ← String.toList_inj]
    simp

theorem extension?_folder_name (hfolder : IsFolder folder) (h : IsName name) :
    extension? (String.ofList (folder ++ name)) = (splitName name).2.map String.ofList := by
  rw [extension?, fileName?_folder_name hfolder h, Option.bind_eq_bind, Option.bind_some,
    String.toList_ofList]
  cases (splitName name).2 <;> rfl

/-- Another extension changes the name of a path and keeps its folder. -/
theorem withExtension_folder_name (hfolder : IsFolder folder) (h : IsName name) (ext : String) :
    withExtension ext (String.ofList (folder ++ name)) =
      String.ofList (folder ++ renamed ext.toList name) := by
  rw [withExtension, extension?_folder_name hfolder h, String.toList_ofList]
  rcases splitName_cases name with hsplit | ⟨stem, old, rfl, hstem, hold, hsplit⟩
  · have hpresent : (((splitName name).2.map String.ofList).getD "").length = 0 := by
      rw [hsplit]
      rfl
    rw [hpresent, Nat.sub_zero, List.take_length,
      setExtension_folder_name hfolder h.no_slash h.ne_nil h.ne_dot, if_neg h.ne_dots, renamed,
      hsplit]
    simp [h.ne_dot]
  · -- What is left of the path ends with the dot.
    have hpresent : (((splitName (stem ++ '.' :: old)).2.map String.ofList).getD "").length =
        old.length := by
      rw [hsplit, Option.map_some, Option.getD_some, String.length_ofList]
    have htake : (folder ++ (stem ++ '.' :: old)).take
        ((folder ++ (stem ++ '.' :: old)).length - old.length) = folder ++ (stem ++ ['.']) := by
      have hpath : folder ++ (stem ++ '.' :: old) = (folder ++ (stem ++ ['.'])) ++ old := by simp
      rw [hpath, List.length_append, Nat.add_sub_cancel, List.take_left']
      rfl
    have hslash : '/' ∉ stem ++ ['.'] := by
      have hno := h.no_slash
      simp only [List.mem_append, List.mem_cons, not_or] at hno
      simpa using hno.1
    rw [hpresent, htake, setExtension_folder_name hfolder hslash (by simp) (by simpa using hstem),
      renamed, hsplit]
    by_cases hdot : stem = ['.']
    · rw [hdot]
      rfl
    · have hbase : IsName (stem ++ ['.']) := by
        refine ⟨hslash, by simp, ?_, ?_⟩
        · simpa using hstem
        · simpa [List.append_eq_cons_iff] using hdot
      have hagain : splitName (stem ++ ['.']) = (stem, some []) := by
        rw [splitName_append_dot stem (List.not_mem_nil),
          if_neg (not_or.2 ⟨hbase.ne_dots, hstem⟩)]
      rw [if_neg hbase.ne_dots, hagain]
      simp [hdot]

theorem renamed_eq_self_iff (h : IsName name) (ext : List Char) :
    renamed ext name = name ↔ (splitName name).2 = some ext ∧ name ≠ '.' :: '.' :: ext := by
  rw [renamed]
  rcases splitName_cases name with hsplit | ⟨stem, old, rfl, hstem, hold, hsplit⟩
  · simp [hsplit, h.ne_dot]
  · rw [hsplit]
    by_cases hdot : stem = ['.']
    · subst hdot
      have hdots := h.ne_dots
      simp only [if_true, List.singleton_append] at hdots ⊢
      constructor
      · intro e
        exact absurd e.symm hdots
      · rintro ⟨hext, hne⟩
        obtain rfl : old = ext := Option.some.inj hext
        exact absurd rfl hne
    · have hne : stem ++ '.' :: old ≠ ['.'] ++ '.' :: old := fun e =>
        hdot (List.append_cancel_right e)
      rw [if_neg hdot]
      constructor
      · intro e
        obtain rfl : ext = old := (List.cons.inj (List.append_cancel_left e)).2
        exact ⟨rfl, hne⟩
      · rintro ⟨hext, -⟩
        obtain rfl : old = ext := Option.some.inj hext
        rfl

/-- The name stays the same if the path had the extension before, and the name is more than two dots
in front of it. -/
theorem renamed_eq_iff (hfolder : IsFolder folder) (h : IsName name) (ext : String) :
    renamed ext.toList name = name ↔
      extension? (String.ofList (folder ++ name)) = some ext ∧
        fileName? (String.ofList (folder ++ name)) ≠ some (".." ++ ext) := by
  have hext : (splitName name).2.map String.ofList = some ext ↔
      (splitName name).2 = some ext.toList := by
    cases (splitName name).2 with
    | none => simp
    | some old => simp [← String.toList_inj]
  have hname : some (String.ofList name) ≠ some (".." ++ ext) ↔
      name ≠ '.' :: '.' :: ext.toList := by
    rw [ne_eq, Option.some_inj, ← String.toList_inj]
    simp
  rw [renamed_eq_self_iff h, extension?_folder_name hfolder h, fileName?_folder_name hfolder h,
    hext, hname]

theorem slash_not_mem_renamed (hname : '/' ∉ name) {ext : List Char} (hext : '/' ∉ ext) :
    '/' ∉ renamed ext name := by
  have hstem := slash_not_mem_stem hname
  rw [renamed]
  split
  · decide
  · simp [hstem, hext]

end
end Path
end AccessRules
