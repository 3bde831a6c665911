import AccessRules.Files.FileTree
import AccessRules.Proofs.Paths
import Mathlib.Data.List.Infix

/-! Files found and files written. A path leads through directories to the place that it names;
paths with the same folder lead through the same directory. Writing changes one place, and leaves
all files in other places as they were. -/
namespace AccessRules
open AccessRules.Path Text

theorem Location.parent_cases (l : Location) : l.parent = l ∨ l.parent.names = [] ∨
    l.names ≠ [] ∧ l.parent = ⟨l.anchor, l.names.dropLast⟩ := by
  obtain ⟨anchor, names⟩ := l
  cases names with
  | nil =>
    cases anchor with
    | root => exact .inl rfl
    | above n => exact .inr (.inl rfl)
  | cons name names => exact .inr (.inr ⟨by simp, rfl⟩)

namespace FileTree
variable {t : FileTree} {l m : Location}

theorem lookup_put_self (t : FileTree) (l : Location) (e : FileEntry) :
    (t.put l e).entries.lookup l = some e := by
  have hnone : (t.entries.filter fun old => old.1 ≠ l).lookup l = none := by
    rw [List.lookup_eq_none_iff]
    intro old hold
    have hne : old.1 ≠ l := by simpa using (List.mem_filter.1 hold).2
    simpa using hne.symm
  rw [put, List.lookup_append, hnone]
  simp

theorem lookup_put_of_ne (h : m ≠ l) (e : FileEntry) :
    (t.put l e).entries.lookup m = t.entries.lookup m := by
  have hm : (m == l) = false := by simpa using h
  have hkept : (t.entries.filter fun old => old.1 ≠ l).lookup m = t.entries.lookup m := by
    induction t.entries with
    | nil => rfl
    | cons old rest ih =>
      obtain ⟨place, entry⟩ := old
      by_cases hplace : place = l
      · rw [List.filter_cons_of_neg (by simp [hplace]), ih, hplace, List.lookup_cons, hm]
      · rw [List.filter_cons_of_pos (by simp [hplace]), List.lookup_cons, List.lookup_cons, ih]
  rw [put, List.lookup_append, hkept]
  simp [List.lookup_cons, hm]

theorem find?_eq_file_iff {c : Content} :
    t.find? l = some (.file c) ↔ l.names ≠ [] ∧ t.entries.lookup l = some (.file c) := by
  rw [find?]
  by_cases hnames : l.names = []
  · simp [hnames]
  · cases hlookup : t.entries.lookup l with
    | some e => simp [hnames]
    | none =>
      simp only [hnames, List.isEmpty_iff, if_false]
      split <;> simp

theorem find?_put_self {c : Content} (hl : l.names ≠ []) :
    (t.put l (.file c)).find? l = some (.file c) :=
  find?_eq_file_iff.2 ⟨hl, lookup_put_self t l (.file c)⟩

theorem find?_put_of_ne {c : Content} (hne : m ≠ l) (h : t.find? m = some (.file c))
    (e : FileEntry) : (t.put l e).find? m = some (.file c) := by
  obtain ⟨hnames, hlookup⟩ := find?_eq_file_iff.1 h
  exact find?_eq_file_iff.2 ⟨hnames, by rw [lookup_put_of_ne hne, hlookup]⟩

theorem follow_eq_ok {part : String} (h : t.follow l part = .ok m) :
    t.find? l = some .directory ∧ m = l.enter part := by
  unfold follow at h
  split at h
  · cases h
  · cases h
  · next hdirectory =>
    split at h
    · cases h
    · exact ⟨hdirectory, (Except.ok.inj h).symm⟩

/-- The directories on the way to a place are there. -/
def Grounded (t : FileTree) (l : Location) : Prop :=
  ∀ names, names <+: l.names → names ≠ l.names → t.find? ⟨l.anchor, names⟩ = some .directory

theorem grounded_of_names_eq_nil (h : l.names = []) : t.Grounded l := by
  intro names hbegins hne
  rw [h, List.prefix_nil] at hbegins
  exact absurd (hbegins.trans h.symm) hne

theorem Grounded.parent (h : t.Grounded l) : t.Grounded l.parent := by
  rcases l.parent_cases with e | e | ⟨-, e⟩
  · rwa [e]
  · exact grounded_of_names_eq_nil e
  · rw [e]
    intro names hbegins hne
    have hshorter : names.length < l.names.dropLast.length :=
      lt_of_le_of_ne hbegins.length_le fun hlength => hne (hbegins.eq_of_length hlength)
    refine h names (hbegins.trans (List.dropLast_prefix l.names)) ?_
    rintro rfl
    rw [List.length_dropLast] at hshorter
    omega

theorem Grounded.enter (h : t.Grounded l) (hdirectory : t.find? l = some .directory)
    (part : String) : t.Grounded (l.enter part) := by
  unfold Location.enter
  split
  · exact h
  · split
    · exact h.parent
    · intro names hbegins hne
      rcases List.prefix_concat_iff.1 hbegins with e | hbegins
      · exact absurd e hne
      · by_cases e : names = l.names
        · rw [e]
          exact hdirectory
        · exact h names hbegins e

theorem Grounded.follow {part : String} (h : t.Grounded l) (hfollow : t.follow l part = .ok m) :
    t.Grounded m := by
  obtain ⟨hdirectory, rfl⟩ := follow_eq_ok hfollow
  exact h.enter hdirectory part

theorem Grounded.followAll {parts : List String} (h : t.Grounded l)
    (hparts : parts.foldlM t.follow l = .ok m) : t.Grounded m := by
  induction parts generalizing l with
  | nil =>
    cases hparts
    exact h
  | cons part parts ih =>
    rw [List.foldlM_cons] at hparts
    cases hfollow : t.follow l part with
    | error fault =>
      rw [hfollow] at hparts
      cases hparts
    | ok next =>
      rw [hfollow] at hparts
      exact ih (h.follow hfollow) hparts

theorem Grounded.find?_parent (h : t.Grounded l) (hdirectory : t.find? l = some .directory) :
    t.find? l.parent = some .directory := by
  rcases l.parent_cases with e | e | ⟨hnames, e⟩
  · rwa [e]
  · simp [find?, e]
  · rw [e]
    refine h _ (List.dropLast_prefix l.names) fun hsame => ?_
    have hlength := congrArg List.length hsame
    have hpositive : 0 < l.names.length := List.length_pos_of_ne_nil hnames
    rw [List.length_dropLast] at hlength
    omega

/-- The directory that the folder of a path leads to. -/
def folderPlace (t : FileTree) (folder : List Char) : Except FileFault Location :=
  ((splitOn '/' folder).dropLast.map String.ofList).foldlM t.follow
    (if folder.head? = some '/' then ⟨.root, []⟩ else Location.workingDirectory)

theorem grounded_of_folderPlace {folder : List Char} (h : t.folderPlace folder = .ok l) :
    t.Grounded l := by
  refine Grounded.followAll (grounded_of_names_eq_nil ?_) h
  split <;> rfl

section
variable {folder name : List Char}

theorem resolve_eq_ok (hfolder : IsFolder folder) (hname : '/' ∉ name)
    (h : t.resolve (String.ofList (folder ++ name)) = .ok l) :
    ∃ dir, t.folderPlace folder = .ok dir ∧ t.find? dir = some .directory ∧
      l = dir.enter (String.ofList name) := by
  have hstart : (folder ++ name).head? = some '/' ↔ folder.head? = some '/' := by
    cases folder with
    | cons c folder => simp
    | nil =>
      cases name with
      | nil => simp
      | cons c name => simpa using fun e : c = '/' => hname (by simp [e])
  rw [resolve, followAll] at h
  split at h
  · cases h
  split at h
  · cases h
  split at h
  · cases h
  simp only [String.toList_ofList, hstart, parts_folder_name hfolder hname,
    List.foldlM_append] at h
  rw [folderPlace]
  cases hdir : ((splitOn '/' folder).dropLast.map String.ofList).foldlM t.follow
      (if folder.head? = some '/' then ⟨.root, []⟩ else Location.workingDirectory) with
  | error fault =>
    rw [hdir] at h
    cases h
  | ok dir =>
    rw [hdir] at h
    have hfollow : t.follow dir (String.ofList name) = .ok l := by
      rw [← h]
      exact (bind_pure _).symm
    obtain ⟨hdirectory, hplace⟩ := follow_eq_ok hfollow
    exact ⟨dir, rfl, hdirectory, hplace⟩

/-- Where a path leads to a file, its name is the name of a file. -/
theorem isName_of_find?_eq_file {c : Content} (hfolder : IsFolder folder) (hname : '/' ∉ name)
    (hresolve : t.resolve (String.ofList (folder ++ name)) = .ok l)
    (h : t.find? l = some (.file c)) : IsName name := by
  obtain ⟨dir, hdir, hdirectory, rfl⟩ := resolve_eq_ok hfolder hname hresolve
  have hstays {place : Location} (hplace : t.find? place = some .directory) :
      dir.enter (String.ofList name) ≠ place := by
    rintro e
    rw [e, hplace] at h
    cases h
  refine ⟨hname, ?_, ?_, ?_⟩
  · rintro rfl
    exact hstays hdirectory rfl
  · rintro rfl
    exact hstays hdirectory rfl
  · rintro rfl
    exact hstays ((grounded_of_folderPlace hdir).find?_parent hdirectory) rfl

theorem exists_path_eq {path : String} {c : Content} (hresolve : t.resolve path = .ok l)
    (h : t.find? l = some (.file c)) :
    ∃ folder name, path = String.ofList (folder ++ name) ∧ IsFolder folder ∧ IsName name := by
  obtain ⟨folder, name, hcut, hfolder, hname⟩ := exists_folder_name path.toList
  have hpath : path = String.ofList (folder ++ name) := by rw [← hcut, String.ofList_toList]
  rw [hpath] at hresolve
  exact ⟨folder, name, hpath, hfolder, isName_of_find?_eq_file hfolder hname hresolve h⟩

end

theorem read_eq_ok {path s : String} (h : t.read path = .ok s) :
    ∃ l, t.resolve path = .ok l ∧ t.find? l = some (.file (.text s)) := by
  rw [read] at h
  cases hresolve : t.resolve path with
  | error fault =>
    rw [hresolve] at h
    cases h
  | ok l =>
    rw [hresolve] at h
    refine ⟨l, rfl, ?_⟩
    simp only [bind, Except.bind] at h
    split at h
    · cases h
    · cases h
    · cases h
    · next hentry =>
      cases h
      exact hentry

theorem write_eq_ok {path s : String} {written : FileTree} (h : t.write path s = .ok written) :
    ∃ l, t.resolve path = .ok l ∧ written = t.put l (.file (.text s)) := by
  rw [write] at h
  split at h
  · -- A path that ends with a slash is refused, whatever its parts lead to.
    simp only [bind, Except.bind] at h
    split at h <;> cases h
  · cases hresolve : t.resolve path with
    | error fault =>
      rw [hresolve] at h
      cases h
    | ok l =>
      rw [hresolve] at h
      simp only [bind, Except.bind] at h
      split at h
      · cases h
      · exact ⟨l, rfl, (Except.ok.inj h).symm⟩

theorem write_of_find?_eq_file {path s : String} {c : Content} (hresolve : t.resolve path = .ok l)
    (h : t.find? l = some (.file c)) : t.write path s = .ok (t.put l (.file (.text s))) := by
  have hpath : path.toList.getLast? ≠ some '/' := by
    obtain ⟨folder, name, rfl, -, hname⟩ := exists_path_eq hresolve h
    rw [String.toList_ofList, List.getLast?_append_of_ne_nil _ hname.ne_nil]
    exact fun hlast => hname.no_slash (List.mem_of_getLast? hlast)
  rw [write, if_neg hpath, hresolve]
  simp [bind, Except.bind, h]

end FileTree
end AccessRules
