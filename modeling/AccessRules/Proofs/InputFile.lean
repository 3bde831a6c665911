import AccessRules.CommandLine
import AccessRules.Proofs.Files

/-! What a run does to the file that it reads. Without a path for the output the rules go to the
path of the input under another extension. That is another file, unless the input already has the
extension: then the rules take the place of the policy that they were compiled from. -/
namespace AccessRules
open AccessRules.Path Text

namespace Location
variable {l : Location} {name other : List Char}

theorem length_names_parent_le (l : Location) : l.parent.names.length ≤ l.names.length := by
  rcases l.parent_cases with e | e | ⟨-, e⟩
  · rw [e]
  · rw [e]
    exact Nat.zero_le _
  · rw [e, List.length_dropLast]
    exact Nat.sub_le _ _

theorem enter_of_isName (h : IsName name) :
    l.enter (String.ofList name) = { l with names := l.names ++ [String.ofList name] } := by
  have hempty : String.ofList name ≠ "" := ofList_ne h.ne_nil
  have hdot : String.ofList name ≠ "." := ofList_ne h.ne_dot
  have hdots : String.ofList name ≠ ".." := ofList_ne h.ne_dots
  simp [enter, hempty, hdot, hdots]

theorem eq_of_enter_eq (h : IsName name)
    (henter : l.enter (String.ofList other) = l.enter (String.ofList name)) : other = name := by
  rw [enter_of_isName h] at henter
  have hlonger {place : Location} (hplace : place.names.length ≤ l.names.length) :
      place ≠ { l with names := l.names ++ [String.ofList name] } := by
    rintro rfl
    rw [List.length_append, List.length_singleton] at hplace
    omega
  unfold enter at henter
  split at henter
  · exact absurd henter (hlonger (Nat.le_refl _))
  · split at henter
    · exact absurd henter (hlonger l.length_names_parent_le)
    · have hnames := List.append_cancel_left (congrArg Location.names henter)
      exact String.ofList_inj.1 (List.cons.inj hnames).1

end Location

theorem Json.ofText?_eq_none {text : String} {rest : List Char} (h : text.toList = 'r' :: rest) :
    Json.ofText? text = none := by
  rw [Json.ofText?, Json.read?, h]
  rfl

theorem Rules.exists_render_eq_cons (style : Style) (r : Rules) :
    ∃ rest, (r.render style).toList = 'r' :: rest := by
  rw [Rules.toList_render, Rules.lines]
  simp only [List.cons_append, Line.written_cons, Line.toList_render, Nat.mul_zero,
    List.replicate_zero, List.nil_append, String.toList_append, List.append_assoc]
  exact ⟨_, rfl⟩

namespace Invocation
variable {i : Invocation} {t : FileTree} {l : Location} {contents : Except FileFault String}
  {text : String}

/-- The input is named like a rules file: it has their extension, and its stem is no single dot. -/
def InputIsRules (i : Invocation) : Prop :=
  extension? i.input = some "rules" ∧ fileName? i.input ≠ some "..rules"

instance (i : Invocation) : Decidable i.InputIsRules := inferInstanceAs (Decidable (_ ∧ _))

theorem compile_eq_ok (h : i.compile contents = .ok text) :
    ∃ s document, contents = .ok s ∧ (Format.ofPath i.input).read? s = some document ∧
      ∃ p : Policy, text = p.compile.render i.style := by
  rw [compile] at h
  cases contents with
  | error fault => cases h
  | ok s =>
    rw [Policy.readDocument, Format.parse] at h
    cases hread : (Format.ofPath i.input).read? s with
    | none =>
      rw [hread] at h
      cases h
    | some document =>
      simp only [hread, Policy.compileDocument, bind, Except.bind] at h
      refine ⟨s, document, rfl, hread, ?_⟩
      cases hload : Policy.load Policy.schema document with
      | error failure =>
        rw [hload] at h
        cases h
      | ok p =>
        rw [hload] at h
        exact ⟨p, (Except.ok.inj h).symm⟩

theorem find?_of_compile_eq_ok (h : i.compile (t.read i.input) = .ok text)
    (hresolve : t.resolve i.input = .ok l) :
    ∃ s, t.read i.input = .ok s ∧ t.find? l = some (.file (.text s)) := by
  obtain ⟨s, document, hread, -⟩ := compile_eq_ok h
  obtain ⟨place, hplace, hfile⟩ := FileTree.read_eq_ok hread
  obtain rfl : l = place := Except.ok.inj (hresolve.symm.trans hplace)
  exact ⟨s, hread, hfile⟩

/-- A rules file is read as JSON, so that the rules are never the text that they are made from. -/
theorem ne_of_compile_eq_ok {s : String} (hrules : i.InputIsRules)
    (h : i.compile (.ok s) = .ok text) : text ≠ s := by
  obtain ⟨s', document, hs, hread, p, htext⟩ := compile_eq_ok h
  obtain rfl : s = s' := Except.ok.inj hs
  have hformat : Format.ofPath i.input = .json := by
    rw [Format.ofPath, hrules.1]
    rfl
  rw [hformat] at hread
  rintro rfl
  obtain ⟨rest, hrest⟩ := Rules.exists_render_eq_cons i.style p.compile
  rw [htext, Format.read?, Json.ofText?_eq_none hrest] at hread
  cases hread

section
variable {folder name : List Char}

theorem outputPath_folder_name (hdefault : i.output? = none)
    (hinput : i.input = String.ofList (folder ++ name)) (hfolder : IsFolder folder)
    (hname : IsName name) :
    i.outputPath = String.ofList (folder ++ renamed "rules".toList name) := by
  rw [outputPath, hdefault, Option.getD_none, hinput, withExtension_folder_name hfolder hname]

theorem inputIsRules_iff (hinput : i.input = String.ofList (folder ++ name))
    (hfolder : IsFolder folder) (hname : IsName name) :
    i.InputIsRules ↔ renamed "rules".toList name = name := by
  rw [InputIsRules, hinput, renamed_eq_iff hfolder hname]
  rfl

end

theorem resolve_outputPath_ne {c : Content} (hdefault : i.output? = none)
    (hresolve : t.resolve i.input = .ok l) (hfile : t.find? l = some (.file c))
    (hrules : ¬i.InputIsRules) : t.resolve i.outputPath ≠ .ok l := by
  intro hsame
  obtain ⟨folder, name, hinput, hfolder, hname⟩ := FileTree.exists_path_eq hresolve hfile
  rw [hinput] at hresolve
  rw [outputPath_folder_name hdefault hinput hfolder hname] at hsame
  have hslash : '/' ∉ renamed "rules".toList name :=
    slash_not_mem_renamed hname.no_slash (by decide)
  obtain ⟨dir, hdir, -, hplace⟩ := FileTree.resolve_eq_ok hfolder hname.no_slash hresolve
  obtain ⟨dir', hdir', -, hplace'⟩ := FileTree.resolve_eq_ok hfolder hslash hsame
  obtain rfl : dir = dir' := Except.ok.inj (hdir.symm.trans hdir')
  have hkept : renamed "rules".toList name = name :=
    Location.eq_of_enter_eq hname (hplace'.symm.trans hplace)
  exact hrules ((inputIsRules_iff hinput hfolder hname).2 hkept)

theorem outputPath_eq_input {c : Content} (hdefault : i.output? = none)
    (hresolve : t.resolve i.input = .ok l) (hfile : t.find? l = some (.file c))
    (hrules : i.InputIsRules) : i.outputPath = i.input := by
  obtain ⟨folder, name, hinput, hfolder, hname⟩ := FileTree.exists_path_eq hresolve hfile
  have hkept := (inputIsRules_iff hinput hfolder hname).1 hrules
  rw [outputPath_folder_name hdefault hinput hfolder hname, hkept, hinput]

theorem run_of_compile_eq_ok (h : i.compile (t.read i.input) = .ok text) :
    i.run t = match t.write i.outputPath text with
      | .ok written => .ok (i.outputPath, written)
      | .error fault => .error (.unwritable i.outputPath fault) := by
  rw [run, h]
  rfl

end Invocation

namespace CommandLine
variable {args : List String} {i : Invocation} {t : FileTree} {l : Location} {text : String}

theorem files_run_of_not_compiled (hargs : parse args = .ok i)
    (h : ¬∃ text, i.compile (t.read i.input) = .ok text) : (run args t).files = t := by
  cases hcompile : i.compile (t.read i.input) with
  | ok text => exact absurd ⟨text, hcompile⟩ h
  | error failure =>
    have hrun : i.run t = .error failure := by
      rw [Invocation.run, hcompile]
      rfl
    simp only [run, hargs, hrun]

/-- A run that compiles its input changes no files, or puts the rules where its output path
leads. -/
theorem files_run_of_compiled (hargs : parse args = .ok i)
    (h : i.compile (t.read i.input) = .ok text) :
    (run args t).files = t ∨ ∃ l, t.resolve i.outputPath = .ok l ∧
      (run args t).files = t.put l (.file (.text text)) := by
  have hrun := Invocation.run_of_compile_eq_ok h
  cases hwrite : t.write i.outputPath text with
  | error fault =>
    rw [hwrite] at hrun
    left
    simp only [run, hargs, hrun]
  | ok written =>
    rw [hwrite] at hrun
    right
    obtain ⟨l, hresolve, hwritten⟩ := FileTree.write_eq_ok hwrite
    refine ⟨l, hresolve, ?_⟩
    simp only [run, hargs, hrun]
    exact hwritten

theorem files_run_of_written {c : Content} (hargs : parse args = .ok i)
    (h : i.compile (t.read i.input) = .ok text) (hresolve : t.resolve i.outputPath = .ok l)
    (hfile : t.find? l = some (.file c)) :
    (run args t).files = t.put l (.file (.text text)) := by
  have hrun := Invocation.run_of_compile_eq_ok h
  rw [FileTree.write_of_find?_eq_file hresolve hfile] at hrun
  simp only [run, hargs, hrun]

theorem find?_run_of_inputIsRules (hargs : parse args = .ok i) (hdefault : i.output? = none)
    (h : i.compile (t.read i.input) = .ok text) (hresolve : t.resolve i.input = .ok l)
    (hrules : i.InputIsRules) : (run args t).files.find? l = some (.file (.text text)) := by
  obtain ⟨s, -, hfile⟩ := Invocation.find?_of_compile_eq_ok h hresolve
  have houtput := Invocation.outputPath_eq_input hdefault hresolve hfile hrules
  rw [files_run_of_written hargs h (by rw [houtput, hresolve]) hfile]
  exact FileTree.find?_put_self (FileTree.find?_eq_file_iff.1 hfile).1

theorem find?_run_of_not_inputIsRules (hargs : parse args = .ok i) (hdefault : i.output? = none)
    (h : i.compile (t.read i.input) = .ok text) (hresolve : t.resolve i.input = .ok l)
    (hrules : ¬i.InputIsRules) : (run args t).files.find? l = t.find? l := by
  obtain ⟨s, -, hfile⟩ := Invocation.find?_of_compile_eq_ok h hresolve
  have hother := Invocation.resolve_outputPath_ne hdefault hresolve hfile hrules
  rcases files_run_of_compiled hargs h with hfiles | ⟨place, hplace, hfiles⟩
  · rw [hfiles]
  · have hne : l ≠ place := fun e => hother (e ▸ hplace)
    rw [hfiles, FileTree.find?_put_of_ne hne hfile, hfile]

/-- Without a path for the output, a run changes its input file exactly if the file is a rules file
and is compiled: then the rules are written to the input path itself. In all other cases the file
that the rules go to is another one. Here paths are told apart by the names they lead through;
files that may not be written, links to the input file and names that differ from its name by case
only are not part of the file tree. -/
theorem run_keeps_input (t : FileTree) (hargs : parse args = .ok i) (hdefault : i.output? = none) :
    (∀ l, t.resolve i.input = .ok l →
      ((run args t).files.find? l = t.find? l ↔
        ¬(i.InputIsRules ∧ ∃ text, i.compile (t.read i.input) = .ok text))) ∧
    ∀ text, i.compile (t.read i.input) = .ok text → ∀ l, t.resolve i.input = .ok l →
      (i.InputIsRules → i.outputPath = i.input ∧
        (run args t).files.find? l = some (.file (.text text))) ∧
      (¬i.InputIsRules → t.resolve i.outputPath ≠ .ok l) := by
  refine ⟨fun l hresolve => ?_, fun text h l hresolve => ?_⟩
  · by_cases hcompiled : ∃ text, i.compile (t.read i.input) = .ok text
    · obtain ⟨text, h⟩ := hcompiled
      by_cases hrules : i.InputIsRules
      · obtain ⟨s, hread, hfile⟩ := Invocation.find?_of_compile_eq_ok h hresolve
        have hwritten := find?_run_of_inputIsRules hargs hdefault h hresolve hrules
        have hne : text ≠ s := Invocation.ne_of_compile_eq_ok hrules (hread ▸ h)
        have hchanged : (run args t).files.find? l ≠ t.find? l := by
          rw [hwritten, hfile]
          simpa using hne
        exact iff_of_false hchanged fun hnot => hnot ⟨hrules, text, h⟩
      · have hkept := find?_run_of_not_inputIsRules hargs hdefault h hresolve hrules
        exact iff_of_true hkept fun hboth => hrules hboth.1
    · rw [files_run_of_not_compiled hargs hcompiled]
      exact iff_of_true rfl fun hboth => hcompiled hboth.2
  · obtain ⟨s, -, hfile⟩ := Invocation.find?_of_compile_eq_ok h hresolve
    exact ⟨fun hrules => ⟨Invocation.outputPath_eq_input hdefault hresolve hfile hrules,
        find?_run_of_inputIsRules hargs hdefault h hresolve hrules⟩,
      Invocation.resolve_outputPath_ne hdefault hresolve hfile⟩

instance decEqExcept {ε α : Type} [DecidableEq ε] [DecidableEq α] : DecidableEq (Except ε α)
  | .ok a, .ok b => decidable_of_iff (a = b) (by simp)
  | .error a, .error b => decidable_of_iff (a = b) (by simp)
  | .ok _, .error _ => isFalse (by simp)
  | .error _, .ok _ => isFalse (by simp)

/-- A policy in a folder is compiled to a rules file beside it, and stays as it was. -/
theorem run_keeps_input_policy :
    let document := Text.braced "\"topLevelMatchPath\": \"/documents\""
    let policy : Location := ⟨.above 0, ["policies", "m.json"]⟩
    let t : FileTree := ⟨[(policy, .file (.text document))]⟩
    let i : Invocation := { input := "./policies/m.json" }
    parse ["./policies/m.json"] = .ok i ∧ i.output? = none ∧ t.resolve i.input = .ok policy ∧
      (i.compile (t.read i.input)).isOk = true ∧ t.resolve i.outputPath ≠ .ok policy ∧
      (run ["./policies/m.json"] t).files.find? policy = some (.file (.text document)) := by
  intro document policy t i
  have hargs : parse ["./policies/m.json"] = .ok i := by decide +kernel
  have hresolve : t.resolve i.input = .ok policy := by decide +kernel
  have hcompiled : (i.compile (t.read i.input)).isOk = true := by decide +kernel
  have hrules : ¬i.InputIsRules := by decide +kernel
  obtain ⟨hkeeps, hother⟩ := run_keeps_input t hargs rfl
  refine ⟨hargs, rfl, hresolve, hcompiled, ?_, ?_⟩
  · cases h : i.compile (t.read i.input) with
    | error failure => simp [h, Except.isOk, Except.toBool] at hcompiled
    | ok text => exact (hother text h policy hresolve).2 hrules
  · exact (hkeeps policy hresolve).2 fun hboth => hrules hboth.1

/-- A policy under the name of a rules file is lost. -/
theorem run_replaces_input :
    let document := Text.braced "\"topLevelMatchPath\": \"/documents\""
    let policy : Location := ⟨.above 0, ["m.rules"]⟩
    let t : FileTree := ⟨[(policy, .file (.text document))]⟩
    let i : Invocation := { input := "m.rules" }
    parse ["m.rules"] = .ok i ∧ i.output? = none ∧ t.resolve i.input = .ok policy ∧
      (i.compile (t.read i.input)).isOk = true ∧ t.resolve i.outputPath = .ok policy ∧
      (run ["m.rules"] t).files.find? policy ≠ t.find? policy := by
  intro document policy t i
  decide +kernel

end CommandLine
end AccessRules
