import AccessRules.Proofs.TextLines
import AccessRules.Rules.Layout

/-! Indentation of laid out rules. The texts of lines may hold line feeds, and then stand on
several rows, of which only the first is indented. What the rows say does not depend on how wide a
level is, so the setting only changes the blanks at the starts of rows. -/
namespace AccessRules
open Text

/-- A row without the blanks in front of it. -/
def Text.unindented (row : List Char) : List Char := row.dropWhile fun c => c = ' '

theorem Text.unindented_replicate_append (n : Nat) (row : List Char) :
    unindented (List.replicate n ' ' ++ row) = unindented row :=
  List.dropWhile_append_of_pos (by simp)

namespace Line

def indented (indent : Nat) (l : Line) : List Char :=
  List.replicate (indent * l.depth) ' ' ++ l.text.toList

theorem unindented_indented (indent : Nat) (l : Line) :
    unindented (l.indented indent) = unindented l.text.toList :=
  unindented_replicate_append _ _

theorem withoutReturn_indented (indent : Nat) (l : Line) : withoutReturn (l.indented indent) =
    List.replicate (indent * l.depth) ' ' ++ withoutReturn l.text.toList :=
  withoutReturn_append (by simp) _

/-- The rows that a line stands on. -/
def rows (l : Line) : List Line :=
  match splitOn '\n' l.text.toList with
  | [] => []
  | part :: more => ⟨l.depth, String.ofList part⟩ :: more.map fun part => ⟨0, String.ofList part⟩

theorem splitOn_indented (indent : Nat) (l : Line) :
    splitOn '\n' (l.indented indent) = l.rows.map (indented indent) := by
  have hblanks : '\n' ∉ List.replicate (indent * l.depth) ' ' := by simp
  rw [indented, splitOn_append_of_not_mem hblanks, rows]
  cases splitOn '\n' l.text.toList with
  | nil => rfl
  | cons part more => simp [indented, Function.comp_def]

theorem written_cons_eq (indent : Nat) (l : Line) (ls : List Line) :
    written indent (l :: ls) = l.indented indent ++ '\n' :: written indent ls := by
  simp [toList_render, indented]

theorem splitOn_written (indent : Nat) (ls : List Line) : splitOn '\n' (written indent ls) =
    (ls.flatMap rows ++ [empty]).map (indented indent) := by
  induction ls with
  | nil => simp [splitOn, indented, empty]
  | cons l ls ih =>
    rw [written_cons_eq, splitOn_append_cons, splitOn_indented, ih]
    simp

theorem lines_written (indent : Nat) (ls : List Line) : lines (written indent ls) =
    (ls.flatMap rows).map fun l => withoutReturn (l.indented indent) := by
  induction ls with
  | nil => rfl
  | cons l ls ih =>
    rw [written_cons_eq, lines_append_lf, splitOn_indented, ih]
    simp

end Line

namespace Rules

/-- The text in some width of a level has as many lines as in any other, and they are equal
without the blanks in front of them. The rows between line feeds are the same ones in each width,
and each is indented by its own depth. -/
theorem render_indentation (version : String) (r : Rules) :
    let text (indent : Nat) : List Char := (r.render ⟨version, indent⟩).toList
    (∀ i j, (Text.lines (text i)).length = (Text.lines (text j)).length ∧
      (Text.lines (text i)).map unindented = (Text.lines (text j)).map unindented ∧
      (splitOn '\n' (text i)).map unindented = (splitOn '\n' (text j)).map unindented) ∧
    ∃ rows : List Line, ∀ indent, splitOn '\n' (text indent) = rows.map (Line.indented indent) := by
  intro text
  have htext (indent : Nat) : text indent = Line.written indent (r.lines ⟨version, 0⟩) :=
    r.toList_render ⟨version, indent⟩
  simp only [htext, Line.lines_written, Line.splitOn_written]
  refine ⟨fun i j => ⟨by simp, ?_, ?_⟩, _, fun indent => rfl⟩
  · simp only [List.map_map]
    refine List.map_congr_left fun l _ => ?_
    simp [Line.withoutReturn_indented, unindented_replicate_append]
  · simp only [List.map_map]
    refine List.map_congr_left fun l _ => ?_
    simp [Line.unindented_indented]

end Rules
end AccessRules
