import AccessRules.Proofs.BlankSpace
import AccessRules.Proofs.Indentation

/-! Functions in laid out rules. A function is written line by line from its normal form, so blank
space around it and behind its lines does not show, and each line is padded to the depth of the
block it stands in. -/
namespace AccessRules
open Text

section Padding

/-- A line behind the padding of its block. Empty lines are not padded. -/
def Text.shifted (padding line : List Char) : List Char := if line = [] then [] else padding ++ line

/-- A line without the padding of its block. Blank lines have none. -/
def Text.unshifted (padding line : List Char) : List Char :=
  if line.all isBlank then line else line.drop padding.length

theorem Text.shifted_of_not_blank {padding line : List Char}
    (h : ¬(shifted padding line).all isBlank) : padding <+: shifted padding line := by
  unfold shifted at h ⊢
  split
  · next hline => simp [hline] at h
  · exact List.prefix_append padding line

theorem Text.unshifted_shifted (padding : List Char) {line : List Char} (h : trimEnd line = line) :
    unshifted padding (shifted padding line) = line := by
  by_cases hline : line = []
  · simp [unshifted, shifted, hline]
  · have hblank : ¬(padding ++ line).all isBlank := by
      intro hall
      rw [List.all_append, Bool.and_eq_true, List.all_eq_true, List.all_eq_true] at hall
      have hnil := trimEnd_append_of_blank hall.2 []
      exact hline (h.symm.trans hnil)
    rw [shifted, if_neg hline, unshifted, if_neg hblank, List.drop_left]

theorem Text.trimEnd_shifted (padding : List Char) {line : List Char} (h : trimEnd line = line) :
    trimEnd (shifted padding line) = shifted padding line := by
  unfold shifted
  split
  · rfl
  · next hline =>
    refine trimEnd_of_getLast? fun c hc => ?_
    rw [List.getLast?_append_of_ne_nil padding hline, ← h] at hc
    exact isBlank_of_getLast?_trimEnd hc

end Padding

namespace Line

def ofRow (depth : Nat) (row : List Char) : Line :=
  if row.isEmpty then empty else ⟨depth, String.ofList row⟩

theorem ofText_eq (depth : Nat) (text : String) :
    ofText depth text = (normalLines text.toList).map (ofRow depth) := by
  rw [ofText, normalLines, List.map_map]
  rfl

theorem indented_ofRow (indent depth : Nat) (row : List Char) : (ofRow depth row).indented indent =
    shifted (List.replicate (indent * depth) ' ') row := by
  cases row <;> simp [ofRow, indented, shifted, empty]

theorem rows_ofRow (depth : Nat) {row : List Char} (h : '\n' ∉ row) :
    (ofRow depth row).rows = [ofRow depth row] := by
  cases row with
  | nil => rfl
  | cons c row => simp [ofRow, rows, splitOn_of_not_mem h]

/-- The lines of a written text are its normal lines with their padding. -/
theorem lines_written_ofText (indent depth : Nat) (text : String) :
    lines (written indent (ofText depth text)) =
      (normalLines text.toList).map (shifted (List.replicate (indent * depth) ' ')) := by
  have hrow {row : List Char} (hmem : row ∈ normalLines text.toList) :
      ((ofRow depth row).rows.map fun l => withoutReturn (l.indented indent)) =
        [shifted (List.replicate (indent * depth) ' ') row] := by
    obtain ⟨htrim, hline⟩ := mem_normalLines hmem
    rw [rows_ofRow depth hline, List.map_singleton, indented_ofRow,
      withoutReturn_of_trimEnd (trimEnd_shifted _ htrim)]
  rw [lines_written, ofText_eq, List.flatMap_map, List.map_flatMap, List.map_eq_flatMap]
  exact List.flatMap_congr fun row hmem => hrow hmem

end Line

namespace Rules

def functionBlock (style : Style) (f : String) : List Char :=
  Line.written style.indent (Line.ofText 2 f)

theorem toList_render_functions (style : Style) (r : Rules) : ∃ before after : List Char,
    ∀ functions : List String, ({ r with functions }.render style).toList =
      before ++ functions.flatMap (fun f => '\n' :: functionBlock style f) ++ after := by
  have hlines : ∃ us vs : List Line, ∀ functions : List String, { r with functions }.lines style =
      us ++ functions.flatMap (fun f => Line.empty :: Line.ofText 2 f) ++ vs := by
    simp only [lines]
    exact ⟨_, _, fun _ => rfl⟩
  obtain ⟨us, vs, hlines⟩ := hlines
  refine ⟨Line.written style.indent us, Line.written style.indent vs, fun functions => ?_⟩
  have hblock (f : String) : Line.written style.indent (Line.empty :: Line.ofText 2 f) =
      '\n' :: functionBlock style f := by
    simp [Line.toList_render, Line.empty, functionBlock]
  rw [toList_render, hlines, Line.written_append, Line.written_append, Line.written_flatMap]
  simp only [hblock]

theorem render_functions_congr (style : Style) (r : Rules) {g : String → String}
    (hg : ∀ f : String, normalLines (g f).toList = normalLines f.toList) :
    { r with functions := r.functions.map g }.render style = r.render style := by
  have hblocks (f : String) : Line.ofText 2 (g f) = Line.ofText 2 f := by
    rw [Line.ofText_eq, hg, Line.ofText_eq]
  simp only [render, lines, List.flatMap_map, hblocks]

/-- Blank space that the normal form leaves out does not show in the text of the rules: they are
written alike with normal functions, with a carriage return before each line feed of the
functions, and with one before each line feed that has none. Each function has a block of its own
in the text. Its lines that are not blank begin with the padding of the block, and without it the
lines of the block are those of the normal form. -/
theorem render_functions_normal (style : Style) (r : Rules) :
    let written (functions : List String) : String := { r with functions }.render style
    let padding : List Char := List.replicate (style.indent * 2) ' '
    (written (r.functions.map normal) = r.render style ∧
      written (r.functions.map withReturns) = r.render style ∧
      written (r.functions.map withMissingReturns) = r.render style) ∧
    (∀ f : String, normal (normal f) = normal f) ∧
    (∃ before after : List Char, ∀ functions : List String, (written functions).toList =
      before ++ functions.flatMap (fun f => '\n' :: functionBlock style f) ++ after) ∧
    ∀ f : String,
      (∀ line ∈ Text.lines (functionBlock style f), ¬line.all isBlank → padding <+: line) ∧
      (Text.lines (functionBlock style f)).map (unshifted padding) =
        Text.lines (normal f).toList := by
  intro written padding
  refine ⟨⟨?_, ?_, ?_⟩, normal_normal, toList_render_functions style r, fun f => ?_⟩
  · exact render_functions_congr style r normalLines_normal
  · exact render_functions_congr style r normalLines_withReturns
  · exact render_functions_congr style r normalLines_withMissingReturns
  · rw [functionBlock, Line.lines_written_ofText, lines_normal, List.map_map]
    constructor
    · intro line hline
      obtain ⟨row, -, rfl⟩ := List.mem_map.1 hline
      exact shifted_of_not_blank
    · refine Eq.trans (List.map_congr_left fun row hrow => ?_) (List.map_id _)
      exact unshifted_shifted padding (mem_normalLines hrow).1

end Rules
end AccessRules
