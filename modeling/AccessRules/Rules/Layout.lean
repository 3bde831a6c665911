import AccessRules.Rules.Basic
import AccessRules.Text.Blank
import AccessRules.Text.Brace

/-! The text of compiled rules. A text is a list of lines, each with its nesting depth; the settings
say how wide a level is and which version the head line names. -/
namespace AccessRules
open Text

/-- How rules are written. There is no bound on the width of a level: a text that is too large for
memory, at which a program that builds it stops, is a text like any other here. -/
structure Style where
  version : String := "2"
  indent : Nat := 2
deriving DecidableEq, Repr

/-- A line without its end, and how deeply it is nested. -/
structure Line where
  depth : Nat
  text : String
deriving DecidableEq, Repr

namespace Line

def empty : Line := ⟨0, ""⟩

def closing (depth : Nat) : Line := ⟨depth, String.singleton rightBrace⟩

@[simp] theorem toList_text_closing (depth : Nat) :
    (closing depth).text.toList = [rightBrace] :=
  String.toList_singleton rightBrace

/-- The line with its end, behind `indent` blanks for each level. The number of blanks is not
bounded. -/
def render (indent : Nat) (l : Line) : String :=
  String.ofList (List.replicate (indent * l.depth) ' ') ++ l.text ++ "\n"

def written (indent : Nat) (ls : List Line) : List Char :=
  ls.flatMap fun l => (l.render indent).toList

@[simp] theorem written_nil (indent : Nat) : written indent [] = [] := rfl

@[simp] theorem written_cons (indent : Nat) (l : Line) (ls : List Line) :
    written indent (l :: ls) = (l.render indent).toList ++ written indent ls := by
  simp [written]

@[simp] theorem written_append (indent : Nat) (ls ms : List Line) :
    written indent (ls ++ ms) = written indent ls ++ written indent ms := by
  simp [written]

theorem written_flatMap {α : Type} (indent : Nat) (f : α → List Line) (xs : List α) :
    written indent (xs.flatMap f) = xs.flatMap fun x => written indent (f x) := by
  simp [written, List.flatMap_assoc]

theorem toList_render (indent : Nat) (l : Line) : (l.render indent).toList =
    List.replicate (indent * l.depth) ' ' ++ (l.text.toList ++ ['\n']) := by
  simp [render]

/-- A text of several lines at a depth, without blank space around it and behind its lines. -/
def ofText (depth : Nat) (text : String) : List Line :=
  (Text.lines (Text.trim text.toList)).map fun cs =>
    let line := Text.trimEnd cs
    if line.isEmpty then empty else ⟨depth, String.ofList line⟩

end Line

def Segment.opening (s : Segment) : String :=
  opened ("match /" ++ s.collection ++ "/" ++
    braced (s.wildcard ++ if s.recursive then "=**" else ""))

mutual

def Block.lines (depth : Nat) : Tree Block → List Line
  | .node b ts =>
    [⟨depth, b.segment.opening⟩] ++ b.statements.map (Line.mk (depth + 1)) ++
      Block.allLines (depth + 1) (!b.statements.isEmpty) ts ++ [Line.closing depth]

/-- The lines of blocks in a row. The first of them has a blank line before it if told so, and
each later one always has. -/
def Block.allLines (depth : Nat) (gap : Bool) : List (Tree Block) → List Line
  | [] => []
  | t :: ts =>
    (if gap then [Line.empty] else []) ++ Block.lines depth t ++ Block.allLines depth true ts

end

/-- The helper function that type checks of optional fields call. -/
def helperFunction : String :=
  opened "function getOr(request, field, defaultValue)" ++
    "\n  return request.resource.data.get(field, defaultValue);\n" ++ String.singleton rightBrace

def Rules.lines (style : Style) (r : Rules) : List Line :=
  [⟨0, "rules_version = '" ++ style.version ++ "';"⟩, Line.empty,
    ⟨0, opened "service cloud.firestore"⟩, ⟨1, opened ("match " ++ r.topLevel)⟩] ++
    r.trees.flatMap (fun t => Block.lines 2 t ++ [Line.empty]) ++
    Line.ofText 2 helperFunction ++
    r.functions.flatMap (fun f => Line.empty :: Line.ofText 2 f) ++
    [Line.closing 1, Line.closing 0]

def Rules.render (style : Style) (r : Rules) : String :=
  String.join ((r.lines style).map (Line.render style.indent))

theorem Rules.toList_render (style : Style) (r : Rules) :
    (r.render style).toList = Line.written style.indent (r.lines style) := by
  simp [Rules.render, String.toList_join, Line.written, List.flatMap_map]

end AccessRules
