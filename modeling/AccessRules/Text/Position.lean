import AccessRules.Text.Digits
import AccessRules.Text.Reader

/-! Messages that end with the position they are about. -/
namespace AccessRules
namespace Text

/-- A text cut at the last place where a word stands in it. -/
def splitAtLast? (word : List Char) : List Char → Option (List Char × List Char)
  | [] => none
  | c :: rest =>
    match splitAtLast? word rest with
    | some (before, behind) => some (c :: before, behind)
    | none => if word.isPrefixOf (c :: rest) then some ([], (c :: rest).drop word.length) else none

structure Position where
  line : Nat
  column : Nat
deriving DecidableEq, Repr

namespace Position

def lineWord : String := " at line "
def columnWord : String := " column "

def text (p : Position) : String := lineWord ++ decimal p.line ++ columnWord ++ decimal p.column

/-- The numbers of a line and a column, as they stand behind the word for the line. -/
def ofText? (cs : List Char) : Option Position := do
  let (line, column) ← Reader.run? (do
    let line ← Reader.takeSome Char.isDigit
    Reader.word columnWord
    let column ← Reader.takeSome Char.isDigit
    return (line, column)) cs
  return ⟨← word64? line, ← word64? column⟩

/-- A message in which a position at the end is written with plain numbers; lines are counted from
one, and a position on line zero is left out. -/
def tidy (message : String) : String :=
  match splitAtLast? lineWord.toList message.toList with
  | none => message
  | some (before, behind) =>
    match ofText? behind with
    | none => message
    | some p => if p.line = 0 then String.ofList before else String.ofList before ++ p.text

end Position
end Text
end AccessRules
