/-! Readers: functions that take a value off the front of a text or refuse it. A choice between
two readers starts the second one where the first one started. -/
namespace AccessRules
namespace Text

/-- A reader either refuses, or yields a value and the rest of the text. -/
abbrev Reader (α : Type) := StateT (List Char) Option α

namespace Reader

/-- Runs a reader that has to use up the whole text. -/
def run? {α : Type} (r : Reader α) (text : List Char) : Option α :=
  match r text with
  | some (a, []) => some a
  | _ => none

def peek : Reader (Option Char) := fun cs => some (cs.head?, cs)

def satisfy (p : Char → Bool) : Reader Char
  | c :: cs => if p c then some (c, cs) else none
  | [] => none

def char (c : Char) : Reader Unit := do
  let _ ← satisfy (· == c)

def exactly : List Char → Reader Unit
  | [] => pure ()
  | c :: cs => do char c; exactly cs

def word (w : String) : Reader Unit := exactly w.toList

def takeWhile (p : Char → Bool) : Reader (List Char) :=
  fun cs => some (cs.takeWhile p, cs.dropWhile p)

/-- As many characters of the class as there are, and at least one. -/
def takeSome (p : Char → Bool) : Reader (List Char) := do
  let c ← satisfy p
  let cs ← takeWhile p
  return c :: cs

def atEnd : Reader Unit
  | [] => some ((), [])
  | _ :: _ => none

def optional {α : Type} (r : Reader α) : Reader (Option α) :=
  (some <$> r) <|> pure none

def upTo {α : Type} (r : Reader α) : Nat → Reader (List α)
  | 0 => pure []
  | n + 1 => do
    match ← optional r with
    | none => return []
    | some a => return a :: (← upTo r n)

/-- Items in a row, until one is refused. The text's length bounds their number, so each item
has to use a character. -/
def many {α : Type} (r : Reader α) : Reader (List α) := fun cs => upTo r cs.length cs

/-- One or more items with a separator between each two. -/
def separated {α : Type} (r : Reader α) (separator : Reader Unit) : Reader (List α) := do
  let a ← r
  let more ← many (do separator; r)
  return a :: more

end Reader
end Text
end AccessRules
