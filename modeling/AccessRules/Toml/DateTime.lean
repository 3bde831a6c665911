import AccessRules.Text.Digits
import AccessRules.Text.Reader

/-! Dates and times of TOML, and their normal texts: a `T` between date and time, a fraction of at
most nine digits without zeros at its end, and an offset that is `Z` or signed. -/
namespace AccessRules
namespace Toml
open Text

structure Date where
  year : Nat
  month : Nat
  day : Nat
deriving DecidableEq, Repr

structure Time where
  hour : Nat
  minute : Nat
  second : Nat
  fraction : List Char
deriving DecidableEq, Repr

inductive Offset where
  | utc
  | minutes (east : Bool) (count : Nat)
deriving DecidableEq, Repr

inductive DateTime where
  | date (d : Date)
  | time (t : Time)
  | dateTime (d : Date) (t : Time) (offset : Option Offset)
deriving DecidableEq, Repr

def isLeapYear (year : Nat) : Bool := year % 4 == 0 && (year % 100 != 0 || year % 400 == 0)

def daysIn (year month : Nat) : Nat :=
  if month = 2 then if isLeapYear year then 29 else 28
  else if month = 4 || month = 6 || month = 9 || month = 11 then 30
  else 31

def Date.text (d : Date) : String :=
  padded 4 d.year ++ "-" ++ padded 2 d.month ++ "-" ++ padded 2 d.day

/-- The fraction without its digits after the ninth and without zeros at its end. -/
def Time.shownFraction (t : Time) : List Char :=
  ((t.fraction.take 9).reverse.dropWhile (· == '0')).reverse

def Time.text (t : Time) : String :=
  padded 2 t.hour ++ ":" ++ padded 2 t.minute ++ ":" ++ padded 2 t.second ++
    (if t.shownFraction.isEmpty then "" else "." ++ String.ofList t.shownFraction)

/-- An offset of nothing lies to the east. -/
def Offset.text : Offset → String
  | .utc => "Z"
  | .minutes east count =>
    (if east || count == 0 then "+" else "-") ++ padded 2 (count / 60) ++ ":" ++
      padded 2 (count % 60)

def DateTime.text : DateTime → String
  | .date d => d.text
  | .time t => t.text
  | .dateTime d t none => d.text ++ "T" ++ t.text
  | .dateTime d t (some o) => d.text ++ "T" ++ t.text ++ o.text

def fixedDigits (count low high : Nat) : Reader Nat := do
  let ds ← (List.replicate count (Reader.satisfy Char.isDigit)).mapM id
  let n := ofDigits 10 ds
  if low ≤ n && n ≤ high then return n else failure

def date : Reader Date := do
  let year ← fixedDigits 4 0 9999
  Reader.char '-'
  let month ← fixedDigits 2 1 12
  Reader.char '-'
  let day ← fixedDigits 2 1 (daysIn year month)
  return ⟨year, month, day⟩

/-- The sixtieth second is a leap second. -/
def time : Reader Time := do
  let hour ← fixedDigits 2 0 23
  Reader.char ':'
  let minute ← fixedDigits 2 0 59
  Reader.char ':'
  let second ← fixedDigits 2 0 60
  let fraction ← Reader.optional (do Reader.char '.'; Reader.takeSome Char.isDigit)
  return ⟨hour, minute, second, fraction.getD []⟩

def offset : Reader Offset := do
  match ← Reader.satisfy fun c => c == 'Z' || c == 'z' || c == '+' || c == '-' with
  | '+' => return .minutes true (← hours)
  | '-' => return .minutes false (← hours)
  | _ => return .utc
where
  hours : Reader Nat := do
    let hour ← fixedDigits 2 0 23
    Reader.char ':'
    let minute ← fixedDigits 2 0 59
    return hour * 60 + minute

def dateTime : Reader DateTime := dated <|> .time <$> time
where
  dated : Reader DateTime := do
    let d ← date
    let clock ← Reader.optional (do
      let _ ← Reader.satisfy fun c => c == 'T' || c == 't' || c == ' '
      let t ← time
      let o ← Reader.optional offset
      return (t, o))
    match clock with
    | some (t, o) => return .dateTime d t o
    | none => return .date d

end Toml
end AccessRules
