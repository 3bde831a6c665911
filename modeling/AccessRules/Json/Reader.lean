import AccessRules.Json.Basic
import AccessRules.Text.Brace
import AccessRules.Text.Digits
import AccessRules.Text.Reader

/-! Reading JSON text. A number without fraction and exponent that fits a 64-bit integer stays an
integer. Any other number is computed from at most 64 bits of its digits by one binary64
multiplication or division with a power of ten, so its last bit may differ from the nearest one. -/
namespace AccessRules

structure Numeral where
  negative : Bool
  whole : List Char
  fraction : List Char
  exponent : Option Int

namespace Numeral

/-- Appends digits to a significand as long as it fits 64 bits, and counts the digits taken. -/
def absorb : Nat → List Char → Nat × Nat
  | significand, [] => (significand, 0)
  | significand, c :: cs =>
    let next := significand * 10 + Text.ofDigits 10 [c]
    if next < Nat.pow 2 64 then
      let (total, taken) := absorb next cs
      (total, taken + 1)
    else (significand, 0)

def significand (n : Numeral) : Nat × Int :=
  let (whole, taken) := absorb 0 n.whole
  let (total, places) := absorb whole n.fraction
  (total, (n.whole.length - taken : Nat) - (places : Int) + n.exponent.getD 0)

/-- Divides by `10 ^ 308` until the exponent is at least `-308` or the number is zero. -/
def descend (x : Binary64) (e : Int) : Option (Binary64 × Int) :=
  if e < -308 && !x.isZero then do
    let huge ← Binary64.ofNat? (Nat.pow 10 308)
    descend (← x.div? huge) (e + 308)
  else some (x, e)
termination_by (-e).toNat
decreasing_by grind

def scaleByTen (x : Binary64) (e : Int) : Option Binary64 := do
  if x.isZero then some x
  else if 308 < e then none
  else
    let (x, e) ← descend x e
    if e < -308 then some x
    else
      let power ← Binary64.ofNat? (Nat.pow 10 e.natAbs)
      if 0 ≤ e then x.mul? power else x.div? power

def toFloat? (n : Numeral) : Option Binary64 := do
  let (significand, e) := n.significand
  let x ← scaleByTen (← Binary64.ofNat? significand) e
  return if n.negative then x.neg else x

/-- An integer, if the numeral is written as one and is in range; minus zero is not. -/
def toInt? (n : Numeral) : Option Int :=
  let value := Text.ofDigits 10 n.whole
  if !n.fraction.isEmpty || n.exponent.isSome then none
  else if !n.negative then if value < Nat.pow 2 64 then some value else none
  else if 0 < value && value ≤ Nat.pow 2 63 then some (-value)
  else none

def toNumber? (n : Numeral) : Option Number :=
  match n.toInt? with
  | some value => some (.int value)
  | none => n.toFloat?.map .float

end Numeral

namespace Json
open Text

def isSpace (c : Char) : Bool := c == ' ' || c == '\t' || c == '\n' || c == '\r'

def space : Reader Unit := do
  let _ ← Reader.takeWhile isSpace

def mark (c : Char) : Reader Unit := do
  Reader.char c
  space

def shortEscape? : Char → Option Char
  | '"' => some '"'
  | '\\' => some '\\'
  | '/' => some '/'
  | 'b' => some '\x08'
  | 'f' => some '\x0c'
  | 'n' => some '\n'
  | 'r' => some '\r'
  | 't' => some '\t'
  | _ => none

def hexCode? (digits : List Char) : Option Nat :=
  if digits.all (isDigitIn 16) then some (ofDigits 16 digits) else none

def ofSurrogates? (high low : Nat) : Option Char :=
  if 0xD800 ≤ high && high < 0xDC00 && 0xDC00 ≤ low && low < 0xE000 then
    scalar? (0x10000 + (high - 0xD800) * 0x400 + (low - 0xDC00))
  else none

/-- The rest of a string after its opening quote. An escaped code is a character of its own or
the first of two surrogates. -/
def stringRest : List Char → Option (List Char × List Char)
  | [] => none
  | '"' :: rest => some ([], rest)
  | '\\' :: 'u' :: a :: b :: c :: d :: rest => do
    let code ← hexCode? [a, b, c, d]
    match scalar? code with
    | some ch =>
      let (text, after) ← stringRest rest
      return (ch :: text, after)
    | none =>
      match rest with
      | '\\' :: 'u' :: a' :: b' :: c' :: d' :: rest =>
        let ch ← ofSurrogates? code (← hexCode? [a', b', c', d'])
        let (text, after) ← stringRest rest
        return (ch :: text, after)
      | _ => none
  | '\\' :: c :: rest => do
    let ch ← shortEscape? c
    let (text, after) ← stringRest rest
    return (ch :: text, after)
  | c :: rest =>
    if c = '\\' || c.toNat < 0x20 then none
    else do
      let (text, after) ← stringRest rest
      return (c :: text, after)

def stringText : Reader String := do
  Reader.char '"'
  let text ← stringRest
  return String.ofList text

def digits : Reader (List Char) := Reader.takeSome Char.isDigit

/-- Digits without a needless zero in front. -/
def wholeDigits : Reader (List Char) := do
  let ds ← digits
  if ds.length > 1 && ds.head? == some '0' then failure
  return ds

def exponentPart : Reader Int := do
  let _ ← Reader.satisfy fun c => c == 'e' || c == 'E'
  let sign ← Reader.optional (Reader.satisfy fun c => c == '+' || c == '-')
  let value : Int := ofDigits 10 (← digits)
  return if sign == some '-' then -value else value

def numeral : Reader Numeral := do
  let sign ← Reader.optional (Reader.char '-')
  let whole ← wholeDigits
  let fraction ←
    match ← Reader.peek with
    | some '.' => do Reader.char '.'; digits
    | _ => pure []
  let exponent ←
    match ← Reader.peek with
    | some 'e' | some 'E' => some <$> exponentPart
    | _ => pure none
  return ⟨sign.isSome, whole, fraction, exponent⟩

def numberValue : Reader Number := do
  let n ← numeral
  match n.toNumber? with
  | some value => return value
  | none => failure

/-- Items between brackets, with commas between them and space after each part. -/
def bracketed {α : Type} (opening closing : Char) (item : Reader α) : Reader (List α) := do
  mark opening
  match ← Reader.peek with
  | some c =>
    if c = closing then Reader.char closing; return []
    else
      let items ← Reader.separated item (mark ',')
      Reader.char closing
      return items
  | none => failure

def scalar : Reader Json := do
  match ← Reader.peek with
  | some 'n' => do Reader.word "null"; return .null
  | some 't' => do Reader.word "true"; return .bool true
  | some 'f' => do Reader.word "false"; return .bool false
  | some '"' => .string <$> stringText
  | _ => .number <$> numberValue

def value : (depth : Nat) → Reader Json
  | 0 => scalar
  | depth + 1 => do
    match ← Reader.peek with
    | some '[' =>
      .array <$> bracketed '[' ']' (do
        let item ← value depth
        space
        return item)
    | some '\x7b' =>
      ofMembers <$> bracketed leftBrace rightBrace (do
        let name ← stringText
        space
        mark ':'
        let item ← value depth
        space
        return (name, item))
    | _ => scalar

/-- Reads a JSON text whose arrays and objects are nested at most `depth` deep. -/
def read? (depth : Nat) (text : String) : Option Json :=
  Reader.run? (do space; let v ← value depth; space; return v) text.toList

/-- How deeply policy documents may be nested. -/
def depthLimit : Nat := 127

def ofText? (text : String) : Option Json := read? depthLimit text

end Json
end AccessRules
