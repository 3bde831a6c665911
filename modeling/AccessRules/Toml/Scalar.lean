import AccessRules.Json.Basic
import AccessRules.Text.Digits
import AccessRules.Text.Reader

/-! Strings and numbers of TOML. -/
namespace AccessRules
namespace Toml
open Text

def isSpace (c : Char) : Bool := c == ' ' || c == '\t'

/-- Characters that may stand in comments and, some marks apart, in strings. -/
def isPlain (c : Char) : Bool := c == '\t' || (0x20 ≤ c.toNat && c.toNat != 0x7F)

def codeEscape (count : Nat) : Reader Char := do
  let ds ← (List.replicate count (Reader.satisfy (isDigitIn 16))).mapM id
  match scalar? (ofDigits 16 ds) with
  | some c => return c
  | none => failure

def escaped : Reader Char := do
  match ← Reader.satisfy fun _ => true with
  | 'b' => return '\x08'
  | 'f' => return '\x0c'
  | 'n' => return '\n'
  | 'r' => return '\r'
  | 't' => return '\t'
  | '"' => return '"'
  | '\\' => return '\\'
  | 'u' => codeEscape 4
  | 'U' => codeEscape 8
  | _ => failure

def basicString : Reader (List Char) := do
  Reader.char '"'
  let cs ← Reader.many ((do Reader.char '\\'; escaped) <|>
    Reader.satisfy fun c => isPlain c && c != '"' && c != '\\')
  Reader.char '"'
  return cs

def literalString : Reader (List Char) := do
  Reader.char '\''
  let cs ← Reader.takeWhile fun c => isPlain c && c != '\''
  Reader.char '\''
  return cs

def newline : Reader Unit := Reader.char '\n' <|> Reader.word "\r\n"

/-- A backslash at the end of a line, with all blank space up to the next other character. -/
def lineContinuation : Reader Unit := do
  Reader.char '\\'
  let _ ← Reader.takeWhile isSpace
  newline
  let _ ← Reader.many ((do let _ ← Reader.satisfy isSpace) <|> newline)

def tripled (mark : Char) : Reader Unit := Reader.exactly [mark, mark, mark]

/-- Up to two marks that belong to the string directly before the three that close it. -/
def closing (mark : Char) : Reader (List Char) :=
  (do Reader.exactly [mark, mark]; tripled mark; return [mark, mark]) <|>
    (do Reader.char mark; tripled mark; return [mark]) <|>
    (do tripled mark; return [])

/-- The inside and the end of a string of several lines. A line feed directly after the opening is
no part of the string, and three marks in a row close it. -/
def severalLines (mark : Char) (part : Reader (List Char)) : Reader (List Char) := do
  tripled mark
  let _ ← Reader.optional newline
  let lone : Reader (List Char) := do
    let _ ← Reader.char mark
    return [mark]
  let parts ← Reader.many (unlessTripled (part <|> lone))
  return parts.flatten ++ (← closing mark)
where
  unlessTripled (r : Reader (List Char)) : Reader (List Char) := fun cs =>
    if [mark, mark, mark].isPrefixOf cs then none else r cs

def severalLinesBasic : Reader (List Char) :=
  severalLines '"' ((do lineContinuation; return []) <|>
    (do Reader.char '\\'; return [← escaped]) <|>
    (do newline; return ['\n']) <|>
    (do return [← Reader.satisfy fun c => isPlain c && c != '"' && c != '\\']))

def severalLinesLiteral : Reader (List Char) :=
  severalLines '\'' ((do newline; return ['\n']) <|>
    (do return [← Reader.satisfy fun c => isPlain c && c != '\'']))

def stringText : Reader String :=
  String.ofList <$> (severalLinesBasic <|> basicString <|> severalLinesLiteral <|> literalString)

/-- Digits of a base, in groups that underscores separate. -/
def grouped (base : Nat) : Reader (List Char) := do
  let first ← Reader.takeSome (isDigitIn base)
  let more ← Reader.many (do Reader.char '_'; Reader.takeSome (isDigitIn base))
  return first ++ more.flatten

def sign : Reader Bool := do
  let s ← Reader.optional (Reader.satisfy fun c => c == '+' || c == '-')
  return s == some '-'

def decimalDigits : Reader (Bool × List Char) := do
  let negative ← sign
  match ← Reader.peek with
  | some '0' => do
    Reader.char '0'
    return (negative, ['0'])
  | _ => do
    let ds ← grouped 10
    return (negative, ds)

def inRange (n : Int) : Reader Int := if -Int.pow 2 63 ≤ n && n < Int.pow 2 63 then pure n else failure

def based (mark : String) (base : Nat) : Reader Int := do
  Reader.word mark
  inRange (ofDigits base (← grouped base))

def integer : Reader Int :=
  based "0x" 16 <|> based "0o" 8 <|> based "0b" 2 <|> do
    let (negative, ds) ← decimalDigits
    let n : Int := ofDigits 10 ds
    inRange (if negative then -n else n)

def exponent : Reader Int := do
  let _ ← Reader.satisfy fun c => c == 'e' || c == 'E'
  let negative ← sign
  let n : Int := ofDigits 10 (← grouped 10)
  return if negative then -n else n

/-- A number with a fraction or an exponent, rounded to the nearest binary64 number. A number too
far below zero has no JSON value, and one too far above is refused. -/
def float : Reader Json := do
  let (negative, whole) ← decimalDigits
  let fraction ← Reader.optional (do Reader.char '.'; grouped 10)
  let power ← Reader.optional exponent
  if fraction.isNone && power.isNone then failure
  let places := (fraction.getD []).length
  match scientific? (ofDigits 10 (whole ++ fraction.getD [])) (power.getD 0 - places), negative with
  | some x, false => return .number (.float x)
  | some x, true => return .number (.float x.neg)
  | none, true => return .null
  | none, false => failure
where
  /-- Very large exponents are cut off where the result no longer depends on them. -/
  scientific? (n : Nat) (e : Int) : Option Binary64 :=
    let width : Int := (Nat.toDigits 10 n).length
    if n = 0 || e + width < -400 then Binary64.ofNat? 0
    else if 400 < e + width then none
    else Binary64.ofScientific? n e

def notFinite : Reader Json := do
  let _ ← sign
  Reader.word "inf" <|> Reader.word "nan"
  return .null

def boolean : Reader Bool :=
  (do Reader.word "true"; return true) <|> (do Reader.word "false"; return false)

end Toml
end AccessRules
