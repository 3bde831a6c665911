/-! Digits and the natural numbers they spell. -/
namespace AccessRules
namespace Text

/-- The value of a digit in a base up to sixteen; letters of either case count from ten. -/
def digitValue? (base : Nat) (c : Char) : Option Nat :=
  let value :=
    if c.isDigit then some (c.toNat - '0'.toNat)
    else if 'a' ≤ c && c ≤ 'f' then some (c.toNat - 'a'.toNat + 10)
    else if 'A' ≤ c && c ≤ 'F' then some (c.toNat - 'A'.toNat + 10)
    else none
  value.filter (· < base)

def isDigitIn (base : Nat) (c : Char) : Bool := (digitValue? base c).isSome

def ofDigits (base : Nat) (cs : List Char) : Nat :=
  (cs.filterMap (digitValue? base)).foldl (fun n d => n * base + d) 0

def word64? (digits : List Char) : Option Nat :=
  if digits.isEmpty || !digits.all Char.isDigit then none
  else
    let n := ofDigits 10 digits
    if n < Nat.pow 2 64 then some n else none

/-- A count of at most 64 bits, with or without a plus sign. -/
def count? (text : String) : Option Nat :=
  match text.toList with
  | '+' :: digits => word64? digits
  | digits => word64? digits

def decimal (n : Nat) : String := String.ofList (Nat.toDigits 10 n)

def hexadecimal (n : Nat) : String := String.ofList (Nat.toDigits 16 n)

def padded (width n : Nat) : String :=
  let ds := Nat.toDigits 10 n
  String.ofList (List.replicate (width - ds.length) '0' ++ ds)

def signed : Int → String
  | .ofNat n => decimal n
  | .negSucc n => "-" ++ decimal (n + 1)

/-- The character with a code, unless the code is a surrogate or too large. -/
def scalar? (n : Nat) : Option Char :=
  if h : n.isValidChar then some (Char.ofNatAux n h) else none

end Text
end AccessRules
