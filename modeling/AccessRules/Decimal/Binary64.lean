/-! Finite binary64 numbers. The magnitudes are counted upwards from zero, so a number is a sign
and the rank of its magnitude; arithmetic is exact on fractions of naturals and then rounded to the
nearest magnitude, a tie going to the even rank. -/
namespace AccessRules

/-- How many finite magnitudes there are: 2047 binades of `2 ^ 52` each. -/
def Binary64.count : Nat := 2047 * Nat.pow 2 52

/-- A finite binary64 number; zero has either sign. -/
structure Binary64 where
  negative : Bool
  rank : Fin Binary64.count
deriving DecidableEq, Repr

namespace Binary64

/-- The magnitude of a rank in units of `2 ^ (-1074)`. The first two binades are evenly spaced by
one unit, and each later one doubles the spacing. -/
def units (rank : Nat) : Nat :=
  let binade := rank / Nat.pow 2 52
  if binade = 0 then rank else (Nat.pow 2 52 + rank % Nat.pow 2 52) * Nat.pow 2 (binade - 1)

def nearestEven (num den : Nat) : Nat :=
  let q := num / den
  let r := num % den
  if 2 * r < den then q else if den < 2 * r then q + 1 else q + q % 2

/-- `num / den * 2 ^ e` as a fraction. -/
def scale (num den : Nat) : Int → Nat × Nat
  | .ofNat e => (num * Nat.pow 2 e, den)
  | .negSucc e => (num, den * Nat.pow 2 (e + 1))

/-- The greatest `e` with `2 ^ e ≤ num / den`. -/
def floorLog2 (num den : Nat) : Int :=
  let guess : Int := (num.log2 : Int) - (den.log2 : Int)
  let (n, d) := scale num den (-guess)
  if d ≤ n then guess else guess - 1

def ofRank? (rank : Nat) : Option Binary64 :=
  if h : rank < count then some ⟨false, rank, h⟩ else none

/-- The magnitude nearest to `num / den`, or nothing where that overflows. A significand that is
rounded up to the next binade carries into the rank by itself. -/
def ofRatio? (num den : Nat) : Option Binary64 :=
  if num = 0 then ofRank? 0
  else
    let e := max (floorLog2 num den - 52) (-1074)
    let (n, d) := scale num den (-e)
    ofRank? ((e + 1074).toNat * Nat.pow 2 52 + nearestEven n d)

def ofNat? (n : Nat) : Option Binary64 := ofRatio? n 1

def ofScientific? (n : Nat) : Int → Option Binary64
  | .ofNat e => ofRatio? (n * Nat.pow 10 e) 1
  | .negSucc e => ofRatio? n (Nat.pow 10 (e + 1))

def neg (x : Binary64) : Binary64 := { x with negative := !x.negative }

def mul? (x y : Binary64) : Option Binary64 :=
  ofRatio? (units x.rank * units y.rank) (Nat.pow 2 2148)

def div? (x y : Binary64) : Option Binary64 := ofRatio? (units x.rank) (units y.rank)

def isZero (x : Binary64) : Bool := x.rank.val == 0

def isIntegral (x : Binary64) : Bool := units x.rank % Nat.pow 2 1074 == 0

/-- Equality of the numbers meant: the two zeros are one. -/
def sameValue (x y : Binary64) : Bool := x == y || (x.isZero && y.isZero)

def toInt (x : Binary64) : Int :=
  let n : Int := units x.rank / Nat.pow 2 1074
  if x.negative then -n else n

end Binary64
end AccessRules
