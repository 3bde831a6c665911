import AccessRules.Decimal.Binary64
import AccessRules.Text.Digits

/-! The text of a binary64 number: the fewest decimal digits that read back as the number, the
nearest ones where several do, and their layout as a positional or an exponent text. -/
namespace AccessRules
namespace Binary64

structure Decimal where
  digits : Nat
  exponent : Int
deriving DecidableEq, Repr

/-- All comparisons are made after multiplication by this power of ten, which makes every decimal
of up to seventeen digits near a binary64 number a natural number. -/
def decimalShift : Nat := 400

/-- The greatest `e` with `10 ^ e ≤ halves / 2 ^ 1075`, for a positive magnitude counted in halves
of the unit. -/
def floorLog10 (halves : Nat) : Int :=
  ((Nat.toDigits 10 (halves * Nat.pow 10 decimalShift / Nat.pow 2 1075)).length : Int) - 1 - decimalShift

/-- Whether a decimal, given in shifted halves of the unit, rounds to the magnitude of a rank. The
ends of the interval round to the even rank. -/
def roundsTo (rank shifted : Nat) : Bool :=
  let low := (units (rank - 1) + units rank) * Nat.pow 10 decimalShift
  let high := (units rank + units (rank + 1)) * Nat.pow 10 decimalShift
  if rank % 2 = 0 then low ≤ shifted && shifted ≤ high else low < shifted && shifted < high

/-- The decimal with exponent `e` nearest to a magnitude among its two neighbours, if one of them
rounds to it; an even last digit breaks a tie. -/
def nearest? (rank : Nat) (e : Int) : Option Decimal :=
  let value := 2 * units rank * Nat.pow 10 decimalShift
  let step := Nat.pow 10 (e + decimalShift).toNat * Nat.pow 2 1075
  let below := value / step
  let above := below + 1
  let gap := value % step
  match roundsTo rank (below * step), roundsTo rank (above * step) with
  | false, false => none
  | true, false => some ⟨below, e⟩
  | false, true => some ⟨above, e⟩
  | true, true =>
    if 2 * gap < step || (2 * gap = step && below % 2 = 0) then some ⟨below, e⟩
    else some ⟨above, e⟩

def shortestFrom (rank : Nat) (lead : Int) : Nat → Nat → Decimal
  | 0, _ => ⟨0, 0⟩
  | more + 1, digits =>
    match nearest? rank (lead - digits) with
    | some d => d
    | none => shortestFrom rank lead more (digits + 1)

/-- The shortest decimal that rounds to a positive magnitude. Seventeen digits always suffice. -/
def shortest (rank : Nat) : Decimal := shortestFrom rank (floorLog10 (2 * units rank)) 17 0

structure Layout where
  positionalFrom : Int
  positionalBelow : Int
  upMark : String
  downMark : String

/-- Numbers from `10 ^ (-5)` to below `10 ^ 16` are positional and show a fraction; the exponents of
others carry a sign. -/
def layout : Layout := ⟨-5, 16, "e+", "e-"⟩

/-- Puts a decimal point after `n` of the digits, and at least one digit on either side of it. -/
def positional (ds : List Char) (n : Int) : String :=
  match n with
  | .ofNat (k + 1) =>
    let whole := ds.take (k + 1) ++ List.replicate (k + 1 - ds.length) '0'
    let fraction := ds.drop (k + 1)
    String.ofList whole ++ "." ++ (if fraction.isEmpty then "0" else String.ofList fraction)
  | .ofNat 0 => "0." ++ String.ofList ds
  | .negSucc k => "0." ++ String.ofList (List.replicate (k + 1) '0' ++ ds)

def scientific (l : Layout) (ds : List Char) (lead : Int) : String :=
  let mantissa :=
    match ds with
    | d :: rest@(_ :: _) => String.ofList (d :: '.' :: rest)
    | _ => String.ofList ds
  match lead with
  | .ofNat e => mantissa ++ l.upMark ++ Text.decimal e
  | .negSucc e => mantissa ++ l.downMark ++ Text.decimal (e + 1)

def magnitudeText (l : Layout) (rank : Nat) : String :=
  if rank = 0 then "0.0"
  else
    let d := shortest rank
    let all := Nat.toDigits 10 d.digits
    let lead : Int := d.exponent + all.length - 1
    let ds := (all.reverse.dropWhile (· == '0')).reverse
    if l.positionalFrom ≤ lead && lead < l.positionalBelow then positional ds (lead + 1)
    else scientific l ds lead

def text (x : Binary64) : String :=
  (if x.negative then "-" else "") ++ magnitudeText layout x.rank

end Binary64
end AccessRules
