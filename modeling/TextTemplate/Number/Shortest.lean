import TextTemplate.Number.Binary64

/-! # Doubles as text

  A finite double is written with the fewest decimal digits that read back to
  it, and among those with the digits nearest to it.  Numbers whose first digit
  stands between the fourth place after the point and the sixteenth before it
  are written positionally, the others with a signed exponent of two digits or
  more.

  The digits are found on decimal grids of growing precision: on each grid the
  two neighbours of the number are tried, in exact integer arithmetic.
-/

namespace TextTemplate

/-- The decimal number `digits * 10 ^ exponent`. -/
structure Decimal where
  digits : Nat
  exponent : Int
  deriving Repr, DecidableEq

namespace Decimal

/-- Order of `a * 10 ^ i` and `n * 2 ^ j`, exactly. -/
def compareScaled (a : Nat) (i : Int) (n : Nat) (j : Int) : Ordering :=
  compare (a * pow10 i.toNat * pow2 (-j).toNat) (n * pow2 j.toNat * pow10 (-i).toNat)

/-- Does the decimal lie among the reals whose nearest double is `b`?  The two ends of that
    interval belong to it if the significand of `b` is even. -/
def readsBack (b : Binary64) (d : Decimal) : Bool :=
  let low := if b.narrowBelow then 4 * b.significand - 1 else 4 * b.significand - 2
  let high := 4 * b.significand + 2
  let closed := b.significand % 2 == 0
  let atLow := compareScaled d.digits d.exponent low (b.exponent - 2)
  let atHigh := compareScaled d.digits d.exponent high (b.exponent - 2)
  (atLow == .gt || (closed && atLow == .eq)) && (atHigh == .lt || (closed && atHigh == .eq))

/-! ### The digits -/

/-- The least `k` with `b < 10 ^ k`, found by counting up from a lower bound. -/
def magnitude (b : Binary64) : Int :=
  let start : Int := ((Nat.log2 b.significand : Int) + b.exponent) * 3 / 10 - 3
  let above (i : Nat) : Bool := compareScaled 1 (start + i) b.significand b.exponent == .gt
  start + ((List.range 12).findIdx above : Nat)

/-- The neighbour of `b` on the grid of step `10 ^ exponent` that reads back to it, if there is
    one; of two the nearer, and between two equally near the even one. -/
def onGrid? (b : Binary64) (exponent : Int) : Option Decimal :=
  let (num, den) := b.ratio
  let below := num * pow10 (-exponent).toNat / (den * pow10 exponent.toNat)
  let lower : Decimal := ⟨below, exponent⟩
  let upper : Decimal := ⟨below + 1, exponent⟩
  match readsBack b lower, readsBack b upper with
  | true, false => some lower
  | false, true => some upper
  | false, false => none
  | true, true =>
    -- Twice the number against the sum of its neighbours.
    match compareScaled (2 * below + 1) exponent (2 * b.significand) b.exponent with
    | .gt => some lower
    | .lt => some upper
    | .eq => some (if below % 2 = 0 then lower else upper)

/-- The fewest digits that read back to the magnitude of a number that is not zero.  Seventeen
    digits always suffice. -/
def shortest (b : Binary64) : Decimal :=
  let k := magnitude b
  ((List.range 17).findSome? fun (n : Nat) => onGrid? b (k - 1 - n)).getD
    ⟨b.significand * pow10 1074, -1074⟩

/-- Decimal digits without the zeros at their end, and how many zeros were dropped. -/
def stripZeros (digits : List Char) : List Char × Nat :=
  let kept := (digits.reverse.dropWhile (· == '0')).reverse
  (kept, digits.length - kept.length)

/-! ### Layout -/

/-- The first digit's place from which numbers are written with an exponent. -/
def positionalBelow : Int := 16

/-- The lowest place of a first digit that is still written positionally. -/
def positionalFrom : Int := -4

/-- At least two digits for an exponent's magnitude. -/
def exponentText (e : Int) : String :=
  (if e < 0 then "e-" else "e+") ++ (if e.natAbs < 10 then "0" else "") ++ Nat.repr e.natAbs

/-- Digits without zeros at their end, laid out; `place` is the power of ten of the first digit. -/
def layout (digits : List Char) (place : Int) : String :=
  if positionalFrom ≤ place ∧ place < positionalBelow then
    if place < 0 then
      "0." ++ String.ofList (List.replicate (-place - 1).toNat '0' ++ digits)
    else
      let before := place.toNat + 1
      let padded := digits ++ List.replicate (before + 1 - digits.length) '0'
      String.ofList (padded.take before) ++ "." ++ String.ofList (padded.drop before)
  else
    match digits with
    | [] => "0"
    | d :: [] => String.ofList [d] ++ exponentText place
    | d :: rest => String.ofList (d :: '.' :: rest) ++ exponentText place

/-- The text of a magnitude that is not zero. -/
def text (d : Decimal) : String :=
  let all := (Nat.repr d.digits).toList
  let (digits, dropped) := stripZeros all
  layout digits (d.exponent + dropped + digits.length - 1)

end Decimal

namespace Binary64

/-- The text of a double. -/
def text (x : Float) : String :=
  if x.isNaN then "nan"
  else
    let sign := if signBit x then "-" else ""
    if x.isInf then sign ++ "inf"
    else
      let b := ofFloat x
      if b.significand = 0 then sign ++ "0.0" else sign ++ (Decimal.shortest b).text

end Binary64

end TextTemplate
