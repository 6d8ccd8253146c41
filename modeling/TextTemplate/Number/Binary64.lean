/-! # Binary floating point, exactly

  A finite double-precision number is `± significand * 2 ^ exponent`.  This
  module takes a number apart, finds the double nearest to any fraction, and
  builds on the two: remainders, whole numbers and comparisons are computed in
  exact integer arithmetic and rounded once.
-/

namespace TextTemplate

/-- A power of two. -/
def pow2 (n : Nat) : Nat := Nat.pow 2 n

/-- A power of ten. -/
def pow10 (n : Nat) : Nat := Nat.pow 10 n

/-- The magnitude `significand * 2 ^ exponent` of a finite number, with its sign. -/
structure Binary64 where
  /-- Is the sign bit set? -/
  negative : Bool
  significand : Nat
  exponent : Int
  /-- Is the gap to the next smaller magnitude half the gap to the next larger one? -/
  narrowBelow : Bool
  deriving Repr, DecidableEq

namespace Binary64

/-! ### Taking a number apart -/

/-- The parts of a finite number, read off its bits. -/
def ofFloat (x : Float) : Binary64 :=
  let bits : Nat := x.toBits.toNat
  let fraction : Nat := bits % pow2 52
  let biased : Nat := bits / pow2 52 % pow2 11
  let negative := bits / pow2 63 == 1
  if biased = 0 then ⟨negative, fraction, -1074, false⟩
  else ⟨negative, pow2 52 + fraction, (biased : Int) - 1075, fraction == 0 && biased > 1⟩

/-- The magnitude as a fraction: numerator and denominator. -/
def ratio (b : Binary64) : Nat × Nat :=
  (b.significand * pow2 b.exponent.toNat, pow2 (-b.exponent).toNat)

/-- The whole number that the magnitude is, if it is one. -/
def whole? (b : Binary64) : Option Int :=
  let (num, den) := b.ratio
  if num % den = 0 then
    some (if b.negative then -((num / den : Nat) : Int) else ((num / den : Nat) : Int))
  else none

/-! ### The nearest double -/

/-- The quotient rounded to the nearest whole number, a half to the even one. -/
def roundHalfEven (num den : Nat) : Nat :=
  let q := num / den
  let r := num % den
  if 2 * r < den ∨ (2 * r = den ∧ q % 2 = 0) then q else q + 1

/-- An exponent under which `num / den` has a significand of 53 bits, or the least exponent. -/
def scaleFor (num den : Nat) : Int :=
  let guess : Int := (Nat.log2 num : Int) - (Nat.log2 den : Int) - 52
  let fits := num * pow2 (-guess).toNat < pow2 52 * (den * pow2 guess.toNat)
  max (-1074) (if fits then guess - 1 else guess)

/-- The double nearest to `num / den`, ties to even; `none` if it is beyond the largest one. -/
def nearest? (negative : Bool) (num den : Nat) : Option Float :=
  let sign : Nat := if negative then pow2 63 else 0
  if num = 0 then some (Float.ofBits (UInt64.ofNat sign))
  else
    let e := scaleFor num den
    let m := roundHalfEven (num * pow2 (-e).toNat) (den * pow2 e.toNat)
    -- A significand that rounds up to the next power of two carries into the exponent field.
    let bits := if m < pow2 52 then m else (e + 1075).toNat * pow2 52 + (m - pow2 52)
    if bits < 2047 * pow2 52 then some (Float.ofBits (UInt64.ofNat (sign + bits))) else none

/-- Infinity, with a sign. -/
def infinity (negative : Bool) : Float :=
  Float.ofBits (if negative then 0xFFF0000000000000 else 0x7FF0000000000000)

/-- The double nearest to `num / den`, or infinity beyond the largest one. -/
def nearest (negative : Bool) (num den : Nat) : Float :=
  (nearest? negative num den).getD (infinity negative)

/-- The double nearest to `digits * 10 ^ exponent`, or infinity beyond the largest one. -/
def ofDecimal (negative : Bool) (digits : Nat) (exponent : Int) : Float :=
  nearest negative (digits * pow10 exponent.toNat) (pow10 (-exponent).toNat)

/-- The double nearest to a whole number; `none` if it is beyond the largest one. -/
def ofInt? (n : Int) : Option Float := nearest? (n < 0) n.natAbs 1

/-! ### Remainder and order -/

/-- Is the sign bit set? -/
def signBit (x : Float) : Bool := x.toBits ≥ 0x8000000000000000

/-- The remainder of two finite magnitudes, with the sign of the first. -/
def truncatedRemainder (a b : Binary64) : Float :=
  let e := min a.exponent b.exponent
  let num := a.significand * pow2 (a.exponent - e).toNat
  let den := b.significand * pow2 (b.exponent - e).toNat
  let r := num % den
  nearest a.negative (r * pow2 e.toNat) (pow2 (-e).toNat)

/-- The remainder of a division that rounds down: it has the divisor's sign, zero included. -/
def floorRemainder (x y : Float) : Float :=
  if x.isNaN || y.isNaN || x.isInf || y == 0 then 0.0 / 0.0
  else
    let r := if y.isInf then x else truncatedRemainder (ofFloat x) (ofFloat y)
    if r == 0 then Float.ofBits (if signBit y then 0x8000000000000000 else 0)
    else if signBit r == signBit y then r
    else r + y

/-- Order of a whole number and a double, exactly; nothing compares with a double that is no
    number. -/
def compareInt? (n : Int) (x : Float) : Option Ordering :=
  if x.isNaN then none
  else if x.isInf then some (if signBit x then .gt else .lt)
  else
    let b := ofFloat x
    let (num, den) := b.ratio
    some (compare (n * den) (if b.negative then -(num : Int) else num))

/-- Order of two doubles; nothing compares with a double that is no number. -/
def compare? (x y : Float) : Option Ordering :=
  if x.isNaN || y.isNaN then none
  else some (if x < y then .lt else if x == y then .eq else .gt)

end Binary64

end TextTemplate
