import TextTemplate.Number.Numeral
import TextTemplate.Number.Shortest

/-! # Arithmetic on numbers

  A number is a whole number of any size or a double.  Two whole numbers give a
  whole number, except in a division; as soon as one operand is a double, the
  other is converted to one.  Comparisons convert nothing and are exact.
-/

namespace TextTemplate

/-- A whole number or a double. -/
inductive Number where
  | int (n : Int)
  | float (x : Float)

/-- Why an operation on two numbers has no result. -/
inductive ArithmeticFault where
  | divisionByZero
  | moduloByZero
  /-- A whole number is beyond the largest double and has to become one. -/
  | noSuchDouble
  /-- The quotient of two whole numbers is beyond the largest double. -/
  | quotientTooLarge
  deriving Repr, DecidableEq

namespace Number

/-- The number as a double. -/
def toFloat : Number → Except ArithmeticFault Float
  | .float x => .ok x
  | .int n => match Binary64.ofInt? n with
    | some x => .ok x
    | none => .error .noSuchDouble

/-- An operation on two doubles, applied to numbers of which one is a double. -/
def onFloats (f : Float → Float → Float) (a b : Number) : Except ArithmeticFault Number := do
  let x ← a.toFloat
  let y ← b.toFloat
  return .float (f x y)

def add : Number → Number → Except ArithmeticFault Number
  | .int a, .int b => .ok (.int (a + b))
  | a, b => onFloats (· + ·) a b

def sub : Number → Number → Except ArithmeticFault Number
  | .int a, .int b => .ok (.int (a - b))
  | a, b => onFloats (· - ·) a b

def mul : Number → Number → Except ArithmeticFault Number
  | .int a, .int b => .ok (.int (a * b))
  | a, b => onFloats (· * ·) a b

def neg : Number → Number
  | .int n => .int (-n)
  | .float x => .float (-x)

/-- Is the number zero, of either sign? -/
def isZero : Number → Bool
  | .int n => n == 0
  | .float x => x == 0

/-- The quotient, always a double; that of two whole numbers is rounded once. -/
def div (a b : Number) : Except ArithmeticFault Number :=
  if b.isZero then .error .divisionByZero
  else match a, b with
    | .int m, .int n =>
      match Binary64.nearest? ((m < 0) != (n < 0)) m.natAbs n.natAbs with
      | some x => .ok (.float x)
      | none => .error .quotientTooLarge
    | a, b => onFloats (· / ·) a b

/-- The remainder of the division that rounds down, so with the divisor's sign. -/
def mod (a b : Number) : Except ArithmeticFault Number :=
  if b.isZero then .error .moduloByZero
  else match a, b with
    | .int m, .int n => .ok (.int (m.fmod n))
    | a, b => onFloats Binary64.floorRemainder a b

/-- The exact order of two numbers, if both are numbers at all. -/
def compare? : Number → Number → Option Ordering
  | .int a, .int b => some (compare a b)
  | .int a, .float y => Binary64.compareInt? a y
  | .float x, .int b => (Binary64.compareInt? b x).map Ordering.swap
  | .float x, .float y => Binary64.compare? x y

/-- Are the two numbers equal? -/
def same (a b : Number) : Bool := compare? a b == some .eq

/-- The text of a number. -/
def text : Number → Except TooManyDigits String
  | .int n => Numeral.write n
  | .float x => .ok (Binary64.text x)

/-- The whole number that a double is, if it is one. -/
def wholeFloat? (x : Float) : Option Int :=
  if x.isNaN || x.isInf then none else (Binary64.ofFloat x).whole?

end Number

end TextTemplate
