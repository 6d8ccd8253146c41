import TextTemplate.Text.DecimalDigit

/-! # Whole numbers as text

  Whole numbers have any size, but are read and written only up to
  `maxDigits` decimal digits, so that a template cannot ask for the text of a
  number that it would take very long to convert.
-/

namespace TextTemplate

/-- The only way in which reading or writing a whole number fails. -/
inductive TooManyDigits where
  /-- The numeral has more than `Numeral.maxDigits` digits. -/
  | tooManyDigits
  deriving Repr, DecidableEq

namespace Numeral

/-- The longest numeral that is read or written. -/
def maxDigits : Nat := 4300

/-- The decimal text of a whole number. -/
def write (n : Int) : Except TooManyDigits String :=
  if (Nat.repr n.natAbs).length ≤ maxDigits then
    .ok (if n < 0 then "-" ++ Nat.repr n.natAbs else Nat.repr n.natAbs)
  else .error .tooManyDigits

/-- The whole number that a row of decimal digits writes; zeros in front count as digits. -/
def read (digits : List Char) : Except TooManyDigits Int :=
  if digits.length ≤ maxDigits then .ok (Text.numeralValue digits) else .error .tooManyDigits

end Numeral

end TextTemplate
