import TextTemplate.Number.Binary64
import TextTemplate.Number.Numeral
import TextTemplate.Value.Basic

/-! # Words in data files

  What is written without quotes: numbers and three names.  A number with a
  fraction or a power of ten is a double, any other a whole number; no number
  has a zero in front of other digits.
-/

namespace TextTemplate.Data.Word

/-- Is the character a digit of a number? -/
def isDigit (c : Char) : Bool := '0' ≤ c && c ≤ '9'

/-- The digits at the front of a text, and what follows them. -/
def digits (s : List Char) : List Char × List Char :=
  let found := s.takeWhile isDigit
  (found, s.drop found.length)

/-- The digits of the fraction at the front of a text, if it has one, and what follows it. -/
def fraction (s : List Char) : Option (List Char) × List Char :=
  match s with
  | '.' :: rest =>
    let (found, after) := digits rest
    if found.isEmpty then (none, s) else (some found, after)
  | _ => (none, s)

/-- A text without the sign at its front, and whether that is a minus. -/
def unsigned : List Char → Bool × List Char
  | '-' :: rest => (true, rest)
  | '+' :: rest => (false, rest)
  | s => (false, s)

/-- The power of ten at the front of a text, if it has one, and what follows it. -/
def exponent (s : List Char) : Option Int × List Char :=
  match s with
  | e :: rest =>
    let (negative, more) := unsigned rest
    let (found, after) := digits more
    let n : Int := Text.numeralValue found
    if (e = 'e' ∨ e = 'E') ∧ found ≠ [] then (some (if negative then -n else n), after)
    else (none, s)
  | [] => (none, s)

/-- The number that a text without a sign writes. -/
def number? (negative : Bool) (s : List Char) : Option (Except TooManyDigits Value) :=
  let (whole, rest) := digits s
  let (fraction?, rest) := fraction rest
  let (exponent?, rest) := exponent rest
  if whole.isEmpty ∨ (whole.head? = some '0' ∧ whole.length > 1) ∨ rest ≠ [] then none
  else if fraction?.isNone ∧ exponent?.isNone then
    some ((Numeral.read whole).map fun n => .int (if negative then -n else n))
  else
    let places := fraction?.getD []
    some (.ok (.float (Binary64.ofDecimal negative (Text.numeralValue (whole ++ places))
      (exponent?.getD 0 - places.length))))

/-- The value of a word, if it has one. -/
def value? (word : List Char) : Option (Except TooManyDigits Value) :=
  match word with
  | ['n', 'u', 'l', 'l'] => some (.ok .null)
  | ['t', 'r', 'u', 'e'] => some (.ok (.bool true))
  | ['f', 'a', 'l', 's', 'e'] => some (.ok (.bool false))
  | '-' :: rest => number? true rest
  | _ => number? false word

end TextTemplate.Data.Word
