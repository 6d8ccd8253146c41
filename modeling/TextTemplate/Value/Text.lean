import TextTemplate.Value.Basic
import TextTemplate.Text.Quoted

/-! # Values as text

  Two forms.  `literal` is the exact form that messages and expressions show:
  texts are quoted and every part is written out.  `display` is the form that a
  template puts into its output: nothing for a missing value, no fraction for a
  double that is a whole number, list items joined by commas.

  Both fail only on a whole number of too many digits.  Where a message has to show
  a value, there is a bound on how deep it may be nested as well (`literalWithin`).
-/

namespace TextTemplate

namespace Value

mutual

/-- The exact form of a value. -/
def literal : Value → Except TooManyDigits String
  | .undefined => .ok "UNDEFINED"
  | .null => .ok "None"
  | .bool b => .ok (if b then "True" else "False")
  | .int n => Numeral.write n
  | .float x => .ok (Binary64.text x)
  | .string s => .ok (Text.quote s)
  | .list items => do return "[" ++ ", ".intercalate (← literals items) ++ "]"
  | .tuple items => do
    match ← literals items with
    | [only] => return "(" ++ only ++ ",)"
    | several => return "(" ++ ", ".intercalate several ++ ")"
  | .mapping entries => do
    return "\x7b" ++ ", ".intercalate (← entryLiterals entries) ++ "\x7d"
  | .object o => .ok o.exact

/-- The exact forms of several values. -/
def literals : List Value → Except TooManyDigits (List String)
  | [] => .ok []
  | item :: rest => do
    let first ← literal item
    return first :: (← literals rest)

/-- The exact forms of a mapping's entries. -/
def entryLiterals : List (Value × Value) → Except TooManyDigits (List String)
  | [] => .ok []
  | (key, value) :: rest => do
    let first := (← literal key) ++ ": " ++ (← literal value)
    return first :: (← entryLiterals rest)

end

/-! ### In a message -/

/-- Why a message cannot show a value. -/
inductive ShowFault where
  | tooManyDigits
  | tooDeep
  deriving Repr, DecidableEq

/-- How deep a value may be nested that a message shows. -/
def maxShown : Nat := 990

/-- How many levels are left inside a value. -/
def enter : (levels : Nat) → Except ShowFault Nat
  | 0 => .error .tooDeep
  | levels + 1 => .ok levels

mutual

/-- The exact form of a value that is nested in so many levels at most. -/
def literalWithin (levels : Nat) : Value → Except ShowFault String
  | .list items => do
    let inside ← enter levels
    return "[" ++ ", ".intercalate (← literalsWithin inside items) ++ "]"
  | .tuple items => do
    let inside ← enter levels
    match ← literalsWithin inside items with
    | [only] => return "(" ++ only ++ ",)"
    | several => return "(" ++ ", ".intercalate several ++ ")"
  | .mapping entries => do
    let inside ← enter levels
    return "\x7b" ++ ", ".intercalate (← entryLiteralsWithin inside entries) ++ "\x7d"
  | v => v.literal.mapError fun _ => .tooManyDigits

/-- The exact forms of several such values. -/
def literalsWithin (levels : Nat) : List Value → Except ShowFault (List String)
  | [] => .ok []
  | item :: rest => do
    let first ← literalWithin levels item
    return first :: (← literalsWithin levels rest)

/-- The exact forms of a mapping's entries with such keys and values. -/
def entryLiteralsWithin (levels : Nat) : List (Value × Value) → Except ShowFault (List String)
  | [] => .ok []
  | (key, value) :: rest => do
    let first := (← literalWithin levels key) ++ ": " ++ (← literalWithin levels value)
    return first :: (← entryLiteralsWithin levels rest)

end

/-! ### In the output of a template -/

mutual

/-- The form of a value in the output of a template. -/
def display : Value → Except TooManyDigits String
  | .undefined | .null => .ok ""
  | .bool b => .ok (if b then "true" else "false")
  | .int n => Numeral.write n
  | .float x => match Number.wholeFloat? x with
    | some n => Numeral.write n
    | none => .ok (Binary64.text x)
  | .string s => .ok s
  | .list items | .tuple items => do return ",".intercalate (← displays items)
  | .mapping entries => literal (.mapping entries)
  | .object o => .ok o.text

/-- The output forms of several values. -/
def displays : List Value → Except TooManyDigits (List String)
  | [] => .ok []
  | item :: rest => do
    let first ← display item
    return first :: (← displays rest)

end

end Value

end TextTemplate
