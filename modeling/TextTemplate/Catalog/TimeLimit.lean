import TextTemplate.Number.Arithmetic

/-! # Time limits

  How long a text may take to arrive from a store.  Clocks count nanoseconds; a
  limit that is given in seconds is rounded to the nearest one.
-/

namespace TextTemplate

/-- How long something is waited for. -/
inductive Patience where
  /-- It is given up before it starts. -/
  | none
  | nanoseconds (n : Nat)
  | unbounded
  deriving Repr, DecidableEq

/-- A time limit, and its number of seconds as messages show it. -/
structure TimeLimit where
  text : String
  patience : Patience
  deriving Repr, DecidableEq

namespace TimeLimit

/-- A fraction of seconds in nanoseconds, rounded, a half up. -/
def nanoseconds (num den : Nat) : Nat := (num * pow10 9 * 2 + den) / (2 * den)

/-- How long a number of seconds lets wait.  A double that is no number sets a limit that is
    reached at once. -/
def patienceOf : Number → Patience
  | .int n => if n ≤ 0 then .none else .nanoseconds (nanoseconds n.toNat 1)
  | .float x =>
    if x.isNaN then .nanoseconds 0
    else if x ≤ 0 then .none
    else if x.isInf then .unbounded
    else
      let (num, den) := (Binary64.ofFloat x).ratio
      .nanoseconds (nanoseconds num den)

/-- The limit of a number of seconds. -/
def ofSeconds (seconds : Number) : Except TooManyDigits TimeLimit := do
  return ⟨← seconds.text, patienceOf seconds⟩

end TimeLimit

end TextTemplate
