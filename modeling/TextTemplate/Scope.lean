import TextTemplate.Pairs
import TextTemplate.Value.Equality
import TextTemplate.Value.Text

/-! # Scopes

  The variables that an expression can see.  A scope holds bindings of its own
  and stands inside another scope or outermost; a name means its innermost
  binding, and `undefined` if it has none.
-/

namespace TextTemplate

/-- Names with their values, each name once, in the order of their first binding. -/
structure Bindings where
  entries : List (String × Value)

namespace Bindings

/-- The bindings that the pairs make, one after the other. -/
def ofPairs (pairs : List (String × Value)) : Bindings := ⟨pairs.foldl Pairs.put []⟩

/-- The value of a bound name. -/
def find? (b : Bindings) (name : String) : Option Value :=
  (b.entries.find? (·.1 == name)).map (·.2)

/-- The bindings as a mapping value. -/
def toValue (b : Bindings) : Value :=
  .mapping (b.entries.map fun e => (.string e.1, e.2))

end Bindings

/-- A chain of bindings, innermost first. -/
inductive Scope where
  | outermost (own : Bindings)
  | inside (own : Bindings) (outer : Scope)

namespace Scope

/-- The outermost scope that the pairs make. -/
def ofPairs (pairs : List (String × Value)) : Scope := .outermost (.ofPairs pairs)

/-- A scope inside this one, with bindings of its own. -/
def extend (s : Scope) (pairs : List (String × Value)) : Scope := .inside (.ofPairs pairs) s

/-- The scope's own bindings. -/
def own : Scope → Bindings
  | .outermost own | .inside own _ => own

/-- The innermost binding of a name. -/
def find? : Scope → String → Option Value
  | .outermost own, name => own.find? name
  | .inside own outer, name => (own.find? name).or (outer.find? name)

/-- The value of a name; `undefined` if it is bound nowhere. -/
def lookup (s : Scope) (name : String) : Value := (s.find? name).getD .undefined

/-- Does the name have a value other than `undefined`? -/
def contains (s : Scope) (name : String) : Bool := !(s.lookup name).isUndefined

/-- The exact form of a scope, with the scopes around it. -/
def literal : Scope → Except TooManyDigits String
  | .outermost own => do
    return "VariableScope(" ++ (← own.toValue.literal) ++ ", parent=None)"
  | .inside own outer => do
    return "VariableScope(" ++ (← own.toValue.literal) ++ ", parent=" ++ (← outer.literal) ++ ")"

end Scope

end TextTemplate
