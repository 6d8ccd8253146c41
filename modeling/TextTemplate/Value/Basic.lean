import TextTemplate.Value.Host

/-! # Values

  What the variables of a template hold and what its expressions give.

  Besides plain data there are host objects, which the program that renders a
  template hands in.  `undefined` is the value of everything that is missing or
  went wrong.
-/

namespace TextTemplate

/-- A value. -/
inductive Value where
  /-- What is missing or went wrong. -/
  | undefined
  | null
  | bool (b : Bool)
  | int (n : Int)
  | float (x : Float)
  | string (s : String)
  | list (items : List Value)
  /-- A list that cannot be extended. -/
  | tuple (items : List Value)
  /-- Entries in the order of their first insertion; the keys differ from each other. -/
  | mapping (entries : List (Value × Value))
  | object (o : HostObject Value)

instance : Inhabited Value := ⟨.undefined⟩

/-- The kinds of values, as messages name them. -/
inductive Kind where
  | undefined | null | bool | int | float | string | list | tuple | mapping
  /-- Host objects of a class. -/
  | object (className : String)
  deriving Repr, DecidableEq

/-- The name of a kind. -/
def Kind.name : Kind → String
  | .undefined => "_Undefined"
  | .null => "NoneType"
  | .bool => "bool"
  | .int => "int"
  | .float => "float"
  | .string => "str"
  | .list => "list"
  | .tuple => "tuple"
  | .mapping => "dict"
  | .object className => className

namespace Value

/-- The kind of a value. -/
def kind : Value → Kind
  | .undefined => .undefined
  | .null => .null
  | .bool _ => .bool
  | .int _ => .int
  | .float _ => .float
  | .string _ => .string
  | .list _ => .list
  | .tuple _ => .tuple
  | .mapping _ => .mapping
  | .object o => .object o.className

/-- Is the value `undefined`? -/
def isUndefined : Value → Bool
  | .undefined => true
  | _ => false

/-- The number that a value is; booleans are no numbers. -/
def number? : Value → Option Number
  | .int n => some (.int n)
  | .float x => some (.float x)
  | _ => none

/-- A number as a value. -/
def ofNumber : Number → Value
  | .int n => .int n
  | .float x => .float x

/-- The value's truth.  Empty things, zeros, `null` and `undefined` are false; a host object is true
    unless it says that it is false. -/
def isTruthy : Value → Bool
  | .undefined | .null => false
  | .bool b => b
  | .int n => n != 0
  | .float x => !(x == 0)
  | .string s => !s.isEmpty
  | .list items | .tuple items => !items.isEmpty
  | .mapping entries => !entries.isEmpty
  | .object o => o.truth != .falsy

/-- What a condition raises that asks for the value's truth: an error is taken for true, but not
    every exception is an error. -/
def interrupt? : Value → Option HostError
  | .object o => match o.truth with
    | .fails e => if e.isInterrupt then some e else none
    | _ => none
  | _ => none

/-- Does a condition take the value for true? -/
def truth (v : Value) : Except HostError Bool :=
  match v.interrupt? with
  | some e => .error e
  | none => .ok v.isTruthy

/-- The number of items of a value that has a length. -/
def length? : Value → Option (Except HostError Nat)
  | .string s => some (.ok s.length)
  | .list items | .tuple items => some (.ok items.length)
  | .mapping entries => some (.ok entries.length)
  | .object o => o.length?
  | _ => none

/-- The items of a value whose places are counted. -/
def places? : Value → Option (List Value)
  | .string s => some (s.toList.map fun c => .string (String.singleton c))
  | .list items | .tuple items => some items
  | _ => none

/-- What a loop over the value runs through: items, characters, keys. -/
def items? : Value → Option (List Value)
  | .mapping entries => some (entries.map (·.1))
  | .object o => o.items?
  | v => v.places?

end Value

end TextTemplate
