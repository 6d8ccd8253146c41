import TextTemplate.Value.Basic

/-! # Equality and mappings

  Two values are the same if they are of one kind and have the same parts,
  except that numbers and booleans are compared by their numeric value, with
  `true` as one and `false` as zero.  A host object answers for itself, and if
  the answer is an exception, so is that of the comparison.

  Parts of lists, tuples and mappings are not compared if they are one and the
  same thing.  So a list with something in it that is not the same as itself,
  such as the double that is no number, is the same as itself nevertheless.  All
  such doubles count as one thing.

  Mappings find a key in this way, so `1`, `1.0` and `true` are one key.  They look
  at a key's hash before they compare it, and nothing but the key itself has the
  hash of a host object that cannot be compared.
-/

namespace TextTemplate

/-- Why a value cannot be a key. -/
inductive KeyFault where
  /-- A value of this kind is or stands in the key. -/
  | unfit (kind : Kind)
  /-- A host object has no hash. -/
  | host (e : HostError)
  deriving Repr, DecidableEq

namespace Value

/-- The number that equality sees in a value; booleans are ones and zeros. -/
def quantity? : Value → Option Number
  | .bool b => some (.int (if b then 1 else 0))
  | .int n => some (.int n)
  | .float x => some (.float x)
  | .object o => match o.equality with
    | .worth n => some n
    | _ => none
  | _ => none

/-- Are the two values one thing, whether or not it is the same as itself? -/
def identical : Value → Value → Bool
  | .float x, .float y => x.isNaN && y.isNaN
  | .object o, .object o' => o.identity == o'.identity
  | _, _ => false

/-- What a value raises when it is compared. -/
def incomparable? : Value → Option HostError
  | .object o => match o.equality with
    | .fails e => some e
    | _ => none
  | _ => none

/-- Are two values without parts the same?  Numbers are compared if both have one. -/
def sameScalar : Value → Value → Bool
  | .undefined, .undefined | .null, .null => true
  | .string a, .string b => a == b
  | a, b => match a.quantity?, b.quantity? with
    | some m, some n => m.same n
    | _, _ => identical a b

/-- The same, where host objects may refuse to answer; the first value is asked before the
    second. -/
def compareScalar (a b : Value) : Except HostError Bool :=
  match a.incomparable?, b.incomparable? with
  | some e, _ | none, some e => .error e
  | none, none => .ok (sameScalar a b)

/-! ### Keys -/

mutual

/-- Are the two values one key? -/
def sameKey : Value → Value → Bool
  | .tuple a, .tuple b => sameKeys a b
  | a, b => identical a b || sameScalar a b

/-- Are the values the same keys, one by one? -/
def sameKeys : List Value → List Value → Bool
  | [], [] => true
  | a :: as, b :: bs => sameKey a b && sameKeys as bs
  | _, _ => false

end

mutual

/-- Why the value cannot be a key: it is a list or a mapping, or an object without a hash, or it is
    a tuple that holds one. -/
def keyFault? : Value → Option KeyFault
  | .list _ => some (.unfit .list)
  | .mapping _ => some (.unfit .mapping)
  | .tuple items => firstKeyFault? items
  | .object o => o.hashFailure?.map .host
  | _ => none

/-- Why not all of the values can be keys; the first one that cannot counts. -/
def firstKeyFault? : List Value → Option KeyFault
  | [] => none
  | item :: rest => (keyFault? item).or (firstKeyFault? rest)

end

/-! ### Mappings -/

/-- The value that the entries hold under a key. -/
def find? (entries : List (Value × Value)) (key : Value) : Option Value :=
  (entries.find? fun entry => sameKey key entry.1).map (·.2)

/-- The entries with a value under a key: in its old place if there is one, else at the end. -/
def insert (entries : List (Value × Value)) (key value : Value) : List (Value × Value) :=
  if entries.any fun entry => sameKey key entry.1 then
    entries.map fun entry => if sameKey key entry.1 then (entry.1, value) else entry
  else entries ++ [(key, value)]

/-- The mapping that the pairs build, one after the other. -/
def mappingOf (pairs : List (Value × Value)) : Value :=
  .mapping (pairs.foldl (fun entries pair => insert entries pair.1 pair.2) [])

/-! ### Equality -/

mutual

/-- Are the two values the same? -/
def same : Value → Value → Except HostError Bool
  | .list a, .list b => if a.length == b.length then sameItems a b else .ok false
  | .tuple a, .tuple b => sameItems a b
  | .mapping a, .mapping b => if a.length == b.length then sameEntries a b else .ok false
  | a, b => compareScalar a b

/-- Are the items the same, one by one? -/
def sameItems : List Value → List Value → Except HostError Bool
  | [], [] => .ok true
  | a :: as, b :: bs => do
    let first ← (if identical a b then .ok true else same a b)
    if first then sameItems as bs else return false
  | _, _ => .ok false

/-- Does the second list hold every entry of the first? -/
def sameEntries : List (Value × Value) → List (Value × Value) → Except HostError Bool
  | [], _ => .ok true
  | (key, value) :: rest, other =>
    match other.find? fun entry => sameKey key entry.1 with
    | none => .ok false
    | some entry => do
      let first ← (if identical value entry.2 then .ok true else same value entry.2)
      if first then sameEntries rest other else return false

end

end Value

end TextTemplate
