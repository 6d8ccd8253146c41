import TextTemplate.Expr.Read
import TextTemplate.Scope
import TextTemplate.Value.Property

/-! # Evaluating expressions

  The value of an expression in a scope.  `Expr.eval` gives a value or the
  reason why there is none; `Expr.evaluate` is what templates use: there a
  failure is the value `undefined`, so that one bad tag does not spoil the text
  around it.  The failure is reported, so an exception of a host object is asked
  for its text.  What that raises is a failure no more, and neither is an
  exception that is no error.

  Operands are evaluated from left to right and the first failure wins.  The
  right operand of a logical operator is not touched if the left one decides.
-/

namespace TextTemplate

/-- Why an expression has no value. -/
inductive EvalFault where
  /-- An operand of an addition is `undefined`. -/
  | undefinedOperand
  | notAddable (left right : Kind)
  | notNumbers (left right : Kind)
  | notComparable (left right : Kind)
  | notNegatable (operand : Kind)
  /-- The key, in its exact form, is no place in the target. -/
  | notIndexable (target : Kind) (key : String)
  | noKey (fault : KeyFault)
  | arithmetic (fault : ArithmeticFault)
  | property (fault : PropertyFault)
  /-- A host object raised an exception while it was compared, or asked for its truth. -/
  | host (e : HostError)
  | unknownOperator (text : String)
  /-- A whole number has too many digits to be written. -/
  | tooManyDigits
  /-- Operations are nested too deep. -/
  | tooDeep
  deriving Repr, DecidableEq

namespace EvalFault

/-- What a message says about the fault. -/
def message : EvalFault → String
  | .undefinedOperand => "Operand of '+' is undefined"
  | .notAddable left right => "Unsupported operands for '+': " ++ left.name ++ " and " ++ right.name
  | .notNumbers left right =>
    "Arithmetic expects numbers, got " ++ left.name ++ " and " ++ right.name
  | .notComparable left right => "Cannot compare " ++ left.name ++ " and " ++ right.name
  | .notNegatable operand => "Unary '-' expects a number, got " ++ operand.name
  | .notIndexable target key => "Cannot index " ++ target.name ++ " with " ++ key
  | .noKey (.unfit kind) => "unhashable type: '" ++ kind.name ++ "'"
  | .arithmetic .divisionByZero => "Division by zero"
  | .arithmetic .moduloByZero => "Modulo by zero"
  | .arithmetic .noSuchDouble => "int too large to convert to float"
  | .arithmetic .quotientTooLarge => "integer division result too large for a float"
  | .property (.isPrivate n) => "Access to private attribute '" ++ n ++ "' is not allowed"
  | .property (.isCallable n) => "Access to callable attribute '" ++ n ++ "' is not allowed"
  | .property (.hostFailed e) | .noKey (.host e) | .host e => e.shown
  | .unknownOperator text => "Unknown operator: " ++ text
  | .tooManyDigits => "Exceeds the limit (4300 digits) for integer string conversion"
  | .tooDeep => "maximum recursion depth exceeded"

/-- The class of a fault that is not the language's own: one of the values or the machine. -/
def foreignClass? : EvalFault → Option String
  | .noKey (.unfit _) => some "TypeError"
  | .arithmetic .noSuchDouble | .arithmetic .quotientTooLarge => some "OverflowError"
  | .property (.hostFailed e) | .noKey (.host e) | .host e => some e.className
  | .tooManyDigits => some "ValueError"
  | .tooDeep => some "RecursionError"
  | _ => none

/-- The exception of a host object that the fault is. -/
def host? : EvalFault → Option HostError
  | .property (.hostFailed e) | .noKey (.host e) | .host e => some e
  | _ => none

end EvalFault

/-! ### Operations on values -/

namespace Value

/-- A value's output form, inside an evaluation. -/
def displayed (v : Value) : Except EvalFault String :=
  v.display.mapError fun _ => .tooManyDigits

/-- A number as the result of an evaluation. -/
def arithmeticResult : Except ArithmeticFault Number → Except EvalFault Value
  | .ok n => .ok (ofNumber n)
  | .error fault => .error (.arithmetic fault)

/-- The sum of two numbers; with a text on one side, the two output forms one after the other;
    two lists one after the other. -/
def add (a b : Value) : Except EvalFault Value :=
  if a.isUndefined || b.isUndefined then .error .undefinedOperand
  else match a.number?, b.number? with
    | some m, some n => arithmeticResult (m.add n)
    | _, _ => match a, b with
      | .string _, _ | _, .string _ => do
        let left ← a.displayed
        return .string (left ++ (← b.displayed))
      | .list xs, .list ys => .ok (.list (xs ++ ys))
      | _, _ => .error (.notAddable a.kind b.kind)

/-- An operation that two numbers are needed for. -/
def onNumbers (f : Number → Number → Except ArithmeticFault Number) (a b : Value) :
    Except EvalFault Value :=
  match a.number?, b.number? with
  | some m, some n => arithmeticResult (f m n)
  | _, _ => .error (.notNumbers a.kind b.kind)

/-- Whether the order of two numbers or two texts is one of those wanted; texts are ordered by
    code point. -/
def ordered (wanted : Ordering → Bool) (a b : Value) : Except EvalFault Value :=
  match a, b with
  | .string s, .string t => .ok (.bool (wanted (compare s t)))
  | _, _ => match a.number?, b.number? with
    | some m, some n => .ok (.bool ((m.compare? n).any wanted))
    | _, _ => .error (.notComparable a.kind b.kind)

/-- Whether two values are the same, inside an evaluation. -/
def compared (a b : Value) : Except EvalFault Bool := (same a b).mapError .host

/-- A value's truth, inside an evaluation. -/
def asked (v : Value) : Except EvalFault Bool := v.truth.mapError .host

/-- The operation of an operator between two values. -/
def binary (op : BinaryOp) (a b : Value) : Except EvalFault Value :=
  match op with
  | .add => a.add b
  | .sub => onNumbers Number.sub a b
  | .mul => onNumbers Number.mul a b
  | .div => onNumbers Number.div a b
  | .mod => onNumbers Number.mod a b
  | .eq => do return .bool (← compared a b)
  | .ne => do return .bool (!(← compared a b))
  | .lt => ordered (·.isLT) a b
  | .le => ordered (·.isLE) a b
  | .gt => ordered (·.isGT) a b
  | .ge => ordered (·.isGE) a b
  | .other text => .error (.unknownOperator text)

/-- The negative of a number. -/
def negated (v : Value) : Except EvalFault Value :=
  match v.number? with
  | some n => .ok (ofNumber n.neg)
  | none => .error (.notNegatable v.kind)

/-- The operation of an operator in front of a value: `!` negates its truth, every other operator
    its number. -/
def unary (op : UnaryOp) (v : Value) : Except EvalFault Value :=
  match op with
  | .not => do return .bool (!(← v.asked))
  | _ => v.negated

/-- Does the left operand of a logical operator decide?  A false one decides an `&&`, a true one
    every other operator. -/
def decides (op : LogicalOp) (v : Value) : Except EvalFault Bool := do
  let holds ← v.asked
  return match op with
    | .and => !holds
    | _ => holds

/-- The place that a key names: a whole number, as such or as a double. -/
def place? : Value → Option Int
  | .int n => some n
  | .float x => Number.wholeFloat? x
  | _ => none

/-- Reads a property, inside an evaluation. -/
def propertyValue (target : Value) (name : String) : Except EvalFault Value :=
  (target.property name).mapError .property

/-- The fault of asking a value of this kind for a place that it has not.  It shows the key. -/
def noPlace (kind : Kind) : Except TooManyDigits String → EvalFault
  | .ok key => .notIndexable kind key
  | .error _ => .tooManyDigits

/-- The item of a list, tuple or text at the place that a key names. -/
def itemAt (target key : Value) : Except EvalFault Value :=
  match target.places?, key.place? with
  | some items, some n =>
    .ok (if 0 ≤ n then (items[n.toNat]?).getD .undefined else .undefined)
  | _, place => .error (noPlace target.kind (place.elim key.literal Numeral.write))

/-- What a key gives for a value that is no mapping: a text names a property, and every other key a
    place. -/
def propertyOrItem (target key : Value) : Except EvalFault Value :=
  match key with
  | .string name => target.propertyValue name
  | _ => target.itemAt key

/-- The item of a list, tuple or text at a place counted from zero, the entry of a mapping under a
    key, or the property that a text names. -/
def indexValue (target key : Value) : Except EvalFault Value :=
  match target with
  | .undefined | .null => .ok .undefined
  | .mapping entries =>
    match key.keyFault? with
    | none => .ok ((find? entries key).getD .undefined)
    | some fault => .error (.noKey fault)
  | _ => target.propertyOrItem key

end Value

/-! ### Evaluation -/

namespace Expr

mutual

/-- The value of an expression in which at most `depth` operations are nested. -/
def eval (scope : Scope) : (depth : Nat) → Expr → Except EvalFault Value
  | _, .literal v => .ok v
  | _, .name n => .ok (scope.lookup n)
  | 0, _ => .error .tooDeep
  | depth + 1, .group inner => eval scope depth inner
  | depth + 1, .list items => do return .list (← evalAll scope depth items)
  | depth + 1, .property target n => do
    let target ← eval scope depth target
    target.propertyValue n
  | depth + 1, .index target key => do
    let target ← eval scope depth target
    let key ← eval scope depth key
    target.indexValue key
  | depth + 1, .unary op operand => do
    let operand ← eval scope depth operand
    operand.unary op
  | depth + 1, .logical left op right => do
    let left ← eval scope depth left
    if ← left.decides op then return left else eval scope depth right
  | depth + 1, .binary left op right => do
    let left ← eval scope depth left
    let right ← eval scope depth right
    Value.binary op left right

/-- The values of several expressions. -/
def evalAll (scope : Scope) : (depth : Nat) → List Expr → Except EvalFault (List Value)
  | _, [] => .ok []
  | depth, item :: rest => do
    let first ← eval scope depth item
    return first :: (← evalAll scope depth rest)

end

/-- How many operations may be nested in an evaluation. -/
def maxDepth : Nat := 480

/-- What an evaluation that gave `undefined` reports. -/
inductive Remark where
  /-- The text is no expression. -/
  | malformed (text : String) (fault : ReadFault)
  /-- The expression has no value. -/
  | noValue (text : String) (fault : EvalFault)
  deriving Repr, DecidableEq

/-- The text of a remark. -/
def Remark.message : Remark → String
  | .malformed text fault => "Malformed expression '" ++ text ++ "': " ++ fault.message
  | .noValue text fault => match fault.foreignClass? with
    | none => "Expression '" ++ text ++ "' evaluated to UNDEFINED: " ++ fault.message
    | some failure => "Expression '" ++ text ++ "' failed with " ++ failure ++ ": " ++ fault.message

/-- What goes on when the value of a text is asked for, where other failures are `undefined`. -/
inductive Escape where
  /-- The text holds a whole number with too many digits. -/
  | tooManyDigits
  /-- An exception of this class that comes from a host object. -/
  | host (className : String)
  deriving Repr, DecidableEq

/-- What becomes of the outcome of an evaluation: a failure is `undefined`, with a remark, unless it
    is no error or cannot be reported. -/
def settle (text : String) : Except EvalFault Value → Except Escape (Value × Option Remark)
  | .ok v => .ok (v, none)
  | .error fault => match fault.host?.bind (·.escape?) with
    | some className => .error (.host className)
    | none => .ok (.undefined, some (.noValue text fault))

/-- The value of an expression's text: `undefined`, with a remark, if it has none. -/
def evaluate (scope : Scope) (text : String) : Except Escape (Value × Option Remark) :=
  match read text with
  | .error .tooManyDigits => .error .tooManyDigits
  | .error fault => .ok (.undefined, some (.malformed text fault))
  | .ok e => settle text (e.eval scope maxDepth)

end Expr

end TextTemplate
