import TextTemplate.Value.Text

/-! # Expressions

  The expressions of tags and directives, and their text.  The text puts one
  space around an operator between two operands and adds no brackets, since
  brackets of the source are kept as groups.

  Each class of operators has a member `other`: an operator that the language
  does not have.  Reading never gives one; trees built by hand may hold them.
-/

namespace TextTemplate

/-- Operators in front of an operand. -/
inductive UnaryOp where
  | not | neg
  | other (text : String)
  deriving Repr, DecidableEq

/-- Operators between two operands that are both needed. -/
inductive BinaryOp where
  | add | sub | mul | div | mod | eq | ne | lt | le | gt | ge
  | other (text : String)
  deriving Repr, DecidableEq

/-- Operators whose left operand may decide. -/
inductive LogicalOp where
  | and | or
  | other (text : String)
  deriving Repr, DecidableEq

/-- An expression. -/
inductive Expr where
  /-- A fixed value. -/
  | literal (v : Value)
  /-- The value of a variable. -/
  | name (n : String)
  /-- A list of items: `[a, b]`. -/
  | list (items : List Expr)
  /-- A property: `target.name`. -/
  | property (target : Expr) (name : String)
  /-- An item by its place or key: `target[key]`. -/
  | index (target key : Expr)
  | unary (op : UnaryOp) (operand : Expr)
  | binary (left : Expr) (op : BinaryOp) (right : Expr)
  | logical (left : Expr) (op : LogicalOp) (right : Expr)
  /-- An expression in brackets: `(inner)`. -/
  | group (inner : Expr)

instance : Inhabited Expr := ⟨.literal .null⟩

/-! ### Operators as text -/

def UnaryOp.text : UnaryOp → String
  | .not => "!"
  | .neg => "-"
  | .other text => text

def BinaryOp.text : BinaryOp → String
  | .add => "+"
  | .sub => "-"
  | .mul => "*"
  | .div => "/"
  | .mod => "%"
  | .eq => "=="
  | .ne => "!="
  | .lt => "<"
  | .le => "<="
  | .gt => ">"
  | .ge => ">="
  | .other text => text

def LogicalOp.text : LogicalOp → String
  | .and => "&&"
  | .or => "||"
  | .other text => text

/-- The operator with a text. -/
def UnaryOp.ofText (text : String) : UnaryOp :=
  if text = "!" then .not else if text = "-" then .neg else .other text

/-- The operator with a text. -/
def BinaryOp.ofText (text : String) : BinaryOp :=
  ([.add, .sub, .mul, .div, .mod, .eq, .ne, .lt, .le, .gt, .ge].find? (·.text == text)).getD
    (.other text)

/-- The operator with a text. -/
def LogicalOp.ofText (text : String) : LogicalOp :=
  if text = "&&" then .and else if text = "||" then .or else .other text

namespace Expr

/-! ### Expressions as text -/

/-- The text of a fixed value: its exact form, but with the language's own keywords. -/
def literalText : Value → Except TooManyDigits String
  | .null => .ok "null"
  | .bool b => .ok (if b then "true" else "false")
  | v => v.literal

mutual

/-- The text of an expression. -/
def text : Expr → Except TooManyDigits String
  | .literal v => literalText v
  | .name n => .ok n
  | .list items => do return "[" ++ ", ".intercalate (← texts items) ++ "]"
  | .property target key => do return (← text target) ++ "." ++ key
  | .index target key => do
    let target ← text target
    return target ++ "[" ++ (← text key) ++ "]"
  | .unary op operand => do return op.text ++ (← text operand)
  | .binary left op right => do
    let left ← text left
    return left ++ " " ++ op.text ++ " " ++ (← text right)
  | .logical left op right => do
    let left ← text left
    return left ++ " " ++ op.text ++ " " ++ (← text right)
  | .group inner => do return "(" ++ (← text inner) ++ ")"

/-- The texts of several expressions. -/
def texts : List Expr → Except TooManyDigits (List String)
  | [] => .ok []
  | item :: rest => do
    let first ← text item
    return first :: (← texts rest)

end

/-! ### Depth -/

mutual

/-- How many operations, lists and groups are nested in each other. -/
def depth : Expr → Nat
  | .literal _ | .name _ => 0
  | .list items => depths items + 1
  | .property target _ => depth target + 1
  | .index target key => max (depth target) (depth key) + 1
  | .unary _ operand => depth operand + 1
  | .binary left _ right => max (depth left) (depth right) + 1
  | .logical left _ right => max (depth left) (depth right) + 1
  | .group inner => depth inner + 1

/-- The greatest depth among several expressions. -/
def depths : List Expr → Nat
  | [] => 0
  | item :: rest => max (depth item) (depths rest)

end

end Expr

end TextTemplate
