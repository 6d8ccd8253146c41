import TextTemplate.Chain
import TextTemplate.Expr.Eval

/-! # Rendering

  The text that a chain of templates gives with some variables.  A sequence is
  rendered node by node; a conditional takes its first true branch, a loop its
  body once per item, a block the body that the chain finds for its name.

  A block's body comes from elsewhere in the chain, so nothing in its form
  bounds how deep sequences are nested while they are rendered.  A limit does:
  at most so many sequences are rendered inside each other.
-/

namespace TextTemplate

namespace Render

/-- Why rendering fails as a whole. -/
inductive Fault where
  /-- A whole number has too many digits to be read or written. -/
  | tooManyDigits
  /-- A host object raised an exception of this class, which is no error or came up where an error
      was reported. -/
  | host (className : String)
  /-- Sequences are nested too deep. -/
  | tooDeep
  deriving Repr, DecidableEq

/-- What rendering reports. -/
inductive Remark where
  /-- An expression gave `undefined`. -/
  | expression (remark : Expr.Remark)
  /-- A loop's source has no items. -/
  | notIterable (kind : Kind) (source : String)
  /-- A node of no kind. -/
  | bareNode
  deriving Repr, DecidableEq

/-- The text of a remark. -/
def Remark.message : Remark → String
  | .expression remark => remark.message
  | .notIterable kind source =>
    "Loop over non-iterable " ++ kind.name ++ " in '" ++ source ++ "' skipped"
  | .bareNode => "No renderer for node type: TemplateNode"

/-- Is the remark a warning? -/
def Remark.isWarning : Remark → Bool
  | .bareNode => true
  | _ => false

/-- Rendered text, with what was reported on the way. -/
structure Output where
  text : String
  remarks : List Remark

namespace Output

def empty : Output := ⟨"", []⟩

/-- One output after the other. -/
def append (a b : Output) : Output := ⟨a.text ++ b.text, a.remarks ++ b.remarks⟩

instance : Append Output := ⟨append⟩

end Output

/-! ### Expressions -/

/-- The value of an expression, and an output without text that holds the remark about it. -/
def evaluate (scope : Scope) (expr : String) : Except Fault (Value × Output) :=
  match Expr.evaluate scope expr with
  | .error .tooManyDigits => .error .tooManyDigits
  | .error (.host className) => .error (.host className)
  | .ok (v, remark?) => .ok (v, ⟨"", (remark?.map .expression).toList⟩)

/-- Is the expression true?  The output holds the remark about it. -/
def test (scope : Scope) (expr : String) : Except Fault (Bool × Output) := do
  let (v, noted) ← evaluate scope expr
  match v.truth with
  | .ok holds => return (holds, noted)
  | .error e => throw (.host e.className)

/-- The output of a tag that writes a value. -/
def outputTag (scope : Scope) (expr : String) : Except Fault Output := do
  let (v, noted) ← evaluate scope expr
  match v.display with
  | .ok text => return noted ++ ⟨text, []⟩
  | .error .tooManyDigits => throw .tooManyDigits

/-- A body that is rendered if an expression is true, and whether it is. -/
def condition (scope : Scope) (expr : String) (body : Except Fault Output) :
    Except Fault (Output × Bool) := do
  let (holds, noted) ← test scope expr
  if holds then return (noted ++ (← body), true) else return (noted, false)

/-! ### Sequences -/

/-- Renders a sequence in a scope. -/
abbrev Renderer := Scope → List Markup.Node → Except Fault Output

/-- The body of a loop once for each item. -/
def loopBody (inner : Renderer) (scope : Scope) (name : String) (body : List Markup.Node) :
    List Value → Except Fault Output
  | [] => .ok .empty
  | item :: rest => do
    let first ← inner (scope.extend [(name, item)]) body
    return first ++ (← loopBody inner scope name body rest)

/-- A loop over a value that is not missing, behind some output.  If the value has no items, this is
    noted instead. -/
def loopOver (inner : Renderer) (scope : Scope) (name source : String) (body : List Markup.Node)
    (noted : Output) (v : Value) : Except Fault Output := do
  match v.items? with
  | none => return noted ++ ⟨"", [.notIterable v.kind source]⟩
  | some items => return noted ++ (← loopBody inner scope name body items)

/-- A loop over the items of its source, if it has any. -/
def loop (inner : Renderer) (scope : Scope) (name source : String) (body : List Markup.Node) :
    Except Fault Output := do
  let (v, noted) ← evaluate scope source
  match v with
  | .undefined | .null => return noted
  | v => loopOver inner scope name source body noted v

/-- One node, and whether the conditional that it may belong to has taken a branch.  `taken` says
    so of the branches before it. -/
def node (chain : Chain) (inner : Renderer) (scope : Scope) (taken : Bool) :
    Markup.Node → Except Fault (Output × Bool)
  | .text s => .ok (⟨s, []⟩, taken)
  | .output expr => do return (← outputTag scope expr, taken)
  | .branch .first condition? body => condition scope (condition?.getD "") (inner scope body)
  | .branch .next condition? body =>
    if taken then .ok (.empty, true)
    else condition scope (condition?.getD "") (inner scope body)
  | .branch .otherwise _ body =>
    if taken then .ok (.empty, true) else do return (← inner scope body, true)
  | .loop name source body => do return (← loop inner scope name source body, taken)
  | .block name _ =>
    match chain.findBlock? name with
    | none => .ok (.empty, taken)
    | some body => do return (← inner scope body, taken)
  | .bare => .ok (⟨"", [.bareNode]⟩, taken)

/-- The nodes of a sequence, one after the other. -/
def nodes (chain : Chain) (inner : Renderer) (scope : Scope) (taken : Bool) :
    List Markup.Node → Except Fault Output
  | [] => .ok .empty
  | n :: rest => do
    let (first, taken) ← node chain inner scope taken n
    return first ++ (← nodes chain inner scope taken rest)

/-- A sequence, with at most `limit` sequences inside each other, itself included. -/
def sequence (chain : Chain) : (limit : Nat) → Renderer
  | 0, _, _ => .error .tooDeep
  | limit + 1, scope, s => nodes chain (sequence chain limit) scope false s

end Render

namespace Chain

/-- How many sequences may be rendered inside each other. -/
def maxSequences : Nat := 900

/-- The text of the chain's most derived template with some variables. -/
def render (c : Chain) (bindings : List (String × Value)) : Except Render.Fault Render.Output :=
  Render.sequence c maxSequences (.ofPairs bindings) c.root

end Chain

end TextTemplate
