import TextTemplate.Expr.Evaluator
import TextTemplate.Render

/-! # Rendering with an evaluator

  One evaluator serves all expressions of a template, and of the templates that
  are rendered after it.  Rendering goes the same way as without one; what the
  evaluator knows is kept also where rendering fails.
-/

namespace TextTemplate

open Render

/-- Renders with an evaluator. -/
abbrev Rendering (α : Type) := ExceptT Fault (StateM Expr.Evaluator) α

namespace Rendering

/-- Starts with an evaluator, and gives what has become of it. -/
def run {α : Type} (x : Rendering α) (evaluator : Expr.Evaluator) :
    Except Fault α × Expr.Evaluator :=
  x evaluator

/-! ### Expressions -/

/-- The value of an expression, and an output without text that holds the remark about it. -/
def evaluate (scope : Scope) (expr : String) : Rendering (Value × Output) := fun evaluator =>
  match evaluator.evaluate scope expr with
  | (.error .tooManyDigits, after) => (.error .tooManyDigits, after)
  | (.error (.host className), after) => (.error (.host className), after)
  | (.ok (v, remark?), after) => (.ok (v, ⟨"", (remark?.map .expression).toList⟩), after)

/-- The output of a tag that writes a value. -/
def outputTag (scope : Scope) (expr : String) : Rendering Output := do
  let (v, noted) ← evaluate scope expr
  match v.display with
  | .ok text => return noted ++ ⟨text, []⟩
  | .error .tooManyDigits => throw .tooManyDigits

/-- Is the expression true?  The output holds the remark about it. -/
def test (scope : Scope) (expr : String) : Rendering (Bool × Output) := do
  let (v, noted) ← evaluate scope expr
  match v.truth with
  | .ok holds => return (holds, noted)
  | .error e => throw (.host e.className)

/-- A body that is rendered if an expression is true, and whether it is. -/
def condition (scope : Scope) (expr : String) (body : Rendering Output) :
    Rendering (Output × Bool) := do
  let (holds, noted) ← test scope expr
  if holds then return (noted ++ (← body), true) else return (noted, false)

/-! ### Sequences -/

/-- Renders a sequence in a scope. -/
abbrev Renderer := Scope → List Markup.Node → Rendering Output

/-- The body of a loop once for each item. -/
def loopBody (inner : Renderer) (scope : Scope) (name : String) (body : List Markup.Node) :
    List Value → Rendering Output
  | [] => return .empty
  | item :: rest => do
    let first ← inner (scope.extend [(name, item)]) body
    return first ++ (← loopBody inner scope name body rest)

/-- A loop over a value that is not missing, behind some output.  If the value has no items, this is
    noted instead. -/
def loopOver (inner : Renderer) (scope : Scope) (name source : String) (body : List Markup.Node)
    (noted : Output) (v : Value) : Rendering Output := do
  match v.items? with
  | none => return noted ++ ⟨"", [.notIterable v.kind source]⟩
  | some items => return noted ++ (← loopBody inner scope name body items)

/-- A loop over the items of its source, if it has any. -/
def loop (inner : Renderer) (scope : Scope) (name source : String) (body : List Markup.Node) :
    Rendering Output := do
  let (v, noted) ← evaluate scope source
  match v with
  | .undefined | .null => return noted
  | v => loopOver inner scope name source body noted v

/-- One node, and whether the conditional that it may belong to has taken a branch.  `taken` says
    so of the branches before it. -/
def node (chain : Chain) (inner : Renderer) (scope : Scope) (taken : Bool) :
    Markup.Node → Rendering (Output × Bool)
  | .text s => return (⟨s, []⟩, taken)
  | .output expr => return (← outputTag scope expr, taken)
  | .branch .first condition? body => condition scope (condition?.getD "") (inner scope body)
  | .branch .next condition? body =>
    if taken then return (.empty, true)
    else condition scope (condition?.getD "") (inner scope body)
  | .branch .otherwise _ body =>
    if taken then return (.empty, true) else return (← inner scope body, true)
  | .loop name source body => return (← loop inner scope name source body, taken)
  | .block name _ =>
    match chain.findBlock? name with
    | none => return (.empty, taken)
    | some body => return (← inner scope body, taken)
  | .bare => return (⟨"", [.bareNode]⟩, taken)

/-- The nodes of a sequence, one after the other. -/
def nodes (chain : Chain) (inner : Renderer) (scope : Scope) (taken : Bool) :
    List Markup.Node → Rendering Output
  | [] => return .empty
  | n :: rest => do
    let (first, taken) ← node chain inner scope taken n
    return first ++ (← nodes chain inner scope taken rest)

/-- A sequence, with at most `limit` sequences inside each other, itself included. -/
def sequence (chain : Chain) : (limit : Nat) → Renderer
  | 0, _, _ => throw .tooDeep
  | limit + 1, scope, s => nodes chain (sequence chain limit) scope false s

end Rendering

/-- Renders the chain's most derived template with some variables. -/
def Expr.Evaluator.render (evaluator : Evaluator) (c : Chain) (bindings : List (String × Value)) :
    Except Fault Output × Evaluator :=
  (Rendering.sequence c Chain.maxSequences (.ofPairs bindings) c.root).run evaluator

end TextTemplate
