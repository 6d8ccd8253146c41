import TextTemplate.Proofs.Chain.Branches
import TextTemplate.Proofs.Expr.Remembering
import TextTemplate.Rendering

/-! # What a renderer remembers

  Rendering with an evaluator goes side by side with rendering without one.  Each
  step is related to the step without an evaluator: from every sound evaluator it
  fails in the same way or gives the same, apart from remarks on malformed texts,
  and it leaves a sound evaluator, also where it fails (`Follows`).  The relation is
  kept by one step after another (`Follows.bind`), so it is enough to follow the
  definitions; the induction for sequences is on the limit.

  What a call gives thus depends on the call alone and not on those before it, be
  it the value of an expression or the text of a template (`same_as_fresh`).
-/

namespace TextTemplate

open Render

namespace Render

/-- Is the remark about an expression that is malformed? -/
def Remark.isMalformed : Remark → Bool
  | .expression remark => remark.isMalformed
  | .notIterable _ _ | .bareNode => false

/-- An output without its remarks on malformed expressions. -/
def Output.quiet (o : Output) : Output := ⟨o.text, o.remarks.filter (!·.isMalformed)⟩

theorem Output.quiet_append (a b : Output) : (a ++ b).quiet = a.quiet ++ b.quiet := by
  show (⟨a.text ++ b.text, (a.remarks ++ b.remarks).filter _⟩ : Output)
    = ⟨a.text ++ b.text, a.remarks.filter _ ++ b.remarks.filter _⟩
  rw [List.filter_append]

end Render

namespace Rendering

open TextTemplate.Expr (Evaluator)

variable {α α' β β' : Type} {chain : Chain} {scope : Scope}

/-! ### Side by side -/

theorem run_bind (x : Rendering α) (f : α → Rendering α') (evaluator : Evaluator) :
    (x >>= f).run evaluator = match x.run evaluator with
      | (.ok a, after) => (f a).run after
      | (.error fault, after) => (.error fault, after) := by
  show (match x.run evaluator with
    | (outcome, after) => ExceptT.bindCont f outcome after) = _
  generalize x.run evaluator = made
  obtain ⟨outcome, after⟩ := made
  cases outcome <;> rfl

/-- From every sound evaluator the one comes to what the other comes to without it, as far as the
    view shows, and leaves the evaluator sound. -/
def Follows (view : α → β) (x : Rendering α) (y : Except Fault α) : Prop :=
  ∀ evaluator, evaluator.Sound →
    (x.run evaluator).1.map view = y.map view ∧ (x.run evaluator).2.Sound

theorem Follows.ok {view : α → β} {a b : α} (h : view a = view b) :
    Follows view (pure a) (.ok b) := by
  intro evaluator hsound
  exact ⟨congrArg Except.ok h, hsound⟩

theorem Follows.error (view : α → β) (fault : Fault) :
    Follows view (throw fault) (.error fault) := by
  intro evaluator hsound
  exact ⟨rfl, hsound⟩

/-- What goes on in step from results that look the same is in step. -/
theorem Follows.bind {view : α → β} {view' : α' → β'} {x : Rendering α} {y : Except Fault α}
    {f : α → Rendering α'} {g : α → Except Fault α'} (h : Follows view x y)
    (hnext : ∀ a b, view a = view b → Follows view' (f a) (g b)) :
    Follows view' (x >>= f) (y >>= g) := by
  intro evaluator hsound
  obtain ⟨hmade, hafter⟩ := h evaluator hsound
  rw [run_bind]
  generalize x.run evaluator = made at hmade hafter ⊢
  obtain ⟨outcome, after⟩ := made
  cases outcome with
  | error fault =>
    cases y with
    | error fault' =>
      cases hmade
      exact ⟨rfl, hafter⟩
    | ok b => cases hmade
  | ok a =>
    cases y with
    | error fault' => cases hmade
    | ok b => exact hnext a b (Except.ok.inj hmade) after hafter

/-- Outputs that look the same are followed by outputs that do. -/
theorem Follows.append {a b : Output} (h : a.quiet = b.quiet) {x : Rendering Output}
    {y : Except Fault Output} (hxy : Follows Output.quiet x y) :
    Follows Output.quiet (do return a ++ (← x)) (do return b ++ (← y)) := by
  apply hxy.bind
  intro more more' hmore
  apply Follows.ok
  rw [Output.quiet_append, Output.quiet_append, h, hmore]

/-! ### The steps -/

/-- A value and the output beside it. -/
def quietPair (p : Value × Output) : Value × Output := (p.1, p.2.quiet)

/-- An output and whether a branch is taken. -/
def quietTaken (p : Output × Bool) : Output × Bool := (p.1.quiet, p.2)

/-- The output about an expression holds the remark that is made. -/
theorem quiet_noted (remark? : Option Expr.Remark) :
    Output.quiet ⟨"", (remark?.map .expression).toList⟩
      = ⟨"", ((remark?.filter (!·.isMalformed)).map .expression).toList⟩ := by
  cases remark? with
  | none => rfl
  | some remark => cases remark <;> rfl

/-- A sound evaluator gives an expression the value that it has by itself. -/
theorem evaluate_follows (scope : Scope) (expr : String) :
    Follows quietPair (evaluate scope expr) (Render.evaluate scope expr) := by
  intro evaluator hsound
  obtain ⟨hmade, hafter⟩ := hsound.evaluate scope expr
  unfold run evaluate Render.evaluate
  generalize evaluator.evaluate scope expr = made at hmade hafter ⊢
  obtain ⟨outcome, after⟩ := made
  generalize Expr.evaluate scope expr = alone at hmade ⊢
  cases outcome with
  | error fault =>
    cases alone with
    | error fault' =>
      cases hmade
      cases fault <;> exact ⟨rfl, hafter⟩
    | ok b => cases hmade
  | ok a =>
    cases alone with
    | error fault' => cases hmade
    | ok b =>
      obtain ⟨v, remark?⟩ := a
      obtain ⟨v', remark?'⟩ := b
      obtain ⟨hv, hremark⟩ := Prod.mk.inj (Except.ok.inj hmade)
      obtain rfl : v = v' := hv
      have hkept : remark?.filter (!·.isMalformed) = remark?'.filter (!·.isMalformed) := hremark
      refine ⟨congrArg Except.ok ?_, hafter⟩
      show (v, Output.quiet _) = (v, Output.quiet _)
      rw [quiet_noted, quiet_noted, hkept]

/-- What is done with the value of an expression is in step if it is so for every value. -/
theorem evaluate_bind_follows (scope : Scope) (expr : String) {view : α → β}
    {next : Value × Output → Rendering α} {next' : Value × Output → Except Fault α}
    (hnext : ∀ v noted noted', noted.quiet = noted'.quiet →
      Follows view (next (v, noted)) (next' (v, noted'))) :
    Follows view (evaluate scope expr >>= next) (Render.evaluate scope expr >>= next') := by
  apply (evaluate_follows scope expr).bind
  rintro ⟨v, noted⟩ ⟨v', noted'⟩ hmade
  obtain ⟨hv, hnoted⟩ := Prod.mk.inj hmade
  obtain rfl : v = v' := hv
  exact hnext v noted noted' hnoted

theorem outputTag_follows (scope : Scope) (expr : String) :
    Follows Output.quiet (outputTag scope expr) (Render.outputTag scope expr) := by
  apply evaluate_bind_follows
  intro v noted noted' hnoted
  dsimp only
  cases v.display with
  | error fault => exact .error _ _
  | ok text =>
    apply Follows.ok
    rw [Output.quiet_append, Output.quiet_append, hnoted]

/-- A truth value and the output beside it. -/
def quietTest (p : Bool × Output) : Bool × Output := (p.1, p.2.quiet)

theorem test_follows (scope : Scope) (expr : String) :
    Follows quietTest (test scope expr) (Render.test scope expr) := by
  apply evaluate_bind_follows
  intro v noted noted' hnoted
  dsimp only
  cases v.truth with
  | error e => exact .error _ _
  | ok holds => exact .ok (congrArg (holds, ·) hnoted)

variable {inner : Renderer} {inner' : Render.Renderer}

/-- The renderers are in step on every sequence. -/
def InStep (inner : Renderer) (inner' : Render.Renderer) : Prop :=
  ∀ scope s, Follows Output.quiet (inner scope s) (inner' scope s)

theorem loopBody_follows (hinner : InStep inner inner') (scope : Scope) (name : String)
    (body : List Markup.Node) (items : List Value) :
    Follows Output.quiet (loopBody inner scope name body items)
      (Render.loopBody inner' scope name body items) := by
  induction items with
  | nil => exact .ok rfl
  | cons item rest ih =>
    apply (hinner (scope.extend [(name, item)]) body).bind
    intro first first' hfirst
    exact ih.append hfirst

theorem loopOver_follows (hinner : InStep inner inner') (scope : Scope) (name source : String)
    (body : List Markup.Node) {noted noted' : Output} (hnoted : noted.quiet = noted'.quiet)
    (v : Value) :
    Follows Output.quiet (loopOver inner scope name source body noted v)
      (Render.loopOver inner' scope name source body noted' v) := by
  unfold loopOver Render.loopOver
  cases v.items? with
  | some items => exact (loopBody_follows hinner scope name body items).append hnoted
  | none =>
    apply Follows.ok
    rw [Output.quiet_append, Output.quiet_append, hnoted]

theorem loop_follows (hinner : InStep inner inner') (scope : Scope) (name source : String)
    (body : List Markup.Node) :
    Follows Output.quiet (loop inner scope name source body)
      (Render.loop inner' scope name source body) := by
  apply evaluate_bind_follows
  intro v noted noted' hnoted
  have hitems := loopOver_follows hinner scope name source body hnoted v
  cases v with
  | undefined | null => exact .ok hnoted
  | _ => exact hitems

/-- A condition is true on both sides or on none. -/
theorem condition_follows (hinner : InStep inner inner') (scope : Scope) (expr : String)
    (body : List Markup.Node) :
    Follows quietTaken (condition scope expr (inner scope body))
      (Render.condition scope expr (inner' scope body)) := by
  apply (test_follows scope expr).bind
  rintro ⟨holds, noted⟩ ⟨holds', noted'⟩ hmade
  obtain ⟨hholds, hnoted⟩ := Prod.mk.inj hmade
  obtain rfl : holds = holds' := hholds
  dsimp only at hnoted ⊢
  split
  · apply (hinner scope body).bind
    intro made made' hmade
    apply Follows.ok
    show (Output.quiet _, true) = (Output.quiet _, true)
    rw [Output.quiet_append, Output.quiet_append, hnoted, hmade]
  · apply Follows.ok
    show (Output.quiet _, false) = (Output.quiet _, false)
    rw [hnoted]

/-- A flag beside an output makes no difference. -/
theorem Follows.taking {x : Rendering Output} {y : Except Fault Output}
    (h : Follows Output.quiet x y) (taken : Bool) :
    Follows quietTaken (do return (← x, taken)) (do return (← y, taken)) := by
  apply h.bind
  intro made made' hmade
  apply Follows.ok
  exact congrArg (·, taken) hmade

theorem node_follows (hinner : InStep inner inner') (scope : Scope) (taken : Bool)
    (n : Markup.Node) :
    Follows quietTaken (node chain inner scope taken n)
      (Render.node chain inner' scope taken n) := by
  cases n with
  | text s => exact .ok rfl
  | bare => exact .ok rfl
  | output expr => exact (outputTag_follows scope expr).taking taken
  | loop name source body => exact (loop_follows hinner scope name source body).taking taken
  | block name own =>
    simp only [node, Render.node]
    cases chain.findBlock? name with
    | none => exact .ok rfl
    | some body => exact (hinner scope body).taking taken
  | branch place condition? body =>
    have hcondition := condition_follows hinner scope (condition?.getD "") body
    cases place with
    | first => exact hcondition
    | next =>
      cases taken with
      | true => exact .ok rfl
      | false => exact hcondition
    | otherwise =>
      cases taken with
      | true => exact .ok rfl
      | false => exact (hinner scope body).taking true

theorem nodes_follows (hinner : InStep inner inner') (scope : Scope) (taken : Bool)
    (s : List Markup.Node) :
    Follows Output.quiet (nodes chain inner scope taken s)
      (Render.nodes chain inner' scope taken s) := by
  induction s generalizing taken with
  | nil => exact .ok rfl
  | cons n rest ih =>
    apply (node_follows hinner scope taken n).bind
    rintro ⟨first, taken⟩ ⟨first', taken'⟩ hmade
    obtain ⟨hfirst, htaken⟩ := Prod.mk.inj hmade
    obtain rfl : taken = taken' := htaken
    exact (ih taken).append hfirst

/-- Sequences are rendered in step whatever the chain is. -/
theorem sequence_follows (chain : Chain) (limit : Nat) :
    InStep (sequence chain limit) (Render.sequence chain limit) := by
  induction limit with
  | zero =>
    intro scope s
    exact .error _ _
  | succ limit ih =>
    intro scope s
    exact nodes_follows ih scope false s

end Rendering

/-- A sound evaluator renders a chain as it is rendered without one, and stays sound. -/
theorem Expr.Evaluator.Sound.render {evaluator : Expr.Evaluator} (h : evaluator.Sound)
    (chain : Chain) (bindings : List (String × Value)) :
    (evaluator.render chain bindings).1.map Output.quiet
      = (chain.render bindings).map Output.quiet ∧
    (evaluator.render chain bindings).2.Sound :=
  Rendering.sequence_follows chain Chain.maxSequences (.ofPairs bindings) chain.root evaluator h

/-- Each of any calls of one evaluator gives what it gives if a new evaluator is called, whatever
    the texts and scopes of the calls before it are; and each of any templates that are rendered
    with one evaluator gives the text, the warnings and the failure that it does with a new one.
    Only that a text is malformed is reported once. -/
theorem Expr.Evaluator.same_as_fresh :
    (∀ calls : List (Scope × String),
      (inTurn (fun evaluator call => evaluator.evaluate call.1 call.2) new calls).1.map
          (·.map quiet)
        = calls.map fun call => (new.evaluate call.1 call.2).1.map quiet) ∧
    (∀ calls : List (Chain × List (String × Value)),
      (inTurn (fun evaluator call => evaluator.render call.1 call.2) new calls).1.map
          (·.map Output.quiet)
        = calls.map fun call => (new.render call.1 call.2).1.map Output.quiet) := by
  constructor
  · intro calls
    apply inTurn_eq_map Sound _ calls sound_new
    intro evaluator call hsound
    obtain ⟨hmade, hafter⟩ := hsound.evaluate call.1 call.2
    exact ⟨hmade.trans (sound_new.evaluate call.1 call.2).1.symm, hafter⟩
  · intro calls
    apply inTurn_eq_map Sound _ calls sound_new
    intro evaluator call hsound
    obtain ⟨hmade, hafter⟩ := hsound.render call.1 call.2
    exact ⟨hmade.trans (sound_new.render call.1 call.2).1.symm, hafter⟩

end TextTemplate
