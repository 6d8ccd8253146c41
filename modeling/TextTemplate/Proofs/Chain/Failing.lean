import TextTemplate.Proofs.Chain.Depth
import TextTemplate.Proofs.Expr.Evaluation
import TextTemplate.Proofs.Value.Text

/-! # When rendering fails

  An expression that has no value is `undefined`, and a loop without items is
  skipped.  So nothing that goes wrong at a node ends the rendering of the text
  around it, with two exceptions.  One is a whole number with too many digits,
  which stands in the text of an expression or in a value that is put out.  The
  other one is what a host object raises, if it is no error, or if it is an error
  whose text raises something when the error is reported.

  A failure is traced back to its node.  What fails is a node of the sequence, or
  a sequence that it enters (`error_of_node`); going inside as long as there is a
  sequence to enter ends at the node where it came up (`error_of_sequence`).  The
  scopes on the way hold nothing but the variables and items of loops, so host
  objects there can be reached from the variables (`Reaches.raisesOnly`).
-/

namespace TextTemplate.Render

open Markup

/-- The value of an expression raises nothing but what the scope does. -/
theorem raisesOnly_of_evaluate {scope : Scope} {expr : String} {v : Value} {noted : Output}
    {allowed : HostError → Prop} (hscope : scope.RaisesOnly allowed)
    (h : evaluate scope expr = .ok (v, noted)) : v.RaisesOnly allowed := by
  unfold evaluate at h
  split at h
  · cases h
  · cases h
  · next hvalue =>
    cases h
    exact (Expr.evaluate_within hscope expr).1 v _ hvalue

/-! ### What rendering enters -/

/-- While a sequence is rendered in a scope, another one may be rendered directly inside it: in the
    same scope, or in one where the variable of a loop means an item of its source. -/
inductive Enters (chain : Chain) (scope : Scope) (s : List Node) : Scope → List Node → Prop where
  | branch {place : Branch} {condition? : Option String} {body : List Node} :
      .branch place condition? body ∈ s → Enters chain scope s scope body
  | item {name source : String} {body : List Node} {v item : Value} {noted : Output}
      {items : List Value} :
      .loop name source body ∈ s → evaluate scope source = .ok (v, noted) →
      v.items? = some items → item ∈ items →
      Enters chain scope s (scope.extend [(name, item)]) body
  | block {name : String} {own body : List Node} :
      .block name own ∈ s → chain.findBlock? name = some body → Enters chain scope s scope body

/-- The same at any depth, the sequence itself included. -/
inductive Reaches (chain : Chain) : Scope → List Node → Scope → List Node → Prop where
  | here (scope : Scope) (s : List Node) : Reaches chain scope s scope s
  | inside {scope scope' scope'' : Scope} {s s' s'' : List Node} :
      Enters chain scope s scope' s' → Reaches chain scope' s' scope'' s'' →
      Reaches chain scope s scope'' s''

theorem Enters.mono {chain : Chain} {scope scope' : Scope} {s t body : List Node}
    (h : Enters chain scope s scope' body) (hsub : s ⊆ t) : Enters chain scope t scope' body := by
  cases h with
  | branch hmem => exact .branch (hsub hmem)
  | item hmem hvalue hitems hitem => exact .item (hsub hmem) hvalue hitems hitem
  | block hmem hfound => exact .block (hsub hmem) hfound

/-- Host objects inside are reached from the scope outside. -/
theorem Enters.raisesOnly {chain : Chain} {scope scope' : Scope} {s body : List Node}
    {allowed : HostError → Prop} (h : Enters chain scope s scope' body)
    (hscope : scope.RaisesOnly allowed) : scope'.RaisesOnly allowed := by
  cases h with
  | branch _ => exact hscope
  | block _ _ => exact hscope
  | item _ hvalue hitems hitem =>
    have hitem := (raisesOnly_of_evaluate hscope hvalue).items hitems _ hitem
    exact hscope.extend fun pair hpair => by
      obtain rfl := List.mem_singleton.1 hpair
      exact hitem

theorem Reaches.raisesOnly {chain : Chain} {scope scope' : Scope} {s body : List Node}
    {allowed : HostError → Prop} (h : Reaches chain scope s scope' body)
    (hscope : scope.RaisesOnly allowed) : scope'.RaisesOnly allowed := by
  induction h with
  | here => exact hscope
  | inside henters _ ih => exact ih (henters.raisesOnly hscope)

/-! ### What may go wrong at a node -/

/-- The expression of a node. -/
def expression? : Node → Option String
  | .output expr => some expr
  | .branch _ condition? _ => condition?
  | .loop _ source _ => some source
  | .text _ | .block _ _ | .bare => none

/-- A whole number with too many digits is read or written at a node. -/
inductive LongAt (scope : Scope) (n : Node) : Prop where
  /-- It is a token of the node's expression. -/
  | read {expr : String} {tokens : List TextTemplate.Token} {t : TextTemplate.Token} :
      expression? n = some expr → TextTemplate.Token.scan expr = .ok tokens → t ∈ tokens →
      Reader.Overlong t → LongAt scope n
  /-- It stands in the value that the node puts out. -/
  | written {expr : String} {v : Value} {noted : Output} :
      n = .output expr → evaluate scope expr = .ok (v, noted) → v.HoldsLong → LongAt scope n

/-- A node comes to a fault by itself. -/
inductive FailsAt (scope : Scope) (n : Node) : Fault → Prop where
  | long : LongAt scope n → FailsAt scope n .tooManyDigits
  /-- What the node's expression asks for is an exception that goes on. -/
  | raised {expr className : String} :
      evaluate scope expr = .error (.host className) → FailsAt scope n (.host className)
  /-- The truth of a condition's value is one. -/
  | interrupted {expr : String} {v : Value} {noted : Output} {e : HostError} :
      evaluate scope expr = .ok (v, noted) → v.truth = .error e →
      FailsAt scope n (.host e.className)

variable {chain : Chain} {inner : Renderer} {scope : Scope}

/-- What a host object raises at a node is raised by what the scope holds. -/
theorem FailsAt.escapes {n : Node} {className : String} {allowed : HostError → Prop}
    (h : FailsAt scope n (.host className)) (hscope : scope.RaisesOnly allowed) :
    ∃ e, allowed e ∧ e.escape? = some className := by
  cases h with
  | @raised expr _ hraised =>
    unfold evaluate at hraised
    split at hraised
    · cases hraised
    · next hescape =>
      cases hraised
      exact (Expr.evaluate_within hscope expr).2 className hescape
    · cases hraised
  | @interrupted expr v noted e hvalue htruth =>
    obtain ⟨hraises, hinterrupt⟩ := Value.raises_of_truth htruth
    refine ⟨e, raisesOnly_of_evaluate hscope hvalue e hraises, ?_⟩
    rw [HostError.escape?, if_pos hinterrupt]

/-- An expression that cannot be evaluated holds a long number, or asks for an exception. -/
theorem error_of_evaluate {expr : String} {fault : Fault}
    (h : evaluate scope expr = .error fault) :
    (fault = .tooManyDigits ∧
      ∃ tokens, TextTemplate.Token.scan expr = .ok tokens ∧ ∃ t ∈ tokens, Reader.Overlong t) ∨
    ∃ className, fault = .host className := by
  unfold evaluate at h
  split at h
  · next herror =>
    cases h
    exact .inl ⟨rfl, Expr.overlong_of_read (Expr.read_of_evaluate_error herror)⟩
  · cases h
    exact .inr ⟨_, rfl⟩
  · cases h

theorem failsAt_of_evaluate {n : Node} {expr : String} {fault : Fault}
    (hn : expression? n = some expr) (h : evaluate scope expr = .error fault) :
    FailsAt scope n fault := by
  rcases error_of_evaluate h with ⟨rfl, tokens, hscan, t, ht, hlong⟩ | ⟨className, rfl⟩
  · exact .long (.read hn hscan ht hlong)
  · exact .raised h

/-- The condition of a branch without one is the empty text, which holds no number. -/
theorem failsAt_of_condition {place : Branch} {condition? : Option String} {body : List Node}
    {fault : Fault} (h : evaluate scope (condition?.getD "") = .error fault) :
    FailsAt scope (.branch place condition? body) fault := by
  cases condition? with
  | some condition => exact failsAt_of_evaluate rfl h
  | none =>
    rcases error_of_evaluate h with ⟨rfl, tokens, hscan, t, ht, -⟩ | ⟨className, rfl⟩
    · have hempty : TextTemplate.Token.scan "" = .ok [] := by
        simp [TextTemplate.Token.scan, TextTemplate.Token.scanFrom]
      obtain rfl : [] = tokens := Except.ok.inj (hempty.symm.trans hscan)
      exact absurd ht List.not_mem_nil
    · exact .raised h

theorem failsAt_of_outputTag {expr : String} {fault : Fault}
    (h : outputTag scope expr = .error fault) : FailsAt scope (.output expr) fault := by
  unfold outputTag at h
  rcases error_of_bind h with hvalue | ⟨⟨v, noted⟩, hvalue, hwritten⟩
  · exact failsAt_of_evaluate rfl hvalue
  · simp only at hwritten
    split at hwritten
    · cases hwritten
    · next hdisplay =>
      cases hwritten
      exact .long (.written rfl hvalue (Value.holdsLong_of_display v hdisplay))

/-! ### Tracing a failure back -/

/-- A loop's body fails for one of the items. -/
theorem error_of_loopBody {name : String} {body : List Node} {items : List Value} {fault : Fault}
    (h : loopBody inner scope name body items = .error fault) :
    ∃ item ∈ items, inner (scope.extend [(name, item)]) body = .error fault := by
  induction items with
  | nil => cases h
  | cons item rest ih =>
    unfold loopBody at h
    rcases error_of_bind h with hfirst | ⟨first, _, h⟩
    · exact ⟨item, List.mem_cons_self, hfirst⟩
    rcases error_of_bind h with hrest | ⟨_, _, h⟩
    · obtain ⟨item', hitem', hfault⟩ := ih hrest
      exact ⟨item', List.mem_cons_of_mem _ hitem', hfault⟩
    · cases h

/-- What fails is a node by itself, or what it enters fails in the same way. -/
def Traced (chain : Chain) (inner : Renderer) (scope : Scope) (s : List Node) (fault : Fault) :
    Prop :=
  (∃ n ∈ s, FailsAt scope n fault) ∨
    ∃ scope' body, Enters chain scope s scope' body ∧ inner scope' body = .error fault

theorem Traced.mono {s t : List Node} {fault : Fault} (h : Traced chain inner scope s fault)
    (hsub : s ⊆ t) : Traced chain inner scope t fault := by
  rcases h with ⟨n, hn, hfails⟩ | ⟨scope', body, henters, hfault⟩
  · exact .inl ⟨n, hsub hn, hfails⟩
  · exact .inr ⟨scope', body, henters.mono hsub, hfault⟩

/-- A loop whose source has items fails like its body does for one of them. -/
theorem error_of_loop {name source : String} {body : List Node} {fault : Fault}
    (h : loop inner scope name source body = .error fault) :
    Traced chain inner scope [.loop name source body] fault := by
  unfold loop at h
  rcases error_of_bind h with hvalue | ⟨⟨v, noted⟩, hvalue, h⟩
  · exact .inl ⟨_, List.mem_cons_self, failsAt_of_evaluate rfl hvalue⟩
  simp only [loopOver] at h
  split at h
  · cases h
  · cases h
  · split at h
    · cases h
    · next items hitems =>
      rcases error_of_bind h with hbody | ⟨_, _, h⟩
      · obtain ⟨item, hitem, hfault⟩ := error_of_loopBody hbody
        exact .inr ⟨_, body, .item List.mem_cons_self hvalue hitems hitem, hfault⟩
      · cases h

/-- A branch with a condition fails like its body does, if its condition can be tested. -/
theorem error_of_condition {place : Branch} {condition? : Option String} {body : List Node}
    {fault : Fault}
    (h : condition scope (condition?.getD "") (inner scope body) = .error fault) :
    Traced chain inner scope [.branch place condition? body] fault := by
  rcases error_of_bind h with htest | ⟨⟨holds, noted⟩, _, h⟩
  · rcases error_of_bind htest with hvalue | ⟨⟨v, noted⟩, hvalue, htruth⟩
    · exact .inl ⟨_, List.mem_cons_self, failsAt_of_condition hvalue⟩
    simp only at htruth
    split at htruth
    · cases htruth
    · next e htruth' =>
      cases htruth
      exact .inl ⟨_, List.mem_cons_self, .interrupted hvalue htruth'⟩
  simp only at h
  split at h
  · rcases error_of_bind h with hbody | ⟨_, _, h⟩
    · exact .inr ⟨scope, body, .branch List.mem_cons_self, hbody⟩
    · cases h
  · cases h

theorem error_of_node {n : Node} {taken : Bool} {fault : Fault}
    (h : node chain inner scope taken n = .error fault) : Traced chain inner scope [n] fault := by
  -- A failing step that is followed by nothing that can fail.
  have hlast : ∀ {α : Type} {x : Except Fault α},
      (do return (← x, taken) : Except Fault (α × Bool)) = .error fault → x = .error fault := by
    intro α x hx
    rcases error_of_bind hx with hx | ⟨_, _, hx⟩
    · exact hx
    · cases hx
  cases n with
  | text s => cases h
  | bare => cases h
  | output expr => exact .inl ⟨_, List.mem_cons_self, failsAt_of_outputTag (hlast h)⟩
  | loop name source body => exact error_of_loop (hlast h)
  | block name own =>
    simp only [node] at h
    split at h
    · cases h
    · next body hfound =>
      exact .inr ⟨scope, body, .block List.mem_cons_self hfound, hlast h⟩
  | branch place condition? body =>
    cases place with
    | first => exact error_of_condition h
    | next =>
      simp only [node] at h
      split at h
      · cases h
      · exact error_of_condition h
    | otherwise =>
      simp only [node] at h
      split at h
      · cases h
      · rcases error_of_bind h with hbody | ⟨_, _, h⟩
        · exact .inr ⟨scope, body, .branch List.mem_cons_self, hbody⟩
        · cases h

theorem error_of_nodes {s : List Node} {taken : Bool} {fault : Fault}
    (h : nodes chain inner scope taken s = .error fault) : Traced chain inner scope s fault := by
  induction s generalizing taken with
  | nil => cases h
  | cons n rest ih =>
    unfold nodes at h
    rcases error_of_bind h with hfirst | ⟨⟨first, taken'⟩, _, h⟩
    · exact (error_of_node hfirst).mono (by simp)
    rcases error_of_bind h with hrest | ⟨_, _, h⟩
    · exact (ih hrest).mono (by simp)
    · cases h

/-- A sequence fails because of a node that it reaches, or because it is nested too deep. -/
theorem error_of_sequence {limit : Nat} {scope : Scope} {s : List Node} {fault : Fault}
    (h : sequence chain limit scope s = .error fault) (hfault : fault ≠ .tooDeep) :
    ∃ scope' s', Reaches chain scope s scope' s' ∧ ∃ n ∈ s', FailsAt scope' n fault := by
  induction limit generalizing scope s with
  | zero =>
    cases h
    exact absurd rfl hfault
  | succ limit ih =>
    unfold sequence at h
    rcases error_of_nodes h with hfails | ⟨scope', body, henters, hinside⟩
    · exact ⟨scope, s, .here scope s, hfails⟩
    · obtain ⟨scope'', s'', hreaches, hfails⟩ := ih hinside
      exact ⟨scope'', s'', .inside henters hreaches, hfails⟩

/-- A template in which a quotient, keys, a loop's source, an attribute, a comparison and an
    expression are at fault, below the one that it extends. -/
def troubledChain : Chain where
  template := ⟨"below", documentOf
    ("{% block m %}{{ 1 / 0 }}{{ a[[]] }}{{ a[o] }}{% for x in 5 %}{% endfor %}"
    ++ "{{ o.name }}{{ 1 == o }}{% if o %}{{ ) }}y{% endif %}{% endblock %}")⟩
  ancestors := [⟨"above", documentOf "{% block m %}{% endblock %}"⟩]

/-- An error of a host object, with a text. -/
def refusal : HostError := ⟨"LookupError", .shown "closed", .ordinary⟩

/-- A host object that fails whenever it is asked for anything. -/
def troubledObject : HostObject Value where
  identity := 0
  className := "Connection"
  attributes := []
  methods := []
  failing := [("name", refusal)]
  text := "connection"
  exact := "Connection()"
  truth := .fails refusal
  equality := .fails refusal
  hashFailure? := some refusal
  length? := some (.error refusal)
  items? := none

/-- A mapping, and the host object. -/
def troubledBindings : List (String × Value) :=
  [("a", .mapping []), ("o", .object troubledObject)]

/-- An object whose attribute raises an error that cannot be shown: the report of the error ends the
    rendering. -/
example : ((Chain.derive ⟨"page", documentOf "a{{ o.name }}b"⟩ none).render
      [("o", .object { troubledObject with
        failing := [("name", ⟨"KeyError", .fails "TypeError", .ordinary⟩)] })]).map (·.text)
    = .error (.host "TypeError") := by
  decide +kernel

end TextTemplate.Render
