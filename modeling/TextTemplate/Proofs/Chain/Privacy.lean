import TextTemplate.Proofs.Chain.Depth
import TextTemplate.Proofs.Expr.Privacy

/-! # Rendering does not see private attributes

  Rendering asks a scope for nothing but the values of texts, and of these it
  looks at their truth, their text, their items and their kind.  So in scopes that
  are alike every node writes the same and reports the same, and the scope of a
  loop's body is alike for items that are (`sequence_alike`, by induction on the
  limit).  `private_attributes_unseen` says it of expressions and of chains.
-/

namespace TextTemplate.Render

open Markup

variable {twins : Nat → Nat → Prop} {chain : Chain} {inner : Renderer} {scope scope' : Scope}

/-- The renderer makes no difference between scopes that are alike. -/
def Blind (twins : Nat → Nat → Prop) (inner : Renderer) : Prop :=
  ∀ {scope scope' : Scope}, Scope.Alike twins scope scope' → ∀ s, inner scope s = inner scope' s

/-- An expression gives values that are alike, and the same remark. -/
theorem evaluate_alike (htwins : Relator.BiUnique twins) (hscope : Scope.Alike twins scope scope')
    (expr : String) :
    SameOutcome (fun made made' => Value.Alike twins made.1 made'.1 ∧ made.2 = made'.2)
      (evaluate scope expr) (evaluate scope' expr) := by
  have hmade := Expr.evaluate_alike htwins hscope expr
  unfold evaluate
  generalize Expr.evaluate scope expr = made at hmade ⊢
  generalize Expr.evaluate scope' expr = made' at hmade ⊢
  cases hmade with
  | error fault => cases fault <;> exact .error _
  | @ok made made' h =>
    obtain ⟨v, remark⟩ := made
    obtain ⟨v', remark'⟩ := made'
    obtain ⟨hv, rfl⟩ := h
    exact .ok ⟨hv, rfl⟩

/-- What is done with the value of an expression gives the same in both scopes if it does so for
    values that are alike. -/
theorem evaluate_bind_eq {α : Type} (htwins : Relator.BiUnique twins)
    (hscope : Scope.Alike twins scope scope') (expr : String)
    {next next' : Value × Output → Except Fault α}
    (hnext : ∀ v v' noted, Value.Alike twins v v' → next (v, noted) = next' (v', noted)) :
    evaluate scope expr >>= next = evaluate scope' expr >>= next' := by
  apply (evaluate_alike htwins hscope expr).bind_eq
  rintro ⟨v, noted⟩ ⟨v', noted'⟩ ⟨hv, rfl⟩
  exact hnext v v' noted hv

theorem outputTag_alike (htwins : Relator.BiUnique twins)
    (hscope : Scope.Alike twins scope scope') (expr : String) :
    outputTag scope expr = outputTag scope' expr := by
  apply evaluate_bind_eq htwins hscope
  intro v v' noted hv
  simp only [Value.display_eq_of_alike v hv]

/-- The items of a loop one by one. -/
theorem loopBody_alike (hinner : Blind twins inner) (hscope : Scope.Alike twins scope scope')
    (name : String) (body : List Node) {items items' : List Value}
    (h : List.Forall₂ (Value.Alike twins) items items') :
    loopBody inner scope name body items = loopBody inner scope' name body items' := by
  induction h with
  | nil => rfl
  | cons hitem _ ih =>
    rw [loopBody, loopBody, ih, hinner (hscope.extend (.cons (.mk name hitem) .nil))]

/-- A value that is not missing is looped over, or reported by its kind. -/
theorem loopOver_alike (hinner : Blind twins inner) (hscope : Scope.Alike twins scope scope')
    (name source : String) (body : List Node) (noted : Output) {v v' : Value}
    (hv : Value.Alike twins v v') :
    loopOver inner scope name source body noted v
      = loopOver inner scope' name source body noted v' := by
  unfold loopOver
  have hitems := hv.items?
  generalize v.items? = items at hitems ⊢
  generalize v'.items? = items' at hitems ⊢
  cases hitems with
  | none => rw [hv.kind]
  | some hitems => simp only [loopBody_alike hinner hscope name body hitems]

theorem loop_alike (htwins : Relator.BiUnique twins) (hinner : Blind twins inner)
    (hscope : Scope.Alike twins scope scope') (name source : String) (body : List Node) :
    loop inner scope name source body = loop inner scope' name source body := by
  apply evaluate_bind_eq htwins hscope
  intro v v' noted hv
  have hpresent := loopOver_alike hinner hscope name source body noted hv
  cases hv with
  | undefined => rfl
  | null => rfl
  | _ => exact hpresent

/-- A branch is taken in both scopes or in none. -/
theorem condition_alike (htwins : Relator.BiUnique twins) (hinner : Blind twins inner)
    (hscope : Scope.Alike twins scope scope') (expr : String) (body : List Node) :
    condition scope expr (inner scope body) = condition scope' expr (inner scope' body) := by
  have htest : test scope expr = test scope' expr := by
    apply evaluate_bind_eq htwins hscope
    intro v v' noted hv
    simp only [hv.truth]
  unfold condition
  rw [htest, hinner hscope]

theorem node_alike (htwins : Relator.BiUnique twins) (hinner : Blind twins inner)
    (hscope : Scope.Alike twins scope scope') (taken : Bool) (n : Node) :
    node chain inner scope taken n = node chain inner scope' taken n := by
  cases n with
  | text s => rfl
  | bare => rfl
  | output expr => simp only [node, outputTag_alike htwins hscope]
  | loop name source body => simp only [node, loop_alike htwins hinner hscope]
  | block name own => simp only [node, hinner hscope]
  | branch place condition? body =>
    have hcondition := condition_alike htwins hinner hscope (condition?.getD "") body
    cases place with
    | first => exact hcondition
    | next =>
      simp only [node]
      rw [hcondition]
    | otherwise =>
      -- Whether the last body is rendered depends on the branches before it alone.
      simp only [node, hinner hscope]

theorem nodes_alike (htwins : Relator.BiUnique twins) (hinner : Blind twins inner)
    (hscope : Scope.Alike twins scope scope') (taken : Bool) (s : List Node) :
    nodes chain inner scope taken s = nodes chain inner scope' taken s := by
  induction s generalizing taken with
  | nil => rfl
  | cons n rest ih =>
    rw [nodes, nodes, node_alike htwins hinner hscope]
    simp only [ih]

/-- A sequence of any chain is rendered the same way in scopes that are alike. -/
theorem sequence_alike (htwins : Relator.BiUnique twins) (chain : Chain) (limit : Nat) :
    Blind twins (sequence chain limit) := by
  induction limit with
  | zero =>
    intro scope scope' hscope s
    rfl
  | succ limit ih =>
    intro scope scope' hscope s
    exact nodes_alike htwins ih hscope false s

/-- Private attributes are not seen.  Host objects of two runs stand for each other one to one, and
    the values of the variables are equal but for what those objects have under private names, at
    any depth.  Then every text has values that are alike, with the same text form, the same truth
    and the same remark, and every chain of templates gives the same text and reports the same. -/
theorem private_attributes_unseen (htwins : Relator.BiUnique twins) :
    (∀ scope scope', Scope.Alike twins scope scope' → ∀ text,
      SameOutcome (fun made made' => Value.Alike twins made.1 made'.1 ∧
          made.1.display = made'.1.display ∧ made.1.truth = made'.1.truth ∧
          made.2 = made'.2)
        (Expr.evaluate scope text) (Expr.evaluate scope' text)) ∧
    (∀ bindings bindings', List.Forall₂ (BindingAlike twins) bindings bindings' →
      ∀ chain : Chain, chain.render bindings = chain.render bindings') := by
  constructor
  · intro scope scope' hscope text
    apply (Expr.evaluate_alike htwins hscope text).imp
    rintro ⟨v, remark⟩ ⟨v', remark'⟩ ⟨hv, hremark⟩
    exact ⟨hv, Value.display_eq_of_alike v hv, hv.truth, hremark⟩
  · intro bindings bindings' hbindings chain
    exact sequence_alike htwins chain _ (Scope.ofPairs_alike hbindings) chain.root

/-- An account with a private balance. -/
def openAccount : HostObject Value :=
  { identity := 1
    className := "Account"
    attributes := [("owner", .string "Ada"), ("_balance", .int 7)]
    methods := ["close"]
    failing := []
    text := "account"
    exact := "Account()"
    truth := .truthy
    equality := .identity
    hashFailure? := none
    length? := none
    items? := none }

/-- The account with a balance that cannot be read: asking for it ends the program. -/
def lockedAccount : HostObject Value :=
  { openAccount with
    identity := 11
    attributes := [("owner", .string "Ada")]
    failing := [("_balance", ⟨"SystemExit", .fails "ValueError", .interrupt⟩)] }

/-- A template that looks for the balance by its name, and by a name that it makes up. -/
def balanceChain : Chain where
  template := ⟨"accounts", documentOf ("{% for a in all %}{{ a.owner }}{{ a._balance }}"
    ++ "\x7b% if a['_' + 'balance'] == 7 %\x7d\x7b\x7b a['_balance'] \x7d\x7d"
    ++ "{% endif %}{% endfor %}")⟩
  ancestors := []

/-- The objects of one run, moved by ten in the other one. -/
def MovedByTen (i j : Nat) : Prop := j = i + 10

/-- Nothing is seen of the balance. -/
theorem balanceChain_unseen : Relator.BiUnique MovedByTen ∧
    List.Forall₂ (BindingAlike MovedByTen) [("all", .list [.object openAccount])]
      [("all", .list [.object lockedAccount])] ∧
    (balanceChain.render [("all", .list [.object openAccount])]).map (·.text) = .ok "Ada" ∧
    balanceChain.render [("all", .list [.object openAccount])]
      = balanceChain.render [("all", .list [.object lockedAccount])] := by
  have htwins : Relator.BiUnique MovedByTen := by
    constructor
    · intro i i' j hi hi'
      unfold MovedByTen at hi hi'
      omega
    · intro i j j' hj hj'
      unfold MovedByTen at hj hj'
      omega
  have hpublic : ∀ name, ¬ IsPrivate name →
      Attribute.Alike (Value.Alike MovedByTen) (openAccount.attributeAt name)
        (lockedAccount.attributeAt name) := by
    intro name hname
    by_cases hbalance : name = "_balance"
    · subst hbalance
      exact absurd (by decide +kernel) hname
    by_cases hclose : name = "close"
    · subst hclose
      exact .method
    by_cases howner : name = "owner"
    · subst howner
      exact .data (.string "Ada")
    have hopen : openAccount.attributeAt name = .absent := by
      simp [openAccount, HostObject.attributeAt, hclose, Ne.symm hbalance, Ne.symm howner]
    have hlocked : lockedAccount.attributeAt name = .absent := by
      simp [lockedAccount, openAccount, HostObject.attributeAt, hclose, Ne.symm hbalance,
        Ne.symm howner]
    rw [hopen, hlocked]
    exact .absent
  have hanswers : Value.AnswersAlike openAccount lockedAccount :=
    ⟨rfl, rfl, rfl, rfl, rfl, rfl, rfl⟩
  have hbindings : List.Forall₂ (BindingAlike MovedByTen)
      [("all", .list [.object openAccount])] [("all", .list [.object lockedAccount])] :=
    .cons (.mk "all" (.list (.cons (.object rfl hanswers .none hpublic) .nil))) .nil
  obtain ⟨-, hchains⟩ := private_attributes_unseen htwins
  exact ⟨htwins, hbindings, by decide +kernel, hchains _ _ hbindings balanceChain⟩

end TextTemplate.Render
