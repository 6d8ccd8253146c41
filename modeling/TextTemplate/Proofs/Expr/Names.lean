import TextTemplate.Expr.Eval

/-! # Which variables a value depends on

  A scope is a chain of bindings, but an expression sees nothing of its shape: it
  asks for the values of the names that occur in it and for nothing else.  So two
  scopes in which these names have the same values give the expression the same
  value, or the same fault (`eval_eq_of_agreeOn`, by induction on the expression).
  That holds of a text as well, since reading it takes no scope.
-/

namespace TextTemplate

/-! ### Scopes that agree -/

namespace Scope

variable {p q : String → Prop} {scope scope' : Scope}

/-- The names with the property have the same values in both scopes. -/
def AgreeOn (p : String → Prop) (scope scope' : Scope) : Prop :=
  ∀ n, p n → scope.lookup n = scope'.lookup n

theorem AgreeOn.mono (h : AgreeOn q scope scope') (hsub : ∀ n, p n → q n) :
    AgreeOn p scope scope' := by
  intro n hn
  exact h n (hsub n hn)

/-- A single binding, also one to `undefined`, counts for its own name alone. -/
theorem lookup_extend_one (scope : Scope) (name n : String) (item : Value) :
    (scope.extend [(name, item)]).lookup n = if n = name then item else scope.lookup n := by
  by_cases hn : n = name
  · subst hn
    simp [extend, lookup, find?, Bindings.find?, Bindings.ofPairs, Pairs.put]
  · simp [extend, lookup, find?, Bindings.find?, Bindings.ofPairs, Pairs.put, hn, Ne.symm hn]

/-- Scopes agree as before if both get the same binding. -/
theorem AgreeOn.extend (h : AgreeOn p scope scope') (name : String) (item : Value) :
    AgreeOn p (scope.extend [(name, item)]) (scope'.extend [(name, item)]) := by
  intro n hn
  rw [lookup_extend_one, lookup_extend_one, h n hn]

end Scope

/-! ### Expressions -/

namespace Expr

mutual

/-- The names that stand for variables in an expression. -/
def names : Expr → List String
  | .literal _ => []
  | .name n => [n]
  | .list items => namesOfAll items
  | .property target _ => names target
  | .index target key => names target ++ names key
  | .unary _ operand => names operand
  | .binary left _ right => names left ++ names right
  | .logical left _ right => names left ++ names right
  | .group inner => names inner

/-- The names that stand for variables in several expressions. -/
def namesOfAll : List Expr → List String
  | [] => []
  | item :: rest => names item ++ namesOfAll rest

end

/-- The names that stand for variables in a text; a malformed one has none. -/
def namesIn (text : String) : List String :=
  match read text with
  | .ok e => e.names
  | .error _ => []

variable {scope scope' : Scope}

/-- Agreement on the names of two parts is agreement on those of either part. -/
theorem agreeOn_append {a b : List String} (h : Scope.AgreeOn (· ∈ a ++ b) scope scope') :
    Scope.AgreeOn (· ∈ a) scope scope' ∧ Scope.AgreeOn (· ∈ b) scope scope' :=
  ⟨h.mono fun _ hn => List.mem_append_left b hn, h.mono fun _ hn => List.mem_append_right a hn⟩

mutual

/-- An expression has the same value, or the same fault, in scopes that agree on its names. -/
theorem eval_eq_of_agreeOn : ∀ (e : Expr) (depth : Nat),
    Scope.AgreeOn (· ∈ e.names) scope scope' → eval scope depth e = eval scope' depth e
  | .literal _, _, _ => by rw [eval, eval]
  | .name n, _, h => by
    rw [eval, eval, h n (List.mem_singleton_self n)]
  | .list _, 0, _ | .property _ _, 0, _ | .index _ _, 0, _ | .unary _ _, 0, _
  | .binary _ _ _, 0, _ | .logical _ _ _, 0, _ | .group _, 0, _ => rfl
  | .list items, depth + 1, h => by
    rw [eval, eval, evalAll_eq_of_agreeOn items depth h]
  | .property target _, depth + 1, h => by
    rw [eval, eval, eval_eq_of_agreeOn target depth h]
  | .index target key, depth + 1, h => by
    obtain ⟨htarget, hkey⟩ := agreeOn_append h
    rw [eval, eval, eval_eq_of_agreeOn target depth htarget, eval_eq_of_agreeOn key depth hkey]
  | .unary _ operand, depth + 1, h => by
    rw [eval, eval, eval_eq_of_agreeOn operand depth h]
  | .binary left _ right, depth + 1, h => by
    obtain ⟨hleft, hright⟩ := agreeOn_append h
    rw [eval, eval, eval_eq_of_agreeOn left depth hleft, eval_eq_of_agreeOn right depth hright]
  | .logical left _ right, depth + 1, h => by
    obtain ⟨hleft, hright⟩ := agreeOn_append h
    rw [eval, eval, eval_eq_of_agreeOn left depth hleft, eval_eq_of_agreeOn right depth hright]
  | .group inner, depth + 1, h => by
    rw [eval, eval, eval_eq_of_agreeOn inner depth h]

theorem evalAll_eq_of_agreeOn : ∀ (items : List Expr) (depth : Nat),
    Scope.AgreeOn (· ∈ namesOfAll items) scope scope' →
    evalAll scope depth items = evalAll scope' depth items
  | [], _, _ => rfl
  | item :: rest, depth, h => by
    obtain ⟨hitem, hrest⟩ := agreeOn_append h
    rw [evalAll, evalAll, eval_eq_of_agreeOn item depth hitem,
      evalAll_eq_of_agreeOn rest depth hrest]

end

/-- Evaluating a text comes to the same in scopes that agree on its names. -/
theorem evaluate_eq_of_agreeOn {text : String}
    (h : Scope.AgreeOn (· ∈ namesIn text) scope scope') :
    evaluate scope text = evaluate scope' text := by
  unfold evaluate
  cases hread : read text with
  | error fault => cases fault <;> rfl
  | ok e =>
    have hnames : namesIn text = e.names := by rw [namesIn, hread]
    rw [hnames] at h
    simp only [eval_eq_of_agreeOn e maxDepth h]

end Expr

end TextTemplate
