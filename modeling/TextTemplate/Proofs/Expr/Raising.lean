import TextTemplate.Proofs.Expr.Parsing
import TextTemplate.Proofs.Value.Pairs
import TextTemplate.Proofs.Value.Raising

/-! # What an evaluation raises

  An expression writes no host objects, so what comes up while it is evaluated is
  raised by the values of names in the scope, and so is what its value can raise
  (`withinScope_of_derives`, by induction on how the expression is derived, at any
  depth).  For a text it follows that an exception which leaves the evaluation
  comes from the scope as well (`evaluate_within`).
-/

namespace TextTemplate

open Value

variable {allowed : HostError → Prop}

/-! ### Scopes -/

/-- The values of names in the scope raise nothing else. -/
def Scope.RaisesOnly (allowed : HostError → Prop) (scope : Scope) : Prop :=
  ∀ name, (scope.lookup name).RaisesOnly allowed

/-- What is bound is one of the values of the pairs. -/
theorem Bindings.raisesOnly_find? {pairs : List (String × Value)}
    (h : ∀ pair ∈ pairs, pair.2.RaisesOnly allowed) {name : String} {v : Value}
    (hfound : (ofPairs pairs).find? name = some v) : v.RaisesOnly allowed := by
  unfold ofPairs find? at hfound
  rw [Pairs.find?_foldl_put] at hfound
  obtain ⟨pair, hpair, rfl⟩ := Option.map_eq_some_iff.1 hfound
  exact h pair (List.mem_reverse.1 (List.mem_of_find?_eq_some hpair))

namespace Scope

theorem raisesOnly_ofPairs {pairs : List (String × Value)}
    (h : ∀ pair ∈ pairs, pair.2.RaisesOnly allowed) : (ofPairs pairs).RaisesOnly allowed := by
  intro name
  unfold lookup ofPairs find?
  cases hfound : (Bindings.ofPairs pairs).find? name with
  | none => exact raisesOnly_undefined
  | some v => exact Bindings.raisesOnly_find? h hfound

theorem RaisesOnly.extend {scope : Scope} (hscope : scope.RaisesOnly allowed)
    {pairs : List (String × Value)} (h : ∀ pair ∈ pairs, pair.2.RaisesOnly allowed) :
    (scope.extend pairs).RaisesOnly allowed := by
  intro name
  unfold lookup Scope.extend find?
  cases hfound : (Bindings.ofPairs pairs).find? name with
  | none => exact hscope name
  | some v => exact Bindings.raisesOnly_find? h hfound

end Scope

/-! ### Expressions -/

namespace Expr

variable {scope : Scope}

/-- An evaluation of the expression stays within the exceptions that are allowed. -/
def WithinScope (allowed : HostError → Prop) (scope : Scope) (e : Expr) : Prop :=
  ∀ depth, ValueStays allowed (eval scope depth e)

/-- What a text writes without naming anything is no host object. -/
theorem raisesOnly_numberValue {digits : String} {v : Value}
    (h : Reader.numberValue digits = .ok v) : v.RaisesOnly allowed := by
  unfold Reader.numberValue at h
  simp only at h
  split at h
  · split at h
    · cases h
      exact raisesOnly_int _
    · cases h
  · cases h
    exact raisesOnly_float _

theorem raisesOnly_keywordValue (k : Keyword) :
    (Reader.keywordValue k).RaisesOnly allowed := by
  cases k with
  | yes => exact raisesOnly_bool true
  | no => exact raisesOnly_bool false
  | null => exact raisesOnly_null

namespace WithinScope

theorem of_literal {v : Value} (h : v.RaisesOnly allowed) :
    WithinScope allowed scope (.literal v) := by
  intro depth
  rw [eval]
  exact h

theorem of_name (hscope : scope.RaisesOnly allowed) (n : String) :
    WithinScope allowed scope (.name n) := by
  intro depth
  rw [eval]
  exact hscope n

/-- An operation stays within the exceptions if it does with at least one level for it. -/
theorem of_succ {e : Expr} (hzero : eval scope 0 e = .error .tooDeep)
    (h : ∀ depth, ValueStays allowed (eval scope (depth + 1) e)) :
    WithinScope allowed scope e := by
  intro depth
  cases depth with
  | zero =>
    rw [hzero]
    exact .of_none rfl
  | succ depth => exact h depth

theorem group {e : Expr} (h : WithinScope allowed scope e) :
    WithinScope allowed scope (.group e) := by
  apply of_succ rfl
  intro depth
  exact h depth

theorem property {target : Expr} (h : WithinScope allowed scope target) (name : String) :
    WithinScope allowed scope (.property target name) := by
  apply of_succ rfl
  intro depth
  apply (h depth).bind
  intro v hv
  exact propertyValue_stays hv name

theorem index {target key : Expr} (htarget : WithinScope allowed scope target)
    (hkey : WithinScope allowed scope key) : WithinScope allowed scope (.index target key) := by
  apply of_succ rfl
  intro depth
  apply (htarget depth).bind
  intro a ha
  apply (hkey depth).bind
  intro b hb
  exact indexValue_stays ha hb

theorem unary {operand : Expr} (op : UnaryOp) (h : WithinScope allowed scope operand) :
    WithinScope allowed scope (.unary op operand) := by
  apply of_succ rfl
  intro depth
  apply (h depth).bind
  intro v hv
  exact unary_stays hv op

theorem logical {left right : Expr} (op : LogicalOp) (hleft : WithinScope allowed scope left)
    (hright : WithinScope allowed scope right) :
    WithinScope allowed scope (.logical left op right) := by
  apply of_succ rfl
  intro depth
  apply (hleft depth).bind
  intro a ha
  apply (decides_stays ha op).bind
  intro decided _
  split
  · exact ha
  · exact hright depth

theorem binary {left right : Expr} (op : BinaryOp) (hleft : WithinScope allowed scope left)
    (hright : WithinScope allowed scope right) :
    WithinScope allowed scope (.binary left op right) := by
  apply of_succ rfl
  intro depth
  apply (hleft depth).bind
  intro a ha
  apply (hright depth).bind
  intro b hb
  exact binary_stays op ha hb

/-- The items of a list stay within the exceptions if the list does. -/
theorem evalAll {items : List Expr} (h : WithinScope allowed scope (.list items)) (depth : Nat) :
    Stays allowed (fun vs => ∀ v ∈ vs, v.RaisesOnly allowed) (evalAll scope depth items) := by
  have hlist := h (depth + 1)
  rw [eval] at hlist
  generalize Expr.evalAll scope depth items = made at hlist ⊢
  cases made with
  | error fault => exact hlist
  | ok vs => exact raisesOnly_list.1 hlist

theorem of_noItems : WithinScope allowed scope (.list []) := by
  apply of_succ rfl
  intro depth
  exact raisesOnly_list.2 fun v hv => absurd hv List.not_mem_nil

theorem moreItems {e : Expr} {items : List Expr} (h : WithinScope allowed scope e)
    (hitems : WithinScope allowed scope (.list items)) :
    WithinScope allowed scope (.list (e :: items)) := by
  apply of_succ rfl
  intro depth
  have hall : Stays allowed (fun vs => ∀ v ∈ vs, v.RaisesOnly allowed)
      (Expr.evalAll scope depth (e :: items)) := by
    apply (h depth).bind
    intro v hv
    apply (hitems.evalAll depth).bind
    intro vs hvs
    exact List.forall_mem_cons.2 ⟨hv, hvs⟩
  exact hall.bind fun vs hvs => raisesOnly_list.2 hvs

theorem join {level : Level} {op : Operator} {join : Expr → Expr → Expr}
    (hjoin : level.join? op = some join) {left right : Expr}
    (hleft : WithinScope allowed scope left) (hright : WithinScope allowed scope right) :
    WithinScope allowed scope (join left right) := by
  cases level with
  | disjunction | conjunction =>
    cases op <;> cases hjoin
    exact hleft.logical _ hright
  | equality | comparison | sum | product =>
    cases op <;> cases hjoin <;> exact hleft.binary _ hright

end WithinScope

/-- Whatever derives from tokens stays within what the scope raises. -/
theorem withinScope_of_derives (hscope : scope.RaisesOnly allowed) {n : Nonterminal}
    {u : List Token} {e : Expr} (h : Derives n u e) : WithinScope allowed scope e := by
  induction h with
  | alone _ ih | unsigned _ ih | whole _ ih => exact ih
  | join _ _ hjoin _ ihleft ihright => exact ihleft.join hjoin ihright
  | not _ _ ih => exact ih.unary .not
  | neg _ _ ih => exact ih.unary .neg
  | property _ _ _ ih => exact ih.property _
  | index _ _ _ _ ih ihkey => exact ih.index ihkey
  | number _ hvalue => exact .of_literal (raisesOnly_numberValue hvalue)
  | string _ => exact .of_literal (raisesOnly_string _)
  | keyword _ => exact .of_literal (raisesOnly_keywordValue _)
  | name _ => exact .of_name hscope _
  | group _ _ _ ih => exact ih.group
  | noItems _ _ => exact .of_noItems
  | list _ _ _ ih => exact ih
  | item _ ih => exact ih.moreItems .of_noItems
  | moreItems _ _ _ ih ihitems => exact ih.moreItems ihitems

/-- What leaves the evaluation of a text comes from the exception of a host object: that is no
    error, or its text raises what leaves. -/
theorem settle_within (text : String) {outcome : Except EvalFault Value}
    (h : ValueStays allowed outcome) :
    (∀ v remark?, settle text outcome = .ok (v, remark?) → v.RaisesOnly allowed) ∧
    ∀ className, settle text outcome = .error (.host className) →
      ∃ e, allowed e ∧ e.escape? = some className := by
  cases outcome with
  | ok v =>
    constructor
    · intro v' remark? hsettled
      cases hsettled
      exact h
    · intro className hsettled
      cases hsettled
  | error fault =>
    simp only [settle]
    cases hescape : fault.host?.bind (·.escape?) with
    | none =>
      constructor
      · intro v remark? hsettled
        cases hsettled
        exact raisesOnly_undefined
      · intro className hsettled
        cases hsettled
    | some name =>
      constructor
      · intro v remark? hsettled
        cases hsettled
      · intro className hsettled
        cases hsettled
        obtain ⟨e, he, hclass⟩ := Option.bind_eq_some_iff.1 hescape
        exact ⟨e, h e he, hclass⟩

/-- The value of a text raises nothing but what the scope does, and so does what leaves its
    evaluation. -/
theorem evaluate_within (hscope : scope.RaisesOnly allowed) (text : String) :
    (∀ v remark?, evaluate scope text = .ok (v, remark?) → v.RaisesOnly allowed) ∧
    ∀ className, evaluate scope text = .error (.host className) →
      ∃ e, allowed e ∧ e.escape? = some className := by
  unfold evaluate
  cases hread : read text with
  | ok e =>
    obtain ⟨tokens, -, hderives⟩ := derives_of_read hread
    exact settle_within text (withinScope_of_derives hscope hderives maxDepth)
  | error fault =>
    cases fault with
    | tooManyDigits =>
      constructor
      · intro v remark? hmade
        cases hmade
      · intro className hmade
        cases hmade
    | malformed | tooDeep =>
      constructor
      · intro v remark? hmade
        cases hmade
        exact raisesOnly_undefined
      · intro className hmade
        cases hmade

end Expr

end TextTemplate
