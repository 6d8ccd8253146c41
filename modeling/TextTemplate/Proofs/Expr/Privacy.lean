import TextTemplate.Proofs.Expr.Parsing
import TextTemplate.Proofs.Value.Privacy

/-! # Evaluation does not see private attributes

  In two scopes that give every name values that are alike, an expression gives
  values that are alike, or the same fault (`seenAlike_of_derives`, by induction
  on how the expression is derived, at any depth).  A text writes no host objects,
  so what it says is the same in both scopes.  Even the remark about a text that
  has no value is the same (`evaluate_alike`).
-/

namespace TextTemplate

open Value

variable {twins : Nat → Nat → Prop}

/-! ### Scopes -/

/-- The same name, bound to values that are alike. -/
inductive BindingAlike (twins : Nat → Nat → Prop) : String × Value → String × Value → Prop where
  | mk (name : String) {v v' : Value} :
      Value.Alike twins v v' → BindingAlike twins (name, v) (name, v')

/-- Every name has values that are alike in the two scopes. -/
def Scope.Alike (twins : Nat → Nat → Prop) (scope scope' : Scope) : Prop :=
  ∀ name, Value.Alike twins (scope.lookup name) (scope'.lookup name)

namespace Bindings

/-- Bindings that are alike stay so if pairs that are alike are put among them. -/
theorem put_alike {entries entries' : List (String × Value)} {pair pair' : String × Value}
    (h : List.Forall₂ (BindingAlike twins) entries entries')
    (hpair : BindingAlike twins pair pair') :
    List.Forall₂ (BindingAlike twins) (Pairs.put entries pair) (Pairs.put entries' pair') := by
  obtain ⟨name, hv⟩ := hpair
  have hany : (entries.any (·.1 == name)) = (entries'.any (·.1 == name)) := by
    induction h with
    | nil => rfl
    | cons hbinding _ ih =>
      obtain ⟨_, _⟩ := hbinding
      rw [List.any_cons, List.any_cons, ih]
  unfold Pairs.put
  rw [hany]
  split
  · apply List.rel_map _ h
    rintro _ _ ⟨other, hother⟩
    by_cases hname : (other == name) = true
    · simp only [hname, if_true]
      exact .mk name hv
    · simp only [hname]
      exact .mk other hother
  · exact List.rel_append h (.cons (.mk name hv) .nil)

/-- Pairs that are alike make bindings that are alike. -/
theorem ofPairs_alike {pairs pairs' : List (String × Value)}
    (h : List.Forall₂ (BindingAlike twins) pairs pairs') :
    List.Forall₂ (BindingAlike twins) (ofPairs pairs).entries (ofPairs pairs').entries := by
  have hfrom : ∀ {entries entries' : List (String × Value)},
      List.Forall₂ (BindingAlike twins) entries entries' →
      List.Forall₂ (BindingAlike twins) (pairs.foldl Pairs.put entries)
        (pairs'.foldl Pairs.put entries') := by
    induction h with
    | nil => exact id
    | cons hpair _ ih =>
      intro entries entries' hentries
      exact ih (put_alike hentries hpair)
  exact hfrom .nil

theorem find?_alike {pairs pairs' : List (String × Value)}
    (h : List.Forall₂ (BindingAlike twins) pairs pairs') (name : String) :
    Option.Rel (Value.Alike twins) ((ofPairs pairs).find? name) ((ofPairs pairs').find? name) := by
  have hfound : Option.Rel (BindingAlike twins) ((ofPairs pairs).entries.find? (·.1 == name))
      ((ofPairs pairs').entries.find? (·.1 == name)) := by
    apply find?_rel (ofPairs_alike h)
    rintro _ _ ⟨other, _⟩
    rfl
  apply map_rel hfound
  rintro _ _ ⟨_, hv⟩
  exact hv

end Bindings

namespace Scope

theorem ofPairs_alike {pairs pairs' : List (String × Value)}
    (h : List.Forall₂ (BindingAlike twins) pairs pairs') :
    Alike twins (.ofPairs pairs) (.ofPairs pairs') := by
  intro name
  exact getD_alike (Bindings.find?_alike h name)

/-- Scopes stay alike if both get bindings that are alike. -/
theorem Alike.extend {scope scope' : Scope} (hscope : Alike twins scope scope')
    {pairs pairs' : List (String × Value)}
    (h : List.Forall₂ (BindingAlike twins) pairs pairs') :
    Alike twins (scope.extend pairs) (scope'.extend pairs') := by
  intro name
  have hown := Bindings.find?_alike h name
  unfold lookup Scope.extend find?
  generalize (Bindings.ofPairs pairs).find? name = found at hown ⊢
  generalize (Bindings.ofPairs pairs').find? name = found' at hown ⊢
  cases hown with
  | some hv => exact hv
  | none => exact hscope name

end Scope

/-! ### Expressions -/

namespace Expr

section

variable {scope scope' : Scope}

/-- In the two scopes an expression gives values that are alike, or the same fault. -/
def SeenAlike (twins : Nat → Nat → Prop) (scope scope' : Scope) (e : Expr) : Prop :=
  ∀ depth, SameOutcome (Value.Alike twins) (eval scope depth e) (eval scope' depth e)

/-- What a text writes without naming anything is no host object. -/
theorem numberValue_alike {digits : String} {v : Value} (h : Reader.numberValue digits = .ok v) :
    Value.Alike twins v v := by
  unfold Reader.numberValue at h
  simp only at h
  split at h
  · split at h
    · cases h
      exact .int _
    · cases h
  · cases h
    exact .float _

theorem keywordValue_alike (k : Keyword) :
    Value.Alike twins (Reader.keywordValue k) (Reader.keywordValue k) := by
  cases k with
  | yes => exact .bool true
  | no => exact .bool false
  | null => exact .null

theorem SeenAlike.of_literal {v : Value} (h : Value.Alike twins v v) :
    SeenAlike twins scope scope' (.literal v) := by
  intro depth
  rw [eval, eval]
  exact .ok h

theorem SeenAlike.of_name (hscope : Scope.Alike twins scope scope') (n : String) :
    SeenAlike twins scope scope' (.name n) := by
  intro depth
  rw [eval, eval]
  exact .ok (hscope n)

/-- An operation is seen alike if it is with at least one level for it. -/
theorem SeenAlike.of_succ {e : Expr} (hzero : eval scope 0 e = .error .tooDeep)
    (hzero' : eval scope' 0 e = .error .tooDeep)
    (h : ∀ depth, SameOutcome (Value.Alike twins) (eval scope (depth + 1) e)
      (eval scope' (depth + 1) e)) : SeenAlike twins scope scope' e := by
  intro depth
  cases depth with
  | zero =>
    rw [hzero, hzero']
    exact .error _
  | succ depth => exact h depth

theorem SeenAlike.group {e : Expr} (h : SeenAlike twins scope scope' e) :
    SeenAlike twins scope scope' (.group e) := by
  apply of_succ rfl rfl
  intro depth
  exact h depth

theorem SeenAlike.property (htwins : Relator.BiUnique twins) {target : Expr}
    (h : SeenAlike twins scope scope' target) (name : String) :
    SeenAlike twins scope scope' (.property target name) := by
  apply of_succ rfl rfl
  intro depth
  apply (h depth).bind
  intro v v' hv
  exact hv.propertyValue htwins name

theorem SeenAlike.index (htwins : Relator.BiUnique twins) {target key : Expr}
    (htarget : SeenAlike twins scope scope' target) (hkey : SeenAlike twins scope scope' key) :
    SeenAlike twins scope scope' (.index target key) := by
  apply of_succ rfl rfl
  intro depth
  apply (htarget depth).bind
  intro a a' ha
  apply (hkey depth).bind
  intro b b' hb
  exact ha.indexValue htwins hb

theorem SeenAlike.unary {operand : Expr} (op : UnaryOp)
    (h : SeenAlike twins scope scope' operand) :
    SeenAlike twins scope scope' (.unary op operand) := by
  apply of_succ rfl rfl
  intro depth
  apply (h depth).bind
  intro v v' hv
  exact hv.unary op

/-- If the left operand decides in one scope, it does so in the other one. -/
theorem SeenAlike.logical {left right : Expr} (op : LogicalOp)
    (hleft : SeenAlike twins scope scope' left) (hright : SeenAlike twins scope scope' right) :
    SeenAlike twins scope scope' (.logical left op right) := by
  apply of_succ rfl rfl
  intro depth
  apply (hleft depth).bind
  intro a a' ha
  rw [ha.decides op]
  cases a'.decides op with
  | error fault => exact .error fault
  | ok decided =>
    cases decided with
    | true => exact .ok ha
    | false => exact hright depth

theorem SeenAlike.binary (htwins : Relator.BiUnique twins) {left right : Expr} (op : BinaryOp)
    (hleft : SeenAlike twins scope scope' left) (hright : SeenAlike twins scope scope' right) :
    SeenAlike twins scope scope' (.binary left op right) := by
  apply of_succ rfl rfl
  intro depth
  apply (hleft depth).bind
  intro a a' ha
  apply (hright depth).bind
  intro b b' hb
  exact ha.binary htwins op hb

/-- The items of a list are seen alike if the list is. -/
theorem SeenAlike.evalAll {items : List Expr} (h : SeenAlike twins scope scope' (.list items))
    (depth : Nat) : SameOutcome (List.Forall₂ (Value.Alike twins))
      (evalAll scope depth items) (evalAll scope' depth items) := by
  have hlist := h (depth + 1)
  rw [eval, eval] at hlist
  generalize Expr.evalAll scope depth items = made at hlist ⊢
  generalize Expr.evalAll scope' depth items = made' at hlist ⊢
  cases made with
  | error fault =>
    cases made' with
    | error fault' =>
      cases hlist
      exact .error fault
    | ok vs' => cases hlist
  | ok vs =>
    cases made' with
    | error fault' => cases hlist
    | ok vs' =>
      cases hlist with
      | ok hvs =>
        cases hvs with
        | list hvs => exact .ok hvs

theorem SeenAlike.of_noItems : SeenAlike twins scope scope' (.list []) := by
  apply of_succ rfl rfl
  intro depth
  exact .ok (.list .nil)

theorem SeenAlike.moreItems {e : Expr} {items : List Expr} (h : SeenAlike twins scope scope' e)
    (hitems : SeenAlike twins scope scope' (.list items)) :
    SeenAlike twins scope scope' (.list (e :: items)) := by
  have hall : ∀ depth, SameOutcome (List.Forall₂ (Value.Alike twins))
      (Expr.evalAll scope depth (e :: items)) (Expr.evalAll scope' depth (e :: items)) := by
    intro depth
    apply (h depth).bind
    intro v v' hv
    apply (hitems.evalAll depth).bind
    intro vs vs' hvs
    exact .ok (.cons hv hvs)
  apply of_succ rfl rfl
  intro depth
  apply (hall depth).bind
  intro vs vs' hvs
  exact .ok (.list hvs)

theorem SeenAlike.join (htwins : Relator.BiUnique twins) {level : Level} {op : Operator}
    {join : Expr → Expr → Expr} (hjoin : level.join? op = some join) {left right : Expr}
    (hleft : SeenAlike twins scope scope' left) (hright : SeenAlike twins scope scope' right) :
    SeenAlike twins scope scope' (join left right) := by
  cases level with
  | disjunction | conjunction =>
    cases op <;> cases hjoin
    exact hleft.logical _ hright
  | equality | comparison | sum | product =>
    cases op <;> cases hjoin <;> exact hleft.binary htwins _ hright

/-- Whatever derives from tokens is seen alike in scopes that are alike. -/
theorem seenAlike_of_derives (htwins : Relator.BiUnique twins)
    (hscope : Scope.Alike twins scope scope') {n : Nonterminal} {u : List Token} {e : Expr}
    (h : Derives n u e) : SeenAlike twins scope scope' e := by
  induction h with
  | alone _ ih | unsigned _ ih | whole _ ih => exact ih
  | join _ _ hjoin _ ihleft ihright => exact ihleft.join htwins hjoin ihright
  | not _ _ ih => exact ih.unary .not
  | neg _ _ ih => exact ih.unary .neg
  | property _ _ _ ih => exact ih.property htwins _
  | index _ _ _ _ ih ihkey => exact ih.index htwins ihkey
  | number _ hvalue => exact .of_literal (numberValue_alike hvalue)
  | string _ => exact .of_literal (.string _)
  | keyword _ => exact .of_literal (keywordValue_alike _)
  | name _ => exact .of_name hscope _
  | group _ _ _ ih => exact ih.group
  | noItems _ _ => exact .of_noItems
  | list _ _ _ ih => exact ih
  | item _ ih => exact ih.moreItems .of_noItems
  | moreItems _ _ _ ih ihitems => exact ih.moreItems ihitems

end

/-- Outcomes that are alike come to values that are alike, with the same remark. -/
theorem settle_alike (text : String) {outcome outcome' : Except EvalFault Value}
    (h : SameOutcome (Value.Alike twins) outcome outcome') :
    SameOutcome (fun made made' => Value.Alike twins made.1 made'.1 ∧ made.2 = made'.2)
      (settle text outcome) (settle text outcome') := by
  cases h with
  | ok hv => exact .ok ⟨hv, rfl⟩
  | error fault =>
    simp only [settle]
    cases fault.host?.bind (·.escape?) with
    | some className => exact .error _
    | none => exact .ok ⟨.undefined, rfl⟩

/-- In scopes that are alike a text has values that are alike, with the same remark. -/
theorem evaluate_alike (htwins : Relator.BiUnique twins) {scope scope' : Scope}
    (hscope : Scope.Alike twins scope scope') (text : String) :
    SameOutcome (fun made made' => Value.Alike twins made.1 made'.1 ∧ made.2 = made'.2)
      (evaluate scope text) (evaluate scope' text) := by
  unfold evaluate
  cases hread : read text with
  | error fault =>
    cases fault with
    | tooManyDigits => exact .error _
    | malformed | tooDeep => exact .ok ⟨.undefined, rfl⟩
  | ok e =>
    obtain ⟨tokens, -, hderives⟩ := derives_of_read hread
    exact settle_alike text (seenAlike_of_derives htwins hscope hderives maxDepth)

end Expr

end TextTemplate
