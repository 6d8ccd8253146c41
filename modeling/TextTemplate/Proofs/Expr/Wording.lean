import Mathlib.Data.List.Forall2
import TextTemplate.Proofs.Expr.Parsing

/-! # Reading depends on the words only

  Where tokens stand in a text counts for nothing but the positions that faults
  name.  Of a number, only its value counts.  So tokens that say the same, one by
  one, are read as the same expression, or both are malformed, or both hit the same
  limit (`bounded_alike`).  Each reader keeps this relation (`ReadsAlike`), since
  it does if the readers that it is built from do.
-/

namespace TextTemplate

open TextTemplate.Expr

/-- The lexemes say the same: they are equal, or numbers with the same value. -/
inductive Lexeme.SaysSame : Lexeme → Lexeme → Prop where
  | refl (lexeme : Lexeme) : SaysSame lexeme lexeme
  | number {digits digits' : String} : Reader.numberValue digits = Reader.numberValue digits' →
      SaysSame (.number digits) (.number digits')

/-- The tokens say the same, one by one. -/
abbrev Worded (tokens tokens' : List Token) : Prop :=
  List.Forall₂ (fun t t' => t.lexeme.SaysSame t'.lexeme) tokens tokens'

namespace Lexeme.SaysSame

variable {lexeme lexeme' : Lexeme}

theorem joins (h : lexeme.SaysSame lexeme') (level : Level) :
    Reader.joins level lexeme = Reader.joins level lexeme' := by
  cases h <;> rfl

theorem sign? (h : lexeme.SaysSame lexeme') : Reader.sign? lexeme = Reader.sign? lexeme' := by
  cases h <;> rfl

theorem propertyName? (h : lexeme.SaysSame lexeme') :
    Reader.propertyName? lexeme = Reader.propertyName? lexeme' := by
  cases h <;> rfl

theorem eq_symbol_iff (h : lexeme.SaysSame lexeme') (s : Symbol) :
    lexeme = .symbol s ↔ lexeme' = .symbol s := by
  cases h with
  | refl => rfl
  | number _ => simp

end Lexeme.SaysSame

namespace Reader

/-- Both readings succeed, with the same result before tokens that say the same; or both find the
    tokens malformed; or both fail for the same other reason. -/
inductive SameReading {α : Type} : Except ReadFault (α × List Token) →
    Except ReadFault (α × List Token) → Prop where
  | ok (a : α) {rest rest' : List Token} :
      Worded rest rest' → SameReading (.ok (a, rest)) (.ok (a, rest'))
  | malformed (cause cause' : SyntaxCause) (position position' : Nat) :
      SameReading (.error (.malformed cause position)) (.error (.malformed cause' position'))
  | fault (fault : ReadFault) : SameReading (.error fault) (.error fault)

theorem SameReading.bind {α β : Type} {x x' : Except ReadFault (α × List Token)}
    {f f' : α × List Token → Except ReadFault (β × List Token)} (h : SameReading x x')
    (hnext : ∀ a rest rest', x = .ok (a, rest) → Worded rest rest' →
      SameReading (f (a, rest)) (f' (a, rest'))) :
    SameReading (x >>= f) (x' >>= f') := by
  cases h with
  | ok a hrest => exact hnext a _ _ rfl hrest
  | malformed cause cause' position position' => exact .malformed cause cause' position position'
  | fault fault => exact .fault fault

/-- The readers read tokens that say the same in the same way. -/
def ReadsAlike (r r' : Reader) : Prop :=
  ∀ {tokens tokens' : List Token}, Worded tokens tokens' →
    SameReading (r.outcome tokens) (r'.outcome tokens')

variable {inner inner' operand operand' : Reader} {stop stop' : Nat} {tokens tokens' : List Token}

/-- Operators between operands.  The induction is on the number of tokens. -/
theorem joined_alike (h : ReadsAlike operand operand') (level : Level) (left : Expr)
    (htokens : Worded tokens tokens') :
    SameReading (joined operand (joins level) left tokens)
      (joined operand' (joins level) left tokens') := by
  induction hlength : tokens.length using Nat.strongRecOn generalizing left tokens tokens' with
  | ind length ih =>
    cases htokens with
    | nil =>
      rw [joined_nil, joined_nil]
      exact .ok left .nil
    | @cons t t' after after' ht hafter =>
      have hjoin := ht.joins level
      cases hgoOn : joins level t.lexeme with
      | none =>
        rw [joined_stop hgoOn, joined_stop (hjoin ▸ hgoOn)]
        exact .ok left (.cons ht hafter)
      | some join =>
        rw [joined_goOn hgoOn, joined_goOn (hjoin ▸ hgoOn)]
        -- The right operand is not empty, so what is left is shorter.
        apply (h hafter).bind
        intro right rest rest' hright hrest
        have hshorter := length_lt_of_outcome hright
        rw [List.length_cons] at hlength
        exact ih rest.length (by omega) _ hrest rfl

theorem signed_alike (h : ReadsAlike operand operand') (limit : Nat) :
    ReadsAlike (signed operand limit) (signed operand' limit) := by
  intro tokens tokens' htokens
  induction htokens generalizing limit with
  | nil =>
    rw [outcome_signed_nil, outcome_signed_nil]
    exact h .nil
  | @cons t t' after after' ht hafter ih =>
    have hsign := ht.sign?
    cases hop : sign? t.lexeme with
    | none =>
      rw [outcome_signed_plain hop, outcome_signed_plain (hsign ▸ hop)]
      exact h (.cons ht hafter)
    | some op =>
      cases limit with
      | zero =>
        rw [outcome_signed_zero hop, outcome_signed_zero (hsign ▸ hop)]
        exact .fault .tooDeep
      | succ limit =>
        rw [outcome_signed_succ hop, outcome_signed_succ (hsign ▸ hop)]
        apply (ih limit).bind
        intro e rest rest' _ hrest
        exact .ok _ hrest

/-- What has to be closed is closed in both readings, or in none. -/
theorem closedBy_alike {α : Type} (s : Symbol) (cause : SyntaxCause)
    {goOn goOn' : List Token → Except ReadFault (α × List Token)}
    (hgoOn : ∀ rest rest', Worded rest rest' → rest.length < tokens.length →
      SameReading (goOn rest) (goOn' rest'))
    (htokens : Worded tokens tokens') :
    SameReading (closedBy s cause stop goOn tokens) (closedBy s cause stop' goOn' tokens') := by
  cases htokens with
  | nil => exact .malformed ..
  | @cons t t' rest rest' ht hrest =>
    by_cases hclosing : t.lexeme = .symbol s
    · have hclosing' := (ht.eq_symbol_iff s).1 hclosing
      simp only [closedBy, if_pos hclosing, if_pos hclosing']
      exact hgoOn rest rest' hrest (by simp)
    · have hclosing' := fun h => hclosing ((ht.eq_symbol_iff s).2 h)
      simp only [closedBy, if_neg hclosing, if_neg hclosing']
      exact .malformed ..

/-- A property's name stands behind both points, or behind none. -/
theorem followed_dot_alike {dot dot' : Token} (hdot : dot.lexeme = .symbol .dot)
    (hdot' : dot'.lexeme = .symbol .dot) (target : Expr) {after after' : List Token}
    (hgoOn : ∀ name rest rest', Worded rest rest' → rest.length < after.length →
      SameReading (followed inner stop (.property target name) rest)
        (followed inner' stop' (.property target name) rest'))
    (hafter : Worded after after') :
    SameReading (followed inner stop target (dot :: after))
      (followed inner' stop' target (dot' :: after')) := by
  have hunnamed : (∀ key ∈ after.head?, propertyName? key.lexeme = none) →
      (∀ key ∈ after'.head?, propertyName? key.lexeme = none) →
      SameReading (followed inner stop target (dot :: after))
        (followed inner' stop' target (dot' :: after')) := by
    intro hnone hnone'
    obtain ⟨position, hfault⟩ : ∃ position, followed inner stop target (dot :: after)
        = .error (.malformed .missingPropertyName position) :=
      followed_unnamed hdot hnone target
    obtain ⟨position', hfault'⟩ : ∃ position, followed inner' stop' target (dot' :: after')
        = .error (.malformed .missingPropertyName position) :=
      followed_unnamed hdot' hnone' target
    rw [hfault, hfault']
    exact .malformed ..
  cases hafter with
  | nil => exact hunnamed (by simp) (by simp)
  | @cons key key' rest rest' hkey hrest =>
    have hsame := hkey.propertyName?
    cases hname : propertyName? key.lexeme with
    | none =>
      rw [hname] at hsame
      exact hunnamed (by simp [hname]) (by simp [← hsame])
    | some name =>
      rw [hname] at hsame
      rw [followed_property hdot hname, followed_property hdot' hsame.symm]
      exact hgoOn name rest rest' hrest (by simp)

/-- Properties and indexes.  The induction is on the number of tokens. -/
theorem followed_alike (h : ReadsAlike inner inner') (target : Expr)
    (htokens : Worded tokens tokens') :
    SameReading (followed inner stop target tokens) (followed inner' stop' target tokens') := by
  induction hlength : tokens.length using Nat.strongRecOn generalizing target tokens tokens' with
  | ind length ih =>
    cases htokens with
    | nil =>
      rw [followed_stop (by simp), followed_stop (by simp)]
      exact .ok target .nil
    | @cons t t' after after' ht hafter =>
      rw [List.length_cons] at hlength
      by_cases hdot : t.lexeme = .symbol .dot
      · have hdot' := (ht.eq_symbol_iff .dot).1 hdot
        apply followed_dot_alike hdot hdot' target _ hafter
        intro name rest rest' hrest hlt
        exact ih rest.length (by omega) _ hrest rfl
      by_cases hopening : t.lexeme = .symbol .openBracket
      · have hopening' := (ht.eq_symbol_iff .openBracket).1 hopening
        rw [followed_index hopening, followed_index hopening']
        apply (h hafter).bind
        intro key rest rest' hkey hrest
        have hshorter := length_lt_of_outcome hkey
        apply closedBy_alike .closeBracket .unclosedIndex _ hrest
        intro last last' hlast hlt
        exact ih last.length (by omega) _ hlast rfl
      · have hstop : ∀ x ∈ (t :: after).head?,
            x.lexeme ≠ .symbol .dot ∧ x.lexeme ≠ .symbol .openBracket := by
          intro x hx
          obtain rfl := Option.some.inj hx
          exact ⟨hdot, hopening⟩
        have hstop' : ∀ x ∈ (t' :: after').head?,
            x.lexeme ≠ .symbol .dot ∧ x.lexeme ≠ .symbol .openBracket := by
          intro x hx
          obtain rfl := Option.some.inj hx
          rw [Ne, Ne, ← ht.eq_symbol_iff, ← ht.eq_symbol_iff]
          exact ⟨hdot, hopening⟩
        rw [followed_stop hstop, followed_stop hstop']
        exact .ok target (.cons ht hafter)

/-- Behind an item both lists go on, or both end. -/
theorem endOfItem_alike (item : Expr)
    {goOn goOn' : List Token → Except ReadFault (List Expr × List Token)}
    (hgoOn : ∀ rest rest', Worded rest rest' → rest.length < tokens.length →
      SameReading (goOn rest) (goOn' rest'))
    (htokens : Worded tokens tokens') :
    SameReading (endOfItem stop item goOn tokens) (endOfItem stop' item goOn' tokens') := by
  cases htokens with
  | nil => exact .malformed ..
  | @cons t t' rest rest' ht hrest =>
    simp only [endOfItem, ← ht.eq_symbol_iff]
    by_cases hclosing : t.lexeme = .symbol .closeBracket
    · rw [if_pos hclosing, if_pos hclosing]
      exact .ok _ hrest
    rw [if_neg hclosing, if_neg hclosing]
    by_cases hcomma : t.lexeme = .symbol .comma
    · rw [if_pos hcomma, if_pos hcomma]
      apply (hgoOn rest rest' hrest (by simp)).bind
      intro items last last' _ hlast
      exact .ok _ hlast
    · rw [if_neg hcomma, if_neg hcomma]
      exact .malformed ..

/-- The items of a list.  The induction is on the number of tokens. -/
theorem itemsOf_alike (h : ReadsAlike inner inner') (htokens : Worded tokens tokens') :
    SameReading (itemsOf inner stop tokens) (itemsOf inner' stop' tokens') := by
  induction hlength : tokens.length using Nat.strongRecOn generalizing tokens tokens' with
  | ind length ih =>
    rw [itemsOf_eq, itemsOf_eq]
    apply (h htokens).bind
    intro item rest rest' hitem hrest
    have hshorter := length_lt_of_outcome hitem
    apply endOfItem_alike item _ hrest
    intro last last' hlast hlt
    exact ih last.length (by omega) hlast rfl

/-- A list in brackets, with items or without. -/
theorem operand_list_alike (h : ReadsAlike inner inner') {opening opening' : Token}
    (hopening : opening.lexeme = .symbol .openBracket)
    (hopening' : opening'.lexeme = .symbol .openBracket) {after after' : List Token}
    (hafter : Worded after after') :
    SameReading ((Reader.operand inner stop).outcome (opening :: after))
      ((Reader.operand inner' stop').outcome (opening' :: after')) := by
  have hitems : (∀ t ∈ after.head?, t.lexeme ≠ .symbol .closeBracket) →
      (∀ t ∈ after'.head?, t.lexeme ≠ .symbol .closeBracket) →
      SameReading ((Reader.operand inner stop).outcome (opening :: after))
        ((Reader.operand inner' stop').outcome (opening' :: after')) := by
    intro hnone hnone'
    rw [outcome_operand_list hopening hnone, outcome_operand_list hopening' hnone']
    apply (itemsOf_alike h hafter).bind
    intro items rest rest' _ hrest
    exact .ok _ hrest
  cases hafter with
  | nil => exact hitems (by simp) (by simp)
  | @cons t t' rest rest' ht hrest =>
    by_cases hclosing : t.lexeme = .symbol .closeBracket
    · have hclosing' := (ht.eq_symbol_iff .closeBracket).1 hclosing
      rw [outcome_operand_noItems hopening hclosing, outcome_operand_noItems hopening' hclosing']
      exact .ok _ hrest
    · apply hitems
      · simpa using hclosing
      · simpa [← ht.eq_symbol_iff] using hclosing

theorem operand_alike (h : ReadsAlike inner inner') :
    ReadsAlike (Reader.operand inner stop) (Reader.operand inner' stop') := by
  intro tokens tokens' htokens
  cases htokens with
  | nil =>
    rw [outcome_operand_nil, outcome_operand_nil]
    exact .malformed ..
  | @cons t t' after after' ht hafter =>
    have hnumber : ∀ digits digits', t.lexeme = .number digits → t'.lexeme = .number digits' →
        numberValue digits = numberValue digits' →
        SameReading ((Reader.operand inner stop).outcome (t :: after))
          ((Reader.operand inner' stop').outcome (t' :: after')) := by
      intro digits digits' hlexeme hlexeme' hvalue
      rw [outcome_operand_number hlexeme, outcome_operand_number hlexeme', hvalue]
      cases numberValue digits' with
      | error fault => exact .fault fault
      | ok v => exact .ok _ hafter
    -- Equal lexemes are read by the same rule; only numbers may differ.
    generalize hlexeme : t.lexeme = lexeme at ht
    generalize hlexeme' : t'.lexeme = lexeme' at ht
    cases ht with
    | number hvalue => exact hnumber _ _ hlexeme hlexeme' hvalue
    | refl =>
      cases lexeme with
      | number digits => exact hnumber digits digits hlexeme hlexeme' rfl
      | string content =>
        rw [outcome_operand_string hlexeme, outcome_operand_string hlexeme']
        exact .ok _ hafter
      | keyword k =>
        rw [outcome_operand_keyword hlexeme, outcome_operand_keyword hlexeme']
        exact .ok _ hafter
      | name n =>
        rw [outcome_operand_name hlexeme, outcome_operand_name hlexeme']
        exact .ok _ hafter
      | operator op =>
        rw [outcome_operand_other after (.inl ⟨op, hlexeme⟩),
          outcome_operand_other after' (.inl ⟨op, hlexeme'⟩)]
        exact .malformed ..
      | symbol s =>
        by_cases hparen : s = .openParen
        · subst hparen
          rw [outcome_operand_group hlexeme, outcome_operand_group hlexeme']
          apply (h hafter).bind
          intro e rest rest' _ hrest
          apply closedBy_alike .closeParen .unclosedGroup _ hrest
          intro last last' hlast _
          exact .ok _ hlast
        by_cases hbracket : s = .openBracket
        · subst hbracket
          exact operand_list_alike h hlexeme hlexeme' hafter
        · rw [outcome_operand_other after (.inr ⟨s, hlexeme, hparen, hbracket⟩),
            outcome_operand_other after' (.inr ⟨s, hlexeme', hparen, hbracket⟩)]
          exact .malformed ..

/-- Readers of a nonterminal read alike if the readers of what stands in brackets do. -/
theorem ofNonterminal_alike (h : ReadsAlike inner inner') (signs : Nat) {n : Nonterminal}
    (hn : n ≠ .items) :
    ReadsAlike (ofNonterminal inner stop signs n) (ofNonterminal inner' stop' signs n) := by
  intro tokens tokens' htokens
  fun_induction ofNonterminal inner stop signs n generalizing tokens tokens' with
  | case1 level ih =>
    have hoperand : ReadsAlike (ofNonterminal inner stop signs level.operand)
        (ofNonterminal inner' stop' signs level.operand) :=
      ih (by cases level <;> simp [Level.operand])
    rw [outcome_chain, outcome_joined]
    apply (hoperand htokens).bind
    intro left rest rest' _ hrest
    exact joined_alike hoperand level left hrest
  | case2 ih =>
    rw [ofNonterminal]
    exact signed_alike (ih (by simp)) signs htokens
  | case3 ih =>
    rw [ofNonterminal, outcome_accessed, outcome_accessed]
    apply (ih (by simp) htokens).bind
    intro target rest rest' _ hrest
    exact followed_alike h target hrest
  | case4 =>
    rw [ofNonterminal]
    exact operand_alike h htokens
  | case5 => exact absurd rfl hn

/-- The same limit on brackets makes the same difference. -/
theorem bounded_alike (stop stop' signs brackets : Nat) :
    ReadsAlike (bounded stop signs brackets) (bounded stop' signs brackets) := by
  induction brackets with
  | zero =>
    intro tokens tokens' htokens
    exact .fault .tooDeep
  | succ brackets ih => exact ofNonterminal_alike ih signs Nonterminal.noConfusion

end Reader

namespace Expr

open Reader

/-- Both readings give the same, or both find a text malformed, be it for different causes. -/
inductive SameRead : Except ReadFault Expr → Except ReadFault Expr → Prop where
  | same (result : Except ReadFault Expr) : SameRead result result
  | malformed (cause cause' : SyntaxCause) (position position' : Nat) :
      SameRead (.error (.malformed cause position)) (.error (.malformed cause' position'))

/-- Tokens that say the same are read alike. -/
theorem ofTokens_alike (stop stop' : Nat) {tokens tokens' : List Token}
    (htokens : Worded tokens tokens') :
    SameRead (ofTokens stop tokens) (ofTokens stop' tokens') := by
  have hread := bounded_alike stop stop' maxSigns (maxBrackets + 1) htokens
  by_cases hempty : tokens = []
  · subst hempty
    cases htokens
    exact .same _
  have hempty' : tokens' ≠ [] := by
    rintro rfl
    exact hempty (List.forall₂_nil_right_iff.1 htokens)
  rw [ofTokens_eq stop hempty, ofTokens_eq stop' hempty']
  generalize (bounded stop maxSigns (maxBrackets + 1)).outcome tokens = made at hread ⊢
  generalize (bounded stop' maxSigns (maxBrackets + 1)).outcome tokens' = made' at hread ⊢
  -- Nothing is left in one reading if nothing is left in the other.
  cases hread with
  | malformed => exact .malformed ..
  | fault fault => exact .same _
  | ok read hrest =>
    cases hrest with
    | nil => exact .same _
    | cons _ _ => exact .malformed ..

/-- Tokens that say the same are read as the same expression. -/
theorem ofTokens_worded (stop stop' : Nat) {tokens tokens' : List Token} {e : Expr}
    (htokens : Worded tokens tokens') (h : ofTokens stop tokens = .ok e) :
    ofTokens stop' tokens' = .ok e := by
  have halike := ofTokens_alike stop stop' htokens
  rw [h] at halike
  generalize ofTokens stop' tokens' = read' at halike ⊢
  cases halike
  rfl

end Expr

end TextTemplate
