import Mathlib.Data.List.Permutation
import TextTemplate.Proofs.Expr.Reading

/-! # Reading finds the derivation

  Each reader takes the longest phrase of its nonterminal from the front of some
  tokens.  One way, whatever it takes has a derivation, and whenever it fails the
  tokens are to blame (`Explained`).  The other way, a phrase that nothing behind
  it goes on with is found, unless a limit is hit (`Derives.found`).  Both hold for
  any limits.  The grammar has none; a reader whose limits the tokens stay below
  finds every derivation of them, so there is only one (`Derives.unique`).
-/

namespace TextTemplate

open TextTemplate.Expr

namespace Expr

/-! ### How tightly phrases bind -/

/-- The levels in order, the loosest first. -/
def Level.rank : Level → Nat
  | .disjunction => 0
  | .conjunction => 1
  | .equality => 2
  | .comparison => 3
  | .sum => 4
  | .product => 5

/-- A nonterminal with a higher rank binds tighter. -/
def Nonterminal.rank : Nonterminal → Nat
  | .joined level => level.rank
  | .signed => 6
  | .accessed => 7
  | .operand | .items => 8

theorem Level.rank_operand (level : Level) : level.operand.rank = level.rank + 1 := by
  cases level <;> rfl

/-- The rank of the phrase that goes on with a lexeme behind it. -/
def binding : Lexeme → Option Nat
  | .operator .or => some 0
  | .operator .and => some 1
  | .operator .eq | .operator .ne => some 2
  | .operator .lt | .operator .le | .operator .gt | .operator .ge => some 3
  | .operator .add | .operator .sub => some 4
  | .operator .mul | .operator .div | .operator .mod => some 5
  | .symbol .dot | .symbol .openBracket => some 7
  | _ => none

/-- No phrase of the rank or a higher one goes on with the tokens. -/
def Ends (rank : Nat) (tokens : List Token) : Prop :=
  ∀ t ∈ tokens.head?, ∀ r ∈ binding t.lexeme, r < rank

theorem binding_of_join? {level : Level} {op : Operator} {join : Expr → Expr → Expr}
    (h : level.join? op = some join) : binding (.operator op) = some level.rank := by
  cases level <;> cases op <;> cases h <;> rfl

theorem Ends.nil (rank : Nat) : Ends rank [] := fun _ h => absurd h (Option.not_mem_none _)

theorem Ends.cons {rank : Nat} {t : Token} (h : ∀ r ∈ binding t.lexeme, r < rank)
    (rest : List Token) : Ends rank (t :: rest) := by
  intro t' ht'
  obtain rfl : t = t' := Option.some.inj ht'
  exact h

theorem Ends.mono {rank rank' : Nat} {tokens : List Token} (h : Ends rank tokens)
    (hle : rank ≤ rank') : Ends rank' tokens :=
  fun t ht r hr => Nat.lt_of_lt_of_le (h t ht r hr) hle

end Expr

namespace Reader

/-! ### The reader of a nonterminal -/

/-- What a lexeme between two phrases of a level makes of them. -/
def joins (level : Level) : Lexeme → Option (Expr → Expr → Expr)
  | .operator op => level.join? op
  | _ => none

/-- Reads one phrase of a nonterminal; `inner` reads what stands in brackets.  The items of a list
    are read with the bracket that closes it. -/
def ofNonterminal (inner : Reader) (stop signs : Nat) : Nonterminal → Reader
  | .joined level => chain (joins level) (ofNonterminal inner stop signs level.operand)
  | .signed => signed (ofNonterminal inner stop signs .accessed) signs
  | .accessed => accessed inner stop (ofNonterminal inner stop signs .operand)
  | .operand => operand inner stop
  | .items => fun tokens => do
    let p ← listItems inner stop tokens
    return ⟨.list p.1.1, p.1.2, p.2⟩
termination_by n => 8 - n.rank
decreasing_by
  · decide
  · decide
  · cases level <;> decide

theorem levels_eq : levels
    = [.disjunction, .conjunction, .equality, .comparison, .sum, .product].map joins := by
  simp only [levels, List.map_cons, List.map_nil, List.cons.injEq, and_true]
  refine ⟨?_, ?_, ?_, ?_, ?_, ?_⟩ <;> funext lexeme <;> cases lexeme with
  | operator op => cases op <;> rfl
  | number | string | keyword | name | symbol => rfl

/-- Reads an expression with at most so many signs in a row and brackets open at once. -/
def bounded (stop signs : Nat) : (brackets : Nat) → Reader
  | 0 => fun tokens => .error ⟨.tooDeep, tokens⟩
  | brackets + 1 => ofNonterminal (bounded stop signs brackets) stop signs .expression

theorem expression_eq_bounded (stop brackets : Nat) :
    expression stop brackets = bounded stop maxSigns brackets := by
  induction brackets with
  | zero => rfl
  | succ brackets ih =>
    rw [expression, ih, bounded, levels_eq]
    simp only [List.map_cons, List.map_nil, List.foldr_cons, List.foldr_nil, ofNonterminal,
      Level.operand]

theorem outcome_joined (inner : Reader) (stop signs : Nat) (level : Level) (tokens : List Token) :
    (ofNonterminal inner stop signs (.joined level)).outcome tokens
      = (ofNonterminal inner stop signs level.operand).outcome tokens >>= fun p =>
        joined (ofNonterminal inner stop signs level.operand) (joins level) p.1 p.2 := by
  rw [ofNonterminal, outcome_chain]

theorem outcome_items (inner : Reader) (stop signs : Nat) (tokens : List Token) :
    (ofNonterminal inner stop signs .items).outcome tokens
      = itemsOf inner stop tokens >>= fun p => .ok (.list p.1, p.2) := by
  rw [ofNonterminal, outcome, itemsOf]
  cases listItems inner stop tokens <;> rfl

theorem joins_eq_some {level : Level} {lexeme : Lexeme} {join : Expr → Expr → Expr}
    (h : joins level lexeme = some join) :
    ∃ op, lexeme = .operator op ∧ level.join? op = some join := by
  cases lexeme with
  | operator op => exact ⟨op, rfl, h⟩
  | number | string | keyword | name | symbol => cases h

/-! ### What is read has a derivation -/

/-- The token is a whole number with more digits than are read. -/
def Overlong (t : Token) : Prop :=
  ∃ digits, t.lexeme = .number digits ∧ '.' ∉ digits.toList ∧ Numeral.maxDigits < digits.length

/-- The tokens are to blame for a fault: they are malformed, hold an overlong number, or hit one of
    the limits on brackets and signs. -/
def Excused (brackets signs : Nat) (tokens : List Token) : ReadFault → Prop
  | .malformed _ _ => True
  | .tooManyDigits => ∃ t ∈ tokens, Overlong t
  | .tooDeep => brackets ≤ nesting tokens ∨ signs < signRun tokens

/-- What is given is a phrase from the front of the tokens, or a fault that is excused. -/
def Explained (n : Nonterminal) (tokens : List Token) (excuse : ReadFault → Prop) :
    Except ReadFault (Expr × List Token) → Prop
  | .ok (e, rest) => ∃ u, u ++ rest = tokens ∧ Derives n u e
  | .error fault => excuse fault

/-- The same for the items of a list, which are read with the bracket that closes it. -/
def ExplainedItems (tokens : List Token) (excuse : ReadFault → Prop) :
    Except ReadFault (List Expr × List Token) → Prop
  | .ok (items, rest) => ∃ u closing, u ++ closing :: rest = tokens ∧
      closing.lexeme = .symbol .closeBracket ∧ Derives .items u (.list items)
  | .error fault => excuse fault

theorem Explained.imp {n n' : Nonterminal} {tokens : List Token}
    {excuse excuse' : ReadFault → Prop} {x : Except ReadFault (Expr × List Token)}
    (hx : Explained n tokens excuse x) (hfault : ∀ fault, excuse fault → excuse' fault)
    (hn : ∀ u e, Derives n u e → Derives n' u e) : Explained n' tokens excuse' x := by
  cases x with
  | error fault => exact hfault fault hx
  | ok p =>
    obtain ⟨u, hu, hd⟩ := hx
    exact ⟨u, hu, hn u p.1 hd⟩

/-- Going on from what is explained. -/
theorem Explained.bind {n n' : Nonterminal} {tokens tokens' : List Token}
    {excuse excuse' : ReadFault → Prop} {x : Except ReadFault (Expr × List Token)}
    {f : Expr × List Token → Except ReadFault (Expr × List Token)}
    (hx : Explained n tokens excuse x) (hfault : ∀ fault, excuse fault → excuse' fault)
    (hok : ∀ u e rest, x = .ok (e, rest) → u ++ rest = tokens → Derives n u e →
      Explained n' tokens' excuse' (f (e, rest))) :
    Explained n' tokens' excuse' (x >>= f) := by
  cases x with
  | error fault => exact hfault fault hx
  | ok p =>
    obtain ⟨u, hu, hd⟩ := hx
    exact hok u p.1 p.2 rfl hu hd

theorem Excused.behind {brackets brackets' signs : Nat} {u rest : List Token} {fault : ReadFault}
    (h : Excused brackets signs rest fault)
    (hnesting : brackets ≤ nesting rest → brackets' ≤ nesting (u ++ rest)) :
    Excused brackets' signs (u ++ rest) fault := by
  cases fault with
  | malformed => trivial
  | tooManyDigits =>
    obtain ⟨t, ht, hlong⟩ := h
    exact ⟨t, List.mem_append_right _ ht, hlong⟩
  | tooDeep =>
    rcases h with h | h
    · exact .inl (hnesting h)
    · exact .inr (Nat.lt_of_lt_of_le h (signRun_append_le u rest))

/-- Digits without a point are those of a whole number. -/
theorem numberValue_whole {digits : String} (hpoint : '.' ∉ digits.toList) :
    numberValue digits = match Numeral.read digits.toList with
      | .ok n => .ok (.int n)
      | .error .tooManyDigits => .error .tooManyDigits := by
  have hwhole : digits.toList.takeWhile (· != '.') = digits.toList := by
    have := @List.takeWhile_append_of_pos _ (· != '.') digits.toList [] fun c hc =>
      bne_iff_ne.2 fun h : c = '.' => hpoint (h ▸ hc)
    simpa using this
  cases hread : Numeral.read digits.toList with
  | ok n => simp only [numberValue, hwhole, List.drop_length, hread]
  | error fault => simp only [numberValue, hwhole, List.drop_length, hread]

/-- The digits of a number have no value only if they are those of a whole number and too many. -/
theorem numberValue_eq_error_iff {digits : String} {fault : ReadFault} :
    numberValue digits = .error fault ↔
      fault = .tooManyDigits ∧ '.' ∉ digits.toList ∧ Numeral.maxDigits < digits.length := by
  constructor
  · intro h
    by_cases hpoint : '.' ∈ digits.toList
    · -- Something is left behind the digits in front of a point, so there is a value.
      simp only [numberValue] at h
      split at h
      · next hall =>
        have hwhole : digits.toList.takeWhile (· != '.') = digits.toList :=
          (List.takeWhile_prefix _).eq_of_length_le (List.drop_eq_nil_iff.1 hall)
        rw [← hwhole] at hpoint
        have := List.all_eq_true.1 List.all_takeWhile _ hpoint
        simp at this
      · cases h
    rw [numberValue_whole hpoint, Numeral.read, String.length_toList] at h
    by_cases hlong : digits.length ≤ Numeral.maxDigits
    · rw [if_pos hlong] at h
      cases h
    · rw [if_neg hlong] at h
      cases h
      exact ⟨rfl, hpoint, by omega⟩
  · rintro ⟨rfl, hpoint, hlong⟩
    have hread : Numeral.read digits.toList = .error .tooManyDigits :=
      if_neg (by rw [String.length_toList]; omega)
    rw [numberValue_whole hpoint, hread]

theorem derives_sign {t : Token} {op : UnaryOp} {u : List Token} {e : Expr}
    (h : sign? t.lexeme = some op) (hu : Derives .signed u e) :
    Derives .signed (t :: u) (.unary op e) := by
  unfold sign? at h
  split at h
  · next hlexeme =>
    cases h
    exact .not hlexeme hu
  · next hlexeme =>
    cases h
    exact .neg hlexeme hu
  · cases h

section Sound

variable {inner operand : Reader} {stop brackets signs : Nat}

theorem explained_joined {level : Level}
    (hoperand : ∀ tokens, Explained level.operand tokens (Excused brackets signs tokens)
      (operand.outcome tokens))
    (u rest : List Token) (left : Expr) (hleft : Derives (.joined level) u left) :
    Explained (.joined level) (u ++ rest) (Excused brackets signs (u ++ rest))
      (joined operand (joins level) left rest) := by
  cases rest with
  | nil =>
    rw [joined_nil]
    exact ⟨u, rfl, hleft⟩
  | cons t after =>
    cases hjoin : joins level t.lexeme with
    | none =>
      rw [joined_stop hjoin]
      exact ⟨u, rfl, hleft⟩
    | some join =>
      obtain ⟨op, hop, hjoin'⟩ := joins_eq_some hjoin
      rw [joined_goOn hjoin]
      refine (hoperand after).bind (fun fault h => ?_) ?_
      · have hnesting : nesting after ≤ nesting (u ++ t :: after) := by
          have := hleft.nesting_le (t :: after)
          rwa [nesting_plain fun s hs => by rw [hop] at hs; cases hs] at this
        rw [List.append_cons] at hnesting ⊢
        exact h.behind fun h => Nat.le_trans h hnesting
      · rintro v right rest hright rfl hv
        have hshorter := length_lt_of_outcome hright
        have := explained_joined hoperand (u ++ t :: v) rest (join left right)
          (.join hleft hop hjoin' hv)
        rwa [List.append_assoc] at this
termination_by rest.length

/-- With fewer signs allowed, those in front may be to blame as well. -/
theorem explained_signed
    (hoperand : ∀ tokens, Explained .accessed tokens (Excused brackets signs tokens)
      (operand.outcome tokens))
    (limit : Nat) (tokens : List Token) :
    Explained .signed tokens
      (fun fault => Excused brackets signs tokens fault ∨
        fault = .tooDeep ∧ limit < signsAhead tokens)
      ((signed operand limit).outcome tokens) := by
  have hplain : (signed operand limit).outcome tokens = operand.outcome tokens →
      Explained .signed tokens (fun fault => Excused brackets signs tokens fault ∨
        fault = .tooDeep ∧ limit < signsAhead tokens) ((signed operand limit).outcome tokens) := by
    intro heq
    rw [heq]
    exact (hoperand tokens).imp (fun _ h => .inl h) fun _ _ hd => .unsigned hd
  cases tokens with
  | nil => exact hplain (outcome_signed_nil limit)
  | cons t after =>
    cases hsign : sign? t.lexeme with
    | none => exact hplain (outcome_signed_plain hsign limit after)
    | some op =>
      have hahead : signsAhead (t :: after) = signsAhead after + 1 := by
        rw [signsAhead, hsign]
        rfl
      cases limit with
      | zero =>
        rw [outcome_signed_zero hsign]
        exact .inr ⟨rfl, by omega⟩
      | succ limit =>
        rw [outcome_signed_succ hsign]
        refine (explained_signed hoperand limit after).bind (fun fault h => ?_) ?_
        · rcases h with h | ⟨rfl, h⟩
          · have hnesting := nesting_plain (t := t) (fun s hs => by rw [hs] at hsign; cases hsign)
              after
            exact .inl (h.behind (u := [t]) fun h => Nat.le_trans h (Nat.le_of_eq hnesting.symm))
          · exact .inr ⟨rfl, by omega⟩
        · rintro u e rest - rfl hd
          exact ⟨t :: u, rfl, derives_sign hsign hd⟩

theorem propertyName?_eq_some {lexeme : Lexeme} {name : String}
    (h : propertyName? lexeme = some name) :
    lexeme = .name name ∨ ∃ k : Keyword, lexeme = .keyword k ∧ k.text = name := by
  unfold propertyName? at h
  split at h
  · exact .inl (congrArg _ (Option.some.inj h))
  · next k => exact .inr ⟨k, rfl, Option.some.inj h⟩
  · cases h

theorem closedBy_eq {α : Type} (s : Symbol) (cause : SyntaxCause) (stop : Nat)
    (goOn : List Token → Except ReadFault α) (tokens : List Token) :
    (∃ t rest, tokens = t :: rest ∧ t.lexeme = .symbol s ∧
      closedBy s cause stop goOn tokens = goOn rest) ∨
    ∃ position, closedBy s cause stop goOn tokens = .error (.malformed cause position) := by
  unfold closedBy
  split
  · next t rest =>
    by_cases h : t.lexeme = .symbol s
    · exact .inl ⟨t, rest, rfl, h, if_pos h⟩
    · exact .inr ⟨_, if_neg h⟩
  · exact .inr ⟨_, rfl⟩

theorem explained_followed
    (hinner : ∀ tokens, Explained .expression tokens (Excused brackets signs tokens)
      (inner.outcome tokens))
    (u rest : List Token) (target : Expr) (htarget : Derives .accessed u target) :
    Explained .accessed (u ++ rest) (Excused (brackets + 1) signs (u ++ rest))
      (followed inner stop target rest) := by
  by_cases hends : ∀ t ∈ rest.head?, t.lexeme ≠ .symbol .dot ∧ t.lexeme ≠ .symbol .openBracket
  · rw [followed_stop hends]
    exact ⟨u, rfl, htarget⟩
  cases rest with
  | nil => exact absurd (fun _ h => absurd h (Option.not_mem_none _)) hends
  | cons t after =>
    by_cases hdot : t.lexeme = .symbol .dot
    · by_cases hkey : ∀ key ∈ after.head?, propertyName? key.lexeme = none
      · obtain ⟨position, heq⟩ : ∃ position, followed inner stop target (t :: after)
            = .error (.malformed .missingPropertyName position) := followed_unnamed hdot hkey target
        rw [heq]
        trivial
      cases after with
      | nil => exact absurd (fun _ h => absurd h (Option.not_mem_none _)) hkey
      | cons key rest =>
        obtain ⟨name, hname⟩ : ∃ name, propertyName? key.lexeme = some name := by
          cases hname : propertyName? key.lexeme with
          | none => exact absurd (fun _ h => by cases h; exact hname) hkey
          | some name => exact ⟨name, rfl⟩
        rw [followed_property hdot hname]
        have := explained_followed hinner (u ++ [t, key]) rest (.property target name)
          (.property htarget hdot (propertyName?_eq_some hname))
        rw [List.append_assoc] at this
        exact this
    · have hopening : t.lexeme = .symbol .openBracket := Decidable.byContradiction fun hopening =>
        hends fun _ h => by cases h; exact ⟨hdot, hopening⟩
      rw [followed_index hopening]
      refine (hinner after).bind (fun fault h => ?_) ?_
      · have hnesting : nesting after + 1 ≤ nesting (u ++ t :: after) := by
          have := htarget.nesting_le (t :: after)
          rwa [nesting_opening (.inr hopening)] at this
        rw [List.append_cons] at hnesting ⊢
        exact h.behind fun h => Nat.le_trans (Nat.add_le_add_right h 1) hnesting
      · rintro v key behind - rfl hv
        obtain ⟨closing, rest, rfl, hclosing, heq⟩ | ⟨position, heq⟩ := closedBy_eq .closeBracket
          .unclosedIndex stop (followed inner stop (.index target key)) behind
        · have := explained_followed hinner (u ++ t :: (v ++ [closing])) rest (.index target key)
            (.index htarget hopening hv hclosing)
          rw [heq]
          simpa using this
        · rw [heq]
          trivial
termination_by rest.length

theorem explained_items
    (hinner : ∀ tokens, Explained .expression tokens (Excused brackets signs tokens)
      (inner.outcome tokens))
    (tokens : List Token) :
    ExplainedItems tokens (Excused brackets signs tokens) (itemsOf inner stop tokens) := by
  have htokens := hinner tokens
  rw [itemsOf_eq]
  cases hread : inner.outcome tokens with
  | error fault =>
    rw [hread] at htokens
    exact htokens
  | ok p =>
    obtain ⟨item, behind⟩ := p
    have hshorter := length_lt_of_outcome hread
    rw [hread] at htokens
    obtain ⟨u, rfl, hu⟩ := htokens
    show ExplainedItems _ _ (endOfItem stop item (itemsOf inner stop) behind)
    cases behind with
    | nil => trivial
    | cons t after =>
      rw [endOfItem]
      by_cases hclosing : t.lexeme = .symbol .closeBracket
      · rw [if_pos hclosing]
        exact ⟨u, t, rfl, hclosing, .item hu⟩
      rw [if_neg hclosing]
      by_cases hcomma : t.lexeme = .symbol .comma
      · have ih := explained_items hinner after
        rw [if_pos hcomma]
        cases hitems : itemsOf inner stop after with
        | error fault =>
          rw [hitems] at ih
          have hnesting : nesting after ≤ nesting (u ++ t :: after) := by
            have := hu.nesting_le (t :: after)
            rwa [nesting_plain fun s hs => by rw [hcomma] at hs; cases hs; exact .inr rfl] at this
          rw [List.append_cons] at hnesting ⊢
          exact ih.behind fun h => Nat.le_trans h hnesting
        | ok p =>
          obtain ⟨items, rest⟩ := p
          rw [hitems] at ih
          obtain ⟨v, closing, rfl, hclosing, hv⟩ := ih
          exact ⟨u ++ t :: v, closing, by simp, hclosing, .moreItems hu hcomma hv⟩
      · rw [if_neg hcomma]
        trivial
termination_by tokens.length

theorem explained_operand
    (hinner : ∀ tokens, Explained .expression tokens (Excused brackets signs tokens)
      (inner.outcome tokens))
    (tokens : List Token) :
    Explained .operand tokens (Excused (brackets + 1) signs tokens)
      ((Reader.operand inner stop).outcome tokens) := by
  cases tokens with
  | nil =>
    rw [outcome_operand_nil]
    trivial
  | cons t after =>
    have hinside : ∀ {fault : ReadFault},
        (t.lexeme = .symbol .openParen ∨ t.lexeme = .symbol .openBracket) →
        Excused brackets signs after fault → Excused (brackets + 1) signs (t :: after) fault := by
      intro fault hopening h
      exact h.behind (u := [t]) fun h => by
        rw [List.singleton_append, nesting_opening hopening]
        omega
    cases hlexeme : t.lexeme with
    | number digits =>
      rw [outcome_operand_number hlexeme]
      cases hvalue : numberValue digits with
      | error fault =>
        obtain ⟨rfl, hlong⟩ := numberValue_eq_error_iff.1 hvalue
        exact ⟨t, List.mem_cons_self, digits, hlexeme, hlong⟩
      | ok v => exact ⟨[t], rfl, .number hlexeme hvalue⟩
    | string content =>
      rw [outcome_operand_string hlexeme]
      exact ⟨[t], rfl, .string hlexeme⟩
    | keyword k =>
      rw [outcome_operand_keyword hlexeme]
      exact ⟨[t], rfl, .keyword hlexeme⟩
    | name n =>
      rw [outcome_operand_name hlexeme]
      exact ⟨[t], rfl, .name hlexeme⟩
    | operator op =>
      rw [outcome_operand_other after (.inl ⟨op, hlexeme⟩)]
      trivial
    | symbol s =>
      by_cases hparen : s = .openParen
      · subst hparen
        rw [outcome_operand_group hlexeme]
        refine (hinner after).bind (fun fault h => hinside (.inl hlexeme) h) ?_
        rintro u e behind - rfl hu
        obtain ⟨closing, rest, rfl, hclosing, heq⟩ | ⟨position, heq⟩ := closedBy_eq .closeParen
          .unclosedGroup stop (fun rest => .ok (Expr.group e, rest)) behind
        · rw [heq]
          exact ⟨t :: (u ++ [closing]), by simp, .group hlexeme hu hclosing⟩
        · rw [heq]
          trivial
      by_cases hbracket : s = .openBracket
      · subst hbracket
        by_cases hitems : ∀ t ∈ after.head?, t.lexeme ≠ .symbol .closeBracket
        · have hafter : ExplainedItems after (Excused brackets signs after)
              (itemsOf inner stop after) := explained_items hinner after
          rw [outcome_operand_list hlexeme hitems]
          cases hread : itemsOf inner stop after with
          | error fault =>
            rw [hread] at hafter
            exact hinside (.inr hlexeme) hafter
          | ok p =>
            obtain ⟨items, rest⟩ := p
            rw [hread] at hafter
            obtain ⟨u, closing, rfl, hclosing, hu⟩ := hafter
            exact ⟨t :: (u ++ [closing]), by simp, .list hlexeme hu hclosing⟩
        cases after with
        | nil => exact absurd (fun _ h => absurd h (Option.not_mem_none _)) hitems
        | cons closing rest =>
          have hclosing : closing.lexeme = .symbol .closeBracket :=
            Decidable.byContradiction fun hclosing => hitems fun _ h => by cases h; exact hclosing
          rw [outcome_operand_noItems hlexeme hclosing]
          exact ⟨[t, closing], rfl, .noItems hlexeme hclosing⟩
      · rw [outcome_operand_other after (.inr ⟨s, hlexeme, hparen, hbracket⟩)]
        trivial

/-- The reader of a nonterminal is as good as the reader of what stands in brackets. -/
theorem explained_ofNonterminal
    (hinner : ∀ tokens, Explained .expression tokens (Excused brackets signs tokens)
      (inner.outcome tokens))
    (n : Nonterminal) (hn : n ≠ .items) (tokens : List Token) :
    Explained n tokens (Excused (brackets + 1) signs tokens)
      ((ofNonterminal inner stop signs n).outcome tokens) := by
  fun_induction ofNonterminal inner stop signs n generalizing tokens with
  | case1 level ih =>
    have hoperand := ih (by cases level <;> simp [Level.operand])
    rw [outcome_chain]
    refine (hoperand tokens).bind (fun _ h => h) ?_
    rintro u e rest - rfl hu
    exact explained_joined hoperand u rest e (.alone hu)
  | case2 ih =>
    refine (explained_signed (ih (by simp)) signs tokens).imp (fun fault h => ?_) fun _ _ h => h
    rcases h with h | ⟨rfl, h⟩
    · exact h
    · exact .inr (Nat.lt_of_lt_of_le h (signsAhead_le_signRun tokens))
  | case3 ih =>
    rw [outcome_accessed]
    refine (ih (by simp) tokens).bind (fun _ h => h) ?_
    rintro u e rest - rfl hu
    exact explained_followed hinner u rest e (.whole hu)
  | case4 => exact explained_operand hinner tokens
  | case5 => exact absurd rfl hn

end Sound

/-- Whatever an expression is read from, it has a derivation; a fault has a cause in the tokens. -/
theorem explained_bounded (stop signs brackets : Nat) (tokens : List Token) :
    Explained .expression tokens (Excused brackets signs tokens)
      ((bounded stop signs brackets).outcome tokens) := by
  induction brackets generalizing tokens with
  | zero => exact .inl (Nat.zero_le _)
  | succ brackets ih =>
    exact explained_ofNonterminal ih .expression Nonterminal.noConfusion tokens

/-! ### What has a derivation is read -/

/-- The first is the second, unless a limit is hit. -/
def Meets {α : Type} (x y : Except ReadFault α) : Prop :=
  x = y ∨ x = .error .tooDeep

theorem Meets.bind {α β : Type} {x : Except ReadFault α} {a : α} {f : α → Except ReadFault β}
    {y : Except ReadFault β} (hx : Meets x (.ok a)) (hf : Meets (f a) y) : Meets (x >>= f) y := by
  rcases hx with rfl | rfl
  · exact hf
  · exact .inr rfl

theorem Meets.trans {α : Type} {x y z : Except ReadFault α} (hxy : Meets x y) (hyz : Meets y z) :
    Meets x z := by
  rcases hxy with rfl | rfl
  · exact hyz
  · exact .inr rfl

/-- The tokens are read as the expression, whatever follows them, as long as the phrase does not go
    on with it.  A phrase that more operators may follow is read as what it is gone on from. -/
def Found (stop signs : Nat) (u : List Token) (e : Expr) : Nonterminal → Prop
  | .joined level => ∀ brackets rest, Ends level.operand.rank rest →
      Meets ((ofNonterminal (bounded stop signs brackets) stop signs (.joined level)).outcome
          (u ++ rest))
        (joined (ofNonterminal (bounded stop signs brackets) stop signs level.operand)
          (joins level) e rest)
  | .signed => ∀ brackets limit rest, Ends 6 rest →
      Meets ((signed (ofNonterminal (bounded stop signs brackets) stop signs .accessed)
        limit).outcome (u ++ rest)) (.ok (e, rest))
  | .accessed => ∀ brackets rest,
      Meets ((ofNonterminal (bounded stop signs brackets) stop signs .accessed).outcome
          (u ++ rest))
        (followed (bounded stop signs brackets) stop e rest)
  | .operand => ∀ brackets rest,
      Meets ((operand (bounded stop signs brackets) stop).outcome (u ++ rest)) (.ok (e, rest))
  | .items => ∀ brackets closing rest, closing.lexeme = .symbol .closeBracket →
      Meets ((ofNonterminal (bounded stop signs brackets) stop signs .items).outcome
        (u ++ closing :: rest)) (.ok (e, rest))

section Complete

variable {stop signs brackets : Nat} {u : List Token} {e : Expr} {n : Nonterminal}

theorem joined_ends {operand : Reader} {level : Level} {rest : List Token}
    (h : Ends level.rank rest) (left : Expr) :
    joined operand (joins level) left rest = .ok (left, rest) := by
  cases rest with
  | nil => exact joined_nil left
  | cons t after =>
    refine joined_stop ?_ left after
    cases hjoin : joins level t.lexeme with
    | none => rfl
    | some join =>
      obtain ⟨op, hop, hjoin⟩ := joins_eq_some hjoin
      have := h t rfl level.rank (by rw [hop]; exact binding_of_join? hjoin)
      exact absurd this (Nat.lt_irrefl _)

theorem Found.meets_joined {level : Level} (h : Found stop signs u e (.joined level))
    {rest : List Token} (hrest : Ends level.rank rest) :
    Meets ((ofNonterminal (bounded stop signs brackets) stop signs (.joined level)).outcome
      (u ++ rest)) (.ok (e, rest)) := by
  have := h brackets rest (hrest.mono (by rw [Level.rank_operand]; exact Nat.le_succ _))
  rwa [joined_ends hrest] at this

theorem Found.meets_operand {level : Level} (h : Found stop signs u e level.operand)
    {rest : List Token} (hrest : Ends level.operand.rank rest) :
    Meets ((ofNonterminal (bounded stop signs brackets) stop signs level.operand).outcome
      (u ++ rest)) (.ok (e, rest)) := by
  cases level with
  | product =>
    rw [Level.operand, ofNonterminal]
    exact h brackets signs rest hrest
  | disjunction | conjunction | equality | comparison | sum => exact h.meets_joined hrest

theorem Found.meets_expression (h : Found stop signs u e .expression) {rest : List Token}
    (hrest : Ends 0 rest) :
    Meets ((bounded stop signs brackets).outcome (u ++ rest)) (.ok (e, rest)) := by
  cases brackets with
  | zero => exact .inr rfl
  | succ brackets => exact h.meets_joined hrest

/-- No phrase starts with a closing bracket, and an operand does not start with a sign. -/
theorem head_of_derives (h : Derives n u e) : ∃ t v, u = t :: v ∧
    t.lexeme ≠ .symbol .closeBracket ∧
    (n = .accessed ∨ n = .operand → sign? t.lexeme = none) := by
  induction h with
  | alone _ ih | unsigned _ ih | item _ ih =>
    obtain ⟨t, v, hu, hclosing, -⟩ := ih
    exact ⟨t, v, hu, hclosing, fun h => by simp at h⟩
  | whole _ ih =>
    obtain ⟨t, v, hu, hclosing, hsign⟩ := ih
    exact ⟨t, v, hu, hclosing, fun _ => hsign (.inr rfl)⟩
  | join _ _ _ _ ih _ | moreItems _ _ _ ih _ =>
    obtain ⟨t, v, rfl, hclosing, -⟩ := ih
    exact ⟨t, _, rfl, hclosing, fun h => by simp at h⟩
  | property _ _ _ ih | index _ _ _ _ ih _ =>
    obtain ⟨t, v, rfl, hclosing, hsign⟩ := ih
    exact ⟨t, _, rfl, hclosing, fun _ => hsign (.inl rfl)⟩
  | not ht _ _ | neg ht _ _ => exact ⟨_, _, rfl, by simp [ht], fun h => by simp at h⟩
  | number ht | string ht | keyword ht | name ht | group ht _ _ _ | noItems ht _ | list ht _ _ _ =>
    exact ⟨_, _, rfl, by simp [ht], fun _ => by rw [ht]; rfl⟩

theorem ends_closing {t : Token} {s : Symbol} (h : t.lexeme = .symbol s)
    (hs : s = .closeParen ∨ s = .closeBracket ∨ s = .comma) (rank : Nat) (rest : List Token) :
    Ends rank (t :: rest) := by
  refine .cons (fun r hr => ?_) rest
  rw [h] at hr
  rcases hs with rfl | rfl | rfl <;> cases hr

theorem followed_ends {inner : Reader} {rest : List Token} (h : Ends 6 rest) (target : Expr) :
    followed inner stop target rest = .ok (target, rest) := by
  refine followed_stop (fun t ht => ⟨fun hlexeme => ?_, fun hlexeme => ?_⟩) target
  · exact absurd (h t ht 7 (by rw [hlexeme]; rfl)) (by decide)
  · exact absurd (h t ht 7 (by rw [hlexeme]; rfl)) (by decide)

theorem meets_items {inner : Reader} {tokens rest : List Token} {items : List Expr} :
    Meets ((ofNonterminal inner stop signs .items).outcome tokens) (.ok (.list items, rest)) ↔
      Meets (itemsOf inner stop tokens) (.ok (items, rest)) := by
  rw [outcome_items]
  refine ⟨fun h => ?_, fun h => h.bind (.inl rfl)⟩
  cases hread : itemsOf inner stop tokens with
  | error fault =>
    rw [hread] at h
    rcases h with h | h <;> cases h
    exact .inr rfl
  | ok p =>
    rw [hread] at h
    rcases h with h | h <;> cases h
    exact .inl rfl

theorem found_sign {t : Token} {op : UnaryOp} (hsign : sign? t.lexeme = some op)
    (h : Found stop signs u e .signed) : Found stop signs (t :: u) (.unary op e) .signed := by
  intro brackets limit rest hrest
  rw [List.cons_append]
  cases limit with
  | zero => exact .inr (outcome_signed_zero hsign _)
  | succ limit =>
    rw [outcome_signed_succ hsign]
    exact (h brackets limit rest hrest).bind (.inl rfl)

theorem found_of_derives (h : Derives n u e) : Found stop signs u e n := by
  induction h with
  | alone _ ih =>
    intro brackets rest hrest
    rw [outcome_joined]
    exact (ih.meets_operand hrest).bind (.inl rfl)
  | @join level u v t op left right join _ ht hop _ ihleft ihright =>
    intro brackets rest hrest
    have hgoOn : joins level t.lexeme = some join := by rwa [ht]
    have hends : Ends level.operand.rank (t :: (v ++ rest)) := .cons (by
      intro r hr
      rw [ht, binding_of_join? hop] at hr
      cases hr
      rw [Level.rank_operand]
      exact Nat.lt_succ_self _) _
    rw [List.append_assoc]
    refine (ihleft brackets _ hends).trans ?_
    rw [joined_goOn hgoOn]
    exact (ihright.meets_operand hrest).bind (.inl rfl)
  | unsigned h ih =>
    intro brackets limit rest hrest
    obtain ⟨t, v, rfl, -, hsign⟩ := head_of_derives h
    have := ih brackets rest
    rw [followed_ends hrest] at this
    rw [List.cons_append] at this ⊢
    rwa [outcome_signed_plain (hsign (.inl rfl))]
  | not ht _ ih => exact found_sign (by rw [ht]; rfl) ih
  | neg ht _ ih => exact found_sign (by rw [ht]; rfl) ih
  | whole _ ih =>
    intro brackets rest
    rw [ofNonterminal, outcome_accessed, ofNonterminal]
    exact (ih brackets rest).bind (.inl rfl)
  | @property u dot key e name _ hdot hkey ih =>
    intro brackets rest
    have hname : propertyName? key.lexeme = some name := by
      rcases hkey with hkey | ⟨k, hkey, rfl⟩ <;> rw [hkey] <;> rfl
    have := ih brackets (dot :: key :: rest)
    rw [followed_property hdot hname] at this
    rwa [List.append_assoc]
  | index _ hopening _ hclosing ih ihkey =>
    intro brackets rest
    rw [List.append_assoc, List.cons_append, List.append_assoc]
    refine (ih brackets _).trans ?_
    rw [followed_index hopening]
    exact (ihkey.meets_expression (ends_closing hclosing (.inr (.inl rfl)) 0 rest)).bind
      (.inl (if_pos hclosing))
  | number ht hvalue =>
    intro brackets rest
    rw [List.singleton_append, outcome_operand_number ht, hvalue]
    exact .inl rfl
  | string ht =>
    intro brackets rest
    exact .inl (outcome_operand_string ht rest)
  | keyword ht =>
    intro brackets rest
    exact .inl (outcome_operand_keyword ht rest)
  | name ht =>
    intro brackets rest
    exact .inl (outcome_operand_name ht rest)
  | group hopening _ hclosing ih =>
    intro brackets rest
    rw [List.cons_append, List.append_assoc, outcome_operand_group hopening]
    exact (ih.meets_expression (ends_closing hclosing (.inl rfl) 0 rest)).bind
      (.inl (if_pos hclosing))
  | noItems hopening hclosing =>
    intro brackets rest
    exact .inl (outcome_operand_noItems hopening hclosing rest)
  | list hopening h hclosing ih =>
    intro brackets rest
    have hitems := meets_items.1 (ih brackets _ rest hclosing)
    obtain ⟨t, v, rfl, ht, -⟩ := head_of_derives h
    rw [List.cons_append, List.append_assoc, outcome_operand_list hopening]
    · exact hitems.bind (.inl rfl)
    · intro t' ht'
      cases ht'
      exact ht
  | item _ ih =>
    intro brackets closing rest hclosing
    rw [meets_items, itemsOf_eq]
    exact (ih.meets_expression (ends_closing hclosing (.inr (.inl rfl)) 0 rest)).bind
      (.inl (if_pos hclosing))
  | @moreItems u v t e items _ hcomma _ ih ihitems =>
    intro brackets closing rest hclosing
    have hitems := meets_items.1 (ihitems brackets closing rest hclosing)
    rw [meets_items, itemsOf_eq, List.append_assoc]
    refine (ih.meets_expression (ends_closing hcomma (.inr (.inr rfl)) 0 _)).bind ?_
    show Meets (endOfItem stop e _ (t :: (v ++ closing :: rest))) _
    rw [endOfItem, if_neg (by rw [hcomma]; decide), if_pos hcomma]
    exact hitems.bind (.inl rfl)

/-- Whatever derives from the tokens is read, unless a limit is hit. -/
theorem meets_of_derives (stop signs brackets : Nat) (h : Derives .expression u e) :
    Meets ((bounded stop signs brackets).outcome u) (.ok (e, [])) := by
  have hfound : Found stop signs u e .expression := found_of_derives h
  have : Meets ((bounded stop signs brackets).outcome (u ++ [])) (.ok (e, [])) :=
    hfound.meets_expression (.nil 0)
  rwa [List.append_nil] at this

end Complete

theorem outcome_bounded_ne_tooDeep (stop : Nat) (tokens : List Token) :
    (bounded stop (signRun tokens) (nesting tokens + 1)).outcome tokens ≠ .error .tooDeep := by
  intro h
  have := explained_bounded stop (signRun tokens) (nesting tokens + 1) tokens
  rw [h] at this
  rcases this with h | h
  · exact Nat.lt_irrefl _ h
  · exact Nat.lt_irrefl _ h

end Reader

namespace Expr

open Reader

/-- The grammar is unambiguous. -/
theorem Derives.unique {tokens : List Token} {e e' : Expr} (h : Derives .expression tokens e)
    (h' : Derives .expression tokens e') : e = e' := by
  -- A reader that no limit stops gives both.
  have hok : ∀ {e : Expr}, Derives .expression tokens e →
      (bounded 0 (signRun tokens) (nesting tokens + 1)).outcome tokens = .ok (e, []) :=
    fun h => (meets_of_derives _ _ _ h).resolve_right (outcome_bounded_ne_tooDeep 0 tokens)
  have := (hok h).symm.trans (hok h')
  cases this
  rfl

theorem ofTokens_eq (stop : Nat) {tokens : List Token} (h : tokens ≠ []) : ofTokens stop tokens
    = (bounded stop maxSigns (maxBrackets + 1)).outcome tokens >>= fun p => match p.2 with
      | [] => .ok p.1
      | t :: _ => .error (.malformed (.unexpectedToken t.lexeme.text) t.start) := by
  rw [ofTokens, ← expression_eq_bounded, outcome]
  cases tokens with
  | nil => exact absurd rfl h
  | cons t after =>
    simp only [List.isEmpty_cons]
    cases hread : expression stop (maxBrackets + 1) (t :: after) with
    | error fault => rfl
    | ok phrase =>
      obtain ⟨e, rest, hshorter⟩ := phrase
      cases rest <;> rfl

/-- What reading all the tokens of a text gives: their expression, or a fault that they are to blame
    for; malformed tokens have no derivation. -/
theorem ofTokens_explained (stop : Nat) (tokens : List Token) : match ofTokens stop tokens with
    | .ok e => Derives .expression tokens e
    | .error (.malformed _ _) => ¬ ∃ e, Derives .expression tokens e
    | .error fault => Excused (maxBrackets + 1) maxSigns tokens fault := by
  by_cases hempty : tokens = []
  · subst hempty
    rintro ⟨e, h⟩
    obtain ⟨t, v, hu, -⟩ := head_of_derives h
    cases hu
  have hexplained := explained_bounded stop maxSigns (maxBrackets + 1) tokens
  have hmeets := fun e => meets_of_derives (e := e) (u := tokens) stop maxSigns (maxBrackets + 1)
  rw [ofTokens_eq stop hempty]
  cases hread : (bounded stop maxSigns (maxBrackets + 1)).outcome tokens with
  | error fault =>
    rw [hread] at hexplained hmeets
    cases fault with
    | malformed cause position =>
      rintro ⟨e, h⟩
      rcases hmeets e h with h | h <;> cases h
    | tooManyDigits | tooDeep => exact hexplained
  | ok p =>
    obtain ⟨e, rest⟩ := p
    rw [hread] at hexplained hmeets
    cases rest with
    | nil =>
      obtain ⟨u, rfl, hu⟩ := hexplained
      rw [List.append_nil]
      exact hu
    | cons t rest =>
      rintro ⟨e, h⟩
      rcases hmeets e h with h | h <;> cases h

/-- Tokens that derive an expression are read as it, if they keep the limits. -/
theorem ofTokens_of_derives (stop : Nat) {tokens : List Token} {e : Expr}
    (h : Derives .expression tokens e) (hnumbers : ∀ t ∈ tokens, ¬ Overlong t)
    (hbrackets : nesting tokens ≤ maxBrackets) (hsigns : signRun tokens ≤ maxSigns) :
    ofTokens stop tokens = .ok e := by
  have hexplained := ofTokens_explained stop tokens
  cases hread : ofTokens stop tokens with
  | ok e' =>
    rw [hread] at hexplained
    rw [Derives.unique hexplained h]
  | error fault =>
    rw [hread] at hexplained
    cases fault with
    | malformed => exact absurd ⟨e, h⟩ hexplained
    | tooManyDigits =>
      obtain ⟨t, ht, hlong⟩ := hexplained
      exact absurd hlong (hnumbers t ht)
    | tooDeep =>
      rcases hexplained with hdeep | hmany
      · exact absurd hbrackets (Nat.not_le.2 hdeep)
      · exact absurd hsigns (Nat.not_le.2 hmany)

/-- An operand of one token is read. -/
theorem ofTokens_single (stop : Nat) {t : Token} {e : Expr} (h : Derives .operand [t] e)
    (ht : ¬ Overlong t) : ofTokens stop [t] = .ok e := by
  have hbrackets := Nat.le_trans (nesting_single_le t) (show 1 ≤ maxBrackets by decide)
  have hsigns := Nat.le_trans (signRun_single_le t) (show 1 ≤ maxSigns by decide)
  exact ofTokens_of_derives stop h.of_operand (by simpa using ht) hbrackets hsigns

/-- What a text writes derives from its tokens. -/
theorem derives_of_read {text : String} {e : Expr} (h : read text = .ok e) :
    ∃ tokens, Token.scan text = .ok tokens ∧ Derives .expression tokens e := by
  unfold read at h
  cases hscan : Token.scan text with
  | error fault =>
    rw [hscan] at h
    cases h
  | ok tokens =>
    have htokens : ofTokens text.length tokens = .ok e := by
      rw [hscan] at h
      exact h
    have hexplained := ofTokens_explained text.length tokens
    rw [htokens] at hexplained
    exact ⟨tokens, rfl, hexplained⟩

/-- Reading decides what the tokens of a text derive: it gives the one expression that derives from
    all of them, and only tokens without a derivation are malformed.  Any other fault is a whole
    number that is too long or a limit that is hit. -/
theorem read_decides_derivation {text : String} {tokens : List Token}
    (hscan : Token.scan text = .ok tokens) :
    (∀ e e', Derives .expression tokens e → Derives .expression tokens e' → e = e') ∧
    match read text with
    | .ok e => Derives .expression tokens e
    | .error (.malformed _ _) => ¬ ∃ e, Derives .expression tokens e
    | .error .tooManyDigits => ∃ t ∈ tokens, Overlong t
    | .error .tooDeep => maxBrackets < nesting tokens ∨ maxSigns < signRun tokens := by
  refine ⟨fun e e' h h' => h.unique h', ?_⟩
  have hread : read text = ofTokens text.length tokens := by
    rw [read, hscan]
    rfl
  have := ofTokens_explained text.length tokens
  rw [hread]
  revert this
  rcases ofTokens text.length tokens with (_ | _ | _) | e <;> exact id

/-- A text with operators of several levels, signs, accesses, a group and a list. -/
def mixedText : String := "!a.null[i + 1] || -(b - 2 - c) * 3 == ['x', []].length"

/-- What `mixedText` derives: signs bind looser than accesses, products tighter than comparisons,
    and differences associate to the left. -/
def mixedExpr : Expr :=
  .logical
    (.unary .not (.index (.property (.name "a") "null")
      (.binary (.name "i") .add (.literal (.int 1)))))
    .or
    (.binary
      (.binary
        (.unary .neg (.group (.binary (.binary (.name "b") .sub (.literal (.int 2))) .sub
          (.name "c"))))
        .mul (.literal (.int 3)))
      .eq
      (.property (.list [.literal (.string "x"), .list []]) "length"))

theorem mixedText_read : ∃ tokens, Token.scan mixedText = .ok tokens ∧
    read mixedText = .ok mixedExpr ∧ Derives .expression tokens mixedExpr := by
  have hread : read mixedText = .ok mixedExpr := by cbv
  have hscan : (Token.scan mixedText).isOk = true := by decide +kernel
  cases htokens : Token.scan mixedText with
  | error fault =>
    rw [htokens] at hscan
    cases hscan
  | ok tokens =>
    obtain ⟨-, hderives⟩ := read_decides_derivation htokens
    rw [hread] at hderives
    exact ⟨tokens, rfl, hread, hderives⟩

end Expr

end TextTemplate
