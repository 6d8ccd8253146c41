import TextTemplate.Expr.Read

/-! # The grammar of expressions

  Which rows of tokens make up an expression, and which one:

    disjunction  →  conjunction ("||" conjunction)*
    conjunction  →  equality ("&&" equality)*
    equality  →  comparison (("==" | "!=") comparison)*
    comparison  →  sum (("<" | "<=" | ">" | ">=") sum)*
    sum  →  product (("+" | "-") product)*
    product  →  signed (("*" | "/" | "%") signed)*
    signed  →  ("!" | "-") signed | accessed
    accessed  →  operand ("." name | "." keyword | "[" disjunction "]")*
    operand  →  number | string | keyword | name | "(" disjunction ")" | "[" items? "]"
    items  →  disjunction ("," disjunction)*

  A repetition is written as a rule that goes on from a phrase of its own kind,
  so its operators associate to the left.  Nothing is said here of how a phrase
  is found, or of how long it may be.
-/

namespace TextTemplate.Expr

/-! ### Levels -/

/-- The levels of operators between operands, the loosest first. -/
inductive Level where
  | disjunction | conjunction | equality | comparison | sum | product
  deriving Repr, DecidableEq

/-- What is derived. -/
inductive Nonterminal where
  /-- Operands with operators of one level between them. -/
  | joined (level : Level)
  /-- An operand with any number of signs in front. -/
  | signed
  /-- An operand with any number of properties and indexes behind. -/
  | accessed
  | operand
  /-- The items of a list, at least one. -/
  | items
  deriving Repr, DecidableEq

/-- A whole expression. -/
abbrev Nonterminal.expression : Nonterminal := .joined .disjunction

namespace Level

/-- What the operators of a level stand between. -/
def operand : Level → Nonterminal
  | .disjunction => .joined .conjunction
  | .conjunction => .joined .equality
  | .equality => .joined .comparison
  | .comparison => .joined .sum
  | .sum => .joined .product
  | .product => .signed

/-- What an operator of the level makes of its operands. -/
def join? : Level → Operator → Option (Expr → Expr → Expr)
  | .disjunction, .or => some (.logical · .or ·)
  | .conjunction, .and => some (.logical · .and ·)
  | .equality, .eq => some (.binary · .eq ·)
  | .equality, .ne => some (.binary · .ne ·)
  | .comparison, .lt => some (.binary · .lt ·)
  | .comparison, .le => some (.binary · .le ·)
  | .comparison, .gt => some (.binary · .gt ·)
  | .comparison, .ge => some (.binary · .ge ·)
  | .sum, .add => some (.binary · .add ·)
  | .sum, .sub => some (.binary · .sub ·)
  | .product, .mul => some (.binary · .mul ·)
  | .product, .div => some (.binary · .div ·)
  | .product, .mod => some (.binary · .mod ·)
  | _, _ => none

end Level

/-! ### Derivations -/

/-- The tokens make up the expression.  The items of a list derive the list. -/
inductive Derives : Nonterminal → List Token → Expr → Prop where
  | alone {level : Level} {u : List Token} {e : Expr} :
      Derives level.operand u e → Derives (.joined level) u e
  | join {level : Level} {u v : List Token} {t : Token} {op : Operator} {left right : Expr}
      {join : Expr → Expr → Expr} :
      Derives (.joined level) u left → t.lexeme = .operator op → level.join? op = some join →
      Derives level.operand v right → Derives (.joined level) (u ++ t :: v) (join left right)
  | unsigned {u : List Token} {e : Expr} : Derives .accessed u e → Derives .signed u e
  | not {u : List Token} {t : Token} {e : Expr} :
      t.lexeme = .operator .not → Derives .signed u e → Derives .signed (t :: u) (.unary .not e)
  | neg {u : List Token} {t : Token} {e : Expr} :
      t.lexeme = .operator .sub → Derives .signed u e → Derives .signed (t :: u) (.unary .neg e)
  | whole {u : List Token} {e : Expr} : Derives .operand u e → Derives .accessed u e
  | property {u : List Token} {dot key : Token} {e : Expr} {name : String} :
      Derives .accessed u e → dot.lexeme = .symbol .dot →
      key.lexeme = .name name ∨ (∃ k : Keyword, key.lexeme = .keyword k ∧ k.text = name) →
      Derives .accessed (u ++ [dot, key]) (.property e name)
  | index {u v : List Token} {opening closing : Token} {e key : Expr} :
      Derives .accessed u e → opening.lexeme = .symbol .openBracket →
      Derives .expression v key → closing.lexeme = .symbol .closeBracket →
      Derives .accessed (u ++ opening :: (v ++ [closing])) (.index e key)
  | number {t : Token} {digits : String} {v : Value} :
      t.lexeme = .number digits → Reader.numberValue digits = .ok v →
      Derives .operand [t] (.literal v)
  | string {t : Token} {content : String} :
      t.lexeme = .string content → Derives .operand [t] (.literal (.string content))
  | keyword {t : Token} {k : Keyword} :
      t.lexeme = .keyword k → Derives .operand [t] (.literal (Reader.keywordValue k))
  | name {t : Token} {n : String} : t.lexeme = .name n → Derives .operand [t] (.name n)
  | group {u : List Token} {opening closing : Token} {e : Expr} :
      opening.lexeme = .symbol .openParen → Derives .expression u e →
      closing.lexeme = .symbol .closeParen →
      Derives .operand (opening :: (u ++ [closing])) (.group e)
  | noItems {opening closing : Token} :
      opening.lexeme = .symbol .openBracket → closing.lexeme = .symbol .closeBracket →
      Derives .operand [opening, closing] (.list [])
  | list {u : List Token} {opening closing : Token} {items : List Expr} :
      opening.lexeme = .symbol .openBracket → Derives .items u (.list items) →
      closing.lexeme = .symbol .closeBracket →
      Derives .operand (opening :: (u ++ [closing])) (.list items)
  | item {u : List Token} {e : Expr} : Derives .expression u e → Derives .items u (.list [e])
  | moreItems {u v : List Token} {t : Token} {e : Expr} {items : List Expr} :
      Derives .expression u e → t.lexeme = .symbol .comma → Derives .items v (.list items) →
      Derives .items (u ++ t :: v) (.list (e :: items))

namespace Derives

variable {u : List Token} {e : Expr}

/-- An operand with signs alone is a phrase of each level. -/
theorem joined_of_signed (h : Derives .signed u e) (level : Level) :
    Derives (.joined level) u e := by
  have hproduct : Derives (.joined .product) u e := .alone h
  have hsum : Derives (.joined .sum) u e := .alone hproduct
  have hcomparison : Derives (.joined .comparison) u e := .alone hsum
  have hequality : Derives (.joined .equality) u e := .alone hcomparison
  have hconjunction : Derives (.joined .conjunction) u e := .alone hequality
  have hdisjunction : Derives (.joined .disjunction) u e := .alone hconjunction
  cases level <;> assumption

/-- The same between the operators of a level. -/
theorem operand_of_signed (h : Derives .signed u e) (level : Level) :
    Derives level.operand u e := by
  cases level with
  | disjunction | conjunction | equality | comparison | sum => exact h.joined_of_signed _
  | product => exact h

/-- A phrase of a level is an expression. -/
theorem of_joined {level : Level} (h : Derives (.joined level) u e) : Derives .expression u e := by
  cases level with
  | disjunction => exact h
  | conjunction => exact .alone h
  | equality => exact .alone (.alone h)
  | comparison => exact .alone (.alone (.alone h))
  | sum => exact .alone (.alone (.alone (.alone h)))
  | product => exact .alone (.alone (.alone (.alone (.alone h))))

/-- An operand alone is an expression. -/
theorem of_operand (h : Derives .operand u e) : Derives .expression u e :=
  (unsigned (whole h)).joined_of_signed .disjunction

end Derives

/-! ### How deep brackets and signs stand -/

/-- How many brackets are open at once, at most.  What closes a bracket that has been opened before
    counts for nothing. -/
def nesting : List Token → Nat
  | [] => 0
  | t :: rest => match t.lexeme with
    | .symbol .openParen | .symbol .openBracket => nesting rest + 1
    | .symbol .closeParen | .symbol .closeBracket => nesting rest - 1
    | _ => nesting rest

/-- How many signs stand in front. -/
def signsAhead : List Token → Nat
  | [] => 0
  | t :: rest => if (Reader.sign? t.lexeme).isSome then signsAhead rest + 1 else 0

/-- How many signs stand in a row, at most. -/
def signRun : List Token → Nat
  | [] => 0
  | t :: rest => max (signsAhead (t :: rest)) (signRun rest)

theorem nesting_opening {t : Token}
    (h : t.lexeme = .symbol .openParen ∨ t.lexeme = .symbol .openBracket) (rest : List Token) :
    nesting (t :: rest) = nesting rest + 1 := by
  rcases h with h | h <;> rw [nesting, h]

theorem nesting_closing {t : Token}
    (h : t.lexeme = .symbol .closeParen ∨ t.lexeme = .symbol .closeBracket) (rest : List Token) :
    nesting (t :: rest) = nesting rest - 1 := by
  rcases h with h | h <;> rw [nesting, h]

theorem nesting_plain {t : Token}
    (h : ∀ s, t.lexeme = .symbol s → s = .dot ∨ s = .comma) (rest : List Token) :
    nesting (t :: rest) = nesting rest := by
  cases hlexeme : t.lexeme with
  | symbol s => rcases h s hlexeme with rfl | rfl <;> rw [nesting, hlexeme]
  | number | string | keyword | name | operator => rw [nesting, hlexeme]

/-- One token opens one bracket at most. -/
theorem nesting_single_le (t : Token) : nesting [t] ≤ 1 := by
  rw [nesting]
  split <;> simp [nesting]

theorem signRun_single_le (t : Token) : signRun [t] ≤ 1 := by
  rw [signRun, signRun, signsAhead, signsAhead]
  split <;> simp

theorem signsAhead_le_signRun (tokens : List Token) : signsAhead tokens ≤ signRun tokens := by
  cases tokens with
  | nil => exact Nat.le_refl _
  | cons t rest => exact Nat.le_max_left ..

theorem signRun_append_le (u rest : List Token) : signRun rest ≤ signRun (u ++ rest) := by
  induction u with
  | nil => exact Nat.le_refl _
  | cons t u ih => exact Nat.le_trans ih (Nat.le_max_right ..)

/-- A phrase closes every bracket that it opens, so it counts for itself and what follows it for
    itself. -/
theorem Derives.nesting_append {n : Nonterminal} {u : List Token} {e : Expr} (h : Derives n u e)
    (rest : List Token) : nesting (u ++ rest) = max (nesting u) (nesting rest) := by
  -- Brackets go up by one before a phrase and down by one behind it.
  have hbrackets : ∀ {opening closing : Token} {v : List Token} (rest : List Token),
      (opening.lexeme = .symbol .openParen ∨ opening.lexeme = .symbol .openBracket) →
      (closing.lexeme = .symbol .closeParen ∨ closing.lexeme = .symbol .closeBracket) →
      (∀ rest, nesting (v ++ rest) = max (nesting v) (nesting rest)) →
      nesting (opening :: (v ++ [closing]) ++ rest)
        = max (nesting (opening :: (v ++ [closing]))) (nesting rest) := by
    intro opening closing v rest hopening hclosing hv
    rw [List.cons_append, List.append_assoc, List.singleton_append, nesting_opening hopening,
      nesting_opening hopening, hv, hv, nesting_closing hclosing, nesting_closing hclosing]
    show max (nesting v) (nesting rest - 1) + 1 = max (max (nesting v) (0 - 1) + 1) (nesting rest)
    omega
  have hplain : ∀ {t : Token}, (∀ s, t.lexeme = .symbol s → s = .dot ∨ s = .comma) →
      ∀ rest, nesting (t :: rest) = max (nesting [t]) (nesting rest) := by
    intro t ht rest
    rw [nesting_plain ht, nesting_plain ht []]
    exact (Nat.zero_max _).symm
  induction h generalizing rest with
  | alone _ ih | unsigned _ ih | whole _ ih | item _ ih => exact ih rest
  | @join level u v t op left right join _ ht _ _ ihleft ihright =>
    have ht : ∀ s, t.lexeme = .symbol s → s = .dot ∨ s = .comma := by simp [ht]
    rw [List.append_assoc, List.cons_append, ihleft, ihleft, nesting_plain ht, nesting_plain ht,
      ihright, Nat.max_assoc]
  | not ht _ ih | neg ht _ ih =>
    rw [List.cons_append, nesting_plain (by simp [ht]), nesting_plain (by simp [ht]), ih]
  | @property u dot key e name _ hdot hkey ih =>
    have hdot : ∀ s, dot.lexeme = .symbol s → s = .dot ∨ s = .comma := by simp [hdot]
    have hkey : ∀ s, key.lexeme = .symbol s → s = .dot ∨ s = .comma := by
      rcases hkey with hkey | ⟨k, hkey, -⟩ <;> simp [hkey]
    rw [List.append_assoc, ih, ih, List.cons_append, List.singleton_append, nesting_plain hdot,
      nesting_plain hkey, nesting_plain hdot, nesting_plain hkey]
    simp [nesting]
  | index _ hopening _ hclosing ih ihkey =>
    rw [List.append_assoc, ih, ih, hbrackets rest (.inr hopening) (.inr hclosing) ihkey,
      Nat.max_assoc]
  | number ht | string ht | keyword ht | name ht => exact hplain (by simp [ht]) rest
  | group hopening _ hclosing ih => exact hbrackets rest (.inl hopening) (.inl hclosing) ih
  | noItems hopening hclosing =>
    exact hbrackets (v := []) rest (.inr hopening) (.inr hclosing) fun _ => (Nat.zero_max _).symm
  | list hopening _ hclosing ih => exact hbrackets rest (.inr hopening) (.inr hclosing) ih
  | @moreItems u v t e items _ ht _ ihfirst ihrest =>
    have ht : ∀ s, t.lexeme = .symbol s → s = .dot ∨ s = .comma := by simp [ht]
    rw [List.append_assoc, List.cons_append, ihfirst, ihfirst, nesting_plain ht, nesting_plain ht,
      ihrest, Nat.max_assoc]

/-- What follows a phrase is no deeper than the whole. -/
theorem Derives.nesting_le {n : Nonterminal} {u : List Token} {e : Expr} (h : Derives n u e)
    (rest : List Token) : nesting rest ≤ nesting (u ++ rest) := by
  rw [h.nesting_append]
  exact Nat.le_max_right ..

/-- No phrase ends with a sign. -/
theorem Derives.ends {n : Nonterminal} {u : List Token} {e : Expr} (h : Derives n u e) :
    ∃ v t, u = v ++ [t] ∧ Reader.sign? t.lexeme = none := by
  induction h with
  | alone _ ih | unsigned _ ih | whole _ ih | item _ ih => exact ih
  | @join level u v sign op left right join _ _ _ _ _ ih
  | @moreItems u v sign e items _ _ _ _ ih =>
    obtain ⟨v, t, rfl, ht⟩ := ih
    exact ⟨u ++ sign :: v, t, by simp, ht⟩
  | not _ _ ih | neg _ _ ih =>
    obtain ⟨v, t, rfl, ht⟩ := ih
    exact ⟨_ :: v, t, rfl, ht⟩
  | @property u dot key e name _ _ hkey _ =>
    refine ⟨u ++ [dot], key, by simp, ?_⟩
    rcases hkey with hkey | ⟨k, hkey, -⟩ <;> rw [hkey] <;> rfl
  | @index u v opening closing e key _ _ _ hclosing _ _ =>
    exact ⟨u ++ opening :: v, closing, by simp, by rw [hclosing]; rfl⟩
  | number ht | string ht | keyword ht | name ht => exact ⟨[], _, rfl, by rw [ht]; rfl⟩
  | @group u opening closing e _ _ hclosing _ | @list u opening closing items _ _ hclosing _ =>
    exact ⟨opening :: u, closing, rfl, by rw [hclosing]; rfl⟩
  | @noItems opening closing _ hclosing =>
    exact ⟨[opening], closing, rfl, by rw [hclosing]; rfl⟩

/-- The signs of a phrase and those behind it stand in different rows. -/
theorem Derives.signRun_append {n : Nonterminal} {u : List Token} {e : Expr} (h : Derives n u e)
    (rest : List Token) : signRun (u ++ rest) = max (signRun u) (signRun rest) := by
  obtain ⟨v, t, rfl, ht⟩ := h.ends
  have hahead : ∀ v : List Token, signsAhead (v ++ t :: rest) = signsAhead (v ++ [t]) := by
    intro v
    induction v with
    | nil => simp [signsAhead, ht]
    | cons s v ih => rw [List.cons_append, List.cons_append, signsAhead, signsAhead, ih]
  rw [List.append_assoc, List.singleton_append]
  clear h
  induction v with
  | nil => simp [signRun, signsAhead, ht]
  | cons s v ih =>
    rw [List.cons_append, List.cons_append, signRun, signRun, ← List.cons_append, hahead (s :: v),
      List.cons_append, ih, Nat.max_assoc]

end TextTemplate.Expr
