import TextTemplate.Proofs.Expr.Grammar

/-! # What readers give

  A reader gives a phrase together with the proof that it is not empty.  Here
  the proof is left out: `outcome` is the expression and the tokens after it.
  For each reader there is one equation for each shape of its tokens, in terms
  of the outcomes of the readers that it is built from (`outcome_*`, `joined_*`,
  `followed_*`, `itemsOf_eq`).  Whoever speaks about readers cites these, and
  opens none of them.
-/

namespace TextTemplate

namespace Reader

/-! ### Outcomes -/

/-- What comes of reading, whatever tokens are left where it fails. -/
def settled {α β : Type} (view : α → β) (x : Except Halt α) : Except ReadFault β :=
  match x with
  | .ok a => .ok (view a)
  | .error halt => .error halt.fault

/-- What a reader gives: an expression and the tokens after it. -/
def outcome (r : Reader) (tokens : List Token) : Except ReadFault (Expr × List Token) :=
  settled (fun p => (p.expr, p.rest)) (r tokens)

/-- What going on from a left operand gives. -/
def joined (operand : Reader) (join? : Lexeme → Option (Expr → Expr → Expr)) (left : Expr)
    (tokens : List Token) : Except ReadFault (Expr × List Token) :=
  settled (·.1) (joinAll operand join? left tokens)

/-- What going on from a target gives. -/
def followed (inner : Reader) (stop : Nat) (target : Expr) (tokens : List Token) :
    Except ReadFault (Expr × List Token) :=
  settled (·.1) (accessAll inner stop target tokens)

/-- What the items of a list give. -/
def itemsOf (inner : Reader) (stop : Nat) (tokens : List Token) :
    Except ReadFault (List Expr × List Token) :=
  settled (·.1) (listItems inner stop tokens)

variable {r operand inner : Reader} {join? : Lexeme → Option (Expr → Expr → Expr)} {stop : Nat}

theorem length_lt_of_outcome {tokens rest : List Token} {e : Expr}
    (h : r.outcome tokens = .ok (e, rest)) : rest.length < tokens.length := by
  unfold outcome at h
  cases hr : r tokens with
  | error fault =>
    rw [hr] at h
    cases h
  | ok phrase =>
    rw [hr] at h
    cases h
    exact phrase.shorter

/-! ### Operators between and in front of operands -/

theorem joined_nil (left : Expr) : joined operand join? left [] = .ok (left, []) := by
  rw [joined, joinAll]
  rfl

theorem joined_stop {t : Token} (h : join? t.lexeme = none) (left : Expr) (after : List Token) :
    joined operand join? left (t :: after) = .ok (left, t :: after) := by
  rw [joined, joinAll, h]
  rfl

theorem joined_goOn {t : Token} {join : Expr → Expr → Expr} (h : join? t.lexeme = some join)
    (left : Expr) (after : List Token) :
    joined operand join? left (t :: after)
      = operand.outcome after >>= fun p => joined operand join? (join left p.1) p.2 := by
  rw [joined, joinAll, h, outcome]
  cases operand after with
  | error fault => rfl
  | ok right =>
    show settled _ (Except.bind (joinAll operand join? (join left right.expr) right.rest) _)
      = joined operand join? (join left right.expr) right.rest
    rw [joined]
    cases joinAll operand join? (join left right.expr) right.rest <;> rfl

theorem outcome_chain (tokens : List Token) : (chain join? operand).outcome tokens
    = operand.outcome tokens >>= fun p => joined operand join? p.1 p.2 := by
  rw [outcome, outcome, chain]
  cases operand tokens with
  | error fault => rfl
  | ok first =>
    show settled _ (Except.bind (joinAll operand join? first.expr first.rest) _)
      = joined operand join? first.expr first.rest
    rw [joined]
    cases joinAll operand join? first.expr first.rest <;> rfl

theorem outcome_signed_nil (limit : Nat) :
    (signed operand limit).outcome [] = operand.outcome [] := by
  rw [outcome, signed]
  rfl

theorem outcome_signed_plain {t : Token} (h : sign? t.lexeme = none) (limit : Nat)
    (after : List Token) :
    (signed operand limit).outcome (t :: after) = operand.outcome (t :: after) := by
  rw [outcome, signed.eq_def]
  simp only [h]
  rfl

theorem outcome_signed_zero {t : Token} {op : UnaryOp} (h : sign? t.lexeme = some op)
    (after : List Token) : (signed operand 0).outcome (t :: after) = .error .tooDeep := by
  rw [outcome, signed.eq_def]
  simp only [h]
  rfl

theorem outcome_signed_succ {t : Token} {op : UnaryOp} (h : sign? t.lexeme = some op)
    (limit : Nat) (after : List Token) : (signed operand (limit + 1)).outcome (t :: after)
      = (signed operand limit).outcome after >>= fun p => .ok (.unary op p.1, p.2) := by
  rw [outcome, signed.eq_def, outcome]
  simp only [h]
  cases signed operand limit after <;> rfl

/-! ### Operators after an operand -/

/-- What has to be closed is, or the closing symbol is missing. -/
def closedBy (s : Symbol) (cause : SyntaxCause) (stop : Nat) {α : Type}
    (goOn : List Token → Except ReadFault α) (tokens : List Token) : Except ReadFault α :=
  match tokens with
  | t :: rest =>
    if t.lexeme = .symbol s then goOn rest else .error (.malformed cause (positionOf stop tokens))
  | [] => .error (.malformed cause stop)

theorem followed_stop {tokens : List Token}
    (h : ∀ t ∈ tokens.head?, t.lexeme ≠ .symbol .dot ∧ t.lexeme ≠ .symbol .openBracket)
    (target : Expr) : followed inner stop target tokens = .ok (target, tokens) := by
  rw [followed, accessAll.eq_def]
  split
  · next lexeme start stop after => exact absurd rfl (h _ rfl).1
  · next lexeme start stop after => exact absurd rfl (h _ rfl).2
  · rfl

theorem followed_property {dot key : Token} {name : String} (hdot : dot.lexeme = .symbol .dot)
    (hkey : propertyName? key.lexeme = some name) (target : Expr) (rest : List Token) :
    followed inner stop target (dot :: key :: rest)
      = followed inner stop (.property target name) rest := by
  obtain ⟨lexeme, start, stop'⟩ := dot
  obtain rfl : lexeme = .symbol .dot := hdot
  rw [followed, accessAll]
  simp only [hkey]
  rw [followed]
  cases accessAll inner stop (.property target name) rest <;> rfl

theorem followed_unnamed {dot : Token} (hdot : dot.lexeme = .symbol .dot) {after : List Token}
    (hafter : ∀ key ∈ after.head?, propertyName? key.lexeme = none) (target : Expr) :
    ∃ position, followed inner stop target (dot :: after)
      = .error (.malformed .missingPropertyName position) := by
  obtain ⟨lexeme, start, stop'⟩ := dot
  obtain rfl : lexeme = .symbol .dot := hdot
  rw [followed]
  cases after with
  | nil =>
    rw [accessAll]
    exact ⟨stop, rfl⟩
  | cons key rest =>
    rw [accessAll]
    simp only [hafter key rfl]
    exact ⟨key.start, rfl⟩

theorem followed_index {opening : Token} (h : opening.lexeme = .symbol .openBracket)
    (target : Expr) (after : List Token) : followed inner stop target (opening :: after)
      = inner.outcome after >>= fun p => closedBy .closeBracket .unclosedIndex stop
        (followed inner stop (.index target p.1)) p.2 := by
  obtain ⟨lexeme, start, stop'⟩ := opening
  obtain rfl : lexeme = .symbol .openBracket := h
  rw [followed, accessAll, outcome]
  cases inner after with
  | error fault => rfl
  | ok key =>
    obtain ⟨key, rest, hlt⟩ := key
    cases rest with
    | nil => rfl
    | cons t rest =>
      obtain ⟨lexeme, start', stop''⟩ := t
      by_cases hclosing : lexeme = .symbol .closeBracket
      · subst hclosing
        show settled _ (Except.bind (accessAll inner stop (.index target key) rest) _)
          = followed inner stop (.index target key) rest
        rw [followed]
        cases accessAll inner stop (.index target key) rest <;> rfl
      · have hmissing : closedBy .closeBracket .unclosedIndex stop
            (followed inner stop (.index target key)) (⟨lexeme, start', stop''⟩ :: rest)
            = .error (.malformed .unclosedIndex start') := if_neg hclosing
        refine Eq.trans ?_ hmissing.symm
        simp only [bind, Except.bind]
        split
        · next heq =>
          cases heq
          exact absurd rfl hclosing
        · rfl

theorem outcome_accessed (tokens : List Token) : (accessed inner stop operand).outcome tokens
    = operand.outcome tokens >>= fun p => followed inner stop p.1 p.2 := by
  rw [outcome, outcome, accessed]
  cases operand tokens with
  | error fault => rfl
  | ok first =>
    show settled _ (Except.bind (accessAll inner stop first.expr first.rest) _)
      = followed inner stop first.expr first.rest
    rw [followed]
    cases accessAll inner stop first.expr first.rest <;> rfl

/-! ### Operands -/

/-- Behind an item of a list stands another one, or the end of the list. -/
def endOfItem (stop : Nat) (item : Expr)
    (goOn : List Token → Except ReadFault (List Expr × List Token)) (tokens : List Token) :
    Except ReadFault (List Expr × List Token) :=
  match tokens with
  | t :: rest =>
    if t.lexeme = .symbol .closeBracket then .ok ([item], rest)
    else if t.lexeme = .symbol .comma then goOn rest >>= fun p => .ok (item :: p.1, p.2)
    else .error (.malformed .unclosedList t.start)
  | [] => .error (.malformed .unclosedList stop)

theorem itemsOf_eq (tokens : List Token) : itemsOf inner stop tokens
    = inner.outcome tokens >>= fun p => endOfItem stop p.1 (itemsOf inner stop) p.2 := by
  rw [itemsOf, listItems, outcome]
  cases inner tokens with
  | error fault => rfl
  | ok item =>
    obtain ⟨item, rest, hlt⟩ := item
    cases rest with
    | nil => rfl
    | cons t rest =>
      obtain ⟨lexeme, start, stop'⟩ := t
      by_cases hclosing : lexeme = .symbol .closeBracket
      · subst hclosing
        rfl
      by_cases hcomma : lexeme = .symbol .comma
      · subst hcomma
        show settled _ (Except.bind (listItems inner stop rest) _)
          = itemsOf inner stop rest >>= fun p => .ok (item :: p.1, p.2)
        rw [itemsOf]
        cases listItems inner stop rest <;> rfl
      · have hmissing : endOfItem stop item (itemsOf inner stop) (⟨lexeme, start, stop'⟩ :: rest)
            = .error (.malformed .unclosedList start) := by
          rw [endOfItem, if_neg hclosing, if_neg hcomma]
        refine Eq.trans ?_ hmissing.symm
        simp only [bind, Except.bind]
        split
        · next heq =>
          cases heq
          exact absurd rfl hclosing
        · next heq =>
          cases heq
          exact absurd rfl hcomma
        · rfl

theorem outcome_operand_nil : (Reader.operand inner stop).outcome []
    = .error (.malformed .unexpectedEnd stop) := by
  rw [outcome, Reader.operand.eq_def]
  rfl

theorem outcome_operand_number {t : Token} {digits : String} (h : t.lexeme = .number digits)
    (after : List Token) : (Reader.operand inner stop).outcome (t :: after)
      = numberValue digits >>= fun v => .ok (.literal v, after) := by
  rw [outcome, Reader.operand.eq_def]
  simp only [h]
  cases numberValue digits <;> rfl

theorem outcome_operand_string {t : Token} {content : String} (h : t.lexeme = .string content)
    (after : List Token) : (Reader.operand inner stop).outcome (t :: after)
      = .ok (.literal (.string content), after) := by
  rw [outcome, Reader.operand.eq_def]
  simp only [h]
  rfl

theorem outcome_operand_keyword {t : Token} {k : Keyword} (h : t.lexeme = .keyword k)
    (after : List Token) : (Reader.operand inner stop).outcome (t :: after)
      = .ok (.literal (keywordValue k), after) := by
  rw [outcome, Reader.operand.eq_def]
  simp only [h]
  rfl

theorem outcome_operand_name {t : Token} {n : String} (h : t.lexeme = .name n)
    (after : List Token) : (Reader.operand inner stop).outcome (t :: after)
      = .ok (.name n, after) := by
  rw [outcome, Reader.operand.eq_def]
  simp only [h]
  rfl

theorem outcome_operand_group {opening : Token} (h : opening.lexeme = .symbol .openParen)
    (after : List Token) : (Reader.operand inner stop).outcome (opening :: after)
      = inner.outcome after >>= fun p =>
        closedBy .closeParen .unclosedGroup stop (fun rest => .ok (.group p.1, rest)) p.2 := by
  rw [outcome, Reader.operand.eq_def, outcome]
  simp only [h]
  cases inner after with
  | error fault => rfl
  | ok e =>
    obtain ⟨e, rest, hlt⟩ := e
    cases rest with
    | nil => rfl
    | cons t rest =>
      obtain ⟨lexeme, start, stop'⟩ := t
      by_cases hclosing : lexeme = .symbol .closeParen
      · subst hclosing
        rfl
      · have hmissing : closedBy .closeParen .unclosedGroup stop
            (fun rest => .ok (Expr.group e, rest)) (⟨lexeme, start, stop'⟩ :: rest)
            = .error (.malformed .unclosedGroup start) := if_neg hclosing
        refine Eq.trans ?_ hmissing.symm
        simp only [bind, Except.bind]
        split
        · next heq =>
          cases heq
          exact absurd rfl hclosing
        · rfl

theorem outcome_operand_noItems {opening closing : Token}
    (hopening : opening.lexeme = .symbol .openBracket)
    (hclosing : closing.lexeme = .symbol .closeBracket) (rest : List Token) :
    (Reader.operand inner stop).outcome (opening :: closing :: rest) = .ok (.list [], rest) := by
  obtain ⟨lexeme, start, stop'⟩ := closing
  obtain rfl : lexeme = .symbol .closeBracket := hclosing
  rw [outcome, Reader.operand.eq_def]
  simp only [hopening]
  rfl

theorem outcome_operand_list {opening : Token} (hopening : opening.lexeme = .symbol .openBracket)
    {after : List Token} (hafter : ∀ t ∈ after.head?, t.lexeme ≠ .symbol .closeBracket) :
    (Reader.operand inner stop).outcome (opening :: after)
      = itemsOf inner stop after >>= fun p => .ok (.list p.1, p.2) := by
  rw [outcome, Reader.operand.eq_def, itemsOf]
  simp only [hopening]
  split
  · next lexeme start stop' rest => exact absurd rfl (hafter _ rfl)
  · cases listItems inner stop after <;> rfl

theorem outcome_operand_other {t : Token} (after : List Token)
    (h : (∃ op, t.lexeme = .operator op) ∨
      ∃ s, t.lexeme = .symbol s ∧ s ≠ .openParen ∧ s ≠ .openBracket) :
    (Reader.operand inner stop).outcome (t :: after)
      = .error (.malformed (.unexpectedToken t.lexeme.text) t.start) := by
  rw [outcome, Reader.operand.eq_def]
  rcases h with ⟨op, h⟩ | ⟨s, h, hparen, hbracket⟩
  · simp only [h]
    rfl
  · cases s with
    | openParen => exact absurd rfl hparen
    | openBracket => exact absurd rfl hbracket
    | closeParen | closeBracket | dot | comma =>
      simp only [h]
      rfl

end Reader

end TextTemplate
