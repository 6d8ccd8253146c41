import TextTemplate.Proofs.Markup.Parsing

/-! # Taking tokens one by one

  What a token does to a builder is decided by its item, its place and the rules.
  Where it is taken, it does one of five things (`Takes`); where it is not, it is
  a directive, and the fault stands at its place.

  Tokens are taken from left to right, so a fault is that of the first token that
  is not taken, whatever follows it (`Builder.error_of_tokens`).
-/

namespace TextTemplate.Markup

/-- Taking the item at the place makes one builder of the other. -/
inductive Takes (item : Item) (location : Location) : Builder → Builder → Prop where
  | add {b : Builder} {node : Node} : item.node? = some node → Takes item location b (b.add node)
  | skip {b : Builder} {parent? : Option String} : item.isSilent →
      Takes item location b { b with parent? }
  | open_ {b : Builder} {header : Header} : item.opens? = some header →
      b.frames.length < maxNesting → Takes item location b (b.enter header location)
  | close {b : Builder} {f : Frame} {outer : List Frame} : b.frames = f :: outer →
      item.Closes f.header → Takes item location b (b.leave f outer)
  | goOn {b : Builder} {f : Frame} {outer : List Frame} {next : Header} : b.frames = f :: outer →
      item.goesOn? = some next → f.header.kind = .branch → outer.length < maxNesting →
      Takes item location b ((b.leave f outer).enter next location)

/-! ### What is wrong with a directive -/

namespace Directive

theorem readElse_isForm {rest : List Char} {cause : Cause} (h : readElse rest = .error cause) :
    cause.isForm = true := by
  unfold readElse at h
  by_cases hrest : rest.isEmpty = true
  · rw [if_pos hrest] at h
    cases h
  · rw [if_neg hrest] at h
    dsimp only at h
    split at h
    · cases h
      rfl
    · split at h
      · cases h
        rfl
      · cases h

theorem readFor_isForm {rest : List Char} {cause : Cause} (h : readFor rest = .error cause) :
    cause.isForm = true := by
  unfold readFor at h
  split at h
  · cases h
    rfl
  · dsimp only at h
    split at h
    · cases h
    · cases h
      rfl

/-- What is wrong with the content of a directive is wrong with its form. -/
theorem read_isForm {content : String} {cause : Cause} (h : read content = .error cause) :
    cause.isForm = true := by
  unfold read at h
  dsimp only at h
  split at h
  case h_2 => exact readElse_isForm h
  case h_4 => exact readFor_isForm h
  -- A tag without its condition or its name.
  case h_1 | h_6 | h_8 =>
    split at h
    · cases h
      rfl
    · cases h
  case h_3 | h_5 | h_7 | h_9 => cases h

end Directive

namespace Builder

variable {rules : Rules} {b b' : Builder} {t : Token} {ts : List Token} {fault : Fault}

/-! ### One token -/

/-- A token that is a directive is taken as that directive is. -/
theorem token_eq_ok_iff_directive {remarks : List Remark} {d : Directive}
    (hitem : t.item = .ok (.directive d)) :
    b.token rules t = (remarks, .ok b') ↔ b.directive rules d t.location = (remarks, .ok b') := by
  rw [token_eq, hitem]
  dsimp only
  rcases b.directive rules d t.location with ⟨made, result⟩
  cases result with
  | error cause =>
    -- A fault only gets the place of the token.
    have hfault : (.error cause : Except Cause Builder).mapError (fun cause =>
        (⟨cause, t.location⟩ : Fault)) = .error ⟨cause, t.location⟩ := rfl
    simp [hfault]
  | ok b₁ =>
    have hmade : (.ok b₁ : Except Cause Builder).mapError (fun cause =>
        (⟨cause, t.location⟩ : Fault)) = .ok b₁ := rfl
    simp [hmade]

/-- Opening a directive under any rules. -/
theorem takes_of_open {item : Item} {header : Header} {location : Location}
    (h : b.open_ header location = .ok b') (hitem : item.opens? = some header) :
    Takes item location b b' := by
  obtain ⟨hroom, rfl⟩ := open_ok_iff.1 h
  exact .open_ hitem hroom

/-- Ending a directive under any rules. -/
theorem takes_of_end {d : Directive} {location : Location}
    (hd : ∃ header, (Item.directive d).Closes header)
    (h : (b.directive rules d location).2 = .ok b') : Takes (.directive d) location b b' := by
  obtain ⟨f, outer, hframes, hcloses, rfl⟩ := (end_ok_iff hd).1 h
  exact .close hframes hcloses

/-- Whatever the rules are, a directive that is taken does one of the five things. -/
theorem takes_of_directive {d : Directive} {location : Location}
    (h : (b.directive rules d location).2 = .ok b') : Takes (.directive d) location b b' := by
  cases d with
  | startIf condition | startFor name source => exact takes_of_open h rfl
  | startBlock name =>
    change (b.openBlock rules name location).2 = .ok b' at h
    unfold openBlock at h
    dsimp only at h
    split at h
    · cases h
    · exact takes_of_open h rfl
  | elseIf condition | otherwise =>
    obtain ⟨f, outer, hframes, hkind, hroom, rfl⟩ := branch_ok_iff.1 h
    exact .goOn hframes rfl hkind hroom
  | endIf => exact takes_of_end ⟨.branch .first none, trivial⟩ h
  | endFor => exact takes_of_end ⟨.loop "" "", trivial⟩ h
  | endBlock name? =>
    have hcloses : (Item.directive (.endBlock name?)).Closes (.block (name?.getD "")) := by
      cases name? <;> simp [Item.Closes]
    exact takes_of_end ⟨_, hcloses⟩ h
  | extends_ name =>
    obtain rfl := Except.ok.inj h
    exact .skip rfl
  | unknown keyword =>
    change (if rules.strict then ([], .error (.unknownDirective keyword))
      else ([Remark.unknownDirective keyword location], .ok b) :
        List Remark × Except Cause Builder).2 = .ok b' at h
    split at h
    · cases h
    · obtain rfl := Except.ok.inj h
      exact .skip rfl

/-- A token that is taken says something, and does one of the five things. -/
theorem takes_of_token (h : (b.token rules t).2 = .ok b') :
    ∃ item, t.item = .ok item ∧ Takes item t.location b b' := by
  cases hitem : t.item with
  | error cause =>
    rw [token_eq, hitem] at h
    cases h
  | ok item =>
    refine ⟨item, rfl, ?_⟩
    cases item with
    | text s | output expr =>
      rw [token_eq, hitem] at h
      obtain rfl := Except.ok.inj h
      exact .add rfl
    | directive d =>
      have hpair : b.token rules t = ((b.token rules t).1, .ok b') := by rw [← h]
      have hdirective := (token_eq_ok_iff_directive hitem).1 hpair
      exact takes_of_directive (congrArg Prod.snd hdirective)

theorem open_error {header : Header} {location : Location} {cause : Cause}
    (h : b.open_ header location = .error cause) : cause = .tooDeep := by
  unfold open_ at h
  split at h
  · cases h
  · cases h
    rfl

theorem close_error {closer : Closer} {kinds : List FrameKind} {cause : Cause}
    (h : b.close closer kinds = .error cause) :
    cause = .nothingOpen closer ∨ ∃ kind, cause = .cannotClose closer kind := by
  unfold close at h
  split at h
  · cases h
    exact .inl rfl
  · split at h
    · cases h
    · cases h
      exact .inr ⟨_, rfl⟩

/-- Only the end of a text finds a directive unclosed. -/
theorem directive_ne_unclosed {d : Directive} {location : Location} {cause : Cause}
    (h : (b.directive rules d location).2 = .error cause) (kind : FrameKind) :
    cause ≠ .unclosed kind := by
  -- A directive that only closes.
  have hclose : ∀ {closer kinds cause}, b.close closer kinds = .error cause →
      cause ≠ .unclosed kind := by
    intro closer kinds cause hclose
    rcases close_error hclose with rfl | ⟨kind', rfl⟩ <;> nofun
  have hend : ∀ {closer kinds}, (b.close closer kinds).map (·.2) = .error cause →
      cause ≠ .unclosed kind := by
    intro closer kinds hmap
    cases hresult : b.close closer kinds with
    | ok closed =>
      rw [hresult] at hmap
      cases hmap
    | error cause' =>
      rw [hresult] at hmap
      obtain rfl := Except.error.inj hmap
      exact hclose hresult
  have hbranch : ∀ {closer header}, b.branch closer header location = .error cause →
      cause ≠ .unclosed kind := by
    intro closer header hbranch
    unfold branch at hbranch
    cases hresult : b.close closer [.branch, .otherwise] with
    | error cause' =>
      rw [hresult] at hbranch
      obtain rfl := Except.error.inj hbranch
      exact hclose hresult
    | ok closed =>
      rw [hresult] at hbranch
      simp only [bind, Except.bind] at hbranch
      split at hbranch
      · cases hbranch
        nofun
      · obtain rfl := open_error hbranch
        nofun
  cases d with
  | startIf condition | startFor name source =>
    obtain rfl := open_error h
    nofun
  | elseIf condition | otherwise => exact hbranch h
  | endIf | endFor => exact hend h
  | startBlock name =>
    change (b.openBlock rules name location).2 = .error cause at h
    unfold openBlock at h
    dsimp only at h
    split at h
    · cases h
      nofun
    · obtain rfl := open_error h
      nofun
  | endBlock name? =>
    unfold directive at h
    cases hresult : b.close .endBlock [.block] with
    | error cause' =>
      rw [hresult] at h
      obtain rfl := Except.error.inj h
      exact hclose hresult
    | ok closed =>
      rw [hresult] at h
      -- The block's own name may be another one than the given one.
      rcases closed with ⟨header, made⟩
      cases header with
      | branch place condition? | loop name source => cases h
      | block opened =>
        cases name? with
        | none => cases h
        | some given =>
          by_cases hsame : given = opened
          · simp [bind, Except.bind, hsame, pure, Except.pure] at h
          · simp only [bind, Except.bind, hsame, ↓reduceIte] at h
            obtain rfl := Except.error.inj h
            nofun
  | extends_ name => cases h
  | unknown keyword =>
    change (if rules.strict then ([], .error (.unknownDirective keyword))
      else ([Remark.unknownDirective keyword location], .ok b) :
        List Remark × Except Cause Builder).2 = .error cause at h
    split at h
    · cases h
      nofun
    · cases h

/-- What is not taken is a directive, and the fault stands at its place. -/
theorem error_of_token (h : (b.token rules t).2 = .error fault) :
    t.kind = .tag .directive ∧ fault.location = t.location ∧
      ∀ kind, fault.cause ≠ .unclosed kind := by
  unfold token at h
  cases hkind : t.kind with
  | text =>
    rw [hkind] at h
    cases h
  | tag tagKind =>
    rw [hkind] at h
    cases tagKind with
    | output => cases h
    | directive =>
      cases hread : Directive.read t.value with
      | error cause =>
        rw [hread] at h
        obtain rfl := Except.error.inj h
        refine ⟨rfl, rfl, ?_⟩
        rintro kind rfl
        cases Directive.read_isForm hread
      | ok d =>
        rw [hread] at h
        dsimp only at h
        cases hresult : (b.directive rules d t.location).2 with
        | ok made =>
          rw [hresult] at h
          cases h
        | error cause =>
          rw [hresult] at h
          obtain rfl := Except.error.inj h
          exact ⟨rfl, rfl, directive_ne_unclosed hresult⟩

/-! ### Tokens from left to right -/

/-- Behind tokens that are taken, the others are taken as they would be on their own. -/
theorem tokens_behind (h : (b.tokens rules ts).2 = .ok b') (ts' : List Token) :
    (b.tokens rules (ts ++ ts')).2 = (b'.tokens rules ts').2 := by
  induction ts generalizing b with
  | nil =>
    obtain rfl := Except.ok.inj h
    rfl
  | cons t rest ih =>
    cases htoken : (b.token rules t).2 with
    | error fault =>
      rw [tokens_cons_error htoken] at h
      cases h
    | ok b₁ =>
      rw [tokens_cons_ok htoken] at h
      rw [List.cons_append, tokens_cons_ok htoken]
      exact ih h

/-- The first ones of tokens that are taken are taken. -/
theorem tokens_front {ts' : List Token} (h : (b.tokens rules (ts ++ ts')).2 = .ok b') :
    ∃ b₁, (b.tokens rules ts).2 = .ok b₁ := by
  induction ts generalizing b with
  | nil => exact ⟨b, rfl⟩
  | cons t rest ih =>
    rw [List.cons_append] at h
    cases htoken : (b.token rules t).2 with
    | error fault =>
      rw [tokens_cons_error htoken] at h
      cases h
    | ok b₁ =>
      rw [tokens_cons_ok htoken] at h ⊢
      exact ih h

/-- A fault in tokens is that of the first one that is not taken. -/
theorem error_of_tokens (h : (b.tokens rules ts).2 = .error fault) :
    ∃ front t back b', ts = front ++ t :: back ∧ (b.tokens rules front).2 = .ok b' ∧
      (b'.token rules t).2 = .error fault := by
  induction ts generalizing b with
  | nil => cases h
  | cons t rest ih =>
    cases htoken : (b.token rules t).2 with
    | error fault' =>
      rw [tokens_cons_error htoken] at h
      obtain rfl := Except.error.inj h
      exact ⟨[], t, rest, b, rfl, rfl, htoken⟩
    | ok b₁ =>
      rw [tokens_cons_ok htoken] at h
      obtain ⟨front, t', back, b', rfl, hfront, hfault⟩ := ih h
      exact ⟨t :: front, t', back, b', rfl, by rw [tokens_cons_ok htoken, hfront], hfault⟩

/-- Whatever follows the first token that is not taken, the fault is its own. -/
theorem tokens_error (hfront : (b.tokens rules ts).2 = .ok b')
    (htoken : (b'.token rules t).2 = .error fault) (back : List Token) :
    (b.tokens rules (ts ++ t :: back)).2 = .error fault := by
  rw [tokens_behind hfront, tokens_cons_error htoken]

end Builder

end TextTemplate.Markup
