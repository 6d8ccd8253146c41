import TextTemplate.Proofs.Expr.Raising

/-! # What evaluating a text can give

  Whatever a text says and whatever its variables are, `Expr.evaluate` gives a
  value, and `undefined` if the text has none.  There are two gaps.  A whole number
  in the text that has too many digits is no fault of evaluating, and reading does
  not treat it as a malformed text, so nothing turns it into `undefined`.  And a
  host object among the variables can raise what is no error, or an error that
  raises another one when it is reported (`evaluate_gives_value`).
  `longNumeral_fails` shows that the first gap is there.
-/

namespace TextTemplate

namespace Token

/-- Scanning fails only because a text is malformed. -/
theorem malformed_of_scanFrom {position : Nat} {s : List Char} {fault : ReadFault}
    (h : scanFrom position s = .error fault) : ∃ cause p, fault = .malformed cause p := by
  fun_induction scanFrom position s with
  | case1 => cases h
  | case2 position c rest cause _ =>
    cases h
    exact ⟨cause, position, rfl⟩
  | case3 position c rest lexeme? width _ stop ih =>
    cases htokens : scanFrom stop (rest.drop width) with
    | error fault' =>
      rw [htokens] at h
      cases h
      exact ih htokens
    | ok tokens =>
      rw [htokens] at h
      cases lexeme? <;> cases h

/-- A text of digits alone is one token. -/
theorem scan_digits {c : Char} {digits : List Char} (hblank : Text.isBlank c = false)
    (h : ∀ d ∈ c :: digits, Text.isDecimalDigit d = true) :
    scan (String.ofList (c :: digits))
      = .ok [⟨.number (String.ofList (c :: digits)), 0, 1 + digits.length⟩] := by
  have htail : numberTail digits = digits := by
    have hall : digits.takeWhile Text.isDecimalDigit = digits := by
      have := @List.takeWhile_append_of_pos _ Text.isDecimalDigit digits [] fun d hd =>
        h d (List.mem_cons_of_mem _ hd)
      simpa using this
    rw [numberTail, hall]
    simp only [List.drop_length]
  have hfront : front c digits
      = .ok (some (.number (String.ofList (c :: digits))), digits.length) := by
    rw [front, hblank, h c List.mem_cons_self, htail]
    rfl
  rw [scan, String.toList_ofList, scanFrom, hfront]
  simp only [List.drop_length, Nat.zero_add]
  rw [scanFrom]
  rfl

end Token

namespace Expr

open Reader

/-- A whole number that is too long at the front of a text is what reading it reports. -/
theorem ofTokens_overlong (stop : Nat) {t : Token} (ht : Overlong t) (rest : List Token) :
    ofTokens stop (t :: rest) = .error .tooManyDigits := by
  obtain ⟨digits, hlexeme, hlong⟩ := ht
  have hsign : sign? t.lexeme = none := by
    rw [hlexeme]
    rfl
  have hvalue : numberValue digits = .error .tooManyDigits :=
    numberValue_eq_error_iff.2 ⟨rfl, hlong⟩
  have hsigned : ∀ inner, (ofNonterminal inner stop maxSigns .signed).outcome (t :: rest)
      = .error .tooManyDigits := by
    intro inner
    rw [ofNonterminal, outcome_signed_plain hsign, ofNonterminal, outcome_accessed, ofNonterminal,
      outcome_operand_number hlexeme, hvalue]
    rfl
  -- The fault passes through every level of operators.
  rw [ofTokens_eq stop (List.cons_ne_nil t rest), bounded]
  simp only [outcome_joined, Level.operand, hsigned]
  rfl

/-- If the text of an expression holds too many digits, one of its tokens does. -/
theorem overlong_of_read {text : String} (h : read text = .error .tooManyDigits) :
    ∃ tokens, Token.scan text = .ok tokens ∧ ∃ t ∈ tokens, Overlong t := by
  unfold read at h
  cases hscan : Token.scan text with
  | error fault =>
    obtain ⟨cause, position, rfl⟩ := Token.malformed_of_scanFrom hscan
    rw [hscan] at h
    cases h
  | ok tokens =>
    have htokens : ofTokens text.length tokens = .error .tooManyDigits := by
      rw [hscan] at h
      exact h
    have hexplained := ofTokens_explained text.length tokens
    rw [htokens] at hexplained
    exact ⟨tokens, rfl, hexplained⟩

/-- A text that cannot be read is `undefined`, with a remark, unless it holds too many digits. -/
theorem evaluate_of_unread {text : String} {fault : ReadFault} (hread : read text = .error fault)
    (hfault : fault ≠ .tooManyDigits) (scope : Scope) :
    evaluate scope text = .ok (.undefined, some (.malformed text fault)) := by
  cases fault with
  | tooManyDigits => exact absurd rfl hfault
  | malformed | tooDeep => simp only [evaluate, hread]

/-- What an evaluation fails with is raised by a host object that is reached from a name. -/
theorem escape_of_evaluate {scope : Scope} {text className : String}
    (h : evaluate scope text = .error (.host className)) :
    ∃ name e, (scope.lookup name).Raises e ∧ e.escape? = some className := by
  have hscope : scope.RaisesOnly fun e => ∃ name, (scope.lookup name).Raises e :=
    fun name e he => ⟨name, he⟩
  obtain ⟨e, ⟨name, he⟩, hclass⟩ := (evaluate_within hscope text).2 className h
  exact ⟨name, e, he, hclass⟩

/-- Evaluating a text gives a value: the one of the expression that the text writes, or `undefined`
    with a remark if the text is malformed or its expression has no value.  It fails only if the
    text holds a whole number that is too long, or if a host object, which is the value of a name or
    is reached from one, raises an exception that is no error or cannot be reported. -/
theorem evaluate_gives_value (scope : Scope) (text : String) :
    (∃ v remark, evaluate scope text = .ok (v, remark) ∧
      match remark with
      | none => ∃ e, read text = .ok e ∧ e.eval scope maxDepth = .ok v
      | some _ => v = .undefined ∧
          ∀ e v', read text = .ok e → eval scope maxDepth e ≠ .ok v') ∨
    (evaluate scope text = .error .tooManyDigits ∧
      ∃ tokens, Token.scan text = .ok tokens ∧ ∃ t ∈ tokens, Overlong t) ∨
    ∃ className, evaluate scope text = .error (.host className) ∧
      ∃ name e, (scope.lookup name).Raises e ∧ e.escape? = some className := by
  cases hread : read text with
  | ok e =>
    have hsettled : evaluate scope text = settle text (e.eval scope maxDepth) := by
      simp only [evaluate, hread]
    cases hvalue : e.eval scope maxDepth with
    | ok v =>
      rw [hvalue] at hsettled
      exact .inl ⟨v, none, hsettled, e, rfl, hvalue⟩
    | error fault =>
      rw [hvalue] at hsettled
      simp only [settle] at hsettled
      cases hescape : fault.host?.bind (·.escape?) with
      | none =>
        rw [hescape] at hsettled
        refine .inl ⟨.undefined, some (.noValue text fault), hsettled, rfl, ?_⟩
        rintro e' v' he hv'
        cases he
        rw [hvalue] at hv'
        cases hv'
      | some className =>
        rw [hescape] at hsettled
        exact .inr (.inr ⟨className, hsettled, escape_of_evaluate hsettled⟩)
  | error fault =>
    by_cases hfault : fault = .tooManyDigits
    · subst hfault
      exact .inr (.inl ⟨by simp only [evaluate, hread], overlong_of_read hread⟩)
    · refine .inl ⟨_, _, evaluate_of_unread hread hfault scope, rfl, fun e v' he => ?_⟩
      cases he

/-- Evaluating a text finds too many digits only if reading it does. -/
theorem read_of_evaluate_error {scope : Scope} {text : String}
    (h : evaluate scope text = .error .tooManyDigits) : read text = .error .tooManyDigits := by
  unfold evaluate at h
  split at h
  · next hread => exact hread
  · cases h
  · unfold settle at h
    split at h
    · cases h
    · split at h <;> cases h

/-- The text of a whole number that is too long has no value, not even `undefined`. -/
theorem evaluate_overlong (scope : Scope) {c : Char} {digits : List Char}
    (hblank : Text.isBlank c = false) (h : ∀ d ∈ c :: digits, Text.isDecimalDigit d = true)
    (hlong : Numeral.maxDigits < (c :: digits).length) :
    evaluate scope (String.ofList (c :: digits)) = .error .tooManyDigits := by
  have ht : Overlong ⟨.number (String.ofList (c :: digits)), 0, 1 + digits.length⟩ := by
    refine ⟨_, rfl, ?_, ?_⟩
    · rw [String.toList_ofList]
      exact fun hpoint => absurd (h _ hpoint) (by decide)
    · rwa [← String.length_toList, String.toList_ofList]
  have hread : read (String.ofList (c :: digits)) = .error .tooManyDigits := by
    rw [read, Token.scan_digits hblank h]
    exact ofTokens_overlong _ ht []
  simp only [evaluate, hread]

/-- One digit more than is read. -/
def longNumeral : String := String.ofList ('1' :: List.replicate Numeral.maxDigits '1')

/-- Not every text has a value: that of a whole number with too many digits is not `undefined` but
    a failure, in every scope. -/
theorem longNumeral_fails :
    (∀ scope, evaluate scope longNumeral = .error .tooManyDigits) ∧
    ¬ ∀ (scope : Scope) (text : String), ∃ result, evaluate scope text = .ok result := by
  have hfails : ∀ scope, evaluate scope longNumeral = .error .tooManyDigits := by
    intro scope
    refine evaluate_overlong scope (by decide) (fun d hd => ?_) ?_
    · rcases List.mem_cons.1 hd with rfl | hd
      · decide
      · rw [List.eq_of_mem_replicate hd]
        decide
    · rw [List.length_cons, List.length_replicate]
      exact Nat.lt_succ_self _
  refine ⟨hfails, fun h => ?_⟩
  obtain ⟨result, hresult⟩ := h (.outermost ⟨[]⟩) longNumeral
  rw [hfails] at hresult
  cases hresult

end Expr

end TextTemplate
