import TextTemplate.Expr.Evaluator
import TextTemplate.Proofs.Expr.Parsing

/-! # What an evaluator remembers

  An evaluator keeps two things from one call to the next.  Its cursor makes no
  difference: each text is read from its own tokens, the first one first, wherever
  the cursor was left (`Cursor.outcome_read`).  And what it knows of a text is what
  reading the text gives.  This is the invariant `Evaluator.Sound`: the cursor is
  not in it, a text that is read and remembered keeps it, and so does one whose
  reading fails for a number with too many digits, since it is not remembered.

  A sound evaluator gives a text the value that it has by itself.  What may be
  missing is the remark on a malformed text, which is made once.
-/

namespace TextTemplate.Expr

open Reader

/-! ### Cursors -/

namespace Cursor

/-- What is taken from the tokens ahead is what is read from their front; the rest stays ahead. -/
theorem takeExpression_of_ok {c : Cursor} {e : Expr} {rest : List Token}
    (h : (expression c.stop (maxBrackets + 1)).outcome c.ahead = .ok (e, rest)) :
    c.takeExpression.1 = .ok e ∧ c.takeExpression.2.ahead = rest := by
  have hexplained := explained_bounded c.stop maxSigns (maxBrackets + 1) c.ahead
  rw [← expression_eq_bounded, h] at hexplained
  obtain ⟨u, hu, -⟩ := hexplained
  -- What is left is the end of all tokens, so counting from the end finds it again.
  have hsuffix : rest <:+ c.tokens := by
    have hahead : c.ahead <:+ c.tokens := List.drop_suffix _ _
    exact List.IsSuffix.trans ⟨u, hu⟩ hahead
  unfold outcome at h
  unfold takeExpression
  cases hread : expression c.stop (maxBrackets + 1) c.ahead with
  | error fault =>
    rw [hread] at h
    cases h
  | ok phrase =>
    rw [hread] at h
    cases h
    refine ⟨rfl, ?_⟩
    show c.tokens.drop (c.tokens.length - phrase.rest.length) = phrase.rest
    exact (List.suffix_iff_eq_drop.1 hsuffix).symm

theorem takeExpression_of_error {c : Cursor} {fault : ReadFault}
    (h : (expression c.stop (maxBrackets + 1)).outcome c.ahead = .error fault) :
    c.takeExpression.1 = .error fault := by
  unfold outcome at h
  unfold takeExpression
  cases hread : expression c.stop (maxBrackets + 1) c.ahead with
  | error fault' =>
    rw [hread] at h
    cases h
    rfl
  | ok phrase =>
    rw [hread] at h
    cases h

/-- What the tokens ahead make up does not depend on those that are taken. -/
theorem outcome_takeAll (c : Cursor) : c.takeAll.1 = ofTokens c.stop c.ahead := by
  unfold takeAll
  by_cases hempty : c.ahead = []
  · rw [hempty]
    rfl
  rw [if_neg (by rw [List.isEmpty_iff]; exact hempty), ofTokens_eq c.stop hempty,
    ← expression_eq_bounded]
  cases hread : (expression c.stop (maxBrackets + 1)).outcome c.ahead with
  | error fault =>
    have htaken := takeExpression_of_error hread
    generalize c.takeExpression = made at htaken ⊢
    obtain ⟨outcome, after⟩ := made
    obtain rfl : outcome = .error fault := htaken
    rfl
  | ok p =>
    obtain ⟨e, rest⟩ := p
    obtain ⟨htaken, hrest⟩ := takeExpression_of_ok hread
    generalize c.takeExpression = made at htaken hrest ⊢
    obtain ⟨outcome, after⟩ := made
    obtain rfl : outcome = .ok e := htaken
    obtain rfl : after.ahead = rest := hrest
    -- What stays ahead is looked at in the same way.
    dsimp only
    cases after.ahead <;> rfl

/-- Wherever a cursor was left, it reads of a text what the text writes: it starts with the first
    token of the text. -/
theorem outcome_read (c : Cursor) (text : String) : (c.read text).1 = Expr.read text := by
  unfold read Expr.read
  cases Token.scan text with
  | error fault => rfl
  | ok tokens => exact outcome_takeAll ⟨tokens, text.length, 0⟩

end Cursor

/-! ### Evaluators -/

/-- Reading a text gives the expression, or that there is none because the text is malformed. -/
inductive Reads (text : String) : Option Expr → Prop where
  | expr {e : Expr} : Expr.read text = .ok e → Reads text (some e)
  | malformed {fault : ReadFault} :
      Expr.read text = .error fault → fault ≠ .tooManyDigits → Reads text none

namespace Evaluator

variable {evaluator : Evaluator} {text : String}

/-- What the evaluator knows of texts is what reading them gives. -/
def Sound (evaluator : Evaluator) : Prop := ∀ entry ∈ evaluator.known, Reads entry.1 entry.2

theorem sound_new : new.Sound := fun _ h => absurd h List.not_mem_nil

theorem Sound.reads_of_find? (h : evaluator.Sound) {e? : Option Expr}
    (hfound : evaluator.find? text = some e?) : Reads text e? := by
  obtain ⟨entry, hentry, rfl⟩ := Option.map_eq_some_iff.1 hfound
  have hname : entry.1 = text := by simpa using List.find?_some hentry
  rw [← hname]
  exact h entry (List.mem_of_find?_eq_some hentry)

/-- An evaluator stays sound if it remembers what reading gives, wherever its cursor is. -/
theorem Sound.remember (h : evaluator.Sound) (cursor : Cursor) {e? : Option Expr}
    (hreads : Reads text e?) : Sound ⟨cursor, (text, e?) :: evaluator.known⟩ := by
  intro entry hentry
  rcases List.mem_cons.1 hentry with rfl | hentry
  · exact hreads
  · exact h entry hentry

/-- What compiling a text may give, if it says what reading gives: the expression, or that the text
    is malformed, with or without a remark. -/
inductive Compiled (text : String) :
    Except TooManyDigits (Option Expr × Option Remark) → Prop where
  | overlong : Expr.read text = .error .tooManyDigits → Compiled text (.error .tooManyDigits)
  | expr {e : Expr} : Expr.read text = .ok e → Compiled text (.ok (some e, none))
  | malformed {fault : ReadFault} : Expr.read text = .error fault → fault ≠ .tooManyDigits →
      ∀ remark?, remark? = none ∨ remark? = some (.malformed text fault) →
      Compiled text (.ok (none, remark?))

/-- A sound evaluator compiles a text to what it reads as, and stays sound. -/
theorem Sound.compile (h : evaluator.Sound) (text : String) :
    Compiled text (evaluator.compile text).1 ∧ (evaluator.compile text).2.Sound := by
  unfold Evaluator.compile
  cases hfound : evaluator.find? text with
  | some e? =>
    refine ⟨?_, h⟩
    cases h.reads_of_find? hfound with
    | expr hread => exact .expr hread
    | malformed hread hfault => exact .malformed hread hfault none (.inl rfl)
  | none =>
    have hread := evaluator.cursor.outcome_read text
    generalize evaluator.cursor.read text = made at hread ⊢
    obtain ⟨outcome, cursor⟩ := made
    have hread : Expr.read text = outcome := hread.symm
    cases outcome with
    | ok e => exact ⟨.expr hread, h.remember cursor (.expr hread)⟩
    | error fault =>
      cases fault with
      | tooManyDigits => exact ⟨.overlong hread, h⟩
      | malformed cause position =>
        have hfault : ReadFault.malformed cause position ≠ .tooManyDigits := nofun
        exact ⟨.malformed hread hfault _ (.inr rfl),
          h.remember cursor (.malformed hread hfault)⟩
      | tooDeep =>
        have hfault : ReadFault.tooDeep ≠ .tooManyDigits := nofun
        exact ⟨.malformed hread hfault _ (.inr rfl),
          h.remember cursor (.malformed hread hfault)⟩

end Evaluator

/-- Is the remark about a malformed text? -/
def Remark.isMalformed : Remark → Bool
  | .malformed _ _ => true
  | .noValue _ _ => false

/-- What evaluating gives, apart from a remark on a malformed text. -/
def quiet (made : Value × Option Remark) : Value × Option Remark :=
  (made.1, made.2.filter (!·.isMalformed))

/-- A sound evaluator evaluates a text to what it is by itself, and stays sound. -/
theorem Evaluator.Sound.evaluate {evaluator : Evaluator} (h : evaluator.Sound) (scope : Scope)
    (text : String) :
    (evaluator.evaluate scope text).1.map quiet = (Expr.evaluate scope text).map quiet ∧
    (evaluator.evaluate scope text).2.Sound := by
  obtain ⟨hcompiled, hsound⟩ := h.compile text
  unfold Evaluator.evaluate Expr.evaluate
  generalize evaluator.compile text = made at hcompiled hsound ⊢
  obtain ⟨outcome, after⟩ := made
  refine ⟨?_, hsound⟩
  cases hcompiled with
  | overlong hread => rw [hread]
  | @expr e hread => rw [hread]
  | @malformed fault hread hfault remark? hremark =>
    rw [hread]
    -- Both sides are `undefined`, and a remark on either side is not counted.
    have hquiet :
        quiet (.undefined, remark?) = quiet (.undefined, some (.malformed text fault)) := by
      rcases hremark with rfl | rfl <;> rfl
    cases fault with
    | tooManyDigits => exact absurd rfl hfault
    | malformed | tooDeep => exact congrArg Except.ok hquiet

/-- That a text is malformed is reported once, and the texts behind it are read as usual. -/
example : (inTurn (fun evaluator text => evaluator.evaluate (.ofPairs []) text) Evaluator.new
      ["1 + (", "2", "1 + ("]).1.map (fun outcome => outcome.toOption.bind (·.2))
    = [some (.malformed "1 + (" (.malformed .unexpectedEnd 5)), none, none] := by
  decide +kernel

end TextTemplate.Expr

namespace TextTemplate

/-! ### Calls in turn -/

/-- If every call from a good state leaves a good one and shows what it should, calls in turn do. -/
theorem inTurn_eq_map {σ α β γ : Type} {call : σ → α → β × σ} (good : σ → Prop) {view : β → γ}
    {should : α → γ}
    (hcall : ∀ s a, good s → view (call s a).1 = should a ∧ good (call s a).2)
    (calls : List α) {s : σ} (hs : good s) :
    (inTurn call s calls).1.map view = calls.map should := by
  induction calls generalizing s with
  | nil => rfl
  | cons a rest ih =>
    obtain ⟨hshown, hgood⟩ := hcall s a hs
    show view (call s a).1 :: (inTurn call (call s a).2 rest).1.map view = _
    rw [hshown, ih hgood, List.map_cons]

end TextTemplate
