import TextTemplate.Proofs.Expr.Printing
import TextTemplate.Proofs.Expr.Spacing

/-! # Expressions made of the texts of others

  Put in brackets and joined by an operator, texts that are expressions make up an
  expression, and its value is that of the operation on the values of the parts
  (`read_eval_compound`).  So what a text means does not depend on what stands
  around it.

  Three things carry this.  A text in brackets keeps its words, since a word ends
  where a bracket or a space follows (`Lexes.reads_append`).  The words derive the
  compound, since the grammar asks only what a phrase between brackets derives
  (`Composed`).  And a value does not depend on how many operations may be nested
  around it, as long as there are enough (`eval_eq_of_depth_le`, by induction on the
  expression).
-/

namespace TextTemplate

namespace Token

/-! ### A text keeps its words -/

/-- The words of a text are read from the front of a longer one, if what follows parts from them.
    The induction is on the words. -/
theorem Lexes.reads_append {position : Nat} {s : List Char} {tokens : List Token}
    (h : Lexes position s tokens) {rest : List Char} {behind : List Lexeme} (hrest : Parts rest)
    (hbehind : Reads rest behind) : Reads (s ++ rest) (tokens.map (·.lexeme) ++ behind) := by
  induction h with
  | nil => exact hbehind
  | blank hc _ ih => exact ih.blank hc
  | @word position c w s lexeme tokens hword _ ih =>
    -- The scan cut this word where its text goes on, and it would cut it there whatever follows.
    obtain ⟨w', s', hsplit, hwidth, hstays⟩ := front_stays (hword s (.refl s))
    obtain ⟨rfl, rfl⟩ := List.append_inj hsplit hwidth.symm
    rw [List.cons_append, List.append_assoc]
    exact .word (hstays (s ++ rest) (hrest.neutral s)) ih

/-- An equals sign starts nothing but an operator of two characters. -/
theorem front_equals (rest : List Char) :
    front '=' rest = .ok (some (.operator .eq), 1) ∨ ∃ cause, front '=' rest = .error cause := by
  cases rest with
  | nil => exact .inr ⟨_, rfl⟩
  | cons d s =>
    by_cases hd : d = '='
    · subst hd
      exact .inl rfl
    · have hpair : operator2? '=' d = none := by
        unfold operator2?
        split <;> simp_all
      have hblank : Text.isBlank '=' = false := by decide
      have hdigit : Text.isDecimalDigit '=' = false := by decide
      refine .inr ⟨.unexpectedCharacter '=', ?_⟩
      simp [front, hblank, hdigit, hpair, operator1?, symbol?, startsName]

theorem operator_of_scanFrom {position : Nat} {rest : List Char} {tokens : List Token}
    (h : scanFrom position ('=' :: rest) = .ok tokens) :
    ∃ t more, tokens = t :: more ∧ t.lexeme = .operator .eq := by
  rw [scanFrom] at h
  rcases front_equals rest with hfront | ⟨cause, hfront⟩
  · rw [hfront] at h
    cases hmore : scanFrom (position + 1 + 1) (rest.drop 1) with
    | error fault =>
      simp only [hmore] at h
      cases h
    | ok more =>
      simp only [hmore] at h
      cases h
      exact ⟨_, more, rfl, rfl⟩
  · rw [hfront] at h
    cases h

end Token

namespace Expr

open Token Reader

/-! ### Phrases -/

/-- No phrase starts with an operator between operands. -/
theorem Derives.sign_head {n : Nonterminal} {u : List Token} {e : Expr} (h : Derives n u e) :
    ∃ t v, u = t :: v ∧ ∀ op, t.lexeme = .operator op → (sign? t.lexeme).isSome := by
  induction h with
  | alone _ ih | unsigned _ ih | whole _ ih | item _ ih => exact ih
  | join _ _ _ _ ih | moreItems _ _ _ ih | property _ _ _ ih | index _ _ _ _ ih =>
    obtain ⟨t, v, rfl, ht⟩ := ih
    exact ⟨t, _, rfl, ht⟩
  | not ht _ _ | neg ht _ _ => exact ⟨_, _, rfl, fun _ _ => by rw [ht]; rfl⟩
  | number ht | string ht | keyword ht | name ht | group ht | noItems ht | list ht =>
    refine ⟨_, _, rfl, fun op hop => ?_⟩
    rw [ht] at hop
    cases hop

/-- What derives holds no number that is too long, since that has no value. -/
theorem Derives.not_overlong {n : Nonterminal} {u : List Token} {e : Expr} (h : Derives n u e) :
    ∀ t ∈ u, ¬ Overlong t := by
  have hother : ∀ (t : Token), (∀ digits, t.lexeme ≠ .number digits) → ¬ Overlong t := by
    rintro t ht ⟨digits, hdigits, -⟩
    exact ht digits hdigits
  have hbrackets : ∀ {opening closing : Token} {v : List Token} {s s' : Symbol},
      opening.lexeme = .symbol s → closing.lexeme = .symbol s' → (∀ t ∈ v, ¬ Overlong t) →
      ∀ t ∈ opening :: (v ++ [closing]), ¬ Overlong t := by
    intro opening closing v s s' hopening hclosing hv
    have hopening : ¬ Overlong opening := hother opening (by simp [hopening])
    have hclosing : ¬ Overlong closing := hother closing (by simp [hclosing])
    exact List.forall_mem_cons.2
      ⟨hopening, List.forall_mem_append.2 ⟨hv, List.forall_mem_singleton.2 hclosing⟩⟩
  -- Only a number can be too long, so all rests on the case of a number, whose value is known.
  induction h with
  | alone _ ih | unsigned _ ih | whole _ ih | item _ ih => exact ih
  | join _ ht _ _ ih ih' | moreItems _ ht _ ih ih' =>
    exact List.forall_mem_append.2 ⟨ih, List.forall_mem_cons.2 ⟨hother _ (by simp [ht]), ih'⟩⟩
  | not ht _ ih | neg ht _ ih => exact List.forall_mem_cons.2 ⟨hother _ (by simp [ht]), ih⟩
  | @property u dot key e name _ hdot hkey ih =>
    have hkey : ¬ Overlong key := by
      apply hother
      rcases hkey with hkey | ⟨k, hkey, -⟩ <;> simp [hkey]
    exact List.forall_mem_append.2
      ⟨ih, List.forall_mem_cons.2 ⟨hother dot (by simp [hdot]), List.forall_mem_singleton.2 hkey⟩⟩
  | index _ hopening _ hclosing ih ih' =>
    exact List.forall_mem_append.2 ⟨ih, hbrackets hopening hclosing ih'⟩
  | number ht hvalue =>
    refine List.forall_mem_singleton.2 ?_
    rintro ⟨digits, hdigits, hlong⟩
    obtain rfl := Lexeme.number.inj (ht.symm.trans hdigits)
    rw [numberValue_eq_error_iff.2 ⟨rfl, hlong⟩] at hvalue
    cases hvalue
  | string ht | keyword ht | name ht =>
    exact List.forall_mem_singleton.2 (hother _ (by simp [ht]))
  | noItems hopening hclosing =>
    exact hbrackets (v := []) hopening hclosing (List.forall_mem_nil _)
  | group hopening _ hclosing ih | list hopening _ hclosing ih =>
    exact hbrackets hopening hclosing ih

/-- A word alone, wherever it stands. -/
def bare (lexeme : Lexeme) : Token := ⟨lexeme, 0, 0⟩

/-- The tokens keep the limit on signs and open no more brackets at once. -/
def Fits (brackets : Nat) (u : List Token) : Prop :=
  nesting u ≤ brackets ∧ signRun u ≤ maxSigns

/-- One pair of brackets may be put around the text. -/
def HasRoom (text : String) : Prop :=
  ∀ tokens, Token.scan text = .ok tokens → nesting tokens < maxBrackets ∧
    signRun tokens ≤ maxSigns

/-- The text writes a phrase which, if there is room, keeps the limits. -/
def Composed (room : Prop) (brackets : Nat) (n : Nonterminal) (w : String) (e : Expr) : Prop :=
  ∃ u : List Token, Writes w (u.map (·.lexeme)) ∧ Derives n u e ∧ (room → Fits brackets u)

namespace Composed

variable {room : Prop} {brackets : Nat} {n : Nonterminal} {w w' : String} {e e' : Expr}

/-- A text that is read as an expression writes it. -/
theorem ofRead (h : read w = .ok e) (hroom : room → HasRoom w) :
    Composed room (maxBrackets - 1) .expression w e := by
  obtain ⟨u, hscan, hderives⟩ := derives_of_read h
  refine ⟨u, ⟨?_, ?_⟩, hderives, fun h => ?_⟩
  · -- A text that starts with an equals sign gives an operator first, which no phrase does.
    obtain ⟨t, v, rfl, hsign⟩ := hderives.sign_head
    cases hchars : w.toList with
    | nil =>
      rw [scan, hchars, scanFrom] at hscan
      cases hscan
    | cons c rest =>
      refine ⟨c, rest, rfl, ?_⟩
      rintro rfl
      rw [scan, hchars] at hscan
      obtain ⟨t, more, hsplit, ht⟩ := operator_of_scanFrom hscan
      obtain ⟨rfl, -⟩ := List.cons.inj hsplit
      have := hsign .eq ht
      rw [ht] at this
      cases this
  · intro s behind hs hbehind
    exact (lexes_of_scanFrom hscan).reads_append hs hbehind
  · obtain ⟨hnesting, hsigns⟩ := hroom h u hscan
    exact ⟨Nat.le_sub_one_of_lt hnesting, hsigns⟩

/-- What a text writes is what it is read as, unless a limit is hit, for which there has to be no
    room. -/
theorem read_eq (h : Composed room maxBrackets .expression w e) :
    read w = .ok e ∨ read w = .error .tooDeep ∧ ¬ room := by
  obtain ⟨u, hwrites, hderives, hfits⟩ := h
  have hreads := hwrites.reads .nil .nil
  rw [List.append_nil, List.append_nil] at hreads
  obtain ⟨tokens, hscan, hlexemes⟩ := hreads 0
  have hread : read w = ofTokens w.length tokens := by
    rw [read, scan, hscan]
    rfl
  have hworded : Worded u tokens := by
    have hsame : List.Forall₂ Lexeme.SaysSame (u.map (·.lexeme)) (tokens.map (·.lexeme)) := by
      rw [hlexemes]
      exact List.forall₂_same.2 fun lexeme _ => .refl lexeme
    rwa [List.forall₂_map_left_iff, List.forall₂_map_right_iff] at hsame
  -- The tokens of the text have the words of the phrase at other places, so both are read alike,
  -- and reading the phrase can fail in two ways only.
  have halike := ofTokens_alike w.length w.length hworded
  have hexplained := ofTokens_explained w.length u
  rw [hread]
  generalize ofTokens w.length tokens = made at halike ⊢
  cases hmade : ofTokens w.length u with
  | ok e' =>
    rw [hmade] at halike hexplained
    cases halike
    rw [Derives.unique hexplained hderives]
    exact .inl rfl
  | error fault =>
    rw [hmade] at halike hexplained
    cases fault with
    | malformed => exact absurd ⟨e, hderives⟩ hexplained
    | tooManyDigits =>
      obtain ⟨t, ht, hlong⟩ := hexplained
      exact absurd hlong (hderives.not_overlong t ht)
    | tooDeep =>
      cases halike
      refine .inr ⟨rfl, fun hroom => ?_⟩
      obtain ⟨hnesting, hsigns⟩ := hfits hroom
      rcases hexplained with hdeep | hmany
      · exact Nat.lt_irrefl _ (Nat.lt_of_lt_of_le hdeep hnesting)
      · exact Nat.lt_irrefl _ (Nat.lt_of_lt_of_le hmany hsigns)

/-! ### Phrases put together -/

/-- No operand starts with a sign. -/
theorem signsAhead_operand {u : List Token} (h : Derives .operand u e) : signsAhead u = 0 := by
  obtain ⟨t, v, rfl, -, hsign⟩ := head_of_derives h
  simp [signsAhead, hsign (.inr rfl)]

/-- An operator in front of an operand makes a row of one sign at most. -/
theorem signRun_cons_operand {u : List Token} (h : Derives .operand u e) (lexeme : Lexeme)
    (hu : signRun u ≤ maxSigns) : signRun (bare lexeme :: u) ≤ maxSigns := by
  have hone : 1 ≤ maxSigns := by decide
  rw [signRun, signsAhead, signsAhead_operand h]
  split
  · exact Nat.max_le.2 ⟨hone, hu⟩
  · exact Nat.max_le.2 ⟨Nat.zero_le _, hu⟩

theorem nesting_cons_plain {lexeme : Lexeme} (h : ∀ s, lexeme = .symbol s → s = .dot ∨ s = .comma)
    (u : List Token) : nesting (bare lexeme :: u) = nesting u := nesting_plain h u

theorem signRun_cons_plain {lexeme : Lexeme} (h : sign? lexeme = none) (u : List Token) :
    signRun (bare lexeme :: u) = signRun u := by
  rw [signRun, signsAhead, show sign? (bare lexeme).lexeme = none from h]
  exact Nat.zero_max _

/-- What stands in brackets is one bracket deeper. -/
theorem fits_brackets {u : List Token} (hderives : Derives n u e) (h : Fits brackets u)
    {opening closing : Symbol} (hopening : opening = .openParen ∨ opening = .openBracket)
    (hclosing : closing = .closeParen ∨ closing = .closeBracket) :
    Fits (brackets + 1) (bare (.symbol opening) :: (u ++ [bare (.symbol closing)])) := by
  obtain ⟨hnesting, hsigns⟩ := h
  have hend : nesting [bare (.symbol closing)] = 0 ∧ signRun [bare (.symbol closing)] = 0 := by
    rcases hclosing with rfl | rfl <;> exact ⟨rfl, rfl⟩
  constructor
  · rw [nesting_opening (by rcases hopening with rfl | rfl <;> simp [bare]),
      hderives.nesting_append, hend.1, Nat.max_zero]
    exact Nat.succ_le_succ hnesting
  · rw [signRun_cons_plain rfl, hderives.signRun_append, hend.2, Nat.max_zero]
    exact hsigns

theorem group (h : Composed room brackets .expression w e) :
    Composed room (brackets + 1) .operand ("(" ++ w ++ ")") (.group e) := by
  obtain ⟨u, hwrites, hderives, hfits⟩ := h
  refine ⟨bare (.symbol .openParen) :: (u ++ [bare (.symbol .closeParen)]), ?_, ?_, fun hroom => ?_⟩
  · rw [List.map_cons, List.map_append]
    exact hwrites.enclosed .openParen (.inl rfl)
  · exact .group rfl hderives rfl
  · exact fits_brackets hderives (hfits hroom) (.inl rfl) (.inl rfl)

theorem join (h : Composed room brackets .operand w e) {level : Level} {op : Operator}
    {join : Expr → Expr → Expr} (hjoin : level.join? op = some join)
    (h' : Composed room brackets .operand w' e') :
    Composed room brackets .expression (w ++ " " ++ op.text ++ " " ++ w') (join e e') := by
  obtain ⟨u, hwrites, hderives, hfits⟩ := h
  obtain ⟨v, hwrites', hderives', hfits'⟩ := h'
  refine ⟨u ++ bare (.operator op) :: v, ?_, ?_, fun hroom => ⟨?_, ?_⟩⟩
  · rw [List.map_append, List.map_cons]
    exact hwrites.join op hwrites'
  · have hleft := (Derives.unsigned (.whole hderives)).joined_of_signed level
    have hright := (Derives.unsigned (.whole hderives')).operand_of_signed level
    exact .of_joined (.join hleft rfl hjoin hright)
  · rw [hderives.nesting_append, nesting_cons_plain (by simp)]
    exact Nat.max_le.2 ⟨(hfits hroom).1, (hfits' hroom).1⟩
  · rw [hderives.signRun_append]
    exact Nat.max_le.2 ⟨(hfits hroom).2, signRun_cons_operand hderives' _ (hfits' hroom).2⟩

theorem sign (h : Composed room brackets .operand w e) {op : Operator} {sign : UnaryOp}
    (hsign : sign? (.operator op) = some sign) :
    Composed room brackets .expression (op.text ++ w) (.unary sign e) := by
  obtain ⟨u, hwrites, hderives, hfits⟩ := h
  refine ⟨bare (.operator op) :: u, ?_, ?_, fun hroom => ⟨?_, ?_⟩⟩
  · rw [List.map_cons]
    cases op <;> cases hsign
    · exact hwrites.neg
    · exact hwrites.not
  · have hsigned : Derives .signed (bare (.operator op) :: u) (.unary sign e) :=
      derives_sign hsign (.unsigned (.whole hderives))
    exact hsigned.joined_of_signed .disjunction
  · rw [nesting_cons_plain (by simp)]
    exact (hfits hroom).1
  · exact signRun_cons_operand hderives _ (hfits hroom).2

theorem property (h : Composed room brackets .operand w e) {name : String} (hname : IsWord name) :
    Composed room brackets .expression (w ++ "." ++ name) (.property e name) := by
  obtain ⟨u, hwrites, hderives, hfits⟩ := h
  have hkey : word name = .name name ∨ ∃ k : Keyword, word name = .keyword k ∧ k.text = name := by
    unfold word
    split
    · next h => exact .inr ⟨.yes, rfl, h.symm⟩
    split
    · next h => exact .inr ⟨.no, rfl, h.symm⟩
    split
    · next h => exact .inr ⟨.null, rfl, h.symm⟩
    · exact .inl rfl
  refine ⟨u ++ [bare (.symbol .dot), bare (word name)], ?_, ?_, fun hroom => ?_⟩
  · rw [List.map_append]
    exact hwrites.property hname
  · have haccessed : Derives .accessed (u ++ [bare (.symbol .dot), bare (word name)])
        (.property e name) := .property (.whole hderives) rfl hkey
    exact (Derives.unsigned haccessed).joined_of_signed .disjunction
  · obtain ⟨hnesting, hsigns⟩ := hfits hroom
    have hplain : nesting [bare (.symbol .dot), bare (word name)] = 0 ∧
        signRun [bare (.symbol .dot), bare (word name)] = 0 := by
      rcases hkey with hkey | ⟨k, hkey, -⟩ <;> rw [hkey] <;> exact ⟨rfl, rfl⟩
    constructor
    · rw [hderives.nesting_append, hplain.1, Nat.max_zero]
      exact hnesting
    · rw [hderives.signRun_append, hplain.2, Nat.max_zero]
      exact hsigns

theorem index (h : Composed room (brackets + 1) .operand w e)
    (h' : Composed room brackets .expression w' e') :
    Composed room (brackets + 1) .expression (w ++ "[" ++ w' ++ "]") (.index e e') := by
  obtain ⟨u, hwrites, hderives, hfits⟩ := h
  obtain ⟨v, hwrites', hderives', hfits'⟩ := h'
  refine ⟨u ++ bare (.symbol .openBracket) :: (v ++ [bare (.symbol .closeBracket)]), ?_, ?_,
    fun hroom => ?_⟩
  · rw [List.map_append, List.map_cons, List.map_append]
    exact hwrites.index hwrites'
  · have haccessed : Derives .accessed
        (u ++ bare (.symbol .openBracket) :: (v ++ [bare (.symbol .closeBracket)]))
        (.index e e') := .index (.whole hderives) rfl hderives' rfl
    exact (Derives.unsigned haccessed).joined_of_signed .disjunction
  · obtain ⟨hnesting, hsigns⟩ := hfits hroom
    obtain ⟨hnesting', hsigns'⟩ := fits_brackets hderives' (hfits' hroom)
      (.inr (rfl : Symbol.openBracket = _)) (.inr (rfl : Symbol.closeBracket = _))
    constructor
    · rw [hderives.nesting_append]
      exact Nat.max_le.2 ⟨hnesting, hnesting'⟩
    · rw [hderives.signRun_append]
      exact Nat.max_le.2 ⟨hsigns, hsigns'⟩

/-- The items of a list, at least one.  The induction is on their number. -/
theorem items {ps : List (String × Expr)} (hne : ps ≠ [])
    (h : ∀ p ∈ ps, Composed room brackets .expression p.1 p.2) :
    Composed room brackets .items (", ".intercalate (ps.map Prod.fst))
      (.list (ps.map Prod.snd)) := by
  induction ps with
  | nil => exact absurd rfl hne
  | cons p rest ih =>
    obtain ⟨hfirst, hrest⟩ := List.forall_mem_cons.1 h
    obtain ⟨u, hwrites, hderives, hfits⟩ := hfirst
    by_cases hend : rest = []
    · subst hend
      rw [List.map_singleton, List.map_singleton, String.intercalate_singleton]
      exact ⟨u, hwrites, .item hderives, hfits⟩
    obtain ⟨v, hwrites', hderives', hfits'⟩ := ih hend hrest
    rw [List.map_cons, List.map_cons,
      String.intercalate_cons_of_ne_nil (List.map_eq_nil_iff.not.2 hend)]
    refine ⟨u ++ bare (.symbol .comma) :: v, ?_, ?_, fun hroom => ⟨?_, ?_⟩⟩
    · rw [List.map_append, List.map_cons]
      exact hwrites.moreItems hwrites'
    · exact .moreItems hderives rfl hderives'
    · rw [hderives.nesting_append, nesting_cons_plain (by simp)]
      exact Nat.max_le.2 ⟨(hfits hroom).1, (hfits' hroom).1⟩
    · rw [hderives.signRun_append, signRun_cons_plain rfl]
      exact Nat.max_le.2 ⟨(hfits hroom).2, (hfits' hroom).2⟩

theorem list {ps : List (String × Expr)}
    (h : ∀ p ∈ ps, Composed room brackets .expression p.1 p.2) :
    Composed room (brackets + 1) .expression ("[" ++ ", ".intercalate (ps.map Prod.fst) ++ "]")
      (.list (ps.map Prod.snd)) := by
  by_cases hne : ps = []
  · subst hne
    refine ⟨[bare (.symbol .openBracket), bare (.symbol .closeBracket)], Writes.noItems,
      .of_operand (.noItems rfl rfl), fun _ => ⟨?_, Nat.zero_le _⟩⟩
    exact Nat.succ_le_succ (Nat.zero_le brackets)
  obtain ⟨u, hwrites, hderives, hfits⟩ := items hne h
  refine ⟨bare (.symbol .openBracket) :: (u ++ [bare (.symbol .closeBracket)]), ?_, ?_,
    fun hroom => ?_⟩
  · rw [List.map_cons, List.map_append]
    exact hwrites.enclosed .openBracket (.inr rfl)
  · exact .of_operand (.list rfl hderives rfl)
  · exact fits_brackets hderives (hfits hroom) (.inr rfl) (.inr rfl)

end Composed

/-! ### Values do not depend on the room around them -/

mutual

/-- One operation more that may be nested makes no difference, if there are enough. -/
theorem eval_succ_of_depth_le (scope : Scope) : ∀ (e : Expr) {d : Nat}, e.depth ≤ d →
    eval scope (d + 1) e = eval scope d e
  | .literal _, _, _ => by rw [eval, eval]
  | .name _, _, _ => by rw [eval, eval]
  | .list _, 0, h | .property _ _, 0, h | .index _ _, 0, h | .unary _ _, 0, h
  | .binary _ _ _, 0, h | .logical _ _ _, 0, h | .group _, 0, h => absurd h (Nat.not_succ_le_zero _)
  | .list items, d + 1, h => by
    rw [eval, eval, evalAll_succ_of_depth_le scope items (Nat.le_of_succ_le_succ h)]
  | .property target _, d + 1, h => by
    rw [eval, eval, eval_succ_of_depth_le scope target (Nat.le_of_succ_le_succ h)]
  | .index target key, d + 1, h => by
    obtain ⟨htarget, hkey⟩ := Nat.max_le.1 (Nat.le_of_succ_le_succ h)
    rw [eval, eval, eval_succ_of_depth_le scope target htarget,
      eval_succ_of_depth_le scope key hkey]
  | .unary _ operand, d + 1, h => by
    rw [eval, eval, eval_succ_of_depth_le scope operand (Nat.le_of_succ_le_succ h)]
  | .binary left _ right, d + 1, h => by
    obtain ⟨hleft, hright⟩ := Nat.max_le.1 (Nat.le_of_succ_le_succ h)
    rw [eval, eval, eval_succ_of_depth_le scope left hleft,
      eval_succ_of_depth_le scope right hright]
  | .logical left _ right, d + 1, h => by
    obtain ⟨hleft, hright⟩ := Nat.max_le.1 (Nat.le_of_succ_le_succ h)
    rw [eval, eval, eval_succ_of_depth_le scope left hleft,
      eval_succ_of_depth_le scope right hright]
  | .group inner, d + 1, h => by
    rw [eval, eval, eval_succ_of_depth_le scope inner (Nat.le_of_succ_le_succ h)]

theorem evalAll_succ_of_depth_le (scope : Scope) : ∀ (items : List Expr) {d : Nat},
    depths items ≤ d → evalAll scope (d + 1) items = evalAll scope d items
  | [], _, _ => rfl
  | item :: rest, _, h => by
    obtain ⟨hitem, hrest⟩ := Nat.max_le.1 h
    rw [evalAll, evalAll, eval_succ_of_depth_le scope item hitem,
      evalAll_succ_of_depth_le scope rest hrest]

end

/-- Room for as many operations as are nested in an expression is room enough. -/
theorem eval_eq_of_depth_le (scope : Scope) {e : Expr} {d d' : Nat} (hd : e.depth ≤ d)
    (hd' : e.depth ≤ d') : eval scope d e = eval scope d' e := by
  have hleast : ∀ {d}, e.depth ≤ d → eval scope d e = eval scope e.depth e := by
    intro d hd
    induction d, hd using Nat.le_induction with
    | base => rfl
    | succ d hd ih => rw [eval_succ_of_depth_le scope e hd, ih]
  rw [hleast hd, hleast hd']

theorem evalAll_eq_mapM (scope : Scope) (depth : Nat) (items : List Expr) :
    evalAll scope depth items = (items.map (eval scope depth)).mapM id := by
  induction items with
  | nil => rfl
  | cons item rest ih =>
    rw [evalAll, ih, List.map_cons, List.mapM_cons]
    rfl

/-! ### Compounds -/

/-- An operation on parts of some kind: texts, the expressions that they write, or what these
    evaluate to. -/
inductive Compound (α : Type) where
  | binary (left : α) (op : BinaryOp) (right : α)
  | logical (left : α) (op : LogicalOp) (right : α)
  | unary (op : UnaryOp) (operand : α)
  | property (target : α) (name : String)
  | index (target key : α)
  | list (items : List α)

namespace Compound

variable {α β : Type}

/-- The parts, from left to right. -/
def parts : Compound α → List α
  | .binary left _ right | .logical left _ right => [left, right]
  | .unary _ operand => [operand]
  | .property target _ => [target]
  | .index target key => [target, key]
  | .list items => items

/-- The same operation on other parts. -/
def map (f : α → β) : Compound α → Compound β
  | .binary left op right => .binary (f left) op (f right)
  | .logical left op right => .logical (f left) op (f right)
  | .unary op operand => .unary op (f operand)
  | .property target n => .property (f target) n
  | .index target key => .index (f target) (f key)
  | .list items => .list (items.map f)

/-- The operators are those of the language, and a property has the name of one. -/
def IsProper : Compound α → Prop
  | .binary _ op _ => ∀ text, op ≠ .other text
  | .logical _ op _ => ∀ text, op ≠ .other text
  | .unary op _ => ∀ text, op ≠ .other text
  | .property _ n => IsWord n
  | .index _ _ | .list _ => True

/-- A text in brackets. -/
def bracketed (text : String) : String := "(" ++ text ++ ")"

/-- The compound of texts.  Brackets are put around every operand, and around what has a property
    or an index. -/
def text : Compound String → String
  | .binary left op right => bracketed left ++ " " ++ op.text ++ " " ++ bracketed right
  | .logical left op right => bracketed left ++ " " ++ op.text ++ " " ++ bracketed right
  | .unary op operand => op.text ++ bracketed operand
  | .property target n => bracketed target ++ "." ++ n
  | .index target key => bracketed target ++ "[" ++ key ++ "]"
  | .list items => "[" ++ ", ".intercalate items ++ "]"

/-- The compound of expressions, with groups for the brackets. -/
def expr : Compound Expr → Expr
  | .binary left op right => .binary (.group left) op (.group right)
  | .logical left op right => .logical (.group left) op (.group right)
  | .unary op operand => .unary op (.group operand)
  | .property target n => .property (.group target) n
  | .index target key => .index (.group target) key
  | .list items => .list items

/-- The operation on what the parts evaluate to: the first failure from the left wins, and the right
    operand of a logical operator does not count if the left one decides. -/
def outcome : Compound (Except EvalFault Value) → Except EvalFault Value
  | .binary left op right => do
    let a ← left
    let b ← right
    Value.binary op a b
  | .logical left op right => do
    let a ← left
    if ← a.decides op then return a else right
  | .unary op operand => do
    let v ← operand
    v.unary op
  | .property target n => do
    let v ← target
    v.propertyValue n
  | .index target key => do
    let v ← target
    let k ← key
    v.indexValue k
  | .list items => do return .list (← items.mapM id)

/-- Every operator between operands joins them at one of the levels. -/
theorem exists_join_binary (op : BinaryOp) (h : ∀ text, op ≠ .other text) :
    ∃ (level : Level) (o : Operator), level.join? o = some (Expr.binary · op ·) ∧
      o.text = op.text := by
  cases op with
  | add => exact ⟨.sum, .add, rfl, rfl⟩
  | sub => exact ⟨.sum, .sub, rfl, rfl⟩
  | mul => exact ⟨.product, .mul, rfl, rfl⟩
  | div => exact ⟨.product, .div, rfl, rfl⟩
  | mod => exact ⟨.product, .mod, rfl, rfl⟩
  | eq => exact ⟨.equality, .eq, rfl, rfl⟩
  | ne => exact ⟨.equality, .ne, rfl, rfl⟩
  | lt => exact ⟨.comparison, .lt, rfl, rfl⟩
  | le => exact ⟨.comparison, .le, rfl, rfl⟩
  | gt => exact ⟨.comparison, .gt, rfl, rfl⟩
  | ge => exact ⟨.comparison, .ge, rfl, rfl⟩
  | other text => exact absurd rfl (h text)

theorem exists_join_logical (op : LogicalOp) (h : ∀ text, op ≠ .other text) :
    ∃ (level : Level) (o : Operator), level.join? o = some (Expr.logical · op ·) ∧
      o.text = op.text := by
  cases op with
  | and => exact ⟨.conjunction, .and, rfl, rfl⟩
  | or => exact ⟨.disjunction, .or, rfl, rfl⟩
  | other text => exact absurd rfl (h text)

theorem exists_sign (op : UnaryOp) (h : ∀ text, op ≠ .other text) :
    ∃ o : Operator, sign? (.operator o) = some op ∧ o.text = op.text := by
  cases op with
  | not => exact ⟨.not, rfl, rfl⟩
  | neg => exact ⟨.sub, rfl, rfl⟩
  | other text => exact absurd rfl (h text)

/-- The compound of the texts writes that of their expressions. -/
theorem composed (c : Compound (String × Expr)) (hproper : c.IsProper)
    (hparts : ∀ p ∈ c.parts, read p.1 = .ok p.2) :
    Composed (∀ p ∈ c.parts, HasRoom p.1) maxBrackets .expression (c.map Prod.fst).text
      (c.map Prod.snd).expr := by
  have hpart : ∀ p ∈ c.parts,
      Composed (∀ p ∈ c.parts, HasRoom p.1) (maxBrackets - 1) .expression p.1 p.2 :=
    fun p hp => .ofRead (hparts p hp) fun hroom => hroom p hp
  -- From here on only the parts themselves are split, not the condition about all of them.
  generalize (∀ p ∈ c.parts, HasRoom p.1) = room at hpart
  cases c with
  | binary left op right =>
    obtain ⟨level, o, hjoin, htext⟩ := exists_join_binary op hproper
    have hjoined := (hpart left (by simp [parts])).group.join hjoin
      (hpart right (by simp [parts])).group
    rwa [htext] at hjoined
  | logical left op right =>
    obtain ⟨level, o, hjoin, htext⟩ := exists_join_logical op hproper
    have hjoined := (hpart left (by simp [parts])).group.join hjoin
      (hpart right (by simp [parts])).group
    rwa [htext] at hjoined
  | unary op operand =>
    obtain ⟨o, hsign, htext⟩ := exists_sign op hproper
    have hsigned := (hpart operand (by simp [parts])).group.sign hsign
    rwa [htext] at hsigned
  | property target name => exact (hpart target (by simp [parts])).group.property hproper
  | index target key =>
    exact (hpart target (by simp [parts])).group.index (hpart key (by simp [parts]))
  | list items => exact .list hpart

/-- A group has the value of what stands in it. -/
theorem eval_group (scope : Scope) {e : Expr} {d d' : Nat} (h : (Expr.group e).depth ≤ d)
    (h' : e.depth ≤ d') : eval scope d (.group e) = eval scope d' e := by
  cases d with
  | zero => exact absurd h (Nat.not_succ_le_zero _)
  | succ d =>
    rw [eval]
    exact eval_eq_of_depth_le scope (Nat.le_of_succ_le_succ h) h'

/-- The value of a compound is the operation on the values of its parts. -/
theorem eval_expr (c : Compound Expr) (scope : Scope) {depth : Nat} (h : c.expr.depth ≤ depth) :
    eval scope depth c.expr = (c.map (eval scope depth)).outcome := by
  cases depth with
  | zero => cases c <;> exact absurd h (Nat.not_succ_le_zero _)
  | succ d =>
    have hd : ∀ {n}, n ≤ d → n ≤ d + 1 := fun hn => Nat.le_succ_of_le hn
    cases c with
    | binary left op right | logical left op right =>
      obtain ⟨hleft, hright⟩ := Nat.max_le.1 (Nat.le_of_succ_le_succ h)
      rw [expr, eval, eval_group scope hleft (hd (Nat.le_of_succ_le hleft)),
        eval_group scope hright (hd (Nat.le_of_succ_le hright))]
      rfl
    | unary op operand | property operand name =>
      have hoperand := Nat.le_of_succ_le_succ h
      rw [expr, eval, eval_group scope hoperand (hd (Nat.le_of_succ_le hoperand))]
      rfl
    | index target key =>
      obtain ⟨htarget, hkey⟩ := Nat.max_le.1 (Nat.le_of_succ_le_succ h)
      rw [expr, eval, eval_group scope htarget (hd (Nat.le_of_succ_le htarget)),
        eval_eq_of_depth_le scope hkey (hd hkey)]
      rfl
    | list items =>
      have hitems := Nat.le_of_succ_le_succ h
      -- The items lose one level of the room, which makes no difference to them.
      rw [expr, eval, ← evalAll_succ_of_depth_le scope items hitems, evalAll_eq_mapM]
      rfl

end Compound

/-- Texts that are expressions make up one that is read as the compound of their expressions, unless
    the limit on brackets or signs is hit, and its value in a scope is the operation on theirs. -/
theorem read_eval_compound (c : Compound (String × Expr)) (hproper : c.IsProper)
    (hparts : ∀ p ∈ c.parts, read p.1 = .ok p.2) :
    (read (c.map Prod.fst).text = .ok (c.map Prod.snd).expr ∨
      read (c.map Prod.fst).text = .error .tooDeep ∧ ∃ p ∈ c.parts, ¬ HasRoom p.1) ∧
    ∀ (scope : Scope) (depth : Nat), (c.map Prod.snd).expr.depth ≤ depth →
      eval scope depth (c.map Prod.snd).expr
        = (c.map fun p => eval scope depth p.2).outcome := by
  constructor
  · refine (c.composed hproper hparts).read_eq.imp_right fun ⟨hread, hroom⟩ => ⟨hread, ?_⟩
    simpa only [not_forall, exists_prop] using hroom
  · intro scope depth h
    rw [Compound.eval_expr _ scope h]
    cases c with
    | binary | logical | unary | property | index => rfl
    | list items =>
      simp only [Compound.map, List.map_map]
      rfl

/-- Two texts with spaces and brackets of their own, of which the first decides. -/
def decidedCompound : Compound (String × Expr) :=
  .logical ("!'(' ", .unary .not (.literal (.string "("))) .and
    (" y .z[ 1 ]", .index (.property (.name "y") "z") (.literal (.int 1)))

theorem decidedCompound_left : read "!'(' " = .ok (.unary .not (.literal (.string "("))) := by
  cbv

theorem decidedCompound_right :
    read " y .z[ 1 ]" = .ok (.index (.property (.name "y") "z") (.literal (.int 1))) := by
  cbv

theorem decidedCompound_read_eval : decidedCompound.IsProper ∧
    (∀ p ∈ decidedCompound.parts, read p.1 = .ok p.2) ∧
    (decidedCompound.map Prod.fst).text = "(!'(' ) && ( y .z[ 1 ])" ∧
    read "(!'(' ) && ( y .z[ 1 ])" = .ok (decidedCompound.map Prod.snd).expr ∧
    ∀ scope, eval scope maxDepth (decidedCompound.map Prod.snd).expr = .ok (.bool false) := by
  have hparts : ∀ p ∈ decidedCompound.parts, read p.1 = .ok p.2 := by
    intro p hp
    rcases List.mem_pair.1 hp with rfl | rfl
    · exact decidedCompound_left
    · exact decidedCompound_right
  have hproper : decidedCompound.IsProper := by
    intro text
    exact LogicalOp.noConfusion
  obtain ⟨hread, heval⟩ := read_eval_compound decidedCompound hproper hparts
  have hfew : ∀ p ∈ decidedCompound.parts, (Token.scan p.1).toOption.all (fun tokens =>
      decide (nesting tokens < maxBrackets ∧ signRun tokens ≤ maxSigns)) = true := by
    decide +kernel
  have hroom : ∀ p ∈ decidedCompound.parts, HasRoom p.1 := by
    intro p hp tokens htokens
    have := hfew p hp
    rw [htokens] at this
    exact of_decide_eq_true this
  refine ⟨hproper, hparts, rfl, ?_, fun scope => ?_⟩
  · refine hread.resolve_right fun hcrowded => ?_
    obtain ⟨_, p, hp, hnone⟩ := hcrowded
    exact hnone (hroom p hp)
  · have hdepth : (decidedCompound.map Prod.snd).expr.depth ≤ maxDepth := by
      have hfour : (decidedCompound.map Prod.snd).expr.depth = 4 := rfl
      rw [hfour, maxDepth]
      omega
    rw [heval scope maxDepth hdepth]
    obtain ⟨d, hd⟩ : ∃ d, maxDepth = d + 1 := ⟨479, rfl⟩
    rw [hd]
    rfl

end Expr

end TextTemplate
