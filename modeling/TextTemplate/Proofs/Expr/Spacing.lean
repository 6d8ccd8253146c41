import TextTemplate.Proofs.Expr.Evaluation
import TextTemplate.Proofs.Expr.Spelling
import TextTemplate.Proofs.Expr.Wording

/-! # White space between the words of an expression

  The tokens of a text take stretches of it that stand one behind the other, and
  nothing but white space stands between them (`Covers`).  Where a token starts or
  ends, any white space may be put in: the tokens stay, those behind it moved by as
  much, and they are read as before (`scan_spacing`).

  A word ends where what follows cannot belong to it.  White space belongs to no
  word, and makes none of what stands before it and behind it.  So a word is the
  same before every text that is as the one behind it up to white space
  (`Loosens`, `front_loosened`).  The inductions are on the words of a text
  (`Lexes`).
-/

namespace TextTemplate

namespace Token

/-! ### What white space is not -/

theorem isDecimalDigit_of_isBlank {c : Char} (hc : Text.isBlank c = true) :
    Text.isDecimalDigit c = false := by
  cases hdigit : Text.isDecimalDigit c with
  | false => rfl
  | true => exact absurd hc (by simp [isBlank_of_isDecimalDigit hdigit])

theorem continuesName_of_isBlank {c : Char} (hc : Text.isBlank c = true) :
    continuesName c = false := by
  have hstart : startsName c = false := by
    cases hstart : startsName c with
    | false => rfl
    | true => exact absurd hc (by simp [(startsName_only hstart).1])
  have hdigit : ∀ n < 128, Text.isBlank (Char.ofNat n) = true →
      ('0' ≤ Char.ofNat n && Char.ofNat n ≤ '9') = false := by decide +kernel
  rw [continuesName, hstart, Bool.false_or]
  by_cases hascii : c.toNat < 128
  · have := hdigit c.toNat hascii
    rw [Char.ofNat_toNat] at this
    exact this hc
  · have hle : ¬ c ≤ '9' := fun hle => hascii (Nat.lt_of_le_of_lt hle (by decide))
    simp [hle]

/-- White space ends no operator. -/
theorem operator2?_of_isBlank (c : Char) {d : Char} (hd : Text.isBlank d = true) :
    operator2? c d = none := by
  unfold operator2?
  split <;> first | rfl | exact absurd hd (by decide)

/-! ### Texts that are the same up to white space -/

/-- The second text is as the first one is, up to white space in it or its end. -/
inductive Loosens : List Char → List Char → Prop where
  | nil (s : List Char) : Loosens s []
  | blank {c : Char} (hc : Text.isBlank c = true) (s s' : List Char) : Loosens s (c :: s')
  | cons (c : Char) {s s' : List Char} : Loosens s s' → Loosens (c :: s) (c :: s')

namespace Loosens

variable {s s' s'' : List Char}

theorem refl (s : List Char) : Loosens s s := by
  induction s with
  | nil => exact .nil []
  | cons c s ih => exact .cons c ih

theorem trans (h : Loosens s s') (h' : Loosens s' s'') : Loosens s s'' := by
  induction h' generalizing s with
  | nil => exact .nil s
  | blank hc _ s'' => exact .blank hc s s''
  | cons c _ ih =>
    cases h with
    | blank hc => exact .blank hc _ _
    | cons _ h => exact .cons c (ih h)

/-- White space may be put in anywhere. -/
theorem insert (a : List Char) {blanks : List Char}
    (hblanks : ∀ c ∈ blanks, Text.isBlank c = true) (b : List Char) :
    Loosens (a ++ b) (a ++ (blanks ++ b)) := by
  induction a with
  | nil =>
    cases blanks with
    | nil => exact .refl b
    | cons c blanks => exact .blank (hblanks c List.mem_cons_self) _ _
  | cons c a ih => exact .cons c ih

end Loosens

/-! ### What may come behind a word instead -/

/-- The character is part of no word that has begun before it. -/
structure Foreign (c : Char) : Prop where
  name : continuesName c = false
  digit : Text.isDecimalDigit c = false
  operator : ∀ b, operator2? b c = none

theorem foreign_of_isBlank {c : Char} (hc : Text.isBlank c = true) : Foreign c where
  name := continuesName_of_isBlank hc
  digit := isDecimalDigit_of_isBlank hc
  operator b := operator2?_of_isBlank b hc

/-- The second text starts with nothing that a word before the first one would go on with. -/
structure Neutral (s s' : List Char) : Prop where
  head : ∀ c ∈ s'.head?, c ∈ s.head? ∨ Foreign c
  point : ∀ d more, s' = '.' :: d :: more → Text.isDecimalDigit d = true →
    ∃ more', s = '.' :: d :: more'

theorem Loosens.neutral {s s' : List Char} (h : Loosens s s') : Neutral s s' where
  head := by
    intro c hc
    cases h with
    | nil => simp at hc
    | blank hblank =>
      obtain rfl := Option.some.inj hc
      exact .inr (foreign_of_isBlank hblank)
    | cons => exact .inl hc
  point := by
    rintro d more rfl hd
    cases h with
    | blank hc => exact absurd hc (by decide)
    | cons _ hmore =>
      cases hmore with
      | blank hblank =>
        rw [isDecimalDigit_of_isBlank hblank] at hd
        cases hd
      | cons => exact ⟨_, rfl⟩

theorem Parts.foreign {s : List Char} (h : Parts s) : ∀ c ∈ s.head?, Foreign c := by
  intro c hc
  obtain ⟨hname, hdigit⟩ := h.head hc
  refine ⟨hname, hdigit, fun b => ?_⟩
  cases h with
  | nil => simp at hc
  | mark hmark =>
    obtain rfl := Option.some.inj hc
    unfold operator2?
    split <;> simp at hmark ⊢
  | dot =>
    obtain rfl := Option.some.inj hc
    unfold operator2?
    split <;> first | rfl | simp_all

/-- What parts words may be put behind a text. -/
theorem Parts.neutral {rest : List Char} (h : Parts rest) (s : List Char) :
    Neutral s (s ++ rest) where
  head := by
    intro c hc
    cases s with
    | nil => exact .inr (h.foreign c hc)
    | cons => exact .inl hc
  point := by
    intro d more hsplit hd
    match s with
    | [] =>
      rw [List.nil_append] at hsplit
      subst hsplit
      cases h with
      | mark hmark => simp at hmark
      | dot hplain =>
        rw [hplain] at hd
        cases hd
    | [c] =>
      -- The point stands at the end of the text, and no digit follows it.
      obtain ⟨rfl, rfl⟩ := List.cons.inj hsplit
      rw [(h.foreign d rfl).digit] at hd
      cases hd
    | c :: b :: s =>
      rw [List.cons_append, List.cons_append, List.cons.injEq, List.cons.injEq] at hsplit
      obtain ⟨rfl, rfl, -⟩ := hsplit
      exact ⟨s, rfl⟩

/-- No character of a kind stands in front if none did and no foreign one is of the kind. -/
theorem Neutral.head_not {s s' : List Char} {p : Char → Bool} (h : Neutral s s')
    (hforeign : ∀ c, Foreign c → p c = false) (hs : ∀ c ∈ s.head?, p c = false) :
    ∀ c ∈ s'.head?, p c = false :=
  fun c hc => (h.head c hc).elim (hs c) (hforeign c)

/-! ### Where a word ends -/

/-- A run of characters of a kind, and what is left behind it. -/
theorem takeWhile_split (p : Char → Bool) (rest : List Char) : ∃ w s, rest = w ++ s ∧
    rest.takeWhile p = w ∧ (∀ c ∈ w, p c = true) ∧ ∀ c ∈ s.head?, p c = false := by
  refine ⟨rest.takeWhile p, rest.dropWhile p, (List.takeWhile_append_dropWhile).symm, rfl,
    List.all_eq_true.1 List.all_takeWhile, ?_⟩
  intro c hc
  have hhead := List.head?_dropWhile_not p rest
  rw [Option.mem_def.1 hc] at hhead
  exact hhead

theorem numberEnds_split (rest : List Char) :
    ∃ w s, rest = w ++ s ∧ numberTail rest = w ∧ NumberEnds w s := by
  obtain ⟨w, s, rfl, hrun, hw, hs⟩ := takeWhile_split Text.isDecimalDigit rest
  by_cases hpoint : ∃ d more, s = '.' :: d :: more ∧ Text.isDecimalDigit d = true
  · obtain ⟨d, more, rfl, hd⟩ := hpoint
    obtain ⟨f, s', rfl, -, hf, hs'⟩ := takeWhile_split Text.isDecimalDigit more
    have hends : NumberEnds (w ++ '.' :: d :: f) s' :=
      .fraction hw (List.forall_mem_cons.2 ⟨hd, hf⟩) hs'
    have hsplit : w ++ '.' :: d :: (f ++ s') = w ++ '.' :: d :: f ++ s' := by simp
    exact ⟨_, s', hsplit, hsplit ▸ hends.numberTail_eq, hends⟩
  · have hends : NumberEnds w s := by
      refine .whole hw hs fun d more hsplit => ?_
      cases hd : Text.isDecimalDigit d with
      | false => rfl
      | true => exact absurd ⟨d, more, hsplit, hd⟩ hpoint
    exact ⟨w, s, rfl, hends.numberTail_eq, hends⟩

theorem NumberEnds.neutral {w s s' : List Char} (h : NumberEnds w s) (hs : Neutral s s') :
    NumberEnds w s' := by
  cases h with
  | whole digits behind pointless =>
    refine .whole digits (hs.head_not (fun c => Foreign.digit) behind) ?_
    intro d more hsplit
    cases hd : Text.isDecimalDigit d with
    | false => rfl
    | true =>
      obtain ⟨more', rfl⟩ := hs.point d more hsplit hd
      exact hd.symm.trans (pointless d more' rfl)
  | fraction digits places behind =>
    exact .fraction digits places (hs.head_not (fun c => Foreign.digit) behind)

/-- A quoted text ends with its closing mark, whatever follows. -/
theorem stringBody_split {mark : Char} {rest content : List Char} {width : Nat}
    (h : stringBody mark rest = some (content, width)) : ∃ w s, rest = w ++ s ∧ w.length = width ∧
      ∀ x, stringBody mark (w ++ x) = some (content, width) := by
  fun_induction stringBody mark rest generalizing content width with
  | case1 => cases h
  | case2 rest =>
    cases h
    exact ⟨[mark], rest, rfl, rfl, stringBody_mark mark⟩
  | case3 => cases h
  | case4 e rest hmark ih =>
    obtain ⟨body, hbody, heq⟩ := Option.map_eq_some_iff.1 h
    cases heq
    obtain ⟨w, s, rfl, hwidth, hall⟩ := ih hbody
    refine ⟨'\\' :: e :: w, s, rfl, by simp [hwidth], fun x => ?_⟩
    rw [List.cons_append, List.cons_append, stringBody_escaped hmark, hall]
    rfl
  | case5 c rest hmark hbackslash ih =>
    obtain ⟨body, hbody, heq⟩ := Option.map_eq_some_iff.1 h
    cases heq
    obtain ⟨w, s, rfl, hwidth, hall⟩ := ih hbody
    refine ⟨c :: w, s, rfl, by simp [hwidth], fun x => ?_⟩
    rw [List.cons_append, stringBody_plain hmark hbackslash, hall]
    rfl

/-- The word at the front of a text ends in it, and is the same before every text that starts with
    nothing new that could belong to it. -/
def Stays (c : Char) (rest : List Char) (lexeme : Lexeme) (width : Nat) : Prop :=
  ∃ w s, rest = w ++ s ∧ w.length = width ∧
    ∀ s', Neutral s s' → front c (w ++ s') = .ok (some lexeme, width)

theorem stays_name {c : Char} (hc : startsName c = true) {rest : List Char} {lexeme : Lexeme}
    {width : Nat} (h : front c rest = .ok (some lexeme, width)) : Stays c rest lexeme width := by
  obtain ⟨w, s, rfl, hrun, hw, hs⟩ := takeWhile_split continuesName rest
  rw [front_of_startsName hc, hrun] at h
  cases h
  refine ⟨w, s, rfl, rfl, ?_⟩
  intro s' hneutral
  have hs' := hneutral.head_not (fun c => Foreign.name) hs
  rw [front_of_startsName hc, takeWhile_append_of_head hw hs']

theorem stays_number {c : Char} (hc : Text.isDecimalDigit c = true) {rest : List Char}
    {lexeme : Lexeme} {width : Nat} (h : front c rest = .ok (some lexeme, width)) :
    Stays c rest lexeme width := by
  obtain ⟨w, s, rfl, htail, hends⟩ := numberEnds_split rest
  rw [front_number hc, htail] at h
  cases h
  refine ⟨w, s, rfl, rfl, ?_⟩
  intro s' hneutral
  rw [front_number hc, (hends.neutral hneutral).numberTail_eq]

theorem stays_quoted {mark : Char} (hmark : mark = '"' ∨ mark = '\'') {rest content : List Char}
    {width : Nat} (h : stringBody mark rest = some (content, width)) :
    Stays mark rest (.string (String.ofList content)) width := by
  obtain ⟨w, s, rfl, hwidth, hall⟩ := stringBody_split h
  refine ⟨w, s, rfl, hwidth, ?_⟩
  intro s' _
  exact front_quoted hmark (hall s')

/-- A character of another kind starts an operator of two characters, or stands alone. -/
theorem stays_mark {c : Char} (hblank : ¬ Text.isBlank c = true)
    (hdigit : ¬ Text.isDecimalDigit c = true) (hquote : ¬ (c = '"' ∨ c = '\''))
    (hname : ¬ startsName c = true) {rest : List Char} {lexeme : Lexeme} {width : Nat}
    (h : front c rest = .ok (some lexeme, width)) : Stays c rest lexeme width := by
  unfold Stays
  unfold front at h ⊢
  simp only [if_neg hblank, if_neg hdigit, if_neg hquote, if_neg hname] at h ⊢
  cases hpair : rest.head?.bind (operator2? c) with
  | some op =>
    obtain ⟨d, hd, hop⟩ := Option.bind_eq_some_iff.1 hpair
    obtain ⟨s, rfl⟩ : ∃ s, rest = d :: s := List.head?_eq_some_iff.1 hd
    simp only [hpair] at h
    cases h
    refine ⟨[d], s, rfl, rfl, fun s' _ => ?_⟩
    simp [hop]
  | none =>
    -- Nothing foreign behind the character makes an operator of two characters of it.
    have hsingle : ∀ s', Neutral rest s' → s'.head?.bind (operator2? c) = none := by
      intro s' hneutral
      rw [Option.bind_eq_none_iff] at hpair ⊢
      intro d hd
      rcases hneutral.head d hd with hsame | hforeign
      · exact hpair d hsame
      · exact hforeign.operator c
    simp only [hpair] at h
    have hwidth : width = 0 := by
      split at h
      · cases h
        rfl
      · split at h
        · cases h
          rfl
        · cases h
    refine ⟨[], rest, rfl, hwidth.symm, ?_⟩
    intro s' hneutral
    simp only [List.nil_append, hsingle s' hneutral]
    exact h

/-- A word at the front of a text is the same whatever comes behind it that is not part of it. -/
theorem front_stays {c : Char} {rest : List Char} {lexeme : Lexeme} {width : Nat}
    (h : front c rest = .ok (some lexeme, width)) : Stays c rest lexeme width := by
  by_cases hname : startsName c = true
  · exact stays_name hname h
  by_cases hdigit : Text.isDecimalDigit c = true
  · exact stays_number hdigit h
  by_cases hblank : Text.isBlank c = true
  · simp [front, hblank] at h
  by_cases hquote : c = '"' ∨ c = '\''
  · cases hbody : stringBody c rest with
    | none => simp [front, hblank, hdigit, hquote, hbody] at h
    | some body =>
      rw [front_quoted hquote hbody] at h
      cases h
      exact stays_quoted hquote hbody
  · exact stays_mark hblank hdigit hquote hname h

/-- The word at the front of a text ends in it, and is the same before every text that is as what
    follows it up to white space. -/
def Lasts (c : Char) (rest : List Char) (lexeme : Lexeme) (width : Nat) : Prop :=
  ∃ w s, rest = w ++ s ∧ w.length = width ∧
    ∀ s', Loosens s s' → front c (w ++ s') = .ok (some lexeme, width)

/-- A word at the front of a text is the same whatever white space is put in behind it. -/
theorem front_loosened {c : Char} {rest : List Char} {lexeme : Lexeme} {width : Nat}
    (h : front c rest = .ok (some lexeme, width)) : Lasts c rest lexeme width := by
  obtain ⟨w, s, hsplit, hwidth, hstays⟩ := front_stays h
  exact ⟨w, s, hsplit, hwidth, fun s' hs' => hstays s' hs'.neutral⟩

/-! ### The words of a text -/

/-- The token when a text has so many more characters at a place. -/
def shift (place width : Nat) (t : Token) : Token where
  lexeme := t.lexeme
  start := if place ≤ t.start then t.start + width else t.start
  stop := if place < t.stop then t.stop + width else t.stop

/-- The stretch that a token takes of a text that starts at a place. -/
def slice (position : Nat) (s : List Char) (t : Token) : List Char :=
  (s.drop (t.start - position)).take (t.stop - t.start)

theorem slice_append {position : Nat} {a : List Char} {t : Token}
    (h : position + a.length ≤ t.start) (b : List Char) :
    t.slice position (a ++ b) = t.slice (position + a.length) b := by
  have hstart : t.start - position = a.length + (t.start - (position + a.length)) := by omega
  rw [slice, hstart, List.drop_length_add_append, slice]

/-- The text, from a place on, is white space and words, which are the tokens. -/
inductive Lexes : Nat → List Char → List Token → Prop where
  | nil (position : Nat) : Lexes position [] []
  | blank {position : Nat} {c : Char} {s : List Char} {tokens : List Token}
      (hc : Text.isBlank c = true) : Lexes (position + 1) s tokens → Lexes position (c :: s) tokens
  | word {position : Nat} {c : Char} {w s : List Char} {lexeme : Lexeme} {tokens : List Token}
      (hword : ∀ s', Loosens s s' → front c (w ++ s') = .ok (some lexeme, w.length)) :
      Lexes (position + 1 + w.length) s tokens →
      Lexes position (c :: (w ++ s)) (⟨lexeme, position, position + 1 + w.length⟩ :: tokens)

/-- Only white space gives no lexeme. -/
theorem isBlank_of_front_none {c : Char} {rest : List Char} {width : Nat}
    (h : front c rest = .ok (none, width)) : Text.isBlank c = true := by
  unfold front at h
  by_contra hblank
  rw [if_neg hblank] at h
  repeat' split at h
  all_goals cases h

/-- The words of a text are found one by one.  The induction is on the length of the text. -/
theorem lexes_of_scanFrom {position : Nat} {s : List Char} {tokens : List Token}
    (h : scanFrom position s = .ok tokens) : Lexes position s tokens := by
  induction hlength : s.length using Nat.strongRecOn generalizing position s tokens with
  | ind length ih =>
    cases s with
    | nil =>
      rw [scanFrom] at h
      cases h
      exact .nil position
    | cons c rest =>
      rw [List.length_cons] at hlength
      by_cases hc : Text.isBlank c = true
      · rw [scanFrom_blank hc] at h
        exact .blank hc (ih rest.length (by omega) h rfl)
      rw [scanFrom] at h
      cases hfront : front c rest with
      | error cause =>
        rw [hfront] at h
        cases h
      | ok found =>
        obtain ⟨lexeme?, width⟩ := found
        cases lexeme? with
        | none => exact absurd (isBlank_of_front_none hfront) hc
        | some lexeme =>
          obtain ⟨w, s, rfl, rfl, hword⟩ := front_loosened hfront
          rw [hfront] at h
          simp only [List.drop_left] at h
          rw [List.length_append] at hlength
          cases hmore : scanFrom (position + 1 + w.length) s with
          | error fault =>
            rw [hmore] at h
            cases h
          | ok more =>
            rw [hmore] at h
            cases h
            exact .word hword (ih s.length (by omega) hmore rfl)

namespace Lexes

variable {position place : Nat} {s a b blanks : List Char} {tokens : List Token}

theorem scanFrom_eq (h : Lexes position s tokens) : scanFrom position s = .ok tokens := by
  induction h with
  | nil position => rw [scanFrom]
  | blank hc _ ih => rw [scanFrom_blank hc, ih]
  | @word position c w s lexeme tokens hword _ ih =>
    rw [scanFrom, hword s (.refl s)]
    simp only [List.drop_left, ih]
    rfl

/-! ### Where the tokens stand -/

theorem within (h : Lexes position s tokens) {t : Token} (ht : t ∈ tokens) :
    position ≤ t.start ∧ t.start < t.stop ∧ t.stop ≤ position + s.length := by
  induction h with
  | nil => cases ht
  | blank _ _ ih =>
    have := ih ht
    rw [List.length_cons]
    omega
  | word _ _ ih =>
    rw [List.length_cons, List.length_append]
    rcases List.mem_cons.1 ht with rfl | ht
    · dsimp only
      omega
    · have := ih ht
      omega

theorem ordered (h : Lexes position s tokens) :
    tokens.Pairwise fun t u => t.stop ≤ u.start := by
  induction h with
  | nil => exact .nil
  | blank _ _ ih => exact ih
  | word _ hmore ih => exact .cons (fun u hu => (hmore.within hu).1) ih

/-- What no token takes is white space. -/
theorem isBlank_of_untaken (h : Lexes position s tokens) {i : Nat} {c : Char}
    (hc : s[i]? = some c)
    (huntaken : ∀ t ∈ tokens, ¬ (t.start ≤ position + i ∧ position + i < t.stop)) :
    Text.isBlank c = true := by
  induction h generalizing i with
  | nil => simp at hc
  | @blank position d s tokens hd _ ih =>
    cases i with
    | zero =>
      obtain rfl := Option.some.inj hc
      exact hd
    | succ i =>
      apply ih hc
      intro t ht
      have := huntaken t ht
      omega
  | @word position d w s lexeme tokens _ _ ih =>
    have hbehind : 1 + w.length ≤ i := by
      have := huntaken _ List.mem_cons_self
      dsimp only at this
      omega
    obtain ⟨j, rfl⟩ := Nat.exists_eq_add_of_le hbehind
    have hj : s[j]? = some c := by
      rw [← List.cons_append, List.getElem?_append_right (by simp; omega)] at hc
      rw [← hc, List.length_cons]
      congr 1
      omega
    apply ih hj
    intro t ht
    have := huntaken t (List.mem_cons_of_mem _ ht)
    omega

/-- A token is what its own stretch of the text says, whatever stands around it. -/
theorem alone (h : Lexes position s tokens) {t : Token} (ht : t ∈ tokens) :
    scanFrom t.start (t.slice position s) = .ok [t] := by
  induction h with
  | nil => cases ht
  | @blank position c s tokens _ hmore ih =>
    have hslice : t.slice position (c :: s) = t.slice (position + 1) s :=
      slice_append (a := [c]) (hmore.within ht).1 s
    rw [hslice, ih ht]
  | @word position c w s lexeme tokens hword hmore ih =>
    rcases List.mem_cons.1 ht with rfl | ht
    · have hslice : slice position (c :: (w ++ s)) ⟨lexeme, position, position + 1 + w.length⟩
          = c :: (w ++ []) := by
        have hwidth : position + 1 + w.length - position = w.length + 1 := by omega
        simp only [slice, Nat.sub_self, List.drop_zero, hwidth, List.take_succ_cons, List.take_left,
          List.append_nil]
      rw [hslice]
      -- The end of the text may stand for all that follows the word.
      exact (Lexes.word (fun s' hs => hword s' ((Loosens.nil s).trans hs)) (.nil _)).scanFrom_eq
    · have hwidth : position + 1 + w.length = position + (c :: w).length := by
        rw [List.length_cons]
        omega
      rw [hwidth] at hmore ih
      rw [← List.cons_append, slice_append (hmore.within ht).1, ih ht]

/-! ### More white space -/

/-- The same words from a place further on. -/
theorem moved (h : Lexes position s tokens) (hplace : place ≤ position) (width : Nat) :
    Lexes (position + width) s (tokens.map (·.shift place width)) := by
  induction h with
  | nil => exact .nil _
  | @blank position c s tokens hc _ ih =>
    refine .blank hc ?_
    rw [Nat.add_right_comm]
    exact ih (by omega)
  | @word position c w s lexeme tokens hword _ ih =>
    have hmoved : Token.shift place width ⟨lexeme, position, position + 1 + w.length⟩
        = ⟨lexeme, position + width, position + width + 1 + w.length⟩ := by
      have hstop : place < position + 1 + w.length := by omega
      simp only [Token.shift, if_pos hplace, if_pos hstop]
      congr 1
      omega
    rw [List.map_cons, hmoved]
    refine .word hword ?_
    have := ih (by omega)
    rwa [show position + width + 1 + w.length = position + 1 + w.length + width by omega]

/-- White space may be put in at the front of a text. -/
theorem insert_front (h : Lexes position s tokens)
    (hblanks : ∀ c ∈ blanks, Text.isBlank c = true) :
    Lexes position (blanks ++ s) (tokens.map (·.shift position blanks.length)) := by
  have hmoved := h.moved (Nat.le_refl position) blanks.length
  generalize tokens.map (·.shift position blanks.length) = tokens' at hmoved ⊢
  clear h
  induction blanks generalizing position with
  | nil => exact hmoved
  | cons c blanks ih =>
    refine .blank (hblanks c List.mem_cons_self) (ih (fun d hd => ?_) ?_)
    · exact hblanks d (List.mem_cons_of_mem _ hd)
    · rwa [List.length_cons, Nat.add_comm blanks.length, ← Nat.add_assoc] at hmoved

/-- White space may be put in where a word starts or ends. -/
theorem insert (h : Lexes position (a ++ b) tokens)
    (hblanks : ∀ c ∈ blanks, Text.isBlank c = true)
    (hplace : a = [] ∨
      ∃ t ∈ tokens, t.start = position + a.length ∨ t.stop = position + a.length) :
    Lexes position (a ++ (blanks ++ b))
      (tokens.map (·.shift (position + a.length) blanks.length)) := by
  generalize hs : a ++ b = s at h
  induction h generalizing a with
  | nil position =>
    obtain ⟨rfl, rfl⟩ := List.append_eq_nil_iff.1 hs
    exact (Lexes.nil position).insert_front hblanks
  | @blank position c s tokens hc hmore ih =>
    cases a with
    | nil =>
      obtain rfl : b = c :: s := hs
      exact (hmore.blank hc).insert_front hblanks
    | cons d a =>
      obtain ⟨rfl, hrest⟩ := List.cons.inj hs
      rw [List.length_cons, Nat.add_comm a.length, ← Nat.add_assoc] at hplace ⊢
      exact .blank hc (ih (hplace.imp_left nofun) hrest)
  | @word position c w s lexeme tokens hword hmore ih =>
    cases a with
    | nil =>
      obtain rfl : b = c :: (w ++ s) := hs
      exact (hmore.word hword).insert_front hblanks
    | cons d a =>
      rw [List.cons_append] at hs
      obtain ⟨rfl, hrest⟩ := List.cons.inj hs
      obtain ⟨t, ht, hplace⟩ := hplace.resolve_left (List.cons_ne_nil d a)
      rw [List.length_cons, Nat.add_comm a.length, ← Nat.add_assoc] at hplace ⊢
      -- The place is not inside the word, since a token starts or ends there.
      have houtside : w.length ≤ a.length := by
        rcases List.mem_cons.1 ht with rfl | ht
        · dsimp only at hplace
          omega
        · have := hmore.within ht
          omega
      obtain ⟨a, rfl⟩ : w <+: a :=
        List.prefix_of_prefix_length_le ⟨s, rfl⟩ ⟨b, hrest⟩ houtside
      rw [List.append_assoc] at hrest
      obtain rfl := List.append_cancel_left hrest
      have hstays : Token.shift (position + 1 + (w ++ a).length) blanks.length
          ⟨lexeme, position, position + 1 + w.length⟩
            = ⟨lexeme, position, position + 1 + w.length⟩ := by
        have hstart : ¬ position + 1 + (w ++ a).length ≤ position := by omega
        have hstop : ¬ position + 1 + (w ++ a).length < position + 1 + w.length := by omega
        simp only [Token.shift, if_neg hstart, if_neg hstop]
      rw [List.map_cons, hstays, List.cons_append, List.append_assoc]
      refine .word (fun s' hs' => hword s' ((Loosens.insert a hblanks b).trans hs')) ?_
      rw [List.length_append, ← Nat.add_assoc] at hplace ⊢
      refine ih ?_ rfl
      rcases List.mem_cons.1 ht with rfl | ht
      · dsimp only at hplace
        exact .inl (List.length_eq_zero_iff.1 (by omega))
      · exact .inr ⟨t, ht, hplace⟩

end Lexes

/-! ### The tokens of a text -/

/-- The tokens take stretches of a text, from a place on, one behind the other.  No stretch is
    empty, what stands outside them is white space, and each says its token without the rest of the
    text. -/
structure Covers (position : Nat) (s : List Char) (tokens : List Token) : Prop where
  within : ∀ t ∈ tokens, position ≤ t.start ∧ t.start < t.stop ∧ t.stop ≤ position + s.length
  ordered : tokens.Pairwise fun t u => t.stop ≤ u.start
  blank : ∀ i c, s[i]? = some c →
    (∀ t ∈ tokens, ¬ (t.start ≤ position + i ∧ position + i < t.stop)) → Text.isBlank c = true
  alone : ∀ t ∈ tokens, scanFrom t.start (t.slice position s) = .ok [t]

theorem Lexes.covers {position : Nat} {s : List Char} {tokens : List Token}
    (h : Lexes position s tokens) : Covers position s tokens where
  within _ := h.within
  ordered := h.ordered
  blank _ _ := h.isBlank_of_untaken
  alone _ := h.alone

/-- White space that is put into a text where a token starts or ends changes no token, but moves
    those behind it. -/
theorem scan_insert {a blanks b : String} {tokens : List Token}
    (h : scan (a ++ b) = .ok tokens) (hblanks : ∀ c ∈ blanks.toList, Text.isBlank c = true)
    (hplace : ∃ t ∈ tokens, t.start = a.length ∨ t.stop = a.length) :
    scan (a ++ blanks ++ b) = .ok (tokens.map (·.shift a.length blanks.length)) := by
  rw [scan, String.toList_append] at h
  have hlexes := lexes_of_scanFrom h
  have hinsert := hlexes.insert hblanks (.inr (by simpa only [Nat.zero_add, String.length_toList]))
  rw [scan, String.toList_append, String.toList_append, List.append_assoc, hinsert.scanFrom_eq]
  simp only [Nat.zero_add, String.length_toList]

/-- A text has tokens or is malformed.  Its tokens cover it, up to white space, and are read as what
    stands before its end.  White space may be put in wherever one of them starts or ends: it
    changes neither what the tokens say nor which expression they make up, if any. -/
theorem scan_spacing (text : String) :
    ((∃ tokens, scan text = .ok tokens) ∨
      ∃ cause position, scan text = .error (.malformed cause position)) ∧
    ∀ tokens, scan text = .ok tokens →
      Covers 0 text.toList tokens ∧ Expr.read text = Expr.ofTokens text.length tokens ∧
      ∀ a blanks b : String, text = a ++ b → (∀ c ∈ blanks.toList, Text.isBlank c = true) →
        (∃ t ∈ tokens, t.start = a.length ∨ t.stop = a.length) →
        scan (a ++ blanks ++ b) = .ok (tokens.map (·.shift a.length blanks.length)) ∧
        (tokens.map (·.shift a.length blanks.length)).map (·.lexeme) = tokens.map (·.lexeme) ∧
        Expr.SameRead (Expr.read text) (Expr.read (a ++ blanks ++ b)) := by
  constructor
  · cases h : scan text with
    | ok tokens => exact .inl ⟨tokens, rfl⟩
    | error fault =>
      obtain ⟨cause, position, rfl⟩ := malformed_of_scanFrom h
      exact .inr ⟨cause, position, rfl⟩
  intro tokens h
  have hread : ∀ {text tokens}, scan text = .ok tokens →
      Expr.read text = Expr.ofTokens text.length tokens := by
    intro text tokens h
    rw [Expr.read, h]
    rfl
  refine ⟨(lexes_of_scanFrom h).covers, hread h, ?_⟩
  rintro a blanks b rfl hblanks hplace
  have hinsert := scan_insert h hblanks hplace
  have hlexemes : (tokens.map (·.shift a.length blanks.length)).map (·.lexeme)
      = tokens.map (·.lexeme) := List.map_map
  refine ⟨hinsert, hlexemes, ?_⟩
  rw [hread h, hread hinsert]
  apply Expr.ofTokens_alike
  exact List.forall₂_map_right_iff.2 (List.forall₂_same.2 fun t _ => .refl t.lexeme)

/-- The words of `n<=1.x`, which stand close together. -/
def closeTokens : List Token :=
  [⟨.name "n", 0, 1⟩, ⟨.operator .le, 1, 3⟩, ⟨.number "1", 3, 4⟩, ⟨.symbol .dot, 4, 5⟩,
    ⟨.name "x", 5, 6⟩]

theorem closeTokens_spaced : scan "n<=1.x" = .ok closeTokens ∧
    Covers 0 "n<=1.x".toList closeTokens ∧
    scan ("n<=1" ++ " \t" ++ ".x") = .ok (closeTokens.map (·.shift 4 2)) ∧
    (closeTokens.map (·.shift 4 2)).map (·.start) = [0, 1, 3, 6, 7] := by
  have hscan : scan "n<=1.x" = .ok closeTokens := by cbv
  obtain ⟨hcovers, -, hspaced⟩ := (scan_spacing "n<=1.x").2 closeTokens hscan
  have hblanks : ∀ c ∈ " \t".toList, Text.isBlank c = true := List.all_eq_true.1 (by decide +kernel)
  obtain ⟨hinserted, -, -⟩ := hspaced "n<=1" " \t" ".x" rfl hblanks (by decide +kernel)
  exact ⟨hscan, hcovers, hinserted, rfl⟩

end Token

end TextTemplate
