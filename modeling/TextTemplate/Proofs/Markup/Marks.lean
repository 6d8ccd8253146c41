import TextTemplate.Markup.Token

/-! # Where the marks of a text are

  A tag starts with the nearest opening mark and ends with the nearest closing mark
  of its kind.  Marks are two characters wide and may overlap, so what has to be
  said is where a mark starts (`Text.StartsAt`): the searches find the first place
  where their mark starts, and nothing if it starts nowhere
  (`Token.cutAtOpening_eq_some_iff`, `Token.cutAtClosing_eq_some_iff` and their
  counterparts for `none`).

  Whether a mark starts at a place depends only on the characters there, so what a
  search finds before some place stays the same if the text goes on differently
  behind it.  The inductions are on the text, a character at a time.
-/

namespace TextTemplate

namespace Text

/-! ### Where a mark starts -/

/-- The mark starts behind so many characters of the text. -/
def StartsAt (mark s : List Char) (i : Nat) : Prop := mark <+: s.drop i

instance (mark s : List Char) (i : Nat) : Decidable (StartsAt mark s i) :=
  inferInstanceAs (Decidable (_ <+: _))

/-- A mark that starts in a text does so whatever follows. -/
theorem StartsAt.append {mark s : List Char} {i : Nat} (h : StartsAt mark s i) (t : List Char) :
    StartsAt mark (s ++ t) i := by
  rw [StartsAt, List.drop_append]
  exact h.trans (List.prefix_append ..)

/-- A mark that starts and ends in the first part of a text does so in that part alone. -/
theorem StartsAt.of_append {mark s t : List Char} {i : Nat} (h : StartsAt mark (s ++ t) i)
    (hends : i + mark.length ≤ s.length) : StartsAt mark s i := by
  rw [StartsAt, List.drop_append_of_le_length (by omega)] at h
  exact List.prefix_of_prefix_length_le h (List.prefix_append ..) (by rw [List.length_drop]; omega)

/-- Whether a mark starts in a text is the same for every text that goes on behind its end. -/
theorem StartsAt.swap {mark s t : List Char} {i : Nat} (h : StartsAt mark (s ++ t) i)
    (hends : i + mark.length ≤ s.length) (t' : List Char) : StartsAt mark (s ++ t') i :=
  (h.of_append hends).append t'

/-- A mark that stands in a text starts somewhere in it. -/
theorem startsAt_of_isInfix {mark s : List Char} (h : mark <:+: s) :
    ∃ i, i + mark.length ≤ s.length ∧ StartsAt mark s i := by
  obtain ⟨before, after, rfl⟩ := h
  refine ⟨before.length, by simp, ?_⟩
  rw [StartsAt, List.append_assoc, List.drop_left]
  exact List.prefix_append ..

theorem StartsAt.isInfix {mark s : List Char} {i : Nat} (h : StartsAt mark s i) : mark <:+: s :=
  List.IsInfix.trans (List.IsPrefix.isInfix h) (List.drop_suffix i s).isInfix

/-- A mark that starts before a character which it does not hold ends before it. -/
theorem StartsAt.ends_before {mark s t : List Char} {c : Char} {i : Nat}
    (h : StartsAt mark (s ++ c :: t) i) (hc : c ∉ mark) (hi : i ≤ s.length) :
    i + mark.length ≤ s.length := by
  refine Nat.le_of_not_lt fun hends => hc ?_
  have hplace : s.length - i < mark.length := by omega
  obtain ⟨after, hafter⟩ := h
  have hfound : mark[s.length - i]? = some c := by
    have hwhole : mark[s.length - i]? = (mark ++ after)[s.length - i]? :=
      (List.getElem?_append_left hplace).symm
    rw [hwhole, hafter, List.getElem?_drop, Nat.add_sub_cancel' hi,
      List.getElem?_append_right (Nat.le_refl _)]
    simp
  exact List.mem_of_getElem? hfound

theorem startsAt_cons_succ {mark s : List Char} {c : Char} {i : Nat} :
    StartsAt mark (c :: s) (i + 1) ↔ StartsAt mark s i := by
  rw [StartsAt, List.drop_succ_cons, StartsAt]

theorem startsAt_pair_zero {a b c d : Char} {s : List Char} :
    StartsAt [a, b] (c :: d :: s) 0 ↔ c = a ∧ d = b := by
  simp [StartsAt, List.cons_prefix_cons, eq_comm]

/-- A text of less than two characters holds no mark of two. -/
theorem ne_append_pair {a b : Char} {s : List Char}
    (hshort : ∀ (c d : Char) (rest : List Char), s = c :: d :: rest → False)
    (before after : List Char) : s ≠ before ++ ([a, b] ++ after) := by
  rintro rfl
  cases before with
  | nil => exact hshort a b after rfl
  | cons e before =>
    cases before with
    | nil => exact hshort e a (b :: after) rfl
    | cons f before => exact hshort e f (before ++ ([a, b] ++ after)) rfl

/-- A mark of two characters is found where it starts first. -/
theorem cutAt_eq_some_iff {a b : Char} {s before after : List Char} :
    cutAt a b s = some (before, after) ↔
      s = before ++ ([a, b] ++ after) ∧ ∀ i < before.length, ¬ StartsAt [a, b] s i := by
  fun_induction cutAt a b s generalizing before with
  | case1 c d rest hmark =>
    obtain ⟨rfl, rfl⟩ := hmark
    constructor
    · intro h
      cases h
      exact ⟨rfl, fun i hi => absurd hi (Nat.not_lt_zero i)⟩
    · rintro ⟨hs, hfirst⟩
      cases before with
      | nil =>
        cases hs
        rfl
      | cons e before => exact absurd (startsAt_pair_zero.2 ⟨rfl, rfl⟩) (hfirst 0 (by simp))
  | case2 c d rest hmark ih =>
    constructor
    · intro h
      obtain ⟨⟨before', after'⟩, hcut, heq⟩ := Option.map_eq_some_iff.1 h
      cases heq
      obtain ⟨hs, hfirst⟩ := ih.1 hcut
      refine ⟨by rw [hs]; rfl, ?_⟩
      intro i hi
      cases i with
      | zero => exact fun hstart => hmark (startsAt_pair_zero.1 hstart)
      | succ i =>
        rw [startsAt_cons_succ]
        exact hfirst i (Nat.lt_of_succ_lt_succ hi)
    · rintro ⟨hs, hfirst⟩
      cases before with
      | nil =>
        cases hs
        exact absurd ⟨rfl, rfl⟩ hmark
      | cons e before =>
        obtain ⟨rfl, hrest⟩ := List.cons.inj hs
        have hcut : cutAt a b (d :: rest) = some (before, after) := by
          refine ih.2 ⟨hrest, ?_⟩
          intro i hi
          rw [← startsAt_cons_succ]
          exact hfirst (i + 1) (Nat.succ_lt_succ hi)
        rw [hcut]
        rfl
  | case3 s hshort =>
    constructor
    · intro h
      cases h
    · rintro ⟨hs, -⟩
      exact absurd hs (ne_append_pair hshort before after)

theorem cutAt_eq_none_iff {a b : Char} {s : List Char} : cutAt a b s = none ↔ ¬ [a, b] <:+: s := by
  fun_induction cutAt a b s with
  | case1 c d rest hmark =>
    obtain ⟨rfl, rfl⟩ := hmark
    simp [List.infix_cons_iff]
  | case2 c d rest hmark ih =>
    have hstart : ¬ [a, b] <+: c :: d :: rest := fun h => hmark (startsAt_pair_zero.1 h)
    rw [Option.map_eq_none_iff, ih, List.infix_cons_iff (a := c), or_iff_right hstart]
  | case3 s hshort =>
    refine iff_of_true rfl ?_
    rintro ⟨before, after, hs⟩
    rw [List.append_assoc] at hs
    exact ne_append_pair hshort before after hs.symm

end Text

namespace Markup

open Text

/-! ### Opening marks that two texts form -/

/-- The end of the first text and the start of the second one form no opening mark together. -/
def Apart (s s' : List Char) : Prop :=
  ¬ (s.getLast? = some '{' ∧ (s'.head? = some '{' ∨ s'.head? = some '%'))

/-- A character that starts no opening mark stands before the next one. -/
theorem cutAtOpening_cons {c : Char} {rest : List Char} (hapart : Apart [c] rest) :
    Token.cutAtOpening (c :: rest)
      = (Token.cutAtOpening rest).map fun cut => (c :: cut.1, cut.2) := by
  rw [Token.cutAtOpening]
  · rintro rest' rfl rfl
    exact hapart ⟨rfl, .inl rfl⟩
  · rintro rest' rfl rfl
    exact hapart ⟨rfl, .inr rfl⟩

/-- Where there is no opening mark, none starts. -/
theorem apart_of_cutAtOpening_none {c : Char} {rest : List Char}
    (h : Token.cutAtOpening (c :: rest) = none) : Apart [c] rest := by
  rintro ⟨hlast, hhead⟩
  obtain rfl : c = '{' := by simpa using hlast
  cases rest with
  | nil => simp at hhead
  | cons d rest =>
    rcases hhead with hhead | hhead
    · obtain rfl : d = '{' := by simpa using hhead
      cases h
    · obtain rfl : d = '%' := by simpa using hhead
      cases h

/-- A character before the first opening mark starts none. -/
theorem apart_of_cutAtOpening_some {c : Char} {rest before inside : List Char} {kind : TagKind}
    (h : Token.cutAtOpening (c :: rest) = some (c :: before, kind, inside)) : Apart [c] rest := by
  rintro ⟨hlast, hhead⟩
  obtain rfl : c = '{' := by simpa using hlast
  cases rest with
  | nil => simp at hhead
  | cons d rest =>
    rcases hhead with hhead | hhead
    · obtain rfl : d = '{' := by simpa using hhead
      cases h
    · obtain rfl : d = '%' := by simpa using hhead
      cases h

namespace Token

theorem length_opening (kind : TagKind) : (opening kind).length = 2 := by
  cases kind <;> rfl

/-! ### The nearest marks of a tag -/

/-- A character and what follows it form no opening mark if none starts there. -/
theorem apart_iff_startsAt {c : Char} {rest : List Char} :
    Apart [c] rest ↔ ∀ kind, ¬ StartsAt (opening kind) (c :: rest) 0 := by
  cases rest with
  | nil =>
    refine iff_of_true (by simp [Apart]) ?_
    intro kind
    cases kind <;> simp [StartsAt, opening]
  | cons d rest =>
    constructor
    · intro h kind hstart
      cases kind <;> obtain ⟨rfl, rfl⟩ := startsAt_pair_zero.1 hstart
      · exact h ⟨rfl, .inl rfl⟩
      · exact h ⟨rfl, .inr rfl⟩
    · rintro h ⟨hlast, hhead⟩
      obtain rfl : c = '\x7b' := by simpa using hlast
      rcases hhead with hhead | hhead
      · obtain rfl : d = '\x7b' := by simpa using hhead
        exact h .output (startsAt_pair_zero.2 ⟨rfl, rfl⟩)
      · obtain rfl : d = '%' := by simpa using hhead
        exact h .directive (startsAt_pair_zero.2 ⟨rfl, rfl⟩)

/-- The first opening mark is found, of whatever kind it is. -/
theorem cutAtOpening_eq_some_iff {s before inside : List Char} {kind : TagKind} :
    cutAtOpening s = some (before, kind, inside) ↔ s = before ++ (opening kind ++ inside) ∧
      ∀ kind', ∀ i < before.length, ¬ StartsAt (opening kind') s i := by
  induction before generalizing s with
  | nil =>
    constructor
    · intro h
      exact ⟨append_of_cutAtOpening h, nofun⟩
    · rintro ⟨rfl, -⟩
      cases kind <;> rfl
  | cons c before ih =>
    have hsucc : ∀ rest : List Char,
        (∀ kind', ∀ i < (c :: before).length, ¬ StartsAt (opening kind') (c :: rest) i) ↔
          Apart [c] rest ∧ ∀ kind', ∀ i < before.length, ¬ StartsAt (opening kind') rest i := by
      intro rest
      rw [apart_iff_startsAt, ← forall_and]
      apply forall_congr'
      intro kind'
      constructor
      · intro h
        refine ⟨h 0 (Nat.succ_pos _), fun i hi => ?_⟩
        rw [← startsAt_cons_succ (c := c)]
        exact h (i + 1) (Nat.succ_lt_succ hi)
      · rintro ⟨hzero, h⟩ i hi
        cases i with
        | zero => exact hzero
        | succ i =>
          rw [startsAt_cons_succ]
          exact h i (Nat.lt_of_succ_lt_succ hi)
    constructor
    · intro h
      have hs := append_of_cutAtOpening h
      rw [List.append_assoc, List.cons_append] at hs
      subst hs
      have hapart := apart_of_cutAtOpening_some h
      rw [cutAtOpening_cons hapart] at h
      obtain ⟨⟨before', kind', inside'⟩, hcut, heq⟩ := Option.map_eq_some_iff.1 h
      cases heq
      exact ⟨rfl, (hsucc _).2 ⟨hapart, (ih.1 hcut).2⟩⟩
    · rintro ⟨rfl, hfirst⟩
      obtain ⟨hapart, hrest⟩ := (hsucc (before ++ (opening kind ++ inside))).1 hfirst
      rw [List.cons_append, cutAtOpening_cons hapart, ih.2 ⟨rfl, hrest⟩]
      rfl

theorem cutAtOpening_eq_none_iff {s : List Char} :
    cutAtOpening s = none ↔ ∀ kind, ¬ opening kind <:+: s := by
  induction s with
  | nil =>
    refine iff_of_true rfl ?_
    intro kind
    cases kind <;> simp [opening]
  | cons c rest ih =>
    have hcons : (∀ kind, ¬ opening kind <:+: c :: rest) ↔
        Apart [c] rest ∧ ∀ kind, ¬ opening kind <:+: rest := by
      rw [apart_iff_startsAt, ← forall_and]
      simp only [List.infix_cons_iff, not_or, StartsAt, List.drop_zero]
    rw [hcons, ← ih]
    constructor
    · intro h
      have hapart := apart_of_cutAtOpening_none h
      rw [cutAtOpening_cons hapart, Option.map_eq_none_iff] at h
      exact ⟨hapart, h⟩
    · rintro ⟨hapart, h⟩
      rw [cutAtOpening_cons hapart, h]
      rfl

/-- The first closing mark is found. -/
theorem cutAtClosing_eq_some_iff {kind : TagKind} {s content rest : List Char} :
    cutAtClosing kind s = some (content, rest) ↔ s = content ++ (closing kind ++ rest) ∧
      ∀ i < content.length, ¬ StartsAt (closing kind) s i := by
  cases kind <;> exact cutAt_eq_some_iff

theorem cutAtClosing_eq_none_iff {kind : TagKind} {s : List Char} :
    cutAtClosing kind s = none ↔ ¬ closing kind <:+: s := by
  cases kind <;> exact cutAt_eq_none_iff

end Token

end Markup

end TextTemplate
