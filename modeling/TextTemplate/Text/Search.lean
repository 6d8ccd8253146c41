/-! # Cutting a text at a mark

  `cutAt a b s` looks for the first place at which the mark `a b` stands, and gives
  what comes before and what comes after it.  The parts and the mark make up the
  text again, and the mark does not stand earlier.
  `splitAll` cuts a text at every occurrence of one character.
-/

namespace TextTemplate.Text

/-- The texts before and after the first occurrence of the mark `a b`. -/
def cutAt (a b : Char) : List Char → Option (List Char × List Char)
  | c :: d :: rest =>
    if c = a ∧ d = b then some ([], rest)
    else (cutAt a b (d :: rest)).map fun cut => (c :: cut.1, cut.2)
  | _ => none

/-- A cut loses nothing but the mark. -/
theorem append_of_cutAt {a b : Char} {s before after : List Char}
    (h : cutAt a b s = some (before, after)) : s = before ++ a :: b :: after := by
  fun_induction cutAt a b s generalizing before with
  | case1 rest => simp_all
  | case2 c d rest _ ih =>
    obtain ⟨cut, hcut, heq⟩ := Option.map_eq_some_iff.1 h
    cases heq
    simp [← ih hcut]
  | case3 => cases h

/-- The mark does not stand before a cut, nor does its first half complete one there. -/
theorem cutAt_append_of_cutAt {a b : Char} {s before after : List Char}
    (h : cutAt a b s = some (before, after)) : cutAt a b (before ++ [a]) = none := by
  fun_induction cutAt a b s generalizing before with
  | case1 rest => cases h; simp [cutAt]
  | case2 c d rest hmark ih =>
    obtain ⟨cut, hcut, heq⟩ := Option.map_eq_some_iff.1 h
    cases heq
    have hrest := append_of_cutAt hcut
    have hnone := ih hcut
    cases hbefore : cut.1 with
    | nil =>
      have hd : d = a := by simpa [hbefore] using congrArg List.head? hrest
      simpa [cutAt, hd] using hmark
    | cons e more =>
      have hd : d = e := by simpa [hbefore] using congrArg List.head? hrest
      subst hd
      rw [hbefore, List.cons_append] at hnone
      simp only [List.cons_append, cutAt, if_neg hmark, hnone, Option.map_none]
  | case3 => cases h

/-- What follows a cut is at least two characters shorter than the text. -/
theorem length_after_cutAt {a b : Char} {s before after : List Char}
    (h : cutAt a b s = some (before, after)) : after.length + 2 ≤ s.length := by
  simp [append_of_cutAt h]

/-- The parts of a text between the occurrences of a character. -/
def splitAll (mark : Char) : List Char → List (List Char)
  | [] => [[]]
  | c :: rest =>
    if c = mark then [] :: splitAll mark rest
    else match splitAll mark rest with
      | [] => [[c]]
      | part :: parts => (c :: part) :: parts

/-- No part holds the character at which the text is split. -/
theorem not_mem_of_mem_splitAll {mark : Char} {s part : List Char} (h : part ∈ splitAll mark s) :
    mark ∉ part := by
  induction s generalizing part with
  | nil => simp_all [splitAll]
  | cons c rest ih =>
    by_cases hc : c = mark
    · rw [splitAll, if_pos hc] at h
      rcases List.mem_cons.1 h with rfl | h
      · simp
      · exact ih h
    · rw [splitAll, if_neg hc] at h
      split at h
      · simp_all [Ne.symm hc]
      · next first parts hsplit =>
        rw [hsplit] at ih
        rcases List.mem_cons.1 h with rfl | h
        · simp [Ne.symm hc, ih (List.mem_cons_self ..)]
        · exact ih (List.mem_cons_of_mem _ h)

/-- The texts before and after the first occurrence of a mark of any length. -/
def cutAtWord (mark : List Char) : List Char → Option (List Char × List Char)
  | [] => if mark.isEmpty then some ([], []) else none
  | c :: rest =>
    if mark.isPrefixOf (c :: rest) then some ([], (c :: rest).drop mark.length)
    else (cutAtWord mark rest).map fun cut => (c :: cut.1, cut.2)

end TextTemplate.Text
