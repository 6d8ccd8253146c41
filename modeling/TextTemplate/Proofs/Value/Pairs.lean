import TextTemplate.Pairs

/-! # The last pair of a name counts

  Of pairs that are put one after the other, the last one of each name is found,
  and each name is there once.  What the pairs hold may be looked up before they
  are put or afterwards (`map_foldl_put`).
-/

namespace TextTemplate.Pairs

variable {α : Type}

/-- A pair that is put is found under its name, and the others as before. -/
theorem find?_put (entries : List (String × α)) (pair : String × α) (name : String) :
    (put entries pair).find? (·.1 == name)
      = if pair.1 = name then some pair else entries.find? (·.1 == name) := by
  unfold put
  by_cases hany : entries.any (·.1 == pair.1) = true
  · rw [if_pos hany]
    -- Replacing a pair by one of its name leaves all names where they are.
    have hkeep : ∀ e : String × α, (if e.1 == pair.1 then pair else e).1 = e.1 := by
      intro e
      by_cases he : e.1 = pair.1
      · simp [he]
      · simp [he]
    have hfind : (entries.map fun e => if e.1 == pair.1 then pair else e).find? (·.1 == name)
        = (entries.find? (·.1 == name)).map fun e => if e.1 == pair.1 then pair else e := by
      rw [List.find?_map]
      congr 2
      funext e
      rw [Function.comp_apply, hkeep]
    rw [hfind]
    cases hfound : entries.find? (·.1 == name) with
    | none =>
      have hne : pair.1 ≠ name := by
        rintro rfl
        obtain ⟨e, he, hname⟩ := List.any_eq_true.1 hany
        exact List.find?_eq_none.1 hfound e he hname
      rw [if_neg hne]
      rfl
    | some e =>
      have he : e.1 = name := by simpa using List.find?_some hfound
      by_cases hname : pair.1 = name
      · simp [he, hname]
      · simp [he, hname, Ne.symm hname]
  · rw [if_neg hany]
    have hnone : ∀ e ∈ entries, e.1 ≠ pair.1 := by
      intro e he heq
      exact hany (List.any_eq_true.2 ⟨e, he, by simpa using heq⟩)
    rw [List.find?_append]
    by_cases hname : pair.1 = name
    · have hfind : entries.find? (·.1 == name) = none := by
        apply List.find?_eq_none.2
        intro e he
        simpa [hname] using hnone e he
      simp [hfind, hname]
    · simp [hname]

/-- A pair that is put brings its name along, unless there is one of the name. -/
theorem names_put (entries : List (String × α)) (pair : String × α) :
    (put entries pair).map (·.1) = if pair.1 ∈ entries.map (·.1) then entries.map (·.1)
      else entries.map (·.1) ++ [pair.1] := by
  have hany : entries.any (·.1 == pair.1) = true ↔ pair.1 ∈ entries.map (·.1) := by
    simp [List.any_eq_true]
  unfold put
  by_cases hmem : pair.1 ∈ entries.map (·.1)
  · rw [if_pos (hany.2 hmem), if_pos hmem, List.map_map]
    apply List.map_congr_left
    intro e _
    by_cases he : e.1 = pair.1
    · simp [he]
    · simp [he]
  · rw [if_neg (fun h => hmem (hany.1 h)), if_neg hmem, List.map_append, List.map_singleton]

/-- The names of pairs that are put one after the other are those of all of them, each once. -/
theorem names_foldl_put (pairs : List (String × α)) :
    ((pairs.foldl put []).map (·.1)).Nodup ∧
      ∀ name, name ∈ (pairs.foldl put []).map (·.1) ↔ name ∈ pairs.map (·.1) := by
  rw [← List.foldr_reverse]
  have hall : ∀ name, name ∈ pairs.map (·.1) ↔ name ∈ pairs.reverse.map (·.1) := by
    intro name
    rw [List.map_reverse, List.mem_reverse]
  simp only [hall]
  induction pairs.reverse with
  | nil => exact ⟨List.nodup_nil, fun name => Iff.rfl⟩
  | cons pair rest ih =>
    obtain ⟨hnodup, hmem⟩ := ih
    rw [List.foldr_cons, names_put]
    by_cases hold : pair.1 ∈ (rest.foldr (fun p entries => put entries p) []).map (·.1)
    · rw [if_pos hold]
      refine ⟨hnodup, fun name => ?_⟩
      rw [hmem, List.map_cons, List.mem_cons]
      constructor
      · exact .inr
      · rintro (rfl | h)
        · exact (hmem _).1 hold
        · exact h
    · rw [if_neg hold]
      refine ⟨?_, fun name => ?_⟩
      · rw [List.nodup_append]
        refine ⟨hnodup, by simp, ?_⟩
        intro a ha b hb
        obtain rfl := List.mem_singleton.1 hb
        rintro rfl
        exact hold ha
      · rw [List.mem_append, List.mem_singleton, hmem, List.map_cons, List.mem_cons, or_comm]

/-- What the pairs stand for may be looked up before they are put or afterwards. -/
theorem map_foldl_put {β : Type} (f : α → β) (pairs : List (String × α)) :
    (pairs.foldl put []).map (fun e => (e.1, f e.2))
      = (pairs.map fun e => (e.1, f e.2)).foldl put [] := by
  rw [← List.foldr_reverse, ← List.foldr_reverse, ← List.map_reverse]
  induction pairs.reverse with
  | nil => rfl
  | cons pair rest ih =>
    rw [List.map_cons, List.foldr_cons, List.foldr_cons, ← ih]
    unfold put
    rw [List.any_map]
    have hsame : ((fun e : String × β => e.1 == pair.1) ∘ fun e : String × α => (e.1, f e.2))
        = fun e => e.1 == pair.1 := rfl
    rw [hsame]
    split
    · rw [List.map_map, List.map_map]
      apply List.map_congr_left
      intro e _
      by_cases he : e.1 = pair.1
      · simp [he]
      · simp [he]
    · rw [List.map_append, List.map_singleton]

/-- Of pairs that are put one after the other, the last one of a name is found. -/
theorem find?_foldl_put (pairs : List (String × α)) (name : String) :
    (pairs.foldl put []).find? (·.1 == name) = pairs.reverse.find? (·.1 == name) := by
  rw [← List.foldr_reverse]
  induction pairs.reverse with
  | nil => rfl
  | cons pair rest ih =>
    rw [List.foldr_cons, find?_put, ih, List.find?_cons]
    by_cases hname : pair.1 = name
    · have heq : (pair.1 == name) = true := by simpa using hname
      rw [if_pos hname, heq]
    · have hne : (pair.1 == name) = false := by simpa using hname
      rw [if_neg hname, hne]

end TextTemplate.Pairs
