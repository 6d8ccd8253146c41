import Mathlib.Data.List.Basic
import TextTemplate.Proofs.Catalog.Action

/-! # The entries of a catalog

  Entries are never taken off the list, and only one of them changes at a time.
  What every change respects is `Listing`: a loading entry is found under its
  name, no two entries are found under one name, and nobody waits at an entry
  that has settled.
-/

namespace TextTemplate.Catalog

/-! ### Changing one element -/

/-- An element of a list with one changed element is an element of the old list, perhaps changed. -/
theorem getElem?_of_getElem?_modify {α : Type} {l : List α} {f : α → α} {i j : Nat} {b : α}
    (h : (l.modify i f)[j]? = some b) :
    ∃ a, l[j]? = some a ∧ b = if i = j then f a else a := by
  rw [List.getElem?_modify] at h
  obtain ⟨a, ha, rfl⟩ := Option.map_eq_some_iff.1 h
  exact ⟨a, ha, rfl⟩

/-- To put an element into a list is to change the one that stood there. -/
theorem set_eq_modify {α : Type} (l : List α) (i : Nat) (b : α) :
    l.set i b = l.modify i fun _ => b := by
  induction l generalizing i with
  | nil => cases i <;> rfl
  | cons x rest ih =>
    cases i with
    | zero => rfl
    | succ i => rw [List.set_cons_succ, List.modify_succ_cons, ih]

/-- An element of a longer list is an old one or the new one. -/
theorem getElem?_of_getElem?_concat {α : Type} {l : List α} {x b : α} {i : Nat}
    (h : (l ++ [x])[i]? = some b) : l[i]? = some b ∨ i = l.length ∧ b = x := by
  rcases Nat.lt_trichotomy i l.length with hlt | rfl | hgt
  · exact .inl (by simpa [List.getElem?_append_left hlt] using h)
  · exact .inr ⟨rfl, by simpa using h.symm⟩
  · -- There is nothing beyond the new element.
    have hlen : (l ++ [x]).length ≤ i := by simp; omega
    rw [List.getElem?_eq_none hlen] at h
    cases h

/-- A member of a longer list is an old one or the new one. -/
theorem mem_or_eq_of_mem_concat {α : Type} {l : List α} {x b : α} (h : b ∈ l ++ [x]) :
    b ∈ l ∨ b = x :=
  (List.mem_append.1 h).imp_right List.mem_singleton.1

/-- The elements of a list keep their places when it grows. -/
theorem getElem?_append_of_some {α : Type} {l : List α} {a : α} {i : Nat} (h : l[i]? = some a)
    (more : List α) : (l ++ more)[i]? = some a := by
  obtain ⟨hlt, -⟩ := List.getElem?_eq_some_iff.1 h
  rw [List.getElem?_append_left hlt]
  exact h

/-- What one changed element adds to a list that is put together from all elements. -/
theorem count_flatMap_modify {α β : Type} [DecidableEq β] (g : α → List β) (f : α → α) {l : List α}
    {i : Nat} {a : α} (h : l[i]? = some a) (b : β) :
    ((l.modify i f).flatMap g).count b + (g a).count b
      = (l.flatMap g).count b + (g (f a)).count b := by
  induction l generalizing i with
  | nil => simp at h
  | cons x rest ih =>
    -- The changed element is the first one or one of the rest; the other part stays.
    cases i with
    | zero =>
      obtain rfl : x = a := by simpa using h
      simp only [List.modify_zero_cons, List.flatMap_cons, List.count_append]
      omega
    | succ i =>
      have := ih (by simpa using h)
      simp only [List.modify_succ_cons, List.flatMap_cons, List.count_append]
      omega

/-- A change that is not seen in what the elements give. -/
theorem flatMap_modify_eq {α β : Type} {g : α → List β} {f : α → α} (hf : ∀ a, g (f a) = g a)
    (l : List α) (i : Nat) : (l.modify i f).flatMap g = l.flatMap g := by
  induction l generalizing i with
  | nil => cases i <;> rfl
  | cons x rest ih => cases i <;> simp [List.flatMap_cons, hf, ih]

/-- Whether an entry is loading is a matter of its status. -/
theorem Entry.isLoading_of_status {a b : Entry} (h : b.status = a.status) :
    b.isLoading = a.isLoading := by
  unfold Entry.isLoading
  rw [h]

/-! ### Looking entries up -/

/-- A loading entry has no outcome, and a settled one has. -/
theorem outcome?_eq_none_iff {c : Catalog} {e : EntryId} {entry : Entry}
    (h : c.entries[e]? = some entry) : c.outcome? e = none ↔ entry.isLoading = true := by
  simp only [outcome?, h, Option.bind_some, Entry.isLoading]
  cases entry.status <;> simp [Status.outcome?]

/-- What the outcome of an entry says about its status. -/
theorem status_of_outcome? {c : Catalog} {e : EntryId} {outcome : Outcome}
    (h : c.outcome? e = some outcome) :
    ∃ entry, c.entries[e]? = some entry ∧ entry.isLoading = false ∧
      entry.status.outcome? = some outcome := by
  obtain ⟨entry, he, hs⟩ := Option.bind_eq_some_iff.1 h
  refine ⟨entry, he, ?_, hs⟩
  cases hst : entry.status <;> simp_all [Status.outcome?, Entry.isLoading]

/-- The entry that is found under a name is listed and has that name. -/
theorem listed_of_find? {c : Catalog} {name : String} {e : EntryId} (h : c.find? name = some e) :
    ∃ entry, c.entries[e]? = some entry ∧ entry.listed = true ∧ entry.name = name := by
  obtain ⟨hlt, hp, -⟩ := List.findIdx?_eq_some_iff_getElem.1 h
  simp only [Bool.and_eq_true, beq_iff_eq] at hp
  exact ⟨c.entries[e], List.getElem?_eq_getElem hlt, hp.1, hp.2⟩

/-- No entry of a name is listed if none is found. -/
theorem not_listed_of_find? {c : Catalog} {name : String} (h : c.find? name = none) {entry : Entry}
    (hmem : entry ∈ c.entries) (hlisted : entry.listed = true) : entry.name ≠ name := by
  have := List.findIdx?_eq_none_iff.1 h entry hmem
  simpa [hlisted] using this

/-! ### Listing -/

/-- How entries are found under their names, and who can wait at them. -/
structure Listing (entries : List Entry) : Prop where
  listed_of_loading : ∀ (e : EntryId) (entry : Entry), entries[e]? = some entry →
    entry.isLoading = true → entry.listed = true
  eq_of_name_eq : ∀ (e f : EntryId) (a b : Entry), entries[e]? = some a → entries[f]? = some b →
    a.listed = true → b.listed = true → a.name = b.name → e = f
  no_waiters : ∀ (e : EntryId) (entry : Entry), entries[e]? = some entry →
    entry.isLoading = false → entry.waiters = []
  /-- An entry whose text has not been read has no ancestor. -/
  no_ancestor : ∀ (e : EntryId) (entry : Entry), entries[e]? = some entry →
    entry.document? = none → entry.ancestor? = none

namespace Listing

theorem nil : Listing [] := by
  constructor <;> intros <;> simp_all

/-- A change of entries that gives none a name, and settles or unlists only what it may. -/
theorem of_pointwise {entries entries' : List Entry} (h : Listing entries)
    (hp : ∀ (e : EntryId) (b : Entry), entries'[e]? = some b → ∃ a, entries[e]? = some a ∧
      b.name = a.name ∧ (b.listed = true → a.listed = true) ∧
      (b.isLoading = true → b.listed = true) ∧ (b.isLoading = false → b.waiters = []) ∧
      (b.document? = none → b.ancestor? = none)) : Listing entries' where
  listed_of_loading e b hb hload := by
    obtain ⟨-, -, -, -, hlisted, -, -⟩ := hp e b hb
    exact hlisted hload
  eq_of_name_eq e f a b ha hb hla hlb hname := by
    obtain ⟨a', ha', hna, hla', -⟩ := hp e a ha
    obtain ⟨b', hb', hnb, hlb', -⟩ := hp f b hb
    exact h.eq_of_name_eq e f a' b' ha' hb' (hla' hla) (hlb' hlb) (by rw [← hna, ← hnb, hname])
  no_waiters e b hb hsettled := by
    obtain ⟨-, -, -, -, -, hwaiters, -⟩ := hp e b hb
    exact hwaiters hsettled
  no_ancestor e b hb hdoc := by
    obtain ⟨-, -, -, -, -, -, hancestor⟩ := hp e b hb
    exact hancestor hdoc

/-- What a change of one entry has to respect. -/
theorem modify {entries : List Entry} (h : Listing entries) {e : EntryId} {f : Entry → Entry}
    (hf : ∀ a, entries[e]? = some a → (f a).name = a.name ∧ (f a).listed = a.listed ∧
      ((f a).isLoading = true → a.isLoading = true) ∧
      ((f a).isLoading = false → (f a).waiters = []) ∧
      ((f a).document? = none → (f a).ancestor? = none)) : Listing (entries.modify e f) := by
  refine h.of_pointwise fun i b hb => ?_
  obtain ⟨a, ha, rfl⟩ := getElem?_of_getElem?_modify hb
  refine ⟨a, ha, ?_⟩
  by_cases hei : e = i
  · subst hei
    obtain ⟨hname, hlisted, hload, hwait, hdoc⟩ := hf a ha
    simp only [if_true]
    -- What is still loading was loading before, and so was listed.
    refine ⟨hname, fun hl => hlisted ▸ hl, fun hl => ?_, hwait, hdoc⟩
    rw [hlisted]
    exact h.listed_of_loading e a ha (hload hl)
  · simp only [if_neg hei]
    exact ⟨trivial, id, h.listed_of_loading i a ha, h.no_waiters i a ha, h.no_ancestor i a ha⟩

/-- A new entry may have a name under which none is found. -/
theorem concat_fresh {entries : List Entry} (h : Listing entries) {name : String}
    (hname : ∀ entry ∈ entries, entry.listed = true → entry.name ≠ name) :
    Listing (entries ++ [.fresh name]) := by
  constructor
  · intro e b hb hload
    rcases getElem?_of_getElem?_concat hb with hb | ⟨-, rfl⟩
    · exact h.listed_of_loading e b hb hload
    · rfl
  · intro e f a b ha hb hla hlb hab
    -- Two old entries, or an old one and the new one, whose name was free, or the new one twice.
    rcases getElem?_of_getElem?_concat ha with ha | ⟨rfl, rfl⟩ <;>
      rcases getElem?_of_getElem?_concat hb with hb | ⟨rfl, rfl⟩
    · exact h.eq_of_name_eq e f a b ha hb hla hlb hab
    · exact absurd hab (hname a (List.mem_of_getElem? ha) hla)
    · exact absurd hab.symm (hname b (List.mem_of_getElem? hb) hlb)
    · rfl
  · intro e b hb hsettled
    rcases getElem?_of_getElem?_concat hb with hb | ⟨-, rfl⟩
    · exact h.no_waiters e b hb hsettled
    · rfl
  · intro e b hb hdoc
    rcases getElem?_of_getElem?_concat hb with hb | ⟨-, rfl⟩
    · exact h.no_ancestor e b hb hdoc
    · rfl

end Listing

end TextTemplate.Catalog
