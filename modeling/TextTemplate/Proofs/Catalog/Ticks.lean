import TextTemplate.Proofs.Catalog.Entries

/-! # What a loading entry waits for

  `Ticks` says that the number `pending` of a loading entry is the number of
  things that it waits for: its own text until that has been read, its ancestor
  from then on until that is ready, and each closed gate that holds it back.  A
  tick that the running job will take off next is owed for the time being.
  `Settled` says what has become of these things when the entry settles: a ready
  entry waits for none of them any more, and a failed one never got them all.
-/

namespace TextTemplate.Catalog

/-- What an entry waits for besides gates: its text, and then its ancestor. -/
def Entry.due (entry : Entry) : Nat :=
  entry.document?.isNone.toNat + (entry.parent?.isSome && entry.ancestor?.isNone).toNat

/-- An entry with nothing due has been read, and has its ancestor if it names one. -/
theorem Entry.of_due_eq_zero {entry : Entry} (h : entry.due = 0) :
    ∃ document, entry.document? = some document ∧
      (document.parent? = none ∨ ∃ chain, entry.ancestor? = some chain) := by
  unfold Entry.due Entry.parent? at h
  cases hd : entry.document? with
  | none => simp [hd] at h
  | some document =>
    refine ⟨document, rfl, ?_⟩
    cases hp : document.parent? with
    | none => exact .inl rfl
    | some p =>
      cases ha : entry.ancestor? with
      | none => simp [hd, hp, ha] at h
      | some chain => exact .inr ⟨chain, rfl⟩

/-- Does the gate hold the entry of this number back? -/
def Gate.bars (gate : Gate) (e : EntryId) : Bool :=
  gate.entry == e && gate.holdsBack && !gate.released

/-- How many closed gates hold an entry back. -/
def barriers (gates : List Gate) (e : EntryId) : Nat := gates.countP (·.bars e)

theorem barriers_concat (gates : List Gate) (gate : Gate) (e : EntryId) :
    barriers (gates ++ [gate]) e = barriers gates e + (gate.bars e).toNat := by
  unfold barriers
  cases h : gate.bars e <;> simp [List.countP_append, h]

theorem barriers_set {gates : List Gate} {g : GateId} {gate : Gate} (h : gates[g]? = some gate)
    (new : Gate) (e : EntryId) :
    barriers (gates.set g new) e + (gate.bars e).toNat
      = barriers gates e + (new.bars e).toNat := by
  unfold barriers
  induction gates generalizing g with
  | nil => simp at h
  | cons first rest ih =>
    -- The gate that is replaced is the first one or one of the rest.
    cases g with
    | zero =>
      obtain rfl : first = gate := by simpa using h
      simp only [List.set_cons_zero, List.countP_cons]
      cases first.bars e <;> cases new.bars e <;> simp
    | succ g =>
      have := ih (by simpa using h)
      simp only [List.set_cons_succ, List.countP_cons]
      omega

/-- No gate holds back an entry that is not there. -/
theorem barriers_eq_zero {gates : List Gate} {e : EntryId} (h : ∀ gate ∈ gates, gate.entry < e) :
    barriers gates e = 0 := by
  unfold barriers
  apply List.countP_eq_zero.2
  intro gate hmem
  have hne : gate.entry ≠ e := Nat.ne_of_lt (h gate hmem)
  simp [Gate.bars, hne]

/-- A loading entry waits for as many things as it has counted, and for one at least. -/
structure Ticks (owed : List EntryId) (entries : List Entry) (gates : List Gate) : Prop where
  pending : ∀ (e : EntryId) (entry : Entry), entries[e]? = some entry → entry.isLoading = true →
    entry.pending = entry.due + barriers gates e + owed.count e
  positive : ∀ (e : EntryId) (entry : Entry), entries[e]? = some entry →
    entry.isLoading = true → 0 < entry.pending

namespace Ticks

variable {owed owed' : List EntryId} {entries : List Entry} {gates gates' : List Gate}

theorem nil : Ticks [] [] [] := by
  constructor <;> intro e entry he <;> simp at he

/-- An entry takes note of a thing that begins or ceases to keep it waiting, or settles. -/
theorem modify {e : EntryId} {f : Entry → Entry} (h : Ticks owed entries gates)
    (hself : ∀ a, entries[e]? = some a → (f a).isLoading = true → a.isLoading = true ∧
      (f a).pending + a.due + owed.count e = a.pending + (f a).due + owed'.count e ∧
      (0 < a.pending → 0 < (f a).pending))
    (hother : ∀ x, x ≠ e → owed'.count x = owed.count x) :
    Ticks owed' (entries.modify e f) gates := by
  constructor
  · intro x b hb hload
    obtain ⟨a, ha, rfl⟩ := getElem?_of_getElem?_modify hb
    by_cases hex : e = x
    · -- The sum of the entry that takes note changes on both sides alike.
      subst hex
      simp only [if_true] at hload ⊢
      obtain ⟨haload, hsum, -⟩ := hself a ha hload
      have := h.pending e a ha haload
      omega
    · simp only [if_neg hex] at hload ⊢
      rw [hother x (Ne.symm hex)]
      exact h.pending x a ha hload
  · intro x b hb hload
    obtain ⟨a, ha, rfl⟩ := getElem?_of_getElem?_modify hb
    by_cases hex : e = x
    · subst hex
      simp only [if_true] at hload ⊢
      obtain ⟨haload, -, hpositive⟩ := hself a ha hload
      exact hpositive (h.positive e a ha haload)
    · simp only [if_neg hex] at hload ⊢
      exact h.positive x a ha hload

theorem concat_fresh (h : Ticks owed entries gates)
    (hgates : ∀ gate ∈ gates, gate.entry < entries.length)
    (howed : entries.length ∉ owed) (name : String) :
    Ticks owed (entries ++ [.fresh name]) gates := by
  constructor
  · intro e entry he hload
    rcases getElem?_of_getElem?_concat he with he | ⟨rfl, rfl⟩
    · exact h.pending e entry he hload
    · -- A new entry waits for its own text only: no gate or job knows its number yet.
      rw [barriers_eq_zero hgates, List.count_eq_zero_of_not_mem howed]
      rfl
  · intro e entry he hload
    rcases getElem?_of_getElem?_concat he with he | ⟨-, rfl⟩
    · exact h.positive e entry he hload
    · exact Nat.one_pos

/-- A gate is taken or released. -/
theorem change_gates (h : Ticks owed entries gates)
    (hsum : ∀ e, barriers gates' e + owed'.count e = barriers gates e + owed.count e) :
    Ticks owed' entries gates' where
  pending e entry he hload := by
    have := h.pending e entry he hload
    have := hsum e
    omega
  positive := h.positive

end Ticks

/-! ### Settled entries -/

/-- What a settled entry may still wait for, and what it has become of. -/
structure SettledEntry (entry : Entry) (barriers : Nat) : Prop where
  ready : ∀ chain, entry.status = .ready chain → entry.due + barriers = 0 ∧
    ∃ document, entry.document? = some document ∧
      chain = .derive ⟨entry.name, document⟩ entry.ancestor?
  failed : ∀ error, entry.status = .failed error → entry.due ≠ 0

/-- A ready entry waits for nothing, and its chain is made of its text and its ancestor.  A failed
    one lacks one of them. -/
def Settled (entries : List Entry) (gates : List Gate) : Prop :=
  ∀ (e : EntryId) (entry : Entry), entries[e]? = some entry → SettledEntry entry (barriers gates e)

/-- A loading entry has not settled in any way. -/
theorem SettledEntry.of_loading {entry : Entry} {barriers : Nat} (h : entry.isLoading = true) :
    SettledEntry entry barriers := by
  constructor <;> intro _ hs <;> simp [Entry.isLoading, hs] at h

/-- An entry changes in nothing that counts when it has settled. -/
theorem SettledEntry.congr {a b : Entry} {barriers barriers' : Nat} (h : SettledEntry a barriers)
    (hname : b.name = a.name) (hstatus : b.status = a.status)
    (hdocument : b.document? = a.document?) (hancestor : b.ancestor? = a.ancestor?)
    (hle : barriers' ≤ barriers) : SettledEntry b barriers' := by
  have hdue : b.due = a.due := by
    simp only [Entry.due, Entry.parent?, hdocument, hancestor]
  constructor
  · intro chain hs
    obtain ⟨hzero, hchain⟩ := h.ready chain (hstatus ▸ hs)
    rw [hname, hdocument, hancestor]
    exact ⟨by omega, hchain⟩
  · intro error hs
    rw [hdue]
    exact h.failed error (hstatus ▸ hs)

namespace Settled

variable {entries : List Entry} {gates gates' : List Gate}

theorem nil : Settled [] [] := by
  intro e entry he
  simp at he

theorem modify {e : EntryId} {f : Entry → Entry} (h : Settled entries gates)
    (hself : ∀ a, entries[e]? = some a → SettledEntry (f a) (barriers gates e)) :
    Settled (entries.modify e f) gates := by
  intro x b hb
  obtain ⟨a, ha, rfl⟩ := getElem?_of_getElem?_modify hb
  split
  · next heq => exact heq ▸ hself a (heq ▸ ha)
  · exact h x a ha

theorem concat_fresh (h : Settled entries gates) (name : String) :
    Settled (entries ++ [.fresh name]) gates := by
  intro e entry he
  rcases getElem?_of_getElem?_concat he with he | ⟨-, rfl⟩
  · exact h e entry he
  · exact .of_loading rfl

/-- A gate is taken for a loading entry, or released. -/
theorem change_gates (h : Settled entries gates)
    (hbars : ∀ (e : EntryId) (a : Entry), entries[e]? = some a → a.isLoading = false →
      barriers gates' e ≤ barriers gates e) : Settled entries gates' := by
  intro e a ha
  by_cases hloading : a.isLoading = true
  · exact .of_loading hloading
  · exact (h e a ha).congr rfl rfl rfl rfl (hbars e a ha (by simpa using hloading))

end Settled

end TextTemplate.Catalog
