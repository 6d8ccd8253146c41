import TextTemplate.Proofs.Catalog.Entries

/-! # Gates and those in front of them

  Every gate stands at an entry, a request is made only for a gate that is there,
  and nobody stays in front of an open gate.
-/

namespace TextTemplate.Catalog

/-- Where gates stand, and who is in front of them or on the way through. -/
structure Gates (entries : List Entry) (gates : List Gate) (requests : List Target)
    (jobs : List Job) : Prop where
  entry_lt : ∀ gate ∈ gates, gate.entry < entries.length
  target_lt : ∀ (r : RequestId) (g : GateId), requests[r]? = some (.gate g) → g < gates.length
  no_waiters : ∀ gate ∈ gates, gate.released = true → gate.waiters = []
  waiting : ∀ gate ∈ gates, ∀ r ∈ gate.waiters, ∃ g, requests[r]? = some (.gate g)
  passing : ∀ r : RequestId, .pass r ∈ jobs → ∃ g, requests[r]? = some (.gate g)

namespace Gates

variable {entries entries' : List Entry} {gates : List Gate} {requests : List Target}
  {jobs jobs' : List Job}

theorem nil : Gates [] [] [] [] := by
  constructor <;> simp

/-- Entries change, and jobs that lead through no gate come and go. -/
theorem mono (h : Gates entries gates requests jobs) (hlen : entries.length ≤ entries'.length)
    (hjobs : ∀ r, .pass r ∈ jobs' → .pass r ∈ jobs) : Gates entries' gates requests jobs' where
  entry_lt gate hgate := Nat.lt_of_lt_of_le (h.entry_lt gate hgate) hlen
  target_lt := h.target_lt
  no_waiters := h.no_waiters
  waiting := h.waiting
  passing r hr := h.passing r (hjobs r hr)

/-- A request for something that is there. -/
theorem request (h : Gates entries gates requests jobs) {target : Target}
    (htarget : ∀ g, target = .gate g → g < gates.length) :
    Gates entries gates (requests ++ [target]) jobs where
  entry_lt := h.entry_lt
  target_lt r g hr := by
    rcases getElem?_of_getElem?_concat hr with hr | ⟨-, heq⟩
    · exact h.target_lt r g hr
    · exact htarget g heq.symm
  no_waiters := h.no_waiters
  waiting gate hgate r hr := by
    obtain ⟨g, hg⟩ := h.waiting gate hgate r hr
    exact ⟨g, getElem?_append_of_some hg _⟩
  passing r hr := by
    obtain ⟨g, hg⟩ := h.passing r hr
    exact ⟨g, getElem?_append_of_some hg _⟩

/-- A new gate, with nobody in front of it. -/
theorem gate (h : Gates entries gates requests jobs) {gate : Gate}
    (hentry : gate.entry < entries.length) (hwaiters : gate.waiters = []) :
    Gates entries (gates ++ [gate]) requests jobs where
  entry_lt other hother := by
    rcases mem_or_eq_of_mem_concat hother with hother | rfl
    · exact h.entry_lt other hother
    · exact hentry
  target_lt r g hr := by
    have := h.target_lt r g hr
    simp only [List.length_append, List.length_singleton]
    exact Nat.lt_succ_of_lt this
  no_waiters other hother hreleased := by
    rcases mem_or_eq_of_mem_concat hother with hother | rfl
    · exact h.no_waiters other hother hreleased
    · exact hwaiters
  waiting other hother r hr := by
    rcases mem_or_eq_of_mem_concat hother with hother | rfl
    · exact h.waiting other hother r hr
    · rw [hwaiters] at hr
      cases hr
  passing := h.passing

/-- One gate changes, and some of those in front of it are let through. -/
theorem set (h : Gates entries gates requests jobs) {g : GateId} {old new : Gate}
    (hold : gates[g]? = some old) (hentry : new.entry = old.entry)
    (hreleased : new.released = true → new.waiters = [])
    (hwaiters : ∀ r ∈ new.waiters, ∃ g, requests[r]? = some (.gate g))
    (hjobs : ∀ r, .pass r ∈ jobs' → .pass r ∈ jobs ∨ r ∈ old.waiters) :
    Gates entries (gates.set g new) requests jobs' where
  entry_lt gate hgate := by
    rcases List.mem_or_eq_of_mem_set hgate with hgate | rfl
    · exact h.entry_lt gate hgate
    · rw [hentry]
      exact h.entry_lt old (List.mem_of_getElem? hold)
  target_lt r x hr := by
    rw [List.length_set]
    exact h.target_lt r x hr
  no_waiters gate hgate hrel := by
    rcases List.mem_or_eq_of_mem_set hgate with hgate | rfl
    · exact h.no_waiters gate hgate hrel
    · exact hreleased hrel
  waiting gate hgate r hr := by
    rcases List.mem_or_eq_of_mem_set hgate with hgate | rfl
    · exact h.waiting gate hgate r hr
    · exact hwaiters r hr
  passing r hr := by
    rcases hjobs r hr with hr | hr
    · exact h.passing r hr
    · exact h.waiting old (List.mem_of_getElem? hold) r hr

/-- Some of those in front of gates go away. -/
theorem filter (h : Gates entries gates requests jobs) (p : RequestId → Bool)
    (hjobs : ∀ r, .pass r ∈ jobs' → .pass r ∈ jobs) :
    Gates entries (gates.map fun gate => { gate with waiters := gate.waiters.filter p })
      requests jobs' where
  entry_lt gate hgate := by
    obtain ⟨old, hold, rfl⟩ := List.mem_map.1 hgate
    exact h.entry_lt old hold
  target_lt r x hr := by
    rw [List.length_map]
    exact h.target_lt r x hr
  no_waiters gate hgate hrel := by
    obtain ⟨old, hold, rfl⟩ := List.mem_map.1 hgate
    simp [h.no_waiters old hold hrel]
  waiting gate hgate r hr := by
    obtain ⟨old, hold, rfl⟩ := List.mem_map.1 hgate
    exact h.waiting old hold r (List.mem_filter.1 hr).1
  passing r hr := h.passing r (hjobs r hr)

end Gates

end TextTemplate.Catalog
