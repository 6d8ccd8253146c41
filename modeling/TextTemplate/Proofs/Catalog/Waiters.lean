import TextTemplate.Proofs.Catalog.Entries

/-! # Waiters are neither lost nor doubled

  A waiter stands in the list of one entry until the entry settles, and then in
  the queue, as a job that brings it the answer.  `awaiting` lists the waiters in
  both places, so that settling an entry only moves them.

  Two laws count them.  `Ties`: an entry waits once for its ancestor, from the
  moment when its text names one until it learns what has become of it.
  `Requests`: a request that its caller has not cancelled is in exactly one
  place, which in the end is the list of answers.  Both allow for the waiters
  that the running job has in hand.
-/

namespace TextTemplate.Catalog

/-! ### Those who wait -/

theorem Waiter.request_ne_descendant (r : RequestId) (e : EntryId) :
    Waiter.request r ≠ .descendant e := nofun

/-- The waiter to which a job brings an answer. -/
def Job.waiter? : Job → Option Waiter
  | .answer r _ => some (.request r)
  | .link e _ => some (.descendant e)
  | _ => none

/-- All who wait at an entry or are about to get an answer. -/
def awaiting (entries : List Entry) (jobs : List Job) : List Waiter :=
  entries.flatMap (·.waiters) ++ jobs.filterMap Job.waiter?

theorem count_awaiting_cons (w : Waiter) (entries : List Entry) (job : Job) (jobs : List Job) :
    (awaiting entries (job :: jobs)).count w
      = (awaiting entries jobs).count w + job.waiter?.toList.count w := by
  unfold awaiting
  cases h : job.waiter? with
  | none => simp [h, List.count_append]
  | some v =>
    rw [List.filterMap_cons_some h]
    simp only [List.count_append, List.count_cons, Option.toList_some, List.count_nil]
    omega

theorem count_awaiting_append (w : Waiter) (entries : List Entry) (jobs more : List Job) :
    (awaiting entries (jobs ++ more)).count w
      = (awaiting entries jobs).count w + (more.filterMap Job.waiter?).count w := by
  simp [awaiting, List.count_append]
  omega

theorem awaiting_concat_fresh (entries : List Entry) (jobs : List Job) (name : String) :
    awaiting (entries ++ [.fresh name]) jobs = awaiting entries jobs := by
  simp [awaiting, List.flatMap_append, Entry.fresh]

theorem awaiting_modify {f : Entry → Entry} (hf : ∀ a, (f a).waiters = a.waiters)
    (entries : List Entry) (jobs : List Job) (e : EntryId) :
    awaiting (entries.modify e f) jobs = awaiting entries jobs := by
  unfold awaiting
  rw [flatMap_modify_eq hf]

theorem count_awaiting_addWaiter {entries : List Entry} {e : EntryId} {a : Entry}
    (h : entries[e]? = some a) (jobs : List Job) (v w : Waiter) :
    (awaiting (entries.modify e fun a => { a with waiters := a.waiters ++ [w] }) jobs).count v
      = (awaiting entries jobs).count v + [w].count v := by
  have := count_flatMap_modify (·.waiters) (fun a => { a with waiters := a.waiters ++ [w] }) h v
  simp only [awaiting, List.count_append] at this ⊢
  omega

/-- What one entry's waiters are among all who wait. -/
theorem count_awaiting_dismiss {entries : List Entry} {e : EntryId} {a : Entry}
    (h : entries[e]? = some a) {f : Entry → Entry} (hf : (f a).waiters = []) (jobs : List Job)
    (w : Waiter) :
    (awaiting (entries.modify e f) jobs).count w + a.waiters.count w
      = (awaiting entries jobs).count w := by
  have := count_flatMap_modify (·.waiters) f h w
  simp only [awaiting, List.count_append, hf, List.count_nil] at this ⊢
  omega

/-! ### Ties to ancestors -/

/-- Has the entry named an ancestor of which it has not learned yet? -/
def Entry.awaitsAncestor (entry : Entry) : Bool :=
  entry.isLoading && entry.parent?.isSome && entry.ancestor?.isNone

/-- Does the entry of this number await its ancestor? -/
def awaitsAncestor (entries : List Entry) (e : EntryId) : Bool :=
  entries[e]?.any Entry.awaitsAncestor

/-- An entry that awaits its ancestor waits for it once, and no other entry does. -/
def Ties (inHand : List Waiter) (entries : List Entry) (jobs : List Job) : Prop :=
  ∀ e : EntryId, (awaiting entries jobs).count (.descendant e) + inHand.count (.descendant e)
    = (awaitsAncestor entries e).toNat

theorem awaitsAncestor_of_getElem? {entries : List Entry} {e : EntryId} {entry : Entry}
    (h : entries[e]? = some entry) : awaitsAncestor entries e = entry.awaitsAncestor := by
  simp [awaitsAncestor, h]

theorem awaitsAncestor_modify_of_ne (entries : List Entry) (f : Entry → Entry) {e x : EntryId}
    (h : e ≠ x) : awaitsAncestor (entries.modify e f) x = awaitsAncestor entries x := by
  simp [awaitsAncestor, List.getElem?_modify_ne _ _ h]

theorem awaitsAncestor_modify_self {entries : List Entry} {e : EntryId} {entry : Entry}
    (h : entries[e]? = some entry) (f : Entry → Entry) :
    awaitsAncestor (entries.modify e f) e = (f entry).awaitsAncestor := by
  simp [awaitsAncestor, h]

theorem awaitsAncestor_modify (entries : List Entry) {f : Entry → Entry}
    (hf : ∀ a, (f a).awaitsAncestor = a.awaitsAncestor) (e x : EntryId) :
    awaitsAncestor (entries.modify e f) x = awaitsAncestor entries x := by
  by_cases hex : e = x
  · subst hex
    cases he : entries[e]? with
    | none => simp [awaitsAncestor, he]
    | some a => rw [awaitsAncestor_modify_self he, hf, awaitsAncestor_of_getElem? he]
  · exact awaitsAncestor_modify_of_ne entries f hex

/-- What an entry that awaits its ancestor looks like. -/
theorem entry_of_awaitsAncestor {entries : List Entry} {e : EntryId}
    (h : awaitsAncestor entries e = true) :
    ∃ entry p, entries[e]? = some entry ∧ entry.isLoading = true ∧ entry.parent? = some p ∧
      entry.ancestor? = none := by
  cases he : entries[e]? with
  | none => simp [awaitsAncestor, he] at h
  | some entry =>
    rw [awaitsAncestor_of_getElem? he] at h
    simp only [Entry.awaitsAncestor, Bool.and_eq_true, Option.isNone_iff_eq_none] at h
    obtain ⟨p, hp⟩ := Option.isSome_iff_exists.1 h.1.2
    exact ⟨entry, p, rfl, h.1.1, hp, h.2⟩

namespace Ties

variable {inHand inHand' : List Waiter} {entries entries' : List Entry} {jobs jobs' : List Job}

theorem nil : Ties [] [] [] := by
  intro e
  simp [awaiting, awaitsAncestor]

/-- Waiters change their places, and no entry its ancestor. -/
theorem congr (h : Ties inHand entries jobs)
    (hcount : ∀ e, (awaiting entries' jobs').count (.descendant e) + inHand'.count (.descendant e)
      = (awaiting entries jobs).count (.descendant e) + inHand.count (.descendant e))
    (hawaits : ∀ e, awaitsAncestor entries' e = awaitsAncestor entries e) :
    Ties inHand' entries' jobs' := by
  intro e
  rw [hcount, hawaits]
  exact h e

/-- A change of an entry that is not seen from outside. -/
theorem change (h : Ties inHand entries jobs) (e : EntryId) {f : Entry → Entry}
    (hwaiters : ∀ a, (f a).waiters = a.waiters)
    (hawaits : ∀ a, (f a).awaitsAncestor = a.awaitsAncestor) :
    Ties inHand (entries.modify e f) jobs :=
  h.congr (fun x => by rw [awaiting_modify hwaiters]) fun x => awaitsAncestor_modify _ hawaits e x

/-- An entry begins or ceases to await its ancestor. -/
theorem modify {e : EntryId} {a : Entry} {f : Entry → Entry} (h : Ties inHand entries jobs)
    (he : entries[e]? = some a)
    (hcount : ∀ x, (awaiting (entries.modify e f) jobs').count (.descendant x)
      = (awaiting entries jobs).count (.descendant x))
    (hself : inHand'.count (.descendant e) + a.awaitsAncestor.toNat
      = inHand.count (.descendant e) + (f a).awaitsAncestor.toNat)
    (hother : ∀ x, x ≠ e → inHand'.count (.descendant x) = inHand.count (.descendant x)) :
    Ties inHand' (entries.modify e f) jobs' := by
  intro x
  have hx := h x
  rw [hcount]
  by_cases hex : e = x
  · -- What the entry begins or ceases to await is what the running job lays down or takes up.
    subst hex
    rw [awaitsAncestor_modify_self he]
    rw [awaitsAncestor_of_getElem? he] at hx
    omega
  · rw [awaitsAncestor_modify_of_ne _ _ hex, hother x (Ne.symm hex)]
    exact hx

/-- A descendant that is about to learn of its ancestor awaits it. -/
theorem awaits_of_inHand {e : EntryId} (h : Ties (.descendant e :: inHand) entries jobs) :
    awaitsAncestor entries e = true := by
  -- The waiter in hand is counted, so there is a tie.
  have hx := h e
  simp only [List.count_cons_self] at hx
  cases ha : awaitsAncestor entries e
  · simp [ha] at hx
  · rfl

/-- A descendant among those who wait awaits its ancestor. -/
theorem awaits_of_awaiting {e : EntryId} (h : Ties inHand entries jobs)
    (hmem : .descendant e ∈ awaiting entries jobs) : awaitsAncestor entries e = true := by
  have hx := h e
  have hpos := List.count_pos_iff.2 hmem
  cases ha : awaitsAncestor entries e
  · simp [ha] at hx
    omega
  · rfl

/-- A descendant in an entry's list of waiters awaits its ancestor. -/
theorem awaits_of_mem {e f : EntryId} {entry : Entry} (h : Ties inHand entries jobs)
    (hf : entries[f]? = some entry) (hmem : .descendant e ∈ entry.waiters) :
    awaitsAncestor entries e = true := by
  apply h.awaits_of_awaiting
  apply List.mem_append_left
  exact List.mem_flatMap.2 ⟨entry, List.mem_of_getElem? hf, hmem⟩

/-- A descendant that a queued job will tell of its ancestor awaits it. -/
theorem awaits_of_link {e : EntryId} {outcome : Outcome} (h : Ties inHand entries jobs)
    (hjob : .link e outcome ∈ jobs) : awaitsAncestor entries e = true := by
  apply h.awaits_of_awaiting
  apply List.mem_append_right
  exact List.mem_filterMap.2 ⟨_, hjob, rfl⟩

end Ties

/-! ### Requests -/

/-- The request that a job starts, or leads through its gate. -/
def Job.request? : Job → Option RequestId
  | .start r | .dismiss r | .pass r => some r
  | _ => none

/-- In how many places a request is. -/
def places (r : RequestId) (inHand : List Waiter) (entries : List Entry) (jobs : List Job)
    (gates : List Gate) (answers : List (RequestId × Outcome)) : Nat :=
  (awaiting entries jobs).count (.request r) + inHand.count (.request r)
    + (jobs.filterMap Job.request?).count r + (gates.flatMap (·.waiters)).count r
    + (answers.map (·.1)).count r

/-- A request that was not cancelled is in one place. -/
def Requests (cancelled : List RequestId) (inHand : List Waiter) (requests : List Target)
    (entries : List Entry) (jobs : List Job) (gates : List Gate)
    (answers : List (RequestId × Outcome)) : Prop :=
  ∀ r, r ∉ cancelled →
    places r inHand entries jobs gates answers = if r < requests.length then 1 else 0

/-- Requests change their places. -/
theorem Requests.congr {cancelled cancelled' : List RequestId} {inHand inHand' : List Waiter}
    {requests : List Target} {entries entries' : List Entry} {jobs jobs' : List Job}
    {gates gates' : List Gate} {answers answers' : List (RequestId × Outcome)}
    (h : Requests cancelled inHand requests entries jobs gates answers)
    (hcancelled : ∀ r, r ∈ cancelled → r ∈ cancelled')
    (hplaces : ∀ r, r ∉ cancelled' → places r inHand' entries' jobs' gates' answers'
      = places r inHand entries jobs gates answers) :
    Requests cancelled' inHand' requests entries' jobs' gates' answers' := by
  intro r hr
  rw [hplaces r hr]
  exact h r fun hmem => hr (hcancelled r hmem)

end TextTemplate.Catalog
