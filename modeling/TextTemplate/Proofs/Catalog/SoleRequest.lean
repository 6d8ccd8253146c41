import TextTemplate.Proofs.Catalog.BrokenLine

/-! # A request on its own

  Working off the queue makes no new requests: each function of the catalog leaves
  them as they are, and so does each job (`requests_perform`).  So in a catalog of
  which one template is asked, every answer is about that template.  It is the
  chain of the template's lineage in the store, or the error with which the
  template fails there.
-/

namespace TextTemplate.Catalog

/-! ### Requests stay -/

section Requests

variable (c : Catalog) (e : EntryId)

@[simp] theorem requests_note (events : List Event) : (c.note events).requests = c.requests := rfl

@[simp] theorem requests_enqueue (jobs : List Job) : (c.enqueue jobs).requests = c.requests := rfl

@[simp] theorem requests_modifyEntry (f : Entry → Entry) :
    (c.modifyEntry e f).requests = c.requests := rfl

@[simp] theorem requests_modifyLoad (f : Load → Load) :
    (c.modifyLoad e f).requests = c.requests := rfl

@[simp] theorem requests_settle (entry : Entry) (status : Status) (outcome : Outcome) :
    (c.settle e entry status outcome).requests = c.requests := rfl

@[simp] theorem requests_endLoad : (c.endLoad e).requests = c.requests := rfl

@[simp] theorem requests_finish (r : RequestId) (outcome : Outcome) :
    (c.finish r outcome).requests = c.requests := rfl

@[simp] theorem requests_addWaiter (w : Waiter) : (c.addWaiter e w).requests = c.requests := rfl

@[simp] theorem requests_ensure (name : String) : (c.ensure name).2.requests = c.requests :=
  (ensure_requests c name).1

@[simp] theorem requests_fail (error : LoadError) : (c.fail e error).requests = c.requests := by
  unfold fail
  split
  · rfl
  · split <;> rfl

@[simp] theorem requests_countDown : (c.countDown e).requests = c.requests := by
  unfold countDown
  split
  · rfl
  · split
    · rfl
    · split
      · rfl
      · split <;> rfl

@[simp] theorem requests_await (r : RequestId) : (c.await r e).requests = c.requests := by
  unfold await
  split <;> rfl

@[simp] theorem requests_requestAncestor (name ancestor : String) :
    (c.requestAncestor e name ancestor).requests = c.requests := by
  unfold requestAncestor
  split
  · simp
  · dsimp only
    split <;> simp

@[simp] theorem requests_link (outcome : Outcome) : (c.link e outcome).requests = c.requests := by
  unfold link
  cases outcome with
  | ready chain =>
    dsimp only
    split <;> simp
  | failed error | cancelled => simp

@[simp] theorem requests_readText (name text : String) :
    (c.readText e name text).requests = c.requests := by
  unfold readText
  dsimp only
  split
  · simp
  · split <;> simp

@[simp] theorem requests_conclude (fetched : Fetched) :
    (c.conclude e fetched).requests = c.requests := by
  unfold conclude
  dsimp only
  split
  · simp
  · split <;> simp

@[simp] theorem requests_giveUp (error : LoadError) : (c.giveUp e error).requests = c.requests := by
  simp [giveUp]

@[simp] theorem requests_endFetch (fetched : Fetched) :
    (c.endFetch e fetched).requests = c.requests := by
  unfold endFetch
  split <;> simp

@[simp] theorem requests_callOff : (c.callOff e).requests = c.requests := by
  unfold callOff
  split <;> rfl

@[simp] theorem requests_abandon (error : LoadError) :
    (c.abandon e error).requests = c.requests := by
  simp [abandon]

@[simp] theorem requests_wake : (c.wake e).requests = c.requests := by
  unfold wake
  split
  · rfl
  · split <;> rfl

variable (store : String → Reply)

@[simp] theorem requests_startFetch (name : String) :
    ((c.startFetch e name).resolve store).requests = c.requests := by
  unfold startFetch
  split
  · rfl
  · simp [askStore, Turn.resolve, receive]

@[simp] theorem requests_startLoad : ((c.startLoad e).resolve store).requests = c.requests := by
  unfold startLoad
  dsimp only
  split
  · simp
  · split <;> simp [Turn.resolve]

/-- A job leaves the requests as they are. -/
theorem requests_perform (job : Job) : ((c.perform job).resolve store).requests = c.requests := by
  cases job with
  | load e => exact requests_startLoad c e store
  | fetch e => exact requests_startFetch c e store _
  | start r =>
    unfold perform
    dsimp only
    split
    · rfl
    · simp [Turn.resolve]
    · split
      · rfl
      · split <;> simp [Turn.resolve]
  | pass r =>
    unfold perform
    dsimp only
    split
    · next g _ => cases hg : c.gates[g]? <;> simp [Turn.resolve]
    · rfl
  | resume e =>
    simp only [perform, Turn.resolve, resumeLoad]
    split
    · rfl
    · split <;> simp
  | interrupt e =>
    simp only [perform, Turn.resolve, interruptLoad]
    split
    · rfl
    · split <;> simp
  | expire e =>
    simp only [perform, Turn.resolve, expire]
    split <;> simp
  | _ => simp [perform, Turn.resolve, askStore, receive]

end Requests

/-! ### One request -/

section

variable {rules : Markup.Rules} {limit? : Option TimeLimit} {store : String → Reply}

theorem requests_turn (c : Catalog) : (c.step (.turn store)).requests = c.requests := by
  unfold step turn?
  cases c.jobs with
  | nil => rfl
  | cons job rest => exact requests_perform _ store job

theorem requests_turns (c : Catalog) (n : Nat) :
    (c.after (List.replicate n (.turn store))).requests = c.requests := by
  induction n generalizing c with
  | zero => rfl
  | succ n ih =>
    show ((c.step (.turn store)).after (List.replicate n (.turn store))).requests = _
    rw [ih, requests_turn]

/-- Is the outcome one for a name, in a store that stays as it is? -/
def Outcome.Settles (rules : Markup.Rules) (limit? : Option TimeLimit) (store : String → Fetched)
    (name : String) : Outcome → Prop
  | .ready chain => Lineage rules store name chain.layers
  | .failed error => FailsWith rules limit? store name error
  | .cancelled => False

/-- If a new catalog is asked for one template, and the queue is worked off, the answer is the
    chain of its lineage or the error with which it fails. -/
theorem settles_of_run (hlimit : ∀ limit, limit? = some limit → limit.patience ≠ .none)
    {name : String} {jobs : Nat} {r : RequestId} {outcome : Outcome}
    (h : (r, outcome) ∈ (Id.run (((empty rules limit?).request (.template name)).2.run
      (fun other => pure (store other)) jobs)).answers) :
    outcome.Settles rules limit? (fun other => (store other).fetched) name := by
  obtain ⟨n, hrun⟩ := run_eq_after store jobs ((empty rules limit?).request (.template name)).2
  rw [hrun] at h
  have hafter : ((empty rules limit?).request (.template name)).2.after
      (List.replicate n (.turn store))
      = (empty rules limit?).after (.request (.template name) :: List.replicate n (.turn store)) :=
    rfl
  -- A store that stays as it is answers every turn as the terms want it.
  have hallowed : ∀ a ∈ Action.request (.template name) :: List.replicate n (.turn store),
      (Terms.ofErrors rules limit? fun other => (store other).fetched).Allows a := by
    intro a ha
    rcases List.mem_cons.1 ha with rfl | ha
    · trivial
    · obtain rfl := List.eq_of_mem_replicate ha
      exact fun _ => rfl
  have hsound := sound_after (Terms.closed_ofErrors hlimit) hallowed
  rw [← hafter] at hsound
  obtain ⟨other, hother, hgives⟩ := hsound.faithful.answer _ h
  -- The only request is the first one.
  have hname : other = name := by
    obtain ⟨target, htarget, hnamed⟩ := Option.bind_eq_some_iff.1 hother
    rw [requests_turns] at htarget
    have honly : target = .template name := by
      have hmem : target ∈ [Target.template name] := List.mem_of_getElem? htarget
      exact List.mem_singleton.1 hmem
    rw [honly] at hnamed
    exact (Option.some.inj hnamed).symm
  rw [hname] at hgives
  cases outcome with
  | ready chain => exact hgives
  | failed error => exact hgives
  | cancelled =>
    -- No action of this run cancels anything.
    rcases hgives with hcancelled | hsent
    · rw [mem_cancelledBy] at hcancelled
      rcases List.mem_cons.1 hcancelled with heq | hmem
      · cases heq
      · cases List.eq_of_mem_replicate hmem
    · exact hsent

end

end TextTemplate.Catalog
