import TextTemplate.Proofs.Catalog.Requesting

/-! # The invariant holds in every run

  Each job leaves the catalog sound that it has found so with itself in hand,
  and each action, a turn of the queue among them, keeps the catalog sound.  So
  the invariant holds after every list of actions that the terms allow.
-/

namespace TextTemplate.Catalog

/-! ### Jobs -/

namespace Sound

variable {t : Terms} {cancelled : List RequestId} {c : Catalog}

/-- A request that has ended, or was never made, may get lost. -/
theorem drop {r : RequestId} (h : Sound t cancelled { waiters := [.request r] } c)
    (hr : r ∈ cancelled ∨ c.requests[r]? = none) : Sound t cancelled {} c := by
  refine { h with
    ties := h.ties.congr (fun e => ?_) fun e => rfl
    requests := fun x hx => ?_ }
  · have hnone : [Waiter.request r].count (.descendant e) = 0 := by simp
    rw [hnone]
    rfl
  · have hold := h.requests x hx
    unfold places at hold ⊢
    by_cases hxr : x = r
    · -- Of a request that was not cancelled, only one that was never made can be in hand.
      subst hxr
      have hlen := List.getElem?_eq_none_iff.1 (hr.resolve_left hx)
      rw [List.count_singleton_self, if_neg (Nat.not_lt_of_ge hlen)] at hold
      omega
    · have hnone : [Waiter.request r].count (.request x) = 0 := by simp [Ne.symm hxr]
      rw [hnone] at hold
      exact hold

/-- A request waits in front of a closed gate. -/
theorem waitAtGate {r : RequestId} {g : GateId} {gate : Gate}
    (h : Sound t cancelled { waiters := [.request r] } c) (hg : c.gates[g]? = some gate)
    (hr : c.requests[r]? = some (.gate g)) (hclosed : gate.released = false) :
    Sound t cancelled {}
      { c with gates := c.gates.set g { gate with waiters := gate.waiters ++ [r] } } := by
  let queued : Gate := { gate with waiters := gate.waiters ++ [r] }
  have hextended : Extended c { c with gates := c.gates.set g queued } := .of_gate hg rfl
  have hbars : ∀ e, barriers (c.gates.set g queued) e = barriers c.gates e := by
    intro e
    have := barriers_set hg queued e
    rw [show queued.bars e = gate.bars e from rfl] at this
    omega
  refine { h with
    gates := h.gates.set hg rfl (fun hopen => ?_) (fun x hx => ?_) fun _ => .inl
    ticks := h.ticks.change_gates fun e => congrArg (· + _) (hbars e)
    settled := h.settled.change_gates fun e _ _ _ => Nat.le_of_eq (hbars e)
    ties := h.ties.congr (fun e => ?_) fun e => rfl
    requests := h.requests.congr (fun _ => id) fun x _ => ?_
    faithful := h.faithful.mono (fun _ => id) fun _ _ => hextended.awaitedName? }
  · rw [show gate.released = true from hopen] at hclosed
    cases hclosed
  · rcases mem_or_eq_of_mem_concat hx with hx | rfl
    · exact h.gates.waiting gate (List.mem_of_getElem? hg) x hx
    · exact ⟨g, hr⟩
  · have hnone : [Waiter.request r].count (.descendant e) = 0 := by simp
    rw [hnone]
    rfl
  · have hset := count_flatMap_modify (·.waiters) (fun _ => queued) hg x
    rw [← set_eq_modify] at hset
    have hcount : queued.waiters.count x = gate.waiters.count x + [r].count x :=
      List.count_append
    have hhand : [Waiter.request r].count (.request x) = [r].count x := by
      simp [List.count_cons]
    unfold places
    rw [hhand]
    show (awaiting c.entries c.jobs).count (.request x) + 0
      + (c.jobs.filterMap Job.request?).count x
      + ((c.gates.set g queued).flatMap (·.waiters)).count x + (c.answers.map (·.1)).count x = _
    omega

/-- A request that comes through its gate finds the gate's entry. -/
theorem awaitGate {r : RequestId} {g : GateId} {gate : Gate}
    (h : Sound t cancelled { waiters := [.request r] } c) (hg : c.gates[g]? = some gate)
    (hr : c.requests[r]? = some (.gate g)) : Sound t cancelled {} (c.await r gate.entry) := by
  have hlt := h.gates.entry_lt gate (List.mem_of_getElem? hg)
  have ha : c.entries[gate.entry]? = some c.entries[gate.entry] := List.getElem?_eq_getElem hlt
  refine await h ha ?_
  rw [requestName?, hr, Option.bind_some, targetName?, hg, Option.bind_some, ha, Option.map_some]

/-- A request begins. -/
theorem start {r : RequestId} {store : String → Reply}
    (h : Sound t cancelled { waiters := [.request r] } c) :
    Sound t cancelled {} ((c.perform (.start r)).resolve store) := by
  unfold perform
  cases hr : c.requests[r]? with
  | none =>
    simp only [hr]
    exact h.drop (.inr hr)
  | some target =>
    cases target with
    | template name =>
      simp only [hr]
      have hensured := h.ensure List.not_mem_nil name
      obtain ⟨a, ha, hname⟩ := ensure_entry c name
      have hrequests := (ensure_requests c name).1
      refine hensured.await ha ?_
      rw [requestName?, hrequests, hr, Option.bind_some, targetName?, hname]
    | gate g =>
      cases hg : c.gates[g]? with
      | none =>
        -- A gate is asked for only when it is there.
        have hlt := h.gates.target_lt r g hr
        exact absurd hlt (Nat.not_lt_of_ge (List.getElem?_eq_none_iff.1 hg))
      | some gate =>
        simp only [hr, hg]
        by_cases hreleased : gate.released = true
        · rw [if_pos hreleased]
          exact h.awaitGate hg hr
        · rw [if_neg hreleased]
          exact h.waitAtGate hg hr (by simpa using hreleased)

/-- A job runs, on a store that keeps to the terms. -/
theorem perform {job : Job} {store : String → Reply} (h : Sound t cancelled (Hand.take {} job) c)
    (hjob : FaithfulJob t cancelled c.awaitedName? c.entries c.loads job)
    (hpass : ∀ r, job = .pass r → ∃ g, c.requests[r]? = some (.gate g))
    (htimed : c.limit? = none → ∀ e, job ≠ .resume e ∧ job ≠ .interrupt e)
    (hstore : ∀ name, t.fetched name (store name).fetched) :
    Sound t cancelled {} ((c.perform job).resolve store) := by
  have hname : ∀ (e : EntryId) (a : Entry), c.entries[e]? = some a →
      a.name = c.entries[e]?.elim "" (·.name) := by
    intro e a ha
    rw [ha, Option.elim_some]
  cases job with
  | start r => exact start h
  | dismiss r => exact drop h (.inl hjob)
  | pass r =>
    obtain ⟨g, hr⟩ := hpass r rfl
    have hlt := h.gates.target_lt r g hr
    have hg : c.gates[g]? = some c.gates[g] := List.getElem?_eq_getElem hlt
    unfold Catalog.perform
    simp only [hr, hg, Option.elim_some]
    exact awaitGate h hg hr
  | answer r outcome => exact finish h hjob
  | link e outcome => exact link h hjob
  | load e => exact startLoad h hstore
  | skip e => exact skip h hjob
  | fetch e => exact startFetch h (hname e) hstore
  | read e =>
    refine receive h fun a ha => ?_
    rw [hname e a ha]
    exact hstore _
  | drop e => exact endFetch h fun a _ => h.closed.brokenOff hjob a.name
  | report e => exact wake h hjob.1 (.inr hjob.2)
  | expire e => exact expire h e hjob
  | resume e => exact resumeLoad h (fun hnone => (htimed hnone e).1 rfl) hjob.2
  | interrupt e => exact interruptLoad h (fun hnone => (htimed hnone e).2 rfl) hjob

/-! ### Actions -/

/-- The first job runs. -/
theorem turn {store : String → Reply} (h : Sound t cancelled {} c)
    (hstore : ∀ name, t.fetched name (store name).fetched) :
    Sound t cancelled {} (c.turn?.elim c (·.resolve store)) := by
  unfold turn?
  cases hjobs : c.jobs with
  | nil => exact h
  | cons job rest =>
    have hmem : job ∈ c.jobs := hjobs ▸ List.mem_cons_self
    refine (h.pop hjobs).perform (h.faithful.job job hmem) (fun r heq => ?_)
      (fun hnone e => ⟨fun heq => ?_, fun heq => ?_⟩) hstore
    · exact h.gates.passing r (heq ▸ hmem)
    · exact ((h.stirs.unlimited hnone).2 e).1 (heq ▸ hmem)
    · exact ((h.stirs.unlimited hnone).2 e).2 (heq ▸ hmem)

end Sound

/-- The request that an action cancels. -/
def Action.cancelled? : Action → Option RequestId
  | .cancel r => some r
  | _ => none

/-- The requests that a list of actions cancels. -/
def cancelledBy (actions : List Action) : List RequestId := actions.filterMap Action.cancelled?

theorem mem_cancelledBy {actions : List Action} {r : RequestId} :
    r ∈ cancelledBy actions ↔ .cancel r ∈ actions := by
  unfold cancelledBy
  rw [List.mem_filterMap]
  constructor
  · rintro ⟨a, ha, hr⟩
    cases a with
    | cancel x =>
      obtain rfl := Option.some.inj hr
      exact ha
    | _ => cases hr
  · intro h
    exact ⟨.cancel r, h, rfl⟩

namespace Sound

variable {t : Terms} {cancelled : List RequestId} {c : Catalog}

/-- An action on the terms keeps the catalog sound. -/
theorem step (h : Sound t cancelled {} c) (a : Action) (ha : t.Permits c a) :
    Sound t (cancelledBy [a] ++ cancelled) {} (c.step a) := by
  cases a with
  | request target =>
    show Sound t cancelled {} (if c.offers target then (c.request target).2 else c)
    split
    · next htarget => exact h.request htarget
    · exact h
  | gate name => exact h.gate name
  | release g => exact h.release g
  | evict name => exact h.evict name
  | clear => exact h.clear
  | cancel r => exact h.cancel r
  | cancelLoads name => exact h.cancelLoads name ha
  | cancelWaiters name => exact h.cancelWaiters name ha
  | hold name => exact { h with }
  | unhold name => exact h.unhold name
  | advance nanoseconds => exact { h with }
  | ring => exact h.ring ha
  | turn store => exact h.turn ha

/-- Which requests count as cancelled is a matter of their set. -/
theorem mono {cancelled' : List RequestId} {hand : Hand} (h : Sound t cancelled hand c)
    (hcancelled : ∀ r ∈ cancelled, r ∈ cancelled') : Sound t cancelled' hand c :=
  { h with
    requests := h.requests.congr hcancelled fun _ _ => rfl
    faithful := h.faithful.mono hcancelled fun _ _ => id }

/-- A run whose actions keep to the terms, each in the catalog that it meets, keeps the catalog
    sound. -/
theorem after_of_permits (h : Sound t cancelled {} c) {actions : List Action}
    (hactions : ∀ before a later, actions = before ++ a :: later → t.Permits (c.after before) a) :
    Sound t (cancelledBy actions ++ cancelled) {} (c.after actions) := by
  induction actions generalizing c cancelled with
  | nil => exact h
  | cons a rest ih =>
    have hstep := h.step a (hactions [] a rest rfl)
    refine (ih hstep fun before x later heq => ?_).mono fun r hr => ?_
    · exact hactions (a :: before) x later (congrArg (a :: ·) heq)
    rw [← List.append_assoc] at hr
    refine List.mem_append.2 ((List.mem_append.1 hr).imp_left fun hr => ?_)
    rw [mem_cancelledBy]
    rcases List.mem_append.1 hr with hr | hr
    · exact List.mem_cons_of_mem _ (mem_cancelledBy.1 hr)
    · rw [List.mem_singleton.1 (mem_cancelledBy.1 hr)]
      exact List.mem_cons_self

/-- A run on the terms keeps the catalog sound. -/
theorem after (h : Sound t cancelled {} c) {actions : List Action}
    (hactions : ∀ a ∈ actions, t.Allows a) :
    Sound t (cancelledBy actions ++ cancelled) {} (c.after actions) := by
  refine h.after_of_permits fun before a later heq => ?_
  have hmem : a ∈ actions := heq ▸ List.mem_append_right _ List.mem_cons_self
  exact (hactions a hmem).permits _

end Sound

/-- The invariant holds after every list of actions that the terms allow. -/
theorem sound_after {t : Terms} {rules : Markup.Rules} {limit? : Option TimeLimit}
    (hclosed : t.Closed rules limit?) {actions : List Action}
    (hactions : ∀ a ∈ actions, t.Allows a) :
    Sound t (cancelledBy actions) {} ((empty rules limit?).after actions) := by
  have h := (Sound.empty hclosed).after hactions
  rwa [List.append_nil] at h

end TextTemplate.Catalog
