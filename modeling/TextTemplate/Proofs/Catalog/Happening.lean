import TextTemplate.Proofs.Catalog.Changes

/-! # What happens in an action

  Most actions and most jobs are made of changes.  What is left is little: settled
  entries are removed, requests are cancelled or sent away, and a request gets
  the answer that was queued for it.  `Happens` lists all of this, so that what
  holds of every action is proved by its cases.
-/

namespace TextTemplate.Catalog

open Relation

/-! ### Actions made of changes -/

/-- Does the action remove entries, cancel those who wait, or run a job? -/
def Action.isSpecial : Action → Bool
  | .evict _ | .clear | .cancel _ | .cancelWaiters _ | .turn _ => true
  | _ => false

/-- All other actions are made of changes. -/
theorem Changes.step (c : Catalog) {a : Action} (ha : a.isSpecial = false) :
    Changes none c (c.step a) := by
  cases a with
  | request target =>
    show Changes none c (if c.offers target then (c.request target).2 else c)
    split
    · exact request c target
    · exact .refl
  | gate name => exact takeGate c name
  | release g => exact release c g
  | cancelLoads name => exact cancelLoads c name
  | hold name => exact idle rfl rfl rfl rfl rfl rfl rfl
  | unhold name => exact unhold c name
  | advance nanoseconds => exact idle rfl rfl rfl rfl rfl rfl rfl
  | ring => exact ring c
  | _ => cases ha

/-! ### Jobs -/

/-- What a job reports of the load that it begins. -/
def begun (c : Catalog) : Job → List Event
  | .load e => [.fetching (c.entries[e]?.elim "" (·.name))]
  | _ => []

namespace Turn

/-- What a turn reports of the store's reply, if it asks for one. -/
def asked (store : String → Reply) : Turn → List Event
  | .done _ => []
  | .asks name _ => [.asked name (store name).source?]

/-- The errand that may be queued anew by a turn that has had it in hand.  Once the store has been
    asked, it is done. -/
def left (errand? : Option EntryId) : Turn → Option EntryId
  | .done _ => errand?
  | .asks _ _ => none

end Turn

namespace Sound

variable {t : Terms} {cancelled : List RequestId} {hand : Hand} {own : Option EntryId} {c : Catalog}

/-- Without a time limit, the entry of a fetch has not been read. -/
theorem unread_of_errand (h : Sound t cancelled hand c) {e : EntryId} (he : e ∈ hand.errands)
    (hlimit : c.limit? = none) : ∃ a, c.entries[e]? = some a ∧ a.document? = none := by
  have herrand : e ∈ errands hand.errands c.jobs c.postponed := List.mem_append_left _ he
  obtain ⟨load, hload, rfl⟩ := (h.loads.unlimited hlimit).1 e herrand
  obtain ⟨a, ha, -, hdocument⟩ := h.loads.unread load hload
  exact ⟨a, ha, hdocument⟩

/-- The entry of a load that has not ended has not been read. -/
theorem unread_of_load? (h : Sound t cancelled hand c) {e : EntryId} {load : Load}
    (hload : c.load? e = some load) : ∃ a, c.entries[e]? = some a ∧ a.document? = none := by
  obtain ⟨hmem, rfl⟩ := mem_of_load? hload
  obtain ⟨a, ha, -, hdocument⟩ := h.loads.unread load hmem
  exact ⟨a, ha, hdocument⟩

theorem changes_receive (h : Sound t cancelled hand c) {e : EntryId} (he : e ∈ hand.errands)
    (name : String) (reply : Reply) :
    Changes own (c.note [.asked name reply.source?]) (c.receive e name reply) :=
  Changes.endFetch (c := c.note [.asked name reply.source?]) (h.unread_of_errand he) reply.fetched

/-- A fetch that the store holds back is postponed, and the store's reply ends any other. -/
theorem changes_startFetch (h : Sound t cancelled hand c) {e : EntryId} (he : e ∈ hand.errands)
    (name : String) (store : String → Reply) :
    Changes ((c.startFetch e name).left (some e)) (c.note ((c.startFetch e name).asked store))
      ((c.startFetch e name).resolve store) := by
  unfold Catalog.startFetch
  split
  · have hsame : ({ c with postponed := c.postponed ++ [e] } : Catalog)
        = { c.note [] with jobs := c.jobs ++ [], postponed := c.postponed ++ [e] } := by
      simp [Catalog.note]
    show Changes (some e) (c.note []) { c with postponed := c.postponed ++ [e] }
    rw [hsame]
    refine .single (.aside (.postpone [] (by simp) fun x hx => ?_))
    rcases mem_or_eq_of_mem_concat hx with hx | rfl
    · exact .inl hx
    · exact .inr rfl
  · exact h.changes_receive he name (store name)

theorem changes_startLoad (h : Sound t cancelled hand c) {e : EntryId} (he : e ∈ hand.errands)
    (store : String → Reply) :
    Changes ((c.startLoad e).left (some e))
      (c.note (c.begun (.load e) ++ (c.startLoad e).asked store))
      ((c.startLoad e).resolve store) := by
  have hnote : c.note (c.begun (.load e) ++ (c.startLoad e).asked store)
      = (c.note (c.begun (.load e))).note ((c.startLoad e).asked store) := by
    simp [Catalog.note]
  rw [hnote]
  have hbegun : Sound t cancelled hand (c.note (c.begun (.load e))) := h.note _
  unfold Catalog.startLoad
  dsimp only
  have hfetch (c : Catalog) : Changes (some e) c (c.enqueue [.fetch e]) :=
    Changes.enqueue (by simp [Job.isAside, Job.errand?])
  have hsleep (c : Catalog) :
      Changes (some e) c (c.modifyLoad e fun load => { load with asleep := true }) :=
    Changes.modifyLoad c e _
  split
  · exact hbegun.changes_startFetch he _ store
  · -- With a time limit the store is asked by a job of its own.
    have hquiet (c : Catalog) : Changes (some e) (c.note []) c :=
      Changes.idle rfl rfl rfl rfl rfl rfl (List.append_nil _).symm
    split
    · exact (hquiet _).trans ((hfetch _).trans (Changes.abandon _ e _))
    · refine (hquiet _).trans (ReflTransGen.trans ?_ ((hfetch _).trans (hsleep _)))
      exact Changes.idle rfl rfl rfl rfl rfl rfl rfl
    · exact (hquiet _).trans ((hfetch _).trans (hsleep _))

theorem changes_resumeLoad (h : Sound t cancelled hand c) (e : EntryId) :
    Changes own c (c.resumeLoad e) := by
  unfold Catalog.resumeLoad
  split
  · exact .refl
  · next load hload =>
    obtain ⟨a, ha, hdocument⟩ := h.unread_of_load? hload
    split
    · exact .giveUp c e _
    · exact .conclude ha hdocument _
    · exact .abandon c e _

theorem changes_interruptLoad (h : Sound t cancelled hand c) (e : EntryId) :
    Changes own c (c.interruptLoad e) := by
  unfold Catalog.interruptLoad
  split
  · exact .refl
  · next load hload =>
    obtain ⟨a, ha, hdocument⟩ := h.unread_of_load? hload
    split
    · exact .giveUp c e _
    · exact .conclude ha hdocument _
    · exact .abandon c e _

/-- A request that comes through a gate waits at the gate's entry. -/
theorem changes_awaitGate (h : Sound t cancelled hand c) {r : RequestId} {g : GateId} {gate : Gate}
    (hr : c.requests[r]? = some (.gate g)) (hg : c.gates[g]? = some gate) :
    Changes own c (c.await r gate.entry) := by
  have hlt := h.gates.entry_lt gate (List.mem_of_getElem? hg)
  exact Changes.await (List.getElem?_eq_getElem hlt) (.gate hr hg)

theorem changes_start (h : Sound t cancelled hand c) (r : RequestId) (store : String → Reply) :
    Changes own (c.note ((c.perform (.start r)).asked store))
      ((c.perform (.start r)).resolve store) := by
  have hquiet (c : Catalog) : Changes own (c.note []) c :=
    Changes.idle rfl rfl rfl rfl rfl rfl (List.append_nil _).symm
  unfold Catalog.perform
  cases hr : c.requests[r]? with
  | none =>
    simp only [hr]
    exact hquiet c
  | some target =>
    cases target with
    | template name =>
      simp only [hr]
      obtain ⟨a, ha, -⟩ := ensure_entry c name
      have hasked : (c.ensure name).2.requests[r]? = some (.template name) := by
        rw [(ensure_requests c name).1]
        exact hr
      have hasks := AsksFor.template hasked (find?_ensure c name)
      exact (hquiet c).trans ((Changes.ensure c name).trans (Changes.await ha hasks))
    | gate g =>
      cases hg : c.gates[g]? with
      | none =>
        simp only [hr, hg]
        exact hquiet c
      | some gate =>
        simp only [hr, hg]
        by_cases hreleased : gate.released = true
        · rw [if_pos hreleased]
          exact (hquiet c).trans (h.changes_awaitGate hr hg)
        · rw [if_neg hreleased]
          exact (hquiet c).trans (Changes.setGate hg rfl)

theorem changes_pass (h : Sound t cancelled hand c) (r : RequestId) (store : String → Reply) :
    Changes own (c.note ((c.perform (.pass r)).asked store))
      ((c.perform (.pass r)).resolve store) := by
  have hquiet (c : Catalog) : Changes own (c.note []) c :=
    Changes.idle rfl rfl rfl rfl rfl rfl (List.append_nil _).symm
  unfold Catalog.perform
  dsimp only
  split
  · next g hr =>
    cases hg : c.gates[g]? with
    | none => exact hquiet c
    | some gate => exact (hquiet c).trans (h.changes_awaitGate hr hg)
  · exact hquiet c

/-- A job that brings no answer is made of changes, but for what it reports of its fetch. -/
theorem changes_perform {job : Job} (h : Sound t cancelled (Hand.take {} job) c)
    (hjob : ∀ r outcome, job ≠ .answer r outcome) (store : String → Reply) :
    Changes ((c.perform job).left job.errand?)
      (c.note (c.begun job ++ (c.perform job).asked store)) ((c.perform job).resolve store) := by
  -- Most jobs report nothing of the kind.
  have hquiet : ∀ {own : Option EntryId} {c' : Catalog}, Changes own c c' →
      Changes own (c.note []) c' := by
    intro own c' hc'
    refine ReflTransGen.trans ?_ hc'
    exact Changes.idle rfl rfl rfl rfl rfl rfl (List.append_nil _).symm
  cases job with
  | start r => exact h.changes_start r store
  | dismiss r => exact hquiet .refl
  | pass r => exact h.changes_pass r store
  | answer r outcome => exact absurd rfl (hjob r outcome)
  | link e outcome =>
    apply hquiet
    obtain ⟨a, p, ha, hloading, -, hancestor⟩ := entry_of_awaitsAncestor h.ties.awaits_of_inHand
    exact .link ha hloading hancestor outcome
  | load e => exact h.changes_startLoad List.mem_cons_self store
  | skip e => exact hquiet (.endLoad c e)
  | fetch e => exact h.changes_startFetch List.mem_cons_self _ store
  | read e => exact h.changes_receive List.mem_cons_self _ _
  | drop e => exact hquiet (.endFetch (h.unread_of_errand List.mem_cons_self) _)
  | report e => exact hquiet (.wake c e)
  | expire e => exact hquiet (.expire c e)
  | resume e => exact hquiet (h.changes_resumeLoad e)
  | interrupt e => exact hquiet (h.changes_interruptLoad e)

/-- A turn brings a request its answer, or is made of changes from where its job has been taken from
    the queue and has reported what it does about a fetch. -/
theorem turn_changes (h : Sound t cancelled {} c) (store : String → Reply) :
    (c.jobs = [] ∧ c.step (.turn store) = c) ∨
    (∃ r outcome rest, c.jobs = .answer r outcome :: rest ∧
      c.step (.turn store) = ({ c with jobs := rest } : Catalog).finish r outcome) ∨
    ∃ job rest, c.jobs = job :: rest ∧ (∀ r outcome, job ≠ .answer r outcome) ∧
      Sound t cancelled (Hand.take {} job) { c with jobs := rest } ∧
      c.step (.turn store) = (({ c with jobs := rest } : Catalog).perform job).resolve store ∧
      Changes ((({ c with jobs := rest } : Catalog).perform job).left job.errand?)
        (({ c with jobs := rest } : Catalog).note (({ c with jobs := rest } : Catalog).begun job ++
          (({ c with jobs := rest } : Catalog).perform job).asked store))
        (c.step (.turn store)) := by
  cases hjobs : c.jobs with
  | nil => exact .inl ⟨rfl, by simp [Catalog.step, turn?, hjobs]⟩
  | cons job rest =>
    have hstep : c.step (.turn store)
        = (({ c with jobs := rest } : Catalog).perform job).resolve store := by
      simp [Catalog.step, turn?, hjobs]
    have hpop := h.pop hjobs
    by_cases hanswer : ∃ r outcome, job = .answer r outcome
    · obtain ⟨r, outcome, rfl⟩ := hanswer
      exact .inr (.inl ⟨r, outcome, rest, rfl, hstep⟩)
    · have hother : ∀ r outcome, job ≠ .answer r outcome := by
        intro r outcome heq
        exact hanswer ⟨r, outcome, heq⟩
      refine .inr (.inr ⟨job, rest, rfl, hother, hpop, hstep, ?_⟩)
      rw [hstep]
      exact hpop.changes_perform hother store

end Sound

/-! ### Actions -/

/-- How many entries of a name the action removes. -/
def removed (name : String) (c : Catalog) : Action → Nat
  | .evict other => if other = name ∧ (c.evict other).1 = true then 1 else 0
  | .clear => c.entries.countP fun entry => entry.isRemovable && entry.name == name
  | _ => 0

/-- The entries, of which some are no longer found under their names. -/
def unlist (gone : Entry → Bool) (entries : List Entry) : List Entry :=
  entries.map fun x => if gone x then { x with listed := false } else x

/-- What the action makes of the catalog. -/
inductive Happens (t : Terms) (cancelled : List RequestId) (c : Catalog) : Action → Catalog → Prop
    where
  | changes {a : Action} {c' : Catalog} : (∀ store, a ≠ .turn store) →
      (∀ name, c.removed name a = 0) → Changes none c c' → Happens t cancelled c a c'
  /-- Settled entries are no longer found under their names. -/
  | removal {a : Action} {gone : Entry → Bool} : (∀ store, a ≠ .turn store) →
      (∀ x, gone x = true → x.isRemovable = true) →
      (∀ name, c.removed name a = c.entries.countP fun x => gone x && x.name == name) →
      Happens t cancelled c a { c with entries := unlist gone c.entries }
  /-- A request is cancelled for which a job is queued. -/
  | cancelQueued {r : RequestId} : c.jobs.any (·.isFor r) = true →
      Happens t cancelled c (.cancel r) { c with jobs := c.jobs.map (·.cancelled r) }
  /-- A request is cancelled that waits. -/
  | cancelWaiting {r : RequestId} : c.jobs.any (·.isFor r) = false → c.waits r = true →
      Happens t cancelled c (.cancel r) { c with
        entries := c.entries.map fun entry =>
          { entry with waiters := entry.waiters.filter (· != .request r) }
        gates := c.gates.map fun gate => { gate with waiters := gate.waiters.filter (· != r) }
        jobs := c.jobs ++ [.answer r .cancelled] }
  /-- Those who wait at an entry are sent away. -/
  | sendAway {name : String} {e : EntryId} {x : Entry} : c.find? name = some e →
      c.entries[e]? = some x →
      Happens t cancelled c (.cancelWaiters name)
        ((c.modifyEntry e fun entry => { entry with waiters := [] }).enqueue
          (x.waiters.map (·.job .cancelled)))
  | idle {store : String → Reply} : c.jobs = [] → Happens t cancelled c (.turn store) c
  /-- A request gets its answer. -/
  | answer {store : String → Reply} {r : RequestId} {outcome : Outcome} {rest : List Job} :
      c.jobs = .answer r outcome :: rest →
      Happens t cancelled c (.turn store) (({ c with jobs := rest } : Catalog).finish r outcome)
  /-- Another job is taken from the queue, and reports what it does about a fetch. -/
  | job {store : String → Reply} {job : Job} {rest : List Job} {c' : Catalog} :
      c.jobs = job :: rest → (∀ r outcome, job ≠ .answer r outcome) →
      Sound t cancelled (Hand.take {} job) { c with jobs := rest } →
      c' = (({ c with jobs := rest } : Catalog).perform job).resolve store →
      Changes ((({ c with jobs := rest } : Catalog).perform job).left job.errand?)
        (({ c with jobs := rest } : Catalog).note (({ c with jobs := rest } : Catalog).begun job ++
          (({ c with jobs := rest } : Catalog).perform job).asked store)) c' →
      Happens t cancelled c (.turn store) c'

/-- A property that at most one element has is counted at most once. -/
theorem countP_le_one {α : Type} {p : α → Bool} {l : List α}
    (h : ∀ (i j : Nat) (a b : α), l[i]? = some a → l[j]? = some b → p a = true → p b = true →
      i = j) : l.countP p ≤ 1 := by
  induction l with
  | nil => exact Nat.zero_le _
  | cons x rest ih =>
    have hrest : rest.countP p ≤ 1 := ih fun i j a b ha hb hpa hpb =>
      Nat.succ.inj (h (i + 1) (j + 1) a b (by simpa using ha) (by simpa using hb) hpa hpb)
    by_cases hx : p x = true
    · -- No other element has the property that the first one has.
      have hnone : rest.countP p = 0 := by
        apply List.countP_eq_zero.2
        intro b hb hpb
        obtain ⟨j, hj⟩ := List.getElem?_of_mem hb
        have hzero := h 0 (j + 1) x b rfl (by simpa using hj) hx hpb
        omega
      rw [List.countP_cons_of_pos hx]
      omega
    · rw [List.countP_cons_of_neg hx]
      exact hrest

theorem getElem?_unlist {gone : Entry → Bool} {entries : List Entry} {e : EntryId} {x : Entry}
    (hx : entries[e]? = some x) :
    (unlist gone entries)[e]? = some (if gone x then { x with listed := false } else x) := by
  simp [unlist, hx]

/-- Without entries to remove, all stay. -/
theorem unlist_eq_self {gone : Entry → Bool} {entries : List Entry}
    (h : ∀ x ∈ entries, ¬ gone x = true) : unlist gone entries = entries :=
  (List.map_congr_left fun x hx => if_neg (h x hx)).trans (List.map_id _)

/-- If only one entry is to be removed, it is the only one that changes. -/
theorem unlist_eq_modify {gone : Entry → Bool} {entries : List Entry} {e : EntryId} {a : Entry}
    (ha : entries[e]? = some a) (hgone : gone a = true)
    (honly : ∀ (i : EntryId) (x : Entry), entries[i]? = some x → gone x = true → i = e) :
    unlist gone entries = entries.modify e fun x => { x with listed := false } := by
  apply List.ext_getElem?
  intro i
  by_cases hie : e = i
  · subst hie
    rw [getElem?_unlist ha, if_pos hgone, List.getElem?_modify_eq, ha]
    rfl
  · rw [List.getElem?_modify_ne _ _ hie]
    cases hx : entries[i]? with
    | none => simp [unlist, hx]
    | some x => rw [getElem?_unlist hx, if_neg fun hremoves => hie (honly i x hx hremoves).symm]

/-- An entry of a name is evicted exactly if there is a settled one that is found there. -/
theorem evict_eq_unlist {c : Catalog} (h : Listing c.entries) (name : String) :
    c.evict name = (c.entries.any fun x => x.isRemovable && x.name == name,
      { c with entries := unlist (fun x => x.isRemovable && x.name == name) c.entries }) := by
  have hnot : (∀ x ∈ c.entries, ¬ (x.isRemovable && x.name == name) = true) →
      (false, c) = (c.entries.any fun x => x.isRemovable && x.name == name,
        { c with entries := unlist (fun x => x.isRemovable && x.name == name) c.entries }) := by
    intro hnone
    rw [unlist_eq_self hnone, List.any_eq_false.2 hnone]
  unfold evict
  cases hfind : c.find? name with
  | none =>
    refine hnot fun x hx hgone => ?_
    simp only [Entry.isRemovable, Bool.and_eq_true, beq_iff_eq] at hgone
    exact not_listed_of_find? hfind hx hgone.1.1 hgone.2
  | some e =>
    obtain ⟨a, ha, hlisted, hname⟩ := listed_of_find? hfind
    -- What would be removed under the name is this entry.
    have honly : ∀ (i : EntryId) (x : Entry), c.entries[i]? = some x →
        (x.isRemovable && x.name == name) = true → i = e := by
      intro i x hx hgone
      simp only [Entry.isRemovable, Bool.and_eq_true, beq_iff_eq] at hgone
      exact h.eq_of_name_eq i e x a hx ha hgone.1.1 hlisted (hgone.2.trans hname.symm)
    by_cases hloading : a.isLoading = true
    · have hnone : c.outcome? e = none := (outcome?_eq_none_iff ha).2 hloading
      simp only [hnone, Option.isSome_none, Bool.false_eq_true, if_false]
      refine hnot fun x hx hgone => ?_
      obtain ⟨i, hi⟩ := List.getElem?_of_mem hx
      obtain rfl := honly i x hi hgone
      rw [ha] at hi
      obtain rfl := Option.some.inj hi
      simp [Entry.isRemovable, hloading] at hgone
    · have hgone : (a.isRemovable && a.name == name) = true := by
        simp [Entry.isRemovable, hlisted, hloading, hname]
      have hsettled : (c.outcome? e).isSome = true := by
        apply Option.isSome_iff_ne_none.2
        intro hnone
        exact hloading ((outcome?_eq_none_iff ha).1 hnone)
      have hany : (c.entries.any fun x => x.isRemovable && x.name == name) = true :=
        List.any_eq_true.2 ⟨a, List.mem_of_getElem? ha, hgone⟩
      simp only [hsettled, if_true]
      rw [hany, unlist_eq_modify ha hgone honly]
      rfl

/-- An entry at most is evicted, and this is the settled one of the name. -/
theorem removed_evict {c : Catalog} (h : Listing c.entries) (other name : String) :
    c.removed name (.evict other)
      = c.entries.countP fun x => x.isRemovable && x.name == other && x.name == name := by
  show (if other = name ∧ (c.evict other).1 = true then 1 else 0) = _
  rw [evict_eq_unlist h]
  -- Two of them would both be listed under the one name.
  have hatMost : (c.entries.countP fun x =>
      x.isRemovable && x.name == other && x.name == name) ≤ 1 := by
    apply countP_le_one
    intro i j a b ha hb hpa hpb
    simp only [Entry.isRemovable, Bool.and_eq_true, beq_iff_eq] at hpa hpb
    exact h.eq_of_name_eq i j a b ha hb hpa.1.1.1 hpb.1.1.1 (hpa.2.trans hpb.2.symm)
  split
  · next hremoved =>
    obtain ⟨rfl, hany⟩ := hremoved
    obtain ⟨x, hx, hgone⟩ := List.any_eq_true.1 hany
    have hpos : 0 < c.entries.countP fun x =>
        x.isRemovable && x.name == other && x.name == other :=
      List.countP_pos_iff.2 ⟨x, hx, by simpa using hgone⟩
    omega
  · next hkept =>
    refine (List.countP_eq_zero.2 fun x hx hgone => hkept ?_).symm
    simp only [Bool.and_eq_true, beq_iff_eq] at hgone
    refine ⟨hgone.1.2.symm.trans hgone.2, List.any_eq_true.2 ⟨x, hx, ?_⟩⟩
    simp [hgone.1.1, hgone.1.2]

namespace Sound

variable {t : Terms} {cancelled : List RequestId} {c : Catalog}

/-- Whatever the action is, it does one of these things. -/
theorem happens (h : Sound t cancelled {} c) (a : Action) :
    Happens t cancelled c a (c.step a) := by
  by_cases ha : a.isSpecial = true
  · cases a with
    | evict name =>
      show Happens t cancelled c (.evict name) (c.evict name).2
      rw [evict_eq_unlist h.listing]
      refine .removal nofun (fun x hx => ?_) (removed_evict h.listing name)
      exact ((Bool.and_eq_true _ _).mp hx).1
    | clear => exact .removal nofun (fun _ => id) fun _ => rfl
    | cancel r =>
      show Happens t cancelled c (.cancel r) (c.cancel r).2
      unfold Catalog.cancel
      split
      · next hqueued => exact .cancelQueued hqueued
      · next hnone =>
        split
        · next hwaits => exact .cancelWaiting (by simpa using hnone) hwaits
        · exact .changes nofun (fun _ => rfl) .refl
    | cancelWaiters name =>
      show Happens t cancelled c (.cancelWaiters name) (c.cancelWaiters name)
      unfold Catalog.cancelWaiters
      cases hfind : c.find? name with
      | none => exact .changes nofun (fun _ => rfl) .refl
      | some e =>
        obtain ⟨x, hx, -⟩ := listed_of_find? hfind
        simp only [hx, Option.elim_some]
        exact .sendAway hfind hx
    | turn store =>
      rcases h.turn_changes store with ⟨hjobs, hstep⟩ | ⟨r, outcome, rest, hjobs, hstep⟩ |
        ⟨job, rest, hjobs, hother, hpop, hstep, hchanges⟩
      · rw [hstep]
        exact .idle hjobs
      · rw [hstep]
        exact .answer hjobs
      · exact .job hjobs hother hpop hstep hchanges
    | _ => cases ha
  · -- Only evictions and the like remove entries.
    have hnone : ∀ name, c.removed name a = 0 := by
      intro name
      cases a <;> first | rfl | exact absurd rfl ha
    refine .changes ?_ hnone (Changes.step c (by simpa using ha))
    rintro store rfl
    exact ha rfl

end Sound

/-- What can become of an entry: it changes as an entry can, or some of its waiters are cancelled,
    or it has settled and is removed. -/
theorem Happens.entry {t : Terms} {cancelled : List RequestId} {c c' : Catalog} {a : Action}
    (h : Happens t cancelled c a c') {e : EntryId} {x : Entry} (hx : c.entries[e]? = some x) :
    ∃ y, c'.entries[e]? = some y ∧ (x.Becomes y ∨ (∃ ws, y = { x with waiters := ws }) ∨
      x.isRemovable = true ∧ c.removed x.name a ≠ 0 ∧ y = { x with listed := false }) := by
  cases h with
  | changes _ _ hchanges | job _ _ _ _ hchanges =>
    obtain ⟨y, hy, hbecomes⟩ := hchanges.entry hx
    exact ⟨y, hy, .inl hbecomes⟩
  | @removal _ gone _ hgone hremoved =>
    refine ⟨_, getElem?_unlist hx, ?_⟩
    split
    · next hgo =>
      refine .inr (.inr ⟨hgone x hgo, ?_, rfl⟩)
      rw [hremoved]
      intro hnone
      exact List.countP_eq_zero.1 hnone x (List.mem_of_getElem? hx) (by simp [hgo])
    · exact .inl (.refl x)
  | cancelQueued | idle | answer => exact ⟨x, hx, .inl (.refl x)⟩
  | @cancelWaiting r =>
    exact ⟨{ x with waiters := x.waiters.filter (· != .request r) }, by simp [hx],
      .inr (.inl ⟨_, rfl⟩)⟩
  | @sendAway _ f =>
    by_cases hfe : f = e
    · subst hfe
      exact ⟨{ x with waiters := [] }, by simp [Catalog.enqueue, modifyEntry, hx],
        .inr (.inl ⟨_, rfl⟩)⟩
    · refine ⟨x, ?_, .inl (.refl x)⟩
      show (c.entries.modify f _)[e]? = some x
      rw [List.getElem?_modify_ne _ _ hfe]
      exact hx

end TextTemplate.Catalog
