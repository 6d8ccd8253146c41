import TextTemplate.Proofs.Catalog.Progress
import TextTemplate.Proofs.Catalog.Readiness

/-! # Loads that are cancelled

  When a load is cancelled while its fetch is under way, the fetch is called off
  and the entry is doomed: whatever happens next, it fails before the queue is
  empty, and so does whoever waits for it, however far away.  So a catalog in
  which loads are cancelled comes to rest with every request answered.

  There is one exception.  A load that is cancelled before it has begun ends
  without touching its entry, which is then loading for ever (`skippedRun`).
-/

namespace TextTemplate.Catalog

open Relation

/-! ### Those who have waited -/

/-- The waiter knows what has become of the entry: a request has the entry's answer, or was told
    that it was cancelled, and a descendant has failed if the entry did. -/
def Told (c : Catalog) (e : EntryId) : Waiter → Prop
  | .request r => ∃ outcome, (r, outcome) ∈ c.answers ∧ c.Tells e outcome
  | .descendant x => c.HasFailed x ∨ ∃ chain, c.outcome? e = some (.ready chain)

theorem Later.told {c c' : Catalog} (h : Later c c') {e : EntryId} {w : Waiter} (hw : c.Told e w) :
    c'.Told e w := by
  cases w with
  | request r =>
    obtain ⟨outcome, hanswer, htells⟩ := hw
    exact ⟨outcome, h.answer _ hanswer, h.tells htells⟩
  | descendant x => exact hw.imp h.hasFailed fun ⟨chain, hready⟩ => ⟨chain, h.outcome? hready⟩

namespace Sound

variable {t : Terms} {cancelled : List RequestId} {hand : Hand} {c : Catalog}

/-- A waiter whose job runs has been told. -/
theorem told_perform {e : EntryId} {w : Waiter} {outcome : Outcome}
    (h : Sound t cancelled (Hand.take {} (w.job outcome)) c) (htells : c.Tells e outcome)
    (store : String → Reply) : ((c.perform (w.job outcome)).resolve store).Told e w := by
  cases w with
  | request r => exact ⟨outcome, List.mem_append_right _ (List.mem_singleton_self _), htells⟩
  | descendant x =>
    show (c.link x outcome).Told e (.descendant x)
    -- The descendant has waited until now, so it is loading, and fails with its ancestor.
    obtain ⟨a, p, ha, hloading, -⟩ := entry_of_awaitsAncestor h.ties.awaits_of_inHand
    cases outcome with
    | cancelled => exact .inl ⟨_, Onward.outcome?_fail ha hloading _⟩
    | failed error => exact .inl ⟨_, Onward.outcome?_fail ha hloading _⟩
    | ready chain =>
      have hready := htells.resolve_left nofun
      exact .inr ⟨chain, (Onward.link c x _).outcome? hready⟩

/-- Whoever waits at an entry still waits after an action, or has been told. -/
theorem awaits_or_told_step (h : Sound t cancelled {} c) (hbacked : c.Backed) (a : Action)
    {e : EntryId} {w : Waiter} (hw : c.Awaits e w ∨ c.Told e w) :
    (c.step a).Awaits e w ∨ (c.step a).Told e w := by
  have hlater := (h.later_step hbacked a).1
  rcases hw with hw | hw
  · have hasked : (∀ store, a ≠ .turn store) → (c.step a).Awaits e w :=
      fun ha => (Onward.step c ha).awaits e w hw
    cases a with
    | turn store =>
      rcases h.turn_cases hbacked store with ⟨-, hstep⟩ | ⟨job, rest, hjobs, hstep, honward⟩
      · rw [hstep]
        exact .inl hw
      · rcases hw with hstands | ⟨outcome, hjob, htells⟩
        · exact .inl (honward.awaits e w (.inl hstands))
        · rw [hjobs] at hjob
          rcases List.mem_cons.1 hjob with rfl | hjob
          · rw [hstep]
            exact .inr ((h.pop hjobs).told_perform htells store)
          · exact .inl (honward.awaits e w (.inr ⟨outcome, hjob, htells⟩))
    | _ => exact .inl (hasked nofun)
  · exact .inr (hlater.told hw)

theorem awaits_or_told_after (h : Sound t cancelled {} c) (hbacked : c.Backed)
    {actions : List Action} (hactions : ∀ a ∈ actions, t.Allows a) {e : EntryId} {w : Waiter}
    (hw : c.Awaits e w ∨ c.Told e w) :
    (c.after actions).Awaits e w ∨ (c.after actions).Told e w := by
  induction actions generalizing c cancelled with
  | nil => exact hw
  | cons a rest ih =>
    exact ih (h.step a ((hactions a List.mem_cons_self).permits c)) (h.later_step hbacked a).2
      (fun x hx => hactions x (List.mem_cons_of_mem _ hx)) (h.awaits_or_told_step hbacked a hw)

/-- When the queue is empty, those who have waited for a failed entry have been told. -/
theorem told_of_idle (h : Sound t cancelled hand c) (hjobs : c.jobs = []) {e : EntryId} {w : Waiter}
    (hfailed : c.HasFailed e) (hw : c.Awaits e w ∨ c.Told e w) : c.Told e w := by
  refine hw.resolve_left ?_
  rintro (⟨a, ha, hwaits⟩ | ⟨outcome, hjob, -⟩)
  · obtain ⟨error, herror⟩ := hfailed
    obtain ⟨a', ha', hsettled, -⟩ := status_of_outcome? herror
    rw [ha] at ha'
    obtain rfl := Option.some.inj ha'
    rw [h.listing.no_waiters e a ha hsettled] at hwaits
    cases hwaits
  · rw [hjobs] at hjob
    cases hjob

/-! ### Doomed entries -/

/-- Without a time limit the entry fails when the end of its fetch comes that was called off. -/
theorem hasFailed_endFetch {e : EntryId} (h : Sound t cancelled { errands := [e] } c)
    (hlimit : c.limit? = none) : (c.endFetch e .cancelled).HasFailed e := by
  obtain ⟨load, hload, rfl⟩ := (h.loads.unlimited hlimit).1 e List.mem_cons_self
  obtain ⟨a, ha, hloading, -⟩ := h.loads.unread load hload
  unfold Catalog.endFetch
  rw [hlimit]
  exact ⟨.cancelled, Onward.outcome?_fail (c := c.endLoad load.entry) ha hloading .cancelled⟩

/-- With a time limit, a load that has been given up has no more to wait for when the end of its
    fetch comes. -/
theorem givenUp_endFetch {e : EntryId} {load : Load} (hlimit : c.limit? ≠ none)
    (hload : load ∈ c.loads) (hentry : load.entry = e) (hverdict : load.verdict? ≠ none) :
    (c.endFetch e .cancelled).GivenUp e := by
  obtain ⟨limit, hsome⟩ := Option.ne_none_iff_exists'.1 hlimit
  unfold Catalog.endFetch
  rw [hsome]
  refine ⟨{ load with fetched? := some .cancelled }, ?_, hentry, hverdict, nofun⟩
  exact List.mem_map.2 ⟨load, hload, by rw [if_pos (beq_iff_eq.2 hentry)]⟩

/-- A doomed entry is doomed after an action, too. -/
theorem doomed_step (h : Sound t cancelled {} c) (hbacked : c.Backed) (a : Action) {e : EntryId}
    (he : c.Doomed e) : (c.step a).Doomed e := by
  have hasked : (∀ store, a ≠ .turn store) → (c.step a).Doomed e :=
    fun ha => (Onward.step c ha).doomed e he
  cases a with
  | turn store =>
    rcases h.turn_cases hbacked store with ⟨-, hstep⟩ | ⟨job, rest, hjobs, hstep, honward⟩
    · rw [hstep]
      exact he
    have hsound := h.pop hjobs
    rcases he with hfailed | ⟨hnone, hdrop⟩ | ⟨hsome, load, hload, hentry, hverdict, hdrop⟩
    · exact honward.doomed e (.failed hfailed)
    · -- The job is the end of the fetch, or that is still to come.
      rw [hjobs] at hdrop
      rcases List.mem_cons.1 hdrop with rfl | hdrop
      · rw [hstep]
        exact .failed (hsound.hasFailed_endFetch hnone)
      · exact honward.doomed e (.dropped hnone hdrop)
    · by_cases hjob : job = .drop e
      · subst hjob
        refine .givenUp ?_ ?_
        · rw [honward.limit]
          exact hsome
        · rw [hstep]
          exact givenUp_endFetch (c := { c with jobs := rest }) hsome hload hentry hverdict
      · refine honward.doomed e (.givenUp hsome ⟨load, hload, hentry, hverdict, fun hnone => ?_⟩)
        have hmem := hdrop hnone
        rw [hjobs] at hmem
        exact (List.mem_cons.1 hmem).resolve_left (Ne.symm hjob)
  | _ => exact hasked nofun

theorem doomed_after (h : Sound t cancelled {} c) (hbacked : c.Backed) {actions : List Action}
    (hactions : ∀ a ∈ actions, t.Allows a) {e : EntryId} (he : c.Doomed e) :
    (c.after actions).Doomed e := by
  induction actions generalizing c cancelled with
  | nil => exact he
  | cons a rest ih =>
    exact ih (h.step a ((hactions a List.mem_cons_self).permits c)) (h.later_step hbacked a).2
      (fun x hx => hactions x (List.mem_cons_of_mem _ hx)) (h.doomed_step hbacked a he)

/-- A doomed entry has failed when the queue is empty. -/
theorem hasFailed_of_doomed (h : Sound t cancelled {} c) (hjobs : c.jobs = []) {e : EntryId}
    (he : c.Doomed e) : c.HasFailed e := by
  rcases he with hfailed | ⟨-, hdrop⟩ | ⟨hsome, load, hload, rfl, hverdict, hdrop⟩
  · exact hfailed
  · rw [hjobs] at hdrop
    cases hdrop
  · -- The load has been given up, its fetch is over, and nobody is left to tell it so.
    have hfetched : load.fetched? ≠ none := by
      intro hnone
      have hmem := hdrop hnone
      rw [hjobs] at hmem
      cases hmem
    have hstirs := h.stirs
    rw [hjobs] at hstirs
    cases hasleep : load.asleep with
    | false => exact absurd (hstirs.awake load hload hsome hasleep) List.not_mem_nil
    | true => exact absurd (hstirs.reported load hload hasleep hfetched) List.not_mem_nil

end Sound

/-! ### Cancellation during a fetch -/

/-- The fetch of an entry is to come or under way, or it was called off and is not over. -/
def UnderWay (c : Catalog) (e : EntryId) : Prop :=
  e ∈ c.postponed ∨ .fetch e ∈ c.jobs ∨ .read e ∈ c.jobs ∨ .drop e ∈ c.jobs

/-- A fetch that is called off ends as such. -/
theorem drop_mem_callOff {c : Catalog} {e : EntryId} (h : c.UnderWay e) :
    .drop e ∈ (c.callOff e).jobs := by
  unfold callOff
  split
  · exact List.mem_append_right _ (List.mem_singleton_self _)
  · next hnot =>
    rcases h with hpostponed | hfetch | hread | hdrop
    · exact absurd (List.contains_iff_mem.2 hpostponed) hnot
    · exact List.mem_map.2 ⟨_, hfetch, by simp⟩
    · exact List.mem_map.2 ⟨_, hread, by simp⟩
    · exact List.mem_map.2 ⟨_, hdrop, rfl⟩

/-- A load that calls off a fetch under way has been given up. -/
theorem givenUp_abandon {c : Catalog} {load : Load} (he : c.UnderWay load.entry)
    (hload : load ∈ c.loads) (error : LoadError) :
    (c.abandon load.entry error).GivenUp load.entry := by
  let f (load : Load) : Load := { load with asleep := true, verdict? := some error }
  have hloads : ((c.modifyLoad load.entry f).callOff load.entry).loads
      = (c.modifyLoad load.entry f).loads := by
    unfold callOff
    split <;> rfl
  refine ⟨f load, ?_, rfl, nofun, fun _ => drop_mem_callOff (c := c.modifyLoad load.entry f) he⟩
  show f load ∈ ((c.modifyLoad load.entry f).callOff load.entry).loads
  rw [hloads]
  exact List.mem_map.2 ⟨load, hload, by simp⟩

namespace Sound

variable {t : Terms} {cancelled : List RequestId} {hand : Hand} {c : Catalog}

/-- A load whose fetch is under way has begun. -/
theorem begun_of_underWay (h : Sound t cancelled hand c) {e : EntryId} (he : c.UnderWay e) :
    .load e ∉ c.jobs ∧ .skip e ∉ c.jobs := by
  have hnot : ∀ job : Job, job.errand? = some e → job ∈ c.jobs →
      job = .fetch e ∨ job = .read e ∨ job = .drop e := by
    intro job herrand hjob
    rcases he with hpostponed | hmem | hmem | hmem
    · exact absurd hpostponed (h.loads.not_mem_postponed hjob herrand)
    · exact .inl (h.loads.errand_unique hjob hmem herrand rfl)
    · exact .inr (.inl (h.loads.errand_unique hjob hmem herrand rfl))
    · exact .inr (.inr (h.loads.errand_unique hjob hmem herrand rfl))
  constructor
  · intro hjob
    rcases hnot _ rfl hjob with heq | heq | heq <;> cases heq
  · intro hjob
    rcases hnot _ rfl hjob with heq | heq | heq <;> cases heq

/-- The stages of a load: it has not begun, its fetch is under way, or the fetch is over and the
    load is about to go on, which takes a time limit. -/
theorem stage_of_load (h : Sound t cancelled {} c) {load : Load} (hload : load ∈ c.loads) :
    .load load.entry ∈ c.jobs ∨ .skip load.entry ∈ c.jobs ∨ c.UnderWay load.entry ∨
      c.limit? ≠ none ∧ load.fetched? ≠ none := by
  by_cases hfetched : load.fetched? = none
  · -- The load has an errand, and nobody has that in hand.
    have herrand := (List.mem_append.1 (h.loads.has_errand load hload hfetched)).resolve_left
      List.not_mem_nil
    rcases List.mem_append.1 herrand with hqueued | hpostponed
    · obtain ⟨job, hjob, heq⟩ := List.mem_filterMap.1 hqueued
      cases job with
      | load e | skip e | fetch e | read e | drop e =>
        obtain rfl := Option.some.inj heq
        simp only [UnderWay, hjob, true_or, or_true]
      | _ => cases heq
    · exact .inr (.inr (.inl (.inl hpostponed)))
  · refine .inr (.inr (.inr ⟨fun hnone => ?_, hfetched⟩))
    exact hfetched ((h.loads.unlimited hnone).2 load hload)

/-- A load whose fetch is under way has not been given anything. -/
theorem fetched?_of_underWay (h : Sound t cancelled hand c) {e : EntryId} (he : c.UnderWay e)
    {load : Load} (hload : load ∈ c.loads) (hentry : load.entry = e) : load.fetched? = none := by
  refine h.loads.fetched?_of_errand (List.mem_append_right _ ?_) hload hentry
  rcases he with hpostponed | hmem | hmem | hmem
  · exact List.mem_append_right _ hpostponed
  all_goals exact List.mem_append_left _ (List.mem_filterMap.2 ⟨_, hmem, rfl⟩)

/-- The load of an entry is found under the entry's number. -/
theorem load?_eq (h : Sound t cancelled hand c) {load : Load} (hload : load ∈ c.loads) :
    c.load? load.entry = some load := by
  cases hfind : c.load? load.entry with
  | none => exact absurd rfl (not_mem_of_load? hfind load hload)
  | some other => rw [h.eq_of_load? hfind load hload rfl]

/-- One load at most is cancelled under a name. -/
theorem running_eq (h : Sound t cancelled hand c) {load : Load} (hload : load ∈ c.loads) {a : Entry}
    (ha : c.entries[load.entry]? = some a) :
    ((c.loads.map (·.entry)).filter fun e => c.entries[e]?.any (·.name == a.name))
      = [load.entry] := by
  generalize hrunning : (c.loads.map (·.entry)).filter
    (fun e => c.entries[e]?.any (·.name == a.name)) = running
  have hnodup : running.Nodup := hrunning ▸ h.loads.nodup.filter _
  have hmem : load.entry ∈ running := by
    rw [← hrunning]
    exact List.mem_filter.2 ⟨List.mem_map_of_mem hload, by simp [ha]⟩
  -- Entries with a load are loading, and no two of them are listed under one name.
  have honly : ∀ e ∈ running, e = load.entry := by
    intro e he
    rw [← hrunning] at he
    obtain ⟨hloads, hname⟩ := List.mem_filter.1 he
    obtain ⟨other, hother, rfl⟩ := List.mem_map.1 hloads
    obtain ⟨b, hb, hbloading, -⟩ := h.loads.unread other hother
    obtain ⟨a', ha', haloading, -⟩ := h.loads.unread load hload
    rw [ha] at ha'
    obtain rfl := Option.some.inj ha'
    have hname' : b.name = a.name := by simpa [hb] using hname
    exact h.listing.eq_of_name_eq _ _ b a hb ha (h.listing.listed_of_loading _ b hb hbloading)
      (h.listing.listed_of_loading _ a ha haloading) hname'
  cases running with
  | nil => cases hmem
  | cons e rest =>
    obtain rfl := honly e List.mem_cons_self
    cases rest with
    | nil => rfl
    | cons x others =>
      have hx := honly x (List.mem_cons_of_mem _ List.mem_cons_self)
      exact absurd (hx ▸ List.mem_cons_self) (List.nodup_cons.1 hnodup).1

/-- Without a time limit, a load that is cancelled during its fetch is doomed. -/
theorem doomed_cancelLoads (h : Sound t cancelled hand c) {e : EntryId} (he : c.UnderWay e)
    {load : Load} (hload : load ∈ c.loads) (hentry : load.entry = e) {a : Entry}
    (ha : c.entries[e]? = some a) (hlimit : c.limit? = none) :
    (c.cancelLoads a.name).2.Doomed e := by
  subst hentry
  unfold Catalog.cancelLoads
  rw [h.running_eq hload ha]
  show (c.cancelLoad load.entry).Doomed load.entry
  unfold Catalog.cancelLoad
  split
  · next hany => exact absurd (mem_jobs_of_any_load hany) (h.begun_of_underWay he).1
  · rw [hlimit]
    refine .dropped ?_ (drop_mem_callOff he)
    exact (Onward.callOff c load.entry).limit.trans hlimit

/-- With a time limit, a load that is cancelled during its fetch is told so. -/
theorem interrupt_mem_cancelLoads (h : Sound t cancelled {} c) {e : EntryId} (he : c.UnderWay e)
    {load : Load} (hload : load ∈ c.loads) (hentry : load.entry = e) {a : Entry}
    (ha : c.entries[e]? = some a) (hlimit : c.limit? ≠ none) :
    .interrupt e ∈ (c.cancelLoads a.name).2.jobs := by
  subst hentry
  obtain ⟨hload', hskip⟩ := h.begun_of_underWay he
  unfold Catalog.cancelLoads
  rw [h.running_eq hload ha]
  show .interrupt load.entry ∈ (c.cancelLoad load.entry).jobs
  unfold Catalog.cancelLoad
  split
  · next hany => exact absurd (mem_jobs_of_any_load hany) hload'
  rw [if_neg (by simpa using hlimit), h.load?_eq hload]
  split
  · exact List.mem_append_right _ (List.mem_singleton_self _)
  · next hawake =>
    have hasleep : load.asleep = false := by simpa using hawake
    -- A load that is awake has a job that lets it go on.
    obtain ⟨job, hjob, hstirs⟩ := List.mem_filterMap.1 (h.stirs.awake load hload hlimit hasleep)
    cases job with
    | load x => exact absurd (Option.some.inj hstirs ▸ hjob) hload'
    | skip x => exact absurd (Option.some.inj hstirs ▸ hjob) hskip
    | resume x => exact List.mem_map.2 ⟨_, hjob, by simp [Option.some.inj hstirs]⟩
    | interrupt x => exact List.mem_map.2 ⟨_, hjob, by rw [Option.some.inj hstirs]⟩
    | _ => cases hstirs

/-- A load that learns of its cancellation during its fetch is doomed. -/
theorem doomed_interruptLoad (h : Sound t cancelled hand c) {e : EntryId} (he : c.UnderWay e)
    {load : Load} (hload : load ∈ c.loads) (hentry : load.entry = e) (hlimit : c.limit? ≠ none) :
    (c.interruptLoad e).Doomed e := by
  subst hentry
  have hfetched := h.fetched?_of_underWay he hload rfl
  obtain ⟨a, ha, hloading, -⟩ := h.loads.unread load hload
  unfold Catalog.interruptLoad
  rw [h.load?_eq hload]
  cases hverdict : load.verdict? with
  | some error =>
    simp only [hverdict]
    exact .failed ⟨_, Onward.outcome?_fail (c := c.endLoad load.entry) ha hloading .cancelled⟩
  | none =>
    simp only [hverdict, hfetched]
    refine .givenUp ?_ ?_
    · rw [(Onward.abandon c load.entry .cancelled).limit]
      exact hlimit
    · exact givenUp_abandon he hload .cancelled

end Sound

/-- The action by which a cancellation reaches the load of an entry: without a time limit it is the
    cancellation itself, and with one the job that lets the load go on afterwards. -/
inductive Strikes (c : Catalog) (e : EntryId) : Action → Prop where
  | cancels (a : Entry) : c.limit? = none → c.entries[e]? = some a →
    Strikes c e (.cancelLoads a.name)
  | interrupts (rest : List Job) (store : String → Reply) : c.jobs = .interrupt e :: rest →
    Strikes c e (.turn store)

/-- A cancellation that reaches a load during its fetch dooms the entry. -/
theorem Sound.doomed_of_strikes {t : Terms} {cancelled : List RequestId} {c : Catalog}
    (h : Sound t cancelled {} c) {e : EntryId} {a : Action} (ha : c.Strikes e a)
    (he : c.UnderWay e) {load : Load} (hload : load ∈ c.loads) (hentry : load.entry = e) :
    (c.step a).Doomed e := by
  cases ha with
  | cancels a hlimit ha => exact h.doomed_cancelLoads he hload hentry ha hlimit
  | interrupts rest store hjobs =>
    have hlimit : c.limit? ≠ none := by
      intro hnone
      refine ((h.stirs.unlimited hnone).2 e).2 ?_
      rw [hjobs]
      exact List.mem_cons_self
    have hunderWay : ({ c with jobs := rest } : Catalog).UnderWay e := by
      have hrest : ∀ job, job ∈ c.jobs → job ≠ .interrupt e → job ∈ rest := by
        intro job hjob hne
        rw [hjobs] at hjob
        exact (List.mem_cons.1 hjob).resolve_left hne
      rcases he with hpostponed | hmem | hmem | hmem
      · exact .inl hpostponed
      · exact .inr (.inl (hrest _ hmem nofun))
      · exact .inr (.inr (.inl (hrest _ hmem nofun)))
      · exact .inr (.inr (.inr (hrest _ hmem nofun)))
    have hstep : c.step (.turn store) = ({ c with jobs := rest } : Catalog).interruptLoad e := by
      simp [Catalog.step, turn?, hjobs, Catalog.perform, Turn.resolve]
    rw [hstep]
    exact (h.pop hjobs).doomed_interruptLoad hunderWay hload hentry hlimit

/-! ### Runs with cancelled loads -/

theorem after_append (c : Catalog) (first second : List Action) :
    c.after (first ++ second) = (c.after first).after second := List.foldl_append

/-- The time limit is the same for good. -/
theorem limit?_after (rules : Markup.Rules) (limit? : Option TimeLimit) (actions : List Action) :
    ((empty rules limit?).after actions).limit? = limit? := by
  have hallows : ∀ a ∈ actions, (Terms.ofEveryRun True True).Allows a :=
    fun a _ => Terms.allows_ofEveryRun fun _ _ => trivial
  have hempty := Sound.empty (Terms.closed_ofEveryRun True True rules limit?)
  exact (hempty.later_after (backed_empty rules limit?) hallows).1.limit

/-- When the queue is empty and an entry has failed, all have failed or been told that have waited
    for it at any moment, however far away. -/
theorem fails_after {rules : Markup.Rules} {limit? : Option TimeLimit} {moment rest : List Action}
    {e : EntryId} (hjobs : ((empty rules limit?).after (moment ++ rest)).jobs = [])
    (hfailed : ((empty rules limit?).after (moment ++ rest)).HasFailed e) {x : EntryId}
    (hwaits : ReflTransGen (WaitsFor ((empty rules limit?).after moment).entries) x e) :
    ((empty rules limit?).after (moment ++ rest)).HasFailed x ∧
      ∀ a r, ((empty rules limit?).after moment).entries[x]? = some a → .request r ∈ a.waiters →
        ∃ outcome, (r, outcome) ∈ ((empty rules limit?).after (moment ++ rest)).answers ∧
          (((empty rules limit?).after (moment ++ rest)).outcome? x = some outcome ∨
            outcome = .cancelled ∧ (.cancel r ∈ moment ++ rest ∨
              ∃ name, .cancelWaiters name ∈ moment ++ rest)) := by
  obtain ⟨hc, hcbacked⟩ := sound_of_run rules limit? moment fun _ _ => trivial
  have haway : ∀ name, .cancelWaiters name ∈ moment ++ rest →
      ∃ name, .cancelWaiters name ∈ moment ++ rest := fun name hname => ⟨name, hname⟩
  obtain ⟨hd, -⟩ := sound_of_run rules limit? (moment ++ rest) haway
  have hallows : ∀ a ∈ rest, (Terms.ofEveryRun True True).Allows a :=
    fun a _ => Terms.allows_ofEveryRun fun _ _ => trivial
  have hlater := after_append (empty rules limit?) moment rest
  generalize (empty rules limit?).after moment = c at hc hcbacked hwaits hlater ⊢
  generalize (empty rules limit?).after (moment ++ rest) = d at hd hjobs hfailed hlater ⊢
  -- Whoever waits for an entry that fails has been told so in the end.
  have htold : ∀ {y : EntryId} {b : Entry} {w : Waiter}, c.entries[y]? = some b → w ∈ b.waiters →
      d.HasFailed y → d.Told y w := by
    intro y b w hb hw hy
    refine hd.told_of_idle hjobs hy ?_
    rw [hlater]
    exact hc.awaits_or_told_after hcbacked hallows (.inl (.inl ⟨b, hb, hw⟩))
  have hx : d.HasFailed x := by
    induction hwaits using ReflTransGen.head_induction_on with
    | refl => exact hfailed
    | @head x y hedge _ ih =>
      obtain ⟨b, hb, hw⟩ := hedge
      obtain ⟨error, herror⟩ := ih
      rcases htold hb hw ⟨error, herror⟩ with hx | ⟨chain, hready⟩
      · exact hx
      · rw [herror] at hready
        cases hready
  refine ⟨hx, fun a r ha hr => ?_⟩
  obtain ⟨outcome, hanswer, htells⟩ := htold ha hr hx
  refine ⟨outcome, hanswer, htells.symm.imp_right fun hcancelled => ⟨hcancelled, ?_⟩⟩
  subst hcancelled
  obtain ⟨name, -, hlost⟩ := hd.faithful.answer _ hanswer
  exact hlost.imp_left mem_cancelledBy.1

/-- Whenever loads are cancelled in the run, those of that name have begun. -/
def CancelsBegun (rules : Markup.Rules) (limit? : Option TimeLimit) (actions : List Action) :
    Prop :=
  ∀ before name later, actions = before ++ .cancelLoads name :: later →
    ∀ (e : EntryId) (a : Entry), ((empty rules limit?).after before).entries[e]? = some a →
      a.name = name → .load e ∉ ((empty rules limit?).after before).jobs

/-- The invariant of a run in which no load is lost. -/
theorem sound_of_cancelsBegun {rules : Markup.Rules} {limit? : Option TimeLimit}
    {actions : List Action} (h : CancelsBegun rules limit? actions)
    (hreplies : ∀ a ∈ actions, a.NoneEscapes) :
    Sound (.ofEveryRun False True) (cancelledBy actions) {}
      ((empty rules limit?).after actions) := by
  have hpermits : ∀ before a later, actions = before ++ a :: later →
      (Terms.ofEveryRun False True).Permits ((empty rules limit?).after before) a := by
    intro before a later heq
    cases a with
    | cancelLoads name => exact .inr ⟨trivial, h before name later heq⟩
    | turn store =>
      have hnone : (Action.turn store).NoneEscapes :=
        hreplies _ (heq ▸ List.mem_append_right _ List.mem_cons_self)
      intro name hescapes
      rw [hnone name] at hescapes
      cases hescapes
    | _ => trivial
  have hsound := (Sound.empty (Terms.closed_ofEveryRun False True rules limit?)).after_of_permits
    hpermits
  rwa [List.append_nil] at hsound

/-- What becomes of loads that are cancelled in a run. -/
structure CancelledLoads (rules : Markup.Rules) (limit? : Option TimeLimit)
    (actions : List Action) : Prop where
  /-- At every moment, a load that has not ended has not begun, or its fetch is under way; or,
      with a time limit, the fetch is over, and the load is about to take what came of it. -/
  stages : ∀ before later, actions = before ++ later →
    ∀ load ∈ ((empty rules limit?).after before).loads,
      .load load.entry ∈ ((empty rules limit?).after before).jobs ∨
      .skip load.entry ∈ ((empty rules limit?).after before).jobs ∨
      ((empty rules limit?).after before).UnderWay load.entry ∨
      limit? ≠ none ∧ load.fetched? ≠ none
  /-- With a time limit, a load that is cancelled during its fetch will go on to learn of it. -/
  interrupted : ∀ before later e a, actions = before ++ .cancelLoads a.name :: later →
    limit? ≠ none → (∃ load ∈ ((empty rules limit?).after before).loads, load.entry = e) →
    ((empty rules limit?).after before).UnderWay e →
    ((empty rules limit?).after before).entries[e]? = some a →
    .interrupt e ∈ ((empty rules limit?).after (before ++ [.cancelLoads a.name])).jobs
  /-- If a cancellation reaches a load during its fetch, then the load's entry has failed when the
      queue is empty, and so has every entry that has waited for it at any moment, however far away.
      Each request that has waited at one of them has that one's error for an answer, unless it was
      cancelled itself or sent away. -/
  fails : ∀ before a later e, actions = before ++ a :: later →
    (∃ load ∈ ((empty rules limit?).after before).loads, load.entry = e) →
    ((empty rules limit?).after before).UnderWay e →
    ((empty rules limit?).after before).Strikes e a →
    ((empty rules limit?).after actions).jobs = [] →
    ∀ moment rest x, actions = moment ++ rest →
      ReflTransGen (WaitsFor ((empty rules limit?).after moment).entries) x e →
      ((empty rules limit?).after actions).HasFailed x ∧
        ∀ b r, ((empty rules limit?).after moment).entries[x]? = some b → .request r ∈ b.waiters →
          ∃ outcome, (r, outcome) ∈ ((empty rules limit?).after actions).answers ∧
            (((empty rules limit?).after actions).outcome? x = some outcome ∨
              outcome = .cancelled ∧ (.cancel r ∈ actions ∨
                ∃ name, .cancelWaiters name ∈ actions))
  /-- If no load is cancelled before it begins, and the store has given texts and errors only,
      nobody waits for ever: when the catalog comes to rest, no entry is loading, and every request
      that was not cancelled has its answer. -/
  settles : CancelsBegun rules limit? actions → (∀ a ∈ actions, a.NoneEscapes) →
    AtRest ((empty rules limit?).after actions) →
    (∀ entry ∈ ((empty rules limit?).after actions).entries, entry.isLoading = false) ∧
      ∀ r < ((empty rules limit?).after actions).requests.length, .cancel r ∉ actions →
        ∃ outcome, (r, outcome) ∈ ((empty rules limit?).after actions).answers

/-- In every run, a load that is cancelled during its fetch makes its entry fail and all who wait
    for it; and none that is cancelled after it has begun leaves anybody waiting for ever. -/
theorem cancelled_loads_fail (rules : Markup.Rules) (limit? : Option TimeLimit)
    (actions : List Action) : CancelledLoads rules limit? actions := by
  constructor
  case stages =>
    rintro before later rfl load hload
    obtain ⟨hsound, -⟩ := sound_of_run rules limit? before fun _ _ => trivial
    have hstage := hsound.stage_of_load hload
    rwa [limit?_after] at hstage
  case interrupted =>
    rintro before later e a rfl hlimit ⟨load, hload, hentry⟩ hunderWay ha
    obtain ⟨hsound, -⟩ := sound_of_run rules limit? before fun _ _ => trivial
    have hlimited : ((empty rules limit?).after before).limit? ≠ none := by
      rw [limit?_after]
      exact hlimit
    rw [after_append]
    exact hsound.interrupt_mem_cancelLoads hunderWay hload hentry ha hlimited
  case fails =>
    rintro before a later e hactions ⟨load, hload, hentry⟩ hunderWay hstrikes hjobs
      moment rest x rfl hwaits
    obtain ⟨hsound, hbacked⟩ := sound_of_run rules limit? before fun _ _ => trivial
    have hallows : ∀ a, (Terms.ofEveryRun True True).Allows a :=
      fun a => Terms.allows_ofEveryRun fun _ _ => trivial
    refine fails_after hjobs ?_ hwaits
    -- The entry is doomed by the strike, and stays so until the queue is empty.
    obtain ⟨hdone, -⟩ := sound_of_run rules limit? (moment ++ rest) fun _ _ => trivial
    refine hdone.hasFailed_of_doomed hjobs ?_
    rw [hactions, after_append]
    exact (hsound.step a ((hallows a).permits _)).doomed_after (hsound.later_step hbacked a).2
      (fun a _ => hallows a) (hsound.doomed_of_strikes hstrikes hunderWay hload hentry)
  case settles =>
    intro hbegun hreplies hrest
    have hsound := sound_of_cancelsBegun hbegun hreplies
    refine ⟨fun entry hentry => ?_, fun r hr hkept => ?_⟩
    · obtain ⟨e, he⟩ := List.getElem?_of_mem hentry
      exact hsound.settled_of_atRest id hrest he
    · exact hsound.answered_of_atRest id hrest hr fun hmem => hkept (mem_cancelledBy.1 hmem)

/-- A template is asked for whose ancestor the store holds back, and the ancestor's load is
    cancelled. -/
def brokenOffRun : List Action :=
  let turn : Action :=
    .turn fun name => ⟨.text (if name = "a" then "{% extends b %}" else "hi"), none⟩
  [.hold "b", .request (.template "a")] ++ List.replicate 3 turn ++
    .cancelLoads "b" :: List.replicate 3 turn

example : ((empty .default none).after brokenOffRun).entries.map
    (fun entry => (entry.name, entry.status.text)) = [("a", "failed"), ("b", "failed")] := by
  decide +kernel

/-- A gate is put at `a` and the template is asked for; the load of `a` is cancelled before it has
    begun, the queue is worked off, and the gate is opened. -/
def skippedRun : List Action :=
  [.gate "a", .request (.template "a"), .cancelLoads "a", .turn fun _ => ⟨.text "x", none⟩,
    .turn fun _ => ⟨.text "x", none⟩, .release 0]

/-- After `skippedRun` the catalog is at rest; but the entry, whose load had not ended when it was
    cancelled, is loading, and the request waits for it. -/
theorem skippedRun_waits :
    (∃ load ∈ ((empty .default none).after (skippedRun.take 2)).loads, load.entry = 0) ∧
    AtRest ((empty .default none).after skippedRun) ∧
    (∃ a, ((empty .default none).after skippedRun).entries[0]? = some a ∧ a.isLoading = true ∧
      a.waiters = [.request 0]) ∧
    ∀ outcome, (0, outcome) ∉ ((empty .default none).after skippedRun).answers := by
  refine ⟨?_, ⟨?_, ?_, ?_⟩, ?_, ?_⟩
  · have hload : (((empty .default none).after (skippedRun.take 2)).loads.any
        (·.entry == 0)) = true := by decide +kernel
    simpa using List.any_eq_true.1 hload
  · have hjobs : ((empty .default none).after skippedRun).jobs.isEmpty = true := by decide +kernel
    exact List.isEmpty_iff.1 hjobs
  · decide +kernel
  · have hgates : (((empty .default none).after skippedRun).gates.all (·.released)) = true := by
      decide +kernel
    exact List.all_eq_true.1 hgates
  · have hentry : (((empty .default none).after skippedRun).entries[0]?.map
        fun a => (a.isLoading, a.waiters)) = some (true, [.request 0]) := by decide +kernel
    obtain ⟨a, ha, heq⟩ := Option.map_eq_some_iff.1 hentry
    exact ⟨a, ha, (Prod.mk.inj heq).1, (Prod.mk.inj heq).2⟩
  · have hanswers : ((empty .default none).after skippedRun).answers.isEmpty = true := by
      decide +kernel
    intro outcome hmem
    rw [List.isEmpty_iff.1 hanswers] at hmem
    cases hmem

end TextTemplate.Catalog
