import TextTemplate.Proofs.Catalog.Circle
import TextTemplate.Proofs.Catalog.Gates
import TextTemplate.Proofs.Catalog.Ticks

/-! # The invariant of a catalog

  `Sound` puts together what holds of a catalog between any two jobs.  While a
  job runs, the laws hold up to what the job has in hand (`Hand`): a waiter that
  is on its way from one place to another, a tick that is about to be taken off,
  a load's errand that is being done.  Each operation then says what it takes
  from the hand and what it puts there.
-/

namespace TextTemplate.Catalog

/-! ### Filtered lists -/

theorem filterMap_cons_eq {α β : Type} (f : α → Option β) (a : α) (rest : List α) :
    (a :: rest).filterMap f = (f a).toList ++ rest.filterMap f := by
  cases hf : f a <;> simp [hf]

theorem filterMap_concat_eq {α β : Type} (f : α → Option β) (l : List α) (a : α) :
    (l ++ [a]).filterMap f = l.filterMap f ++ (f a).toList := by
  rw [List.filterMap_append, filterMap_cons_eq, List.filterMap_nil, List.append_nil]

theorem count_filterMap_map {α β : Type} [DecidableEq β] {f : α → Option β} {g : α → α} {l : List α}
    {b : β} (h : ∀ a ∈ l, (f (g a)).toList.count b = (f a).toList.count b) :
    ((l.map g).filterMap f).count b = (l.filterMap f).count b := by
  induction l with
  | nil => rfl
  | cons a rest ih =>
    rw [List.map_cons, filterMap_cons_eq, filterMap_cons_eq, List.count_append, List.count_append,
      h a List.mem_cons_self, ih fun x hx => h x (List.mem_cons_of_mem _ hx)]

/-! ### What a job has in hand -/

/-- What the running job has taken and not yet passed on. -/
structure Hand where
  /-- Entries that are about to count down. -/
  owed : List EntryId := []
  waiters : List Waiter := []
  errands : List EntryId := []
  /-- Entries whose loads the job carries on. -/
  stirring : List EntryId := []
  /-- Entries whose loads are about to be told that their fetch is over. -/
  reporting : List EntryId := []
  /-- Entries whose loads have just ended. -/
  unattended : List EntryId := []

/-- The hand after a job has been taken from the queue. -/
def Hand.take (hand : Hand) (job : Job) : Hand where
  owed := hand.owed
  waiters := job.waiter?.toList ++ (job.request?.map .request).toList ++ hand.waiters
  errands := job.errand?.toList ++ hand.errands
  stirring := job.stirs?.toList ++ hand.stirring
  reporting := job.reports?.toList ++ hand.reporting
  unattended := hand.unattended

/-- A job that takes another one's place bears the same burden, but for some requests. -/
structure Job.Replaces (except : List RequestId) (new old : Job) : Prop where
  waiter : ∀ w, (∀ r ∈ except, w ≠ .request r) →
    new.waiter?.toList.count w = old.waiter?.toList.count w
  request : ∀ r, r ∉ except → new.request?.toList.count r = old.request?.toList.count r
  errand : new.errand? = old.errand?
  stirs : new.stirs? = old.stirs?
  reports : new.reports? = old.reports?

/-- The hand after jobs have been taken from the queue. -/
def Hand.takeAll (hand : Hand) (jobs : List Job) : Hand :=
  jobs.foldr (fun job hand => hand.take job) hand

/-- Jobs of one kind carry what each of them does. -/
theorem Hand.takeAll_map {α : Type} (f : α → Job) (w : α → Option Waiter) (e : α → Option EntryId)
    (hf : ∀ (hand : Hand) x, hand.take (f x) = { hand with
      waiters := (w x).toList ++ hand.waiters, errands := (e x).toList ++ hand.errands })
    (hand : Hand) (xs : List α) : hand.takeAll (xs.map f) = { hand with
      waiters := xs.filterMap w ++ hand.waiters, errands := xs.filterMap e ++ hand.errands } := by
  induction xs with
  | nil => rfl
  | cons x rest ih =>
    show (hand.takeAll (rest.map f)).take (f x) = _
    rw [ih, hf, filterMap_cons_eq, filterMap_cons_eq]
    simp only [List.append_assoc]

/-- The hand when an entry has been read: it counts down next, unless it has to ask for its
    ancestor first. -/
def Hand.read (hand : Hand) (e : EntryId) : Option String → Hand
  | none => { hand with owed := e :: hand.owed }
  | some _ => { hand with waiters := .descendant e :: hand.waiters }

theorem Job.count_request?_request (job : Job) (r : RequestId) :
    (job.request?.map Waiter.request).toList.count (.request r) = job.request?.toList.count r := by
  cases job.request? with
  | none => rfl
  | some x => simp [List.count_cons]

theorem Job.count_request?_descendant (job : Job) (e : EntryId) :
    (job.request?.map Waiter.request).toList.count (.descendant e) = 0 := by
  cases job.request? <;> simp

/-- All that holds of a catalog on some terms, up to what is in hand. -/
structure Sound (t : Terms) (cancelled : List RequestId) (hand : Hand) (c : Catalog) : Prop where
  closed : t.Closed c.rules c.limit?
  listing : Listing c.entries
  gates : Gates c.entries c.gates c.requests c.jobs
  ticks : Ticks hand.owed c.entries c.gates
  settled : Settled c.entries c.gates
  ties : Ties hand.waiters c.entries c.jobs
  requests : Requests cancelled hand.waiters c.requests c.entries c.jobs c.gates c.answers
  loads : Loads c.limit? hand.errands c.entries c.loads c.jobs c.postponed
  stirs : Stirs c.limit? hand.stirring hand.reporting c.loads c.jobs
  attended : ¬ t.strands → Attended hand.unattended c.entries c.loads
  faithful : Faithful t cancelled c.awaitedName? c.entries c.loads c.jobs c.answers
  acyclic : Acyclic c.entries

namespace Sound

variable {t : Terms} {cancelled : List RequestId} {hand : Hand} {c : Catalog}

theorem empty {rules : Markup.Rules} {limit? : Option TimeLimit} (h : t.Closed rules limit?) :
    Sound t [] {} (empty rules limit?) where
  closed := h
  listing := .nil
  gates := .nil
  ticks := .nil
  settled := .nil
  ties := .nil
  requests := fun r _ => by simp [places, awaiting, Catalog.empty]
  loads := .nil
  stirs := .nil
  attended _ := .nil
  faithful := .nil
  acyclic := .nil

/-- Reporting an event changes nothing. -/
theorem note (h : Sound t cancelled hand c) (events : List Event) :
    Sound t cancelled hand (c.note events) := { h with }

/-- A request gets its answer. -/
theorem finish {r : RequestId} {outcome : Outcome}
    (h : Sound t cancelled { hand with waiters := .request r :: hand.waiters } c)
    (houtcome : t.Answers cancelled c.awaitedName? (.request r) outcome) :
    Sound t cancelled hand (c.finish r outcome) := by
  refine { h with ties := ?_, requests := ?_, faithful := h.faithful.finish houtcome }
  · exact h.ties.congr (fun e => by simp [Catalog.finish]) fun e => rfl
  · refine h.requests.congr (fun _ => id) fun x _ => ?_
    simp only [places, Catalog.finish, List.map_append, List.map_cons, List.map_nil,
      List.count_append, List.count_cons, List.count_nil, Waiter.request.injEq, beq_iff_eq]
    omega

/-! ### The queue -/

/-- The first job is taken from the queue. -/
theorem pop {job : Job} {rest : List Job} (h : Sound t cancelled hand c)
    (hjobs : c.jobs = job :: rest) :
    Sound t cancelled (hand.take job) { c with jobs := rest } := by
  have hfilter : ∀ {β : Type} (f : Job → Option β),
      c.jobs.filterMap f = (f job).toList ++ rest.filterMap f := by
    intro β f
    rw [hjobs]
    exact filterMap_cons_eq f job rest
  -- What the job carried in the queue is in hand from now on, so no sum changes.
  refine { h with
    gates := h.gates.mono (Nat.le_refl _) fun r hr => hjobs ▸ List.mem_cons_of_mem _ hr
    ties := h.ties.congr (fun e => ?_) fun e => rfl
    requests := h.requests.congr (fun _ => id) fun r _ => ?_
    loads := h.loads.congr fun e => ?_
    stirs := h.stirs.congr (fun e he => ?_) (fun e he => ?_) fun _ e => ?_
    faithful := h.faithful.change_jobs fun other hother =>
      .inl (hjobs ▸ List.mem_cons_of_mem _ hother) }
  · have hrequest := Job.count_request?_descendant job e
    rw [hjobs, count_awaiting_cons]
    simp only [Hand.take, List.count_append, hrequest]
    omega
  · have hrequest := Job.count_request?_request job r
    unfold places
    rw [hfilter Job.request?, hjobs, count_awaiting_cons]
    simp only [Hand.take, List.count_append, hrequest]
    omega
  · simp only [errands, hfilter Job.errand?, Hand.take, List.count_append]
    omega
  · simp only [hfilter Job.stirs?, Hand.take, List.mem_append] at he ⊢
    tauto
  · simp only [hfilter Job.reports?, Hand.take, List.mem_append] at he ⊢
    tauto
  · rw [hjobs]
    exact ⟨List.mem_cons_of_mem _, List.mem_cons_of_mem _⟩

/-- A job is queued. -/
theorem push {job : Job} (h : Sound t cancelled (hand.take job) c)
    (hpass : ∀ r, job = .pass r → ∃ g, c.requests[r]? = some (.gate g))
    (htimed : c.limit? = none → ∀ e, job ≠ .resume e ∧ job ≠ .interrupt e)
    (hjob : FaithfulJob t cancelled c.awaitedName? c.entries c.loads job) :
    Sound t cancelled hand (c.enqueue [job]) := by
  have hwaiter : [job].filterMap Job.waiter? = job.waiter?.toList := by
    rw [filterMap_cons_eq, List.filterMap_nil, List.append_nil]
  -- What was in hand is carried by the job from now on.
  refine { h with
    gates := { h.gates with passing := fun r hr => ?_ }
    ties := h.ties.congr (fun e => ?_) fun e => rfl
    requests := h.requests.congr (fun _ => id) fun r _ => ?_
    loads := h.loads.congr fun e => ?_
    stirs := h.stirs.congr (fun e he => ?_) (fun e he => ?_) fun hlimit e => ?_
    faithful := h.faithful.enqueue fun other hother => ?_ }
  · rcases mem_or_eq_of_mem_concat hr with hr | heq
    · exact h.gates.passing r hr
    · exact hpass r heq.symm
  · have hrequest := Job.count_request?_descendant job e
    simp only [Catalog.enqueue, count_awaiting_append, hwaiter, Hand.take, List.count_append,
      hrequest]
    omega
  · have hrequest := Job.count_request?_request job r
    simp only [places, Catalog.enqueue, filterMap_concat_eq, count_awaiting_append, hwaiter,
      Hand.take, List.count_append, hrequest]
    omega
  · simp only [errands, Catalog.enqueue, filterMap_concat_eq, Hand.take, List.count_append]
    omega
  · simp only [Catalog.enqueue, filterMap_concat_eq, Hand.take, List.mem_append] at he ⊢
    tauto
  · simp only [Catalog.enqueue, filterMap_concat_eq, Hand.take, List.mem_append] at he ⊢
    tauto
  · have hne := htimed hlimit e
    simp only [Catalog.enqueue, List.mem_append, List.mem_singleton]
    exact ⟨fun he => he.resolve_right fun heq => hne.1 heq.symm,
      fun he => he.resolve_right fun heq => hne.2 heq.symm⟩
  · obtain rfl := List.mem_singleton.1 hother
    exact hjob

/-- Jobs are queued one behind the other. -/
theorem pushAll {jobs : List Job} (h : Sound t cancelled (hand.takeAll jobs) c)
    (hpass : ∀ r, .pass r ∈ jobs → ∃ g, c.requests[r]? = some (.gate g))
    (htimed : c.limit? = none → ∀ e, .resume e ∉ jobs ∧ .interrupt e ∉ jobs)
    (hjobs : ∀ job ∈ jobs, FaithfulJob t cancelled c.awaitedName? c.entries c.loads job) :
    Sound t cancelled hand (c.enqueue jobs) := by
  induction jobs generalizing c with
  | nil =>
    show Sound t cancelled hand { c with jobs := c.jobs ++ [] }
    rw [List.append_nil]
    exact h
  | cons job rest ih =>
    have hfirst : Sound t cancelled (hand.takeAll rest) (c.enqueue [job]) := by
      refine push h (fun r heq => hpass r (heq ▸ List.mem_cons_self)) (fun hlimit e => ?_)
        (hjobs job List.mem_cons_self)
      obtain ⟨hresume, hinterrupt⟩ := htimed hlimit e
      refine ⟨fun heq => ?_, fun heq => ?_⟩
      · exact hresume (heq ▸ List.mem_cons_self)
      · exact hinterrupt (heq ▸ List.mem_cons_self)
    have hrest := ih hfirst (fun r hr => hpass r (List.mem_cons_of_mem _ hr))
      (fun hlimit e => ⟨fun he => (htimed hlimit e).1 (List.mem_cons_of_mem _ he),
        fun he => (htimed hlimit e).2 (List.mem_cons_of_mem _ he)⟩)
      fun other hother => hjobs other (List.mem_cons_of_mem _ hother)
    have heq : c.enqueue (job :: rest) = (c.enqueue [job]).enqueue rest := by
      simp [Catalog.enqueue]
    rw [heq]
    exact hrest

/-- Queued jobs are replaced by others of the same burden. -/
theorem mapJobs {cancelled' : List RequestId} (h : Sound t cancelled hand c) {g : Job → Job}
    (hcancelled : ∀ r ∈ cancelled, r ∈ cancelled')
    (hg : ∀ job ∈ c.jobs, g job = job ∨ (g job).Replaces cancelled' job ∧
      FaithfulJob t cancelled' c.awaitedName? c.entries c.loads (g job) ∧
      (∀ r, g job ≠ .pass r) ∧
      (c.limit? = none → ∀ e, g job ≠ .resume e ∧ g job ≠ .interrupt e)) :
    Sound t cancelled' hand { c with jobs := c.jobs.map g } := by
  have hsame : ∀ job ∈ c.jobs, (g job).Replaces cancelled' job := by
    intro job hjob
    rcases hg job hjob with heq | ⟨hreplaces, -⟩
    · rw [heq]
      exact ⟨fun _ _ => rfl, fun _ _ => rfl, rfl, rfl, rfl⟩
    · exact hreplaces
  -- What each job carries is what the one in its place carried.
  have hfilter : ∀ {β : Type} {f : Job → Option β}, (∀ job ∈ c.jobs, f (g job) = f job) →
      (c.jobs.map g).filterMap f = c.jobs.filterMap f := by
    intro β f hf
    rw [List.filterMap_map]
    exact List.filterMap_congr hf
  have herrand := hfilter fun job hjob => (hsame job hjob).errand
  have hstirs := hfilter fun job hjob => (hsame job hjob).stirs
  have hreports := hfilter fun job hjob => (hsame job hjob).reports
  have hwaiter : ∀ w, (∀ r ∈ cancelled', w ≠ .request r) →
      (awaiting c.entries (c.jobs.map g)).count w = (awaiting c.entries c.jobs).count w := by
    intro w hw
    have := count_filterMap_map fun job hjob => (hsame job hjob).waiter w hw
    simp only [awaiting, List.count_append, this]
  have hrequest : ∀ r, r ∉ cancelled' → ((c.jobs.map g).filterMap Job.request?).count r
      = (c.jobs.filterMap Job.request?).count r :=
    fun r hr => count_filterMap_map fun job hjob => (hsame job hjob).request r hr
  -- What is no replacement was queued before.
  have hback : ∀ job', job' ∈ c.jobs.map g → (∀ job ∈ c.jobs, g job = job' → g job = job) →
      job' ∈ c.jobs := by
    intro job' hmem hkept
    obtain ⟨job, hold, rfl⟩ := List.mem_map.1 hmem
    rw [hkept job hold rfl]
    exact hold
  have hfaithful := h.faithful.mono hcancelled fun _ _ => id
  refine { h with
    gates := h.gates.mono (Nat.le_refl _) fun r hr => hback _ hr fun job hjob heq => ?_
    ties := h.ties.congr (fun e => ?_) fun e => rfl
    requests := h.requests.congr hcancelled fun r hr => ?_
    loads := h.loads.congr fun e => ?_
    stirs := h.stirs.congr (fun e he => ?_) (fun e he => ?_) fun hlimit e =>
      ⟨fun he => hback _ he fun job hjob heq => ?_, fun he => hback _ he fun job hjob heq => ?_⟩
    faithful := hfaithful.change_jobs fun job hjob => ?_ }
  · exact (hg job hjob).resolve_right fun hnew => hnew.2.2.1 r heq
  · rw [hwaiter (.descendant e) fun r _ => (Waiter.request_ne_descendant r e).symm]
  · have := hwaiter (.request r) fun x hx heq => hr (by cases heq; exact hx)
    simp only [places, this, hrequest r hr]
  · simp only [errands, herrand]
  · rw [hstirs]
    exact he
  · rw [hreports]
    exact he
  · exact (hg job hjob).resolve_right fun hnew => (hnew.2.2.2 hlimit e).1 heq
  · exact (hg job hjob).resolve_right fun hnew => (hnew.2.2.2 hlimit e).2 heq
  · obtain ⟨old, hold, rfl⟩ := List.mem_map.1 hjob
    rcases hg old hold with heq | ⟨-, hnew, -⟩
    · exact .inl (heq.symm ▸ hold)
    · exact .inr hnew

/-- The answer for a waiter is queued. -/
theorem send {w : Waiter} {outcome : Outcome}
    (h : Sound t cancelled { hand with waiters := w :: hand.waiters } c)
    (houtcome : t.Answers cancelled c.awaitedName? w outcome) :
    Sound t cancelled hand (c.enqueue [w.job outcome]) := by
  cases w with
  | request r =>
    show Sound t cancelled hand (c.enqueue [.answer r outcome])
    exact push h nofun (fun _ _ => ⟨nofun, nofun⟩) houtcome
  | descendant e =>
    show Sound t cancelled hand (c.enqueue [.link e outcome])
    exact push h nofun (fun _ _ => ⟨nofun, nofun⟩) houtcome

end Sound

end TextTemplate.Catalog
