import TextTemplate.Proofs.Catalog.Running

/-! # What is never taken back

  Entries keep their names, and settled ones what they have settled to; gates
  stay where they stand, and open ones open; answers are not changed (`Later`).
  Beyond that, whoever waits at an entry waits there until the entry's answer is
  queued, a fetch that was called off ends as such, and a template is given out
  by a ready entry only.  Every action keeps to this, and every job but for what
  it takes from the queue (`Onward`).
-/

namespace TextTemplate.Catalog

/-! ### Answers to waiters -/

theorem Waiter.job_inj {w w' : Waiter} {outcome outcome' : Outcome}
    (h : w.job outcome = w'.job outcome') : w = w' ∧ outcome = outcome' := by
  cases w <;> cases w' <;> cases h <;> exact ⟨rfl, rfl⟩

@[simp] theorem Waiter.waiter?_job (w : Waiter) (outcome : Outcome) :
    (w.job outcome).waiter? = some w := by
  cases w <;> rfl

/-- Only a ready entry gives a template out. -/
theorem Status.eq_ready_of_outcome? {status : Status} {chain : Chain}
    (h : status.outcome? = some (.ready chain)) : status = .ready chain := by
  cases status <;> cases h
  rfl

/-! ### Waiters, loads that are doomed, answers with a template -/

/-- Can the outcome be told to those who wait at the entry? -/
def Tells (c : Catalog) (e : EntryId) (outcome : Outcome) : Prop :=
  outcome = .cancelled ∨ c.outcome? e = some outcome

/-- The waiter stands at the entry, or will be told by the queue what has become of it. -/
def Awaits (c : Catalog) (e : EntryId) (w : Waiter) : Prop :=
  (∃ a, c.entries[e]? = some a ∧ w ∈ a.waiters) ∨
    ∃ outcome, w.job outcome ∈ c.jobs ∧ c.Tells e outcome

/-- The entry has failed. -/
def HasFailed (c : Catalog) (e : EntryId) : Prop := ∃ error, c.outcome? e = some (.failed error)

/-- A limited load has called off its fetch and has been given an error to end with. -/
def GivenUp (c : Catalog) (e : EntryId) : Prop :=
  ∃ load ∈ c.loads, load.entry = e ∧ load.verdict? ≠ none ∧
    (load.fetched? = none → .drop e ∈ c.jobs)

/-- The entry has failed, or its load will end with an error because its fetch was called off. -/
inductive Doomed (c : Catalog) (e : EntryId) : Prop where
  | failed : c.HasFailed e → Doomed c e
  | dropped : c.limit? = none → .drop e ∈ c.jobs → Doomed c e
  | givenUp : c.limit? ≠ none → c.GivenUp e → Doomed c e

/-- Every template that was given out or is about to be is the one of a ready entry. -/
structure Backed (c : Catalog) : Prop where
  job : ∀ (w : Waiter) (chain : Chain), w.job (.ready chain) ∈ c.jobs →
    ∃ e, c.outcome? e = some (.ready chain)
  answer : ∀ (r : RequestId) (chain : Chain), (r, .ready chain) ∈ c.answers →
    ∃ e, c.outcome? e = some (.ready chain)

/-! ### The relations -/

/-- What holds for good of entries, gates and answers. -/
structure Later (c c' : Catalog) : Prop where
  limit : c'.limit? = c.limit?
  entry : ∀ (e : EntryId) (a : Entry), c.entries[e]? = some a → ∃ b, c'.entries[e]? = some b ∧
    b.name = a.name ∧ (a.isLoading = false → b.status = a.status)
  gate : ∀ (g : GateId) (a : Gate), c.gates[g]? = some a → ∃ b, c'.gates[g]? = some b ∧
    b.entry = a.entry ∧ b.holdsBack = a.holdsBack ∧ (a.released = true → b.released = true)
  answer : ∀ x ∈ c.answers, x ∈ c'.answers

/-- Work has gone on, and nothing that was queued has been lost. -/
structure Onward (c c' : Catalog) : Prop extends Later c c' where
  awaits : ∀ (e : EntryId) (w : Waiter), c.Awaits e w → c'.Awaits e w
  doomed : ∀ e : EntryId, c.Doomed e → c'.Doomed e
  backed : c.Backed → c'.Backed

namespace Later

variable {c c' c'' : Catalog}

theorem refl (c : Catalog) : Later c c where
  limit := rfl
  entry _ a ha := ⟨a, ha, rfl, fun _ => rfl⟩
  gate _ a ha := ⟨a, ha, rfl, rfl, id⟩
  answer _ := id

theorem trans (h : Later c c') (h' : Later c' c'') : Later c c'' where
  limit := h'.limit.trans h.limit
  entry e a ha := by
    obtain ⟨b, hb, hname, hstatus⟩ := h.entry e a ha
    obtain ⟨d, hd, hname', hstatus'⟩ := h'.entry e b hb
    refine ⟨d, hd, hname'.trans hname, fun hsettled => ?_⟩
    have hab := hstatus hsettled
    have hb' : b.isLoading = false := (Entry.isLoading_of_status hab).trans hsettled
    exact (hstatus' hb').trans hab
  gate g a ha := by
    obtain ⟨b, hb, hentry, hholds, hreleased⟩ := h.gate g a ha
    obtain ⟨d, hd, hentry', hholds', hreleased'⟩ := h'.gate g b hb
    exact ⟨d, hd, hentry'.trans hentry, hholds'.trans hholds, fun hr => hreleased' (hreleased hr)⟩
  answer x hx := h'.answer x (h.answer x hx)

/-- A settled entry gives the same answer for good. -/
theorem outcome? (h : Later c c') {e : EntryId} {outcome : Outcome}
    (he : c.outcome? e = some outcome) : c'.outcome? e = some outcome := by
  obtain ⟨a, ha, hsettled, hs⟩ := status_of_outcome? he
  obtain ⟨b, hb, -, hstatus⟩ := h.entry e a ha
  rw [Catalog.outcome?, hb, Option.bind_some, hstatus hsettled]
  exact hs

theorem hasFailed (h : Later c c') {e : EntryId} (he : c.HasFailed e) : c'.HasFailed e :=
  he.imp fun _ => h.outcome?

theorem tells (h : Later c c') {e : EntryId} {outcome : Outcome} (he : c.Tells e outcome) :
    c'.Tells e outcome := he.imp_right h.outcome?

end Later

namespace Onward

variable {c c' c'' : Catalog}

theorem refl (c : Catalog) : Onward c c where
  toLater := .refl c
  awaits _ _ := id
  doomed _ := id
  backed := id

theorem trans (h : Onward c c') (h' : Onward c' c'') : Onward c c'' where
  toLater := h.toLater.trans h'.toLater
  awaits e w hw := h'.awaits e w (h.awaits e w hw)
  doomed e he := h'.doomed e (h.doomed e he)
  backed hc := h'.backed (h.backed hc)

/-! ### The changes of which all others are made -/

/-- Entries and loads change, and jobs are queued. -/
theorem change (more : List Job) (hlimit : c'.limit? = c.limit?) (hgates : c'.gates = c.gates)
    (hanswers : c'.answers = c.answers) (hjobs : c'.jobs = c.jobs ++ more)
    (hloads : ∀ load ∈ c.loads, ∃ load' ∈ c'.loads, load'.entry = load.entry ∧
      (load.verdict? ≠ none → load'.verdict? ≠ none) ∧
      (load'.fetched? = none → load.fetched? = none))
    (hentry : ∀ (e : EntryId) (a : Entry), c.entries[e]? = some a → ∃ b, c'.entries[e]? = some b ∧
      b.name = a.name ∧ (a.isLoading = false → b.status = a.status) ∧
      ∀ w ∈ a.waiters, w ∈ b.waiters ∨ ∃ outcome, w.job outcome ∈ more ∧ c'.Tells e outcome)
    (hready : ∀ (w : Waiter) (chain : Chain), w.job (.ready chain) ∈ more →
      ∃ e, c'.outcome? e = some (.ready chain)) : Onward c c' := by
  have hkept : ∀ job ∈ c.jobs, job ∈ c'.jobs := by
    intro job hjob
    rw [hjobs]
    exact List.mem_append_left _ hjob
  have hlater : Later c c' := by
    refine ⟨hlimit, fun e a ha => ?_, fun g gate hg => ?_, fun x hx => hanswers ▸ hx⟩
    · obtain ⟨b, hb, hname, hstatus, -⟩ := hentry e a ha
      exact ⟨b, hb, hname, hstatus⟩
    · exact ⟨gate, hgates ▸ hg, rfl, rfl, id⟩
  refine ⟨hlater, fun e w hw => ?_, fun e he => ?_,
    fun hc => ⟨fun w chain hw => ?_, fun r chain hr => ?_⟩⟩
  · rcases hw with ⟨a, ha, hw⟩ | ⟨outcome, hjob, htells⟩
    · obtain ⟨b, hb, -, -, hwaiters⟩ := hentry e a ha
      rcases hwaiters w hw with hw | ⟨outcome, hjob, htells⟩
      · exact .inl ⟨b, hb, hw⟩
      · exact .inr ⟨outcome, hjobs ▸ List.mem_append_right _ hjob, htells⟩
    · exact .inr ⟨outcome, hkept _ hjob, hlater.tells htells⟩
  · rcases he with hfailed | ⟨hnone, hdrop⟩ | ⟨hsome, load, hload, heq, hverdict, hdrop⟩
    · exact .failed (hlater.hasFailed hfailed)
    · exact .dropped (hlimit.trans hnone) (hkept _ hdrop)
    · obtain ⟨load', hload', heq', hverdict', hfetched⟩ := hloads load hload
      exact .givenUp (hlimit ▸ hsome) ⟨load', hload', heq'.trans heq, hverdict' hverdict,
        fun hf => hkept _ (hdrop (hfetched hf))⟩
  · rw [hjobs] at hw
    rcases List.mem_append.1 hw with hw | hw
    · obtain ⟨e, he⟩ := hc.job w chain hw
      exact ⟨e, hlater.outcome? he⟩
    · exact hready w chain hw
  · obtain ⟨e, he⟩ := hc.answer r chain (hanswers ▸ hr)
    exact ⟨e, hlater.outcome? he⟩

theorem loads_kept (h : c'.loads = c.loads) : ∀ load ∈ c.loads, ∃ load' ∈ c'.loads,
    load'.entry = load.entry ∧ (load.verdict? ≠ none → load'.verdict? ≠ none) ∧
      (load'.fetched? = none → load.fetched? = none) :=
  fun load hload => ⟨load, h ▸ hload, rfl, id, id⟩

/-- Entries stay as they are, and nobody is answered. -/
theorem aside (more : List Job) (hlimit : c'.limit? = c.limit?) (hentries : c'.entries = c.entries)
    (hgates : c'.gates = c.gates) (hanswers : c'.answers = c.answers)
    (hjobs : c'.jobs = c.jobs ++ more)
    (hloads : ∀ load ∈ c.loads, ∃ load' ∈ c'.loads, load'.entry = load.entry ∧
      (load.verdict? ≠ none → load'.verdict? ≠ none) ∧
      (load'.fetched? = none → load.fetched? = none))
    (hmore : ∀ job ∈ more, job.waiter? = none) : Onward c c' := by
  refine change more hlimit hgates hanswers hjobs hloads
    (fun _ a ha => ⟨a, hentries ▸ ha, rfl, fun _ => rfl, fun _ => .inl⟩) fun w chain hw => ?_
  have hnone := hmore _ hw
  rw [Waiter.waiter?_job] at hnone
  cases hnone

/-- Nothing changes that matters to anybody who waits. -/
theorem idle (hlimit : c'.limit? = c.limit?) (hentries : c'.entries = c.entries)
    (hgates : c'.gates = c.gates) (hanswers : c'.answers = c.answers) (hloads : c'.loads = c.loads)
    (hjobs : c'.jobs = c.jobs) : Onward c c' :=
  aside [] hlimit hentries hgates hanswers (hjobs.trans (List.append_nil _).symm)
    (loads_kept hloads) nofun

/-- One entry changes. -/
theorem modify {e : EntryId} {f : Entry → Entry} (more : List Job) (hlimit : c'.limit? = c.limit?)
    (hentries : c'.entries = c.entries.modify e f) (hgates : c'.gates = c.gates)
    (hanswers : c'.answers = c.answers) (hloads : c'.loads = c.loads)
    (hjobs : c'.jobs = c.jobs ++ more)
    (hf : ∀ a, c.entries[e]? = some a → (f a).name = a.name ∧
      (a.isLoading = false → (f a).status = a.status) ∧
      ∀ w ∈ a.waiters, w ∈ (f a).waiters ∨ ∃ outcome, w.job outcome ∈ more ∧
        (outcome = .cancelled ∨ (f a).status.outcome? = some outcome))
    (hready : ∀ (w : Waiter) (chain : Chain), w.job (.ready chain) ∈ more →
      ∃ a, c.entries[e]? = some a ∧ (f a).status = .ready chain) : Onward c c' := by
  have houtcome : ∀ a, c.entries[e]? = some a →
      c'.outcome? e = (f a).status.outcome? := by
    intro a ha
    simp [outcome?, hentries, ha]
  refine change more hlimit hgates hanswers hjobs
    (fun load hload => ⟨load, hloads ▸ hload, rfl, id, id⟩) (fun x a ha => ?_)
    fun w chain hw => ?_
  · rw [hentries]
    by_cases hex : e = x
    · subst hex
      obtain ⟨hname, hstatus, hwaiters⟩ := hf a ha
      refine ⟨f a, by simp [ha], hname, hstatus, fun w hw => ?_⟩
      rcases hwaiters w hw with hstays | ⟨outcome, hjob, htells⟩
      · exact .inl hstays
      · exact .inr ⟨outcome, hjob, htells.imp_right ((houtcome a ha).trans ·)⟩
    · refine ⟨a, ?_, rfl, fun _ => rfl, fun _ => .inl⟩
      rw [List.getElem?_modify_ne _ _ hex]
      exact ha
  · obtain ⟨a, ha, hstatus⟩ := hready w chain hw
    refine ⟨e, ?_⟩
    rw [houtcome a ha, hstatus]
    rfl

/-- Gates change, and stay where they are. -/
theorem gates {gates' : List Gate}
    (hgate : ∀ (g : GateId) (a : Gate), c.gates[g]? = some a → ∃ b, gates'[g]? = some b ∧
      b.entry = a.entry ∧ b.holdsBack = a.holdsBack ∧ (a.released = true → b.released = true)) :
    Onward c { c with gates := gates' } where
  toLater := { Later.refl c with gate := hgate }
  awaits _ _ := id
  doomed _ he := by
    rcases he with hfailed | ⟨hnone, hdrop⟩ | ⟨hsome, hgiven⟩
    · exact .failed hfailed
    · exact .dropped hnone hdrop
    · exact .givenUp hsome hgiven
  backed hc := ⟨hc.job, hc.answer⟩

/-- One gate changes, and stays where it is. -/
theorem setGate {g : GateId} {old new : Gate} (hg : c.gates[g]? = some old)
    (hentry : new.entry = old.entry) (hholds : new.holdsBack = old.holdsBack)
    (hreleased : old.released = true → new.released = true) :
    Onward c { c with gates := c.gates.set g new } := by
  have hlt : g < c.gates.length := (List.getElem?_eq_some_iff.1 hg).1
  refine gates fun x a ha => ?_
  by_cases hgx : g = x
  · subst hgx
    rw [hg] at ha
    obtain rfl := Option.some.inj ha
    exact ⟨new, List.getElem?_set_self hlt, hentry, hholds, hreleased⟩
  · refine ⟨a, ?_, rfl, rfl, id⟩
    rw [List.getElem?_set_ne hgx]
    exact ha

/-- Queued jobs are replaced, and answers by the one that it was cancelled. -/
theorem mapJobs {g : Job → Job}
    (hanswer : ∀ (w : Waiter) (outcome : Outcome),
      g (w.job outcome) = w.job outcome ∨ g (w.job outcome) = w.job .cancelled)
    (hdrop : ∀ e, g (.drop e) = .drop e)
    (hready : ∀ (job : Job) (w : Waiter) (chain : Chain), g job = w.job (.ready chain) →
      job = w.job (.ready chain)) : Onward c { c with jobs := c.jobs.map g } where
  toLater := { Later.refl c with }
  awaits e w hw := by
    rcases hw with hw | ⟨outcome, hjob, htells⟩
    · exact .inl hw
    · have hmem := List.mem_map_of_mem (f := g) hjob
      rcases hanswer w outcome with heq | heq
      · exact .inr ⟨outcome, heq ▸ hmem, htells⟩
      · exact .inr ⟨.cancelled, heq ▸ hmem, .inl rfl⟩
  doomed e he := by
    have hkept : .drop e ∈ c.jobs → .drop e ∈ c.jobs.map g := fun hmem =>
      List.mem_map.2 ⟨_, hmem, hdrop e⟩
    rcases he with hfailed | ⟨hnone, hmem⟩ | ⟨hsome, load, hload, heq, hverdict, hmem⟩
    · exact .failed hfailed
    · exact .dropped hnone (hkept hmem)
    · exact .givenUp hsome ⟨load, hload, heq, hverdict, fun hf => hkept (hmem hf)⟩
  backed hc := by
    refine ⟨fun w chain hw => ?_, hc.answer⟩
    obtain ⟨job, hjob, heq⟩ := List.mem_map.1 hw
    exact hc.job w chain (hready job w chain heq ▸ hjob)

/-- A request gets an answer, which is not made up. -/
theorem finish {r : RequestId} {outcome : Outcome}
    (houtcome : ∀ chain, outcome = .ready chain → ∃ e, c.outcome? e = some (.ready chain)) :
    Onward c (c.finish r outcome) where
  toLater := { Later.refl c with answer := fun _ => List.mem_append_left _ }
  awaits _ _ := id
  doomed _ he := by
    rcases he with hfailed | ⟨hnone, hdrop⟩ | ⟨hsome, hgiven⟩
    · exact .failed hfailed
    · exact .dropped hnone hdrop
    · exact .givenUp hsome hgiven
  backed hc := by
    refine ⟨hc.job, fun x chain hx => ?_⟩
    rcases mem_or_eq_of_mem_concat hx with hx | heq
    · exact hc.answer x chain hx
    · exact houtcome chain (Prod.mk.inj heq).2.symm

/-- A load ends; if it has been given up, its entry has failed. -/
theorem endLoad {e : EntryId} (h : c.limit? ≠ none → c.GivenUp e → c.HasFailed e) :
    Onward c (c.endLoad e) where
  toLater := { Later.refl c with }
  awaits _ _ := id
  doomed x hx := by
    rcases hx with hfailed | ⟨hnone, hdrop⟩ | ⟨hsome, load, hload, rfl, hgiven⟩
    · exact .failed hfailed
    · exact .dropped hnone hdrop
    · by_cases heq : load.entry = e
      · exact .failed (heq ▸ h hsome ⟨load, hload, heq, heq ▸ hgiven⟩)
      · have hstays : load ∈ c.loads.filter (·.entry != e) :=
          List.mem_filter.2 ⟨hload, by simpa using heq⟩
        exact .givenUp hsome ⟨load, hstays, rfl, hgiven⟩
  backed hc := ⟨hc.job, hc.answer⟩

/-! ### Settling -/

theorem note (c : Catalog) (events : List Event) : Onward c (c.note events) :=
  idle rfl rfl rfl rfl rfl rfl

theorem enqueue {more : List Job} (hmore : ∀ job ∈ more, job.waiter? = none) :
    Onward c (c.enqueue more) :=
  aside more rfl rfl rfl rfl rfl (loads_kept rfl) hmore

/-- An entry takes note of something. -/
theorem modifyEntry {e : EntryId} {f : Entry → Entry}
    (hf : ∀ a, (f a).name = a.name ∧ (f a).status = a.status ∧ ∀ w ∈ a.waiters, w ∈ (f a).waiters) :
    Onward c (c.modifyEntry e f) :=
  modify [] rfl rfl rfl rfl rfl (List.append_nil _).symm
    (fun a _ => ⟨(hf a).1, fun _ => (hf a).2.1, fun w hw => .inl ((hf a).2.2 w hw)⟩)
    fun _ _ hw => absurd hw List.not_mem_nil

/-- A loading entry settles, and all who wait there will be told. -/
theorem settle {e : EntryId} {a b : Entry} {status : Status} {outcome : Outcome}
    (ha : c.entries[e]? = some a) (hloading : a.isLoading = true) (hname : b.name = a.name)
    (hwaiters : b.waiters = a.waiters) (hs : status.outcome? = some outcome) :
    Onward c (c.settle e b status outcome) := by
  refine modify (f := fun _ => { b with status := status, waiters := [] })
    (b.waiters.map (·.job outcome)) rfl (set_eq_modify _ _ _) rfl rfl rfl rfl (fun x hx => ?_)
    fun w chain hw => ?_
  · rw [ha] at hx
    obtain rfl := Option.some.inj hx
    refine ⟨hname, fun hsettled => ?_, fun w hw => .inr ⟨outcome, ?_, .inr hs⟩⟩
    · rw [hloading] at hsettled
      cases hsettled
    · rw [hwaiters]
      exact List.mem_map_of_mem hw
  · obtain ⟨w', -, heq⟩ := List.mem_map.1 hw
    obtain ⟨-, rfl⟩ := Waiter.job_inj heq
    exact ⟨a, ha, Status.eq_ready_of_outcome? hs⟩

theorem fail (c : Catalog) (e : EntryId) (error : LoadError) : Onward c (c.fail e error) := by
  unfold Catalog.fail
  split
  · exact .refl c
  · next a ha =>
    split
    · next hloading => exact (note c _).trans (settle ha hloading rfl rfl rfl)
    · exact .refl c

theorem countDown (c : Catalog) (e : EntryId) : Onward c (c.countDown e) := by
  unfold Catalog.countDown
  split
  · exact .refl c
  · next a ha =>
    split
    · exact .refl c
    · next hloading =>
      split
      · exact modifyEntry fun a => ⟨rfl, rfl, fun _ => id⟩
      · split
        · exact .refl c
        · exact (note c _).trans (settle ha (by simpa using hloading) rfl rfl rfl)

theorem ensure (c : Catalog) (name : String) : Onward c (c.ensure name).2 := by
  unfold Catalog.ensure
  split
  · exact .refl c
  · refine change [.load c.entries.length] rfl rfl rfl rfl (fun load hload => ?_)
      (fun e a ha => ?_) fun w chain hw => ?_
    · exact ⟨load, List.mem_append_left _ hload, rfl, id, id⟩
    · exact ⟨a, getElem?_append_of_some ha _, rfl, fun _ => rfl, fun _ => .inl⟩
    · cases w <;> cases List.mem_singleton.1 hw

theorem addWaiter (c : Catalog) (e : EntryId) (w : Waiter) : Onward c (c.addWaiter e w) :=
  modifyEntry fun _ => ⟨rfl, rfl, fun _ => List.mem_append_left _⟩

/-- The answer of an entry is queued for someone. -/
theorem sendLink {a : EntryId} {outcome : Outcome} (h : c.outcome? a = some outcome) (e : EntryId) :
    Onward c (c.enqueue [.link e outcome]) := by
  refine change [.link e outcome] rfl rfl rfl rfl (loads_kept rfl)
    (fun _ a ha => ⟨a, ha, rfl, fun _ => rfl, fun _ => .inl⟩) fun w chain hw => ⟨a, ?_⟩
  have heq : w.job (.ready chain) = (Waiter.descendant e).job outcome := List.mem_singleton.1 hw
  obtain ⟨-, rfl⟩ := Waiter.job_inj heq
  exact h

theorem await (c : Catalog) (r : RequestId) (e : EntryId) : Onward c (c.await r e) := by
  unfold Catalog.await
  split
  · next outcome houtcome => exact finish fun chain heq => ⟨e, heq ▸ houtcome⟩
  · exact addWaiter c e _

theorem requestAncestor (c : Catalog) (e : EntryId) (name ancestor : String) :
    Onward c (c.requestAncestor e name ancestor) := by
  unfold Catalog.requestAncestor
  split
  · exact fail c e _
  · refine (ensure c ancestor).trans ?_
    generalize c.ensure ancestor = ensured
    obtain ⟨a, c'⟩ := ensured
    dsimp only
    split
    · next houtcome => exact sendLink houtcome e
    · exact addWaiter c' a _

theorem link (c : Catalog) (e : EntryId) (outcome : Outcome) : Onward c (c.link e outcome) := by
  unfold Catalog.link
  cases outcome with
  | cancelled => exact fail c e _
  | failed error => exact fail c e _
  | ready chain =>
    dsimp only
    split
    · exact .refl c
    · have hattached : Onward c (c.modifyEntry e fun entry =>
          { entry with ancestor? := some chain }) := modifyEntry fun _ => ⟨rfl, rfl, fun _ => id⟩
      exact hattached.trans (countDown _ e)

/-- A loading entry has failed after it was made to. -/
theorem outcome?_fail {e : EntryId} {a : Entry} (ha : c.entries[e]? = some a)
    (hloading : a.isLoading = true) (error : LoadError) :
    (c.fail e error).outcome? e = some (.failed error) := by
  have hlt : e < c.entries.length := (List.getElem?_eq_some_iff.1 ha).1
  simp only [Catalog.fail, ha, hloading, if_true, Catalog.settle, Catalog.note, Catalog.outcome?]
  rw [List.getElem?_set_self hlt]
  rfl

/-! ### Loading -/

theorem readText (c : Catalog) (e : EntryId) (name text : String) :
    Onward c (c.readText e name text) := by
  unfold Catalog.readText
  dsimp only
  have hfetched := note c (.fetched name text.length ::
    (Markup.Document.read c.rules text).remarks.map (.doubtful name))
  refine hfetched.trans ?_
  split
  · exact fail _ e _
  · next document _ =>
    refine (note _ [.parsed name document]).trans ?_
    have hread (c : Catalog) : Onward c (c.modifyEntry e fun entry =>
        { entry with document? := some document }) := modifyEntry fun _ => ⟨rfl, rfl, fun _ => id⟩
    have hcounted (c : Catalog) : Onward c (c.modifyEntry e fun entry =>
        { entry with pending := entry.pending + 1 }) := modifyEntry fun _ => ⟨rfl, rfl, fun _ => id⟩
    refine (hread _).trans ?_
    split
    · exact countDown _ e
    · exact ((hcounted _).trans (requestAncestor _ e name _)).trans (countDown _ e)

/-- A load that has not been given up ends with what the store has given. -/
theorem conclude {e : EntryId} (h : c.limit? ≠ none → ¬ c.GivenUp e) (fetched : Fetched) :
    Onward c (c.conclude e fetched) := by
  unfold Catalog.conclude
  dsimp only
  refine (endLoad fun hsome hgiven => absurd hgiven (h hsome)).trans ?_
  split
  · exact readText _ e _ _
  · split
    · exact fail _ e _
    · exact .refl _

/-- A load of a loading entry ends with an error of its own. -/
theorem giveUp {e : EntryId} {a : Entry} (ha : c.entries[e]? = some a)
    (hloading : a.isLoading = true) (error : LoadError) : Onward c (c.giveUp e error) := by
  -- The entry may as well fail first, and the load end then.
  have heq : c.giveUp e error = (c.fail e error).endLoad e := by
    simp only [Catalog.giveUp, Catalog.fail, Catalog.endLoad, ha, hloading, if_true]
    rfl
  rw [heq]
  exact (fail c e error).trans (endLoad fun _ _ => ⟨error, outcome?_fail ha hloading error⟩)

/-! ### Fetches -/

/-- A load takes note of something. -/
theorem modifyLoad {e : EntryId} {f : Load → Load}
    (hf : ∀ load, (f load).entry = load.entry ∧
      (load.verdict? ≠ none → (f load).verdict? ≠ none) ∧
      ((f load).fetched? = none → load.fetched? = none)) : Onward c (c.modifyLoad e f) := by
  refine aside [] rfl rfl rfl rfl (List.append_nil _).symm (fun load hload => ?_) nofun
  refine ⟨if load.entry == e then f load else load, List.mem_map_of_mem hload, ?_⟩
  split
  · exact hf load
  · exact ⟨rfl, id, id⟩

/-- The end of a fetch that was not called off, or without a time limit. -/
theorem endFetch (c : Catalog) (e : EntryId) (fetched : Fetched) :
    Onward c (c.endFetch e fetched) := by
  unfold Catalog.endFetch
  split
  · next hnone => exact conclude (fun hsome => absurd hnone hsome) fetched
  · have htold : Onward c (c.modifyLoad e fun load => { load with fetched? := some fetched }) :=
      modifyLoad fun _ => ⟨rfl, id, nofun⟩
    exact htold.trans (enqueue (by simp [Job.waiter?]))

theorem receive (c : Catalog) (e : EntryId) (name : String) (reply : Reply) :
    Onward c (c.receive e name reply) :=
  (note c _).trans (endFetch _ e _)

theorem startFetch (c : Catalog) (e : EntryId) (name : String) (store : String → Reply) :
    Onward c ((c.startFetch e name).resolve store) := by
  unfold Catalog.startFetch
  split
  · exact idle rfl rfl rfl rfl rfl rfl
  · exact receive c e name _

theorem callOff (c : Catalog) (e : EntryId) : Onward c (c.callOff e) := by
  unfold Catalog.callOff
  split
  · exact aside [.drop e] rfl rfl rfl rfl rfl (loads_kept rfl) (by simp [Job.waiter?])
  · refine mapJobs (fun w _ => ?_) (fun _ => rfl) fun job w chain heq => ?_
    · cases w <;> exact .inl rfl
    · cases job with
      | fetch x | read x => cases w <;> (dsimp only at heq; split at heq <;> cases heq)
      | _ => exact heq

theorem abandon (c : Catalog) (e : EntryId) (error : LoadError) : Onward c (c.abandon e error) := by
  have hgiven : Onward c (c.modifyLoad e fun load =>
      { load with asleep := true, verdict? := some error }) :=
    modifyLoad fun _ => ⟨rfl, fun _ => nofun, id⟩
  exact hgiven.trans (callOff _ e)

/-! ### The course of a load -/

theorem startLoad (c : Catalog) (e : EntryId) (store : String → Reply) :
    Onward c ((c.startLoad e).resolve store) := by
  have hfetch (c : Catalog) : Onward c (c.enqueue [.fetch e]) :=
    enqueue (by simp [Job.waiter?])
  have hsleep (c : Catalog) : Onward c (c.modifyLoad e fun load => { load with asleep := true }) :=
    modifyLoad fun _ => ⟨rfl, id, id⟩
  unfold Catalog.startLoad
  dsimp only
  refine (note c [.fetching (c.entries[e]?.elim "" (·.name))]).trans ?_
  split
  · exact startFetch _ e _ store
  · split
    · exact (hfetch _).trans (abandon _ e _)
    · refine Onward.trans ?_ ((hfetch _).trans (hsleep _))
      exact idle rfl rfl rfl rfl rfl rfl
    · exact (hfetch _).trans (hsleep _)

theorem wake (c : Catalog) (e : EntryId) : Onward c (c.wake e) := by
  unfold Catalog.wake
  split
  · exact .refl c
  · split
    · have hawake : Onward c (c.modifyLoad e fun load => { load with asleep := false }) :=
        modifyLoad fun _ => ⟨rfl, id, id⟩
      exact hawake.trans (enqueue (by simp [Job.waiter?]))
    · exact .refl c

theorem expire (c : Catalog) (e : EntryId) : Onward c (c.expire e) := by
  unfold Catalog.expire
  split
  · exact wake c e
  · exact .refl c

/-! ### What is asked of a catalog -/

theorem takeGate (c : Catalog) (name : String) : Onward c (c.gate name).2 := by
  unfold Catalog.gate
  refine (ensure c name).trans ?_
  generalize c.ensure name = ensured
  obtain ⟨e, c'⟩ := ensured
  dsimp only
  have hcounted : Onward c' (c'.modifyEntry e fun entry =>
      { entry with pending := entry.pending + 1 }) := modifyEntry fun _ => ⟨rfl, rfl, fun _ => id⟩
  have hput (c : Catalog) (gate : Gate) : Onward c { c with gates := c.gates ++ [gate] } :=
    gates fun g a ha => ⟨a, getElem?_append_of_some ha _, rfl, rfl, id⟩
  split
  · exact hcounted.trans (hput _ _)
  · exact hput _ _

theorem release (c : Catalog) (g : GateId) : Onward c ((c.release g).toOption.getD c) := by
  unfold Catalog.release
  split
  · exact .refl c
  · next gate hg =>
    split
    · exact .refl c
    · have hopened : Onward c { c with
          gates := c.gates.set g { gate with released := true, waiters := [] } } :=
        setGate hg rfl rfl fun _ => rfl
      have hpassing (c : Catalog) (rs : List RequestId) : Onward c (c.enqueue (rs.map .pass)) :=
        enqueue (by simp [Job.waiter?])
      have hthrough := hopened.trans (hpassing _ gate.waiters)
      dsimp only [Except.toOption, Option.getD_some]
      split
      · exact hthrough.trans (countDown _ _)
      · exact hthrough

theorem evict (c : Catalog) (name : String) : Onward c (c.evict name).2 := by
  unfold Catalog.evict
  split
  · exact .refl c
  · split
    · exact modifyEntry fun _ => ⟨rfl, rfl, fun _ => id⟩
    · exact .refl c

theorem clear (c : Catalog) : Onward c c.clear.2 := by
  refine change [] rfl rfl rfl (List.append_nil _).symm (loads_kept rfl) (fun e a ha => ?_)
    fun _ _ hw => absurd hw List.not_mem_nil
  refine ⟨if a.isRemovable then { a with listed := false } else a, ?_, ?_⟩
  · simp [Catalog.clear, ha]
  · split <;> exact ⟨rfl, fun _ => rfl, fun _ => .inl⟩

theorem cancel (c : Catalog) (r : RequestId) : Onward c (c.cancel r).2 := by
  unfold Catalog.cancel
  split
  · refine mapJobs (fun w outcome => ?_) (fun _ => rfl) fun job w chain heq => ?_
    · cases w with
      | descendant e => exact .inl rfl
      | request x =>
        by_cases hxr : x = r
        · subst hxr
          exact .inr (by simp [Job.cancelled, Job.isFor, Waiter.job])
        · exact .inl (by simp [Job.cancelled, Job.isFor, Waiter.job, hxr])
    · unfold Job.cancelled at heq
      split at heq
      · -- What comes in the place of a cancelled request's job brings no template.
        split at heq <;> cases w <;> cases heq
      · exact heq
  · split
    · let left (a : Entry) : Entry := { a with waiters := a.waiters.filter (· != .request r) }
      have hentries : Onward c { c with
          entries := c.entries.map left, jobs := c.jobs ++ [.answer r .cancelled] } := by
        refine change [.answer r .cancelled] rfl rfl rfl rfl (loads_kept rfl) (fun e a ha => ?_)
          fun w chain hw => ?_
        · refine ⟨left a, by simp [ha], rfl, fun _ => rfl, fun w hw => ?_⟩
          by_cases hwr : w = .request r
          · subst hwr
            exact .inr ⟨.cancelled, List.mem_singleton_self _, .inl rfl⟩
          · exact .inl (List.mem_filter.2 ⟨hw, by simpa using hwr⟩)
        · cases w <;> cases List.mem_singleton.1 hw
      refine hentries.trans (gates fun g a ha => ?_)
      exact ⟨{ a with waiters := a.waiters.filter (· != r) }, by simp [ha], rfl, rfl, id⟩
    · exact .refl c

theorem cancelLoad (c : Catalog) (e : EntryId) : Onward c (c.cancelLoad e) := by
  unfold Catalog.cancelLoad
  split
  · refine mapJobs (fun w _ => ?_) (fun _ => rfl) fun job w chain heq => ?_
    · cases w <;> exact .inl rfl
    · cases job with
      | load x => cases w <;> (dsimp only at heq; split at heq <;> cases heq)
      | _ => exact heq
  · split
    · exact callOff c e
    · split
      · have hawake : Onward c (c.modifyLoad e fun load => { load with asleep := false }) :=
          modifyLoad fun _ => ⟨rfl, id, id⟩
        exact hawake.trans (enqueue (by simp [Job.waiter?]))
      · refine mapJobs (fun w _ => ?_) (fun _ => rfl) fun job w chain heq => ?_
        · cases w <;> exact .inl rfl
        · cases job with
          | resume x => cases w <;> (dsimp only at heq; split at heq <;> cases heq)
          | _ => exact heq

theorem cancelLoads (c : Catalog) (name : String) : Onward c (c.cancelLoads name).2 := by
  unfold Catalog.cancelLoads
  dsimp only
  generalize (c.loads.map (·.entry)).filter _ = running
  induction running generalizing c with
  | nil => exact .refl c
  | cons e rest ih => exact (cancelLoad c e).trans (ih _)

theorem cancelWaiters (c : Catalog) (name : String) : Onward c (c.cancelWaiters name) := by
  unfold Catalog.cancelWaiters
  split
  · exact .refl c
  · next e _ =>
    dsimp only
    refine modify (f := fun entry => { entry with waiters := [] }) _ rfl rfl rfl rfl rfl rfl
      (fun a ha => ⟨rfl, fun _ => rfl, fun w hw => ?_⟩) fun w chain hw => ?_
    · refine .inr ⟨.cancelled, ?_, .inl rfl⟩
      rw [ha]
      exact List.mem_map_of_mem hw
    · obtain ⟨_, -, heq⟩ := List.mem_map.1 hw
      cases (Waiter.job_inj heq).2

theorem unhold (c : Catalog) (name : String) : Onward c (c.unhold name) := by
  refine aside _ rfl rfl rfl rfl rfl (loads_kept rfl) fun job hjob => ?_
  obtain ⟨e, -, rfl⟩ := List.mem_map.1 hjob
  rfl

theorem ring (c : Catalog) : Onward c c.ring := by
  refine aside _ rfl rfl rfl rfl rfl (loads_kept rfl) fun job hjob => ?_
  obtain ⟨alarm, -, rfl⟩ := List.mem_map.1 hjob
  rfl

/-- All that is asked from outside leads onward. -/
theorem step (c : Catalog) {a : Action} (ha : ∀ store, a ≠ .turn store) : Onward c (c.step a) := by
  cases a with
  | request target =>
    show Onward c (if c.offers target then (c.request target).2 else c)
    split
    · exact aside [.start c.requests.length] rfl rfl rfl rfl rfl (loads_kept rfl)
        (by simp [Job.waiter?])
    · exact .refl c
  | gate name => exact takeGate c name
  | release g => exact release c g
  | evict name => exact evict c name
  | clear => exact clear c
  | cancel r => exact cancel c r
  | cancelLoads name => exact cancelLoads c name
  | cancelWaiters name => exact cancelWaiters c name
  | hold name => exact idle rfl rfl rfl rfl rfl rfl
  | unhold name => exact unhold c name
  | advance nanoseconds => exact idle rfl rfl rfl rfl rfl rfl
  | ring => exact ring c
  | turn store => exact absurd rfl (ha store)

end Onward

/-! ### Jobs -/

namespace Sound

variable {t : Terms} {cancelled : List RequestId} {hand : Hand} {c : Catalog}

/-- An entry has one load, so what that load has not been given the entry's load has not. -/
theorem not_givenUp (h : Sound t cancelled hand c) {e : EntryId} {load : Load}
    (hload : c.load? e = some load) (hverdict : load.verdict? = none) : ¬ c.GivenUp e := by
  rintro ⟨other, hother, heq, hgiven, -⟩
  rw [h.eq_of_load? hload other hother heq] at hgiven
  exact hgiven hverdict

theorem onward_resumeLoad (h : Sound t cancelled hand c) (e : EntryId) :
    Onward c (c.resumeLoad e) := by
  unfold Catalog.resumeLoad
  split
  · exact .refl c
  · next load hload =>
    obtain ⟨hmem, rfl⟩ := mem_of_load? hload
    obtain ⟨a, ha, hloading, -⟩ := h.loads.unread load hmem
    split
    · exact .giveUp ha hloading _
    · next hverdict _ => exact .conclude (fun _ => h.not_givenUp hload hverdict) _
    · exact .abandon c _ _

theorem onward_interruptLoad (h : Sound t cancelled hand c) (e : EntryId) :
    Onward c (c.interruptLoad e) := by
  unfold Catalog.interruptLoad
  split
  · exact .refl c
  · next load hload =>
    obtain ⟨hmem, rfl⟩ := mem_of_load? hload
    obtain ⟨a, ha, hloading, -⟩ := h.loads.unread load hmem
    split
    · exact .giveUp ha hloading _
    · next hverdict _ => exact .conclude (fun _ => h.not_givenUp hload hverdict) _
    · exact .abandon c _ _

/-- A load that is skipped has not been given up, for it has not begun. -/
theorem onward_skip {e : EntryId}
    (h : Sound t cancelled { errands := [e], stirring := [e] } c) : Onward c (c.endLoad e) := by
  refine .endLoad fun _ hgiven => ?_
  obtain ⟨load, hload, heq, -, hdrop⟩ := hgiven
  have hmem : .drop e ∈ c.jobs := hdrop (h.loads.fetched?_of_inHand hload heq)
  refine absurd ?_ h.loads.not_mem_of_inHand
  exact List.mem_append_right _ (List.mem_append_left _ (List.mem_filterMap.2 ⟨_, hmem, rfl⟩))

/-- A job leads onward from the catalog whose queue it has left. -/
theorem onward_perform {job : Job} (h : Sound t cancelled (Hand.take {} job) c)
    (hbacked : ∀ (w : Waiter) (chain : Chain), job = w.job (.ready chain) →
      ∃ e, c.outcome? e = some (.ready chain))
    (store : String → Reply) : Onward c ((c.perform job).resolve store) := by
  cases job with
  | start r =>
    unfold Catalog.perform
    dsimp only
    split
    · exact .refl c
    · next name _ => exact (Onward.ensure c name).trans (.await _ r _)
    · split
      · exact .refl c
      · next hg =>
        split
        · exact .await c r _
        · exact .setGate hg rfl rfl id
  | dismiss r => exact .refl c
  | pass r =>
    unfold Catalog.perform
    dsimp only
    split
    · next g _ =>
      cases c.gates[g]? with
      | none => exact .refl c
      | some gate => exact .await c r gate.entry
    · exact .refl c
  | answer r outcome => exact .finish fun chain heq => hbacked (.request r) chain (heq ▸ rfl)
  | link e outcome => exact .link c e outcome
  | load e => exact .startLoad c e store
  | skip e => exact onward_skip h
  | fetch e => exact .startFetch c e _ store
  | read e => exact .receive c e _ _
  | drop e => exact .endFetch c e _
  | report e => exact .wake c e
  | expire e => exact .expire c e
  | resume e => exact h.onward_resumeLoad e
  | interrupt e => exact h.onward_interruptLoad e

/-! ### Runs -/

/-- A turn takes the first job from the queue and leads onward from there, if there is a job. -/
theorem turn_cases (h : Sound t cancelled {} c) (hbacked : c.Backed) (store : String → Reply) :
    c.jobs = [] ∧ c.step (.turn store) = c ∨ ∃ job rest, c.jobs = job :: rest ∧
      c.step (.turn store) = ({ c with jobs := rest }.perform job).resolve store ∧
      Onward { c with jobs := rest } (c.step (.turn store)) := by
  cases hjobs : c.jobs with
  | nil => exact .inl ⟨rfl, by simp [Catalog.step, turn?, hjobs]⟩
  | cons job rest =>
    have hstep : c.step (.turn store) = ({ c with jobs := rest }.perform job).resolve store := by
      simp [Catalog.step, turn?, hjobs]
    refine .inr ⟨job, rest, rfl, hstep, ?_⟩
    rw [hstep]
    refine (h.pop hjobs).onward_perform (fun w chain heq => ?_) store
    exact hbacked.job w chain (hjobs ▸ heq ▸ List.mem_cons_self)

/-- After an action, all that is there for good is there, and every template comes from an entry. -/
theorem later_step (h : Sound t cancelled {} c) (hbacked : c.Backed) (a : Action) :
    Later c (c.step a) ∧ (c.step a).Backed := by
  have hasked : (∀ store, a ≠ .turn store) → Later c (c.step a) ∧ (c.step a).Backed := by
    intro ha
    have honward := Onward.step c ha
    exact ⟨honward.toLater, honward.backed hbacked⟩
  cases a with
  | turn store =>
    rcases h.turn_cases hbacked store with ⟨-, hstep⟩ | ⟨job, rest, hjobs, -, honward⟩
    · rw [hstep]
      exact ⟨.refl c, hbacked⟩
    · refine ⟨{ honward.toLater with }, honward.backed ⟨fun w chain hw => ?_, hbacked.answer⟩⟩
      exact hbacked.job w chain (hjobs ▸ List.mem_cons_of_mem _ hw)
  | _ => exact hasked nofun

theorem later_after (h : Sound t cancelled {} c) (hbacked : c.Backed) {actions : List Action}
    (hactions : ∀ a ∈ actions, t.Allows a) :
    Later c (c.after actions) ∧ (c.after actions).Backed := by
  induction actions generalizing c cancelled with
  | nil => exact ⟨.refl c, hbacked⟩
  | cons a rest ih =>
    obtain ⟨hlater, hbacked'⟩ := h.later_step hbacked a
    have hstep := h.step a ((hactions a List.mem_cons_self).permits c)
    obtain ⟨hlater', hbacked''⟩ := ih hstep hbacked'
      fun x hx => hactions x (List.mem_cons_of_mem _ hx)
    exact ⟨hlater.trans hlater', hbacked''⟩

end Sound

theorem backed_empty (rules : Markup.Rules) (limit? : Option TimeLimit) :
    (empty rules limit?).Backed := by
  constructor <;> intro _ _ h <;> cases h

end TextTemplate.Catalog
