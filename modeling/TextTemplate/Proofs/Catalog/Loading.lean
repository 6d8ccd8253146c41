import TextTemplate.Proofs.Catalog.Settling

/-! # Loading keeps the invariant

  A load ends once, with a text, with the store's error or with one of its own,
  and its entry is then read or fails: the hand `unattended` stands for the
  moment between.  Until then its errand goes from the queue to the store and
  back.
-/

namespace TextTemplate.Catalog

/-! ### The load of an entry -/

theorem mem_of_load? {c : Catalog} {e : EntryId} {load : Load} (h : c.load? e = some load) :
    load ∈ c.loads ∧ load.entry = e :=
  ⟨List.mem_of_find?_eq_some h, by simpa using List.find?_some h⟩

theorem not_mem_of_load? {c : Catalog} {e : EntryId} (h : c.load? e = none) :
    ∀ load ∈ c.loads, load.entry ≠ e := by
  intro load hload
  have := List.find?_eq_none.1 h load hload
  simpa using this

namespace Sound

variable {t : Terms} {cancelled : List RequestId} {hand : Hand} {c : Catalog}

/-- An entry has one load at most. -/
theorem eq_of_load? (h : Sound t cancelled hand c) {e : EntryId} {load : Load}
    (hload : c.load? e = some load) : ∀ other ∈ c.loads, other.entry = e → other = load := by
  intro other hother heq
  obtain ⟨hmem, hentry⟩ := mem_of_load? hload
  exact List.inj_on_of_nodup_map h.loads.nodup hother hmem (heq.trans hentry.symm)

/-! ### The end of a load -/

/-- A load ends, and its entry is left to be settled. -/
theorem endLoad {e : EntryId} {errands' stirring' reporting' : List EntryId}
    (h : Sound t cancelled hand c)
    (hle : ∀ x, errands'.count x ≤ hand.errands.count x)
    (hother : ∀ x, x ≠ e → errands'.count x = hand.errands.count x)
    (hdone : c.limit? = none → e ∉ errands errands' c.jobs c.postponed)
    (hstirs : ∀ x, x ≠ e → x ∈ hand.stirring → x ∈ stirring')
    (hreports : ∀ x, x ≠ e → x ∈ hand.reporting → x ∈ reporting') :
    Sound t cancelled
      { hand with
        errands := errands', stirring := stirring', reporting := reporting'
        unattended := e :: hand.unattended }
      (c.endLoad e) := by
  have hne : ∀ load ∈ c.loads.filter (·.entry != e), load ∈ c.loads ∧ load.entry ≠ e := by
    intro load hload
    simpa using List.mem_filter.1 hload
  refine { h with
    loads := h.loads.endLoad (fun x => ?_) (fun x hx => ?_) hdone
    stirs := h.stirs.sublist (fun load hload => (hne load hload).1) (fun load hload hmem => ?_)
      fun load hload hmem => ?_
    attended := fun ht => (h.attended ht).endLoad e
    faithful := h.faithful.change_loads fun load hload => ?_ }
  · have := hle x
    simp only [errands, List.count_append]
    omega
  · have := hother x hx
    simp only [errands, List.count_append]
    omega
  · exact List.mem_append.2 ((List.mem_append.1 hmem).imp_left (hstirs _ (hne load hload).2))
  · exact List.mem_append.2 ((List.mem_append.1 hmem).imp_left (hreports _ (hne load hload).2))
  · exact ⟨h.faithful.load load (hne load hload).1, load, (hne load hload).1, rfl, id⟩

/-- The entry of a load that has ended is left as it is, and loads for ever. -/
theorem strand {e : EntryId}
    (h : Sound t cancelled { hand with unattended := e :: hand.unattended } c)
    (hstrands : t.strands) : Sound t cancelled hand c :=
  { h with attended := fun hnot => absurd hstrands hnot }

/-- The text of an entry whose load has ended is read. -/
theorem readText {e : EntryId} {a : Entry} {text : String}
    (h : Sound t cancelled { hand with unattended := e :: hand.unattended } c)
    (ha : c.entries[e]? = some a) (hloading : a.isLoading = true) (hunread : a.document? = none)
    (hload : ∀ load ∈ c.loads, load.entry ≠ e) (htext : t.fetched a.name (.text text))
    (howed : c.entries.length ∉ hand.owed) :
    Sound t cancelled hand (c.readText e a.name text) := by
  unfold Catalog.readText
  cases hresult : (Markup.Document.read c.rules text).result with
  | error fault =>
    have hfailed := h.closed.unreadable a.name text fault htext hresult
    simp only [hresult]
    exact (h.note _).failUnread ha hloading hunread hload hfailed
  | ok document =>
    have hdocument := h.closed.read a.name text document htext hresult
    have hread := ((h.note (.fetched a.name text.length ::
      (Markup.Document.read c.rules text).remarks.map (.doubtful a.name))).note
        [.parsed a.name document]).setDocument ha hloading hunread hload hdocument
    simp only [hresult]
    cases hparent : document.parent? with
    | none =>
      rw [hparent] at hread
      exact countDown hread
    | some ancestor =>
      rw [hparent] at hread
      -- The entry counts its ancestor before it takes the tick for its own text off.
      have hup := hread.tickUp e
      let b : Entry := { a with document? := some document, pending := a.pending + 1 }
      have hb : ((c.entries.modify e
          fun entry => { entry with document? := some document }).modify e
          fun entry => { entry with pending := entry.pending + 1 })[e]? = some b := by
        simp [ha, b]
      have hlt : e < c.entries.length := (List.getElem?_eq_some_iff.1 ha).1
      have hbp : b.parent? = some ancestor := hparent
      refine countDown (requestAncestor (a := b) hup hb hbp hload fun hmem => ?_)
      simp only [modifyEntry, List.length_modify] at hmem
      rcases List.mem_cons.1 hmem with heq | hmem
      · exact Nat.ne_of_lt hlt heq.symm
      · exact howed hmem

/-- A load ends with what the store has given. -/
theorem conclude {e : EntryId} {a : Entry} {fetched : Fetched}
    (h : Sound t cancelled { hand with unattended := e :: hand.unattended } (c.endLoad e))
    (ha : c.entries[e]? = some a) (hloading : a.isLoading = true) (hunread : a.document? = none)
    (hfetched : t.fetched a.name fetched) (howed : c.entries.length ∉ hand.owed) :
    Sound t cancelled hand (c.conclude e fetched) := by
  have hload : ∀ load ∈ (c.endLoad e).loads, load.entry ≠ e := by
    intro load hmem
    simpa using (List.mem_filter.1 hmem).2
  have hname : (c.endLoad e).entries[e]?.elim "" (·.name) = a.name := by
    show c.entries[e]?.elim "" (·.name) = a.name
    rw [ha, Option.elim_some]
  have hfail : ∀ error, fetched.error? (c.limit?.map (·.text)) = some error →
      Sound t cancelled hand ((c.endLoad e).fail e error) := by
    intro error herror
    have hfailed := h.closed.unfetched a.name fetched error hfetched herror
    exact h.failUnread ha hloading hunread hload hfailed
  unfold Catalog.conclude
  simp only [hname]
  cases fetched with
  | text text => exact h.readText ha hloading hunread hload hfetched howed
  | fault | timedOut | cancelled | reported | unforeseen => exact hfail _ rfl
  | escaping => exact h.strand (h.closed.escaped a.name hfetched)

/-- A load ends with an error of its own. -/
theorem giveUp {e : EntryId} {a : Entry} {error : LoadError}
    (h : Sound t cancelled { hand with unattended := e :: hand.unattended } (c.endLoad e))
    (ha : c.entries[e]? = some a) (hloading : a.isLoading = true) (hunread : a.document? = none)
    (herror : t.failed a.name error) : Sound t cancelled hand (c.giveUp e error) := by
  have hload : ∀ load ∈ (c.endLoad e).loads, load.entry ≠ e := by
    intro load hmem
    simpa using (List.mem_filter.1 hmem).2
  exact h.failUnread ha hloading hunread hload herror

/-! ### Fetches -/

/-- A load changes, and goes on. -/
theorem modifyLoad {e : EntryId} {f : Load → Load} {errands' stirring' reporting' : List EntryId}
    (h : Sound t cancelled hand c) (hentry : ∀ load, (f load).entry = load.entry)
    (hloads : Loads c.limit? errands' c.entries (changeLoad c.loads e f) c.jobs c.postponed)
    (hstirs : Stirs c.limit? stirring' reporting' (changeLoad c.loads e f) c.jobs)
    (hfaithful : ∀ load ∈ c.loads, load.entry = e → FaithfulLoad t c.entries (f load))
    (hfetched : ∀ load, load.fetched? ≠ none → (f load).fetched? ≠ none) :
    Sound t cancelled
      { hand with errands := errands', stirring := stirring', reporting := reporting' }
      (c.modifyLoad e f) := by
  refine { h with
    loads := hloads
    stirs := hstirs
    attended := fun ht => (h.attended ht).change e hentry
    faithful := h.faithful.change_loads fun load' hload' => ?_ }
  obtain ⟨load, hload, ⟨heq, rfl⟩ | ⟨-, rfl⟩⟩ := mem_changeLoad hload'
  · exact ⟨hfaithful load hload heq, load, hload, (hentry load).symm, hfetched load⟩
  · exact ⟨h.faithful.load _ hload, _, hload, rfl, id⟩

/-- A fetch ends: an unlimited load ends with it, and a limited one will be told. -/
theorem endFetch {e : EntryId} {fetched : Fetched} (h : Sound t cancelled { errands := [e] } c)
    (hfetched : ∀ a, c.entries[e]? = some a → t.fetched a.name fetched) :
    Sound t cancelled {} (c.endFetch e fetched) := by
  unfold Catalog.endFetch
  cases hlimit : c.limit? with
  | none =>
    -- The load has waited for its fetch, and goes on at once.
    obtain ⟨load, hmem, rfl⟩ := (h.loads.unlimited hlimit).1 e List.mem_cons_self
    obtain ⟨a, ha, hloading, hunread⟩ := h.loads.unread load hmem
    have hended : Sound t cancelled { unattended := [load.entry] } (c.endLoad load.entry) := by
      refine h.endLoad (fun x => ?_) (fun x hx => ?_) (fun _ => h.loads.not_mem_of_inHand)
        (fun _ _ => id) fun _ _ => id
      · exact Nat.zero_le _
      · exact (List.count_cons_of_ne (Ne.symm hx)).symm
    exact hended.conclude ha hloading hunread (hfetched a ha) List.not_mem_nil
  | some limit =>
    -- The load keeps what the fetch has given, and gets a job that tells it so.
    have hloads := h.loads
    have hstirs := h.stirs
    rw [hlimit] at hloads hstirs
    have hlt : e < c.entries.length := hloads.errand_lt e List.mem_cons_self
    have htold : Sound t cancelled { reporting := [e] }
        (c.modifyLoad e fun load => { load with fetched? := some fetched }) := by
      refine h.modifyLoad (fun _ => rfl) (hlimit ▸ hloads.fetched fetched)
        (hlimit ▸ hstirs.fetched e fetched) (fun load hload heq => ?_) fun _ _ => nofun
      have hold := h.faithful.load load hload
      refine ⟨fun a other ha hother => ?_, hold.verdict⟩
      obtain rfl := Option.some.inj hother
      rw [show load.entry = e from heq] at ha
      exact hfetched a ha
    refine htold.push nofun (fun hnone => ?_) ⟨hlt, fun load hload heq => ?_⟩
    · exact absurd (hlimit.symm.trans hnone) nofun
    · obtain ⟨old, -, ⟨-, rfl⟩ | ⟨hne, rfl⟩⟩ := mem_changeLoad hload
      · exact nofun
      · exact absurd heq hne

/-- The store has replied. -/
theorem receive {e : EntryId} {name : String} {reply : Reply}
    (h : Sound t cancelled { errands := [e] } c)
    (hreply : ∀ a, c.entries[e]? = some a → t.fetched a.name reply.fetched) :
    Sound t cancelled {} (c.receive e name reply) :=
  (h.note [.asked name reply.source?]).endFetch hreply

/-- The store is asked for a text, or the fetch waits until it gives the text out. -/
theorem startFetch {e : EntryId} {name : String} {store : String → Reply}
    (h : Sound t cancelled { errands := [e] } c)
    (hname : ∀ a, c.entries[e]? = some a → a.name = name)
    (hstore : ∀ name, t.fetched name (store name).fetched) :
    Sound t cancelled {} ((c.startFetch e name).resolve store) := by
  unfold Catalog.startFetch
  split
  · refine { h with loads := h.loads.congr fun x => ?_ }
    show ([] ++ (c.jobs.filterMap Job.errand? ++ (c.postponed ++ [e]))).count x
      = ([e] ++ (c.jobs.filterMap Job.errand? ++ c.postponed)).count x
    simp only [List.count_append, List.count_nil]
    omega
  · refine h.receive fun a ha => ?_
    rw [hname a ha]
    exact hstore name

/-- What is asked of a job that is replaced by another one if it belongs to an entry. -/
theorem replaced_or_kept {job new : Job} {x e : EntryId}
    (hnew : x = e → new.Replaces cancelled job ∧
      FaithfulJob t cancelled c.awaitedName? c.entries c.loads new ∧ (∀ r, new ≠ .pass r) ∧
      (c.limit? = none → ∀ e, new ≠ .resume e ∧ new ≠ .interrupt e)) :
    (if x == e then new else job) = job ∨ (if x == e then new else job).Replaces cancelled job ∧
      FaithfulJob t cancelled c.awaitedName? c.entries c.loads (if x == e then new else job) ∧
      (∀ r, (if x == e then new else job) ≠ .pass r) ∧
      (c.limit? = none → ∀ y, (if x == e then new else job) ≠ .resume y ∧
        (if x == e then new else job) ≠ .interrupt y) := by
  by_cases heq : x = e
  · rw [if_pos (beq_iff_eq.2 heq)]
    exact .inr (hnew heq)
  · have hne : ¬ (x == e) = true := by simpa using heq
    rw [if_neg hne]
    exact .inl rfl

/-- The end of a fetch that was called off lets neither a request nor a load go on. -/
theorem drop_ne (e : EntryId) : (∀ r, Job.drop e ≠ .pass r) ∧
    ∀ x, Job.drop e ≠ .resume x ∧ Job.drop e ≠ .interrupt x :=
  ⟨nofun, fun _ => ⟨nofun, nofun⟩⟩

/-- A fetch that has not ended is called off, and ends without the store. -/
theorem callOff (h : Sound t cancelled hand c) (e : EntryId)
    (hterms : t.runsLate ∨ t.breaksOff) : Sound t cancelled hand (c.callOff e) := by
  unfold Catalog.callOff
  split
  · next hpostponed =>
    have hmem : e ∈ c.postponed := by simpa using hpostponed
    have hcount : ∀ x, ((c.postponed.filter (· != e)).count x) + [e].count x
        = c.postponed.count x := by
      intro x
      by_cases hxe : x = e
      · subst hxe
        -- The fetch of one load waits in one place.
        have honce := h.loads.errand_once x
        have hpos : 0 < c.postponed.count x := List.count_pos_iff.2 hmem
        have hzero : (c.postponed.filter (· != x)).count x = 0 := by
          apply List.count_eq_zero.2
          simp
        simp only [errands, List.count_append] at honce
        rw [hzero, List.count_singleton_self]
        omega
      · have hne : (x != e) = true := by simpa using hxe
        rw [List.count_filter (p := (· != e)) hne, List.count_cons_of_ne (Ne.symm hxe),
          List.count_nil, Nat.add_zero]
    have hheld : Sound t cancelled (hand.take (.drop e))
        { c with postponed := c.postponed.filter (· != e) } := by
      refine { h with loads := h.loads.congr fun x => ?_ }
      have := hcount x
      show (errands ([e] ++ hand.errands) c.jobs (c.postponed.filter (· != e))).count x = _
      simp only [errands, List.count_append] at this ⊢
      omega
    exact hheld.push (fun r hr => absurd hr ((drop_ne e).1 r)) (fun _ => (drop_ne e).2) hterms
  · refine h.mapJobs (fun _ => id) fun job _ => ?_
    cases job with
    | fetch x | read x =>
      refine replaced_or_kept fun heq => ?_
      subst heq
      exact ⟨⟨fun _ _ => rfl, fun _ _ => rfl, rfl, rfl, rfl⟩, hterms, (drop_ne x).1,
        fun _ => (drop_ne x).2⟩
    | _ => exact .inl rfl

/-- A load calls off its fetch, and will end with an error. -/
theorem abandon {e : EntryId} {limit : TimeLimit} {error : LoadError}
    (h : Sound t cancelled { stirring := [e] } c) (hlimit : c.limit? = some limit)
    (hfetch : ∀ load ∈ c.loads, load.entry = e → load.fetched? = none)
    (hterms : t.runsLate ∨ t.breaksOff)
    (herror : ∀ a, c.entries[e]? = some a → t.failed a.name error) :
    Sound t cancelled {} (c.abandon e error) := by
  have hstirs := h.stirs
  rw [hlimit] at hstirs
  have hasleep : Sound t cancelled {}
      (c.modifyLoad e fun load => { load with asleep := true, verdict? := some error }) := by
    refine h.modifyLoad (fun _ => rfl) (h.loads.change e (fun _ => rfl) fun _ => rfl)
      (hlimit ▸ hstirs.sleep hfetch fun _ => ⟨rfl, rfl, rfl⟩) (fun load hload heq => ?_) fun _ => id
    have hold := h.faithful.load load hload
    refine ⟨hold.fetched, fun a other ha hother => ?_⟩
    obtain rfl := Option.some.inj hother
    rw [show load.entry = e from heq] at ha
    exact herror a ha
  exact hasleep.callOff e hterms

/-! ### The course of a load -/

/-- A load sleeps while its fetch is under way. -/
theorem sleep {e : EntryId} {limit : TimeLimit} (h : Sound t cancelled { stirring := [e] } c)
    (hlimit : c.limit? = some limit)
    (hfetch : ∀ load ∈ c.loads, load.entry = e → load.fetched? = none) :
    Sound t cancelled {} (c.modifyLoad e fun load => { load with asleep := true }) := by
  have hstirs := h.stirs
  rw [hlimit] at hstirs
  refine h.modifyLoad (fun _ => rfl) (h.loads.change e (fun _ => rfl) fun _ => rfl)
    (hlimit ▸ hstirs.sleep hfetch fun _ => ⟨rfl, rfl, rfl⟩) (fun load hload _ => ?_) fun _ => id
  exact ⟨(h.faithful.load load hload).fetched, (h.faithful.load load hload).verdict⟩

/-- A load begins. -/
theorem startLoad {e : EntryId} {store : String → Reply}
    (h : Sound t cancelled { errands := [e], stirring := [e] } c)
    (hstore : ∀ name, t.fetched name (store name).fetched) :
    Sound t cancelled {} ((c.startLoad e).resolve store) := by
  have hname : ∀ a, c.entries[e]? = some a → a.name = c.entries[e]?.elim "" (·.name) := by
    intro a ha
    rw [ha, Option.elim_some]
  have hfetch : ∀ load ∈ c.loads, load.entry = e → load.fetched? = none :=
    fun load => h.loads.fetched?_of_inHand
  generalize hevents : [Event.fetching (c.entries[e]?.elim "" (·.name))] = events
  have hnoted := h.note events
  unfold Catalog.startLoad
  simp only [hevents]
  split
  · next hlimit =>
    have hcalm : Sound t cancelled { errands := [e] } (c.note events) := by
      refine { hnoted with stirs := { hnoted.stirs with awake := fun load _ htimed => ?_ } }
      exact absurd hlimit htimed
    exact hcalm.startFetch hname hstore
  · next limit hlimit =>
    have hqueued : Sound t cancelled { stirring := [e] } ((c.note events).enqueue [.fetch e]) :=
      hnoted.push nofun (fun _ _ => ⟨nofun, nofun⟩) trivial
    cases hpatience : limit.patience with
    | none =>
      have hlate := h.closed.impatient limit hlimit hpatience
      exact hqueued.abandon hlimit hfetch (.inl hlate) fun a _ => h.closed.late hlate a.name _
    | nanoseconds n =>
      refine sleep ?_ hlimit hfetch
      exact { hqueued with }
    | unbounded => exact hqueued.sleep hlimit hfetch

/-- More may be told than has to be. -/
theorem tell (h : Sound t cancelled {} c) (e : EntryId) :
    Sound t cancelled { reporting := [e] } c :=
  { h with
    stirs := h.stirs.congr (fun _ => id) (fun _ => List.mem_cons_of_mem _) fun _ _ => ⟨id, id⟩ }

/-- A sleeping load wakes up, and has to go on. -/
theorem rouse {e : EntryId} {limit : TimeLimit} (h : Sound t cancelled { reporting := [e] } c)
    (hlimit : c.limit? = some limit) : Sound t cancelled { stirring := [e] }
      (c.modifyLoad e fun load => { load with asleep := false }) := by
  have hstirs := h.stirs
  rw [hlimit] at hstirs
  refine h.modifyLoad (fun _ => rfl) (h.loads.change e (fun _ => rfl) fun _ => rfl)
    (hlimit ▸ hstirs.wake) (fun load hload _ => ?_) fun _ => id
  exact ⟨(h.faithful.load load hload).fetched, (h.faithful.load load hload).verdict⟩

/-- A load that is asleep wakes up, and another one has nothing to be told. -/
theorem wake {e : EntryId} (h : Sound t cancelled { reporting := [e] } c)
    (hlt : e < c.entries.length)
    (hwhy : t.runsLate ∨ ∀ load ∈ c.loads, load.entry = e → load.fetched? ≠ none) :
    Sound t cancelled {} (c.wake e) := by
  -- Without a sleeping load nobody has to be told.
  have hawake : (∀ load ∈ c.loads, load.entry = e → load.asleep = false) →
      Sound t cancelled {} c := by
    intro hawake
    refine { h with stirs := { h.stirs with reported := fun load hload hasleep hfetched => ?_ } }
    refine (List.mem_cons.1 (h.stirs.reported load hload hasleep hfetched)).resolve_left ?_
    intro heq
    rw [hawake load hload heq] at hasleep
    cases hasleep
  unfold Catalog.wake
  cases hload : c.load? e with
  | none => exact hawake fun load hmem heq => absurd heq (not_mem_of_load? hload load hmem)
  | some load =>
    by_cases hasleep : load.asleep = true
    · simp only [hasleep, if_true]
      cases hlimit : c.limit? with
      | none =>
        -- Without a time limit no load falls asleep.
        have hnever := (h.stirs.unlimited hlimit).1 load (mem_of_load? hload).1
        rw [hasleep] at hnever
        cases hnever
      | some limit =>
        refine (h.rouse hlimit).push nofun (fun hnone => ?_)
          ⟨hlt, hwhy.imp_right fun hall load hmem heq => ?_⟩
        · exact absurd (hlimit.symm.trans hnone) nofun
        · obtain ⟨old, hold, ⟨heq', rfl⟩ | ⟨hne, rfl⟩⟩ := mem_changeLoad hmem
          · exact hall old hold heq'
          · exact absurd heq hne
    · simp only [hasleep]
      refine hawake fun other hmem heq => ?_
      rw [h.eq_of_load? hload other hmem heq]
      simpa using hasleep

/-- The time of a fetch is up. -/
theorem expire (h : Sound t cancelled {} c) (e : EntryId) (hlate : t.runsLate) :
    Sound t cancelled {} (c.expire e) := by
  unfold Catalog.expire
  split
  · next hany =>
    have hex : ∃ load, c.load? e = some load := by
      cases hload : c.load? e with
      | none => simp [hload] at hany
      | some load => exact ⟨load, rfl⟩
    obtain ⟨load, hload⟩ := hex
    obtain ⟨hmem, rfl⟩ := mem_of_load? hload
    obtain ⟨a, ha, -⟩ := h.loads.unread load hmem
    exact (h.tell load.entry).wake (List.getElem?_eq_some_iff.1 ha).1 (.inl hlate)
  · exact h

/-- A load without an errand ends. -/
theorem endLimited {e : EntryId} (h : Sound t cancelled { stirring := [e] } c)
    (hlimit : c.limit? ≠ none) : Sound t cancelled { unattended := [e] } (c.endLoad e) :=
  h.endLoad (fun _ => Nat.le_refl _) (fun _ _ => rfl) (fun hnone => absurd hnone hlimit)
    (fun _ hx hmem => (List.mem_cons.1 hmem).resolve_left hx) fun _ _ => id

/-- Without a load there is nothing to go on with. -/
theorem calm {e : EntryId} (h : Sound t cancelled { stirring := [e] } c)
    (hload : ∀ load ∈ c.loads, load.entry ≠ e) : Sound t cancelled {} c := by
  refine { h with stirs := { h.stirs with awake := fun load hmem htimed hawake => ?_ } }
  exact (List.mem_cons.1 (h.stirs.awake load hmem htimed hawake)).resolve_left (hload load hmem)

/-- A load goes on after its sleep. -/
theorem resumeLoad {e : EntryId} (h : Sound t cancelled { stirring := [e] } c)
    (hlimit : c.limit? ≠ none)
    (hwhy : t.runsLate ∨ ∀ load ∈ c.loads, load.entry = e → load.fetched? ≠ none) :
    Sound t cancelled {} (c.resumeLoad e) := by
  unfold Catalog.resumeLoad
  cases hload : c.load? e with
  | none => exact h.calm (not_mem_of_load? hload)
  | some load =>
    obtain ⟨hmem, rfl⟩ := mem_of_load? hload
    obtain ⟨a, ha, hloading, hunread⟩ := h.loads.unread load hmem
    have hfaithful := h.faithful.load load hmem
    have hended := h.endLimited hlimit
    cases hverdict : load.verdict? with
    | some error =>
      simp only [hverdict]
      exact hended.giveUp ha hloading hunread (hfaithful.verdict a error ha hverdict)
    | none =>
      cases hfetched : load.fetched? with
      | some fetched =>
        simp only [hverdict, hfetched]
        exact hended.conclude ha hloading hunread (hfaithful.fetched a fetched ha hfetched)
          List.not_mem_nil
      | none =>
        simp only [hverdict, hfetched]
        -- Nobody told the load of an end of its fetch, so its time is up.
        have hlate : t.runsLate := hwhy.resolve_right fun hall => hall load hmem rfl hfetched
        obtain ⟨limit, hsome⟩ := Option.ne_none_iff_exists'.1 hlimit
        refine h.abandon hsome (fun other hother heq => ?_) (.inl hlate)
          fun a _ => h.closed.late hlate a.name _
        rw [h.eq_of_load? hload other hother heq]
        exact hfetched

/-- A load goes on after it was cancelled in its sleep. -/
theorem interruptLoad {e : EntryId} (h : Sound t cancelled { stirring := [e] } c)
    (hlimit : c.limit? ≠ none) (hbreaks : t.breaksOff) :
    Sound t cancelled {} (c.interruptLoad e) := by
  unfold Catalog.interruptLoad
  cases hload : c.load? e with
  | none => exact h.calm (not_mem_of_load? hload)
  | some load =>
    obtain ⟨hmem, rfl⟩ := mem_of_load? hload
    obtain ⟨a, ha, hloading, hunread⟩ := h.loads.unread load hmem
    have hended := h.endLimited hlimit
    cases hverdict : load.verdict? with
    | some error =>
      simp only [hverdict]
      exact hended.giveUp ha hloading hunread (h.closed.cancelled hbreaks a.name)
    | none =>
      cases hfetched : load.fetched? with
      | some fetched =>
        simp only [hverdict, hfetched]
        exact hended.conclude ha hloading hunread
          ((h.faithful.load load hmem).fetched a fetched ha hfetched) List.not_mem_nil
      | none =>
        simp only [hverdict, hfetched]
        obtain ⟨limit, hsome⟩ := Option.ne_none_iff_exists'.1 hlimit
        refine h.abandon hsome (fun other hother heq => ?_) (.inr hbreaks)
          fun a _ => h.closed.cancelled hbreaks a.name
        rw [h.eq_of_load? hload other hother heq]
        exact hfetched

/-- A load that was cancelled before it began ends. -/
theorem skip {e : EntryId} (h : Sound t cancelled { errands := [e], stirring := [e] } c)
    (hcancels : t.cancelsLoads) : Sound t cancelled {} (c.endLoad e) := by
  have hended : Sound t cancelled { unattended := [e] } (c.endLoad e) := by
    refine h.endLoad (fun x => ?_) (fun x hx => ?_) (fun _ => h.loads.not_mem_of_inHand)
      (fun x hx hmem => (List.mem_cons.1 hmem).resolve_left hx) fun _ _ => id
    · exact Nat.zero_le _
    · exact (List.count_cons_of_ne (Ne.symm hx)).symm
  exact hended.strand (h.closed.skipped hcancels)

/-- A load that has not begun is found in the queue. -/
theorem mem_jobs_of_any_load {jobs : List Job} {e : EntryId}
    (h : (jobs.any fun | .load x => x == e | _ => false) = true) : .load e ∈ jobs := by
  obtain ⟨job, hjob, heq⟩ := List.any_eq_true.1 h
  cases job with
  | load x => exact beq_iff_eq.1 heq ▸ hjob
  | _ => cases heq

/-- A load is cancelled: before it begins, in its sleep, or during its fetch. -/
theorem cancelLoad (h : Sound t cancelled {} c) (e : EntryId) (hbreaks : t.breaksOff)
    (hbegun : .load e ∈ c.jobs → t.cancelsLoads) : Sound t cancelled {} (c.cancelLoad e) := by
  unfold Catalog.cancelLoad
  split
  · next hqueued =>
    have hcancels : t.cancelsLoads := hbegun (mem_jobs_of_any_load hqueued)
    refine h.mapJobs (fun _ => id) fun job _ => ?_
    cases job with
    | load x =>
      refine replaced_or_kept fun heq => ?_
      subst heq
      exact ⟨⟨fun _ _ => rfl, fun _ _ => rfl, rfl, rfl, rfl⟩, hcancels, nofun,
        fun _ _ => ⟨nofun, nofun⟩⟩
    | _ => exact .inl rfl
  · split
    · exact h.callOff e (.inr hbreaks)
    · next hlimited =>
      have hlimit : c.limit? ≠ none := by simpa using hlimited
      split
      · obtain ⟨limit, hsome⟩ := Option.ne_none_iff_exists'.1 hlimit
        exact ((h.tell e).rouse hsome).push nofun (fun hnone => absurd hnone hlimit) hbreaks
      · refine h.mapJobs (fun _ => id) fun job _ => ?_
        cases job with
        | resume x =>
          refine replaced_or_kept fun heq => ?_
          subst heq
          exact ⟨⟨fun _ _ => rfl, fun _ _ => rfl, rfl, rfl, rfl⟩, hbreaks, nofun,
            fun hnone => absurd hnone hlimit⟩
        | _ => exact .inl rfl

end Sound

end TextTemplate.Catalog
