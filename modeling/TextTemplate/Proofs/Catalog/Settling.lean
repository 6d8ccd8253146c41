import TextTemplate.Proofs.Catalog.Invariant

/-! # Waiting and settling keep the invariant

  An entry that settles takes the tie to its ancestor with it, and hands its
  waiters over to the queue.  The heart of the matter is `countDown`: an entry
  that has counted to zero waits for nothing, so its text has been read and its
  ancestor has come, and the chain that it gets is one that the terms allow.
-/

namespace TextTemplate.Catalog

/-! ### The entry of a name -/

/-- The entry of a name has that name and is listed, be it old or new. -/
theorem ensure_entry (c : Catalog) (name : String) :
    ∃ a, (c.ensure name).2.entries[(c.ensure name).1]? = some a ∧ a.name = name := by
  unfold ensure
  cases hfind : c.find? name with
  | some e =>
    obtain ⟨a, ha, -, hname⟩ := listed_of_find? hfind
    exact ⟨a, ha, hname⟩
  | none => exact ⟨.fresh name, by simp, rfl⟩

/-- Entries stay as they are when the entry of a name is looked up. -/
theorem ensure_kept {c : Catalog} {e : EntryId} {a : Entry} (ha : c.entries[e]? = some a)
    (name : String) : (c.ensure name).2.entries[e]? = some a := by
  unfold ensure
  cases c.find? name with
  | some _ => exact ha
  | none => exact getElem?_append_of_some ha _

theorem ensure_requests (c : Catalog) (name : String) :
    (c.ensure name).2.requests = c.requests ∧ (c.ensure name).2.gates = c.gates := by
  unfold ensure
  cases c.find? name <;> exact ⟨rfl, rfl⟩

theorem extended_ensure (c : Catalog) (name : String) : Extended c (c.ensure name).2 where
  entry _ a ha := ⟨a, ensure_kept ha name, rfl, fun _ => id⟩
  gate g a ha := ⟨a, by rw [(ensure_requests c name).2]; exact ha, rfl⟩
  request r target hr := by
    rw [(ensure_requests c name).1]
    exact hr

/-- A new entry has no known link yet. -/
theorem links_ensure (c : Catalog) (name : String) : (c.ensure name).2.links = c.links := by
  unfold ensure
  cases c.find? name with
  | some _ => rfl
  | none => simp [links, listing, List.filter_append, Entry.fresh, Entry.parent?]

/-- An entry that awaits its ancestor has that due. -/
theorem Entry.due_ne_zero_of_awaitsAncestor {a : Entry} (h : a.awaitsAncestor = true) :
    a.due ≠ 0 := by
  simp only [Entry.awaitsAncestor, Bool.and_eq_true] at h
  unfold Entry.due
  rw [h.1.2, h.2]
  simp

namespace Sound

variable {t : Terms} {cancelled : List RequestId} {hand : Hand} {c : Catalog}

/-! ### One entry changes -/

/-- An entry makes a note of something, and neither its waiters nor its name change. -/
theorem modify {e : EntryId} {f : Entry → Entry} {owed' : List EntryId} {waiters' : List Waiter}
    {unattended' : List EntryId} (h : Sound t cancelled hand c)
    (hname : ∀ a, (f a).name = a.name ∧ (f a).status = a.status ∧ (f a).listed = a.listed ∧
      (f a).waiters = a.waiters)
    (hf : ∀ a, c.entries[e]? = some a → FaithfulEntry t (f a) ∧
      (∀ p, a.parent? = some p → (f a).parent? = some p) ∧
      ((f a).document? = none → (f a).ancestor? = none))
    (hticks : Ticks owed' (c.entries.modify e f) c.gates)
    (hsettled : ∀ a, c.entries[e]? = some a → SettledEntry (f a) (barriers c.gates e))
    (hties : Ties waiters' (c.entries.modify e f) c.jobs)
    (hrequests : ∀ r, waiters'.count (.request r) = hand.waiters.count (.request r))
    (hloads : Loads c.limit? hand.errands (c.entries.modify e f) c.loads c.jobs c.postponed)
    (hattended : ¬ t.strands → Attended unattended' (c.entries.modify e f) c.loads) :
    Sound t cancelled { hand with owed := owed', waiters := waiters', unattended := unattended' }
      (c.modifyEntry e f) := by
  have hload : ∀ a, (f a).isLoading = a.isLoading :=
    fun a => Entry.isLoading_of_status (hname a).2.1
  have hextended : Extended c (c.modifyEntry e f) :=
    .of_modify rfl rfl rfl fun a ha => ⟨(hname a).1, (hf a ha).2.1⟩
  refine { h with
    listing := h.listing.modify fun a ha => ?_
    gates := h.gates.mono (by simp [modifyEntry]) fun _ => id
    ticks := hticks
    settled := h.settled.modify hsettled
    ties := hties
    requests := h.requests.congr (fun _ => id) fun r _ => ?_
    loads := hloads
    attended := hattended
    faithful := (h.faithful.modify fun a ha => ?_).mono (fun _ => id) fun _ _ =>
      hextended.awaitedName?
    acyclic := h.acyclic.mono fun x y hxy => ?_ }
  · obtain ⟨hn, -, hl, hw⟩ := hname a
    refine ⟨hn, hl, fun hx => hload a ▸ hx, fun hx => ?_, (hf a ha).2.2⟩
    rw [hw]
    exact h.listing.no_waiters e a ha (hload a ▸ hx)
  · simp only [places, modifyEntry, awaiting_modify fun a => (hname a).2.2.2, hrequests]
  · refine ⟨(hname a).1, (hf a ha).1, fun w hw => ?_⟩
    rw [(hname a).2.2.2] at hw
    exact h.faithful.waiter a (List.mem_of_getElem? ha) w hw
  · obtain ⟨b, hb, hmem⟩ := hxy
    obtain ⟨a, ha, rfl⟩ := getElem?_of_getElem?_modify hb
    refine ⟨a, ha, ?_⟩
    split at hmem
    · rwa [(hname a).2.2.2] at hmem
    · exact hmem

/-- An entry counts anew what it waits for. -/
theorem recount {e : EntryId} {g : Nat → Nat} {owed' : List EntryId} (h : Sound t cancelled hand c)
    (hticks : Ticks owed'
      (c.entries.modify e fun entry => { entry with pending := g entry.pending }) c.gates) :
    Sound t cancelled { hand with owed := owed' }
      (c.modifyEntry e fun entry => { entry with pending := g entry.pending }) := by
  refine h.modify (fun _ => ⟨rfl, rfl, rfl, rfl⟩) (fun a ha => ?_) hticks
    (fun a ha => (h.settled e a ha).congr rfl rfl rfl rfl (Nat.le_refl _))
    (h.ties.change e (fun _ => rfl) fun _ => rfl) (fun _ => rfl)
    (h.loads.modify fun a _ _ hload hdoc => ⟨hload, hdoc⟩)
    fun ht => (h.attended ht).modify (fun a _ hload hdoc => ⟨hload, hdoc, id⟩) fun _ _ => id
  have hfaithful := h.faithful.entry a (List.mem_of_getElem? ha)
  exact ⟨⟨hfaithful.document, hfaithful.ready, hfaithful.failed, hfaithful.ancestor⟩,
    fun _ => id, h.listing.no_ancestor e a ha⟩

/-- An entry has one thing more to wait for. -/
theorem tickUp (h : Sound t cancelled hand c) (e : EntryId) :
    Sound t cancelled { hand with owed := e :: hand.owed }
      (c.modifyEntry e fun entry => { entry with pending := entry.pending + 1 }) := by
  refine h.recount (g := (· + 1)) (h.ticks.modify (fun a _ hload => ?_) fun x hx => ?_)
  · refine ⟨hload, ?_, fun _ => Nat.succ_pos _⟩
    rw [List.count_cons_self]
    show a.pending + 1 + a.due + hand.owed.count e = a.pending + a.due + (hand.owed.count e + 1)
    omega
  · exact List.count_cons_of_ne (Ne.symm hx)

/-- An entry has one thing less to wait for, and others are left. -/
theorem tickDown {e : EntryId} (h : Sound t cancelled { hand with owed := e :: hand.owed } c)
    (hpending : ∀ a, c.entries[e]? = some a → 1 < a.pending) :
    Sound t cancelled hand
      (c.modifyEntry e fun entry => { entry with pending := entry.pending - 1 }) := by
  refine h.recount (g := (· - 1)) (h.ticks.modify (fun a ha hload => ?_) fun x hx => ?_)
  · have hlt := hpending a ha
    refine ⟨hload, ?_, fun _ => Nat.sub_pos_of_lt hlt⟩
    rw [List.count_cons_self]
    show a.pending - 1 + a.due + (hand.owed.count e + 1) = a.pending + a.due + hand.owed.count e
    omega
  · exact (List.count_cons_of_ne (Ne.symm hx)).symm

/-- The text of an entry whose load has ended has been read. -/
theorem setDocument {e : EntryId} {a : Entry} {document : Markup.Document}
    (h : Sound t cancelled { hand with unattended := e :: hand.unattended } c)
    (ha : c.entries[e]? = some a) (hloading : a.isLoading = true) (hunread : a.document? = none)
    (hload : ∀ load ∈ c.loads, load.entry ≠ e) (hdocument : t.document a.name document) :
    Sound t cancelled (hand.read e document.parent?)
      (c.modifyEntry e fun entry => { entry with document? := some document }) := by
  have hself : ∀ b, c.entries[e]? = some b → b = a :=
    fun b hb => Option.some.inj (hb.symm.trans ha)
  have hancestor := h.listing.no_ancestor e a ha hunread
  have hparent : ∀ b, c.entries[e]? = some b → b.parent? = none := by
    intro b hb
    rw [hself b hb, Entry.parent?, hunread]
    rfl
  -- Whatever comes next, the entry counts one thing: its ancestor, or the tick that is due.
  have hbefore : a.due = 1 ∧ a.awaitsAncestor = false := by
    simp [Entry.due, Entry.awaitsAncestor, Entry.parent?, hunread]
  have hafter : Entry.due { a with document? := some document }
        = document.parent?.isSome.toNat ∧
      Entry.awaitsAncestor { a with document? := some document } = document.parent?.isSome := by
    have hstill : Entry.isLoading { a with document? := some document } = true := hloading
    unfold Entry.awaitsAncestor Entry.due
    rw [hstill]
    simp [Entry.parent?, hancestor]
  -- The new things in hand are either a tick or a waiter, so both are left open here.
  have hframe : ∀ owed' waiters',
      (∀ x, x ≠ e → owed'.count x = hand.owed.count x) →
      1 + hand.owed.count e = document.parent?.isSome.toNat + owed'.count e →
      (∀ w, w ≠ .descendant e → waiters'.count w = hand.waiters.count w) →
      waiters'.count (.descendant e)
        = hand.waiters.count (.descendant e) + document.parent?.isSome.toNat →
      Sound t cancelled { hand with owed := owed', waiters := waiters' }
        (c.modifyEntry e fun entry => { entry with document? := some document }) := by
    intro owed' waiters' hother howed hwother hwaiters
    refine h.modify (fun _ => ⟨rfl, rfl, rfl, rfl⟩)
      (fun b hb => ?_) (h.ticks.modify (fun b hb hl => ⟨hl, ?_, id⟩) hother)
      (fun b hb => .of_loading (hself b hb ▸ hloading))
      (h.ties.modify ha (fun x => ?_) ?_ fun x hx => hwother _ (by simpa using hx))
      (fun r => hwother _ (Waiter.request_ne_descendant r e)) (h.loads.modify fun b _ hex => ?_)
      fun ht => (h.attended ht).modify (fun b _ _ hdoc => absurd hdoc (Option.some_ne_none _))
        fun x hx hmem => (List.mem_cons.1 hmem).resolve_left hx
    · have hfaithful := h.faithful.entry b (List.mem_of_getElem? hb)
      refine ⟨⟨?_, hfaithful.ready, hfaithful.failed, ?_⟩, ?_,
        fun hdoc => absurd hdoc (Option.some_ne_none _)⟩
      · intro document' hdoc
        obtain rfl := Option.some.inj hdoc
        rw [hself b hb]
        exact hdocument
      · intro chain hchain
        rw [← hself b hb, show b.ancestor? = some chain from hchain] at hancestor
        cases hancestor
      · intro p hp
        rw [hparent b hb] at hp
        cases hp
    · rw [hself b hb, hbefore.1, hafter.1]
      show a.pending + 1 + hand.owed.count e
        = a.pending + document.parent?.isSome.toNat + owed'.count e
      omega
    · unfold awaiting
      rw [flatMap_modify_eq]
      intro _
      rfl
    · rw [hbefore.2, hafter.2, hwaiters]
      rfl
    · obtain ⟨load, hmem, heq⟩ := hex
      exact absurd heq (hload load hmem)
  cases hp : document.parent? with
  | none =>
    refine hframe _ _ (fun x hx => List.count_cons_of_ne (Ne.symm hx)) ?_ (fun _ _ => rfl) ?_
    · rw [hp, List.count_cons_self]
      show 1 + hand.owed.count e = 0 + (hand.owed.count e + 1)
      omega
    · rw [hp]
      rfl
  | some p =>
    refine hframe _ _ (fun _ _ => rfl) ?_ (fun w hw => List.count_cons_of_ne (Ne.symm hw)) ?_
    · rw [hp]
      rfl
    · rw [hp, List.count_cons_self]
      rfl

/-- The ancestor of an entry has become ready. -/
theorem setAncestor {e : EntryId} {chain : Chain}
    (h : Sound t cancelled { hand with waiters := .descendant e :: hand.waiters } c)
    (hready : t.Answers cancelled c.awaitedName? (.descendant e) (.ready chain)) :
    Sound t cancelled { hand with owed := e :: hand.owed }
      (c.modifyEntry e fun entry => { entry with ancestor? := some chain }) := by
  obtain ⟨a, p, ha, hloading, hp, hancestor⟩ := entry_of_awaitsAncestor h.ties.awaits_of_inHand
  have hself : ∀ b, c.entries[e]? = some b → b = a :=
    fun b hb => Option.some.inj (hb.symm.trans ha)
  obtain ⟨document, hdoc, hdp⟩ := Option.bind_eq_some_iff.1 hp
  have hchain : t.ready p chain := by
    obtain ⟨name, hname, hgives⟩ := hready
    rw [awaitedName?, ha, Option.bind_some, hp] at hname
    obtain rfl := Option.some.inj hname
    exact hgives
  have hbefore : a.due = 1 ∧ a.awaitsAncestor = true := by
    simp [Entry.due, Entry.awaitsAncestor, hloading, hp, hancestor, hdoc]
  have hafter : Entry.due { a with ancestor? := some chain } = 0 ∧
      Entry.awaitsAncestor { a with ancestor? := some chain } = false := by
    simp [Entry.due, Entry.awaitsAncestor, hdoc]
  refine h.modify (fun _ => ⟨rfl, rfl, rfl, rfl⟩) (fun b hb => ?_)
    (h.ticks.modify (fun b hb hl => ⟨hl, ?_, id⟩) fun x hx => List.count_cons_of_ne (Ne.symm hx))
    (fun b hb => .of_loading (hself b hb ▸ hloading))
    (h.ties.modify ha (fun x => ?_) ?_ fun x hx => ?_) (fun r => ?_)
    (h.loads.modify fun b _ _ hl hd => ⟨hl, hd⟩)
    fun ht => (h.attended ht).modify (fun b _ hl hd => ⟨hl, hd, id⟩) fun _ _ => id
  · have hfaithful := h.faithful.entry b (List.mem_of_getElem? hb)
    refine ⟨⟨hfaithful.document, hfaithful.ready, hfaithful.failed, ?_⟩, fun _ => id, ?_⟩
    · intro chain' hc
      obtain rfl := Option.some.inj hc
      refine ⟨p, ?_, hchain⟩
      rw [hself b hb]
      exact hp
    · intro hnone
      rw [hself b hb] at hnone
      rw [show a.document? = none from hnone] at hdoc
      cases hdoc
  · rw [hself b hb, hbefore.1, hafter.1, List.count_cons_self]
    show a.pending + 1 + hand.owed.count e = a.pending + 0 + (hand.owed.count e + 1)
    omega
  · unfold awaiting
    rw [flatMap_modify_eq]
    intro _
    rfl
  · rw [hbefore.2, hafter.2, List.count_cons_self]
    rfl
  · exact (List.count_cons_of_ne (by simpa using Ne.symm hx)).symm
  · show hand.waiters.count (.request r) = (.descendant e :: hand.waiters).count (.request r)
    rw [List.count_cons_of_ne (Waiter.request_ne_descendant r e).symm]

/-! ### Settling -/

/-- The waiters of an entry are queued for an answer. -/
theorem sendAll {ws : List Waiter} {outcome : Outcome}
    (h : Sound t cancelled { hand with waiters := ws ++ hand.waiters } c)
    (houtcome : ∀ w ∈ ws, t.Answers cancelled c.awaitedName? w outcome) :
    Sound t cancelled hand (c.enqueue (ws.map (·.job outcome))) := by
  -- The answers' jobs carry the waiters and nothing else.
  have hhand : hand.takeAll (ws.map (·.job outcome))
      = { hand with waiters := ws ++ hand.waiters } := by
    rw [Hand.takeAll_map _ some (fun _ => none) fun _ w => by cases w <;> rfl]
    simp
  have hplain : ∀ job ∈ ws.map (·.job outcome), ∃ w ∈ ws, job = w.job outcome := by
    intro job hjob
    obtain ⟨w, hw, rfl⟩ := List.mem_map.1 hjob
    exact ⟨w, hw, rfl⟩
  refine pushAll (hhand ▸ h) (fun r hr => ?_) (fun _ e => ⟨fun he => ?_, fun he => ?_⟩)
    fun job hjob => ?_
  · obtain ⟨w, -, heq⟩ := hplain _ hr
    cases w <;> cases heq
  · obtain ⟨w, -, heq⟩ := hplain _ he
    cases w <;> cases heq
  · obtain ⟨w, -, heq⟩ := hplain _ he
    cases w <;> cases heq
  · obtain ⟨w, hw, rfl⟩ := hplain _ hjob
    exact faithfulJob_job.2 (houtcome w hw)

/-- A loading entry without a load settles: its waiters will get the answer, and it waits for its
    ancestor no more. -/
theorem settle {e : EntryId} {a : Entry} {status : Status} {outcome : Outcome}
    {owed' : List EntryId} {waiters' : List Waiter} {unattended' : List EntryId}
    (h : Sound t cancelled hand c) (ha : c.entries[e]? = some a)
    (hload : ∀ load ∈ c.loads, load.entry ≠ e)
    (hstatus : status.outcome? = some outcome) (hgives : t.Gives a.name False outcome)
    (hsettled : SettledEntry { a with status } (barriers c.gates e))
    (howed : ∀ x, x ≠ e → owed'.count x = hand.owed.count x)
    (hwaiters : ∀ w, w ≠ .descendant e → waiters'.count w = hand.waiters.count w)
    (htie : waiters'.count (.descendant e) + a.awaitsAncestor.toNat
      = hand.waiters.count (.descendant e))
    (hunattended : ∀ x, x ≠ e → x ∈ hand.unattended → x ∈ unattended') (pending : Nat) :
    Sound t cancelled { hand with owed := owed', waiters := waiters', unattended := unattended' }
      (c.settle e { a with pending } status outcome) := by
  have hself : ∀ b, c.entries[e]? = some b → b = a :=
    fun b hb => Option.some.inj (hb.symm.trans ha)
  let f : Entry → Entry := fun _ => { a with pending, status, waiters := [] }
  let c' : Catalog := { c with entries := c.entries.modify e f }
  have hsettle : c.settle e { a with pending } status outcome
      = c'.enqueue (a.waiters.map (·.job outcome)) := by
    unfold Catalog.settle
    rw [set_eq_modify]
    rfl
  have hdone : ∀ b, (f b).isLoading = false := by
    intro b
    show Entry.isLoading { a with pending, status, waiters := [] } = false
    unfold Entry.isLoading
    cases status with
    | loading => cases hstatus
    | ready chain => rfl
    | failed error => rfl
  have hextended : Extended c c' := by
    refine .of_modify rfl rfl rfl fun b hb => ?_
    rw [hself b hb]
    exact ⟨rfl, fun _ => id⟩
  have hcount : ∀ w, (awaiting (c.entries.modify e f) c.jobs).count w + a.waiters.count w
      = (awaiting c.entries c.jobs).count w := count_awaiting_dismiss ha rfl c.jobs
  -- The waiters are taken from the settled entry, and then sent their answer.
  have hleft : Sound t cancelled { hand with
      owed := owed', waiters := a.waiters ++ waiters', unattended := unattended' } c' := by
    refine { h with
      listing := h.listing.modify fun b hb => ?_
      gates := h.gates.mono (by simp [c']) fun _ => id
      ticks := h.ticks.modify (fun b _ hl => ?_) howed
      settled := h.settled.modify fun _ _ => hsettled.congr rfl rfl rfl rfl (Nat.le_refl _)
      ties := fun x => ?_
      requests := h.requests.congr (fun _ => id) fun r _ => ?_
      loads := h.loads.modify fun b _ hex => ?_
      attended := fun ht => (h.attended ht).modify (fun b _ hl => ?_) hunattended
      faithful := (h.faithful.modify fun b hb => ?_).mono (fun _ => id) fun _ _ =>
        hextended.awaitedName?
      acyclic := h.acyclic.mono fun x y hxy => ?_ }
    · rw [hself b hb]
      refine ⟨rfl, rfl, fun hl => ?_, fun _ => rfl, h.listing.no_ancestor e a ha⟩
      rw [hdone a] at hl
      cases hl
    · rw [hdone b] at hl
      cases hl
    · have hx := h.ties x
      have hsum := hcount (.descendant x)
      simp only [List.count_append]
      by_cases hex : e = x
      · -- The entry itself awaits its ancestor no more, so its tie goes with it.
        subst hex
        rw [awaitsAncestor_of_getElem? ha] at hx
        have hfree : awaitsAncestor (c.entries.modify e f) e = false := by
          rw [awaitsAncestor_modify_self ha, Entry.awaitsAncestor, hdone a]
          rfl
        show (awaiting (c.entries.modify e f) c.jobs).count _ + _
          = (awaitsAncestor (c.entries.modify e f) e).toNat
        rw [hfree, Bool.toNat_false]
        omega
      · have hrest := hwaiters (.descendant x) (by simpa using Ne.symm hex)
        show (awaiting (c.entries.modify e f) c.jobs).count _ + _
          = (awaitsAncestor (c.entries.modify e f) x).toNat
        rw [awaitsAncestor_modify_of_ne _ _ hex]
        omega
    · have hsum := hcount (.request r)
      have hrest := hwaiters (.request r) (Waiter.request_ne_descendant r e)
      unfold places
      show (awaiting (c.entries.modify e f) c.jobs).count (.request r)
        + (a.waiters ++ waiters').count (.request r) + (c.jobs.filterMap Job.request?).count r
        + (c.gates.flatMap (·.waiters)).count r + (c.answers.map (·.1)).count r = _
      rw [List.count_append]
      omega
    · obtain ⟨load, hmem, heq⟩ := hex
      exact absurd heq (hload load hmem)
    · rw [hdone b] at hl
      cases hl
    · rw [hself b hb]
      have hold := h.faithful.entry a (List.mem_of_getElem? ha)
      refine ⟨rfl, ⟨hold.document, fun chain hs => ?_, fun error hs => ?_, hold.ancestor⟩,
        fun w hw => absurd hw List.not_mem_nil⟩
      · rw [show status = .ready chain from hs] at hstatus
        obtain rfl := Option.some.inj hstatus
        exact hgives
      · rw [show status = .failed error from hs] at hstatus
        obtain rfl := Option.some.inj hstatus
        exact hgives
    · -- Nobody waits at the settled entry, and at the others as before.
      obtain ⟨b, hb, hmem⟩ := hxy
      obtain ⟨old, hold, rfl⟩ := getElem?_of_getElem?_modify hb
      refine ⟨old, hold, ?_⟩
      split at hmem
      · cases hmem
      · exact hmem
  rw [hsettle]
  refine sendAll hleft fun w hw => ?_
  have hname := h.faithful.waiter a (List.mem_of_getElem? ha) w hw
  exact ⟨a.name, hextended.awaitedName? hname, hgives.mono False.elim⟩

/-- A loading entry without a load fails, and with it what is in hand for it. -/
theorem fail {e : EntryId} {a : Entry} {error : LoadError} {waiters' : List Waiter}
    {unattended' : List EntryId} (h : Sound t cancelled hand c) (ha : c.entries[e]? = some a)
    (hloading : a.isLoading = true) (hload : ∀ load ∈ c.loads, load.entry ≠ e)
    (hdue : a.due ≠ 0) (herror : t.failed a.name error)
    (hwaiters : ∀ w, w ≠ .descendant e → waiters'.count w = hand.waiters.count w)
    (htie : waiters'.count (.descendant e) + a.awaitsAncestor.toNat
      = hand.waiters.count (.descendant e))
    (hunattended : ∀ x, x ≠ e → x ∈ hand.unattended → x ∈ unattended') :
    Sound t cancelled { hand with waiters := waiters', unattended := unattended' }
      (c.fail e error) := by
  unfold Catalog.fail
  rw [ha]
  simp only [hloading, if_true]
  have hgives : t.Gives a.name False (.failed error) := herror
  have hsettled : SettledEntry { a with status := .failed error } (barriers c.gates e) :=
    ⟨nofun, fun _ _ => hdue⟩
  exact (h.note [.failed a.name error]).settle ha hload rfl hgives hsettled (fun _ _ => rfl)
    hwaiters htie hunattended a.pending

/-- An entry whose load has ended without a text that can be read fails. -/
theorem failUnread {e : EntryId} {a : Entry} {error : LoadError}
    (h : Sound t cancelled { hand with unattended := e :: hand.unattended } c)
    (ha : c.entries[e]? = some a) (hloading : a.isLoading = true) (hunread : a.document? = none)
    (hload : ∀ load ∈ c.loads, load.entry ≠ e) (herror : t.failed a.name error) :
    Sound t cancelled hand (c.fail e error) := by
  have hfree : a.awaitsAncestor = false := by
    simp [Entry.awaitsAncestor, Entry.parent?, hunread]
  have hdue : a.due ≠ 0 := by simp [Entry.due, hunread]
  refine h.fail ha hloading hload hdue herror (fun _ _ => rfl) ?_ fun x hx hmem => ?_
  · rw [hfree]
    rfl
  · exact (List.mem_cons.1 hmem).resolve_left hx

/-- What is owed to an entry that has settled is forgiven. -/
theorem forgive {e : EntryId} (h : Sound t cancelled { hand with owed := e :: hand.owed } c)
    (hsettled : ∀ a, c.entries[e]? = some a → a.isLoading = false) :
    Sound t cancelled hand c := by
  refine { h with ticks := ⟨fun x a ha hloading => ?_, h.ticks.positive⟩ }
  have hne : e ≠ x := by
    rintro rfl
    rw [hsettled a ha] at hloading
    cases hloading
  have := h.ticks.pending x a ha hloading
  rwa [List.count_cons_of_ne hne] at this

/-- An entry whose text has been read has no load any more. -/
theorem no_load_of_read (h : Sound t cancelled hand c) {e : EntryId} {a : Entry}
    {document : Markup.Document} (ha : c.entries[e]? = some a)
    (hdoc : a.document? = some document) : ∀ load ∈ c.loads, load.entry ≠ e := by
  intro load hmem heq
  obtain ⟨b, hb, -, hunread⟩ := h.loads.unread load hmem
  rw [heq, ha] at hb
  obtain rfl := Option.some.inj hb
  rw [hdoc] at hunread
  cases hunread

/-- An entry that waits for nothing has a chain on the terms. -/
theorem ready_of_due_eq_zero (h : Sound t cancelled hand c) {a : Entry} (ha : a ∈ c.entries)
    (hdue : a.due = 0) : ∃ document, a.document? = some document ∧
      t.ready a.name (Chain.derive ⟨a.name, document⟩ a.ancestor?) := by
  obtain ⟨document, hdoc, hlineage⟩ := Entry.of_due_eq_zero hdue
  have hfaithful := h.faithful.entry a ha
  have hterms := hfaithful.document document hdoc
  have hparent : a.parent? = document.parent? := by
    rw [Entry.parent?, hdoc, Option.bind_some]
  refine ⟨document, hdoc, ?_⟩
  cases hancestor : a.ancestor? with
  | none =>
    have htop : document.parent? = none := hlineage.resolve_right <| by
      rintro ⟨chain, hchain⟩
      rw [hancestor] at hchain
      cases hchain
    exact h.closed.topmost a.name document hterms htop
  | some chain =>
    obtain ⟨parent, hp, hready⟩ := hfaithful.ancestor chain hancestor
    exact h.closed.derived a.name document parent chain hterms (hparent ▸ hp) hready

/-- An entry takes off a tick that is owed, and becomes ready with the last one. -/
theorem countDown {e : EntryId} (h : Sound t cancelled { hand with owed := e :: hand.owed } c) :
    Sound t cancelled hand (c.countDown e) := by
  unfold Catalog.countDown
  cases ha : c.entries[e]? with
  | none => exact h.forgive fun a hb => by rw [ha] at hb; cases hb
  | some a =>
    have hself : ∀ b, c.entries[e]? = some b → b = a :=
      fun b hb => Option.some.inj (hb.symm.trans ha)
    by_cases hloading : a.isLoading = true
    · simp only [hloading, Bool.not_true, Bool.false_eq_true, if_false]
      by_cases hpending : 1 < a.pending
      · rw [if_pos hpending]
        exact h.tickDown fun b hb => hself b hb ▸ hpending
      · rw [if_neg hpending]
        -- The owed tick is the last one, so neither text, ancestor nor gate is waited for.
        have hticks := h.ticks.pending e a ha hloading
        rw [List.count_cons_self] at hticks
        have hdue : a.due = 0 := by omega
        obtain ⟨document, hdoc, hready⟩ := h.ready_of_due_eq_zero (List.mem_of_getElem? ha) hdue
        have hload := h.no_load_of_read ha hdoc
        have hfree : a.awaitsAncestor.toNat = 0 := by
          unfold Entry.due at hdue
          unfold Entry.awaitsAncestor
          rw [hloading, Bool.true_and]
          omega
        let chain := Chain.derive ⟨a.name, document⟩ a.ancestor?
        have hgives : t.Gives a.name False (.ready chain) := hready
        have hstatus : (Status.ready chain).outcome? = some (.ready chain) := rfl
        split
        · next hnone =>
          rw [hdoc] at hnone
          cases hnone
        · next other hother =>
          obtain rfl : document = other := Option.some.inj (hdoc.symm.trans hother)
          have hsettled : SettledEntry { a with status := .ready chain } (barriers c.gates e) := by
            refine ⟨fun other hother => ⟨?_, document, hdoc, ?_⟩, nofun⟩
            · show a.due + barriers c.gates e = 0
              omega
            · cases hother
              rfl
          refine (h.note [.ready a.name chain.names]).settle ha hload hstatus hgives hsettled
            (fun x hx => ?_) (fun _ _ => rfl) ?_ (fun _ _ => id) 0
          · exact (List.count_cons_of_ne (Ne.symm hx)).symm
          · rw [hfree]
            rfl
    · simp only [hloading, Bool.not_false, if_true]
      exact h.forgive fun b hb => by rw [hself b hb]; simpa using hloading

/-! ### Waiting -/

/-- Somebody takes a place at a loading entry. -/
theorem addWaiter {e : EntryId} {a : Entry} {w : Waiter}
    (h : Sound t cancelled { hand with waiters := w :: hand.waiters } c)
    (ha : c.entries[e]? = some a) (hloading : a.isLoading = true)
    (hname : c.awaitedName? w = some a.name)
    (hacyclic : Acyclic (c.addWaiter e w).entries) :
    Sound t cancelled hand (c.addWaiter e w) := by
  have hself : ∀ b, c.entries[e]? = some b → b = a :=
    fun b hb => Option.some.inj (hb.symm.trans ha)
  have hextended : Extended c (c.addWaiter e w) :=
    .of_modify rfl rfl rfl fun _ _ => ⟨rfl, fun _ => id⟩
  have hcount : ∀ v, (awaiting (c.addWaiter e w).entries c.jobs).count v + hand.waiters.count v
      = (awaiting c.entries c.jobs).count v + (w :: hand.waiters).count v := by
    intro v
    rw [show (awaiting (c.addWaiter e w).entries c.jobs).count v = _ from
      count_awaiting_addWaiter ha c.jobs v w]
    simp only [List.count_cons, List.count_nil]
    omega
  have hawaits : ∀ x, awaitsAncestor (c.addWaiter e w).entries x = awaitsAncestor c.entries x := by
    intro x
    refine awaitsAncestor_modify c.entries ?_ e x
    intro _
    rfl
  refine { h with
    listing := h.listing.modify fun b hb => ?_
    gates := h.gates.mono (by simp [Catalog.addWaiter, modifyEntry]) fun _ => id
    ticks := h.ticks.modify (fun b _ hl => ⟨hl, rfl, id⟩) fun _ _ => rfl
    settled := h.settled.modify fun b hb => (h.settled e b hb).congr rfl rfl rfl rfl (Nat.le_refl _)
    ties := h.ties.congr (fun x => hcount _) fun x => hawaits x
    requests := h.requests.congr (fun _ => id) fun r _ => ?_
    loads := h.loads.modify fun b _ _ hl hd => ⟨hl, hd⟩
    attended := fun ht => (h.attended ht).modify (fun b _ hl hd => ⟨hl, hd, id⟩) fun _ _ => id
    faithful := (h.faithful.modify fun b hb => ?_).mono (fun _ => id) fun _ _ =>
      hextended.awaitedName?
    acyclic := hacyclic }
  · rw [hself b hb]
    have hstill : Entry.isLoading { a with waiters := a.waiters ++ [w] } = true := hloading
    refine ⟨rfl, rfl, id, fun hsettled => ?_, h.listing.no_ancestor e a ha⟩
    rw [hstill] at hsettled
    cases hsettled
  · have := hcount (.request r)
    simp only [places] at this ⊢
    show (awaiting (c.addWaiter e w).entries c.jobs).count (.request r)
      + hand.waiters.count (.request r) + (c.jobs.filterMap Job.request?).count r
      + (c.gates.flatMap (·.waiters)).count r + (c.answers.map (·.1)).count r = _
    rw [this]
  · rw [hself b hb]
    have hold := h.faithful.entry a (List.mem_of_getElem? ha)
    refine ⟨rfl, ⟨hold.document, hold.ready, hold.failed, hold.ancestor⟩, fun v hv => ?_⟩
    rcases mem_or_eq_of_mem_concat hv with hv | rfl
    · exact h.faithful.waiter a (List.mem_of_getElem? ha) v hv
    · exact hname

/-- What a settled entry answers is on the terms. -/
theorem gives_of_outcome? (h : Sound t cancelled hand c) {e : EntryId} {outcome : Outcome}
    (houtcome : c.outcome? e = some outcome) :
    ∃ a, c.entries[e]? = some a ∧ t.Gives a.name False outcome := by
  obtain ⟨a, ha, -, hstatus⟩ := status_of_outcome? houtcome
  have hfaithful := h.faithful.entry a (List.mem_of_getElem? ha)
  refine ⟨a, ha, ?_⟩
  cases hs : a.status with
  | loading =>
    rw [hs] at hstatus
    cases hstatus
  | ready chain =>
    rw [hs] at hstatus
    obtain rfl := Option.some.inj hstatus
    exact hfaithful.ready chain hs
  | failed error =>
    rw [hs] at hstatus
    obtain rfl := Option.some.inj hstatus
    exact hfaithful.failed error hs

/-- A request comes to the entry of its name. -/
theorem await {r : RequestId} {e : EntryId} {a : Entry}
    (h : Sound t cancelled { hand with waiters := .request r :: hand.waiters } c)
    (ha : c.entries[e]? = some a) (hname : c.requestName? r = some a.name) :
    Sound t cancelled hand (c.await r e) := by
  unfold Catalog.await
  cases houtcome : c.outcome? e with
  | some outcome =>
    obtain ⟨b, hb, hgives⟩ := h.gives_of_outcome? houtcome
    rw [ha] at hb
    obtain rfl := Option.some.inj hb
    exact h.finish ⟨a.name, hname, hgives.mono False.elim⟩
  | none =>
    have hloading := (outcome?_eq_none_iff ha).1 houtcome
    refine h.addWaiter ha hloading hname (h.acyclic.mono fun x y hxy => ?_)
    -- A request waits for an entry, but is none itself.
    obtain ⟨b, hb, hmem⟩ := hxy
    obtain ⟨old, hold, rfl⟩ := getElem?_of_getElem?_modify hb
    refine ⟨old, hold, ?_⟩
    split at hmem
    · simpa using hmem
    · exact hmem

/-- A new entry starts to load. -/
theorem ensure (h : Sound t cancelled hand c) (howed : c.entries.length ∉ hand.owed)
    (name : String) : Sound t cancelled hand (c.ensure name).2 := by
  have hextended := extended_ensure c name
  unfold Catalog.ensure at hextended ⊢
  cases hfind : c.find? name with
  | some e => exact h
  | none =>
    rw [hfind] at hextended
    have hrange : ∀ load ∈ c.loads, load.entry < c.entries.length := by
      intro load hload
      obtain ⟨a, ha, -⟩ := h.loads.unread load hload
      exact (List.getElem?_eq_some_iff.1 ha).1
    -- Nobody waits at the new entry, and its first job brings nobody an answer.
    have hjobs : ∀ w : Waiter,
        (awaiting (c.entries ++ [.fresh name]) (c.jobs ++ [.load c.entries.length])).count w
          = (awaiting c.entries c.jobs).count w := by
      intro w
      rw [awaiting_concat_fresh, count_awaiting_append]
      rfl
    refine { h with
      listing := h.listing.concat_fresh fun a ha hlisted => not_listed_of_find? hfind ha hlisted
      gates := h.gates.mono (by simp) fun r hr => ?_
      ticks := h.ticks.concat_fresh h.gates.entry_lt howed name
      settled := h.settled.concat_fresh name
      ties := h.ties.congr (fun e => by rw [hjobs]) fun e => ?_
      requests := h.requests.congr (fun _ => id) fun r _ => ?_
      loads := h.loads.concat_fresh name
      stirs := h.stirs.concat_fresh _
      attended := fun ht => (h.attended ht).concat_fresh name
      faithful := (h.faithful.concat_fresh hrange name).mono (fun _ => id) fun _ _ =>
        hextended.awaitedName?
      acyclic := h.acyclic.mono fun x y hxy => ?_ }
    · simpa using hr
    · by_cases hlt : e < c.entries.length
      · simp [awaitsAncestor, List.getElem?_append_left hlt]
      · have hle : c.entries.length ≤ e := Nat.le_of_not_lt hlt
        rw [awaitsAncestor, awaitsAncestor, List.getElem?_eq_none hle]
        cases hb : (c.entries ++ [Entry.fresh name])[e]? with
        | none => rfl
        | some b =>
          rcases getElem?_of_getElem?_concat hb with hb | ⟨-, rfl⟩
          · rw [List.getElem?_eq_none hle] at hb
            cases hb
          · rfl
    · simp only [places, hjobs, List.filterMap_append]
      show _ + _ + (c.jobs.filterMap Job.request? ++ []).count r + _ + _ = _
      rw [List.append_nil]
    · obtain ⟨b, hb, hmem⟩ := hxy
      rcases getElem?_of_getElem?_concat hb with hb | ⟨-, rfl⟩
      · exact ⟨b, hb, hmem⟩
      · cases hmem

/-! ### Ancestors -/

/-- An entry asks for its ancestor: it takes a place there, gets an answer at once, or fails in a
    circle. -/
theorem requestAncestor {e : EntryId} {a : Entry} {ancestor : String}
    (h : Sound t cancelled { hand with waiters := .descendant e :: hand.waiters } c)
    (ha : c.entries[e]? = some a) (hparent : a.parent? = some ancestor)
    (hload : ∀ load ∈ c.loads, load.entry ≠ e) (howed : c.entries.length ∉ hand.owed) :
    Sound t cancelled hand (c.requestAncestor e a.name ancestor) := by
  have hawaits : a.awaitsAncestor = true := by
    rw [← awaitsAncestor_of_getElem? ha]
    exact h.ties.awaits_of_inHand
  unfold Catalog.requestAncestor
  cases hcycle : findCycle? c.links a.name ancestor with
  | some path =>
    -- The links that were found are a circle among the documents themselves.
    have hleads : c.links.Leads ancestor a.name := by
      by_contra hnot
      rw [(findCycle?_eq_none_iff _ _ _).2 hnot] at hcycle
      cases hcycle
    obtain ⟨document, hdoc, hp⟩ := Option.bind_eq_some_iff.1 hparent
    have hdocument := (h.faithful.entry a (List.mem_of_getElem? ha)).document document hdoc
    have hcircle : Relation.TransGen t.Extends a.name a.name :=
      .head' ⟨document, hdocument, hp⟩ (extends_of_leads h.faithful.entry hleads)
    have hloading : a.isLoading = true := by
      simp only [Entry.awaitsAncestor, Bool.and_eq_true] at hawaits
      exact hawaits.1.1
    refine h.fail ha hloading hload (Entry.due_ne_zero_of_awaitsAncestor hawaits)
      (h.closed.circular a.name path hcircle) (fun w hw => ?_) ?_ fun _ _ => id
    · exact (List.count_cons_of_ne (Ne.symm hw)).symm
    · rw [hawaits, List.count_cons_self]
      rfl
  | none =>
    -- The ancestor's entry may be new, which changes nothing for the entry and the links.
    have hnot := (findCycle?_eq_none_iff _ _ _).1 hcycle
    have hensured := h.ensure howed ancestor
    obtain ⟨b, hb, hname⟩ := ensure_entry c ancestor
    have ha' := ensure_kept ha ancestor
    have hlinks := links_ensure c ancestor
    generalize c.ensure ancestor = ensured at hensured hb ha' hlinks ⊢
    obtain ⟨f, c'⟩ := ensured
    have hawaited : c'.awaitedName? (.descendant e) = some b.name := by
      rw [awaitedName?, ha', Option.bind_some, hparent, hname]
    cases houtcome : c'.outcome? f with
    | some outcome =>
      obtain ⟨b', hb', hgives⟩ := hensured.gives_of_outcome? houtcome
      rw [hb] at hb'
      obtain rfl := Option.some.inj hb'
      simp only [houtcome]
      exact hensured.send ⟨b.name, hawaited, hgives.mono False.elim⟩
    | none =>
      have hloading := (outcome?_eq_none_iff hb).1 houtcome
      simp only [houtcome]
      refine hensured.addWaiter hb hloading hawaited ?_
      refine hensured.acyclic.addWaiter hensured.listing hensured.ties hensured.faithful ha' hb ?_
      rw [hlinks, hname]
      exact hnot

/-- An entry learns what has become of its ancestor. -/
theorem link {e : EntryId} {outcome : Outcome}
    (h : Sound t cancelled { hand with waiters := .descendant e :: hand.waiters } c)
    (houtcome : t.Answers cancelled c.awaitedName? (.descendant e) outcome) :
    Sound t cancelled hand (c.link e outcome) := by
  have hawaits := h.ties.awaits_of_inHand
  obtain ⟨a, p, ha, hloading, hp, hancestor⟩ := entry_of_awaitsAncestor hawaits
  rw [awaitsAncestor_of_getElem? ha] at hawaits
  obtain ⟨document, hdoc, hdp⟩ := Option.bind_eq_some_iff.1 hp
  have hdocument := (h.faithful.entry a (List.mem_of_getElem? ha)).document document hdoc
  have hload := h.no_load_of_read ha hdoc
  have hfail : ∀ error, t.failed a.name error → Sound t cancelled hand (c.fail e error) := by
    intro error herror
    refine h.fail ha hloading hload (Entry.due_ne_zero_of_awaitsAncestor hawaits) herror
      (fun w hw => ?_) ?_ fun _ _ => id
    · exact (List.count_cons_of_ne (Ne.symm hw)).symm
    · rw [hawaits, List.count_cons_self]
      rfl
  have hname : ∀ name, c.awaitedName? (.descendant e) = some name → name = p := by
    intro name hname
    rw [awaitedName?, ha, Option.bind_some, hp] at hname
    exact (Option.some.inj hname).symm
  have hancestorName : (c.entries[e]?.bind (·.parent?)).getD "" = p := by
    rw [ha, Option.bind_some, hp, Option.getD_some]
  unfold Catalog.link
  rw [hancestorName]
  cases outcome with
  | cancelled =>
    obtain ⟨name, -, hsent⟩ := houtcome
    exact hfail _ (h.closed.sentAway hsent a.name p)
  | failed error =>
    obtain ⟨name, hw, hfailed⟩ := houtcome
    obtain rfl := hname name hw
    exact hfail _ (h.closed.fatherless a.name document name error hdocument hdp hfailed)
  | ready chain =>
    have hnone : c.outcome? e = none := (outcome?_eq_none_iff ha).2 hloading
    simp only [hnone, Option.isSome_none, Bool.false_eq_true, if_false]
    exact (h.setAncestor houtcome).countDown

end Sound

end TextTemplate.Catalog
