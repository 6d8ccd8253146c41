import Mathlib.Data.List.Count
import TextTemplate.Proofs.Catalog.Loading

/-! # Using a catalog keeps the invariant

  What is asked of a catalog from outside comes between two jobs, so nothing is
  in hand.  Each action puts something there at most for itself: a request its
  start, a released gate its tick and those in front of it, whoever cancels or
  sends away those who have waited.
-/

namespace TextTemplate.Catalog

/-! ### Thinning entries out -/

/-- An entry that others may have left, and that may have been removed from its name. -/
structure Entry.Thins (a b : Entry) : Prop where
  name : b.name = a.name
  status : b.status = a.status
  pending : b.pending = a.pending
  document : b.document? = a.document?
  ancestor : b.ancestor? = a.ancestor?
  waiters : ∀ w ∈ b.waiters, w ∈ a.waiters
  listed : b.listed = true → a.listed = true
  kept : a.isLoading = true → b.listed = a.listed

theorem Entry.Thins.refl (a : Entry) : a.Thins a :=
  ⟨rfl, rfl, rfl, rfl, rfl, fun _ => id, id, fun _ => rfl⟩

/-- A change that is not seen in what each element gives of a thing, for one thing. -/
theorem count_flatMap_map {α β : Type} [DecidableEq β] {f : α → List β} {g : α → α} {l : List α}
    {b : β} (h : ∀ a ∈ l, (f (g a)).count b = (f a).count b) :
    ((l.map g).flatMap f).count b = (l.flatMap f).count b := by
  induction l with
  | nil => rfl
  | cons a rest ih =>
    rw [List.map_cons, List.flatMap_cons, List.flatMap_cons, List.count_append, List.count_append,
      h a List.mem_cons_self, ih fun x hx => h x (List.mem_cons_of_mem _ hx)]

namespace Sound

variable {t : Terms} {cancelled cancelled' : List RequestId} {hand : Hand} {c : Catalog}

/-- Some leave their entries, and some entries their names. -/
theorem thin {entries' : List Entry} {waiters' : List Waiter} (h : Sound t cancelled hand c)
    (hcancelled : ∀ r ∈ cancelled, r ∈ cancelled') (hlen : entries'.length = c.entries.length)
    (hthin : ∀ (e : EntryId) (b : Entry), entries'[e]? = some b →
      ∃ a, c.entries[e]? = some a ∧ a.Thins b)
    (hcount : ∀ w, (∀ r ∈ cancelled', w ≠ .request r) →
      (entries'.flatMap (·.waiters)).count w + waiters'.count w
        = (c.entries.flatMap (·.waiters)).count w + hand.waiters.count w) :
    Sound t cancelled' { hand with waiters := waiters' } { c with entries := entries' } := by
  -- No entry has gone, so each is thinned out to one.
  have hback : ∀ (e : EntryId) (a : Entry), c.entries[e]? = some a →
      ∃ b, entries'[e]? = some b ∧ a.Thins b := by
    intro e a ha
    obtain ⟨hlt, -⟩ := List.getElem?_eq_some_iff.1 ha
    have hlt' : e < entries'.length := hlen ▸ hlt
    have hb : entries'[e]? = some entries'[e] := List.getElem?_eq_getElem hlt'
    obtain ⟨a', ha', hab⟩ := hthin e _ hb
    rw [ha] at ha'
    obtain rfl := Option.some.inj ha'
    exact ⟨_, hb, hab⟩
  have hloading : ∀ {a b : Entry}, a.Thins b → b.isLoading = a.isLoading :=
    fun hab => Entry.isLoading_of_status hab.status
  have hparent : ∀ {a b : Entry}, a.Thins b → b.parent? = a.parent? := by
    intro a b hab
    simp only [Entry.parent?, hab.document]
  have hextended : Extended c { c with entries := entries' } := by
    refine ⟨fun e a ha => ?_, fun g gate hg => ⟨gate, hg, rfl⟩, fun _ _ => id⟩
    obtain ⟨b, hb, hab⟩ := hback e a ha
    exact ⟨b, hb, hab.name, fun p hp => (hparent hab).trans hp⟩
  have hawaits : ∀ e, awaitsAncestor entries' e = awaitsAncestor c.entries e := by
    intro e
    cases ha : c.entries[e]? with
    | none =>
      have hnone : entries'[e]? = none := by
        rw [List.getElem?_eq_none_iff] at ha ⊢
        rwa [hlen]
      simp [awaitsAncestor, ha, hnone]
    | some a =>
      obtain ⟨b, hb, hab⟩ := hback e a ha
      rw [awaitsAncestor_of_getElem? ha, awaitsAncestor_of_getElem? hb]
      simp only [Entry.awaitsAncestor, hloading hab, hparent hab, hab.ancestor]
  -- Whoever left is in hand, or was cancelled.
  have hsum : ∀ w, (∀ r ∈ cancelled', w ≠ .request r) →
      (awaiting entries' c.jobs).count w + waiters'.count w
        = (awaiting c.entries c.jobs).count w + hand.waiters.count w := by
    intro w hw
    have := hcount w hw
    simp only [awaiting, List.count_append]
    omega
  refine { h with
    listing := h.listing.of_pointwise fun e b hb => ?_
    gates := h.gates.mono (Nat.le_of_eq hlen.symm) fun _ => id
    ticks := ⟨fun e b hb hl => ?_, fun e b hb hl => ?_⟩
    settled := fun e b hb => ?_
    ties := h.ties.congr
      (fun e => hsum _ fun r _ => (Waiter.request_ne_descendant r e).symm) hawaits
    requests := h.requests.congr hcancelled fun r hr => ?_
    loads := h.loads.change_entries (Nat.le_of_eq hlen.symm) fun load hload a ha hl hd => ?_
    attended := fun ht e b hb hl hd => ?_
    faithful := ?_
    acyclic := h.acyclic.mono fun x y hxy => ?_ }
  · obtain ⟨a, ha, hab⟩ := hthin e b hb
    refine ⟨a, ha, hab.name, hab.listed, fun hl => ?_, fun hl => ?_, fun hd => ?_⟩
    · rw [hloading hab] at hl
      rw [hab.kept hl]
      exact h.listing.listed_of_loading e a ha hl
    · rw [hloading hab] at hl
      have hnone := h.listing.no_waiters e a ha hl
      apply List.eq_nil_iff_forall_not_mem.2
      intro w hw
      have hmem := hab.waiters w hw
      rw [hnone] at hmem
      cases hmem
    · rw [hab.ancestor]
      exact h.listing.no_ancestor e a ha (hab.document ▸ hd)
  · obtain ⟨a, ha, hab⟩ := hthin e b hb
    rw [hloading hab] at hl
    have hdue : b.due = a.due := by
      simp only [Entry.due, hparent hab, hab.document, hab.ancestor]
    rw [hab.pending, hdue]
    exact h.ticks.pending e a ha hl
  · obtain ⟨a, ha, hab⟩ := hthin e b hb
    rw [hab.pending]
    exact h.ticks.positive e a ha ((hloading hab).symm.trans hl)
  · obtain ⟨a, ha, hab⟩ := hthin e b hb
    exact (h.settled e a ha).congr hab.name hab.status hab.document hab.ancestor (Nat.le_refl _)
  · have := hsum (.request r) fun x hx heq => hr (by cases heq; exact hx)
    unfold places
    show (awaiting entries' c.jobs).count (.request r) + waiters'.count (.request r)
      + (c.jobs.filterMap Job.request?).count r + (c.gates.flatMap (·.waiters)).count r
      + (c.answers.map (·.1)).count r = _
    omega
  · obtain ⟨b, hb, hab⟩ := hback load.entry a ha
    exact ⟨b, hb, (hloading hab).trans hl, hab.document.trans hd⟩
  · obtain ⟨a, ha, hab⟩ := hthin e b hb
    exact h.attended ht e a ha ((hloading hab).symm.trans hl) (hab.document.symm.trans hd)
  · have hknown := h.faithful.mono hcancelled fun _ _ => hextended.awaitedName?
    refine { hknown with
      entry := fun b hb => ?_
      waiter := fun b hb w hw => ?_
      load := fun load hload => ⟨fun b fetched hb hf => ?_, fun b error hb hv => ?_⟩
      job := fun job hjob => ?_ }
    · obtain ⟨e, he⟩ := List.getElem?_of_mem hb
      obtain ⟨a, ha, hab⟩ := hthin e b he
      have hold := hknown.entry a (List.mem_of_getElem? ha)
      refine ⟨fun d hd => ?_, fun chain hs => ?_, fun error hs => ?_, fun chain hc => ?_⟩
      · rw [hab.name]
        exact hold.document d (hab.document.symm.trans hd)
      · rw [hab.name]
        exact hold.ready chain (hab.status.symm.trans hs)
      · rw [hab.name]
        exact hold.failed error (hab.status.symm.trans hs)
      · rw [hparent hab]
        exact hold.ancestor chain (hab.ancestor.symm.trans hc)
    · obtain ⟨e, he⟩ := List.getElem?_of_mem hb
      obtain ⟨a, ha, hab⟩ := hthin e b he
      rw [hab.name]
      exact hknown.waiter a (List.mem_of_getElem? ha) w (hab.waiters w hw)
    · obtain ⟨a, ha, hab⟩ := hthin load.entry b hb
      rw [hab.name]
      exact (hknown.load load hload).fetched a fetched ha hf
    · obtain ⟨a, ha, hab⟩ := hthin load.entry b hb
      rw [hab.name]
      exact (hknown.load load hload).verdict a error ha hv
    · exact (hknown.job job hjob).mono (fun _ => id) (fun _ _ => id) (Nat.le_of_eq hlen.symm)
        fun load hload => ⟨load, hload, rfl, id⟩
  · obtain ⟨b, hb, hmem⟩ := hxy
    obtain ⟨a, ha, hab⟩ := hthin y b hb
    exact ⟨a, ha, hab.waiters _ hmem⟩

/-! ### Requests and gates -/

/-- A request is made, and its start queued. -/
theorem request (h : Sound t cancelled {} c) {target : Target} (htarget : c.offers target = true) :
    Sound t cancelled {} (c.request target).2 := by
  have hextended : Extended c { c with requests := c.requests ++ [target] } :=
    ⟨fun e a ha => ⟨a, ha, rfl, fun _ => id⟩, fun g a hg => ⟨a, hg, rfl⟩,
      fun r old hr => getElem?_append_of_some hr _⟩
  have hmade : Sound t cancelled { waiters := [.request c.requests.length] }
      { c with requests := c.requests ++ [target] } := by
    refine { h with
      gates := h.gates.request fun g heq => ?_
      ties := h.ties.congr (fun e => ?_) fun e => rfl
      requests := fun r hr => ?_
      faithful := h.faithful.mono (fun _ => id) fun _ _ => hextended.awaitedName? }
    · subst heq
      simpa [offers] using htarget
    · have hnone : [Waiter.request c.requests.length].count (.descendant e) = 0 := by simp
      rw [hnone]
      rfl
    · -- The new request is the first one of its number.
      have hold := h.requests r hr
      unfold places at hold ⊢
      show (awaiting c.entries c.jobs).count (.request r)
        + [Waiter.request c.requests.length].count (.request r)
        + (c.jobs.filterMap Job.request?).count r + (c.gates.flatMap (·.waiters)).count r
        + (c.answers.map (·.1)).count r = if r < (c.requests ++ [target]).length then 1 else 0
      simp only [List.count_nil, Nat.add_zero] at hold
      simp only [List.count_cons, List.count_nil, List.length_append, List.length_singleton,
        beq_iff_eq, Waiter.request.injEq]
      -- It is an old request, the new one, or one that has not been made.
      rcases Nat.lt_trichotomy r c.requests.length with hlt | rfl | hgt
      · rw [if_pos hlt] at hold
        rw [if_neg (Nat.ne_of_gt hlt), if_pos (Nat.lt_succ_of_lt hlt)]
        omega
      · rw [if_neg (Nat.lt_irrefl _)] at hold
        rw [if_pos rfl, if_pos (Nat.lt_succ_self _)]
        omega
      · rw [if_neg (Nat.lt_asymm hgt)] at hold
        rw [if_neg (Nat.ne_of_lt hgt), if_neg (Nat.not_lt_of_ge (Nat.succ_le_of_lt hgt))]
        omega
  show Sound t cancelled {} (Catalog.enqueue { c with requests := c.requests ++ [target] }
    [.start c.requests.length])
  exact hmade.push nofun (fun _ _ => ⟨nofun, nofun⟩) trivial

/-- A closed gate is put at an entry, which has counted it already if it holds the entry back. -/
theorem addGate {owed' : List EntryId} {gate : Gate}
    (h : Sound t cancelled { hand with owed := owed' } c)
    (howed : ∀ e, (gate.bars e).toNat + hand.owed.count e = owed'.count e)
    (hbars : ∀ e a, c.entries[e]? = some a → a.isLoading = false → gate.bars e = false)
    (hentry : gate.entry < c.entries.length) (hwaiters : gate.waiters = []) :
    Sound t cancelled hand { c with gates := c.gates ++ [gate] } := by
  have hextended : Extended c { c with gates := c.gates ++ [gate] } :=
    ⟨fun e a ha => ⟨a, ha, rfl, fun _ => id⟩,
      fun g a hg => ⟨a, getElem?_append_of_some hg _, rfl⟩, fun _ _ => id⟩
  refine { h with
    gates := h.gates.gate hentry hwaiters
    ticks := h.ticks.change_gates fun e => ?_
    settled := h.settled.change_gates fun e a ha hsettled => ?_
    requests := h.requests.congr (fun _ => id) fun r _ => ?_
    faithful := h.faithful.mono (fun _ => id) fun _ _ => hextended.awaitedName? }
  · have := howed e
    rw [barriers_concat]
    show _ = barriers c.gates e + owed'.count e
    omega
  · rw [barriers_concat, hbars e a ha hsettled]
    exact Nat.le_refl _
  · simp only [places, List.flatMap_append, List.flatMap_cons, List.flatMap_nil, hwaiters,
      List.append_nil]

/-- A gate is put at the entry of a name. -/
theorem gate (h : Sound t cancelled {} c) (name : String) :
    Sound t cancelled {} (c.gate name).2 := by
  have hensured := h.ensure List.not_mem_nil name
  obtain ⟨a, ha, -⟩ := ensure_entry c name
  have hlt := (List.getElem?_eq_some_iff.1 ha).1
  unfold Catalog.gate
  generalize c.ensure name = ensured at hensured ha hlt ⊢
  obtain ⟨e, c'⟩ := ensured
  by_cases hnone : (c'.outcome? e).isNone = true
  · have hloading := (outcome?_eq_none_iff ha).1 (Option.isNone_iff_eq_none.1 hnone)
    simp only [hnone, if_true]
    refine addGate (hensured.tickUp e) (fun x => ?_) (fun x b hb hsettled => ?_)
      (by simpa [modifyEntry] using hlt) rfl
    · by_cases hx : e = x <;> simp [Gate.bars, hx]
    · -- The gate bars its own entry only, which is loading.
      have hne : e ≠ x := by
        rintro rfl
        obtain ⟨old, hold, rfl⟩ := getElem?_of_getElem?_modify hb
        rw [show c'.entries[e]? = some a from ha] at hold
        obtain rfl := Option.some.inj hold
        rw [if_pos rfl] at hsettled
        rw [show a.isLoading = false from hsettled] at hloading
        cases hloading
      simp [Gate.bars, hne]
  · simp only [hnone, Bool.false_eq_true, if_false]
    refine addGate hensured (fun x => ?_) (fun _ _ _ _ => ?_) hlt rfl <;> simp [Gate.bars]

/-- A gate is opened, and those in front of it are to come through. -/
theorem openGate {g : GateId} {gate : Gate} (h : Sound t cancelled {} c)
    (hg : c.gates[g]? = some gate) (hclosed : gate.released = false) :
    Sound t cancelled { owed := if gate.holdsBack then [gate.entry] else [] }
      { c with
        gates := c.gates.set g { gate with released := true, waiters := [] }
        jobs := c.jobs ++ gate.waiters.map .pass } := by
  let opened : Gate := { gate with released := true, waiters := [] }
  let c' : Catalog := { c with gates := c.gates.set g opened }
  have hextended : Extended c c' := .of_gate hg rfl
  have hopened : Sound t cancelled
      { owed := if gate.holdsBack then [gate.entry] else [], waiters := gate.waiters.map .request }
      c' := by
    refine { h with
      gates := h.gates.set hg rfl (fun _ => rfl) nofun fun _ => .inl
      ticks := h.ticks.change_gates fun e => ?_
      settled := h.settled.change_gates fun e _ _ _ => ?_
      ties := h.ties.congr (fun e => ?_) fun e => rfl
      requests := h.requests.congr (fun _ => id) fun r _ => ?_
      faithful := h.faithful.mono (fun _ => id) fun _ _ => hextended.awaitedName? }
    · have hbars := barriers_set hg opened e
      have hopen : opened.bars e = false := by simp [opened, Gate.bars]
      rw [hopen, Bool.toNat_false] at hbars
      show barriers (c.gates.set g opened) e + _ = barriers c.gates e + 0
      rw [← hbars]
      cases hholds : gate.holdsBack
      · simp [Gate.bars, hholds]
      · by_cases he : gate.entry = e <;> simp [Gate.bars, hholds, hclosed, he]
    · have hbars := barriers_set hg opened e
      rw [show opened.bars e = false by simp [opened, Gate.bars], Bool.toNat_false] at hbars
      show barriers (c.gates.set g opened) e ≤ barriers c.gates e
      omega
    · have hnone : (gate.waiters.map Waiter.request).count (.descendant e) = 0 := by
        apply List.count_eq_zero.2
        simp
      rw [hnone]
      rfl
    · have hset := count_flatMap_modify (·.waiters) (fun _ => opened) hg r
      rw [← set_eq_modify] at hset
      have hcount : (gate.waiters.map Waiter.request).count (.request r) = gate.waiters.count r :=
        List.count_map_of_injective _ _ (fun _ _ => Waiter.request.inj) r
      unfold places
      show (awaiting c.entries c.jobs).count (.request r)
        + (gate.waiters.map Waiter.request).count (.request r)
        + (c.jobs.filterMap Job.request?).count r
        + ((c.gates.set g opened).flatMap (·.waiters)).count r + (c.answers.map (·.1)).count r
        = (awaiting c.entries c.jobs).count (.request r) + 0
          + (c.jobs.filterMap Job.request?).count r + (c.gates.flatMap (·.waiters)).count r
          + (c.answers.map (·.1)).count r
      have hnil : opened.waiters.count r = 0 := rfl
      omega
  show Sound t cancelled _ (c'.enqueue (gate.waiters.map .pass))
  refine pushAll ?_ (fun r hr => ?_) (fun _ e => ⟨by simp, by simp⟩) fun job hjob => ?_
  · rw [Hand.takeAll_map .pass (fun r => some (.request r)) (fun _ => none) fun _ _ => rfl]
    simpa using hopened
  · have hmem : r ∈ gate.waiters := by simpa using hr
    exact h.gates.waiting gate (List.mem_of_getElem? hg) r hmem
  · obtain ⟨r, -, rfl⟩ := List.mem_map.1 hjob
    trivial

/-- A gate is released: the entry that it has held back counts down. -/
theorem release (h : Sound t cancelled {} c) (g : GateId) :
    Sound t cancelled {} ((c.release g).toOption.getD c) := by
  unfold Catalog.release
  cases hg : c.gates[g]? with
  | none => exact h
  | some gate =>
    cases hreleased : gate.released with
    | true =>
      simp only [hreleased, if_true]
      exact h
    | false =>
      have hopened := h.openGate hg hreleased
      simp only [hreleased]
      cases hholds : gate.holdsBack with
      | true =>
        rw [hholds] at hopened
        exact countDown hopened
      | false =>
        rw [hholds] at hopened
        exact hopened

/-! ### Removing entries -/

/-- A settled entry is removed from its name. -/
theorem evict (h : Sound t cancelled {} c) (name : String) :
    Sound t cancelled {} (c.evict name).2 := by
  unfold Catalog.evict
  cases hfind : c.find? name with
  | none => exact h
  | some e =>
    by_cases hsettled : (c.outcome? e).isSome = true
    · simp only [hsettled, if_true]
      obtain ⟨outcome, houtcome⟩ := Option.isSome_iff_exists.1 hsettled
      refine h.thin (fun _ => id) (List.length_modify ..) (fun x b hb => ?_) fun w _ => ?_
      · obtain ⟨a, ha, rfl⟩ := getElem?_of_getElem?_modify hb
        refine ⟨a, ha, ?_⟩
        split
        · next heq =>
          obtain ⟨a', ha', hdone, -⟩ := status_of_outcome? houtcome
          rw [heq, ha] at ha'
          obtain rfl := Option.some.inj ha'
          refine ⟨rfl, rfl, rfl, rfl, rfl, fun _ => id, nofun, fun hl => ?_⟩
          rw [hdone] at hl
          cases hl
        · exact .refl a
      · rw [flatMap_modify_eq]
        intro _
        rfl
    · simp only [hsettled]
      exact h

/-- All settled entries are removed from their names. -/
theorem clear (h : Sound t cancelled {} c) : Sound t cancelled {} c.clear.2 := by
  refine h.thin (fun _ => id) (List.length_map _) (fun x b hb => ?_) fun w _ => ?_
  · rw [List.getElem?_map] at hb
    obtain ⟨a, ha, rfl⟩ := Option.map_eq_some_iff.1 hb
    refine ⟨a, ha, ?_⟩
    split
    · next hremovable =>
      refine ⟨rfl, rfl, rfl, rfl, rfl, fun _ => id, nofun, fun hl => ?_⟩
      simp [Entry.isRemovable, hl] at hremovable
    · exact .refl a
  · rw [count_flatMap_map]
    intro a _
    split <;> rfl

/-! ### Cancelling -/

/-- Whoever asks for a gate asks for the template of its entry. -/
theorem requestName?_of_gate (h : Sound t cancelled hand c) {r : RequestId} {g : GateId}
    (hr : c.requests[r]? = some (.gate g)) : ∃ name, c.requestName? r = some name := by
  have hlt := h.gates.target_lt r g hr
  have hentry := h.gates.entry_lt c.gates[g] (List.getElem_mem hlt)
  refine ⟨c.entries[c.gates[g].entry].name, ?_⟩
  simp [requestName?, hr, targetName?, hlt, hentry]

/-- One request more has been cancelled, and may be found in one place more. -/
theorem addCancelled (h : Sound t cancelled {} c) (r : RequestId) :
    Sound t (r :: cancelled) { waiters := [.request r] } c := by
  refine { h with
    ties := h.ties.congr (fun e => ?_) fun e => rfl
    requests := h.requests.congr (fun x => List.mem_cons_of_mem _) fun x hx => ?_
    faithful := h.faithful.mono (fun x => List.mem_cons_of_mem _) fun _ _ => id }
  · have hnone : [Waiter.request r].count (.descendant e) = 0 := by simp
    rw [hnone]
    rfl
  · have hne : x ≠ r := fun heq => hx (heq ▸ List.mem_cons_self)
    have hnone : [Waiter.request r].count (.request x) = 0 := by simp [Ne.symm hne]
    unfold places
    rw [hnone]
    rfl

/-- A job that is about to serve a request ends it instead. -/
theorem cancelJobs (h : Sound t cancelled {} c) (r : RequestId) :
    Sound t (r :: cancelled) {} { c with jobs := c.jobs.map (·.cancelled r) } := by
  have hlost : ∀ {name}, c.requestName? r = some name →
      t.Answers (r :: cancelled) c.awaitedName? (.request r) .cancelled := by
    intro name hname
    exact ⟨name, hname, .inl List.mem_cons_self⟩
  refine h.mapJobs (fun x => List.mem_cons_of_mem _) fun job hjob => ?_
  by_cases hfor : job.isFor r = true
  · refine .inr ?_
    unfold Job.cancelled
    rw [if_pos hfor]
    cases job with
    | start x | dismiss x =>
      obtain rfl : x = r := by simpa [Job.isFor] using hfor
      exact ⟨⟨fun _ _ => rfl, fun _ _ => rfl, rfl, rfl, rfl⟩, List.mem_cons_self, nofun,
        fun _ _ => ⟨nofun, nofun⟩⟩
    | pass x =>
      -- The request gets an answer for the job that would have led it through its gate.
      obtain rfl : x = r := by simpa [Job.isFor] using hfor
      obtain ⟨g, hg⟩ := h.gates.passing x hjob
      obtain ⟨name, hname⟩ := h.requestName?_of_gate hg
      refine ⟨⟨fun w hw => ?_, fun y hy => ?_, rfl, rfl, rfl⟩, hlost hname, nofun,
        fun _ _ => ⟨nofun, nofun⟩⟩
      · show [Waiter.request x].count w = 0
        exact List.count_eq_zero.2 fun hmem => hw x List.mem_cons_self (List.mem_singleton.1 hmem)
      · show 0 = [x].count y
        refine (List.count_eq_zero.2 fun hmem => hy ?_).symm
        rw [List.mem_singleton.1 hmem]
        exact List.mem_cons_self
    | answer x outcome =>
      obtain rfl : x = r := by simpa [Job.isFor] using hfor
      obtain ⟨name, hname, -⟩ := h.faithful.job _ hjob
      exact ⟨⟨fun _ _ => rfl, fun _ _ => rfl, rfl, rfl, rfl⟩, hlost hname, nofun,
        fun _ _ => ⟨nofun, nofun⟩⟩
    | _ => simp [Job.isFor] at hfor
  · refine .inl ?_
    unfold Job.cancelled
    rw [if_neg hfor]

/-- A cancelled request leaves the entries at which it waits. -/
theorem leaveEntries {r : RequestId} (h : Sound t cancelled hand c) (hr : r ∈ cancelled) :
    Sound t cancelled hand { c with
      entries := c.entries.map fun entry =>
        { entry with waiters := entry.waiters.filter (· != .request r) } } := by
  refine h.thin (fun _ => id) (List.length_map _) (fun x b hb => ?_) fun w hw => ?_
  · rw [List.getElem?_map] at hb
    obtain ⟨a, ha, rfl⟩ := Option.map_eq_some_iff.1 hb
    exact ⟨a, ha, rfl, rfl, rfl, rfl, rfl, fun w hw => (List.mem_filter.1 hw).1, id, fun _ => rfl⟩
  · rw [count_flatMap_map]
    intro a _
    exact List.count_filter (by simpa using hw r hr)

/-- A cancelled request leaves the gates at which it waits. -/
theorem leaveGates {r : RequestId} (h : Sound t cancelled hand c) (hr : r ∈ cancelled) :
    Sound t cancelled hand { c with
      gates := c.gates.map fun gate => { gate with waiters := gate.waiters.filter (· != r) } } := by
  have hextended : Extended c { c with
      gates := c.gates.map fun gate => { gate with waiters := gate.waiters.filter (· != r) } } := by
    refine ⟨fun e a ha => ⟨a, ha, rfl, fun _ => id⟩, fun g a hg => ?_, fun _ _ => id⟩
    exact ⟨{ a with waiters := a.waiters.filter (· != r) }, by simp [hg], rfl⟩
  have hcount : ∀ x, x ≠ r → ((c.gates.map fun gate =>
      { gate with waiters := gate.waiters.filter (· != r) }).flatMap (·.waiters)).count x
        = (c.gates.flatMap (·.waiters)).count x := by
    intro x hx
    apply count_flatMap_map
    intro gate _
    exact List.count_filter (by simpa using hx)
  have hbars : ∀ e, barriers (c.gates.map fun gate =>
      { gate with waiters := gate.waiters.filter (· != r) }) e = barriers c.gates e := by
    intro e
    unfold barriers
    rw [List.countP_map]
    rfl
  refine { h with
    gates := h.gates.filter _ fun _ => id
    ticks := h.ticks.change_gates fun e => congrArg (· + _) (hbars e)
    settled := h.settled.change_gates fun e _ _ _ => Nat.le_of_eq (hbars e)
    requests := h.requests.congr (fun _ => id) fun x hx => ?_
    faithful := h.faithful.mono (fun _ => id) fun _ _ => hextended.awaitedName? }
  · unfold places
    rw [hcount x fun heq => hx (heq ▸ hr)]

/-- A request that waits at an entry or in front of a gate asks for a name. -/
theorem requestName?_of_waits (h : Sound t cancelled hand c) {r : RequestId}
    (hwaits : c.waits r = true) : ∃ name, c.requestName? r = some name := by
  unfold Catalog.waits at hwaits
  rcases Bool.or_eq_true_iff.1 hwaits with hentry | hgate
  · obtain ⟨a, ha, hmem⟩ := List.any_eq_true.1 hentry
    exact ⟨a.name, h.faithful.waiter a ha (.request r) (by simpa using hmem)⟩
  · obtain ⟨gate, hgate, hmem⟩ := List.any_eq_true.1 hgate
    obtain ⟨g, hg⟩ := h.gates.waiting gate hgate r (by simpa using hmem)
    exact h.requestName?_of_gate hg

/-- A request is cancelled, and if it had not ended it gets no other answer than that. -/
theorem cancel (h : Sound t cancelled {} c) (r : RequestId) :
    Sound t (r :: cancelled) {} (c.cancel r).2 := by
  unfold Catalog.cancel
  split
  · exact h.cancelJobs r
  · split
    · next hwaits =>
      -- It stands in two places for a moment: where it waits, and in the answer's job.
      obtain ⟨name, hname⟩ := h.requestName?_of_waits hwaits
      have hlost : t.Answers (r :: cancelled) c.awaitedName? (.request r) .cancelled :=
        ⟨name, hname, .inl List.mem_cons_self⟩
      have hsent : Sound t (r :: cancelled) {} (c.enqueue [.answer r .cancelled]) :=
        (h.addCancelled r).send hlost
      exact (hsent.leaveEntries List.mem_cons_self).leaveGates List.mem_cons_self
    · exact { h with
        requests := h.requests.congr (fun x => List.mem_cons_of_mem _) fun _ _ => rfl
        faithful := h.faithful.mono (fun x => List.mem_cons_of_mem _) fun _ _ => id }

/-- Cancelling a load lets none begin. -/
theorem load_mem_of_cancelLoad {c : Catalog} {e x : EntryId}
    (h : .load x ∈ (c.cancelLoad e).jobs) : .load x ∈ c.jobs := by
  have hmap : ∀ {g : Job → Job}, .load x ∈ c.jobs.map g →
      (∀ job, g job = .load x → job = .load x) → .load x ∈ c.jobs := by
    intro g hmem hg
    obtain ⟨job, hjob, heq⟩ := List.mem_map.1 hmem
    exact hg job heq ▸ hjob
  have happend : ∀ {job : Job}, .load x ∈ c.jobs ++ [job] → job ≠ .load x → .load x ∈ c.jobs := by
    intro job hmem hne
    exact (mem_or_eq_of_mem_concat hmem).resolve_right fun heq => hne heq.symm
  unfold Catalog.cancelLoad at h
  split at h
  · refine hmap h fun job heq => ?_
    cases job with
    | load y =>
      dsimp only at heq
      split at heq
      · cases heq
      · exact heq
    | _ => exact heq
  · split at h
    · unfold Catalog.callOff at h
      split at h
      · exact happend h nofun
      · refine hmap h fun job heq => ?_
        cases job with
        | fetch y | read y => dsimp only at heq; split at heq <;> cases heq
        | _ => exact heq
    · split at h
      · exact happend h nofun
      · refine hmap h fun job heq => ?_
        cases job with
        | resume y => dsimp only at heq; split at heq <;> cases heq
        | _ => exact heq

/-- The loads of a name are cancelled, and if only some may be, these have begun. -/
theorem cancelLoads (h : Sound t cancelled {} c) (name : String)
    (hpermits : t.Permits c (.cancelLoads name)) : Sound t cancelled {} (c.cancelLoads name).2 := by
  have hbreaks : t.breaksOff := hpermits.elim h.closed.begun And.left
  have hbegun : ∀ e ∈ (c.loads.map (·.entry)).filter (fun e => c.entries[e]?.any (·.name == name)),
      .load e ∈ c.jobs → t.cancelsLoads := by
    intro e he hjob
    refine hpermits.resolve_right fun ⟨_, hnone⟩ => ?_
    have hany := (List.mem_filter.1 he).2
    cases ha : c.entries[e]? with
    | none => simp [ha] at hany
    | some a => exact hnone e a ha (by simpa [ha] using hany) hjob
  clear hpermits
  unfold Catalog.cancelLoads
  generalize (c.loads.map (·.entry)).filter (fun e => c.entries[e]?.any (·.name == name)) = running
    at hbegun
  show Sound t cancelled {} (running.foldl Catalog.cancelLoad c)
  induction running generalizing c with
  | nil => exact h
  | cons e rest ih =>
    refine ih (h.cancelLoad e hbreaks (hbegun e List.mem_cons_self)) fun x hx hjob => ?_
    exact hbegun x (List.mem_cons_of_mem _ hx) (load_mem_of_cancelLoad hjob)

/-- All who wait at the entry of a name are sent away. -/
theorem cancelWaiters (h : Sound t cancelled {} c) (name : String) (hsends : t.sendsAway) :
    Sound t cancelled {} (c.cancelWaiters name) := by
  unfold Catalog.cancelWaiters
  cases hfind : c.find? name with
  | none => exact h
  | some e =>
    obtain ⟨a, ha, -, -⟩ := listed_of_find? hfind
    have hleft : Sound t cancelled { waiters := a.waiters }
        (c.modifyEntry e fun entry => { entry with waiters := [] }) := by
      refine h.thin (fun _ => id) (List.length_modify ..) (fun x b hb => ?_) fun w _ => ?_
      · obtain ⟨old, hold, rfl⟩ := getElem?_of_getElem?_modify hb
        refine ⟨old, hold, ?_⟩
        split
        · exact ⟨rfl, rfl, rfl, rfl, rfl, nofun, id, fun _ => rfl⟩
        · exact .refl old
      · have := count_flatMap_modify (·.waiters) (fun entry => { entry with waiters := [] }) ha w
        simpa using this
    have hextended : Extended c (c.modifyEntry e fun entry => { entry with waiters := [] }) :=
      .of_modify rfl rfl rfl fun _ _ => ⟨rfl, fun _ => id⟩
    simp only [ha, Option.elim_some]
    refine sendAll (by simpa using hleft) fun w hw => ?_
    have hname := h.faithful.waiter a (List.mem_of_getElem? ha) w hw
    refine ⟨a.name, hextended.awaitedName? hname, ?_⟩
    cases w with
    | request r => exact .inr hsends
    | descendant x => exact hsends

/-! ### The store and the clock -/

/-- A store that gives a text out again lets the fetches that have waited for it go on. -/
theorem unhold (h : Sound t cancelled {} c) (name : String) :
    Sound t cancelled {} (c.unhold name) := by
  unfold Catalog.unhold
  generalize hfree : (fun e : EntryId => c.entries[e]?.any (·.name == name)) = isFree
  let freed : Catalog := { c with
    held := c.held.filter (· != name)
    postponed := c.postponed.filter fun e => !isFree e }
  have hgone : Sound t cancelled { errands := c.postponed.filter isFree } freed := by
    refine { h with loads := h.loads.congr fun x => ?_ }
    -- Each fetch that was held back goes on or stays.
    have hsplit : (c.postponed.filter isFree).count x + (c.postponed.filter (!isFree ·)).count x
        = c.postponed.count x := by
      rw [← List.count_append]
      exact (List.filter_append_perm isFree c.postponed).count_eq x
    show (errands (c.postponed.filter isFree) c.jobs (c.postponed.filter (!isFree ·))).count x = _
    simp only [errands, List.count_append, List.count_nil]
    omega
  show Sound t cancelled {} (freed.enqueue ((c.postponed.filter isFree).map .read))
  refine pushAll ?_ (fun r hr => ?_) (fun _ e => ⟨by simp, by simp⟩) fun job hjob => ?_
  · rw [Hand.takeAll_map .read (fun _ => none) some fun _ _ => rfl]
    simpa using hgone
  · simp at hr
  · obtain ⟨e, -, rfl⟩ := List.mem_map.1 hjob
    trivial

/-- The fetches whose time is up are noticed. -/
theorem ring (h : Sound t cancelled {} c) (hlate : t.runsLate) : Sound t cancelled {} c.ring := by
  unfold Catalog.ring
  generalize hdue : (c.alarms.partition (·.1 ≤ c.clock)).1.mergeSort
    (fun a b => decide (a.1 ≤ b.1)) = due
  let rung : Catalog := { c with alarms := (c.alarms.partition (·.1 ≤ c.clock)).2 }
  have hrung : Sound t cancelled {} rung := { h with }
  simp only [hdue]
  show Sound t cancelled {} (rung.enqueue (due.map fun alarm => .expire alarm.2))
  refine pushAll ?_ (fun r hr => ?_) (fun _ e => ⟨by simp, by simp⟩) fun job hjob => ?_
  · rw [Hand.takeAll_map _ (fun _ => none) (fun _ => none) fun _ _ => rfl]
    simpa using hrung
  · simp at hr
  · obtain ⟨alarm, -, rfl⟩ := List.mem_map.1 hjob
    exact hlate

end Sound

end TextTemplate.Catalog
