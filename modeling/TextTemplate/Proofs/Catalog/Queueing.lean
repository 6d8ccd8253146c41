import TextTemplate.Proofs.Catalog.Cancelling
import TextTemplate.Proofs.Catalog.Happening
import TextTemplate.Proofs.Catalog.Places

/-! # Waiters are served once and in their order

  Whoever has come to an entry and is not cancelled stands in its list as long as
  it is loading, and has its answer from then on: once, and the same one as all
  others.  The list is served from the front.  New waiters join at its end; when
  the entry settles, the list is put into the queue as it is; and the queue is
  worked off from its front.
-/

namespace TextTemplate.Catalog

/-! ### Those who are cancelled -/

/-- The waiters that an action cancels. -/
def cancels (c : Catalog) : Action → List Waiter
  | .cancel r => if (c.cancel r).1 then [.request r] else []
  | .cancelWaiters name => ((c.find? name).bind (c.entries[·]?)).elim [] (·.waiters)
  | _ => []

/-- The waiters that the actions of a run cancel. -/
def cancellations (c : Catalog) : List Action → List Waiter
  | [] => []
  | a :: rest => c.cancels a ++ cancellations (c.step a) rest

theorem cancellations_append (c : Catalog) (first second : List Action) :
    c.cancellations (first ++ second)
      = c.cancellations first ++ (c.after first).cancellations second := by
  induction first generalizing c with
  | nil => rfl
  | cons a rest ih =>
    show c.cancels a ++ (c.step a).cancellations (rest ++ second) = _
    rw [ih, ← List.append_assoc]
    rfl

theorem cancels_of_cancel {c : Catalog} {r : RequestId} (h : (c.cancel r).1 = true) :
    c.cancels (.cancel r) = [.request r] := if_pos h

theorem cancels_of_sendAway {c : Catalog} {name : String} {e : EntryId} {x : Entry}
    (hfind : c.find? name = some e) (hx : c.entries[e]? = some x) :
    c.cancels (.cancelWaiters name) = x.waiters := by
  simp [cancels, hfind, hx]

/-- A request that is cancelled after its end, or before it is made, is not concerned by it. -/
theorem step_cancel_of_ended {c : Catalog} {r : RequestId} (h : (c.cancel r).1 = false) :
    c.step (.cancel r) = c := by
  show (c.cancel r).2 = c
  unfold cancel at h ⊢
  split at h
  · cases h
  · next hnone =>
    rw [if_neg hnone]
    split at h
    · cases h
    · next hfree => rw [if_neg hfree]

/-- In an action, the invariant counts those as cancelled only that are. -/
theorem Sound.step_cancels {t : Terms} {cancelled : List RequestId} {c : Catalog}
    (h : Sound t cancelled {} c) {a : Action} (ha : t.Allows a) :
    ∃ cancelled', Sound t cancelled' {} (c.step a) ∧
      ∀ r ∈ cancelled', r ∈ cancelled ∨ .request r ∈ c.cancels a := by
  by_cases hended : ∃ r, a = .cancel r ∧ (c.cancel r).1 = false
  · -- Such an action changes nothing, so its request does not count as cancelled.
    obtain ⟨r, rfl, hr⟩ := hended
    rw [step_cancel_of_ended hr]
    exact ⟨cancelled, h, fun _ => .inl⟩
  · refine ⟨_, h.step a (ha.permits c), fun r hr => ?_⟩
    rcases List.mem_append.1 hr with hr | hr
    · obtain rfl := List.mem_singleton.1 (mem_cancelledBy.1 hr)
      have hgoes : (c.cancel r).1 = true := by
        by_contra hr'
        exact hended ⟨r, rfl, by simpa using hr'⟩
      right
      rw [cancels_of_cancel hgoes]
      exact List.mem_singleton_self _
    · exact .inl hr

/-- In a run, the invariant counts those as cancelled only that are. -/
theorem Sound.after_cancellations {t : Terms} {cancelled : List RequestId} {c : Catalog}
    (h : Sound t cancelled {} c) {actions : List Action} (hactions : ∀ a ∈ actions, t.Allows a) :
    ∃ cancelled', Sound t cancelled' {} (c.after actions) ∧
      ∀ r ∈ cancelled', r ∈ cancelled ∨ .request r ∈ c.cancellations actions := by
  induction actions generalizing c cancelled with
  | nil => exact ⟨cancelled, h, fun _ => .inl⟩
  | cons a rest ih =>
    obtain ⟨cancelled₁, hstep, hfirst⟩ := h.step_cancels (hactions a List.mem_cons_self)
    obtain ⟨cancelled₂, hrest, hsecond⟩ :=
      ih hstep fun x hx => hactions x (List.mem_cons_of_mem _ hx)
    refine ⟨cancelled₂, hrest, fun r hr => ?_⟩
    rcases hsecond r hr with hr | hr
    · exact (hfirst r hr).imp_right (List.mem_append_left _)
    · exact .inr (List.mem_append_right _ hr)

/-- What an action keeps unless it cancels one of some waiters, a run keeps unless it does. -/
theorem Sound.kept_after {t : Terms} (P : Catalog → Prop) (ws : List Waiter)
    (hkeep : ∀ (cancelled : List RequestId) (c : Catalog) (a : Action), Sound t cancelled {} c →
      c.Backed → P c → (∀ w ∈ ws, w ∉ c.cancels a) → P (c.step a))
    {cancelled : List RequestId} {c : Catalog} (h : Sound t cancelled {} c) (hbacked : c.Backed)
    {actions : List Action} (hactions : ∀ a ∈ actions, t.Allows a) (hc : P c)
    (hws : ∀ w ∈ ws, w ∉ c.cancellations actions) : P (c.after actions) := by
  induction actions generalizing c cancelled with
  | nil => exact hc
  | cons a rest ih =>
    have hnow : ∀ w ∈ ws, w ∉ c.cancels a :=
      fun w hw hmem => hws w hw (List.mem_append_left _ hmem)
    have hlater : ∀ w ∈ ws, w ∉ (c.step a).cancellations rest :=
      fun w hw hmem => hws w hw (List.mem_append_right _ hmem)
    have hstep := h.step a ((hactions a List.mem_cons_self).permits c)
    exact ih hstep (h.later_step hbacked a).2 (fun x hx => hactions x (List.mem_cons_of_mem _ hx))
      (hkeep cancelled c a h hbacked hc hnow) hlater

/-! ### One step -/

/-- An entry that learns of its ancestor has learned it. -/
theorem has_link {c : Catalog} {x : EntryId} {a : Entry} (ha : c.entries[x]? = some a)
    (hloading : a.isLoading = true) (hancestor : a.ancestor? = none) (o : Outcome) :
    (c.link x o).Has (.descendant x) o := by
  have hlt : x < c.entries.length := (List.getElem?_eq_some_iff.1 ha).1
  -- An entry that fails has learned from its ancestor what it fails with.
  have hfail : ∀ error, (∀ b : Entry, b.ancestor? = none → b.status = .failed error →
      b.learned? = some o) → (c.fail x error).Has (.descendant x) o := by
    intro error herror
    unfold fail
    rw [ha]
    simp only [hloading, if_true]
    refine ⟨{ a with status := .failed error, waiters := [] }, ?_, herror _ hancestor rfl⟩
    simp [settle, Catalog.note, hlt]
  unfold Catalog.link
  cases o with
  | cancelled =>
    apply hfail
    intro b hb hstatus
    simp [Entry.learned?, hb, hstatus]
  | failed error =>
    apply hfail
    intro b hb hstatus
    simp [Entry.learned?, hb, hstatus]
  | ready chain =>
    have hnone : c.outcome? x = none := (outcome?_eq_none_iff ha).2 hloading
    simp only [hnone, Option.isSome_none, Bool.false_eq_true, if_false]
    apply (show Changes none _ _ from Changes.countDown _ x).has
    exact ⟨{ a with ancestor? := some chain }, by simp [modifyEntry, ha], rfl⟩

/-- A job that brings an answer is cancelled with its own request only. -/
theorem Waiter.cancelled_job {w : Waiter} {r : RequestId} (h : w ≠ .request r) (o : Outcome) :
    (w.job o).cancelled r = w.job o := by
  cases w with
  | request r' =>
    have hne : (r' == r) = false := by simpa using h
    simp [Job.cancelled, Job.isFor, Waiter.job, hne]
  | descendant x => rfl

/-- What brings another waiter an answer has done so before. -/
theorem Job.eq_of_cancelled {job : Job} {r : RequestId} {w : Waiter} {o : Outcome}
    (h : job.cancelled r = w.job o) (hw : w ≠ .request r) : job = w.job o := by
  by_cases hfor : job.isFor r = true
  · have hends : job.cancelled r = .dismiss r ∨ job.cancelled r = .answer r .cancelled := by
      unfold Job.cancelled
      rw [if_pos hfor]
      cases job with
      | start | dismiss => exact .inl rfl
      | _ => exact .inr rfl
    rcases hends with hdismiss | hanswer
    · rw [hdismiss] at h
      cases w <;> cases h
    · rw [hanswer] at h
      exact absurd (Waiter.job_inj (w := .request r) h).1.symm hw
  · unfold Job.cancelled at h
    rw [if_neg hfor] at h
    exact h

namespace Happens

variable {t : Terms} {cancelled : List RequestId} {c c' : Catalog} {a : Action}

/-- What an entry has learned it does not forget. -/
theorem learned (h : Happens t cancelled c a c') {e : EntryId} {x : Entry} {o : Outcome}
    (hx : c.entries[e]? = some x) (hlearned : x.learned? = some o) :
    ∃ y, c'.entries[e]? = some y ∧ y.learned? = some o := by
  obtain ⟨y, hy, hbecomes | ⟨ws, rfl⟩ | ⟨-, -, rfl⟩⟩ := h.entry hx
  · exact ⟨y, hy, hbecomes.learned? hlearned⟩
  · exact ⟨_, hy, hlearned⟩
  · exact ⟨_, hy, hlearned⟩

/-- Answers that have arrived stay. -/
theorem has (h : Happens t cancelled c a c') {w : Waiter} {o : Outcome} (hw : c.Has w o) :
    c'.Has w o := by
  cases w with
  | request r =>
    cases h with
    | changes _ _ hchanges | job _ _ _ _ hchanges => exact hchanges.answer hw
    | answer => exact List.mem_append_left _ hw
    | _ => exact hw
  | descendant x =>
    obtain ⟨y, hy, hlearned⟩ := hw
    exact h.learned hy hlearned

/-- The queue is worked off from its front: of some answers in it, only the first can arrive. -/
theorem queue (h : Happens t cancelled c a c') {ws : List Waiter} {o : Outcome}
    (hws : (ws.map (·.job o)).Sublist c.jobs) (hkept : ∀ w ∈ ws, w ∉ c.cancels a) :
    (ws.map (·.job o)).Sublist c'.jobs ∨
      ∃ w rest, ws = w :: rest ∧ c'.Has w o ∧ (rest.map (·.job o)).Sublist c'.jobs := by
  -- When a job is taken from the queue, it is the first of these answers or none of them.
  have hpop : ∀ {job : Job} {rest : List Job}, c.jobs = job :: rest →
      (ws.map (·.job o)).Sublist rest ∨ ∃ w others, ws = w :: others ∧ w.job o = job ∧
        (others.map (·.job o)).Sublist rest := by
    intro job rest hjobs
    rw [hjobs] at hws
    rcases List.sublist_cons_iff.1 hws with hrest | ⟨others, heq, hrest⟩
    · exact .inl hrest
    · obtain ⟨w, others', rfl, hw, rfl⟩ := List.map_eq_cons_iff.1 heq
      exact .inr ⟨w, others', rfl, hw, hrest⟩
  cases h with
  | changes _ _ hchanges => exact .inl (hchanges.sublist_jobs hws)
  | removal | idle => exact .inl hws
  | @cancelQueued r hqueued =>
    rw [cancels_of_cancel (by simp [Catalog.cancel, hqueued])] at hkept
    have hsame : (ws.map (·.job o)).map (·.cancelled r) = ws.map (·.job o) := by
      rw [List.map_map]
      refine List.map_congr_left fun w hw => Waiter.cancelled_job ?_ o
      rintro rfl
      exact hkept _ hw (List.mem_singleton_self _)
    rw [← hsame]
    exact .inl (hws.map _)
  | cancelWaiting | sendAway => exact .inl (hws.trans (List.sublist_append_left _ _))
  | answer hjobs =>
    refine (hpop hjobs).imp id ?_
    rintro ⟨w, others, rfl, hw, hrest⟩
    refine ⟨w, others, rfl, ?_, hrest⟩
    cases w with
    | request r =>
      cases hw
      exact List.mem_append_right _ (List.mem_singleton_self _)
    | descendant x => cases hw
  | job hjobs hother hsound hstep hchanges =>
    refine (hpop hjobs).imp hchanges.sublist_jobs ?_
    rintro ⟨w, others, rfl, rfl, hrest⟩
    refine ⟨w, others, rfl, ?_, hchanges.sublist_jobs hrest⟩
    cases w with
    | request r => exact absurd rfl (hother r o)
    | descendant x =>
      obtain ⟨y, p, hy, hloading, -, hancestor⟩ :=
        entry_of_awaitsAncestor hsound.ties.awaits_of_inHand
      rw [hstep]
      exact has_link hy hloading hancestor o

/-- Waiters that are not cancelled stay in the list of their entry, in front of any new one, or the
    entry settles, and they are told so in their order. -/
theorem waiters (h : Happens t cancelled c a c') {e : EntryId} {x : Entry}
    (hx : c.entries[e]? = some x) :
    (∃ y, c'.entries[e]? = some y ∧
      x.waiters.filter (· ∉ c.cancels a) <+: y.waiters.filter (· ∉ c.cancels a)) ∨
      ∃ o, c'.outcome? e = some o ∧ x.waiters.map (·.job o) <:+: c'.jobs := by
  cases h with
  | changes _ _ hchanges | job _ _ _ _ hchanges =>
    refine (hchanges.waiters hx).imp_left ?_
    rintro ⟨y, hy, hfront⟩
    exact ⟨y, hy, hfront.filter _⟩
  | @removal _ gone =>
    refine .inl ⟨_, getElem?_unlist hx, ?_⟩
    split <;> exact List.prefix_refl _
  | cancelQueued | idle | answer => exact .inl ⟨x, hx, List.prefix_refl _⟩
  | @cancelWaiting r hqueued hwaits =>
    rw [cancels_of_cancel (by simp [Catalog.cancel, hqueued, hwaits])]
    refine .inl ⟨{ x with waiters := x.waiters.filter (· != .request r) }, by simp [hx], ?_⟩
    have hsame : x.waiters.filter (fun w => decide (w ∉ [Waiter.request r]) && w != .request r)
        = x.waiters.filter (· ∉ [Waiter.request r]) :=
      List.filter_congr fun w _ => by by_cases hw : w = .request r <;> simp [hw]
    exact ⟨[], by rw [List.append_nil, List.filter_filter, hsame]⟩
  | @sendAway name f z hfind hz =>
    rw [cancels_of_sendAway hfind hz]
    by_cases hfe : f = e
    · -- All who have stood there are cancelled.
      subst hfe
      rw [hx] at hz
      obtain rfl := Option.some.inj hz
      refine .inl ⟨{ x with waiters := [] }, by simp [Catalog.enqueue, modifyEntry, hx], ?_⟩
      simp
    · refine .inl ⟨x, ?_, List.prefix_refl _⟩
      show (c.entries.modify f _)[e]? = some x
      rw [List.getElem?_modify_ne _ _ hfe]
      exact hx

/-- Entries settle by changes only. -/
theorem changes_or_outcome? (h : Happens t cancelled c a c') :
    (∃ own d, d.entries = c.entries ∧ Changes own d c') ∨ ∀ e, c'.outcome? e = c.outcome? e := by
  cases h with
  | changes _ _ hchanges | job _ _ _ _ hchanges =>
    refine .inl ⟨_, _, ?_, hchanges⟩
    rfl
  | @removal _ gone =>
    refine .inr fun e => ?_
    unfold Catalog.outcome?
    cases hx : c.entries[e]? with
    | none => simp [unlist, hx]
    | some x =>
      rw [getElem?_unlist hx, Option.bind_some, Option.bind_some]
      split <;> rfl
  | cancelQueued | idle | answer => exact .inr fun _ => rfl
  | cancelWaiting =>
    refine .inr fun e => ?_
    unfold Catalog.outcome?
    rw [List.getElem?_map]
    cases c.entries[e]? <;> rfl
  | @sendAway _ f _ _ _ =>
    refine .inr fun e => ?_
    show ((c.entries.modify f _)[e]?).bind _ = _
    by_cases hfe : f = e
    · subst hfe
      unfold Catalog.outcome?
      rw [List.getElem?_modify_eq]
      cases c.entries[f]? <;> rfl
    · rw [List.getElem?_modify_ne _ _ hfe]
      rfl

/-- When an entry settles, its waiters are queued for the answer in their order. -/
theorem settlement (h : Happens t cancelled c a c') (hlisting : Listing c'.entries) {e : EntryId}
    {x : Entry} {o : Outcome} (hx : c.entries[e]? = some x) (hloading : x.isLoading = true)
    (houtcome : c'.outcome? e = some o) : x.waiters.map (·.job o) <:+: c'.jobs := by
  rcases h.changes_or_outcome? with ⟨own, d, hentries, hchanges⟩ | hsame
  · rcases hchanges.waiters (hentries ▸ hx) with ⟨y, hy, hfront⟩ | ⟨o', houtcome', hpart⟩
    · -- A settled entry has no waiters, so there were none.
      obtain ⟨y', hy', hsettled, -⟩ := status_of_outcome? houtcome
      rw [hy] at hy'
      obtain rfl := Option.some.inj hy'
      rw [hlisting.no_waiters e y hy hsettled] at hfront
      rw [List.prefix_nil.1 hfront]
      exact List.nil_infix
    · rw [houtcome] at houtcome'
      obtain rfl := Option.some.inj houtcome'
      exact hpart
  · rw [hsame, (outcome?_eq_none_iff hx).2 hloading] at houtcome
    cases houtcome

/-- A waiter that comes to an entry has asked for it, if it is not cancelled. -/
theorem known (h : Happens t cancelled c a c') {w : Waiter} (hw : c'.Known w) :
    c.Known w ∨ w ∈ c.cancels a ∨ ∃ e, c'.AsksFor w e ∧ c'.Stands e w := by
  cases h with
  | changes _ _ hchanges => exact (hchanges.known hw).imp_right .inr
  | @removal _ gone =>
    refine hw.of_places (fun e y hy hmem => ?_) (fun _ => .inl) rfl
    unfold unlist at hy
    rw [List.getElem?_map] at hy
    obtain ⟨x, hx, rfl⟩ := Option.map_eq_some_iff.1 hy
    refine ⟨x, hx, ?_⟩
    split at hmem <;> exact hmem
  | @cancelQueued r hqueued =>
    rw [cancels_of_cancel (by simp [Catalog.cancel, hqueued])]
    refine hw.of_places (fun e y hy hmem => ⟨y, hy, hmem⟩) (fun o hjob => ?_) rfl
    by_cases hwr : w = .request r
    · exact .inr (.inl (hwr ▸ List.mem_singleton_self _))
    · obtain ⟨job, hmem, heq⟩ := List.mem_map.1 hjob
      rw [Job.eq_of_cancelled heq hwr] at hmem
      exact .inl hmem
  | @cancelWaiting r hqueued hwaits =>
    rw [cancels_of_cancel (by simp [Catalog.cancel, hqueued, hwaits])]
    refine hw.of_places (fun e y hy hmem => ?_) (fun o hjob => ?_) rfl
    · rw [List.getElem?_map] at hy
      obtain ⟨x, hx, rfl⟩ := Option.map_eq_some_iff.1 hy
      exact ⟨x, hx, List.mem_of_mem_filter hmem⟩
    · -- The one new answer is that of the request that is cancelled.
      refine (mem_or_eq_of_mem_concat hjob).imp_right fun heq => ?_
      obtain ⟨rfl, -⟩ := Waiter.job_inj
        (show w.job o = (Waiter.request r).job .cancelled from heq)
      exact .inl (List.mem_singleton_self _)
  | @sendAway name f x hfind hx =>
    rw [cancels_of_sendAway hfind hx]
    refine hw.of_places (fun e y hy hmem => ?_) (fun o hjob => ?_) rfl
    · obtain ⟨z, hz, rfl⟩ := getElem?_of_getElem?_modify hy
      split at hmem
      · cases hmem
      · exact ⟨z, hz, hmem⟩
    · refine (List.mem_append.1 hjob).imp_right fun hnew => ?_
      obtain ⟨v, hv, heq⟩ := List.mem_map.1 hnew
      obtain ⟨rfl, -⟩ := Waiter.job_inj heq
      exact .inl hv
  | idle => exact .inl hw
  | @answer _ r o rest hjobs =>
    refine .inl ?_
    cases hw with
    | stands hy hmem => exact .stands hy hmem
    | queued hjob => exact .queued (hjobs ▸ List.mem_cons_of_mem _ hjob)
    | @answered r' o' hanswer =>
      rcases mem_or_eq_of_mem_concat hanswer with hold | heq
      · exact .answered hold
      · obtain ⟨rfl, rfl⟩ := Prod.mk.inj heq
        exact .queued (o := o') (hjobs ▸ List.mem_cons_self)
  | job hjobs _ _ _ hchanges =>
    rcases hchanges.known hw with hknown | hnew
    · refine hknown.of_places (fun e y hy hmem => ⟨y, hy, hmem⟩) (fun o hjob => .inl ?_) rfl
      exact hjobs ▸ List.mem_cons_of_mem _ hjob
    · exact .inr (.inr hnew)

/-- Whoever comes, and is not cancelled at once, comes to the one entry that it asks for. -/
theorem comes (h : Happens t cancelled c a c') {w : Waiter} (hnew : ¬ c.Known w) (hw : c'.Known w)
    (hkept : w ∉ c.cancels a) : ∃ e, c'.Stands e w ∧ ∀ x, c'.AsksFor w x ↔ x = e := by
  rcases h.known hw with hold | hcancelled | ⟨e, hasks, hstands⟩
  · exact absurd hold hnew
  · exact absurd hcancelled hkept
  · refine ⟨e, hstands, fun x => ⟨fun hx => hx.unique hasks, ?_⟩⟩
    rintro rfl
    exact hasks

/-- Nobody leaves an entry but with its answer, unless it is cancelled. -/
theorem stands (h : Happens t cancelled c a c') (hlater : Later c c') {e : EntryId} {w : Waiter}
    (hw : c.Stands e w) (hkept : w ∉ c.cancels a) : c'.Stands e w := by
  rcases hw with ⟨x, hx, hmem⟩ | ⟨o, houtcome, hjob | hhas⟩
  · rcases h.waiters hx with ⟨y, hy, hfront⟩ | ⟨o, houtcome, hpart⟩
    · have hmem' := hfront.subset (List.mem_filter.2 ⟨hmem, by simpa using hkept⟩)
      exact .inl ⟨y, hy, List.mem_of_mem_filter hmem'⟩
    · exact .inr ⟨o, houtcome, .inl (hpart.subset (List.mem_map_of_mem hmem))⟩
  · refine .inr ⟨o, hlater.outcome? houtcome, ?_⟩
    have hsingle : ([w].map (·.job o)).Sublist c.jobs := List.singleton_sublist.2 hjob
    rcases h.queue hsingle (by simpa using hkept) with hqueued | ⟨v, rest, heq, hhas, -⟩
    · exact .inl (List.singleton_sublist.1 hqueued)
    · obtain ⟨rfl, -⟩ := List.cons.inj heq
      exact .inr hhas
  · exact .inr ⟨o, hlater.outcome? houtcome, .inr (h.has hhas)⟩

end Happens

/-! ### Being in one place -/

/-- In how many places a waiter is that has come to an entry: in lists of waiters, in the queue, and
    among those who have an answer. -/
def times (c : Catalog) (w : Waiter) : Nat :=
  (awaiting c.entries c.jobs).count w + match w with
    | .request r => (c.answers.map (·.1)).count r
    | .descendant x => (c.entries[x]?.any (·.learned?.isSome)).toNat

/-- The waiter is in the right place, and in no other: in the list of its entry as long as that is
    loading, and with the entry's answer from then on. -/
inductive Placed (c : Catalog) (e : EntryId) (w : Waiter) : Prop where
  | waits {a : Entry} : c.entries[e]? = some a → a.isLoading = true → a.waiters.count w = 1 →
      c.times w = 1 → Placed c e w
  | resolved {o : Outcome} : c.outcome? e = some o → c.Resolved w o → c.times w = 1 → Placed c e w

/-- The parts of the count of places. -/
theorem times_eq (c : Catalog) (w : Waiter) : c.times w = (c.entries.flatMap (·.waiters)).count w
    + c.jobs.countP (fun job => job.waiter? == some w) + match w with
      | .request r => c.answers.countP fun answer => answer.1 == r
      | .descendant x => (c.entries[x]?.any (·.learned?.isSome)).toNat := by
  unfold times awaiting
  rw [List.count_append, List.count_filterMap]
  cases w with
  | request r =>
    congr 1
    exact List.countP_map
  | descendant x => rfl

theorem mem_awaiting_of_stands {c : Catalog} {e : EntryId} {a : Entry} {w : Waiter}
    (ha : c.entries[e]? = some a) (hw : w ∈ a.waiters) : w ∈ awaiting c.entries c.jobs :=
  List.mem_append_left _ (List.mem_flatMap.2 ⟨a, List.mem_of_getElem? ha, hw⟩)

theorem mem_awaiting_of_queued {c : Catalog} {w : Waiter} {o : Outcome} (hw : w.job o ∈ c.jobs) :
    w ∈ awaiting c.entries c.jobs :=
  List.mem_append_right _ (List.mem_filterMap.2 ⟨_, hw, Waiter.waiter?_job w o⟩)

namespace Sound

variable {t : Terms} {cancelled : List RequestId} {c : Catalog}

/-- A waiter that has come to an entry is in one place. -/
theorem times_eq_one (h : Sound t cancelled {} c) {e : EntryId} {w : Waiter} (hw : c.Stands e w)
    (hkept : ∀ r, w = .request r → r ∉ cancelled) : c.times w = 1 := by
  have hplace : w ∈ awaiting c.entries c.jobs ∨ ∃ o, c.Has w o := by
    rcases hw with ⟨a, ha, hmem⟩ | ⟨o, -, hjob | hhas⟩
    · exact .inl (mem_awaiting_of_stands ha hmem)
    · exact .inl (mem_awaiting_of_queued hjob)
    · exact .inr ⟨o, hhas⟩
  cases w with
  | request r =>
    -- A request that was not cancelled has one place, which is one of these.
    have hplaces := h.requests r (hkept r rfl)
    unfold places at hplaces
    show (awaiting c.entries c.jobs).count (.request r) + (c.answers.map (·.1)).count r = 1
    have hpos : 0 < (awaiting c.entries c.jobs).count (.request r)
        ∨ 0 < (c.answers.map (·.1)).count r := by
      refine hplace.imp List.count_pos_iff.2 ?_
      rintro ⟨o, hanswer⟩
      exact List.count_pos_iff.2 (List.mem_map.2 ⟨_, hanswer, rfl⟩)
    split at hplaces <;> omega
  | descendant x =>
    have hties := h.ties x
    simp only [List.count_nil, Nat.add_zero] at hties
    show (awaiting c.entries c.jobs).count (.descendant x)
      + (c.entries[x]?.any (·.learned?.isSome)).toNat = 1
    by_cases hawaits : awaitsAncestor c.entries x = true
    · -- It has not learned of its ancestor yet.
      obtain ⟨a, p, ha, hloading, -, hancestor⟩ := entry_of_awaitsAncestor hawaits
      have hnone : a.learned? = none := by
        unfold Entry.isLoading at hloading
        unfold Entry.learned?
        rw [hancestor]
        dsimp only
        split at hloading
        · next hstatus => rw [hstatus]
        · cases hloading
      rw [hties, hawaits, ha, Option.any_some, hnone]
      rfl
    · rw [hties]
      have hfree : awaitsAncestor c.entries x = false := by simpa using hawaits
      rw [hfree, Bool.toNat_false] at hties ⊢
      rcases hplace with hmem | ⟨o, a, ha, hlearned⟩
      · exact absurd hmem (List.count_eq_zero.1 hties)
      · rw [ha, Option.any_some, hlearned]
        rfl

theorem placed (h : Sound t cancelled {} c) {e : EntryId} {w : Waiter} (hw : c.Stands e w)
    (hkept : ∀ r, w = .request r → r ∉ cancelled) : c.Placed e w := by
  have htimes := h.times_eq_one hw hkept
  rcases hw with ⟨a, ha, hmem⟩ | ⟨o, houtcome, hresolved⟩
  · refine .waits ha ?_ ?_ htimes
    · by_contra hsettled
      rw [h.listing.no_waiters e a ha (by simpa using hsettled)] at hmem
      cases hmem
    · -- The list of the entry is a part of all places.
      have hpos := List.count_pos_iff.2 hmem
      have hle : a.waiters.count w ≤ (awaiting c.entries c.jobs).count w := by
        have hpart := List.sublist_flatten_of_mem
          (List.mem_map_of_mem (f := (·.waiters)) (List.mem_of_getElem? ha))
        exact (hpart.trans (List.sublist_append_left _ _)).count_le _
      unfold times at htimes
      omega
  · exact .resolved houtcome hresolved htimes

end Sound

/-- A property that is counted once at most is one of one element. -/
theorem eq_of_countP_le_one {α : Type} {p : α → Bool} {l : List α} (h : l.countP p ≤ 1) {a b : α}
    (ha : a ∈ l) (hb : b ∈ l) (hpa : p a = true) (hpb : p b = true) : a = b := by
  induction l with
  | nil => cases ha
  | cons x rest ih =>
    by_cases hx : p x = true
    · rw [List.countP_cons_of_pos hx] at h
      have hnone := List.countP_eq_zero.1 (show rest.countP p = 0 by omega)
      have honly : ∀ y ∈ x :: rest, p y = true → y = x := by
        intro y hy hpy
        exact (List.mem_cons.1 hy).resolve_right fun hrest => hnone y hrest hpy
      rw [honly a ha hpa, honly b hb hpb]
    · rw [List.countP_cons_of_neg hx] at h
      have hother : ∀ y ∈ x :: rest, p y = true → y ∈ rest := by
        intro y hy hpy
        exact (List.mem_cons.1 hy).resolve_left fun heq => hx (heq ▸ hpy)
      exact ih h (hother a ha hpa) (hother b hb hpb)

/-- An answer that has arrived is a place. -/
theorem Has.pos {c : Catalog} {w : Waiter} {o : Outcome} (h : c.Has w o) :
    (awaiting c.entries c.jobs).count w < c.times w := by
  cases w with
  | request r =>
    have hpos : 0 < (c.answers.map (·.1)).count r :=
      List.count_pos_iff.2 (List.mem_map.2 ⟨_, h, rfl⟩)
    unfold times
    dsimp only
    omega
  | descendant x =>
    obtain ⟨a, ha, hlearned⟩ := h
    simp [times, ha, hlearned]

/-- A waiter in one place has one answer. -/
theorem Resolved.unique {c : Catalog} {w : Waiter} {o o' : Outcome} (h : c.Resolved w o)
    (h' : c.Resolved w o') (htimes : c.times w = 1) : o = o' := by
  -- An answer in the queue and one that has arrived would be two places.
  have hmixed : ∀ {x y : Outcome}, w.job x ∈ c.jobs → ¬ c.Has w y := by
    intro x y hjob hhas
    have hqueued := List.count_pos_iff.2 (mem_awaiting_of_queued hjob)
    have hplaces := hhas.pos
    omega
  rcases h with hjob | hhas
  · rcases h' with hjob' | hhas'
    · have hle : c.jobs.countP (fun job => job.waiter? == some w) ≤ 1 := by
        have hparts := c.times_eq w
        omega
      have heq := eq_of_countP_le_one hle hjob hjob' (by simp) (by simp)
      exact (Waiter.job_inj heq).2
    · exact absurd hhas' (hmixed hjob)
  · rcases h' with hjob' | hhas'
    · exact absurd hhas (hmixed hjob')
    · cases w with
      | request r =>
        have hle : c.answers.countP (fun answer => answer.1 == r) ≤ 1 := by
          have hparts := c.times_eq (.request r)
          dsimp only at hparts
          omega
        have heq := eq_of_countP_le_one hle hhas hhas' (by simp) (by simp)
        exact (Prod.mk.inj heq).2
      | descendant x =>
        obtain ⟨a, ha, hlearned⟩ := hhas
        obtain ⟨b, hb, hlearned'⟩ := hhas'
        rw [ha] at hb
        obtain rfl := Option.some.inj hb
        rw [hlearned] at hlearned'
        exact Option.some.inj hlearned'

/-- What a waiter in its place has got, or is about to get, is the answer of its entry. -/
theorem Placed.outcome? {c : Catalog} {e : EntryId} {w : Waiter} (h : c.Placed e w) {o : Outcome}
    (hw : c.Resolved w o) : c.outcome? e = some o := by
  cases h with
  | @waits a ha _ hcount htimes =>
    -- It stands in a list, and so is in no other place.
    have hmem : w ∈ a.waiters := List.count_pos_iff.1 (by omega)
    have hstands : 0 < (c.entries.flatMap (·.waiters)).count w :=
      List.count_pos_iff.2 (List.mem_flatMap.2 ⟨a, List.mem_of_getElem? ha, hmem⟩)
    rcases hw with hjob | hhas
    · have hqueued : 0 < c.jobs.countP fun job => job.waiter? == some w :=
        List.countP_pos_iff.2 ⟨_, hjob, by simp⟩
      have hparts := c.times_eq w
      omega
    · have hplaces := hhas.pos
      have hwaits := List.count_pos_iff.2 (mem_awaiting_of_stands (c := c) ha hmem)
      omega
  | resolved houtcome hresolved htimes =>
    rw [houtcome, hresolved.unique hw htimes]

/-- All waiters of an entry have its answer as soon as one has it. -/
theorem Placed.resolved_of_resolved {c : Catalog} {e : EntryId} {v w : Waiter} (hv : c.Placed e v)
    (hw : c.Placed e w) {o : Outcome} (h : c.Resolved v o) : c.Resolved w o := by
  have houtcome := hv.outcome? h
  cases hw with
  | waits ha hloading =>
    rw [(outcome?_eq_none_iff ha).2 hloading] at houtcome
    cases houtcome
  | resolved houtcome' hresolved =>
    rw [houtcome] at houtcome'
    obtain rfl := Option.some.inj houtcome'
    exact hresolved

/-! ### Order -/

/-- Some waiters of an entry are served in this order: they stand in its list so, or some that come
    first have got its answer, and the others get it from the queue in their order. -/
inductive InOrder (c : Catalog) (e : EntryId) (ws : List Waiter) : Prop where
  | waiting {a : Entry} : c.entries[e]? = some a → ws.Sublist a.waiters → InOrder c e ws
  | served {o : Outcome} {first others : List Waiter} : c.outcome? e = some o →
      ws = first ++ others → (∀ w ∈ first, c.Has w o) →
      (others.map (·.job o)).Sublist c.jobs → InOrder c e ws

theorem Happens.inOrder {t : Terms} {cancelled : List RequestId} {c c' : Catalog} {a : Action}
    (h : Happens t cancelled c a c') (hlater : Later c c') {e : EntryId} {ws : List Waiter}
    (hws : c.InOrder e ws) (hkept : ∀ w ∈ ws, w ∉ c.cancels a) : c'.InOrder e ws := by
  cases hws with
  | @waiting x hx hsublist =>
    rcases h.waiters hx with ⟨y, hy, hfront⟩ | ⟨o, houtcome, hpart⟩
    · have hall : ws.filter (· ∉ c.cancels a) = ws := by
        rw [List.filter_eq_self]
        simpa using hkept
      refine .waiting hy ?_
      rw [← hall]
      exact (hsublist.filter _).trans (hfront.sublist.trans List.filter_sublist)
    · refine .served houtcome (List.nil_append ws).symm nofun ?_
      exact (hsublist.map _).trans hpart.sublist
  | @served o first others houtcome heq hfirst hothers =>
    subst heq
    have hfirst' : ∀ w ∈ first, c'.Has w o := fun w hw => h.has (hfirst w hw)
    have houtcome' := hlater.outcome? houtcome
    rcases h.queue hothers fun w hw => hkept w (List.mem_append_right _ hw) with
      hqueued | ⟨w, rest, rfl, hhas, hrest⟩
    · exact .served houtcome' rfl hfirst' hqueued
    · -- The first of the others has been served as well.
      have hnext : first ++ w :: rest = (first ++ [w]) ++ rest := by simp
      refine .served houtcome' hnext (fun v hv => ?_) hrest
      rcases mem_or_eq_of_mem_concat hv with hv | rfl
      · exact hfirst' v hv
      · exact hhas

end TextTemplate.Catalog
