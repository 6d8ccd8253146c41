import TextTemplate.Proofs.Catalog.Queueing

/-! # Whoever is handed over is served

  An action hands a waiter over to an entry: a request that begins or comes
  through its gate, or an entry that has read the name of its ancestor.  No
  waiter is lost on the way.  Every request has one place from the moment when
  it is made, and every entry that awaits its ancestor has one; being handed over
  is moving to a place at the entry, and from there on `Queueing` has it.
-/

namespace TextTemplate.Catalog

/-! ### Being handed over -/

/-- In this action the waiter comes to an entry. -/
inductive HandsOver (c : Catalog) : Action → Waiter → Prop where
  /-- A request for a name begins. -/
  | template {store : String → Reply} {r : RequestId} {name : String} {rest : List Job} :
      c.jobs = .start r :: rest → c.requests[r]? = some (.template name) →
      HandsOver c (.turn store) (.request r)
  /-- A request for the template of an open gate begins. -/
  | openGate {store : String → Reply} {r : RequestId} {g : GateId} {gate : Gate}
      {rest : List Job} :
      c.jobs = .start r :: rest → c.requests[r]? = some (.gate g) → c.gates[g]? = some gate →
      gate.released = true → HandsOver c (.turn store) (.request r)
  /-- A request comes through its gate. -/
  | pass {store : String → Reply} {r : RequestId} {rest : List Job} :
      c.jobs = .pass r :: rest → HandsOver c (.turn store) (.request r)
  /-- An entry has read the name of its ancestor. -/
  | ancestor {a : Action} {e : EntryId} : awaitsAncestor c.entries e = false →
      awaitsAncestor (c.step a).entries e = true → HandsOver c a (.descendant e)

/-- A job that tells a waiter anything brings it an answer. -/
theorem Job.eq_job_of_waiter? {job : Job} {w : Waiter} (h : job.waiter? = some w) :
    ∃ o, job = w.job o := by
  cases job with
  | answer r o | link e o =>
    obtain rfl := Option.some.inj h
    exact ⟨o, rfl⟩
  | _ => cases h

/-- A request that comes to an entry stands there or has its answer. -/
theorem known_await (c : Catalog) (r : RequestId) {e : EntryId} {a : Entry}
    (ha : c.entries[e]? = some a) : (c.await r e).Known (.request r) := by
  unfold await
  split
  · exact .answered (List.mem_append_right _ (List.mem_singleton_self _))
  · refine .stands (e := e) (a := { a with waiters := a.waiters ++ [.request r] }) ?_ ?_
    · simp [addWaiter, modifyEntry, ha]
    · exact List.mem_append_right _ (List.mem_singleton_self _)

namespace Sound

variable {t : Terms} {cancelled : List RequestId} {c : Catalog}

/-- A request for which a job is queued, and that was not cancelled, has come to no entry. -/
theorem not_known_of_request? (h : Sound t cancelled {} c) {job : Job} {r : RequestId}
    (hjob : job ∈ c.jobs) (hr : job.request? = some r) (hkept : r ∉ cancelled) :
    ¬ c.Known (.request r) := by
  -- The job is the one place in which the request is.
  have hplaces := h.requests r hkept
  have hqueued : 0 < (c.jobs.filterMap Job.request?).count r :=
    List.count_pos_iff.2 (List.mem_filterMap.2 ⟨job, hjob, hr⟩)
  unfold places at hplaces
  have hone : (awaiting c.entries c.jobs).count (.request r) = 0 ∧
      (c.answers.map (·.1)).count r = 0 := by
    split at hplaces <;> omega
  intro hknown
  cases hknown with
  | stands ha hmem => exact List.count_eq_zero.1 hone.1 (mem_awaiting_of_stands ha hmem)
  | queued hmem => exact List.count_eq_zero.1 hone.1 (mem_awaiting_of_queued hmem)
  | answered hmem => exact List.count_eq_zero.1 hone.2 (List.mem_map.2 ⟨_, hmem, rfl⟩)

/-- An entry has come to another one exactly while it waits for that to settle. -/
theorem known_descendant_iff (h : Sound t cancelled {} c) (e : EntryId) :
    c.Known (.descendant e) ↔ awaitsAncestor c.entries e = true := by
  constructor
  · intro hknown
    cases hknown with
    | stands ha hmem => exact h.ties.awaits_of_awaiting (mem_awaiting_of_stands ha hmem)
    | queued hmem => exact h.ties.awaits_of_awaiting (mem_awaiting_of_queued hmem)
  · intro hawaits
    have hties := h.ties e
    rw [hawaits, List.count_nil, Nat.add_zero, Bool.toNat_true] at hties
    have hmem : .descendant e ∈ awaiting c.entries c.jobs := List.count_pos_iff.1 (by omega)
    rcases List.mem_append.1 hmem with hstands | hqueued
    · obtain ⟨a, ha, hmem⟩ := List.mem_flatMap.1 hstands
      obtain ⟨i, hi⟩ := List.getElem?_of_mem ha
      exact .stands hi hmem
    · obtain ⟨job, hjob, hwaiter⟩ := List.mem_filterMap.1 hqueued
      obtain ⟨o, rfl⟩ := Job.eq_job_of_waiter? hwaiter
      exact .queued hjob

/-- Who is handed over has not come to any entry before. -/
theorem not_known_of_handsOver (h : Sound t cancelled {} c) {a : Action} {w : Waiter}
    (hw : c.HandsOver a w) (hkept : ∀ r, w = .request r → r ∉ cancelled) : ¬ c.Known w := by
  cases hw with
  | template hjobs | openGate hjobs | pass hjobs =>
    exact h.not_known_of_request? (hjobs ▸ List.mem_cons_self) rfl (hkept _ rfl)
  | ancestor hnot =>
    rw [h.known_descendant_iff, hnot]
    exact Bool.false_ne_true

/-- Who is handed over has come to an entry. -/
theorem known_of_handsOver (h : Sound t cancelled {} c) {a : Action} (ha : t.Allows a) {w : Waiter}
    (hw : c.HandsOver a w) : (c.step a).Known w := by
  cases hw with
  | @template store r name rest hjobs hr =>
    have hstep : c.step (.turn store) = (({ c with jobs := rest } : Catalog).ensure name).2.await r
        (({ c with jobs := rest } : Catalog).ensure name).1 := by
      simp [Catalog.step, turn?, hjobs, Catalog.perform, hr, Turn.resolve]
    obtain ⟨x, hx, -⟩ := ensure_entry { c with jobs := rest } name
    rw [hstep]
    exact known_await _ r hx
  | @openGate store r g gate rest hjobs hr hg hreleased =>
    have hstep : c.step (.turn store) = ({ c with jobs := rest } : Catalog).await r gate.entry := by
      simp [Catalog.step, turn?, hjobs, Catalog.perform, hr, hg, hreleased, Turn.resolve]
    have hlt := h.gates.entry_lt gate (List.mem_of_getElem? hg)
    rw [hstep]
    exact known_await { c with jobs := rest } r (List.getElem?_eq_getElem hlt)
  | @pass store r rest hjobs =>
    -- A request that is on its way through a gate was made for this gate.
    obtain ⟨g, hr⟩ := h.gates.passing r (hjobs ▸ List.mem_cons_self)
    obtain ⟨gate, hg⟩ : ∃ gate, c.gates[g]? = some gate :=
      ⟨_, List.getElem?_eq_getElem (h.gates.target_lt r g hr)⟩
    have hlt := h.gates.entry_lt gate (List.mem_of_getElem? hg)
    have hstep : c.step (.turn store) = ({ c with jobs := rest } : Catalog).await r gate.entry := by
      simp [Catalog.step, turn?, hjobs, Catalog.perform, hr, hg, Turn.resolve]
    rw [hstep]
    exact known_await { c with jobs := rest } r (List.getElem?_eq_getElem hlt)
  | ancestor _ hawaits => exact ((h.step a (ha.permits c)).known_descendant_iff _).2 hawaits

end Sound

/-! ### Runs -/

namespace Sound

variable {t : Terms} {cancelled : List RequestId} {c : Catalog}

theorem stands_after (h : Sound t cancelled {} c) (hbacked : c.Backed) {actions : List Action}
    (hactions : ∀ a ∈ actions, t.Allows a) {e : EntryId} {w : Waiter} (hw : c.Stands e w)
    (hkept : w ∉ c.cancellations actions) : (c.after actions).Stands e w := by
  apply kept_after (·.Stands e w) [w] _ h hbacked hactions hw (List.forall_mem_singleton.2 hkept)
  intro cancelled c a h hbacked hw hkept
  exact (h.happens a).stands (h.later_step hbacked a).1 hw (hkept w (List.mem_singleton_self w))

theorem inOrder_after (h : Sound t cancelled {} c) (hbacked : c.Backed) {actions : List Action}
    (hactions : ∀ a ∈ actions, t.Allows a) {e : EntryId} {ws : List Waiter} (hws : c.InOrder e ws)
    (hkept : ∀ w ∈ ws, w ∉ c.cancellations actions) : (c.after actions).InOrder e ws := by
  apply kept_after (·.InOrder e ws) ws _ h hbacked hactions hws hkept
  intro cancelled c a h hbacked hws hkept
  exact (h.happens a).inOrder (h.later_step hbacked a).1 hws hkept

end Sound

/-- After a run the invariant holds, with those cancelled only that are cancelled in it. -/
theorem sound_of_cancellations (rules : Markup.Rules) (limit? : Option TimeLimit)
    (actions : List Action) :
    ∃ cancelled, Sound (.ofEveryRun True True) cancelled {} ((empty rules limit?).after actions) ∧
      ∀ r ∈ cancelled, .request r ∈ (empty rules limit?).cancellations actions := by
  have hempty := Sound.empty (Terms.closed_ofEveryRun True True rules limit?)
  have hallows : ∀ a ∈ actions, (Terms.ofEveryRun True True).Allows a :=
    fun _ _ => Terms.allows_ofEveryRun fun _ _ => trivial
  obtain ⟨cancelled, hsound, hcount⟩ := hempty.after_cancellations hallows
  refine ⟨cancelled, hsound, fun r hr => (hcount r hr).resolve_left ?_⟩
  exact List.not_mem_nil

/-- Whoever stands at an entry after a run, and has not been cancelled in it, is in one place. -/
theorem placed_of_stands {rules : Markup.Rules} {limit? : Option TimeLimit} {actions : List Action}
    {e : EntryId} {w : Waiter} (hw : ((empty rules limit?).after actions).Stands e w)
    (hkept : w ∉ (empty rules limit?).cancellations actions) :
    ((empty rules limit?).after actions).Placed e w := by
  obtain ⟨cancelled, hsound, hcount⟩ := sound_of_cancellations rules limit? actions
  apply hsound.placed hw
  rintro r rfl hmem
  exact hkept (hcount r hmem)

/-- Whoever has come to an entry in an action of a run, and has not been cancelled in the run, has
    asked for this entry only, and is in one place at its end. -/
theorem placed_of_comes {rules : Markup.Rules} {limit? : Option TimeLimit}
    {before later : List Action} {a : Action} {w : Waiter}
    (hnew : ¬ ((empty rules limit?).after before).Known w)
    (hknown : ((empty rules limit?).after (before ++ [a])).Known w)
    (hkept : w ∉ (empty rules limit?).cancellations (before ++ a :: later)) :
    ∃ e, ((empty rules limit?).after (before ++ a :: later)).Placed e w ∧
      ∀ x, ((empty rules limit?).after (before ++ [a])).AsksFor w x ↔ x = e := by
  have hmoment : ∀ moment : List Action,
      Sound (.ofEveryRun True True) (cancelledBy moment) {} ((empty rules limit?).after moment) ∧
        ((empty rules limit?).after moment).Backed :=
    fun moment => sound_of_run rules limit? moment fun _ _ => trivial
  obtain ⟨hbefore, -⟩ := hmoment before
  obtain ⟨hafter, hafterBacked⟩ := hmoment (before ++ [a])
  have hstep : (empty rules limit?).after (before ++ [a])
      = ((empty rules limit?).after before).step a := after_append _ _ _
  have hrun : (empty rules limit?).after (before ++ a :: later)
      = ((empty rules limit?).after (before ++ [a])).after later := by
    rw [← after_append, List.append_assoc]
    rfl
  -- Whoever is cancelled by the action, or after it, is cancelled in the run.
  have hnow : w ∉ ((empty rules limit?).after before).cancels a := by
    intro hmem
    apply hkept
    rw [cancellations_append]
    exact List.mem_append_right _ (List.mem_append_left _ hmem)
  have hlater : w ∉ ((empty rules limit?).after (before ++ [a])).cancellations later := by
    intro hmem
    apply hkept
    rw [hstep] at hmem
    rw [cancellations_append]
    exact List.mem_append_right _ (List.mem_append_right _ hmem)
  rw [hstep] at hknown
  obtain ⟨e, hstands, hasks⟩ := (hbefore.happens a).comes hnew hknown hnow
  rw [← hstep] at hstands hasks
  have hend := hafter.stands_after hafterBacked
    (fun _ _ => Terms.allows_ofEveryRun fun _ _ => trivial) hstands hlater
  rw [← hrun] at hend
  exact ⟨e, placed_of_stands hend hkept, hasks⟩

/-- Whoever has been handed over in an action of a run, and has not been cancelled in the run, has
    asked for one entry only, and is in one place at its end. -/
theorem placed_of_handsOver {rules : Markup.Rules} {limit? : Option TimeLimit}
    {before later : List Action} {a : Action} {w : Waiter}
    (hhands : ((empty rules limit?).after before).HandsOver a w)
    (hkept : w ∉ (empty rules limit?).cancellations (before ++ a :: later)) :
    ∃ e, ((empty rules limit?).after (before ++ a :: later)).Placed e w ∧
      ∀ x, ((empty rules limit?).after (before ++ [a])).AsksFor w x ↔ x = e := by
  obtain ⟨cancelled, hbefore, hcount⟩ := sound_of_cancellations rules limit? before
  have hstep : (empty rules limit?).after (before ++ [a])
      = ((empty rules limit?).after before).step a := after_append _ _ _
  have hnew : ¬ ((empty rules limit?).after before).Known w := by
    apply hbefore.not_known_of_handsOver hhands
    rintro r rfl hmem
    apply hkept
    rw [cancellations_append]
    exact List.mem_append_left _ (hcount r hmem)
  have hallows : (Terms.ofEveryRun True True).Allows a :=
    Terms.allows_ofEveryRun fun _ _ => trivial
  have hknown := hbefore.known_of_handsOver hallows hhands
  rw [← hstep] at hknown
  exact placed_of_comes hnew hknown hkept

/-- An entry that has settled after a run has no waiters, and stays as it is. -/
theorem settled_for_good {rules : Markup.Rules} {limit? : Option TimeLimit} {actions : List Action}
    {e : EntryId} {x : Entry} (hx : ((empty rules limit?).after actions).entries[e]? = some x)
    (hsettled : x.isLoading = false) : x.waiters = [] ∧ ∀ later, ∃ y,
      ((empty rules limit?).after (actions ++ later)).entries[e]? = some y ∧
        y.status = x.status ∧ y.waiters = [] := by
  have hnone : ∀ (moment : List Action) (y : Entry),
      ((empty rules limit?).after moment).entries[e]? = some y → y.isLoading = false →
      y.waiters = [] := by
    intro moment y hy hdone
    obtain ⟨hsound, -⟩ := sound_of_run rules limit? moment fun _ _ => trivial
    exact hsound.listing.no_waiters e y hy hdone
  refine ⟨hnone actions x hx hsettled, fun later => ?_⟩
  obtain ⟨hsound, hbacked⟩ := sound_of_run rules limit? actions fun _ _ => trivial
  have hallows : ∀ a ∈ later, (Terms.ofEveryRun True True).Allows a :=
    fun _ _ => Terms.allows_ofEveryRun fun _ _ => trivial
  have hlater := (hsound.later_after hbacked hallows).1
  obtain ⟨y, hy, -, hstatus⟩ := hlater.entry e x hx
  rw [← after_append] at hy
  refine ⟨y, hy, hstatus hsettled, hnone (actions ++ later) y hy ?_⟩
  rw [Entry.isLoading_of_status (hstatus hsettled)]
  exact hsettled

/-- What becomes of those who wait in a run. -/
structure ServedInOrder (rules : Markup.Rules) (limit? : Option TimeLimit) (actions : List Action) :
    Prop where
  /-- Every request that was made, and has not been cancelled, is in one place: about to begin, at
      a gate or on its way through, in the list of an entry, about to be answered, or answered. -/
  requests : ∀ r < ((empty rules limit?).after actions).requests.length,
    .request r ∉ (empty rules limit?).cancellations actions →
    places r [] ((empty rules limit?).after actions).entries
      ((empty rules limit?).after actions).jobs ((empty rules limit?).after actions).gates
      ((empty rules limit?).after actions).answers = 1
  /-- An entry that has named its ancestor and not learned of it is in one place, in the list of an
      entry or about to be told, and any other entry is in none. -/
  descendants : ∀ e, (awaiting ((empty rules limit?).after actions).entries
      ((empty rules limit?).after actions).jobs).count (.descendant e)
    = (awaitsAncestor ((empty rules limit?).after actions).entries e).toNat
  /-- Whoever is handed over in an action, and has not been cancelled, has asked for an entry, and
      is in one place ever since: in the entry's list as long as it is loading, and with its answer
      from then on. -/
  handed : ∀ before a later w, actions = before ++ a :: later →
    ((empty rules limit?).after before).HandsOver a w →
    w ∉ (empty rules limit?).cancellations actions →
    ∃ e, ((empty rules limit?).after actions).Placed e w ∧
      ∀ x, ((empty rules limit?).after (before ++ [a])).AsksFor w x ↔ x = e
  /-- An entry that has settled has no waiters, and keeps its template or its error for good. -/
  settled : ∀ (e : EntryId) (x : Entry),
    ((empty rules limit?).after actions).entries[e]? = some x → x.isLoading = false →
    x.waiters = [] ∧ ∀ later, ∃ y,
      ((empty rules limit?).after (actions ++ later)).entries[e]? = some y ∧
        y.status = x.status ∧ y.waiters = []
  /-- Whoever has come to an entry, and has not been cancelled, has asked for this entry and for no
      other, and is in one place ever since: in the entry's list as long as it is loading, and with
      its answer from then on. -/
  placed : ∀ before a later w, actions = before ++ a :: later →
    ¬ ((empty rules limit?).after before).Known w →
    ((empty rules limit?).after (before ++ [a])).Known w →
    w ∉ (empty rules limit?).cancellations actions →
    ∃ e, ((empty rules limit?).after actions).Placed e w ∧
      ∀ x, ((empty rules limit?).after (before ++ [a])).AsksFor w x ↔ x = e
  /-- Whatever answer a waiter in its place has, it is the one of its entry, and all others there
      have the same. -/
  answered : ∀ e v o, ((empty rules limit?).after actions).Placed e v →
    ((empty rules limit?).after actions).Resolved v o →
    ((empty rules limit?).after actions).outcome? e = some o ∧
      ∀ w, ((empty rules limit?).after actions).Placed e w →
        ((empty rules limit?).after actions).Resolved w o
  /-- In every action, those who wait and are not cancelled stay in front of those who come. -/
  arrivals : ∀ (a : Action) (e : EntryId) (x y : Entry),
    ((empty rules limit?).after actions).entries[e]? = some x →
    (((empty rules limit?).after actions).step a).entries[e]? = some y → y.isLoading = true →
    x.waiters.filter (· ∉ ((empty rules limit?).after actions).cancels a) <+:
      y.waiters.filter (· ∉ ((empty rules limit?).after actions).cancels a)
  /-- In the action that settles an entry, its waiters are queued for the answer in their order. -/
  settlement : ∀ (a : Action) (e : EntryId) (x : Entry) (o : Outcome),
    ((empty rules limit?).after actions).entries[e]? = some x → x.isLoading = true →
    (((empty rules limit?).after actions).step a).outcome? e = some o →
    x.waiters.map (·.job o) <:+: (((empty rules limit?).after actions).step a).jobs
  /-- Those who have stood in a list at any moment, and have not been cancelled since then, are
      served in their order. -/
  in_order : ∀ before later (e : EntryId) (x : Entry) (ws : List Waiter),
    actions = before ++ later → ((empty rules limit?).after before).entries[e]? = some x →
    ws.Sublist x.waiters →
    (∀ w ∈ ws, w ∉ ((empty rules limit?).after before).cancellations later) →
    ((empty rules limit?).after actions).InOrder e ws

/-- In every run, no waiter is lost, doubled, overtaken or answered by another entry. -/
theorem waiters_served_in_order (rules : Markup.Rules) (limit? : Option TimeLimit)
    (actions : List Action) : ServedInOrder rules limit? actions := by
  have hallows : ∀ later : List Action, ∀ a ∈ later, (Terms.ofEveryRun True True).Allows a :=
    fun _ _ _ => Terms.allows_ofEveryRun fun _ _ => trivial
  have hmoment : ∀ moment : List Action,
      Sound (.ofEveryRun True True) (cancelledBy moment) {} ((empty rules limit?).after moment) ∧
        ((empty rules limit?).after moment).Backed :=
    fun moment => sound_of_run rules limit? moment fun _ _ => trivial
  obtain ⟨hsound, -⟩ := hmoment actions
  constructor
  case requests =>
    intro r hr hkept
    obtain ⟨cancelled, hsound, hcount⟩ := sound_of_cancellations rules limit? actions
    have hplaces := hsound.requests r fun hmem => hkept (hcount r hmem)
    rwa [if_pos hr] at hplaces
  case descendants => exact fun e => hsound.ties e
  case handed =>
    rintro before a later w rfl hhands hkept
    exact placed_of_handsOver hhands hkept
  case settled => exact fun e x hx hsettled => settled_for_good hx hsettled
  case placed =>
    rintro before a later w rfl hnew hknown hkept
    exact placed_of_comes hnew hknown hkept
  case answered =>
    intro e v o hplaced hresolved
    exact ⟨hplaced.outcome? hresolved, fun w hw => hplaced.resolved_of_resolved hw hresolved⟩
  case arrivals =>
    intro a e x y hx hy hloading
    rcases (hsound.happens a).waiters hx with ⟨y', hy', hfront⟩ | ⟨o, houtcome, -⟩
    · rw [hy] at hy'
      obtain rfl := Option.some.inj hy'
      exact hfront
    · rw [(outcome?_eq_none_iff hy).2 hloading] at houtcome
      cases houtcome
  case settlement =>
    intro a e x o hx hloading houtcome
    have hstep := hsound.step a ((hallows [a] a (List.mem_singleton_self _)).permits _)
    exact (hsound.happens a).settlement hstep.listing hx hloading houtcome
  case in_order =>
    rintro before later e x ws rfl hx hsublist hkept
    obtain ⟨hbefore, hbeforeBacked⟩ := hmoment before
    rw [after_append]
    exact hbefore.inOrder_after hbeforeBacked (hallows later) (.waiting hx hsublist) hkept

end TextTemplate.Catalog
