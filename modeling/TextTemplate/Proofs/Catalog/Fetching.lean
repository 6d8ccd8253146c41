import Mathlib.Data.List.Perm.Subperm
import TextTemplate.Proofs.Catalog.Cancelling
import TextTemplate.Proofs.Catalog.Happening

/-! # One fetch for each entry

  The load of an entry begins once, and the store is asked once for it, in every
  run.  For the first, what counts is the job that begins the load: it is queued
  with the new entry and never again.  For the second it is the load's errand,
  which is done when the store has been asked.

  So the fetches of a name are as many as its entries, at most.  One of these is
  found under the name, and each of the others has been removed.
-/

namespace TextTemplate.Catalog

/-! ### What a run does once for each entry -/

/-- The entry whose load begins with the action. -/
def beginning? (c : Catalog) : Action → Option EntryId
  | .turn _ => match c.jobs with
    | .load e :: _ => some e
    | _ => none
  | _ => none

/-- The entry for whose text the store is asked in the action. -/
def asking? (c : Catalog) : Action → Option EntryId
  | .turn _ => match c.jobs with
    | [] => none
    | job :: rest => match ({ c with jobs := rest } : Catalog).perform job with
      | .asks _ _ => job.errand?
      | .done _ => none
  | _ => none

/-- The entries that are seen in the actions of a run, in this order. -/
def trace (look : Catalog → Action → Option EntryId) (c : Catalog) : List Action → List EntryId
  | [] => []
  | a :: rest => (look c a).toList ++ trace look (c.step a) rest

/-- Entries are never taken off the list. -/
theorem Later.length_le {c c' : Catalog} (h : Later c c') :
    c.entries.length ≤ c'.entries.length := by
  by_contra hlt
  obtain ⟨b, hb, -⟩ := h.entry c'.entries.length _ (List.getElem?_eq_getElem (by omega))
  simp at hb

/-- What is seen only of entries that may be seen, and no more afterwards, is seen once. -/
theorem nodup_trace {t : Terms} {look : Catalog → Action → Option EntryId}
    (may : Catalog → EntryId → Prop)
    (hlook : ∀ (cancelled : List RequestId) (c : Catalog) (a : Action) (e : EntryId),
      Sound t cancelled {} c → c.Backed → look c a = some e →
        may c e ∧ e < c.entries.length ∧ ¬ may (c.step a) e)
    (hkeep : ∀ (cancelled : List RequestId) (c : Catalog) (a : Action) (e : EntryId),
      Sound t cancelled {} c → c.Backed → may (c.step a) e → may c e ∨ c.entries.length ≤ e)
    {cancelled : List RequestId} {c : Catalog} (h : Sound t cancelled {} c) (hbacked : c.Backed)
    {actions : List Action} (hactions : ∀ a ∈ actions, t.Allows a) :
    (trace look c actions).Nodup ∧
      ∀ e ∈ trace look c actions, may c e ∨ c.entries.length ≤ e := by
  induction actions generalizing c cancelled with
  | nil => exact ⟨List.nodup_nil, nofun⟩
  | cons a rest ih =>
    have hstep := h.step a ((hactions a List.mem_cons_self).permits c)
    obtain ⟨hlater, hbacked'⟩ := h.later_step hbacked a
    obtain ⟨hnodup, hmay⟩ := ih hstep hbacked' fun x hx => hactions x (List.mem_cons_of_mem _ hx)
    have hlength := hlater.length_le
    have hrest : ∀ e ∈ trace look (c.step a) rest, may c e ∨ c.entries.length ≤ e := by
      intro e he
      rcases hmay e he with hmay | hle
      · exact hkeep cancelled c a e h hbacked hmay
      · exact .inr (Nat.le_trans hlength hle)
    cases hseen : look c a with
    | none =>
      rw [trace, hseen]
      exact ⟨hnodup, hrest⟩
    | some e =>
      obtain ⟨hbefore, hlt, hafter⟩ := hlook cancelled c a e h hbacked hseen
      rw [trace, hseen]
      refine ⟨List.nodup_cons.2 ⟨fun he => ?_, hnodup⟩, fun x hx => ?_⟩
      · -- The entry may not be seen again, and is not a new one.
        rcases hmay e he with hagain | hle
        · exact hafter hagain
        · exact Nat.lt_irrefl e (Nat.lt_of_lt_of_le hlt (Nat.le_trans hlength hle))
      · rcases List.mem_cons.1 hx with rfl | hx
        · exact .inl hbefore
        · exact hrest x hx

/-! ### What changes keep of fetches -/

/-- Whoever brings an answer does no errand. -/
@[simp] theorem Waiter.errand?_job (w : Waiter) (outcome : Outcome) :
    (w.job outcome).errand? = none := by
  cases w <;> rfl

/-- Errands of more jobs are errands of these, or were there. -/
theorem mem_errands_append {jobs more : List Job} {postponed : List EntryId} {e : EntryId}
    (h : e ∈ errands [] (jobs ++ more) postponed) :
    e ∈ errands [] jobs postponed ∨ ∃ job ∈ more, job.errand? = some e := by
  simp only [errands, List.nil_append, List.filterMap_append, List.mem_append] at h ⊢
  rcases h with (hold | hnew) | hpostponed
  · exact .inl (.inl hold)
  · exact .inr (List.mem_filterMap.1 hnew)
  · exact .inl (.inr hpostponed)

theorem mem_errands_of_job {jobs : List Job} {job : Job} {e : EntryId} (hjob : job ∈ jobs)
    (he : job.errand? = some e) (postponed : List EntryId) : e ∈ errands [] jobs postponed := by
  apply List.mem_append_right
  apply List.mem_append_left
  exact List.mem_filterMap.2 ⟨job, hjob, he⟩

namespace Change

variable {own : Option EntryId} {c c' : Catalog}

/-- Jobs that begin loads come with new entries only. -/
theorem load_mem (h : Change own c c') {e : EntryId} (he : .load e ∈ c'.jobs) :
    .load e ∈ c.jobs ∨ c.entries.length ≤ e := by
  cases h with
  | aside haside =>
    obtain ⟨g, more, hjobs, hmore, hg⟩ := haside.jobs
    rw [hjobs] at he
    rcases List.mem_append.1 he with hmem | hmem
    · obtain ⟨job, hjob, heq⟩ := List.mem_map.1 hmem
      rcases hg job with hsame | ⟨-, hother⟩
      · rw [hsame] at heq
        exact .inl (heq ▸ hjob)
      · rw [heq] at hother
        cases hother
    · cases hmore _ hmem
  | alter | join | finish => exact .inl he
  | @settle _ a _ outcome =>
    rcases List.mem_append.1 he with hmem | hmem
    · exact .inl hmem
    · obtain ⟨w, -, heq⟩ := List.mem_map.1 hmem
      have hnone := Waiter.errand?_job w outcome
      rw [heq] at hnone
      cases hnone
  | @enter name hfind =>
    unfold ensure at he
    rw [hfind] at he
    rcases mem_or_eq_of_mem_concat he with hmem | heq
    · exact .inl hmem
    · obtain rfl := Job.load.inj heq
      exact .inr (Nat.le_refl _)
  | send =>
    rcases mem_or_eq_of_mem_concat he with hmem | heq
    · exact .inl hmem
    · cases heq

/-- Errands come from the hand, or with new entries. -/
theorem errand_mem (h : Change own c c') {e : EntryId}
    (he : e ∈ errands [] c'.jobs c'.postponed) :
    e ∈ errands [] c.jobs c.postponed ∨ own = some e ∨ c.entries.length ≤ e := by
  cases h with
  | aside haside => exact (haside.errand e he).imp_right .inl
  | alter | join | finish => exact .inl he
  | settle =>
    refine (mem_errands_append he).imp_right ?_
    rintro ⟨job, hjob, herrand⟩
    obtain ⟨w, -, rfl⟩ := List.mem_map.1 hjob
    rw [Waiter.errand?_job] at herrand
    cases herrand
  | @enter name hfind =>
    unfold ensure at he
    rw [hfind] at he
    refine (mem_errands_append he).imp_right ?_
    rintro ⟨job, hjob, herrand⟩
    obtain rfl := List.mem_singleton.1 hjob
    obtain rfl := Option.some.inj herrand
    exact .inr (Nat.le_refl _)
  | send =>
    refine (mem_errands_append he).imp_right ?_
    rintro ⟨job, hjob, herrand⟩
    obtain rfl := List.mem_singleton.1 hjob
    cases herrand

/-- Nothing is reported of fetches. -/
theorem events (h : Change own c c') :
    ∃ more, c'.events = c.events ++ more ∧ ∀ event ∈ more, event.isOfFetch = false := by
  cases h with
  | aside haside => exact haside.events
  | @enter name hfind =>
    unfold ensure
    rw [hfind]
    exact ⟨[], (List.append_nil _).symm, nofun⟩
  | _ => exact ⟨[], (List.append_nil _).symm, nofun⟩

end Change

namespace Changes

variable {own : Option EntryId} {c c' : Catalog}

theorem load_mem (h : Changes own c c') {e : EntryId} (he : .load e ∈ c'.jobs) :
    .load e ∈ c.jobs ∨ c.entries.length ≤ e := by
  induction h with
  | refl => exact .inl he
  | tail hchanges hchange ih =>
    rcases hchange.load_mem he with hmem | hle
    · exact ih hmem
    · exact .inr (Nat.le_trans (Changes.length_le hchanges) hle)

theorem errand_mem (h : Changes own c c') {e : EntryId}
    (he : e ∈ errands [] c'.jobs c'.postponed) :
    e ∈ errands [] c.jobs c.postponed ∨ own = some e ∨ c.entries.length ≤ e := by
  induction h with
  | refl => exact .inl he
  | tail hchanges hchange ih =>
    rcases hchange.errand_mem he with hmem | hown | hle
    · exact ih hmem
    · exact .inr (.inl hown)
    · exact .inr (.inr (Nat.le_trans (Changes.length_le hchanges) hle))

/-- What is reported of fetches is reported as often as before. -/
theorem countP_events (h : Changes own c c') {p : Event → Bool}
    (hp : ∀ event, event.isOfFetch = false → p event = false) :
    c'.events.countP p = c.events.countP p := by
  induction h with
  | refl => rfl
  | tail _ hchange ih =>
    obtain ⟨more, hevents, hquiet⟩ := hchange.events
    have hnone : more.countP p = 0 := by
      apply List.countP_eq_zero.2
      intro event hevent
      rw [hp event (hquiet event hevent)]
      decide
    rw [hevents, List.countP_append, hnone, ih, Nat.add_zero]

end Changes

/-- A job that is cancelled does no errand. -/
theorem Job.errand?_cancelled (r : RequestId) (job : Job) :
    job.cancelled r = job ∨ (job.cancelled r).errand? = none := by
  unfold Job.cancelled
  by_cases hfor : job.isFor r = true
  · rw [if_pos hfor]
    refine .inr ?_
    split <;> rfl
  · rw [if_neg hfor]
    exact .inl rfl

/-- A job that begins a load comes with a new entry, or was there. -/
theorem Happens.load_mem {t : Terms} {cancelled : List RequestId} {c c' : Catalog} {a : Action}
    (h : Happens t cancelled c a c') {e : EntryId} (he : .load e ∈ c'.jobs) :
    .load e ∈ c.jobs ∨ c.entries.length ≤ e := by
  cases h with
  | changes _ _ hchanges => exact hchanges.load_mem he
  | removal | idle => exact .inl he
  | @cancelQueued r =>
    obtain ⟨job, hjob, heq⟩ := List.mem_map.1 he
    rcases Job.errand?_cancelled r job with hsame | hnone
    · rw [hsame] at heq
      exact .inl (heq ▸ hjob)
    · rw [heq] at hnone
      cases hnone
  | cancelWaiting =>
    rcases mem_or_eq_of_mem_concat he with hmem | heq
    · exact .inl hmem
    · cases heq
  | sendAway =>
    rcases List.mem_append.1 he with hmem | hmem
    · exact .inl hmem
    · obtain ⟨w, -, heq⟩ := List.mem_map.1 hmem
      have hnone := Waiter.errand?_job w .cancelled
      rw [heq] at hnone
      cases hnone
  | answer hjobs =>
    rw [hjobs]
    exact .inl (List.mem_cons_of_mem _ he)
  | job hjobs _ _ _ hchanges =>
    rw [hjobs]
    exact (hchanges.load_mem he).imp_left (List.mem_cons_of_mem _)

/-- An errand comes with a new entry, or was there. -/
theorem Happens.errand_mem {t : Terms} {cancelled : List RequestId} {c c' : Catalog} {a : Action}
    (h : Happens t cancelled c a c') {e : EntryId} (he : e ∈ errands [] c'.jobs c'.postponed) :
    e ∈ errands [] c.jobs c.postponed ∨ c.entries.length ≤ e := by
  cases h with
  | changes _ _ hchanges =>
    rcases hchanges.errand_mem he with hmem | hown | hle
    · exact .inl hmem
    · cases hown
    · exact .inr hle
  | removal | idle => exact .inl he
  | @cancelQueued r =>
    refine .inl ?_
    simp only [errands, List.nil_append, List.mem_append] at he ⊢
    refine he.imp_left fun hmem => ?_
    obtain ⟨job', hjob', herrand⟩ := List.mem_filterMap.1 hmem
    -- A job keeps its errand or, if its request is cancelled, does none any more.
    obtain ⟨job, hjob, rfl⟩ := List.mem_map.1 hjob'
    rcases Job.errand?_cancelled r job with hsame | hnone
    · rw [hsame] at herrand
      exact List.mem_filterMap.2 ⟨job, hjob, herrand⟩
    · rw [hnone] at herrand
      cases herrand
  | cancelWaiting =>
    refine (mem_errands_append he).imp_right ?_
    rintro ⟨job, hjob, herrand⟩
    obtain rfl := List.mem_singleton.1 hjob
    cases herrand
  | sendAway =>
    refine (mem_errands_append he).imp_right ?_
    rintro ⟨job, hjob, herrand⟩
    obtain ⟨w, -, rfl⟩ := List.mem_map.1 hjob
    rw [Waiter.errand?_job] at herrand
    cases herrand
  | answer hjobs =>
    rw [hjobs]
    exact .inl he
  | @job _ job rest _ hjobs _ _ _ hchanges =>
    rw [hjobs]
    rcases hchanges.errand_mem he with hmem | hown | hle
    · refine .inl ?_
      simp only [errands, List.nil_append, List.mem_append, filterMap_cons_eq] at hmem ⊢
      exact hmem.imp_left .inr
    · -- What the turn has in hand was queued before.
      refine .inl (mem_errands_of_job List.mem_cons_self ?_ _)
      unfold Turn.left at hown
      split at hown
      · exact hown
      · cases hown
    · exact .inr hle

namespace Sound

variable {t : Terms} {cancelled : List RequestId} {c : Catalog}

/-- The store is asked in a turn for which there was an errand, and that is done then. -/
theorem errand_of_asking? (h : Sound t cancelled {} c) {a : Action} {e : EntryId}
    (ha : c.asking? a = some e) : e ∈ errands [] c.jobs c.postponed ∧ e < c.entries.length ∧
      e ∉ errands [] (c.step a).jobs (c.step a).postponed := by
  cases a with
  | turn store =>
    dsimp only [asking?] at ha
    rcases h.turn_changes store with ⟨hjobs, -⟩ | ⟨r, outcome, rest, hjobs, -⟩ |
      ⟨job, rest, hjobs, -, hpop, -, hchanges⟩
    · simp [hjobs] at ha
    · simp only [hjobs] at ha
      cases ha
    · simp only [hjobs] at ha
      split at ha
      · next name goOn hturn =>
        rw [hturn] at hchanges
        have hmem : e ∈ errands [] c.jobs c.postponed :=
          mem_errands_of_job (hjobs ▸ List.mem_cons_self) ha _
        have hlt := h.loads.errand_lt e hmem
        refine ⟨hmem, hlt, fun hagain => ?_⟩
        have hhand : (Hand.take {} job).errands = [e] := by
          simp [Hand.take, ha]
        have hloads := hpop.loads
        rw [hhand] at hloads
        -- An errand in hand is not queued as well, and new entries have new numbers.
        rcases hchanges.errand_mem hagain with hrest | hown | hle
        · exact hloads.not_mem_of_inHand hrest
        · cases hown
        · exact Nat.lt_irrefl e (Nat.lt_of_lt_of_le hlt hle)
      · cases ha
  | _ => cases ha

/-- A load begins in a turn whose job was queued for that, and is no longer. -/
theorem load_of_beginning? (h : Sound t cancelled {} c) {a : Action} {e : EntryId}
    (ha : c.beginning? a = some e) : .load e ∈ c.jobs ∧ e < c.entries.length ∧
      .load e ∉ (c.step a).jobs := by
  cases a with
  | turn store =>
    dsimp only [beginning?] at ha
    split at ha
    · next e' rest hjobs =>
      obtain rfl := Option.some.inj ha
      have hmem : .load e' ∈ c.jobs := hjobs ▸ List.mem_cons_self
      have hlt := h.loads.errand_lt e' (mem_errands_of_job hmem rfl _)
      refine ⟨hmem, hlt, fun hagain => ?_⟩
      rcases h.turn_changes store with ⟨hnil, -⟩ | ⟨r, outcome, rest', hjobs', -⟩ |
        ⟨job, rest', hjobs', -, hpop, -, hchanges⟩
      · rw [hjobs] at hnil
        cases hnil
      · rw [hjobs] at hjobs'
        cases hjobs'
      · rw [hjobs] at hjobs'
        obtain ⟨rfl, rfl⟩ := List.cons.inj hjobs'
        rcases hchanges.load_mem hagain with hrest | hle
        · exact hpop.loads.not_mem_of_inHand (mem_errands_of_job hrest rfl _)
        · exact Nat.lt_irrefl e' (Nat.lt_of_lt_of_le hlt hle)
    · cases ha
  | _ => cases ha

end Sound

/-! ### The entries of a name -/

/-- What one changed element adds to a count. -/
theorem countP_modify {α : Type} (p : α → Bool) (f : α → α) {l : List α} {i : Nat} {a : α}
    (h : l[i]? = some a) :
    (l.modify i f).countP p + (p a).toNat = l.countP p + (p (f a)).toNat := by
  have hcount : ∀ (x : α) (rest : List α),
      (x :: rest).countP p = rest.countP p + (p x).toNat := by
    intro x rest
    rw [List.countP_cons]
    cases p x <;> rfl
  induction l generalizing i with
  | nil => simp at h
  | cons x rest ih =>
    cases i with
    | zero =>
      obtain rfl : x = a := by simpa using h
      rw [List.modify_zero_cons, hcount, hcount]
      omega
    | succ i =>
      have hrest := ih (by simpa using h)
      rw [List.modify_succ_cons, hcount, hcount]
      omega

/-- How many entries of a name have been removed. -/
def unlisted (c : Catalog) (name : String) : Nat :=
  c.entries.countP fun entry => entry.name == name && !entry.listed

/-- How many entries of a name the actions of a run remove. -/
def removals (name : String) (c : Catalog) : List Action → Nat
  | [] => 0
  | a :: rest => c.removed name a + removals name (c.step a) rest

/-- A change of an entry that keeps its name and does not remove it. -/
theorem unlisted_modify {entries : List Entry} {e : EntryId} {f : Entry → Entry} (name : String)
    (hf : ∀ a, entries[e]? = some a → (f a).name = a.name ∧ (f a).listed = a.listed) :
    (entries.modify e f).countP (fun entry => entry.name == name && !entry.listed)
      = entries.countP fun entry => entry.name == name && !entry.listed := by
  cases he : entries[e]? with
  | none =>
    have hlength : entries.length ≤ e := List.getElem?_eq_none_iff.1 he
    rw [List.modify_eq_self hlength]
  | some a =>
    obtain ⟨hname, hlisted⟩ := hf a he
    have hcount := countP_modify (fun entry : Entry => entry.name == name && !entry.listed) f he
    rw [hname, hlisted] at hcount
    omega

theorem Changes.unlisted {own : Option EntryId} {c c' : Catalog} (h : Changes own c c')
    (name : String) : c'.unlisted name = c.unlisted name := by
  induction h with
  | refl => rfl
  | tail _ hchange ih =>
    rw [← ih]
    unfold Catalog.unlisted
    rcases hchange.entries with ⟨e, f, hentries, hf⟩ | ⟨other, -, hentries⟩
    · rw [hentries]
      exact unlisted_modify name fun a ha => ⟨(hf a ha).name, (hf a ha).listed⟩
    · rw [hentries, List.countP_append]
      simp [Entry.fresh]

/-- Entries that are removed were found under their names until now. -/
theorem countP_unlist {gone : Entry → Bool} (hgone : ∀ x, gone x = true → x.isRemovable = true)
    (entries : List Entry) (name : String) :
    (unlist gone entries).countP (fun entry => entry.name == name && !entry.listed)
      = entries.countP (fun entry => entry.name == name && !entry.listed)
        + entries.countP fun x => gone x && x.name == name := by
  induction entries with
  | nil => rfl
  | cons a rest ih =>
    unfold unlist at ih ⊢
    rw [List.map_cons, List.countP_cons, List.countP_cons, List.countP_cons, ih]
    by_cases ha : gone a = true
    · have hlisted : a.listed = true := (Bool.and_eq_true _ _ ▸ hgone a ha).1
      by_cases hname : a.name = name
      · simp [ha, hlisted, hname]
        omega
      · simp [ha, hlisted, hname]
    · simp [ha]
      omega

/-- Entries are removed by the actions that say so. -/
theorem Happens.unlisted {t : Terms} {cancelled : List RequestId} {c c' : Catalog} {a : Action}
    (h : Happens t cancelled c a c') (name : String) :
    c'.unlisted name = c.unlisted name + c.removed name a := by
  cases h with
  | changes _ hnone hchanges =>
    rw [hnone]
    exact hchanges.unlisted name
  | removal _ hgone hremoved =>
    rw [hremoved]
    exact countP_unlist hgone c.entries name
  | cancelQueued | idle | answer => rfl
  | cancelWaiting =>
    unfold Catalog.unlisted
    rw [List.countP_map]
    rfl
  | sendAway => exact unlisted_modify name fun a _ => ⟨rfl, rfl⟩
  | job _ _ _ _ hchanges => exact hchanges.unlisted name

theorem Sound.unlisted_after {t : Terms} {cancelled : List RequestId} {c : Catalog}
    (h : Sound t cancelled {} c) {actions : List Action} (hactions : ∀ a ∈ actions, t.Allows a)
    (name : String) :
    (c.after actions).unlisted name = c.unlisted name + removals name c actions := by
  induction actions generalizing c cancelled with
  | nil => rfl
  | cons a rest ih =>
    have hstep := h.step a ((hactions a List.mem_cons_self).permits c)
    show ((c.step a).after rest).unlisted name = _
    rw [ih hstep fun x hx => hactions x (List.mem_cons_of_mem _ hx), (h.happens a).unlisted name,
      removals, Nat.add_assoc]

/-- All entries of a name but one at most have been removed. -/
theorem Listing.countP_name_le {c : Catalog} (h : Listing c.entries) (name : String) :
    c.entries.countP (·.name == name) ≤ 1 + c.unlisted name := by
  have hlisted : c.entries.countP (fun entry => entry.name == name && entry.listed) ≤ 1 := by
    apply countP_le_one
    intro i j a b ha hb hpa hpb
    simp only [Bool.and_eq_true, beq_iff_eq] at hpa hpb
    exact h.eq_of_name_eq i j a b ha hb hpa.2 hpb.2 (hpa.1.trans hpb.1.symm)
  have hsplit : c.entries.countP (·.name == name)
      = c.entries.countP (fun entry => entry.name == name && entry.listed)
        + c.unlisted name := by
    unfold unlisted
    induction c.entries with
    | nil => rfl
    | cons a rest ih =>
      rw [List.countP_cons, List.countP_cons, List.countP_cons, ih]
      cases a.name == name <;> cases a.listed <;> simp <;> omega
  omega

/-! ### Fetches of a name -/

/-- The store is asked by an errand, for the name of its entry. -/
theorem errand_of_asks {c : Catalog} {job : Job} {name : String} {goOn : Reply → Catalog}
    (h : c.perform job = .asks name goOn) :
    ∃ e, job.errand? = some e ∧ name = c.entries[e]?.elim "" (·.name) := by
  have hask : ∀ (c' : Catalog) (e : EntryId) (other : String),
      c'.startFetch e other = .asks name goOn → name = other := by
    intro c' e other hstart
    unfold startFetch at hstart
    split at hstart
    · cases hstart
    · cases hstart
      rfl
  cases job with
  | load e =>
    refine ⟨e, rfl, ?_⟩
    change c.startLoad e = _ at h
    unfold startLoad at h
    dsimp only at h
    split at h
    · exact hask _ _ _ h
    · split at h <;> cases h
  | fetch e => exact ⟨e, rfl, hask _ _ _ h⟩
  | read e =>
    refine ⟨e, rfl, ?_⟩
    cases h
    rfl
  | start r =>
    simp only [perform] at h
    split at h
    · cases h
    · cases h
    · split at h
      · cases h
      · split at h <;> cases h
  | pass r =>
    simp only [perform] at h
    split at h <;> cases h
  | _ => cases h

/-! ### Counting what is seen of a name -/

/-- Does the entry of this number have the name? -/
def isCalled (c : Catalog) (name : String) (e : EntryId) : Bool :=
  c.entries[e]?.any (·.name == name)

/-- An entry keeps its name. -/
theorem Later.isCalled {c c' : Catalog} (h : Later c c') (name : String) {e : EntryId}
    (he : e < c.entries.length) : c'.isCalled name e = c.isCalled name e := by
  have ha := List.getElem?_eq_getElem he
  obtain ⟨b, hb, hname, -⟩ := h.entry e _ ha
  unfold Catalog.isCalled
  rw [ha, hb, Option.any_some, Option.any_some, hname]

/-- Events that are reported of each entry that is seen are as many as these entries. -/
theorem countP_events_after {t : Terms} (look : Catalog → Action → Option EntryId)
    {p : Event → Bool} {name : String}
    (hlook : ∀ (cancelled : List RequestId) (c : Catalog) (a : Action) (e : EntryId),
      Sound t cancelled {} c → look c a = some e → e < c.entries.length)
    (hstep : ∀ (cancelled : List RequestId) (c : Catalog) (a : Action), Sound t cancelled {} c →
      (c.step a).events.countP p
        = c.events.countP p + (look c a).toList.countP (c.isCalled name))
    {cancelled : List RequestId} {c : Catalog} (h : Sound t cancelled {} c) (hbacked : c.Backed)
    {actions : List Action} (hactions : ∀ a ∈ actions, t.Allows a) :
    (c.after actions).events.countP p = c.events.countP p
      + (trace look c actions).countP ((c.after actions).isCalled name) := by
  induction actions generalizing c cancelled with
  | nil => rfl
  | cons a rest ih =>
    have hsound := h.step a ((hactions a List.mem_cons_self).permits c)
    have hallows : ∀ x ∈ rest, t.Allows x := fun x hx => hactions x (List.mem_cons_of_mem _ hx)
    obtain ⟨hlater, hbacked'⟩ := h.later_step hbacked a
    have hafter := hlater.trans (hsound.later_after hbacked' hallows).1
    -- Entries keep their names, so they can be looked up at the end of the run.
    have hseen : (look c a).toList.countP (((c.step a).after rest).isCalled name)
        = (look c a).toList.countP (c.isCalled name) := by
      apply List.countP_congr
      intro e he
      rw [hafter.isCalled name (hlook cancelled c a e h (Option.mem_toList.1 he))]
    show ((c.step a).after rest).events.countP p = c.events.countP p
      + ((look c a).toList ++ trace look (c.step a) rest).countP _
    rw [ih hsound hbacked' hallows, hstep cancelled c a h, List.countP_append]
    show _ = _ + ((look c a).toList.countP (((c.step a).after rest).isCalled name)
      + (trace look (c.step a) rest).countP (((c.step a).after rest).isCalled name))
    rw [hseen, Nat.add_assoc]

/-- Entries that are seen once each are as many as there are, at most. -/
theorem countP_le_of_nodup {c : Catalog} {seen : List EntryId} (h : seen.Nodup) (name : String) :
    seen.countP (c.isCalled name) ≤ c.entries.countP (·.name == name) := by
  have hall : (List.range c.entries.length).countP (c.isCalled name)
      = c.entries.countP (·.name == name) := by
    unfold isCalled
    induction c.entries with
    | nil => rfl
    | cons a rest ih =>
      rw [List.length_cons, List.range_succ_eq_map, List.countP_cons, List.countP_cons,
        List.countP_map, ← ih]
      rfl
  rw [← hall, List.countP_eq_length_filter, List.countP_eq_length_filter]
  refine (List.Nodup.subperm (h.filter _) fun e he => ?_).length_le
  obtain ⟨-, hcalled⟩ := List.mem_filter.1 he
  refine List.mem_filter.2 ⟨List.mem_range.2 ?_, hcalled⟩
  by_contra hlt
  unfold isCalled at hcalled
  rw [List.getElem?_eq_none_iff.2 (by omega)] at hcalled
  cases hcalled

/-- Events that are reported once of each entry are as many as there are entries, at most. -/
theorem countP_events_le {t : Terms} (look : Catalog → Action → Option EntryId)
    {p : Event → Bool} {name : String}
    (hlook : ∀ (cancelled : List RequestId) (c : Catalog) (a : Action) (e : EntryId),
      Sound t cancelled {} c → look c a = some e → e < c.entries.length)
    (hstep : ∀ (cancelled : List RequestId) (c : Catalog) (a : Action), Sound t cancelled {} c →
      (c.step a).events.countP p
        = c.events.countP p + (look c a).toList.countP (c.isCalled name))
    {cancelled : List RequestId} {c : Catalog} (h : Sound t cancelled {} c) (hbacked : c.Backed)
    {actions : List Action} (hactions : ∀ a ∈ actions, t.Allows a)
    (hnodup : (trace look c actions).Nodup) (hnone : c.events.countP p = 0) :
    (c.after actions).events.countP p ≤ (c.after actions).entries.countP (·.name == name) := by
  rw [countP_events_after look hlook hstep h hbacked hactions, hnone, Nat.zero_add]
  exact countP_le_of_nodup hnodup name

/-- Is the event the begin of a fetch of the name? -/
def Event.isFetching (name : String) : Event → Bool
  | .fetching other => other == name
  | _ => false

/-- Does the event say that the store was asked for the name? -/
def Event.isAsked (name : String) : Event → Bool
  | .asked other _ => other == name
  | _ => false

/-- An entry that is there has the name by which events know it. -/
theorem isCalled_of_lt {c : Catalog} {e : EntryId} (he : e < c.entries.length) (name : String) :
    (c.entries[e]?.elim "" (·.name) == name) = c.isCalled name e := by
  unfold isCalled
  rw [List.getElem?_eq_getElem he]
  rfl

/-- What an action reports of fetches. -/
def fetchEvents (c : Catalog) : Action → List Event
  | .turn store => match c.jobs with
    | [] => []
    | job :: rest => ({ c with jobs := rest } : Catalog).begun job ++
        (({ c with jobs := rest } : Catalog).perform job).asked store
  | _ => []

/-- A fetch begins with each entry whose load does. -/
theorem countP_fetchEvents_beginning {c : Catalog}
    (herrand : ∀ job ∈ c.jobs, ∀ e, job.errand? = some e → e < c.entries.length) (a : Action)
    (name : String) : (c.fetchEvents a).countP (Event.isFetching name)
      = (c.beginning? a).toList.countP (c.isCalled name) := by
  cases a with
  | turn store =>
    unfold fetchEvents beginning?
    cases hjobs : c.jobs with
    | nil => rfl
    | cons job rest =>
      -- What the store is asked is not the begin of a fetch.
      have hasked : ((({ c with jobs := rest } : Catalog).perform job).asked store).countP
          (Event.isFetching name) = 0 := by
        cases ({ c with jobs := rest } : Catalog).perform job <;> rfl
      rw [List.countP_append, hasked, Nat.add_zero]
      cases job with
      | load e =>
        have hlt := herrand (.load e) (hjobs ▸ List.mem_cons_self) e rfl
        show [Event.fetching (c.entries[e]?.elim "" (·.name))].countP _ = [e].countP _
        rw [List.countP_singleton, List.countP_singleton, ← isCalled_of_lt hlt name]
        rfl
      | _ => rfl
  | _ => rfl

/-- The store is asked with each entry for which it is asked. -/
theorem countP_fetchEvents_asking {c : Catalog}
    (herrand : ∀ job ∈ c.jobs, ∀ e, job.errand? = some e → e < c.entries.length) (a : Action)
    (name : String) : (c.fetchEvents a).countP (Event.isAsked name)
      = (c.asking? a).toList.countP (c.isCalled name) := by
  cases a with
  | turn store =>
    unfold fetchEvents asking?
    cases hjobs : c.jobs with
    | nil => rfl
    | cons job rest =>
      -- That a load begins is not a question to the store.
      have hbegun : (({ c with jobs := rest } : Catalog).begun job).countP
          (Event.isAsked name) = 0 := by
        cases job <;> rfl
      rw [List.countP_append, hbegun, Nat.zero_add]
      dsimp only
      cases hturn : ({ c with jobs := rest } : Catalog).perform job with
      | done c' => rfl
      | asks other goOn =>
        obtain ⟨e, he, rfl⟩ := errand_of_asks hturn
        have hlt := herrand job (hjobs ▸ List.mem_cons_self) e he
        dsimp only
        rw [he]
        show [Event.asked (c.entries[e]?.elim "" (·.name)) _].countP _ = [e].countP _
        rw [List.countP_singleton, List.countP_singleton, ← isCalled_of_lt hlt name]
        rfl
  | _ => rfl

/-- What is reported of fetches is reported by turns. -/
theorem Happens.countP_events {t : Terms} {cancelled : List RequestId} {c c' : Catalog} {a : Action}
    (h : Happens t cancelled c a c') {p : Event → Bool}
    (hp : ∀ event, event.isOfFetch = false → p event = false) :
    c'.events.countP p = c.events.countP p + (c.fetchEvents a).countP p := by
  have hquiet : (∀ store, a ≠ .turn store) → c.fetchEvents a = [] := by
    intro hturn
    cases a with
    | turn store => exact absurd rfl (hturn store)
    | _ => rfl
  cases h with
  | changes hturn _ hchanges =>
    rw [hquiet hturn, hchanges.countP_events hp]
    rfl
  | removal hturn =>
    rw [hquiet hturn]
    rfl
  | cancelQueued | cancelWaiting | sendAway => rfl
  | idle hjobs | answer hjobs =>
    unfold fetchEvents
    rw [hjobs]
    rfl
  | job hjobs _ _ _ hchanges =>
    unfold fetchEvents
    rw [hchanges.countP_events hp, hjobs]
    exact List.countP_append

namespace Sound

variable {t : Terms} {cancelled : List RequestId} {c : Catalog}

/-- Jobs do their errands for entries that are there. -/
theorem lt_of_errand (h : Sound t cancelled {} c) {job : Job} (hjob : job ∈ c.jobs) {e : EntryId}
    (he : job.errand? = some e) : e < c.entries.length :=
  h.loads.errand_lt e (mem_errands_of_job hjob he _)

theorem countP_fetching_step (h : Sound t cancelled {} c) (a : Action) (name : String) :
    (c.step a).events.countP (Event.isFetching name) = c.events.countP (Event.isFetching name)
      + (c.beginning? a).toList.countP (c.isCalled name) := by
  rw [← countP_fetchEvents_beginning fun _ hjob _ => h.lt_of_errand hjob]
  refine (h.happens a).countP_events fun event hevent => ?_
  cases event <;> first | rfl | cases hevent

theorem countP_asked_step (h : Sound t cancelled {} c) (a : Action) (name : String) :
    (c.step a).events.countP (Event.isAsked name) = c.events.countP (Event.isAsked name)
      + (c.asking? a).toList.countP (c.isCalled name) := by
  rw [← countP_fetchEvents_asking fun _ hjob _ => h.lt_of_errand hjob]
  refine (h.happens a).countP_events fun event hevent => ?_
  cases event <;> first | rfl | cases hevent

end Sound

/-! ### Entries that stay -/

/-- A listed entry is found under its name. -/
theorem Listing.find?_eq {c : Catalog} (h : Listing c.entries) {e : EntryId} {a : Entry}
    (ha : c.entries[e]? = some a) (hlisted : a.listed = true) : c.find? a.name = some e := by
  cases hfind : c.find? a.name with
  | none => exact absurd rfl (not_listed_of_find? hfind (List.mem_of_getElem? ha) hlisted)
  | some x =>
    obtain ⟨b, hb, hlisted', hname⟩ := listed_of_find? hfind
    rw [h.eq_of_name_eq x e b a hb ha hlisted' hlisted hname]

/-- A listed entry stays so in an action that removes no entry of its name. -/
theorem Happens.listed {t : Terms} {cancelled : List RequestId} {c c' : Catalog} {a : Action}
    (h : Happens t cancelled c a c') {e : EntryId} {x : Entry} (hx : c.entries[e]? = some x)
    (hlisted : x.listed = true) (hkept : c.removed x.name a = 0) :
    ∃ y, c'.entries[e]? = some y ∧ y.name = x.name ∧ y.listed = true := by
  obtain ⟨y, hy, hbecomes | ⟨ws, rfl⟩ | ⟨-, hremoved, -⟩⟩ := h.entry hx
  · exact ⟨y, hy, hbecomes.name, hbecomes.listed.trans hlisted⟩
  · exact ⟨_, hy, rfl, hlisted⟩
  · exact absurd hkept hremoved

/-- No action removes an entry of a name while one is loading. -/
theorem Happens.removed_of_loading {t : Terms} {cancelled : List RequestId} {c c' : Catalog}
    {a : Action} (h : Happens t cancelled c a c') (hlisting : Listing c.entries) {e : EntryId}
    {x : Entry} (hx : c.entries[e]? = some x) (hloading : x.isLoading = true) :
    c.removed x.name a = 0 := by
  cases h with
  | changes _ hnone => exact hnone x.name
  | removal _ hgone hremoved =>
    rw [hremoved]
    apply List.countP_eq_zero.2
    intro y hy hremoves
    simp only [Bool.and_eq_true, beq_iff_eq] at hremoves
    obtain ⟨hremovable, hname⟩ := hremoves
    replace hremovable := hgone y hremovable
    simp only [Entry.isRemovable, Bool.and_eq_true] at hremovable
    -- It would be found under the name of the entry that is loading, and so be that one.
    obtain ⟨i, hi⟩ := List.getElem?_of_mem hy
    have hlisted := hlisting.listed_of_loading e x hx hloading
    obtain rfl := hlisting.eq_of_name_eq i e y x hi hx hremovable.1 hlisted hname
    rw [hi] at hx
    obtain rfl := Option.some.inj hx
    simp [hloading] at hremovable
  | _ => rfl

/-- The entry that is found under a name is found there until one of the name is removed. -/
theorem Sound.find?_after {t : Terms} {cancelled : List RequestId} {c : Catalog}
    (h : Sound t cancelled {} c) {name : String} {e : EntryId} (hfind : c.find? name = some e)
    {actions : List Action} (hactions : ∀ a ∈ actions, t.Allows a)
    (hkept : removals name c actions = 0) : (c.after actions).find? name = some e := by
  induction actions generalizing c cancelled with
  | nil => exact hfind
  | cons a rest ih =>
    rw [removals, Nat.add_eq_zero_iff] at hkept
    have hstep := h.step a ((hactions a List.mem_cons_self).permits c)
    obtain ⟨x, hx, hlisted, rfl⟩ := listed_of_find? hfind
    obtain ⟨y, hy, hname, hlisted'⟩ := (h.happens a).listed hx hlisted hkept.1
    refine ih hstep ?_ (fun b hb => hactions b (List.mem_cons_of_mem _ hb)) hkept.2
    rw [← hname]
    exact hstep.listing.find?_eq hy hlisted'

/-! ### Loads of a name -/

/-- The loads of a name that have not ended. -/
def loadsOf (c : Catalog) (name : String) : List Load :=
  c.loads.filter fun load => c.isCalled name load.entry

/-- A load is one of the entry that is found under its name. -/
theorem Sound.find?_of_load {t : Terms} {cancelled : List RequestId} {hand : Hand} {c : Catalog}
    (h : Sound t cancelled hand c) {name : String} {load : Load} (hload : load ∈ c.loadsOf name) :
    c.find? name = some load.entry := by
  obtain ⟨hmem, hcalled⟩ := List.mem_filter.1 hload
  obtain ⟨a, ha, hloading, -⟩ := h.loads.unread load hmem
  have hname : a.name = name := by simpa [isCalled, ha] using hcalled
  rw [← hname]
  exact h.listing.find?_eq ha (h.listing.listed_of_loading _ a ha hloading)

/-- There is one load of a name at most. -/
theorem Sound.length_loadsOf_le {t : Terms} {cancelled : List RequestId} {hand : Hand} {c : Catalog}
    (h : Sound t cancelled hand c) (name : String) : (c.loadsOf name).length ≤ 1 := by
  have hnodup : ((c.loadsOf name).map (·.entry)).Nodup :=
    h.loads.nodup.sublist (List.filter_sublist.map _)
  have hentry : ∀ load ∈ c.loadsOf name, c.find? name = some load.entry :=
    fun load hload => h.find?_of_load hload
  cases hloads : c.loadsOf name with
  | nil => exact Nat.zero_le _
  | cons load rest =>
    rw [hloads] at hnodup hentry
    cases rest with
    | nil => exact Nat.le_refl _
    | cons other more =>
      have hsame := hentry load List.mem_cons_self
      rw [hentry other (List.mem_cons_of_mem _ List.mem_cons_self)] at hsame
      refine absurd ?_ (List.nodup_cons.1 hnodup).1
      exact List.mem_cons.2 (.inl (Option.some.inj hsame).symm)

/-! ### Fetches in every run -/

/-- How often templates are loaded and fetched in a run. -/
structure OneFetch (rules : Markup.Rules) (limit? : Option TimeLimit) (actions : List Action) :
    Prop where
  /-- An entry that is loading is the one found under its name, and is so after every action. -/
  kept : ∀ (e : EntryId) (x : Entry),
    ((empty rules limit?).after actions).entries[e]? = some x → x.isLoading = true →
    ((empty rules limit?).after actions).find? x.name = some e ∧
      ∀ a, (((empty rules limit?).after actions).step a).find? x.name = some e
  /-- At most one load of a name has not ended, and this is the one of the entry found there. -/
  one_load : ∀ name : String, (((empty rules limit?).after actions).loadsOf name).length ≤ 1 ∧
    ∀ load ∈ ((empty rules limit?).after actions).loadsOf name,
      ((empty rules limit?).after actions).find? name = some load.entry
  /-- The load of an entry begins once at most, and so the store is asked once for the entry. -/
  begun : (trace beginning? (empty rules limit?) actions).Nodup
  asked : (trace asking? (empty rules limit?) actions).Nodup
  /-- Beyond the first entry, load and fetch of a name there are as many at most as entries of the
      name have been removed. -/
  entries_le : ∀ name : String,
    ((empty rules limit?).after actions).entries.countP (·.name == name)
      ≤ 1 + removals name (empty rules limit?) actions
  begun_le : ∀ name : String,
    ((empty rules limit?).after actions).events.countP (Event.isFetching name)
      ≤ 1 + removals name (empty rules limit?) actions
  asked_le : ∀ name : String, ((empty rules limit?).after actions).fetchCount name
    ≤ 1 + removals name (empty rules limit?) actions
  /-- Whoever asks for a name later finds the same entry, loading, ready or failed, as long as none
      of the name has been removed. -/
  shared : ∀ (name : String) (e : EntryId) (later : List Action),
    ((empty rules limit?).after actions).find? name = some e →
    removals name ((empty rules limit?).after actions) later = 0 →
    ((empty rules limit?).after (actions ++ later)).find? name = some e

/-- In every run, all who ask for a name share one fetch, until its entry is removed. -/
theorem one_fetch_each (rules : Markup.Rules) (limit? : Option TimeLimit) (actions : List Action) :
    OneFetch rules limit? actions := by
  have hempty := Sound.empty (Terms.closed_ofEveryRun True True rules limit?)
  have hbacked := backed_empty rules limit?
  have hallows : ∀ later : List Action, ∀ a ∈ later, (Terms.ofEveryRun True True).Allows a :=
    fun _ _ _ => Terms.allows_ofEveryRun fun _ _ => trivial
  obtain ⟨hsound, -⟩ := sound_of_run rules limit? actions fun _ _ => trivial
  -- A load can begin while the job for that is queued, and the store be asked while the load has
  -- an errand; new ones of both come with new entries only.
  have hbegun : (trace beginning? (empty rules limit?) actions).Nodup :=
    (nodup_trace (fun c e => .load e ∈ c.jobs)
      (fun _ _ _ _ hc _ hlook => hc.load_of_beginning? hlook)
      (fun _ _ a _ hc _ => (hc.happens a).load_mem) hempty hbacked (hallows actions)).1
  have hasked : (trace asking? (empty rules limit?) actions).Nodup :=
    (nodup_trace (fun c e => e ∈ errands [] c.jobs c.postponed)
      (fun _ _ _ _ hc _ hlook => hc.errand_of_asking? hlook)
      (fun _ _ a _ hc _ => (hc.happens a).errand_mem) hempty hbacked (hallows actions)).1
  have hentries : ∀ name : String,
      ((empty rules limit?).after actions).entries.countP (·.name == name)
        ≤ 1 + removals name (empty rules limit?) actions := by
    intro name
    have hunlisted := hempty.unlisted_after (hallows actions) name
    rw [show (empty rules limit?).unlisted name = 0 from rfl, Nat.zero_add] at hunlisted
    rw [← hunlisted]
    exact hsound.listing.countP_name_le name
  constructor
  case kept =>
    intro e x hx hloading
    have hlisted := hsound.listing.listed_of_loading e x hx hloading
    have hfind := hsound.listing.find?_eq hx hlisted
    refine ⟨hfind, fun a => ?_⟩
    have hkept := (hsound.happens a).removed_of_loading hsound.listing hx hloading
    exact hsound.find?_after hfind (hallows [a]) hkept
  case one_load =>
    exact fun name => ⟨hsound.length_loadsOf_le name, fun load => hsound.find?_of_load⟩
  case begun => exact hbegun
  case asked => exact hasked
  case entries_le => exact hentries
  case begun_le =>
    intro name
    have hcount := countP_events_le beginning?
      (fun _ _ _ _ hc hlook => (hc.load_of_beginning? hlook).2.1)
      (fun _ _ a hc => hc.countP_fetching_step a name) hempty hbacked (hallows actions) hbegun rfl
    exact hcount.trans (hentries name)
  case asked_le =>
    intro name
    have hcount := countP_events_le asking?
      (fun _ _ _ _ hc hlook => (hc.errand_of_asking? hlook).2.1)
      (fun _ _ a hc => hc.countP_asked_step a name) hempty hbacked (hallows actions) hasked rfl
    exact hcount.trans (hentries name)
  case shared =>
    intro name e later hfind hkept
    rw [after_append]
    exact hsound.find?_after hfind (hallows later) hkept

/-- Two requests for a template share a fetch; its entry is removed, and one more is made. -/
def renewedRun : List Action :=
  let turns : List Action := List.replicate 4 (.turn fun _ => ⟨.text "hi", none⟩)
  [.request (.template "a"), .request (.template "a")] ++ turns ++
    .evict "a" :: .request (.template "a") :: turns

example : ((empty .default none).after renewedRun).fetchCount "a" = 2 ∧
    removals "a" (empty .default none) renewedRun = 1 := by
  decide +kernel

end TextTemplate.Catalog
