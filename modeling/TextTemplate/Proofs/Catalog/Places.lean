import TextTemplate.Proofs.Catalog.Changes

/-! # Where a waiter is

  A waiter that has come to an entry stands in the entry's list, or has the
  entry's answer: as a job in the queue, or as an answer that was given, or, if
  it is a descendant, as what it has learned of its ancestor.  Changes keep it
  there, move the list of an entry that settles into the queue as it is, and
  bring nobody anywhere who does not ask for the entry.
-/

namespace TextTemplate.Catalog

/-! ### Answers that have arrived -/

/-- What an entry has learned of its ancestor. -/
def Entry.learned? (a : Entry) : Option Outcome :=
  match a.ancestor? with
  | some chain => some (.ready chain)
  | none => match a.status with
    | .failed (.ancestorFailed _ error) => some (.failed error)
    | .failed (.ancestorCancelled _) => some .cancelled
    | _ => none

/-- An entry does not forget what it has learned. -/
theorem Entry.Becomes.learned? {a b : Entry} (h : a.Becomes b) {o : Outcome}
    (ha : a.learned? = some o) : b.learned? = some o := by
  unfold Entry.learned? at ha ⊢
  cases hancestor : a.ancestor? with
  | some chain =>
    rw [hancestor] at ha
    rcases h.ancestor with ⟨-, hnone⟩ | hsame
    · rw [hancestor] at hnone
      cases hnone
    · rw [hsame, hancestor]
      exact ha
  | none =>
    rw [hancestor] at ha
    -- It has failed for what it has learned, and does not change any more.
    have hsettled : a.isLoading = false := by
      unfold Entry.isLoading
      split
      · next hloading =>
        rw [hloading] at ha
        cases ha
      · rfl
    rcases h.ancestor with ⟨hloading, -⟩ | hsame
    · rw [hsettled] at hloading
      cases hloading
    · rw [hsame, hancestor, h.status hsettled]
      exact ha

/-- The waiter has got this answer. -/
def Has (c : Catalog) : Waiter → Outcome → Prop
  | .request r, o => (r, o) ∈ c.answers
  | .descendant x, o => ∃ a, c.entries[x]? = some a ∧ a.learned? = some o

/-- The waiter has got this answer, or the answer is queued for it. -/
def Resolved (c : Catalog) (w : Waiter) (o : Outcome) : Prop := w.job o ∈ c.jobs ∨ c.Has w o

/-- The waiter stands at the entry, or has the entry's answer. -/
def Stands (c : Catalog) (e : EntryId) (w : Waiter) : Prop :=
  (∃ a, c.entries[e]? = some a ∧ w ∈ a.waiters) ∨ ∃ o, c.outcome? e = some o ∧ c.Resolved w o

/-- The waiter has come to an entry: it stands at one, is about to be told, or is a request that was
    answered. -/
inductive Known (c : Catalog) : Waiter → Prop where
  | stands {w : Waiter} {e : EntryId} {a : Entry} :
      c.entries[e]? = some a → w ∈ a.waiters → Known c w
  | queued {w : Waiter} {o : Outcome} : w.job o ∈ c.jobs → Known c w
  | answered {r : RequestId} {o : Outcome} : (r, o) ∈ c.answers → Known c (.request r)

/-- A waiter is known from before if it has stood at the same entries and has had the same answers,
    but for some that are queued. -/
theorem Known.of_places {c c' : Catalog} {w : Waiter} {p : Prop} (h : c'.Known w)
    (hstands : ∀ (e : EntryId) (y : Entry), c'.entries[e]? = some y → w ∈ y.waiters →
      ∃ x, c.entries[e]? = some x ∧ w ∈ x.waiters)
    (hqueued : ∀ o, w.job o ∈ c'.jobs → w.job o ∈ c.jobs ∨ p) (hanswers : c'.answers = c.answers) :
    c.Known w ∨ p := by
  cases h with
  | stands hy hmem =>
    obtain ⟨x, hx, hmem'⟩ := hstands _ _ hy hmem
    exact .inl (.stands hx hmem')
  | queued hjob => exact (hqueued _ hjob).imp_left .queued
  | answered hanswer => exact .inl (.answered (hanswers ▸ hanswer))

/-! ### Changes -/

/-- What is looked for is found where it was if a change does not tell. -/
theorem findIdx?_modify {α : Type} {p : α → Bool} {f : α → α} {l : List α} {i : Nat}
    (h : ∀ a, l[i]? = some a → p (f a) = p a) : (l.modify i f).findIdx? p = l.findIdx? p := by
  induction l generalizing i with
  | nil => simp
  | cons x rest ih =>
    cases i with
    | zero => rw [List.modify_zero_cons, List.findIdx?_cons, List.findIdx?_cons, h x rfl]
    | succ i =>
      rw [List.modify_succ_cons, List.findIdx?_cons, List.findIdx?_cons,
        ih fun a ha => h a (by simpa using ha)]

namespace Change

variable {own : Option EntryId} {c c' : Catalog}

/-- Jobs that bring answers stay in the queue, and others come behind. -/
theorem jobs (h : Change own c c') : ∃ g more, c'.jobs = c.jobs.map g ++ more ∧
    ∀ (w : Waiter) (o : Outcome), g (w.job o) = w.job o := by
  have happend : ∀ more, c'.jobs = c.jobs ++ more → ∃ g more, c'.jobs = c.jobs.map g ++ more ∧
      ∀ (w : Waiter) (o : Outcome), g (w.job o) = w.job o :=
    fun more hjobs => ⟨id, more, by rw [hjobs, List.map_id], fun _ _ => rfl⟩
  cases h with
  | aside haside =>
    obtain ⟨g, more, hjobs, -, hg⟩ := haside.jobs
    refine ⟨g, more, hjobs, fun w o => (hg _).resolve_right fun ⟨hnone, _⟩ => ?_⟩
    rw [Waiter.waiter?_job] at hnone
    cases hnone
  | alter | join | finish => exact happend [] (List.append_nil _).symm
  | settle => exact happend _ rfl
  | enter hfind =>
    unfold ensure at happend ⊢
    rw [hfind] at happend ⊢
    exact happend _ rfl
  | send => exact happend _ rfl

theorem answers (h : Change own c c') : ∃ more, c'.answers = c.answers ++ more := by
  cases h with
  | aside haside => exact ⟨[], haside.answers.trans (List.append_nil _).symm⟩
  | finish => exact ⟨_, rfl⟩
  | enter hfind =>
    unfold ensure
    rw [hfind]
    exact ⟨[], (List.append_nil _).symm⟩
  | _ => exact ⟨[], (List.append_nil _).symm⟩

theorem target (h : Change own c c') {r : RequestId} {target : Target}
    (hr : c.requests[r]? = some target) : c'.requests[r]? = some target := by
  cases h with
  | aside haside => exact haside.request r target hr
  | enter hfind =>
    unfold ensure
    rw [hfind]
    exact hr
  | _ => exact hr

theorem gate (h : Change own c c') {g : GateId} {a : Gate} (hg : c.gates[g]? = some a) :
    ∃ b, c'.gates[g]? = some b ∧ b.entry = a.entry := by
  cases h with
  | aside haside => exact haside.gate g a hg
  | enter hfind =>
    unfold ensure
    rw [hfind]
    exact ⟨a, hg, rfl⟩
  | _ => exact ⟨a, hg, rfl⟩

/-- Waiters stay in the list of their entry, in front of any new one, or the entry settles, and they
    are told so in their order. -/
theorem waiters (h : Change own c c') {e : EntryId} {a : Entry} (ha : c.entries[e]? = some a) :
    (∃ b, c'.entries[e]? = some b ∧ a.waiters <+: b.waiters) ∨
      ∃ o, c'.outcome? e = some o ∧ a.waiters.map (·.job o) <:+: c'.jobs := by
  -- It is this entry that changes, or another one.
  have hmodify : ∀ {x : EntryId} {f : Entry → Entry},
      (∀ b, c.entries[x]? = some b → b.waiters <+: (f b).waiters) →
      ∃ b, (c.modifyEntry x f).entries[e]? = some b ∧ a.waiters <+: b.waiters := by
    intro x f hf
    by_cases hxe : x = e
    · subst hxe
      exact ⟨f a, by simp [modifyEntry, ha], hf a ha⟩
    · refine ⟨a, ?_, List.prefix_refl _⟩
      show (c.entries.modify x f)[e]? = some a
      rw [List.getElem?_modify_ne _ _ hxe]
      exact ha
  cases h with
  | aside haside => exact .inl ⟨a, haside.entries ▸ ha, List.prefix_refl _⟩
  | alter hf =>
    refine .inl (hmodify fun b hb => ?_)
    exact ⟨[], by rw [List.append_nil, (hf b hb).2.2]⟩
  | join => exact .inl (hmodify fun b _ => List.prefix_append _ _)
  | @settle x b b' outcome hb _ _ _ houtcome =>
    by_cases hxe : x = e
    · subst hxe
      rw [ha] at hb
      obtain rfl := Option.some.inj hb
      have hlt : x < c.entries.length := (List.getElem?_eq_some_iff.1 ha).1
      refine .inr ⟨outcome, ?_, (List.suffix_append _ _).isInfix⟩
      simp [outcome?, hlt, houtcome]
    · refine .inl ⟨a, ?_, List.prefix_refl _⟩
      show (c.entries.set x b')[e]? = some a
      rw [List.getElem?_set_ne hxe]
      exact ha
  | enter hfind =>
    unfold ensure
    rw [hfind]
    exact .inl ⟨a, getElem?_append_of_some ha _, List.prefix_refl _⟩
  | send | finish => exact .inl ⟨a, ha, List.prefix_refl _⟩

end Change

namespace Changes

variable {own : Option EntryId} {c c' : Catalog}

theorem jobs (h : Changes own c c') : ∃ g more, c'.jobs = c.jobs.map g ++ more ∧
    ∀ (w : Waiter) (o : Outcome), g (w.job o) = w.job o := by
  induction h with
  | refl => exact ⟨id, [], by simp, fun _ _ => rfl⟩
  | tail _ hchange ih =>
    obtain ⟨g, more, hjobs, hg⟩ := ih
    obtain ⟨g', more', hjobs', hg'⟩ := hchange.jobs
    refine ⟨g' ∘ g, more.map g' ++ more', ?_, fun w o => ?_⟩
    · rw [hjobs', hjobs, List.map_append, List.map_map, List.append_assoc]
    · rw [Function.comp_apply, hg, hg']

/-- Answers that are queued one behind the other stay so. -/
theorem infix_jobs (h : Changes own c c') {ws : List Waiter} {o : Outcome}
    (hws : ws.map (·.job o) <:+: c.jobs) : ws.map (·.job o) <:+: c'.jobs := by
  obtain ⟨g, more, hjobs, hg⟩ := h.jobs
  have hsame : (ws.map (·.job o)).map g = ws.map (·.job o) := by
    rw [List.map_map]
    exact List.map_congr_left fun w _ => hg w o
  rw [hjobs, ← hsame]
  exact (hws.map g).trans (List.prefix_append _ _).isInfix

theorem sublist_jobs (h : Changes own c c') {ws : List Waiter} {o : Outcome}
    (hws : (ws.map (·.job o)).Sublist c.jobs) : (ws.map (·.job o)).Sublist c'.jobs := by
  obtain ⟨g, more, hjobs, hg⟩ := h.jobs
  have hsame : (ws.map (·.job o)).map g = ws.map (·.job o) := by
    rw [List.map_map]
    exact List.map_congr_left fun w _ => hg w o
  rw [hjobs, ← hsame]
  exact (hws.map g).trans (List.sublist_append_left _ _)

theorem answer (h : Changes own c c') {x : RequestId × Outcome} (hx : x ∈ c.answers) :
    x ∈ c'.answers := by
  induction h with
  | refl => exact hx
  | tail _ hchange ih =>
    obtain ⟨more, hanswers⟩ := hchange.answers
    rw [hanswers]
    exact List.mem_append_left _ ih

/-- An entry that has settled keeps its answer. -/
theorem outcome? (h : Changes own c c') {e : EntryId} {o : Outcome} (he : c.outcome? e = some o) :
    c'.outcome? e = some o := by
  obtain ⟨a, ha, hsettled, hs⟩ := status_of_outcome? he
  obtain ⟨b, hb, hbecomes⟩ := h.entry ha
  rw [Catalog.outcome?, hb, Option.bind_some, hbecomes.status hsettled]
  exact hs

theorem has (h : Changes own c c') {w : Waiter} {o : Outcome} (hw : c.Has w o) : c'.Has w o := by
  cases w with
  | request r => exact h.answer hw
  | descendant x =>
    obtain ⟨a, ha, hlearned⟩ := hw
    obtain ⟨b, hb, hbecomes⟩ := h.entry ha
    exact ⟨b, hb, hbecomes.learned? hlearned⟩

theorem resolved (h : Changes own c c') {w : Waiter} {o : Outcome} (hw : c.Resolved w o) :
    c'.Resolved w o := by
  refine hw.imp (fun hjob => ?_) h.has
  obtain ⟨g, more, hjobs, hg⟩ := h.jobs
  rw [hjobs, ← hg]
  exact List.mem_append_left _ (List.mem_map_of_mem hjob)

theorem waiters (h : Changes own c c') {e : EntryId} {a : Entry} (ha : c.entries[e]? = some a) :
    (∃ b, c'.entries[e]? = some b ∧ a.waiters <+: b.waiters) ∨
      ∃ o, c'.outcome? e = some o ∧ a.waiters.map (·.job o) <:+: c'.jobs := by
  induction h with
  | refl => exact .inl ⟨a, ha, List.prefix_refl _⟩
  | tail _ hchange ih =>
    rcases ih with ⟨b, hb, hfront⟩ | ⟨o, houtcome, hpart⟩
    · rcases hchange.waiters hb with ⟨d, hd, hfront'⟩ | ⟨o, houtcome, hpart⟩
      · exact .inl ⟨d, hd, hfront.trans hfront'⟩
      · exact .inr ⟨o, houtcome, (hfront.map _).isInfix.trans hpart⟩
    · have hchanges : Changes own _ _ := .single hchange
      exact .inr ⟨o, hchanges.outcome? houtcome, hchanges.infix_jobs hpart⟩

/-- Nobody leaves an entry but with its answer. -/
theorem stands (h : Changes own c c') {e : EntryId} {w : Waiter} (hw : c.Stands e w) :
    c'.Stands e w := by
  rcases hw with ⟨a, ha, hmem⟩ | ⟨o, houtcome, hresolved⟩
  · rcases h.waiters ha with ⟨b, hb, hfront⟩ | ⟨o, houtcome, hpart⟩
    · exact .inl ⟨b, hb, hfront.subset hmem⟩
    · exact .inr ⟨o, houtcome, .inl (hpart.subset (List.mem_map_of_mem hmem))⟩
  · exact .inr ⟨o, h.outcome? houtcome, h.resolved hresolved⟩

theorem target (h : Changes own c c') {r : RequestId} {target : Target}
    (hr : c.requests[r]? = some target) : c'.requests[r]? = some target := by
  induction h with
  | refl => exact hr
  | tail _ hchange ih => exact hchange.target ih

theorem gate (h : Changes own c c') {g : GateId} {a : Gate} (hg : c.gates[g]? = some a) :
    ∃ b, c'.gates[g]? = some b ∧ b.entry = a.entry := by
  induction h with
  | refl => exact ⟨a, hg, rfl⟩
  | tail _ hchange ih =>
    obtain ⟨b, hb, hentry⟩ := ih
    obtain ⟨d, hd, hentry'⟩ := hchange.gate hb
    exact ⟨d, hd, hentry'.trans hentry⟩

/-- An entry that is found under a name is found there still. -/
theorem find? (h : Changes own c c') {name : String} {e : EntryId} (hfind : c.find? name = some e) :
    c'.find? name = some e := by
  induction h with
  | refl => exact hfind
  | tail _ hchange ih =>
    unfold Catalog.find? at ih ⊢
    rcases hchange.entries with ⟨x, f, hentries, hf⟩ | ⟨other, -, hentries⟩
    · rw [hentries, findIdx?_modify]
      · exact ih
      · intro a ha
        rw [(hf a ha).name, (hf a ha).listed]
    · rw [hentries, List.findIdx?_append, ih]
      rfl

/-- Who asks for an entry asks for it still. -/
theorem asksFor (h : Changes own c c') {w : Waiter} {e : EntryId} (hw : c.AsksFor w e) :
    c'.AsksFor w e := by
  cases hw with
  | template hr hfind => exact .template (h.target hr) (h.find? hfind)
  | gate hr hg =>
    obtain ⟨b, hb, hentry⟩ := h.gate hg
    rw [← hentry]
    exact .gate (h.target hr) hb
  | ancestor ha hp hfind =>
    obtain ⟨b, hb, hbecomes⟩ := h.entry ha
    refine .ancestor hb ?_ (h.find? hfind)
    rcases hbecomes.document with hnone | hsame
    · rw [Entry.parent?, hnone] at hp
      cases hp
    · rw [Entry.parent?, hsame]
      exact hp

end Changes

/-! ### Who comes to an entry -/

/-- Such a job tells nobody anything. -/
theorem Job.waiter?_of_isAside {job : Job} (h : job.isAside = true) : job.waiter? = none := by
  cases job <;> first | rfl | cases h

namespace Change

variable {own : Option EntryId} {c c' : Catalog} {w : Waiter}

/-- Who stands at an entry has stood there before, or has just asked for it. -/
theorem known_of_stands (h : Change own c c') {x : EntryId} {b : Entry}
    (hb : c'.entries[x]? = some b) (hmem : w ∈ b.waiters) :
    c.Known w ∨ ∃ e, c'.AsksFor w e ∧ c'.Stands e w := by
  have hsingle : Changes own c c' := .single h
  cases h with
  | aside haside => exact .inl (.stands (haside.entries ▸ hb) hmem)
  | @alter e f hf =>
    obtain ⟨a, ha, rfl⟩ := getElem?_of_getElem?_modify hb
    split at hmem
    · next hex =>
      rw [(hf a (hex ▸ ha)).2.2] at hmem
      exact .inl (.stands ha hmem)
    · exact .inl (.stands ha hmem)
  | @join e _ v _ _ hasks =>
    obtain ⟨a, ha, rfl⟩ := getElem?_of_getElem?_modify hb
    split at hmem
    · next hex =>
      rcases mem_or_eq_of_mem_concat hmem with hold | rfl
      · exact .inl (.stands ha hold)
      · -- This is who has just come.
        subst hex
        refine .inr ⟨e, hsingle.asksFor hasks, .inl ⟨_, hb, ?_⟩⟩
        rw [if_pos rfl]
        exact hmem
    · exact .inl (.stands ha hmem)
  | @settle e a b' _ ha _ _ hnone _ =>
    replace hb : (c.entries.set e b')[x]? = some b := hb
    by_cases hex : e = x
    · subst hex
      rw [List.getElem?_set_self (List.getElem?_eq_some_iff.1 ha).1] at hb
      obtain rfl := Option.some.inj hb
      rw [hnone] at hmem
      cases hmem
    · rw [List.getElem?_set_ne hex] at hb
      exact .inl (.stands hb hmem)
  | enter hfind =>
    unfold ensure at hb
    rw [hfind] at hb
    rcases getElem?_of_getElem?_concat hb with hold | ⟨-, rfl⟩
    · exact .inl (.stands hold hmem)
    · cases hmem
  | send | finish => exact .inl (.stands hb hmem)

/-- Who is about to be told was so before, has stood at the entry that settles, or asks for one that
    has settled. -/
theorem known_of_queued (h : Change own c c') {o : Outcome} (hjob : w.job o ∈ c'.jobs) :
    c.Known w ∨ ∃ e, c'.AsksFor w e ∧ c'.Stands e w := by
  have hsingle : Changes own c c' := .single h
  cases h with
  | aside haside =>
    obtain ⟨g, more, hjobs, hmore, hg⟩ := haside.jobs
    -- What changes aside brings nobody an answer.
    have hnot : ¬ (w.job o).isAside = true := by
      intro haside
      have hnone := Job.waiter?_of_isAside haside
      rw [Waiter.waiter?_job] at hnone
      cases hnone
    rw [hjobs] at hjob
    rcases List.mem_append.1 hjob with hold | hnew
    · obtain ⟨job, hmem, heq⟩ := List.mem_map.1 hold
      rcases hg job with hsame | ⟨-, hother⟩
      · rw [hsame] at heq
        exact .inl (.queued (heq ▸ hmem))
      · exact absurd (heq ▸ hother) hnot
    · exact absurd (hmore _ hnew) hnot
  | alter | join | finish => exact .inl (.queued hjob)
  | @settle e a _ _ ha =>
    rcases List.mem_append.1 hjob with hold | hnew
    · exact .inl (.queued hold)
    · obtain ⟨v, hv, heq⟩ := List.mem_map.1 hnew
      obtain ⟨rfl, -⟩ := Waiter.job_inj heq
      exact .inl (.stands ha hv)
  | enter hfind =>
    unfold ensure at hjob
    rw [hfind] at hjob
    rcases mem_or_eq_of_mem_concat hjob with hold | heq
    · exact .inl (.queued hold)
    · cases w <;> cases heq
  | @send e x outcome houtcome hasks =>
    rcases mem_or_eq_of_mem_concat hjob with hold | heq
    · exact .inl (.queued hold)
    · obtain ⟨rfl, rfl⟩ := Waiter.job_inj
        (show w.job o = (Waiter.descendant x).job outcome from heq)
      exact .inr ⟨e, hsingle.asksFor hasks, .inr ⟨o, houtcome, .inl hjob⟩⟩

/-- A request that is answered was so before, or asks for an entry that has settled. -/
theorem known_of_answered (h : Change own c c') {r : RequestId} {o : Outcome}
    (hanswer : (r, o) ∈ c'.answers) :
    c.Known (.request r) ∨ ∃ e, c'.AsksFor (.request r) e ∧ c'.Stands e (.request r) := by
  have hsingle : Changes own c c' := .single h
  cases h with
  | aside haside => exact .inl (.answered (haside.answers ▸ hanswer))
  | @finish r' e outcome houtcome hasks =>
    rcases mem_or_eq_of_mem_concat hanswer with hold | heq
    · exact .inl (.answered hold)
    · obtain ⟨rfl, rfl⟩ := Prod.mk.inj heq
      exact .inr ⟨e, hsingle.asksFor hasks, .inr ⟨o, houtcome, .inr hanswer⟩⟩
  | enter hfind =>
    unfold ensure at hanswer
    rw [hfind] at hanswer
    exact .inl (.answered hanswer)
  | _ => exact .inl (.answered hanswer)

/-- A waiter that comes to an entry has asked for it. -/
theorem known (h : Change own c c') (hw : c'.Known w) :
    c.Known w ∨ ∃ e, c'.AsksFor w e ∧ c'.Stands e w := by
  cases hw with
  | stands hb hmem => exact h.known_of_stands hb hmem
  | queued hjob => exact h.known_of_queued hjob
  | answered hanswer => exact h.known_of_answered hanswer

end Change

theorem Changes.known {own : Option EntryId} {c c' : Catalog} (h : Changes own c c') {w : Waiter}
    (hw : c'.Known w) : c.Known w ∨ ∃ e, c'.AsksFor w e ∧ c'.Stands e w := by
  induction h with
  | refl => exact .inl hw
  | tail _ hchange ih =>
    rcases hchange.known hw with hbefore | hnew
    · rcases ih hbefore with hknown | ⟨e, hasks, hstands⟩
      · exact .inl hknown
      · have hlast : Changes own _ _ := .single hchange
        exact .inr ⟨e, hlast.asksFor hasks, hlast.stands hstands⟩
    · exact .inr hnew

end TextTemplate.Catalog
