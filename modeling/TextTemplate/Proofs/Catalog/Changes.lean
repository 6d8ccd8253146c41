import Mathlib.Logic.Relation
import TextTemplate.Proofs.Catalog.Readiness

/-! # What a step is made of

  However much a job does, it does it by changes of a few kinds: an entry takes
  note of something, gets one more waiter, settles, or is new; somebody is told
  what has become of an entry; or nothing of this happens, and only loads, gates
  and other jobs change (`Change`).  Every job but the one that brings a request
  its answer is a sequence of such changes, and so is every action but those
  that remove entries or cancel something.

  So what a step keeps is to be proved for each kind of change only, and not for
  each job.
-/

namespace TextTemplate.Catalog

open Relation

/-! ### Who asks for what -/

/-- The waiter asks for the entry: a request for the one of its name or of its gate, and a
    descendant for the one of its ancestor's name. -/
inductive AsksFor (c : Catalog) : Waiter → EntryId → Prop where
  | template {r : RequestId} {name : String} {e : EntryId} :
      c.requests[r]? = some (.template name) → c.find? name = some e → AsksFor c (.request r) e
  | gate {r : RequestId} {g : GateId} {gate : Gate} :
      c.requests[r]? = some (.gate g) → c.gates[g]? = some gate →
      AsksFor c (.request r) gate.entry
  | ancestor {x e : EntryId} {a : Entry} {p : String} :
      c.entries[x]? = some a → a.parent? = some p → c.find? p = some e →
      AsksFor c (.descendant x) e

/-- A waiter asks for one entry. -/
theorem AsksFor.unique {c : Catalog} {w : Waiter} {e e' : EntryId} (h : c.AsksFor w e)
    (h' : c.AsksFor w e') : e = e' := by
  cases h with
  | template hr hfind =>
    cases h' with
    | template hr' hfind' =>
      rw [hr] at hr'
      cases hr'
      rw [hfind] at hfind'
      exact Option.some.inj hfind'
    | gate hr' =>
      rw [hr] at hr'
      cases hr'
  | gate hr hg =>
    cases h' with
    | template hr' =>
      rw [hr] at hr'
      cases hr'
    | gate hr' hg' =>
      rw [hr] at hr'
      cases hr'
      rw [hg] at hg'
      rw [Option.some.inj hg']
  | ancestor ha hp hfind =>
    cases h' with
    | ancestor ha' hp' hfind' =>
      rw [ha] at ha'
      obtain rfl := Option.some.inj ha'
      rw [hp] at hp'
      obtain rfl := Option.some.inj hp'
      rw [hfind] at hfind'
      exact Option.some.inj hfind'

/-- The entry of a name is found under it. -/
theorem find?_ensure (c : Catalog) (name : String) :
    (c.ensure name).2.find? name = some (c.ensure name).1 := by
  cases hfind : c.find? name with
  | some e =>
    have hsame : c.ensure name = (e, c) := by
      unfold ensure
      rw [hfind]
    rw [hsame]
    exact hfind
  | none =>
    have hnew : c.ensure name = (c.entries.length, { c with
        entries := c.entries ++ [.fresh name]
        loads := c.loads ++ [.fresh c.entries.length]
        jobs := c.jobs ++ [.load c.entries.length] }) := by
      unfold ensure
      rw [hfind]
    rw [hnew]
    show (c.entries ++ [Entry.fresh name]).findIdx? _ = _
    rw [List.findIdx?_append, show c.entries.findIdx? _ = none from hfind]
    simp [Entry.fresh]

/-! ### Changes -/

/-- What an entry can become in a step: it keeps what it is called, what it has settled to, its
    text and its ancestor. -/
structure Entry.Becomes (a b : Entry) : Prop where
  name : b.name = a.name
  listed : b.listed = a.listed
  status : a.isLoading = false → b.status = a.status
  document : a.document? = none ∨ b.document? = a.document?
  ancestor : a.isLoading = true ∧ a.ancestor? = none ∨ b.ancestor? = a.ancestor?

namespace Entry.Becomes

variable {a b d : Entry}

theorem refl (a : Entry) : a.Becomes a := ⟨rfl, rfl, fun _ => rfl, .inr rfl, .inr rfl⟩

/-- What was loading until now was so before. -/
theorem isLoading (h : a.Becomes b) (hb : b.isLoading = true) : a.isLoading = true := by
  by_contra ha
  have hsettled : a.isLoading = false := by simpa using ha
  rw [Entry.isLoading_of_status (h.status hsettled), hsettled] at hb
  cases hb

theorem trans (h : a.Becomes b) (h' : b.Becomes d) : a.Becomes d where
  name := h'.name.trans h.name
  listed := h'.listed.trans h.listed
  status hsettled := by
    have hb : b.isLoading = false := by
      rw [Entry.isLoading_of_status (h.status hsettled)]
      exact hsettled
    exact (h'.status hb).trans (h.status hsettled)
  document := by
    rcases h.document with hnone | hsame
    · exact .inl hnone
    · exact h'.document.imp (hsame.symm.trans ·) (·.trans hsame)
  ancestor := by
    rcases h.ancestor with hnone | hsame
    · exact .inl hnone
    · rcases h'.ancestor with ⟨hloading, hnone⟩ | hsame'
      · exact .inl ⟨h.isLoading hloading, hsame.symm.trans hnone⟩
      · exact .inr (hsame'.trans hsame)

end Entry.Becomes

/-- Does the job neither begin a load nor tell anybody anything? -/
def Job.isAside : Job → Bool
  | .load _ | .answer _ _ | .link _ _ => false
  | _ => true

/-- Is the event one of a fetch that begins, or of the store being asked? -/
def Event.isOfFetch : Event → Bool
  | .fetching _ | .asked _ _ => true
  | _ => false

/-- Neither entries nor answers change, and nobody is told anything.  The load of the entry at hand
    may get a new errand. -/
structure Aside (own : Option EntryId) (c c' : Catalog) : Prop where
  entries : c'.entries = c.entries
  answers : c'.answers = c.answers
  request : ∀ (r : RequestId) (target : Target), c.requests[r]? = some target →
    c'.requests[r]? = some target
  gate : ∀ (g : GateId) (a : Gate), c.gates[g]? = some a →
    ∃ b, c'.gates[g]? = some b ∧ b.entry = a.entry
  /-- Other jobs may be replaced by such jobs, and a load may not begin at all. -/
  jobs : ∃ g more, c'.jobs = c.jobs.map g ++ more ∧ (∀ job ∈ more, job.isAside = true) ∧
    ∀ job, g job = job ∨ job.waiter? = none ∧ (g job).isAside = true
  errand : ∀ e ∈ errands [] c'.jobs c'.postponed,
    e ∈ errands [] c.jobs c.postponed ∨ own = some e
  events : ∃ more, c'.events = c.events ++ more ∧ ∀ event ∈ more, event.isOfFetch = false

/-- A change of one kind. -/
inductive Change (own : Option EntryId) (c : Catalog) : Catalog → Prop where
  /-- Nothing changes for those who wait. -/
  | aside {c' : Catalog} : Aside own c c' → Change own c c'
  /-- An entry takes note of something. -/
  | alter {e : EntryId} {f : Entry → Entry} :
      (∀ a, c.entries[e]? = some a →
        a.Becomes (f a) ∧ (f a).status = a.status ∧ (f a).waiters = a.waiters) →
      Change own c (c.modifyEntry e f)
  /-- Somebody waits at the entry that it asks for. -/
  | join {e : EntryId} {a : Entry} {w : Waiter} :
      c.entries[e]? = some a → a.isLoading = true → c.AsksFor w e → Change own c (c.addWaiter e w)
  /-- An entry settles, and its waiters are told so. -/
  | settle {e : EntryId} {a b : Entry} {outcome : Outcome} :
      c.entries[e]? = some a → a.isLoading = true → a.Becomes b → b.waiters = [] →
      b.status.outcome? = some outcome →
      Change own c { c with
        entries := c.entries.set e b
        jobs := c.jobs ++ a.waiters.map (·.job outcome) }
  /-- The entry of a name under which none is found. -/
  | enter {name : String} : c.find? name = none → Change own c (c.ensure name).2
  /-- A descendant asks for an entry that has settled. -/
  | send {a e : EntryId} {outcome : Outcome} :
      c.outcome? a = some outcome → c.AsksFor (.descendant e) a →
      Change own c (c.enqueue [.link e outcome])
  /-- A request asks for an entry that has settled. -/
  | finish {r : RequestId} {e : EntryId} {outcome : Outcome} :
      c.outcome? e = some outcome → c.AsksFor (.request r) e → Change own c (c.finish r outcome)

/-- Changes one after the other. -/
abbrev Changes (own : Option EntryId) : Catalog → Catalog → Prop := ReflTransGen (Change own)

/-! ### What changes keep -/

/-- How entries change: at most one of them, and at most one is new. -/
theorem Change.entries {own : Option EntryId} {c c' : Catalog} (h : Change own c c') :
    (∃ e f, c'.entries = c.entries.modify e f ∧
      ∀ a, c.entries[e]? = some a → a.Becomes (f a)) ∨
    ∃ name, c.find? name = none ∧ c'.entries = c.entries ++ [.fresh name] := by
  cases h with
  | aside haside =>
    refine .inl ⟨0, id, ?_, fun a _ => .refl a⟩
    rw [List.modify_id]
    exact haside.entries
  | @alter e f hf => exact .inl ⟨e, f, rfl, fun a ha => (hf a ha).1⟩
  | @join e a w ha _ _ =>
    exact .inl ⟨e, _, rfl, fun a _ => ⟨rfl, rfl, fun _ => rfl, .inr rfl, .inr rfl⟩⟩
  | @settle e a b outcome ha _ hbecomes _ _ =>
    refine .inl ⟨e, fun _ => b, set_eq_modify _ _ _, fun x hx => ?_⟩
    rw [ha] at hx
    obtain rfl := Option.some.inj hx
    exact hbecomes
  | @enter name hfind =>
    refine .inr ⟨name, hfind, ?_⟩
    unfold ensure
    rw [hfind]
  | send | finish =>
    refine .inl ⟨0, id, ?_, fun a _ => .refl a⟩
    rw [List.modify_id]
    rfl

namespace Changes

variable {own : Option EntryId} {c c' : Catalog}

/-- Entries stay, and become only what an entry can. -/
theorem entry (h : Changes own c c') {e : EntryId} {a : Entry} (ha : c.entries[e]? = some a) :
    ∃ b, c'.entries[e]? = some b ∧ a.Becomes b := by
  induction h with
  | refl => exact ⟨a, ha, .refl a⟩
  | tail _ hchange ih =>
    obtain ⟨b, hb, hab⟩ := ih
    rcases hchange.entries with ⟨x, f, hentries, hf⟩ | ⟨name, -, hentries⟩
    · rw [hentries]
      by_cases hxe : x = e
      · subst hxe
        exact ⟨f b, by simp [hb], hab.trans (hf b hb)⟩
      · refine ⟨b, ?_, hab⟩
        rw [List.getElem?_modify_ne _ _ hxe]
        exact hb
    · rw [hentries]
      exact ⟨b, getElem?_append_of_some hb _, hab⟩

theorem length_le (h : Changes own c c') : c.entries.length ≤ c'.entries.length := by
  induction h with
  | refl => exact Nat.le_refl _
  | tail _ hchange ih =>
    rcases hchange.entries with ⟨x, f, hentries, -⟩ | ⟨name, -, hentries⟩
    · rw [hentries, List.length_modify]
      exact ih
    · rw [hentries, List.length_append]
      omega

end Changes

/-! ### Asides -/

namespace Aside

variable {own : Option EntryId} {c c' : Catalog}

/-- Jobs are queued, and events reported. -/
theorem queue (more : List Job) (events : List Event)
    (hentries : c'.entries = c.entries) (hanswers : c'.answers = c.answers)
    (hrequests : c'.requests = c.requests) (hgates : c'.gates = c.gates)
    (hpostponed : c'.postponed = c.postponed) (hjobs : c'.jobs = c.jobs ++ more)
    (hmore : ∀ job ∈ more, job.isAside = true ∧ (job.errand? = none ∨ job.errand? = own))
    (hevents : c'.events = c.events ++ events)
    (hquiet : ∀ event ∈ events, event.isOfFetch = false) : Aside own c c' where
  entries := hentries
  answers := hanswers
  request _ _ hr := hrequests ▸ hr
  gate g a hg := ⟨a, hgates ▸ hg, rfl⟩
  jobs := ⟨id, more, by rw [List.map_id, hjobs], fun job hjob => (hmore job hjob).1,
    fun _ => .inl rfl⟩
  errand e he := by
    rw [hjobs, hpostponed] at he
    simp only [errands, List.nil_append, List.filterMap_append, List.mem_append] at he ⊢
    rcases he with (hold | hnew) | hpostponed
    · exact .inl (.inl hold)
    · obtain ⟨job, hjob, heq⟩ := List.mem_filterMap.1 hnew
      rcases (hmore job hjob).2 with hnone | hown
      · rw [hnone] at heq
        cases heq
      · exact .inr (hown.symm.trans heq)
    · exact .inl (.inr hpostponed)
  events := ⟨events, hevents, hquiet⟩

/-- Jobs are replaced that tell nobody anything, by errands of the same load if by any. -/
theorem mapJobs {g : Job → Job} (hg : ∀ job, g job = job ∨
    job.waiter? = none ∧ (g job).isAside = true ∧ (g job).errand? = job.errand?) :
    Aside own c { c with jobs := c.jobs.map g } where
  entries := rfl
  answers := rfl
  request _ _ := id
  gate _ a ha := ⟨a, ha, rfl⟩
  jobs := ⟨g, [], (List.append_nil _).symm, nofun,
    fun job => (hg job).imp_right fun ⟨hwaiter, haside, _⟩ => ⟨hwaiter, haside⟩⟩
  errand e he := by
    have hsame : (c.jobs.map g).filterMap Job.errand? = c.jobs.filterMap Job.errand? := by
      rw [List.filterMap_map]
      apply List.filterMap_congr
      intro job _
      rcases hg job with heq | ⟨-, -, heq⟩
      · rw [Function.comp_apply, heq]
      · exact heq
    refine .inl ?_
    unfold errands at he ⊢
    rwa [hsame] at he
  events := ⟨[], (List.append_nil _).symm, nofun⟩

/-- Fetches are postponed, or cease to be, and jobs are queued for that. -/
theorem postpone {postponed' : List EntryId} (more : List Job)
    (hmore : ∀ job ∈ more, job.isAside = true)
    (herrand : ∀ e ∈ more.filterMap Job.errand? ++ postponed', e ∈ c.postponed ∨ own = some e)
    {held' : List String} :
    Aside own c { c with jobs := c.jobs ++ more, postponed := postponed', held := held' } where
  entries := rfl
  answers := rfl
  request _ _ := id
  gate _ a ha := ⟨a, ha, rfl⟩
  jobs := ⟨id, more, by rw [List.map_id], hmore, fun _ => .inl rfl⟩
  errand e he := by
    simp only [errands, List.nil_append, List.filterMap_append, List.append_assoc,
      List.mem_append] at he ⊢
    rcases he with hold | hnew
    · exact .inl (.inl hold)
    · exact (herrand e (List.mem_append.2 hnew)).imp_left .inr
  events := ⟨[], (List.append_nil _).symm, nofun⟩

/-- Gates change, and stay where they are. -/
theorem gates {gates' : List Gate}
    (hgate : ∀ (g : GateId) (a : Gate), c.gates[g]? = some a →
      ∃ b, gates'[g]? = some b ∧ b.entry = a.entry) :
    Aside own c { c with gates := gates' } where
  entries := rfl
  answers := rfl
  request _ _ := id
  gate := hgate
  jobs := ⟨id, [], by rw [List.map_id, List.append_nil], nofun, fun _ => .inl rfl⟩
  errand _ := .inl
  events := ⟨[], (List.append_nil _).symm, nofun⟩

end Aside

namespace Changes

variable {own : Option EntryId} {c c' : Catalog}

/-! ### Changes that nobody waits for -/

/-- Nothing changes but what no waiter, load or gate depends on. -/
theorem idle (hentries : c'.entries = c.entries)
    (hanswers : c'.answers = c.answers) (hrequests : c'.requests = c.requests)
    (hgates : c'.gates = c.gates) (hpostponed : c'.postponed = c.postponed)
    (hjobs : c'.jobs = c.jobs) (hevents : c'.events = c.events) : Changes own c c' :=
  .single (.aside (.queue [] [] hentries hanswers hrequests hgates hpostponed
    (hjobs.trans (List.append_nil _).symm) nofun (hevents.trans (List.append_nil _).symm) nofun))

theorem note {events : List Event} (h : ∀ event ∈ events, event.isOfFetch = false) :
    Changes own c (c.note events) :=
  .single (.aside (.queue [] events rfl rfl rfl rfl rfl (List.append_nil _).symm nofun rfl h))

theorem enqueue {more : List Job}
    (h : ∀ job ∈ more, job.isAside = true ∧ (job.errand? = none ∨ job.errand? = own)) :
    Changes own c (c.enqueue more) :=
  .single (.aside (.queue more [] rfl rfl rfl rfl rfl rfl h (List.append_nil _).symm nofun))

theorem modifyLoad (c : Catalog) (e : EntryId) (f : Load → Load) :
    Changes own c (c.modifyLoad e f) :=
  idle rfl rfl rfl rfl rfl rfl rfl

theorem endLoad (c : Catalog) (e : EntryId) : Changes own c (c.endLoad e) :=
  idle rfl rfl rfl rfl rfl rfl rfl

/-! ### Settling -/

theorem fail (c : Catalog) (e : EntryId) (error : LoadError) : Changes own c (c.fail e error) := by
  unfold Catalog.fail
  split
  · exact .refl
  · next a ha =>
    split
    · next hloading =>
      have hnote : Changes own c (c.note [.failed a.name error]) := note (by simp [Event.isOfFetch])
      have hbecomes : a.Becomes { a with status := .failed error, waiters := [] } :=
        ⟨rfl, rfl, fun hsettled => by simp [hloading] at hsettled, .inr rfl, .inr rfl⟩
      exact hnote.tail (.settle ha hloading hbecomes rfl rfl)
    · exact .refl

theorem countDown (c : Catalog) (e : EntryId) : Changes own c (c.countDown e) := by
  unfold Catalog.countDown
  split
  · exact .refl
  · next a ha =>
    split
    · exact .refl
    · next hloading =>
      split
      · exact .single (.alter fun a _ => ⟨⟨rfl, rfl, fun _ => rfl, .inr rfl, .inr rfl⟩, rfl, rfl⟩)
      · split
        · exact .refl
        · next document _ =>
          have hloading : a.isLoading = true := by simpa using hloading
          have hnote : Changes own c (c.note [.ready a.name
              (Chain.derive ⟨a.name, document⟩ a.ancestor?).names]) :=
            note (by simp [Event.isOfFetch])
          have hbecomes (chain : Chain) :
              a.Becomes { a with pending := 0, status := .ready chain, waiters := [] } :=
            ⟨rfl, rfl, fun hsettled => by simp [hloading] at hsettled, .inr rfl, .inr rfl⟩
          exact hnote.tail (.settle (a := a) ha hloading (hbecomes _) rfl rfl)

/-! ### Asking for an entry -/

theorem ensure (c : Catalog) (name : String) : Changes own c (c.ensure name).2 := by
  cases hfind : c.find? name with
  | some e =>
    have hsame : (c.ensure name).2 = c := by
      unfold Catalog.ensure
      rw [hfind]
    rw [hsame]
  | none => exact .single (.enter hfind)

/-- A request comes to the entry that it asks for. -/
theorem await {r : RequestId} {e : EntryId} {a : Entry} (ha : c.entries[e]? = some a)
    (hasks : c.AsksFor (.request r) e) : Changes own c (c.await r e) := by
  unfold Catalog.await
  split
  · next houtcome => exact .single (.finish houtcome hasks)
  · next hnone => exact .single (.join ha ((outcome?_eq_none_iff ha).1 hnone) hasks)

/-- An entry that has named its ancestor asks for it. -/
theorem requestAncestor {e : EntryId} {a : Entry} {ancestor : String}
    (ha : c.entries[e]? = some a) (hparent : a.parent? = some ancestor) (name : String) :
    Changes own c (c.requestAncestor e name ancestor) := by
  unfold Catalog.requestAncestor
  split
  · exact fail c e _
  · refine (ensure c ancestor).trans ?_
    have hasks : (c.ensure ancestor).2.AsksFor (.descendant e) (c.ensure ancestor).1 :=
      .ancestor (ensure_kept ha ancestor) hparent (find?_ensure c ancestor)
    obtain ⟨b, hb, -⟩ := ensure_entry c ancestor
    generalize c.ensure ancestor = ensured at hasks hb ⊢
    obtain ⟨f, c'⟩ := ensured
    dsimp only at hasks hb ⊢
    split
    · next houtcome => exact .single (.send houtcome hasks)
    · next hnone => exact .single (.join hb ((outcome?_eq_none_iff hb).1 hnone) hasks)

/-- An entry that has waited for its ancestor learns what has become of it. -/
theorem link {e : EntryId} {a : Entry} (ha : c.entries[e]? = some a) (hloading : a.isLoading = true)
    (hancestor : a.ancestor? = none) (outcome : Outcome) : Changes own c (c.link e outcome) := by
  unfold Catalog.link
  cases outcome with
  | cancelled => exact fail c e _
  | failed error => exact fail c e _
  | ready chain =>
    dsimp only
    split
    · exact .refl
    · refine ReflTransGen.trans (.single (.alter fun b hb => ?_)) (countDown _ e)
      rw [ha] at hb
      obtain rfl := Option.some.inj hb
      exact ⟨⟨rfl, rfl, fun _ => rfl, .inr rfl, .inl ⟨hloading, hancestor⟩⟩, rfl, rfl⟩

/-! ### Loading -/

/-- A text has come for an entry that has not been read. -/
theorem readText {e : EntryId} {a : Entry} (ha : c.entries[e]? = some a)
    (hdocument : a.document? = none) (name text : String) :
    Changes own c (c.readText e name text) := by
  unfold Catalog.readText
  dsimp only
  have hfetched (c : Catalog) : Changes own c (c.note (.fetched name text.length ::
      (Markup.Document.read c.rules text).remarks.map (.doubtful name))) := by
    apply note
    intro event hevent
    rcases List.mem_cons.1 hevent with rfl | hevent
    · rfl
    · obtain ⟨remark, -, rfl⟩ := List.mem_map.1 hevent
      rfl
  refine (hfetched c).trans ?_
  split
  · exact fail _ e _
  · next document _ =>
    have hparsed (c : Catalog) : Changes own c (c.note [.parsed name document]) :=
      note (by simp [Event.isOfFetch])
    refine (hparsed _).trans ?_
    refine ReflTransGen.trans (.single (.alter (e := e)
      (f := fun entry => { entry with document? := some document }) fun b hb => ?_)) ?_
    · have hab : a = b := Option.some.inj (ha.symm.trans hb)
      exact ⟨⟨rfl, rfl, fun _ => rfl, .inl (hab ▸ hdocument), .inr rfl⟩, rfl, rfl⟩
    split
    · exact countDown _ e
    · next ancestor hparent =>
      -- There is one more thing to wait for before the text is counted down.
      refine ReflTransGen.trans (.single (.alter (e := e)
        (f := fun entry => { entry with pending := entry.pending + 1 }) fun b _ => ?_)) ?_
      · exact ⟨⟨rfl, rfl, fun _ => rfl, .inr rfl, .inr rfl⟩, rfl, rfl⟩
      refine ReflTransGen.trans (requestAncestor
        (a := { a with document? := some document, pending := a.pending + 1 }) ?_ ?_ name)
        (countDown _ e)
      · simp [modifyEntry, Catalog.note, ha]
      · exact hparent

/-- The load of an entry that has not been read ends with what the store has given. -/
theorem conclude {e : EntryId} {a : Entry} (ha : c.entries[e]? = some a)
    (hdocument : a.document? = none) (fetched : Fetched) :
    Changes own c (c.conclude e fetched) := by
  unfold Catalog.conclude
  dsimp only
  refine (endLoad c e).trans ?_
  split
  · exact readText (c := c.endLoad e) ha hdocument _ _
  · split
    · exact fail _ e _
    · exact .refl

theorem giveUp (c : Catalog) (e : EntryId) (error : LoadError) : Changes own c (c.giveUp e error) :=
  (endLoad c e).trans (fail _ e error)

/-! ### Fetches -/

/-- A fetch ends, without a time limit for an entry that has not been read. -/
theorem endFetch {e : EntryId}
    (h : c.limit? = none → ∃ a, c.entries[e]? = some a ∧ a.document? = none) (fetched : Fetched) :
    Changes own c (c.endFetch e fetched) := by
  unfold Catalog.endFetch
  split
  · next hnone =>
    obtain ⟨a, ha, hdocument⟩ := h hnone
    exact conclude ha hdocument fetched
  · exact (modifyLoad c e _).trans (enqueue (by simp [Job.isAside, Job.errand?]))

theorem callOff (c : Catalog) (e : EntryId) : Changes own c (c.callOff e) := by
  unfold Catalog.callOff
  split
  · next hpostponed =>
    refine .single (.aside (.postpone [.drop e] (by simp [Job.isAside]) fun x hx => .inl ?_))
    rcases List.mem_append.1 hx with hx | hx
    · obtain rfl : x = e := by simpa [Job.errand?] using hx
      exact List.contains_iff_mem.1 hpostponed
    · exact List.mem_of_mem_filter hx
  · refine .single (.aside (.mapJobs fun job => ?_))
    cases job with
    | fetch x | read x =>
      dsimp only
      split
      · exact .inr ⟨rfl, rfl, by simp_all [Job.errand?]⟩
      · exact .inl rfl
    | _ => exact .inl rfl

theorem abandon (c : Catalog) (e : EntryId) (error : LoadError) :
    Changes own c (c.abandon e error) :=
  (modifyLoad c e _).trans (callOff _ e)

theorem wake (c : Catalog) (e : EntryId) : Changes own c (c.wake e) := by
  unfold Catalog.wake
  split
  · exact .refl
  · split
    · exact (modifyLoad c e _).trans (enqueue (by simp [Job.isAside, Job.errand?]))
    · exact .refl

theorem expire (c : Catalog) (e : EntryId) : Changes own c (c.expire e) := by
  unfold Catalog.expire
  split
  · exact wake c e
  · exact .refl

/-! ### What is asked of a catalog -/

theorem request (c : Catalog) (target : Target) : Changes own c (c.request target).2 := by
  refine .single (.aside ⟨rfl, rfl, ?_, ?_, ⟨id, [.start c.requests.length], ?_, ?_,
    fun _ => .inl rfl⟩, ?_, [], (List.append_nil _).symm, nofun⟩)
  · intro r target hr
    exact getElem?_append_of_some hr _
  · intro g a ha
    exact ⟨a, ha, rfl⟩
  · rw [List.map_id]
    rfl
  · simp [Job.isAside]
  · intro e he
    refine .inl ?_
    simpa [Catalog.request, errands, Job.errand?] using he

theorem takeGate (c : Catalog) (name : String) : Changes own c (c.gate name).2 := by
  unfold Catalog.gate
  refine (ensure c name).trans ?_
  generalize c.ensure name = ensured
  obtain ⟨e, c'⟩ := ensured
  dsimp only
  have hcounted : Changes own c' (c'.modifyEntry e fun entry =>
      { entry with pending := entry.pending + 1 }) :=
    .single (.alter fun _ _ => ⟨⟨rfl, rfl, fun _ => rfl, .inr rfl, .inr rfl⟩, rfl, rfl⟩)
  have hput (c : Catalog) (gate : Gate) : Changes own c { c with gates := c.gates ++ [gate] } :=
    .single (.aside (.gates fun g a ha => ⟨a, getElem?_append_of_some ha _, rfl⟩))
  split
  · exact hcounted.trans (hput _ _)
  · exact hput _ _

/-- A gate changes, and stays where it is. -/
theorem setGate {g : GateId} {old new : Gate} (hg : c.gates[g]? = some old)
    (hentry : new.entry = old.entry) : Changes own c { c with gates := c.gates.set g new } := by
  have hlt : g < c.gates.length := (List.getElem?_eq_some_iff.1 hg).1
  refine .single (.aside (.gates fun x a ha => ?_))
  by_cases hgx : g = x
  · subst hgx
    rw [hg] at ha
    obtain rfl := Option.some.inj ha
    exact ⟨new, List.getElem?_set_self hlt, hentry⟩
  · refine ⟨a, ?_, rfl⟩
    rw [List.getElem?_set_ne hgx]
    exact ha

theorem release (c : Catalog) (g : GateId) : Changes own c ((c.release g).toOption.getD c) := by
  unfold Catalog.release
  split
  · exact .refl
  · next gate hg =>
    split
    · exact .refl
    · have hopened : Changes own c { c with
          gates := c.gates.set g { gate with released := true, waiters := [] } } := setGate hg rfl
      have hpassing (c : Catalog) (rs : List RequestId) :
          Changes own c (c.enqueue (rs.map .pass)) := by
        apply enqueue
        intro job hjob
        obtain ⟨r, -, rfl⟩ := List.mem_map.1 hjob
        exact ⟨rfl, .inl rfl⟩
      have hthrough := hopened.trans (hpassing _ gate.waiters)
      dsimp only [Except.toOption, Option.getD_some]
      split
      · exact hthrough.trans (countDown _ _)
      · exact hthrough

theorem cancelLoad (c : Catalog) (e : EntryId) : Changes own c (c.cancelLoad e) := by
  unfold Catalog.cancelLoad
  split
  · refine .single (.aside (.mapJobs fun job => ?_))
    cases job with
    | load x =>
      dsimp only
      split
      · exact .inr ⟨rfl, rfl, by simp_all [Job.errand?]⟩
      · exact .inl rfl
    | _ => exact .inl rfl
  · split
    · exact callOff c e
    · split
      · exact (modifyLoad c e _).trans (enqueue (by simp [Job.isAside, Job.errand?]))
      · refine .single (.aside (.mapJobs fun job => ?_))
        cases job with
        | resume x =>
          dsimp only
          split
          · exact .inr ⟨rfl, rfl, by simp_all [Job.errand?]⟩
          · exact .inl rfl
        | _ => exact .inl rfl

theorem cancelLoads (c : Catalog) (name : String) : Changes own c (c.cancelLoads name).2 := by
  unfold Catalog.cancelLoads
  dsimp only
  generalize (c.loads.map (·.entry)).filter _ = running
  induction running generalizing c with
  | nil => exact .refl
  | cons e rest ih => exact (cancelLoad c e).trans (ih _)

theorem unhold (c : Catalog) (name : String) : Changes own c (c.unhold name) := by
  refine .single (.aside (.postpone _ (fun job hjob => ?_) fun x hx => .inl ?_))
  · obtain ⟨e, -, rfl⟩ := List.mem_map.1 hjob
    rfl
  · rcases List.mem_append.1 hx with hx | hx
    · -- What is read now has been postponed.
      obtain ⟨job, hjob, hx⟩ := List.mem_filterMap.1 hx
      obtain ⟨e, he, rfl⟩ := List.mem_map.1 hjob
      obtain rfl := Option.some.inj hx
      exact List.mem_of_mem_filter he
    · exact List.mem_of_mem_filter hx

theorem ring (c : Catalog) : Changes own c c.ring := by
  refine .single (.aside (.queue _ [] rfl rfl rfl rfl rfl rfl ?_ (List.append_nil _).symm
    nofun))
  intro job hjob
  obtain ⟨alarm, -, rfl⟩ := List.mem_map.1 hjob
  exact ⟨rfl, .inl rfl⟩

end Changes

end TextTemplate.Catalog
