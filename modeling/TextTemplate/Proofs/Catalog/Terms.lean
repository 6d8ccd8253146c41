import Mathlib.Logic.Relation
import TextTemplate.Proofs.Catalog.Waiters
import TextTemplate.Proofs.Catalog.Loads

/-! # What is true of the templates of a run

  `Terms` fix what a store may answer, and what then holds of a document that is
  read for a name, of a chain that becomes ready under it, and of an error with
  which it fails.  Terms that are `Closed` under what a catalog does with texts
  hold of everything in every catalog of a run (`Faithful`): entries, answers
  under way, answers given.  They do not mention jobs or their order, so what
  follows from them holds of every interleaving.
-/

namespace TextTemplate.Catalog

/-! ### Terms -/

/-- What may be true of names in a run, and which actions may be taken. -/
structure Terms where
  /-- What the store may give for a name. -/
  fetched : String → Fetched → Prop
  document : String → Markup.Document → Prop
  ready : String → Chain → Prop
  failed : String → LoadError → Prop
  /-- May a fetch run out of time? -/
  runsLate : Prop
  /-- May loads be cancelled, also before they begin? -/
  cancelsLoads : Prop
  /-- May loads be cancelled once they have begun? -/
  breaksOff : Prop
  /-- May those who wait be sent away? -/
  sendsAway : Prop
  /-- May a load end and leave its entry as it is? -/
  strands : Prop

namespace Terms

/-- Do the terms know a document under the first name that extends the second? -/
def Extends (t : Terms) (name parent : String) : Prop :=
  ∃ document, t.document name document ∧ document.parent? = some parent

/-- The terms hold of what a catalog makes of what they hold of. -/
structure Closed (t : Terms) (rules : Markup.Rules) (limit? : Option TimeLimit) : Prop where
  read : ∀ name text document, t.fetched name (.text text) →
    (Markup.Document.read rules text).result = .ok document → t.document name document
  unreadable : ∀ name text fault, t.fetched name (.text text) →
    (Markup.Document.read rules text).result = .error fault → t.failed name (.markup fault)
  unfetched : ∀ name fetched error, t.fetched name fetched →
    fetched.error? (limit?.map (·.text)) = some error → t.failed name error
  topmost : ∀ name document, t.document name document → document.parent? = none →
    t.ready name (.derive ⟨name, document⟩ none)
  derived : ∀ name document parent chain, t.document name document →
    document.parent? = some parent → t.ready parent chain →
    t.ready name (.derive ⟨name, document⟩ (some chain))
  fatherless : ∀ name document parent error, t.document name document →
    document.parent? = some parent → t.failed parent error →
    t.failed name (.ancestorFailed parent error)
  circular : ∀ name path, Relation.TransGen t.Extends name name → t.failed name (.circular path)
  late : t.runsLate → ∀ name limit?, t.failed name (.timedOut limit?)
  begun : t.cancelsLoads → t.breaksOff
  brokenOff : t.runsLate ∨ t.breaksOff → ∀ name, t.fetched name .cancelled
  cancelled : t.breaksOff → ∀ name, t.failed name .cancelled
  sentAway : t.sendsAway → ∀ name parent, t.failed name (.ancestorCancelled parent)
  impatient : ∀ limit, limit? = some limit → limit.patience = .none → t.runsLate
  skipped : t.cancelsLoads → t.strands
  escaped : ∀ name, t.fetched name .escaping → t.strands

/-- Does the action keep to the terms? -/
def Allows (t : Terms) : Action → Prop
  | .cancelLoads _ => t.cancelsLoads
  | .cancelWaiters _ => t.sendsAway
  | .ring => t.runsLate
  | .turn store => ∀ name, t.fetched name (store name).fetched
  | _ => True

/-- Does the action keep to the terms in this catalog?  To cancel loads that have begun is another
    thing than to cancel any. -/
def Permits (t : Terms) (c : Catalog) : Action → Prop
  | .cancelLoads name => t.cancelsLoads ∨ t.breaksOff ∧
    ∀ (e : EntryId) (a : Entry), c.entries[e]? = some a → a.name = name → .load e ∉ c.jobs
  | a => t.Allows a

theorem Allows.permits {t : Terms} {a : Action} (h : t.Allows a) (c : Catalog) : t.Permits c a := by
  cases a with
  | cancelLoads name => exact .inl h
  | _ => exact h

/-- Is the outcome one for the name?  Only some can be told that it was cancelled. -/
def Gives (t : Terms) (name : String) (cancelled : Prop) : Outcome → Prop
  | .ready chain => t.ready name chain
  | .failed error => t.failed name error
  | .cancelled => cancelled

end Terms

/-! ### Names -/

/-- The name that a target stands for. -/
def targetName? (c : Catalog) : Target → Option String
  | .template name => some name
  | .gate g => c.gates[g]?.bind fun gate => c.entries[gate.entry]?.map (·.name)

/-- The name that a request asks for. -/
def requestName? (c : Catalog) (r : RequestId) : Option String :=
  c.requests[r]?.bind c.targetName?

/-- The name that a waiter waits for. -/
def awaitedName? (c : Catalog) : Waiter → Option String
  | .request r => c.requestName? r
  | .descendant e => c.entries[e]?.bind (·.parent?)

/-- The names of entries, requests and gates stay, and ancestors that were named. -/
structure Extended (c c' : Catalog) : Prop where
  entry : ∀ (e : EntryId) (a : Entry), c.entries[e]? = some a → ∃ b, c'.entries[e]? = some b ∧
    b.name = a.name ∧ ∀ parent, a.parent? = some parent → b.parent? = some parent
  gate : ∀ (g : GateId) (a : Gate), c.gates[g]? = some a →
    ∃ b, c'.gates[g]? = some b ∧ b.entry = a.entry
  request : ∀ (r : RequestId) (target : Target), c.requests[r]? = some target →
    c'.requests[r]? = some target

namespace Extended

variable {c c' : Catalog}

/-- A catalog that has the same requests and gates, and in which one entry has changed. -/
theorem of_modify {e : EntryId} {f : Entry → Entry} (hentries : c'.entries = c.entries.modify e f)
    (hgates : c'.gates = c.gates) (hrequests : c'.requests = c.requests)
    (hf : ∀ a, c.entries[e]? = some a → (f a).name = a.name ∧
      ∀ parent, a.parent? = some parent → (f a).parent? = some parent) : Extended c c' where
  entry x a ha := by
    rw [hentries]
    by_cases hex : e = x
    · subst hex
      exact ⟨f a, by simp [ha], hf a ha⟩
    · exact ⟨a, by rw [List.getElem?_modify_ne _ _ hex]; exact ha, rfl, fun _ => id⟩
  gate g a ha := by
    rw [hgates]
    exact ⟨a, ha, rfl⟩
  request r target hr := by
    rw [hrequests]
    exact hr

/-- A catalog in which one gate has changed, and stands where it stood. -/
theorem of_gate {g : GateId} {old new : Gate} (hg : c.gates[g]? = some old)
    (hentry : new.entry = old.entry) : Extended c { c with gates := c.gates.set g new } where
  entry _ a ha := ⟨a, ha, rfl, fun _ => id⟩
  gate x a hx := by
    by_cases hgx : g = x
    · subst hgx
      rw [hg] at hx
      obtain rfl := Option.some.inj hx
      have hlt := (List.getElem?_eq_some_iff.1 hg).1
      exact ⟨new, by simp [hlt], hentry⟩
    · exact ⟨a, by simpa [List.getElem?_set_ne hgx] using hx, rfl⟩
  request _ _ hr := hr

theorem targetName? (h : Extended c c') {target : Target} {name : String}
    (ht : c.targetName? target = some name) : c'.targetName? target = some name := by
  cases target with
  | template other => exact ht
  | gate g =>
    simp only [Catalog.targetName?, Option.bind_eq_some_iff, Option.map_eq_some_iff] at ht ⊢
    obtain ⟨gate, hg, entry, he, rfl⟩ := ht
    obtain ⟨gate', hg', heq⟩ := h.gate g gate hg
    obtain ⟨entry', he', hname, -⟩ := h.entry gate.entry entry he
    exact ⟨gate', hg', entry', heq ▸ he', hname⟩

theorem requestName? (h : Extended c c') {r : RequestId} {name : String}
    (hr : c.requestName? r = some name) : c'.requestName? r = some name := by
  simp only [Catalog.requestName?, Option.bind_eq_some_iff] at hr ⊢
  obtain ⟨target, hr, ht⟩ := hr
  exact ⟨target, h.request r target hr, h.targetName? ht⟩

theorem awaitedName? (h : Extended c c') {w : Waiter} {name : String}
    (hw : c.awaitedName? w = some name) : c'.awaitedName? w = some name := by
  cases w with
  | request r => exact h.requestName? hw
  | descendant e =>
    simp only [Catalog.awaitedName?, Option.bind_eq_some_iff] at hw ⊢
    obtain ⟨a, ha, hp⟩ := hw
    obtain ⟨b, hb, -, hparent⟩ := h.entry e a ha
    exact ⟨b, hb, hparent name hp⟩

end Extended

/-! ### Entries, jobs, loads -/

/-- May the waiter be told that what it waits for was cancelled? -/
def Terms.Loses (t : Terms) (cancelled : List RequestId) : Waiter → Prop
  | .request r => r ∈ cancelled ∨ t.sendsAway
  | .descendant _ => t.sendsAway

/-- Is the outcome one for the waiter? -/
def Terms.Answers (t : Terms) (cancelled : List RequestId) (awaited : Waiter → Option String)
    (w : Waiter) (outcome : Outcome) : Prop :=
  ∃ name, awaited w = some name ∧ t.Gives name (t.Loses cancelled w) outcome

/-- What the terms say of an entry. -/
structure FaithfulEntry (t : Terms) (entry : Entry) : Prop where
  document : ∀ document, entry.document? = some document → t.document entry.name document
  ready : ∀ chain, entry.status = .ready chain → t.ready entry.name chain
  failed : ∀ error, entry.status = .failed error → t.failed entry.name error
  ancestor : ∀ chain, entry.ancestor? = some chain →
    ∃ parent, entry.parent? = some parent ∧ t.ready parent chain

/-- What the terms say of a load. -/
structure FaithfulLoad (t : Terms) (entries : List Entry) (load : Load) : Prop where
  fetched : ∀ entry fetched, entries[load.entry]? = some entry → load.fetched? = some fetched →
    t.fetched entry.name fetched
  verdict : ∀ entry error, entries[load.entry]? = some entry → load.verdict? = some error →
    t.failed entry.name error

/-- What the terms say of a job. -/
def FaithfulJob (t : Terms) (cancelled : List RequestId) (awaited : Waiter → Option String)
    (entries : List Entry) (loads : List Load) : Job → Prop
  | .dismiss r => r ∈ cancelled
  | .answer r outcome => t.Answers cancelled awaited (.request r) outcome
  | .link e outcome => t.Answers cancelled awaited (.descendant e) outcome
  | .skip _ => t.cancelsLoads
  | .interrupt _ => t.breaksOff
  | .drop _ => t.runsLate ∨ t.breaksOff
  | .expire _ => t.runsLate
  | .report e => e < entries.length ∧ ∀ load ∈ loads, load.entry = e → load.fetched? ≠ none
  | .resume e => e < entries.length ∧
      (t.runsLate ∨ ∀ load ∈ loads, load.entry = e → load.fetched? ≠ none)
  | _ => True

theorem faithfulJob_job {t : Terms} {cancelled : List RequestId}
    {awaited : Waiter → Option String} {entries : List Entry} {loads : List Load} {w : Waiter}
    {outcome : Outcome} : FaithfulJob t cancelled awaited entries loads (w.job outcome) ↔
      t.Answers cancelled awaited w outcome := by
  cases w <;> rfl

/-- The terms hold of everything in a catalog. -/
structure Faithful (t : Terms) (cancelled : List RequestId) (awaited : Waiter → Option String)
    (entries : List Entry) (loads : List Load) (jobs : List Job)
    (answers : List (RequestId × Outcome)) : Prop where
  entry : ∀ entry ∈ entries, FaithfulEntry t entry
  waiter : ∀ entry ∈ entries, ∀ w ∈ entry.waiters, awaited w = some entry.name
  load : ∀ load ∈ loads, FaithfulLoad t entries load
  job : ∀ job ∈ jobs, FaithfulJob t cancelled awaited entries loads job
  answer : ∀ answer ∈ answers, t.Answers cancelled awaited (.request answer.1) answer.2

theorem Terms.Gives.mono {t : Terms} {name : String} {p q : Prop} {outcome : Outcome}
    (h : t.Gives name p outcome) (hpq : p → q) : t.Gives name q outcome := by
  cases outcome with
  | ready chain => exact h
  | failed error => exact h
  | cancelled => exact hpq h

theorem Terms.Answers.mono {t : Terms} {cancelled cancelled' : List RequestId}
    {awaited awaited' : Waiter → Option String} {w : Waiter} {outcome : Outcome}
    (h : t.Answers cancelled awaited w outcome) (hcancelled : ∀ r ∈ cancelled, r ∈ cancelled')
    (hawaited : ∀ w name, awaited w = some name → awaited' w = some name) :
    t.Answers cancelled' awaited' w outcome := by
  obtain ⟨name, hw, hg⟩ := h
  refine ⟨name, hawaited w name hw, hg.mono fun hl => ?_⟩
  cases w with
  | request r => exact hl.imp_left (hcancelled r)
  | descendant e => exact hl

theorem FaithfulJob.mono {t : Terms} {cancelled cancelled' : List RequestId}
    {awaited awaited' : Waiter → Option String} {entries entries' : List Entry}
    {loads loads' : List Load} {job : Job}
    (h : FaithfulJob t cancelled awaited entries loads job)
    (hcancelled : ∀ r ∈ cancelled, r ∈ cancelled')
    (hawaited : ∀ w name, awaited w = some name → awaited' w = some name)
    (hlen : entries.length ≤ entries'.length)
    (hloads : ∀ load' ∈ loads', ∃ load ∈ loads, load.entry = load'.entry ∧
      (load.fetched? ≠ none → load'.fetched? ≠ none)) :
    FaithfulJob t cancelled' awaited' entries' loads' job := by
  have hfetched : ∀ e, (∀ load ∈ loads, load.entry = e → load.fetched? ≠ none) →
      ∀ load ∈ loads', load.entry = e → load.fetched? ≠ none := by
    intro e hall load' hload' heq
    obtain ⟨load, hload, hentry, hf⟩ := hloads load' hload'
    exact hf (hall load hload (hentry.trans heq))
  cases job with
  | dismiss r => exact hcancelled r h
  | answer r outcome => exact Terms.Answers.mono h hcancelled hawaited
  | link e outcome => exact Terms.Answers.mono h hcancelled hawaited
  | report e => exact ⟨Nat.lt_of_lt_of_le h.1 hlen, hfetched e h.2⟩
  | resume e => exact ⟨Nat.lt_of_lt_of_le h.1 hlen, h.2.imp_right (hfetched e)⟩
  | skip | interrupt | drop | expire => exact h
  | start | pass | load | fetch | read => trivial

namespace Faithful

variable {t : Terms} {cancelled cancelled' : List RequestId}
  {awaited awaited' : Waiter → Option String} {entries : List Entry} {loads loads' : List Load}
  {jobs jobs' : List Job} {answers : List (RequestId × Outcome)}

theorem nil : Faithful t [] awaited [] [] [] [] := by
  constructor <;> simp

/-- More names become known, and more requests are cancelled. -/
theorem mono (h : Faithful t cancelled awaited entries loads jobs answers)
    (hcancelled : ∀ r ∈ cancelled, r ∈ cancelled')
    (hawaited : ∀ w name, awaited w = some name → awaited' w = some name) :
    Faithful t cancelled' awaited' entries loads jobs answers where
  entry := h.entry
  waiter entry hentry w hw := hawaited _ _ (h.waiter entry hentry w hw)
  load := h.load
  job job hjob := (h.job job hjob).mono hcancelled hawaited (Nat.le_refl _)
    fun load hload => ⟨load, hload, rfl, id⟩
  answer answer hanswer := (h.answer answer hanswer).mono hcancelled hawaited

/-- Jobs are queued or changed. -/
theorem change_jobs (h : Faithful t cancelled awaited entries loads jobs answers)
    (hjobs : ∀ job ∈ jobs', job ∈ jobs ∨ FaithfulJob t cancelled awaited entries loads job) :
    Faithful t cancelled awaited entries loads jobs' answers where
  entry := h.entry
  waiter := h.waiter
  load := h.load
  job job hjob := (hjobs job hjob).elim (h.job job) id
  answer := h.answer

theorem enqueue (h : Faithful t cancelled awaited entries loads jobs answers) {more : List Job}
    (hmore : ∀ job ∈ more, FaithfulJob t cancelled awaited entries loads job) :
    Faithful t cancelled awaited entries loads (jobs ++ more) answers :=
  h.change_jobs fun job hjob => (List.mem_append.1 hjob).imp_right (hmore job)

/-- An answer is given. -/
theorem finish (h : Faithful t cancelled awaited entries loads jobs answers) {r : RequestId}
    {outcome : Outcome} (houtcome : t.Answers cancelled awaited (.request r) outcome) :
    Faithful t cancelled awaited entries loads jobs (answers ++ [(r, outcome)]) where
  entry := h.entry
  waiter := h.waiter
  load := h.load
  job := h.job
  answer answer hanswer := by
    rcases mem_or_eq_of_mem_concat hanswer with hanswer | rfl
    · exact h.answer answer hanswer
    · exact houtcome

/-- An entry changes. -/
theorem modify (h : Faithful t cancelled awaited entries loads jobs answers) {e : EntryId}
    {f : Entry → Entry}
    (hf : ∀ a, entries[e]? = some a → (f a).name = a.name ∧ FaithfulEntry t (f a) ∧
      ∀ w ∈ (f a).waiters, awaited w = some a.name) :
    Faithful t cancelled awaited (entries.modify e f) loads jobs answers := by
  have hback : ∀ b ∈ entries.modify e f, b ∈ entries ∨ ∃ a, entries[e]? = some a ∧ b = f a := by
    intro b hb
    obtain ⟨i, hi⟩ := List.getElem?_of_mem hb
    obtain ⟨a, ha, rfl⟩ := getElem?_of_getElem?_modify hi
    split
    · next heq => exact .inr ⟨a, heq ▸ ha, rfl⟩
    · exact .inl (List.mem_of_getElem? ha)
  have hname : ∀ (x : EntryId) b, (entries.modify e f)[x]? = some b →
      ∃ a, entries[x]? = some a ∧ b.name = a.name := by
    intro x b hb
    obtain ⟨a, ha, rfl⟩ := getElem?_of_getElem?_modify hb
    refine ⟨a, ha, ?_⟩
    split
    · next heq => exact (hf a (heq ▸ ha)).1
    · rfl
  constructor
  · intro b hb
    rcases hback b hb with hb | ⟨a, ha, rfl⟩
    · exact h.entry b hb
    · exact (hf a ha).2.1
  · intro b hb w hw
    rcases hback b hb with hb | ⟨a, ha, rfl⟩
    · exact h.waiter b hb w hw
    · rw [(hf a ha).1]
      exact (hf a ha).2.2 w hw
  · intro load hload
    constructor
    · intro b fetched hb hfetched
      obtain ⟨a, ha, hab⟩ := hname load.entry b hb
      rw [hab]
      exact (h.load load hload).fetched a fetched ha hfetched
    · intro b error hb hverdict
      obtain ⟨a, ha, hab⟩ := hname load.entry b hb
      rw [hab]
      exact (h.load load hload).verdict a error ha hverdict
  · intro job hjob
    exact (h.job job hjob).mono (fun _ => id) (fun _ _ => id) (by simp)
      fun load hload => ⟨load, hload, rfl, id⟩
  · exact h.answer

/-- Loads end, or change and keep what they have been given. -/
theorem change_loads (h : Faithful t cancelled awaited entries loads jobs answers)
    (hloads : ∀ load' ∈ loads', FaithfulLoad t entries load' ∧
      ∃ load ∈ loads, load.entry = load'.entry ∧
        (load.fetched? ≠ none → load'.fetched? ≠ none)) :
    Faithful t cancelled awaited entries loads' jobs answers where
  entry := h.entry
  waiter := h.waiter
  load load hload := (hloads load hload).1
  job job hjob := (h.job job hjob).mono (fun _ => id) (fun _ _ => id) (Nat.le_refl _)
    fun load hload => (hloads load hload).2
  answer := h.answer

theorem concat_fresh (h : Faithful t cancelled awaited entries loads jobs answers)
    (hrange : ∀ load ∈ loads, load.entry < entries.length) (name : String) :
    Faithful t cancelled awaited (entries ++ [.fresh name]) (loads ++ [.fresh entries.length])
      (jobs ++ [.load entries.length]) answers := by
  have hlen : entries.length ≤ (entries ++ [Entry.fresh name]).length := by simp
  -- Jobs that know something of a load have an older one in mind.
  have hold : ∀ e, e < entries.length → (∀ load ∈ loads, load.entry = e → load.fetched? ≠ none) →
      ∀ load ∈ loads ++ [Load.fresh entries.length], load.entry = e → load.fetched? ≠ none := by
    intro e hlt hall load hload heq
    rcases mem_or_eq_of_mem_concat hload with hload | rfl
    · exact hall load hload heq
    · exact absurd hlt (heq ▸ Nat.lt_irrefl _)
  constructor
  · intro entry hentry
    rcases mem_or_eq_of_mem_concat hentry with hentry | rfl
    · exact h.entry entry hentry
    · constructor <;> intro _ hfresh <;> cases hfresh
  · intro entry hentry w hw
    rcases mem_or_eq_of_mem_concat hentry with hentry | rfl
    · exact h.waiter entry hentry w hw
    · cases hw
  · intro load hload
    rcases mem_or_eq_of_mem_concat hload with hload | rfl
    · have hname : ∀ entry, (entries ++ [Entry.fresh name])[load.entry]? = some entry →
          entries[load.entry]? = some entry := by
        intro entry he
        rwa [List.getElem?_append_left (hrange load hload)] at he
      exact ⟨fun entry fetched he => (h.load load hload).fetched entry fetched (hname entry he),
        fun entry error he => (h.load load hload).verdict entry error (hname entry he)⟩
    · constructor <;> intro _ _ _ hfresh <;> cases hfresh
  · intro job hjob
    rcases mem_or_eq_of_mem_concat hjob with hjob | rfl
    · have hfaithful := h.job job hjob
      cases job with
      | report e => exact ⟨Nat.lt_of_lt_of_le hfaithful.1 hlen, hold e hfaithful.1 hfaithful.2⟩
      | resume e =>
        exact ⟨Nat.lt_of_lt_of_le hfaithful.1 hlen, hfaithful.2.imp_right (hold e hfaithful.1)⟩
      | dismiss | answer | link | skip | interrupt | drop | expire => exact hfaithful
      | start | pass | load | fetch | read => trivial
    · trivial
  · exact h.answer

end Faithful

end TextTemplate.Catalog
