import TextTemplate.Proofs.Catalog.Onward

/-! # When a template becomes ready

  A loading entry counts what it waits for: its own text, its ancestor, and the
  closed gates that were put at it while it was loading.  In every run the count
  is right, so the entry becomes ready with the last of these things and not
  before, and nothing is counted off twice.  What a request is given then is the
  template of a ready entry, which no gate holds back.
-/

namespace TextTemplate.Catalog

/-! ### Terms of every run -/

/-- What can be said of every run, whatever the store gives and whatever is asked for or cancelled:
    a chain that becomes ready begins with its name's template, and goes on with the ancestor that
    this template names.  Whether loads are lost, be it that they are cancelled before they begin or
    that they end with what no error is made of, and whether those who wait are sent away, is left
    open. -/
def Terms.ofEveryRun (lost away : Prop) : Terms where
  fetched _ fetched := fetched.escapes = true → lost
  document _ _ := True
  ready name chain := chain.template.name = name ∧
    chain.ancestor?.map (·.template.name) = chain.template.document.parent?
  failed _ _ := True
  runsLate := True
  cancelsLoads := lost
  breaksOff := True
  sendsAway := away
  strands := lost

theorem Terms.closed_ofEveryRun (lost away : Prop) (rules : Markup.Rules)
    (limit? : Option TimeLimit) : (Terms.ofEveryRun lost away).Closed rules limit? where
  read _ _ _ _ _ := trivial
  unreadable _ _ _ _ _ := trivial
  unfetched _ _ _ _ _ := trivial
  topmost _ _ _ hnone := ⟨rfl, hnone.symm⟩
  derived _ _ _ _ _ hparent hready := ⟨rfl, (congrArg some hready.1).trans hparent.symm⟩
  fatherless _ _ _ _ _ _ _ := trivial
  circular _ _ _ := trivial
  late _ _ _ := trivial
  begun _ := trivial
  brokenOff _ _ := nofun
  cancelled _ _ := trivial
  sentAway _ _ _ := trivial
  impatient _ _ _ := trivial
  skipped := id
  escaped _ hfetched := hfetched rfl

theorem Terms.allows_ofEveryRun {away : Prop} {a : Action}
    (ha : ∀ name, a = .cancelWaiters name → away) : (Terms.ofEveryRun True away).Allows a := by
  cases a with
  | cancelWaiters name => exact ha name rfl
  | turn store => exact fun _ _ => trivial
  | _ => trivial

/-- The invariant holds in every run, and every template comes from a ready entry. -/
theorem sound_of_run (rules : Markup.Rules) (limit? : Option TimeLimit) (actions : List Action)
    {away : Prop} (haway : ∀ name, .cancelWaiters name ∈ actions → away) :
    Sound (.ofEveryRun True away) (cancelledBy actions) {} ((empty rules limit?).after actions) ∧
      ((empty rules limit?).after actions).Backed := by
  have hclosed := Terms.closed_ofEveryRun True away rules limit?
  have hallows : ∀ a ∈ actions, (Terms.ofEveryRun True away).Allows a := by
    intro a ha
    exact Terms.allows_ofEveryRun fun name heq => haway name (heq ▸ ha)
  refine ⟨sound_after hclosed hallows, ?_⟩
  exact ((Sound.empty hclosed).later_after (backed_empty rules limit?) hallows).2

/-! ### Counting down -/

/-- If the entry counts down now and nothing is left, then its text has been read. -/
def MayCountDown (c : Catalog) (e : EntryId) : Prop :=
  ∀ a, c.entries[e]? = some a → a.isLoading = true → a.pending ≤ 1 → a.document?.isSome = true

/-- The catalog when a text has been read and its ancestor asked for, and the entry has yet to count
    the text off. -/
def entered (c : Catalog) (e : EntryId) (name text : String) (document : Markup.Document) :
    Catalog :=
  let remarks := (Markup.Document.read c.rules text).remarks
  let c := (c.note (.fetched name text.length :: remarks.map (.doubtful name))).note
    [.parsed name document]
  let c := c.modifyEntry e fun entry => { entry with document? := some document }
  match document.parent? with
  | none => c
  | some ancestor =>
    (c.modifyEntry e fun entry => { entry with pending := entry.pending + 1 }).requestAncestor e
      name ancestor

theorem readText_eq_countDown {c : Catalog} {e : EntryId} {name text : String}
    {document : Markup.Document} (h : (Markup.Document.read c.rules text).result = .ok document) :
    c.readText e name text = (c.entered e name text document).countDown e := by
  unfold readText entered
  simp only [h]
  cases document.parent? <;> rfl

/-- A change that is not seen in what an entry has read. -/
theorem document?_modify {entries : List Entry} {x i : EntryId} {a : Entry} {f : Entry → Entry}
    (ha : entries[x]? = some a) (hf : i = x → (f a).document? = a.document?) :
    ∃ b, (entries.modify i f)[x]? = some b ∧ b.document? = a.document? := by
  refine ⟨if i = x then f a else a, by simp [List.getElem?_modify, ha], ?_⟩
  split
  · next hix => exact hf hix
  · rfl

/-- Entries keep what they have read while one of them asks for its ancestor. -/
theorem document?_requestAncestor {c : Catalog} {e x : EntryId} {a : Entry} {name ancestor : String}
    (ha : c.entries[x]? = some a) : ∃ b,
      (c.requestAncestor e name ancestor).entries[x]? = some b ∧ b.document? = a.document? := by
  unfold requestAncestor
  split
  · unfold fail
    split
    · exact ⟨a, ha, rfl⟩
    · next old hold =>
      split
      · dsimp only [settle, note]
        rw [set_eq_modify]
        refine document?_modify ha fun hex => ?_
        rw [hex, ha] at hold
        rw [Option.some.inj hold]
      · exact ⟨a, ha, rfl⟩
  · have hkept := ensure_kept ha ancestor
    generalize c.ensure ancestor = ensured at hkept
    obtain ⟨i, c'⟩ := ensured
    dsimp only
    split
    · exact ⟨a, hkept, rfl⟩
    · exact document?_modify hkept fun _ => rfl

/-- An entry that has just been read may count its text off. -/
theorem mayCountDown_entered {c : Catalog} {e : EntryId} {a : Entry}
    (ha : c.entries[e]? = some a) (name text : String) (document : Markup.Document) :
    (c.entered e name text document).MayCountDown e := by
  have hread : ∃ b, (c.entered e name text document).entries[e]? = some b ∧
      b.document? = some document := by
    unfold entered
    dsimp only [note, modifyEntry]
    split
    · exact ⟨{ a with document? := some document }, by simp [ha], rfl⟩
    · let b : Entry := { a with document? := some document, pending := a.pending + 1 }
      exact document?_requestAncestor (a := b) (by simp [ha, b])
  obtain ⟨b, hb, hdocument⟩ := hread
  intro b' hb' _ _
  rw [hb] at hb'
  obtain rfl := Option.some.inj hb'
  rw [hdocument]
  rfl

namespace Sound

variable {t : Terms} {lost away : Prop} {cancelled : List RequestId} {hand : Hand} {c : Catalog}

/-- An entry that a gate holds back has more to count, or has been read. -/
theorem mayCountDown_of_gate (h : Sound t cancelled hand c) {g : GateId} {gate : Gate}
    (hg : c.gates[g]? = some gate) (hholds : gate.holdsBack = true)
    (hclosed : gate.released = false) : c.MayCountDown gate.entry := by
  intro a ha hloading hle
  -- The closed gate is counted, so at one there is nothing else.
  have hbars : 0 < barriers c.gates gate.entry := by
    refine List.countP_pos_iff.2 ⟨gate, List.mem_of_getElem? hg, ?_⟩
    simp [Gate.bars, hholds, hclosed]
  have hpending := h.ticks.pending _ a ha hloading
  have hdue : a.due = 0 := by omega
  obtain ⟨document, hdocument, -⟩ := Entry.of_due_eq_zero hdue
  rw [hdocument]
  rfl

/-- An entry that learns of its ancestor has been read, for its text has named the ancestor. -/
theorem mayCountDown_of_link (h : Sound t cancelled hand c) {e : EntryId} {outcome : Outcome}
    (hjob : .link e outcome ∈ c.jobs) (chain : Chain) :
    (c.modifyEntry e fun entry => { entry with ancestor? := some chain }).MayCountDown e := by
  obtain ⟨a, p, ha, -, hparent, -⟩ := entry_of_awaitsAncestor (h.ties.awaits_of_link hjob)
  obtain ⟨document, hdocument, -⟩ := Option.bind_eq_some_iff.1 hparent
  intro b hb _ _
  obtain ⟨a', ha', rfl⟩ := getElem?_of_getElem?_modify hb
  rw [ha] at ha'
  obtain rfl := Option.some.inj ha'
  rw [if_pos rfl, hdocument]
  rfl

/-- A ready entry waits for nothing, and every other entry lacks something. -/
theorem ready_iff (h : Sound t cancelled {} c) {e : EntryId} {a : Entry}
    (ha : c.entries[e]? = some a) :
    (∃ chain, a.status = .ready chain) ↔ a.due + barriers c.gates e = 0 := by
  have hsettled := h.settled e a ha
  constructor
  · rintro ⟨chain, hs⟩
    exact (hsettled.ready chain hs).1
  · intro hnone
    cases hs : a.status with
    | ready chain => exact ⟨chain, rfl⟩
    | failed error =>
      have := hsettled.failed error hs
      omega
    | loading =>
      have hloading : a.isLoading = true := by simp [Entry.isLoading, hs]
      have hpending := h.ticks.pending e a ha hloading
      have hpositive := h.ticks.positive e a ha hloading
      rw [List.count_nil] at hpending
      omega

/-- A ready entry's chain begins with its own template, and goes on with the ancestor that it
    names. -/
theorem chain_of_ready (h : Sound (.ofEveryRun lost away) cancelled {} c) {e : EntryId} {a : Entry}
    {chain : Chain} (ha : c.entries[e]? = some a) (hs : a.status = .ready chain) :
    chain.template.name = a.name ∧ chain.ancestor?.map (·.template.name) = a.parent? := by
  obtain ⟨hname, hancestor⟩ := (h.faithful.entry a (List.mem_of_getElem? ha)).ready chain hs
  obtain ⟨-, document, hdocument, hchain⟩ := (h.settled e a ha).ready chain hs
  refine ⟨hname, hancestor.trans ?_⟩
  -- The chain was made of what the entry has read.
  rw [hchain, Entry.parent?, hdocument]
  cases a.ancestor? <;> rfl

/-- The template that a request gets comes from a ready entry of its name, which no gate holds
    back. -/
theorem source_of_answer (h : Sound (.ofEveryRun lost away) cancelled {} c) (hbacked : c.Backed)
    {r : RequestId} {chain : Chain}
    (hr : (r, .ready chain) ∈ c.answers ∨ .answer r (.ready chain) ∈ c.jobs) :
    ∃ e a, c.entries[e]? = some a ∧ a.status = .ready chain ∧ c.requestName? r = some a.name ∧
      barriers c.gates e = 0 := by
  have hanswers : (Terms.ofEveryRun lost away).Answers cancelled c.awaitedName? (.request r)
      (.ready chain) := by
    rcases hr with hr | hr
    · exact h.faithful.answer _ hr
    · exact h.faithful.job _ hr
  have hsource : ∃ e, c.outcome? e = some (.ready chain) := by
    rcases hr with hr | hr
    · exact hbacked.answer r chain hr
    · exact hbacked.job (.request r) chain hr
  obtain ⟨name, hname, hhead, -⟩ := hanswers
  obtain ⟨e, he⟩ := hsource
  obtain ⟨a, ha, -, hs⟩ := status_of_outcome? he
  have hready := Status.eq_ready_of_outcome? hs
  refine ⟨e, a, ha, hready, ?_, ?_⟩
  · rw [← (h.chain_of_ready ha hready).1, hhead]
    exact hname
  · have := (h.ready_iff ha).1 ⟨chain, hready⟩
    omega

end Sound

/-! ### Gates -/

/-- The entry of a name is listed under it. -/
theorem ensure_listed (c : Catalog) (name : String) : ∃ a,
    (c.ensure name).2.entries[(c.ensure name).1]? = some a ∧ a.name = name ∧ a.listed = true := by
  unfold ensure
  cases hfind : c.find? name with
  | some e =>
    obtain ⟨a, ha, hlisted, hname⟩ := listed_of_find? hfind
    exact ⟨a, ha, hname, hlisted⟩
  | none => exact ⟨.fresh name, by simp, rfl, rfl⟩

theorem countDown_gates (c : Catalog) (e : EntryId) : (c.countDown e).gates = c.gates := by
  unfold countDown
  repeat' split
  all_goals rfl

/-- A new gate stands at the entry that is listed under its name, and holds it back if it is
    loading. -/
theorem gates_gate (c : Catalog) (name : String) : ∃ e a,
    (c.gate name).2.entries[e]? = some a ∧ a.name = name ∧ a.listed = true ∧
      (c.gate name).2.gates[c.gates.length]? = some ⟨e, a.isLoading, false, []⟩ := by
  have hgates := (ensure_requests c name).2
  obtain ⟨a, ha, hname, hlisted⟩ := ensure_listed c name
  unfold gate
  generalize c.ensure name = ensured at hgates ha
  obtain ⟨e, c'⟩ := ensured
  dsimp only at hgates ha ⊢
  by_cases hloading : a.isLoading = true
  · have hnone := (outcome?_eq_none_iff ha).2 hloading
    let b : Entry := { a with pending := a.pending + 1 }
    have hb : b.isLoading = true := hloading
    simp only [hnone, Option.isNone_none, if_true, modifyEntry]
    exact ⟨e, b, by simp [ha, b], hname, hlisted, by simp [hgates, hb]⟩
  · have hsome : (c'.outcome? e).isNone = false := by
      rw [← Bool.not_eq_true, Option.isNone_iff_eq_none, outcome?_eq_none_iff ha]
      exact hloading
    simp only [hsome]
    exact ⟨e, a, ha, hname, hlisted, by simp [hgates, hloading]⟩

/-- A gate that is open cannot be opened again, and nothing comes of it. -/
theorem release_of_released {c : Catalog} {g : GateId} {gate : Gate} {a : Entry}
    (hg : c.gates[g]? = some gate) (hopen : gate.released = true)
    (ha : c.entries[gate.entry]? = some a) :
    c.release g = .error (.alreadyReleased a.name) ∧ c.step (.release g) = c := by
  have hrelease : c.release g = .error (.alreadyReleased a.name) := by
    unfold release
    simp only [hg, hopen, if_true, ha, Option.elim_some]
  refine ⟨hrelease, ?_⟩
  show (c.release g).toOption.getD c = c
  rw [hrelease]
  rfl

/-- A gate that was told to open is open. -/
theorem gates_release {c : Catalog} {g : GateId} {gate : Gate} (hg : c.gates[g]? = some gate) :
    ∃ opened, (c.step (.release g)).gates[g]? = some opened ∧ opened.entry = gate.entry ∧
      opened.released = true := by
  have hlt : g < c.gates.length := (List.getElem?_eq_some_iff.1 hg).1
  show ∃ opened, ((c.release g).toOption.getD c).gates[g]? = some opened ∧ _
  unfold release
  simp only [hg]
  split
  · next hopen => exact ⟨gate, hg, rfl, hopen⟩
  · refine ⟨{ gate with released := true, waiters := [] }, ?_, rfl, rfl⟩
    dsimp only [Except.toOption, Option.getD_some]
    split
    · rw [countDown_gates]
      exact List.getElem?_set_self hlt
    · exact List.getElem?_set_self hlt

/-! ### The count in every run -/

/-- What the count of a catalog's entries says, and what gates have to do with it. -/
structure Counted (c : Catalog) : Prop where
  /-- A loading entry counts its own text until that has been read, its ancestor from then on until
      that is there, and each closed gate that holds it back; so it always counts something. -/
  pending : ∀ (e : EntryId) (a : Entry), c.entries[e]? = some a → a.isLoading = true →
    a.pending = a.due + barriers c.gates e ∧ 1 ≤ a.pending
  /-- An entry is ready as soon as nothing of this is left, and not before. -/
  ready : ∀ (e : EntryId) (a : Entry), c.entries[e]? = some a →
    ((∃ chain, a.status = .ready chain) ↔ a.due + barriers c.gates e = 0)
  /-- A ready entry has the template of its name, with an ancestor exactly if it names one, and
      then with the one that it names. -/
  chain : ∀ (e : EntryId) (a : Entry) (chain : Chain), c.entries[e]? = some a →
    a.status = .ready chain →
    chain.template.name = a.name ∧ chain.ancestor?.map (·.template.name) = a.parent?
  /-- An entry that counts down has been read if nothing is left: when a gate opens, when it learns
      of its ancestor, and when it counts its own text off. -/
  opens : ∀ (g : GateId) (gate : Gate), c.gates[g]? = some gate → gate.holdsBack = true →
    gate.released = false → c.MayCountDown gate.entry
  links : ∀ (e : EntryId) (chain : Chain), .link e (.ready chain) ∈ c.jobs →
    (c.modifyEntry e fun entry => { entry with ancestor? := some chain }).MayCountDown e
  reads : ∀ (e : EntryId) (a : Entry) (text : String) (document : Markup.Document),
    c.entries[e]? = some a → (Markup.Document.read c.rules text).result = .ok document →
    c.readText e a.name text = (c.entered e a.name text document).countDown e ∧
      (c.entered e a.name text document).MayCountDown e
  /-- A request gets the template of a ready entry of its name, and none that a closed gate holds
      back. -/
  given : ∀ (r : RequestId) (chain : Chain),
    (r, .ready chain) ∈ c.answers ∨ .answer r (.ready chain) ∈ c.jobs →
    ∃ e a, c.entries[e]? = some a ∧ a.status = .ready chain ∧ c.requestName? r = some a.name ∧
      barriers c.gates e = 0
  /-- A gate that is put at a name holds the name's entry back exactly if that is loading, and
      whatever happens later, it is this entry that it was put at and was to hold back or not. -/
  taken : ∀ (name : String) (later : List Action), ∃ e a gate,
    (c.step (.gate name)).entries[e]? = some a ∧ a.name = name ∧ a.listed = true ∧
      (c.step (.gate name)).gates[c.gates.length]? = some ⟨e, a.isLoading, false, []⟩ ∧
      ((c.step (.gate name)).after later).gates[c.gates.length]? = some gate ∧
      gate.entry = e ∧ gate.holdsBack = a.isLoading
  /-- A gate that was opened cannot be opened again at any later time: this is an error that names
      the gate's template, and changes nothing. -/
  reopened : ∀ (g : GateId) (gate : Gate) (later : List Action), c.gates[g]? = some gate →
    ∃ a, c.entries[gate.entry]? = some a ∧
      ((c.step (.release g)).after later).release g = .error (.alreadyReleased a.name) ∧
      ((c.step (.release g)).after later).step (.release g) = (c.step (.release g)).after later

/-- After any actions in any order, entries have counted what they wait for. -/
theorem counted_after (rules : Markup.Rules) (limit? : Option TimeLimit) (actions : List Action) :
    Counted ((empty rules limit?).after actions) := by
  obtain ⟨hsound, hbacked⟩ := sound_of_run rules limit? actions fun _ _ => trivial
  generalize (empty rules limit?).after actions = c at hsound hbacked
  have hallows (a : Action) : (Terms.ofEveryRun True True).Allows a :=
    Terms.allows_ofEveryRun fun _ _ => trivial
  have hlater : ∀ (a : Action) (later : List Action),
      Later (c.step a) ((c.step a).after later) := by
    intro a later
    have hstep := hsound.step a ((hallows a).permits c)
    exact (hstep.later_after (hsound.later_step hbacked a).2 fun x _ => hallows x).1
  constructor
  case pending =>
    intro e a ha hloading
    have hpending := hsound.ticks.pending e a ha hloading
    rw [List.count_nil, Nat.add_zero] at hpending
    exact ⟨hpending, hsound.ticks.positive e a ha hloading⟩
  case ready => exact fun e a => hsound.ready_iff
  case chain => exact fun e a chain => hsound.chain_of_ready
  case opens => exact fun g gate => hsound.mayCountDown_of_gate
  case links => exact fun e chain hjob => hsound.mayCountDown_of_link hjob chain
  case reads =>
    exact fun e a text document ha hresult =>
      ⟨readText_eq_countDown hresult, mayCountDown_entered ha a.name text document⟩
  case given => exact fun r chain => hsound.source_of_answer hbacked
  case taken =>
    intro name later
    obtain ⟨e, a, ha, hname, hlisted, hg⟩ := gates_gate c name
    obtain ⟨gate, hgate, hentry, hholds, -⟩ := (hlater (.gate name) later).gate _ _ hg
    exact ⟨e, a, gate, ha, hname, hlisted, hg, hgate, hentry, hholds⟩
  case reopened =>
    intro g gate later hg
    have hlt := hsound.gates.entry_lt gate (List.mem_of_getElem? hg)
    have ha : c.entries[gate.entry]? = some c.entries[gate.entry] := List.getElem?_eq_getElem hlt
    -- The gate is open after it was told to, and stays open at the entry of this name.
    obtain ⟨opened, hopened, hentry, hopen⟩ := gates_release hg
    obtain ⟨gate', hg', hentry', -, hopen'⟩ := (hlater (.release g) later).gate _ _ hopened
    have hkept := (hsound.later_step hbacked (.release g)).1.trans (hlater (.release g) later)
    obtain ⟨b, hb, hname, -⟩ := hkept.entry _ _ ha
    refine ⟨_, ha, ?_⟩
    rw [← hname]
    refine release_of_released hg' (hopen' hopen) ?_
    rw [hentry', hentry]
    exact hb

/-- A gate is put at a template, which is asked for and read. -/
def gatedRun : List Action :=
  .gate "a" :: .request (.template "a") :: List.replicate 3 (.turn fun _ => ⟨.text "hi", none⟩)

/-- The template is ready when the gate is opened. -/
example : ((empty .default none).after gatedRun).entries.map
      (fun entry => (entry.status.text, entry.pending)) = [("loading", 1)] ∧
    ((empty .default none).after (gatedRun ++ [.release 0])).entries.map
      (fun entry => (entry.status.text, entry.pending)) = [("ready", 0)] := by decide +kernel

end TextTemplate.Catalog
