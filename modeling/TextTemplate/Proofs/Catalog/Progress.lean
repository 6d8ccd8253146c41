import Mathlib.Data.Fintype.EquivFin
import Mathlib.Order.WellFounded
import TextTemplate.Proofs.Catalog.Running

/-! # Nobody waits for ever

  A catalog is at rest when no job is queued, no fetch waits for the store and
  every gate is open.  In a catalog at rest every loading entry would wait for
  its ancestor, which would be loading as well, and so on for ever; but there are
  finitely many entries, and they never wait for each other in a circle.  So no
  entry is loading, and every request has its answer.

  The store may give any text or error whenever it is asked, another one each
  time, and fetches may run out of time.  Only loads must not be cancelled, nor
  end with an exception of which no error is made.
-/

namespace TextTemplate.Catalog

open Relation

/-- Nothing is queued, nothing is fetched, and no gate is closed. -/
structure AtRest (c : Catalog) : Prop where
  jobs : c.jobs = []
  postponed : c.postponed = []
  released : ∀ gate ∈ c.gates, gate.released = true

namespace Sound

variable {t : Terms} {cancelled : List RequestId} {c : Catalog}

/-- A catalog at rest has no load left. -/
theorem no_load (h : Sound t cancelled {} c) (hrest : AtRest c) : ∀ load, load ∉ c.loads := by
  intro load hload
  have hloads := h.loads
  have hstirs := h.stirs
  rw [hrest.jobs, hrest.postponed] at hloads
  rw [hrest.jobs] at hstirs
  -- A fetch that is not over has an errand somewhere, and one that is over will be told.
  cases hfetched : load.fetched? with
  | none => exact List.not_mem_nil (hloads.has_errand load hload hfetched)
  | some fetched =>
    have hlimit : c.limit? ≠ none := by
      intro hnone
      rw [(hloads.unlimited hnone).2 load hload] at hfetched
      cases hfetched
    cases hasleep : load.asleep with
    | false => exact List.not_mem_nil (hstirs.awake load hload hlimit hasleep)
    | true =>
      refine List.not_mem_nil (hstirs.reported load hload hasleep ?_)
      rw [hfetched]
      exact nofun

/-- In a catalog at rest a loading entry awaits its ancestor. -/
theorem awaitsAncestor_of_loading (h : Sound t cancelled {} c) (hkept : ¬ t.strands)
    (hrest : AtRest c) {e : EntryId} {a : Entry} (ha : c.entries[e]? = some a)
    (hloading : a.isLoading = true) : a.awaitsAncestor = true := by
  have hread : a.document?.isNone.toNat = 0 := by
    cases hdoc : a.document? with
    | some document => rfl
    | none =>
      rcases h.attended hkept e a ha hloading hdoc with hmem | ⟨load, hload, -⟩
      · cases hmem
      · exact absurd hload (h.no_load hrest load)
  have hopen : barriers c.gates e = 0 := by
    unfold barriers
    apply List.countP_eq_zero.2
    intro gate hgate
    simp [Gate.bars, hrest.released gate hgate]
  -- Something is counted still, and it is neither the text nor a gate.
  have hpending := h.ticks.pending e a ha hloading
  have hpositive := h.ticks.positive e a ha hloading
  rw [hopen, Entry.due, hread] at hpending
  unfold Entry.awaitsAncestor
  rw [hloading, Bool.true_and]
  cases hties : a.parent?.isSome && a.ancestor?.isNone with
  | true => rfl
  | false =>
    rw [hties] at hpending
    simp at hpending
    omega

/-- In a catalog at rest a loading entry waits for another one. -/
theorem waitsFor_of_loading (h : Sound t cancelled {} c) (hkept : ¬ t.strands)
    (hrest : AtRest c) {e : EntryId} {a : Entry} (ha : c.entries[e]? = some a)
    (hloading : a.isLoading = true) :
    ∃ f b, c.entries[f]? = some b ∧ b.isLoading = true ∧ WaitsFor c.entries e f := by
  have hties := h.ties e
  rw [awaitsAncestor_of_getElem? ha, h.awaitsAncestor_of_loading hkept hrest ha hloading,
    hrest.jobs] at hties
  -- With no job queued, the entry's tie can only stand in a list of waiters.
  have hmem : .descendant e ∈ c.entries.flatMap (·.waiters) := by
    apply List.count_pos_iff.1
    simp only [awaiting, List.filterMap_nil, List.append_nil, List.count_nil, Nat.add_zero,
      Bool.toNat_true] at hties
    omega
  obtain ⟨b, hb, hwaits⟩ := List.mem_flatMap.1 hmem
  obtain ⟨f, hf⟩ := List.getElem?_of_mem hb
  refine ⟨f, b, hf, ?_, b, hf, hwaits⟩
  by_contra hsettled
  have hnone := h.listing.no_waiters f b hf (by simpa using hsettled)
  rw [hnone] at hwaits
  cases hwaits

/-- In a catalog at rest no entry is loading. -/
theorem settled_of_atRest (h : Sound t cancelled {} c) (hkept : ¬ t.strands)
    (hrest : AtRest c) {e : EntryId} {a : Entry} (ha : c.entries[e]? = some a) :
    a.isLoading = false := by
  by_contra hsettled
  have hloading : a.isLoading = true := by simpa using hsettled
  -- The entries, ordered by who waits for whom, however far.
  let below : Fin c.entries.length → Fin c.entries.length → Prop :=
    fun f e => TransGen (WaitsFor c.entries) e f
  have : IsTrans _ below := ⟨fun _ _ _ hxy hyz => hyz.trans hxy⟩
  have : Std.Irrefl below := ⟨fun e he => h.acyclic e he⟩
  have hwf : WellFounded below := Finite.wellFounded_of_trans_of_irrefl below
  have hlt : e < c.entries.length := (List.getElem?_eq_some_iff.1 ha).1
  -- An entry that waits for none that is loading would still wait for one.
  obtain ⟨m, hm, hmin⟩ := hwf.has_min {i | (c.entries[i]).isLoading = true} ⟨⟨e, hlt⟩, by
    rw [List.getElem?_eq_getElem hlt] at ha
    obtain rfl := Option.some.inj ha
    exact hloading⟩
  obtain ⟨f, b, hf, hb, hwaits⟩ :=
    h.waitsFor_of_loading hkept hrest (List.getElem?_eq_getElem m.2) hm
  obtain ⟨hflt, rfl⟩ := List.getElem?_eq_some_iff.1 hf
  exact hmin ⟨f, hflt⟩ hb (.single hwaits)

/-- In a catalog at rest every request that was not cancelled has its answer. -/
theorem answered_of_atRest (h : Sound t cancelled {} c) (hkept : ¬ t.strands)
    (hrest : AtRest c) {r : RequestId} (hr : r < c.requests.length) (hkeptRequest : r ∉ cancelled) :
    ∃ outcome, (r, outcome) ∈ c.answers := by
  have hplaces := h.requests r hkeptRequest
  have hentries : c.entries.flatMap (·.waiters) = [] := by
    apply List.flatMap_eq_nil_iff.2
    intro a ha
    obtain ⟨e, he⟩ := List.getElem?_of_mem ha
    exact h.listing.no_waiters e a he (h.settled_of_atRest hkept hrest he)
  have hgates : c.gates.flatMap (·.waiters) = [] := by
    apply List.flatMap_eq_nil_iff.2
    intro gate hgate
    exact h.gates.no_waiters gate hgate (hrest.released gate hgate)
  unfold places awaiting at hplaces
  rw [hentries, hgates, hrest.jobs, if_pos hr] at hplaces
  -- All other places are empty.
  have hmem : r ∈ c.answers.map (·.1) := by
    apply List.count_pos_iff.1
    simp at hplaces
    omega
  obtain ⟨⟨_, outcome⟩, hanswer, rfl⟩ := List.mem_map.1 hmem
  exact ⟨outcome, hanswer⟩

end Sound

/-! ### Runs -/

/-- What can be said without knowing anything of the store, but whether loads may end with what no
    error is made of. -/
def Terms.ofAnyStore (strands : Prop) : Terms where
  fetched _ fetched := fetched.escapes = true → strands
  document _ _ := True
  ready _ _ := True
  failed _ _ := True
  runsLate := True
  cancelsLoads := False
  breaksOff := False
  sendsAway := False
  strands := strands

theorem Terms.closed_ofAnyStore (strands : Prop) (rules : Markup.Rules)
    (limit? : Option TimeLimit) : (Terms.ofAnyStore strands).Closed rules limit? where
  read _ _ _ _ _ := trivial
  unreadable _ _ _ _ _ := trivial
  unfetched _ _ _ _ _ := trivial
  topmost _ _ _ _ := trivial
  derived _ _ _ _ _ _ _ := trivial
  fatherless _ _ _ _ _ _ _ := trivial
  circular _ _ _ := trivial
  late _ _ _ := trivial
  begun := False.elim
  brokenOff _ _ := nofun
  cancelled _ _ := trivial
  sentAway _ _ _ := trivial
  impatient _ _ _ := trivial
  skipped := False.elim
  escaped _ hfetched := hfetched rfl

/-- Does the action leave loads and waiters alone? -/
def Action.LeavesLoads : Action → Prop
  | .cancelLoads _ | .cancelWaiters _ => False
  | _ => True

/-- Does the store give nothing but texts and what errors are made of? -/
def Action.NoneEscapes : Action → Prop
  | .turn replies => ∀ name, (replies name).fetched.escapes = false
  | _ => True

theorem Action.LeavesLoads.allowed {a : Action} (h : a.LeavesLoads) {strands : Prop}
    (hreplies : a.NoneEscapes ∨ strands) : (Terms.ofAnyStore strands).Allows a := by
  cases a with
  | turn replies =>
    refine fun name hescapes => hreplies.resolve_left fun hnone => ?_
    rw [hnone name] at hescapes
    cases hescapes
  | cancelLoads | cancelWaiters => exact h
  | _ => trivial

/-- Whatever the store answers and whatever is asked of a catalog in whichever order, its entries
    never wait for each other in a circle; and when it comes to rest, and the store has given texts
    and errors only, then no entry is loading and every request that was not cancelled has an answer
    other than that it was. -/
theorem no_deadlock (rules : Markup.Rules) (limit? : Option TimeLimit) {actions : List Action}
    (hactions : ∀ a ∈ actions, a.LeavesLoads) :
    (∀ e, ¬ TransGen (WaitsFor ((empty rules limit?).after actions).entries) e e) ∧
    ((∀ a ∈ actions, a.NoneEscapes) → AtRest ((empty rules limit?).after actions) →
      (∀ entry ∈ ((empty rules limit?).after actions).entries, entry.isLoading = false) ∧
      ∀ r < ((empty rules limit?).after actions).requests.length, .cancel r ∉ actions →
        ∃ outcome, (r, outcome) ∈ ((empty rules limit?).after actions).answers ∧
          outcome ≠ .cancelled) := by
  have hany := sound_after (Terms.closed_ofAnyStore True rules limit?) fun a ha =>
    (hactions a ha).allowed (.inr trivial)
  refine ⟨hany.acyclic, fun hreplies hrest => ?_⟩
  have hsound := sound_after (Terms.closed_ofAnyStore False rules limit?) fun a ha =>
    (hactions a ha).allowed (.inl (hreplies a ha))
  refine ⟨fun entry hentry => ?_, fun r hr hkept => ?_⟩
  · obtain ⟨e, he⟩ := List.getElem?_of_mem hentry
    exact hsound.settled_of_atRest id hrest he
  · have hnot : r ∉ cancelledBy actions := fun hmem => hkept (mem_cancelledBy.1 hmem)
    obtain ⟨outcome, hanswer⟩ := hsound.answered_of_atRest id hrest hr hnot
    refine ⟨outcome, hanswer, ?_⟩
    rintro rfl
    obtain ⟨name, -, hlost⟩ := hsound.faithful.answer _ hanswer
    exact hlost.elim hnot id

/-- A store whose templates `a` and `b` extend each other. -/
def circleStore (name : String) : Fetched :=
  .text (if name = "a" then "{% extends b %}" else "{% extends a %}")

/-- Requests for both templates of the circle, and enough turns for their answers. -/
def circleRun : List Action :=
  .request (.template "a") :: .request (.template "b") ::
    List.replicate 8 (.turn fun name => ⟨circleStore name, none⟩)

/-- The requests of `circleRun` are answered, although their templates form a circle. -/
theorem circleRun_answered :
    ¬ TransGen (WaitsFor ((empty .default none).after circleRun).entries) 0 0 ∧
    AtRest ((empty .default none).after circleRun) ∧
    (∀ entry ∈ ((empty .default none).after circleRun).entries, entry.isLoading = false) ∧
    ∀ r < 2, ∃ outcome, (r, outcome) ∈ ((empty .default none).after circleRun).answers ∧
      outcome ≠ .cancelled := by
  have hturns : ∀ a ∈ circleRun, a.LeavesLoads ∧ a.NoneEscapes ∧ ∀ r, a ≠ .cancel r := by
    intro a ha
    rcases List.mem_cons.1 ha with rfl | ha
    · exact ⟨trivial, trivial, nofun⟩
    rcases List.mem_cons.1 ha with rfl | ha
    · exact ⟨trivial, trivial, nofun⟩
    obtain rfl := List.eq_of_mem_replicate ha
    exact ⟨trivial, fun _ => rfl, nofun⟩
  have hjobs : ((empty .default none).after circleRun).jobs.isEmpty = true := by decide +kernel
  have hpostponed : ((empty .default none).after circleRun).postponed = [] := by decide +kernel
  have hgates : ((empty .default none).after circleRun).gates.isEmpty = true := by decide +kernel
  have hrest : AtRest ((empty .default none).after circleRun) := by
    refine ⟨List.isEmpty_iff.1 hjobs, hpostponed, fun gate hgate => ?_⟩
    rw [List.isEmpty_iff.1 hgates] at hgate
    cases hgate
  have hlength : ((empty .default none).after circleRun).requests.length = 2 := by decide +kernel
  obtain ⟨hacyclic, hresting⟩ := no_deadlock .default none fun a ha => (hturns a ha).1
  obtain ⟨hsettled, hanswered⟩ := hresting (fun a ha => (hturns a ha).2.1) hrest
  refine ⟨hacyclic 0, hrest, hsettled, fun r hr => hanswered r (hlength ▸ hr) fun hmem => ?_⟩
  exact (hturns _ hmem).2.2 r rfl

/-- A template for which the store gives an exception of which no error is made loads for ever. -/
example :
    let c := (empty .default none).after
      (.request (.template "a") :: List.replicate 3 (.turn fun _ => ⟨.escaping, none⟩))
    c.jobs.isEmpty = true ∧ c.loads.isEmpty = true ∧ c.entries.map (·.isLoading) = [true] := by
  decide +kernel

end TextTemplate.Catalog
