import TextTemplate.Proofs.Catalog.Running

/-! # The store alone decides the answers

  A store that does not change gives every name a text or an error for good.
  The ancestors of a name, followed from text to text, then end at a topmost
  template or they do not: `Lineage` is the list of those that are met.  Whatever
  is asked of the catalog meanwhile and in whichever order fetches end, a request
  gets the chain of its name's lineage, and an error only if there is none.
-/

namespace TextTemplate.Catalog

/-! ### Lineages -/

section lineage

variable (rules : Markup.Rules) (store : String → Fetched)

/-- The document that a store's text for a name writes. -/
def documentOf? (name : String) : Option Markup.Document :=
  match store name with
  | .text text => (Markup.Document.read rules text).result.toOption
  | _ => none

/-- A name's template and its ancestors, the topmost one last, each as the store has it. -/
inductive Lineage : String → List Layer → Prop where
  | topmost {name : String} {document : Markup.Document} :
      documentOf? rules store name = some document → document.parent? = none →
      Lineage name [⟨name, document⟩]
  | derived {name parent : String} {document : Markup.Document} {ancestors : List Layer} :
      documentOf? rules store name = some document → document.parent? = some parent →
      Lineage parent ancestors → Lineage name (⟨name, document⟩ :: ancestors)

/-- The ancestors of a name end at a topmost template, and none is met twice. -/
def IsGood (name : String) : Prop :=
  ∃ layers, Lineage rules store name layers ∧ (layers.map (·.name)).Nodup

end lineage

theorem documentOf?_of_text {rules : Markup.Rules} {store : String → Fetched} {name text : String}
    (h : store name = .text text) :
    documentOf? rules store name = (Markup.Document.read rules text).result.toOption := by
  unfold documentOf?
  rw [h]

namespace Lineage

variable {rules : Markup.Rules} {store : String → Fetched}

/-- A name with a lineage has a document. -/
theorem document {name : String} {layers : List Layer} (h : Lineage rules store name layers) :
    ∃ document, documentOf? rules store name = some document := by
  cases h with
  | topmost hdoc _ => exact ⟨_, hdoc⟩
  | derived hdoc _ _ => exact ⟨_, hdoc⟩

/-- The lineage of a name that extends another one holds that one's lineage. -/
theorem parent {name parent : String} {document : Markup.Document} {layers : List Layer}
    (h : Lineage rules store name layers) (hdoc : documentOf? rules store name = some document)
    (hparent : document.parent? = some parent) :
    ∃ ancestors, layers = ⟨name, document⟩ :: ancestors ∧ Lineage rules store parent ancestors := by
  cases h with
  | topmost hdoc' hnone =>
    rw [hdoc] at hdoc'
    obtain rfl := Option.some.inj hdoc'
    rw [hparent] at hnone
    cases hnone
  | derived hdoc' hparent' hrest =>
    rw [hdoc] at hdoc'
    obtain rfl := Option.some.inj hdoc'
    rw [hparent] at hparent'
    obtain rfl := Option.some.inj hparent'
    exact ⟨_, rfl, hrest⟩

/-- The store gives a name one lineage at most. -/
theorem unique {name : String} {layers layers' : List Layer} (h : Lineage rules store name layers)
    (h' : Lineage rules store name layers') : layers = layers' := by
  induction h generalizing layers' with
  | topmost hdoc hnone =>
    cases h' with
    | topmost hdoc' _ =>
      rw [hdoc] at hdoc'
      obtain rfl := Option.some.inj hdoc'
      rfl
    | derived hdoc' hparent _ =>
      rw [hdoc] at hdoc'
      obtain rfl := Option.some.inj hdoc'
      rw [hnone] at hparent
      cases hparent
  | derived hdoc hparent _ ih =>
    obtain ⟨ancestors, rfl, hrest⟩ := h'.parent hdoc hparent
    rw [ih hrest]

/-- Every member of a lineage has one of its own, which is no longer. -/
theorem member {name : String} {layers : List Layer} (h : Lineage rules store name layers)
    {layer : Layer} (hmem : layer ∈ layers) :
    ∃ below, Lineage rules store layer.name below ∧ below.length ≤ layers.length := by
  induction h with
  | topmost hdoc hnone =>
    obtain rfl := List.mem_singleton.1 hmem
    exact ⟨_, .topmost hdoc hnone, Nat.le_refl _⟩
  | derived hdoc hparent hrest ih =>
    rcases List.mem_cons.1 hmem with rfl | hmem
    · exact ⟨_, .derived hdoc hparent hrest, Nat.le_refl _⟩
    · obtain ⟨below, hbelow, hle⟩ := ih hmem
      exact ⟨below, hbelow, Nat.le_succ_of_le hle⟩

/-- No name is met twice on the way to the topmost template. -/
theorem nodup {name : String} {layers : List Layer} (h : Lineage rules store name layers) :
    (layers.map (·.name)).Nodup := by
  induction h with
  | topmost => simp
  | derived hdoc hparent hrest ih =>
    rw [List.map_cons, List.nodup_cons]
    refine ⟨fun hmem => ?_, ih⟩
    -- A name that was met again would have a lineage shorter than its own.
    obtain ⟨layer, hlayer, hname⟩ := List.mem_map.1 hmem
    obtain ⟨below, hbelow, hle⟩ := hrest.member hlayer
    rw [hname] at hbelow
    have heq := (Lineage.derived hdoc hparent hrest).unique hbelow
    rw [← heq, List.length_cons] at hle
    exact Nat.not_succ_le_self _ hle

/-- A good name is one with a lineage. -/
theorem isGood {name : String} {layers : List Layer} (h : Lineage rules store name layers) :
    IsGood rules store name := ⟨layers, h, h.nodup⟩

end Lineage

/-! ### Terms of a store -/

/-- What holds in runs on one store, with loads that take what time they need. -/
def Terms.ofStore (rules : Markup.Rules) (store : String → Fetched) : Terms where
  fetched name fetched := fetched = store name
  document name document := documentOf? rules store name = some document
  ready name chain := Lineage rules store name chain.layers
  failed name _ := ¬ IsGood rules store name
  runsLate := False
  cancelsLoads := False
  breaksOff := False
  sendsAway := False
  strands := True

section

variable {rules : Markup.Rules} {store : String → Fetched}

/-- A name without a document is not good. -/
theorem not_isGood_of_documentOf? {name : String} (h : documentOf? rules store name = none) :
    ¬ IsGood rules store name := by
  rintro ⟨layers, hlineage, -⟩
  obtain ⟨document, hdoc⟩ := hlineage.document
  rw [h] at hdoc
  cases hdoc

/-- Every step from a document to the one that it extends makes the lineage shorter. -/
theorem Lineage.shorter {name other : String} {layers : List Layer}
    (h : Lineage rules store name layers)
    (hextends : Relation.TransGen (Terms.ofStore rules store).Extends name other) :
    ∃ below, Lineage rules store other below ∧ below.length < layers.length := by
  induction hextends with
  | single hedge =>
    obtain ⟨document, hdoc, hparent⟩ := hedge
    obtain ⟨ancestors, rfl, hrest⟩ := h.parent hdoc hparent
    exact ⟨ancestors, hrest, Nat.lt_succ_self _⟩
  | tail _ hedge ih =>
    obtain ⟨below, hbelow, hlt⟩ := ih
    obtain ⟨document, hdoc, hparent⟩ := hedge
    obtain ⟨ancestors, rfl, hrest⟩ := hbelow.parent hdoc hparent
    exact ⟨ancestors, hrest, Nat.lt_of_succ_lt hlt⟩

/-- What a catalog makes of a store's texts agrees with their lineages. -/
theorem Terms.closed_ofStore {limit? : Option TimeLimit}
    (hlimit : ∀ limit, limit? = some limit → limit.patience ≠ .none) :
    (Terms.ofStore rules store).Closed rules limit? where
  read name text document htext hresult := by
    show documentOf? rules store name = some document
    rw [documentOf?_of_text (Eq.symm htext), hresult]
    rfl
  unreadable name text fault htext hresult := by
    apply not_isGood_of_documentOf?
    rw [documentOf?_of_text (Eq.symm htext), hresult]
    rfl
  unfetched name fetched error hfetched herror := by
    apply not_isGood_of_documentOf?
    rw [documentOf?, ← show fetched = store name from hfetched]
    cases fetched with
    | text _ | escaping => cases herror
    | fault | timedOut | cancelled | reported | unforeseen => rfl
  topmost name document hdoc hnone := .topmost hdoc hnone
  derived name document parent chain hdoc hparent hready := .derived hdoc hparent hready
  fatherless name document parent error hdoc hparent hfailed := by
    rintro ⟨layers, hlineage, -⟩
    obtain ⟨ancestors, -, hrest⟩ := hlineage.parent hdoc hparent
    exact hfailed hrest.isGood
  circular name path hcircle := by
    rintro ⟨layers, hlineage, -⟩
    -- A way from the name back to it would lead to a lineage shorter than the name's only one.
    obtain ⟨below, hbelow, hlt⟩ := hlineage.shorter hcircle
    rw [hlineage.unique hbelow] at hlt
    exact Nat.lt_irrefl _ hlt
  late := False.elim
  begun := id
  brokenOff h := h.elim False.elim False.elim
  cancelled := False.elim
  sentAway := False.elim
  impatient limit hsome hnone := hlimit limit hsome hnone
  skipped _ := trivial
  escaped _ _ := trivial

/-! ### Answers -/

/-- Does the action leave every fetch its time, every load and every waiter alone, and ask no other
    store? -/
def Action.KeepsTo (store : String → Fetched) : Action → Prop
  | .cancelLoads _ | .cancelWaiters _ | .ring => False
  | .turn replies => ∀ name, (replies name).fetched = store name
  | _ => True

theorem Action.KeepsTo.allowed {a : Action} (h : a.KeepsTo store) :
    (Terms.ofStore rules store).Allows a := by
  cases a with
  | turn replies => exact h
  | cancelLoads | cancelWaiters | ring => exact h
  | _ => trivial

/-- Every request that gets an answer asks for a name, and the store decides which answer it is: a
    template whose chain is the name's lineage, or an error if the name is not good.  Only a request
    that was cancelled is told so. -/
theorem answer_decided_by_store {limit? : Option TimeLimit}
    (hlimit : ∀ limit, limit? = some limit → limit.patience ≠ .none) {actions : List Action}
    (hactions : ∀ a ∈ actions, a.KeepsTo store) {r : RequestId} {outcome : Outcome}
    (hanswer : (r, outcome) ∈ ((empty rules limit?).after actions).answers) :
    ∃ name, ((empty rules limit?).after actions).requestName? r = some name ∧
      match outcome with
      | .ready chain => IsGood rules store name ∧ Lineage rules store name chain.layers
      | .failed _ => ¬ IsGood rules store name
      | .cancelled => .cancel r ∈ actions := by
  have hclosed : (Terms.ofStore rules store).Closed rules limit? := Terms.closed_ofStore hlimit
  -- The invariant on the terms of the store says it of every answer that was given.
  have hsound := sound_after hclosed fun a ha => (hactions a ha).allowed
  obtain ⟨name, hname, hgives⟩ := hsound.faithful.answer _ hanswer
  refine ⟨name, hname, ?_⟩
  cases outcome with
  | ready chain => exact ⟨Lineage.isGood hgives, hgives⟩
  | failed error => exact hgives
  | cancelled => exact mem_cancelledBy.1 (hgives.resolve_right id)

end

/-- A store whose template `a` extends `b`, and whose other templates extend none. -/
def pairStore (name : String) : Fetched := .text (if name = "a" then "{% extends b %}" else "hi")

/-- A request for `a`, and the turns until it is answered. -/
def pairRun : List Action :=
  .request (.template "a") :: List.replicate 5 (.turn fun name => ⟨pairStore name, none⟩)

/-- The request of `pairRun` gets a template, and its name is good. -/
theorem pairRun_answered : ∃ r chain,
    (r, .ready chain) ∈ ((empty .default none).after pairRun).answers ∧
      chain.names = ["a", "b"] ∧ ∃ name, IsGood .default pairStore name ∧
        Lineage .default pairStore name chain.layers := by
  have hrun : (((empty .default none).after pairRun).answers.any fun
      | (_, .ready chain) => chain.names == ["a", "b"]
      | _ => false) = true := by decide +kernel
  obtain ⟨⟨r, outcome⟩, hmem, hready⟩ := List.any_eq_true.1 hrun
  have hkeeps : ∀ a ∈ pairRun, a.KeepsTo pairStore := by
    intro a ha
    rcases List.mem_cons.1 ha with rfl | ha
    · trivial
    · obtain rfl := List.eq_of_mem_replicate ha
      exact fun _ => rfl
  have hunlimited : ∀ limit, (none : Option TimeLimit) = some limit → limit.patience ≠ .none := by
    intro limit h
    cases h
  cases outcome with
  | ready chain =>
    obtain ⟨name, -, hgood, hlineage⟩ := answer_decided_by_store hunlimited hkeeps hmem
    exact ⟨r, chain, hmem, by simpa using hready, name, hgood, hlineage⟩
  | failed _ | cancelled => cases hready

end TextTemplate.Catalog
