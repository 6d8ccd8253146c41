import Mathlib.Data.List.Chain
import TextTemplate.Proofs.Catalog.Lineage

/-! # Errors along a broken line of ancestors

  A line of templates, each of which extends the next one, is broken if its last
  member has no text that can be read.  The store alone decides which error the
  last member has, and each member before it fails with the error of the one that
  it extends, wrapped once (`passedOn`).

  `FailsWith` lists the ways in which a catalog makes names fail with errors, so
  it holds of every error in every run (`Terms.closed_ofErrors`).  Along a broken
  line it leaves one error for each member (`FailsWith.eq_passedOn`, by induction
  on how the member fails): the members have documents and the last one has none,
  and since the line ends, no member is its own ancestor.
-/

namespace TextTemplate

/-! ### Errors that are passed on -/

namespace LoadError

/-- The error of the ancestor from which an error arose. -/
def cause? : LoadError → Option LoadError
  | .ancestorFailed _ error => some error
  | _ => none

/-- The error that is reached from an error by so many steps to the cause. -/
def causeAfter : Nat → LoadError → Option LoadError
  | 0, error => some error
  | steps + 1, error => error.cause?.bind (causeAfter steps)

/-- An error passed on along ancestors, the nearest one first; the last one has the error. -/
def passedOn (ancestors : List String) (error : LoadError) : LoadError :=
  ancestors.foldr ancestorFailed error

theorem message_passedOn (ancestors : List String) (error : LoadError) :
    (passedOn ancestors error).message = ancestors.foldr
      (fun ancestor message => "ancestor '" ++ ancestor ++ "' failed: " ++ message)
      error.message := by
  induction ancestors with
  | nil => rfl
  | cons ancestor rest ih =>
    show "ancestor '" ++ ancestor ++ "' failed: " ++ (passedOn rest error).message = _
    rw [ih]
    rfl

/-- The first error is as many causes away as there are ancestors. -/
theorem causeAfter_passedOn (ancestors : List String) (error : LoadError) :
    (passedOn ancestors error).causeAfter ancestors.length = some error := by
  induction ancestors with
  | nil => rfl
  | cons ancestor rest ih => exact ih

end LoadError

namespace Catalog

open Relation

/-! ### Broken lines -/

section line

variable (rules : Markup.Rules) (limit? : Option TimeLimit) (store : String → Fetched)

/-- Has the name a document that extends the other one? -/
def Extends (name parent : String) : Prop :=
  ∃ document, documentOf? rules store name = some document ∧ document.parent? = some parent

/-- The error of a name whose text the store does not have, or that cannot be read. -/
def ownError? (name : String) : Option LoadError :=
  match store name with
  | .text text => match (Markup.Document.read rules text).result with
    | .error fault => some (.markup fault)
    | .ok _ => none
  | other => other.error? (limit?.map (·.text))

/-- Each of the names extends the next one, and the last one fails with an error of its own. -/
structure BrokenLine (names : List String) (error : LoadError) : Prop where
  descends : names.IsChain (Extends rules store)
  broken : ∃ last, names.getLast? = some last ∧ ownError? rules limit? store last = some error

/-- How a name may fail, and with which error. -/
inductive FailsWith : String → LoadError → Prop where
  | own {name : String} {error : LoadError} :
      ownError? rules limit? store name = some error → FailsWith name error
  | inherited {name parent : String} {error : LoadError} :
      Extends rules store name parent → FailsWith parent error →
      FailsWith name (.ancestorFailed parent error)
  | circular {name : String} (path : List String) :
      TransGen (Extends rules store) name name → FailsWith name (.circular path)

end line

variable {rules : Markup.Rules} {limit? : Option TimeLimit} {store : String → Fetched}

theorem extends_iff {name parent : String} : Extends rules store name parent ↔
    (documentOf? rules store name).bind (·.parent?) = some parent :=
  Option.bind_eq_some_iff.symm

instance (name parent : String) : Decidable (Extends rules store name parent) :=
  decidable_of_iff _ extends_iff.symm

/-- A document extends one other at most. -/
theorem Extends.unique {name parent parent' : String} (h : Extends rules store name parent)
    (h' : Extends rules store name parent') : parent = parent' := by
  obtain ⟨document, hdoc, hparent⟩ := h
  obtain ⟨document', hdoc', hparent'⟩ := h'
  rw [hdoc] at hdoc'
  obtain rfl := Option.some.inj hdoc'
  rw [hparent] at hparent'
  exact Option.some.inj hparent'

/-- What has a document has no error of its own. -/
theorem ownError?_of_documentOf? {name : String} {document : Markup.Document}
    (h : documentOf? rules store name = some document) :
    ownError? rules limit? store name = none := by
  unfold documentOf? at h
  unfold ownError?
  revert h
  cases store name with
  | text text =>
    intro h
    dsimp only at h ⊢
    cases hresult : (Markup.Document.read rules text).result with
    | error fault =>
      rw [hresult] at h
      cases h
    | ok _ => rfl
  | _ => nofun

theorem Extends.ownError? {name parent : String} (h : Extends rules store name parent) :
    ownError? rules limit? store name = none := by
  obtain ⟨document, hdoc, -⟩ := h
  exact ownError?_of_documentOf? hdoc

namespace BrokenLine

/-- The last names of a broken line are a broken line. -/
theorem suffix {before names : List String} {error : LoadError}
    (h : BrokenLine rules limit? store (before ++ names) error) (hne : names ≠ []) :
    BrokenLine rules limit? store names error := by
  obtain ⟨last, hlast, herror⟩ := h.broken
  refine ⟨h.descends.right_of_append, last, ?_, herror⟩
  rwa [List.getLast?_append_of_ne_nil _ hne] at hlast

/-- A broken line of one name is broken there. -/
theorem ownError? {name : String} {error : LoadError}
    (h : BrokenLine rules limit? store [name] error) :
    Catalog.ownError? rules limit? store name = some error := by
  obtain ⟨last, hlast, herror⟩ := h.broken
  obtain rfl := Option.some.inj hlast
  exact herror

theorem tail {name parent : String} {rest : List String} {error : LoadError}
    (h : BrokenLine rules limit? store (name :: parent :: rest) error) :
    Extends rules store name parent ∧ BrokenLine rules limit? store (parent :: rest) error := by
  have happended : BrokenLine rules limit? store ([name] ++ parent :: rest) error := h
  exact ⟨(List.isChain_cons_cons.1 h.descends).1, happended.suffix (List.cons_ne_nil _ _)⟩

/-- Every step from a document to the one that it extends makes the line shorter. -/
theorem shorter {name other : String} {ancestors : List String} {error : LoadError}
    (h : BrokenLine rules limit? store (name :: ancestors) error)
    (hextends : TransGen (Extends rules store) name other) :
    ∃ below, BrokenLine rules limit? store (other :: below) error ∧
      below.length < ancestors.length := by
  have hstep : ∀ {x y : String} {rest : List String},
      BrokenLine rules limit? store (x :: rest) error → Extends rules store x y →
      ∃ below, rest = y :: below ∧ BrokenLine rules limit? store (y :: below) error := by
    intro x y rest hline hedge
    cases rest with
    | nil =>
      -- The last name has an error of its own, and so it extends nothing.
      have herror := hline.ownError?
      rw [hedge.ownError?] at herror
      cases herror
    | cons parent below =>
      obtain ⟨hparent, hrest⟩ := hline.tail
      obtain rfl := hedge.unique hparent
      exact ⟨below, rfl, hrest⟩
  induction hextends with
  | single hedge =>
    obtain ⟨below, rfl, hbelow⟩ := hstep h hedge
    exact ⟨below, hbelow, Nat.lt_succ_self _⟩
  | tail _ hedge ih =>
    obtain ⟨below, hbelow, hlt⟩ := ih
    obtain ⟨below', rfl, hbelow'⟩ := hstep hbelow hedge
    exact ⟨below', hbelow', Nat.lt_of_succ_lt hlt⟩

/-- A name begins one broken line at most. -/
theorem unique {name : String} {ancestors ancestors' : List String} {error error' : LoadError}
    (h : BrokenLine rules limit? store (name :: ancestors) error)
    (h' : BrokenLine rules limit? store (name :: ancestors') error') : ancestors = ancestors' := by
  induction ancestors generalizing name ancestors' with
  | nil =>
    cases ancestors' with
    | nil => rfl
    | cons parent' rest' =>
      have herror := h.ownError?
      rw [h'.tail.1.ownError?] at herror
      cases herror
  | cons parent rest ih =>
    obtain ⟨hparent, hrest⟩ := h.tail
    cases ancestors' with
    | nil =>
      have herror := h'.ownError?
      rw [hparent.ownError?] at herror
      cases herror
    | cons parent' rest' =>
      obtain ⟨hparent', hrest'⟩ := h'.tail
      obtain rfl := hparent.unique hparent'
      rw [ih hrest hrest']

/-- No member of a broken line is its own ancestor. -/
theorem not_circular {name : String} {ancestors : List String} {error : LoadError}
    (h : BrokenLine rules limit? store (name :: ancestors) error) :
    ¬ TransGen (Extends rules store) name name := by
  intro hcircle
  obtain ⟨below, hbelow, hlt⟩ := h.shorter hcircle
  rw [h.unique hbelow] at hlt
  exact Nat.lt_irrefl _ hlt

/-- A member of a broken line is not good: it has no lineage. -/
theorem not_lineage {name : String} {ancestors : List String} {error : LoadError}
    {layers : List Layer} (h : BrokenLine rules limit? store (name :: ancestors) error) :
    ¬ Lineage rules store name layers := by
  intro hlineage
  induction ancestors generalizing name layers with
  | nil =>
    obtain ⟨document, hdoc⟩ := hlineage.document
    have herror := h.ownError?
    rw [ownError?_of_documentOf? hdoc] at herror
    cases herror
  | cons parent rest ih =>
    obtain ⟨⟨document, hdoc, hparent⟩, hrest⟩ := h.tail
    obtain ⟨ancestors, -, hbelow⟩ := hlineage.parent hdoc hparent
    exact ih hrest hbelow

end BrokenLine

/-- A member of a broken line fails with the last member's error, passed on. -/
theorem FailsWith.eq_passedOn {name : String} {error : LoadError}
    (h : FailsWith rules limit? store name error) {ancestors : List String} {own : LoadError}
    (hline : BrokenLine rules limit? store (name :: ancestors) own) :
    error = own.passedOn ancestors := by
  induction h generalizing ancestors with
  | own herror =>
    cases ancestors with
    | nil =>
      rw [hline.ownError?] at herror
      exact (Option.some.inj herror).symm
    | cons parent rest =>
      rw [hline.tail.1.ownError?] at herror
      cases herror
  | inherited hparent _ ih =>
    cases ancestors with
    | nil =>
      have herror := hline.ownError?
      rw [hparent.ownError?] at herror
      cases herror
    | cons parent rest =>
      obtain ⟨hparent', hrest⟩ := hline.tail
      obtain rfl := hparent.unique hparent'
      rw [ih hrest]
      rfl
  | circular _ hcircle => exact absurd hcircle hline.not_circular

/-! ### Terms of a store's errors -/

/-- What holds in runs on one store, with the errors of names. -/
def Terms.ofErrors (rules : Markup.Rules) (limit? : Option TimeLimit) (store : String → Fetched) :
    Terms :=
  { Terms.ofStore rules store with failed := FailsWith rules limit? store }

theorem Terms.closed_ofErrors (hlimit : ∀ limit, limit? = some limit → limit.patience ≠ .none) :
    (Terms.ofErrors rules limit? store).Closed rules limit? :=
  { Terms.closed_ofStore hlimit with
    unreadable := by
      intro name text fault htext hresult
      apply FailsWith.own
      unfold ownError?
      rw [← show Fetched.text text = store name from htext]
      simp only [hresult]
    unfetched := by
      intro name fetched error hfetched herror
      apply FailsWith.own
      unfold ownError?
      rw [← show fetched = store name from hfetched]
      cases fetched with
      | text _ | escaping => cases herror
      | fault | timedOut | cancelled | reported | unforeseen => exact herror
    fatherless := by
      intro name document parent error hdoc hparent hfailed
      exact .inherited ⟨document, hdoc, hparent⟩ hfailed
    circular := by
      intro name path hcircle
      exact .circular path hcircle
    late := False.elim
    cancelled := False.elim
    sentAway := False.elim }

/-! ### Errors of a run -/

/-- What is told about a name by the error that reached it along its ancestors. -/
structure PassesOn (own : LoadError) (name : String) (ancestors : List String) (error : LoadError) :
    Prop where
  /-- It is the last one's error, wrapped once for each ancestor. -/
  eq : error = own.passedOn ancestors
  /-- Its message names the ancestors, the nearest one first, and ends with the last one's. -/
  message : error.message = ancestors.foldr
    (fun ancestor message => "ancestor '" ++ ancestor ++ "' failed: " ++ message) own.message
  /-- As many causes away as there are ancestors stands the last one's error itself. -/
  cause : error.causeAfter ancestors.length = some own
  /-- If there is an ancestor, the error is one of dependency, about this name and without a place
      in its text, and its cause is the ancestor's error. -/
  wrapped : ∀ parent rest, ancestors = parent :: rest →
    error.errorClass = .dependency ∧ error.text name = errorText error.message name none none ∧
      error.cause? = some (own.passedOn rest)

/-- The answer to a request for the name: no template, and no error but the one passed on. -/
def Outcome.Reports (own : LoadError) (name : String) (ancestors : List String) (cancelled : Prop) :
    Outcome → Prop
  | .ready _ => False
  | .failed error => PassesOn own name ancestors error
  | .cancelled => cancelled

theorem passesOn_passedOn (own : LoadError) (name : String) (ancestors : List String) :
    PassesOn own name ancestors (own.passedOn ancestors) where
  eq := rfl
  message := own.message_passedOn ancestors
  cause := own.causeAfter_passedOn ancestors
  wrapped := by
    rintro parent rest rfl
    exact ⟨rfl, rfl, rfl⟩

/-- In every run on one store, a request for a member of a broken line is never given a template.
    The error that it gets is the last member's own error, passed on along the members between
    them; for the last member itself that is its own error as it stands. -/
theorem error_along_broken_line
    (hlimit : ∀ limit, limit? = some limit → limit.patience ≠ .none) {actions : List Action}
    (hactions : ∀ a ∈ actions, a.KeepsTo store) {before ancestors : List String} {name : String}
    {own : LoadError} (hline : BrokenLine rules limit? store (before ++ name :: ancestors) own)
    {r : RequestId} {outcome : Outcome}
    (hanswer : (r, outcome) ∈ ((empty rules limit?).after actions).answers)
    (hasks : ((empty rules limit?).after actions).requestName? r = some name) :
    outcome.Reports own name ancestors (.cancel r ∈ actions) := by
  have hclosed : (Terms.ofErrors rules limit? store).Closed rules limit? :=
    Terms.closed_ofErrors hlimit
  have hallowed : ∀ a ∈ actions, (Terms.ofErrors rules limit? store).Allows a := by
    intro a ha
    have hkeeps : (Terms.ofStore rules store).Allows a := (hactions a ha).allowed
    cases a <;> exact hkeeps
  have hsound := sound_after hclosed hallowed
  -- The answer was given on the terms of the store, and for this name.
  obtain ⟨name', hname', hgives⟩ := hsound.faithful.answer _ hanswer
  obtain rfl : name' = name := Option.some.inj (hname'.symm.trans hasks)
  have hfrom := hline.suffix (List.cons_ne_nil _ _)
  cases outcome with
  | ready chain => exact hfrom.not_lineage hgives
  | failed error =>
    have heq := FailsWith.eq_passedOn hgives hfrom
    subst heq
    exact passesOn_passedOn own _ ancestors
  | cancelled => exact mem_cancelledBy.1 (hgives.resolve_right id)

/-- A store whose template `a` extends `b`, which extends `c`, which cannot be read. -/
def brokenStore (name : String) : Fetched :=
  .text (if name = "a" then "{% extends b %}" else if name = "b" then "{% extends c %}"
    else "{% if %}")

/-- `b` is asked for and fails, and is removed; then `a` is asked for, and loads `b` once more. -/
def brokenRun : List Action :=
  let turn : Action := .turn fun name => ⟨brokenStore name, none⟩
  .request (.template "b") :: List.replicate 5 turn ++ [.evict "b", .request (.template "a")]
    ++ List.replicate 6 turn

/-- The request for `a` gets the error of `c`, wrapped twice. -/
theorem brokenRun_error : BrokenLine .default none brokenStore ["a", "b", "c"]
      (.markup ⟨.ifWithoutCondition, ⟨1, 1⟩⟩) ∧
    ∃ error, (1, .failed error) ∈ ((empty .default none).after brokenRun).answers ∧
      error.text "a" = "ancestor 'b' failed: ancestor 'c' failed: 'if' requires an expression"
        ++ " in template 'a'" ∧
      error.causeAfter 2 = some (.markup ⟨.ifWithoutCondition, ⟨1, 1⟩⟩) := by
  have hline : BrokenLine .default none brokenStore ([] ++ "a" :: ["b", "c"])
      (.markup ⟨.ifWithoutCondition, ⟨1, 1⟩⟩) :=
    ⟨by decide +kernel, "c", rfl, by decide +kernel⟩
  have hkeeps : ∀ a ∈ brokenRun, a.KeepsTo brokenStore := by
    intro a ha
    simp only [brokenRun, List.cons_append, List.append_assoc, List.mem_cons, List.mem_append,
      List.mem_replicate, List.not_mem_nil, false_or] at ha
    rcases ha with rfl | ⟨-, rfl⟩ | rfl | rfl | ⟨-, rfl⟩
    · trivial
    · exact fun _ => rfl
    · trivial
    · trivial
    · exact fun _ => rfl
  have hunlimited : ∀ limit, (none : Option TimeLimit) = some limit → limit.patience ≠ .none := by
    intro limit h
    cases h
  have hrun : (((empty .default none).after brokenRun).answers.any fun
      | (1, .failed _) => true
      | _ => false) = true := by decide +kernel
  have hasks : ((empty .default none).after brokenRun).requestName? 1 = some "a" := by
    decide +kernel
  obtain ⟨⟨r, outcome⟩, hmem, hfailed⟩ := List.any_eq_true.1 hrun
  have hone : r = 1 ∧ ∃ error, outcome = .failed error := by
    split at hfailed
    · next error heq =>
      cases heq
      exact ⟨rfl, error, rfl⟩
    · cases hfailed
  obtain ⟨rfl, error, rfl⟩ := hone
  have htells := error_along_broken_line hunlimited hkeeps hline hmem hasks
  refine ⟨hline, error, hmem, ?_, htells.cause⟩
  obtain ⟨-, htext, -⟩ := htells.wrapped "b" ["c"] rfl
  rw [htext, htells.message]
  decide +kernel

end Catalog

end TextTemplate
