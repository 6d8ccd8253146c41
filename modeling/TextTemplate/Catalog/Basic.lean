import TextTemplate.Catalog.Cycle
import TextTemplate.Catalog.Fault
import TextTemplate.Catalog.TimeLimit
import TextTemplate.Chain

/-! # The catalog's state

  A catalog keeps the templates of a store by name.  A name that is asked for
  gets an entry, and the entry is loaded once: its text is fetched and read, and
  if it extends another template, that one is asked for in turn.  All requests
  for the name wait at the one entry, which becomes ready when nothing is left
  to wait for, or fails.

  Everything that happens is a job in one queue.  A job runs to its end before
  the next one starts, and jobs run in the order in which they were queued; the
  modules beside this one say what each job does to the state.
-/

namespace TextTemplate

namespace Catalog

/-! ### Entries -/

/-- Entries, requests and gates are known by their numbers, in the order of their creation. -/
abbrev EntryId := Nat

@[inherit_doc EntryId] abbrev RequestId := Nat

@[inherit_doc EntryId] abbrev GateId := Nat

/-- The answer to whoever waits for an entry. -/
inductive Outcome where
  | ready (chain : Chain)
  | failed (error : LoadError)
  | cancelled

/-- Who waits at an entry. -/
inductive Waiter where
  | request (r : RequestId)
  /-- An entry whose template extends the one that it waits for. -/
  | descendant (e : EntryId)
  deriving Repr, DecidableEq

/-- How far an entry is. -/
inductive Status where
  | loading
  | ready (chain : Chain)
  | failed (error : LoadError)

/-- The name of a status. -/
def Status.text : Status → String
  | .loading => "loading"
  | .ready _ => "ready"
  | .failed _ => "failed"

/-- The answer that a settled entry gives. -/
def Status.outcome? : Status → Option Outcome
  | .loading => none
  | .ready chain => some (.ready chain)
  | .failed error => some (.failed error)

/-- What the catalog knows of a template. -/
structure Entry where
  name : String
  status : Status
  /-- How many things a loading entry waits for: its own text until that has been read, its
      ancestor while one is declared and not ready, and each closed gate. -/
  pending : Nat
  /-- The template, read. -/
  document? : Option Markup.Document
  /-- The chain of the ancestor, once that is ready. -/
  ancestor? : Option Chain
  /-- Who waits, in the order of arrival. -/
  waiters : List Waiter
  /-- Is the entry found under its name?  One that has been removed is not. -/
  listed : Bool

namespace Entry

/-- The entry of a name that has not been asked for before. -/
def fresh (name : String) : Entry := ⟨name, .loading, 1, none, none, [], true⟩

/-- Is the entry still loading? -/
def isLoading (entry : Entry) : Bool :=
  match entry.status with
  | .loading => true
  | _ => false

/-- The name of the declared ancestor. -/
def parent? (entry : Entry) : Option String := entry.document?.bind (·.parent?)

end Entry

/-! ### Loads, gates, requests -/

/-- The load of an entry, from its start to its end. -/
structure Load where
  entry : EntryId
  /-- Does it wait for a limited fetch to end or to run out of time? -/
  asleep : Bool
  /-- What a limited fetch has given. -/
  fetched? : Option Fetched
  /-- The error with which the load ends as soon as its fetch, which it has called off, is over. -/
  verdict? : Option LoadError

/-- The load of a new entry. -/
def Load.fresh (e : EntryId) : Load := ⟨e, false, none, none⟩

/-- A gate keeps an entry from becoming ready, and those who came through it waiting, until it is
    opened.  An entry that has settled before is kept from nothing. -/
structure Gate where
  entry : EntryId
  /-- Does the entry wait for the gate? -/
  holdsBack : Bool
  released : Bool
  /-- The requests in front of the gate, in the order of arrival. -/
  waiters : List RequestId

/-- What a request asks for. -/
inductive Target where
  | template (name : String)
  /-- The template of a gate's entry, once the gate is open. -/
  | gate (g : GateId)
  deriving Repr, DecidableEq

/-! ### Jobs -/

/-- What is queued to happen. -/
inductive Job where
  /-- A request begins. -/
  | start (r : RequestId)
  /-- A request that was cancelled before it began ends without an answer. -/
  | dismiss (r : RequestId)
  /-- A request comes through its gate. -/
  | pass (r : RequestId)
  /-- A request gets its answer. -/
  | answer (r : RequestId) (outcome : Outcome)
  /-- An entry learns what has become of its ancestor. -/
  | link (e : EntryId) (outcome : Outcome)
  /-- The load of an entry begins. -/
  | load (e : EntryId)
  /-- A load that was cancelled before it began ends and leaves its entry as it is. -/
  | skip (e : EntryId)
  /-- A limited fetch begins. -/
  | fetch (e : EntryId)
  /-- A fetch that had to wait goes on. -/
  | read (e : EntryId)
  /-- A fetch that was called off ends. -/
  | drop (e : EntryId)
  /-- The load learns that its limited fetch is over. -/
  | report (e : EntryId)
  /-- The time of a limited fetch is up. -/
  | expire (e : EntryId)
  /-- A load that was asleep goes on. -/
  | resume (e : EntryId)
  /-- A load that was cancelled in its sleep goes on. -/
  | interrupt (e : EntryId)

/-- The job that gives a waiter an answer. -/
def Waiter.job (outcome : Outcome) : Waiter → Job
  | .request r => .answer r outcome
  | .descendant e => .link e outcome

/-! ### Events -/

/-- What is reported of the work on a template. -/
inductive Event where
  /-- Its load asks for its text. -/
  | fetching (name : String)
  /-- The store has been asked; the place where it found the text. -/
  | asked (name : String) (source? : Option String)
  /-- Its text has come, with so many characters. -/
  | fetched (name : String) (length : Nat)
  /-- Something is doubtful about the text. -/
  | doubtful (name : String) (remark : Markup.Remark)
  /-- Its text has been read. -/
  | parsed (name : String) (document : Markup.Document)
  /-- It is ready, with this chain of names. -/
  | ready (name : String) (chain : List String)
  | failed (name : String) (error : LoadError)

/-- Is the event a warning? -/
def Event.isWarning : Event → Bool
  | .doubtful _ _ => true
  | _ => false

/-- How an event is reported, if it is. -/
def Event.message? : Event → Option String
  | .fetching name => some ("Fetching template '" ++ name ++ "'")
  | .asked name source? => source?.map ("Reading template '" ++ name ++ "' from " ++ ·)
  | .fetched name length =>
    some ("Fetched template '" ++ name ++ "' (" ++ Nat.repr length ++ " chars)")
  | .doubtful name remark => some (remark.message name)
  | .parsed name document =>
    some ("Parsed template '" ++ name ++ "' -> " ++ Nat.repr document.root.length ++
      " root nodes, " ++ Nat.repr document.blocks.length ++ " blocks, extends=" ++
      document.parent?.elim "None" Text.quote)
  | .ready name chain =>
    some ("Template '" ++ name ++ "' is ready (chain: " ++ " -> ".intercalate chain ++ ")")
  | .failed name error => some ("Template '" ++ name ++ "' failed: " ++ error.text name)

end Catalog

/-! ### The state -/

open Catalog in
/-- A catalog and the work that goes on in it. -/
structure Catalog where
  /-- How texts are read. -/
  rules : Markup.Rules
  /-- How long a text may take to arrive. -/
  limit? : Option TimeLimit
  /-- All entries that were ever made. -/
  entries : List Entry
  /-- The loads that have not ended. -/
  loads : List Load
  gates : List Gate
  /-- What each request asks for. -/
  requests : List Target
  jobs : List Job
  /-- The names whose texts the store holds back. -/
  held : List String
  /-- The entries whose fetches wait for the store, in the order of arrival. -/
  postponed : List EntryId
  /-- The time, in nanoseconds. -/
  clock : Nat
  /-- When the time of a load's fetch is up. -/
  alarms : List (Nat × EntryId)
  /-- The answers given so far. -/
  answers : List (RequestId × Outcome)
  /-- What has happened so far. -/
  events : List Event

namespace Catalog

/-- A catalog in which nothing has happened. -/
def empty (rules : Markup.Rules) (limit? : Option TimeLimit) : Catalog :=
  ⟨rules, limit?, [], [], [], [], [], [], [], 0, [], [], []⟩

/-- The number of the entry that is found under a name. -/
def find? (c : Catalog) (name : String) : Option EntryId :=
  c.entries.findIdx? fun entry => entry.listed && entry.name == name

/-- The entries that are found under their names. -/
def listing (c : Catalog) : List Entry := c.entries.filter (·.listed)

/-- The known links between templates. -/
def links (c : Catalog) : Links :=
  c.listing.filterMap fun entry => entry.parent?.map fun parent => (entry.name, parent)

/-- How often the store has been asked for a name. -/
def fetchCount (c : Catalog) (name : String) : Nat :=
  c.events.countP fun
    | .asked other _ => other == name
    | _ => false

/-- Queues jobs. -/
def enqueue (c : Catalog) (jobs : List Job) : Catalog := { c with jobs := c.jobs ++ jobs }

/-- Reports events. -/
def note (c : Catalog) (events : List Event) : Catalog := { c with events := c.events ++ events }

/-- Changes an entry. -/
def modifyEntry (c : Catalog) (e : EntryId) (f : Entry → Entry) : Catalog :=
  { c with entries := c.entries.modify e f }

/-- Changes a load. -/
def modifyLoad (c : Catalog) (e : EntryId) (f : Load → Load) : Catalog :=
  { c with loads := c.loads.map fun load => if load.entry == e then f load else load }

end Catalog

end TextTemplate
