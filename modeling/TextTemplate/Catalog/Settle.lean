import TextTemplate.Catalog.Basic

/-! # Waiting and settling

  An entry counts down what it waits for.  At zero it becomes ready; an error
  makes it fail.  Either settles it for good, and each of its waiters is queued
  for the answer in the order of arrival.  Who comes later has the answer at
  once.
-/

namespace TextTemplate.Catalog

/-! ### Settling -/

/-- Settles a loading entry. -/
def settle (c : Catalog) (e : EntryId) (entry : Entry) (status : Status) (outcome : Outcome) :
    Catalog :=
  { c with
    entries := c.entries.set e { entry with status, waiters := [] }
    jobs := c.jobs ++ entry.waiters.map (·.job outcome) }

/-- Makes a loading entry fail. -/
def fail (c : Catalog) (e : EntryId) (error : LoadError) : Catalog :=
  match c.entries[e]? with
  | none => c
  | some entry =>
    if entry.isLoading then
      (c.note [.failed entry.name error]).settle e entry (.failed error) (.failed error)
    else c

/-- One thing less to wait for; at zero the entry is ready. -/
def countDown (c : Catalog) (e : EntryId) : Catalog :=
  match c.entries[e]? with
  | none => c
  | some entry =>
    if !entry.isLoading then c
    else if entry.pending > 1 then
      c.modifyEntry e fun entry => { entry with pending := entry.pending - 1 }
    else match entry.document? with
      -- The entry's own text is the last thing to be counted, so it has been read.
      | none => c
      | some document =>
        let chain := Chain.derive ⟨entry.name, document⟩ entry.ancestor?
        (c.note [.ready entry.name chain.names]).settle e { entry with pending := 0 }
          (.ready chain) (.ready chain)

/-! ### Waiting -/

/-- The entry of a name; a new one starts to load. -/
def ensure (c : Catalog) (name : String) : EntryId × Catalog :=
  match c.find? name with
  | some e => (e, c)
  | none =>
    let e := c.entries.length
    (e, { c with
      entries := c.entries ++ [.fresh name]
      loads := c.loads ++ [.fresh e]
      jobs := c.jobs ++ [.load e] })

/-- The answer of an entry, if it has settled. -/
def outcome? (c : Catalog) (e : EntryId) : Option Outcome :=
  c.entries[e]?.bind (·.status.outcome?)

/-- Puts a waiter at the end of an entry's list. -/
def addWaiter (c : Catalog) (e : EntryId) (w : Waiter) : Catalog :=
  c.modifyEntry e fun entry => { entry with waiters := entry.waiters ++ [w] }

/-- Ends a request. -/
def finish (c : Catalog) (r : RequestId) (outcome : Outcome) : Catalog :=
  { c with answers := c.answers ++ [(r, outcome)] }

/-- A request comes to an entry. -/
def await (c : Catalog) (r : RequestId) (e : EntryId) : Catalog :=
  match c.outcome? e with
  | some outcome => c.finish r outcome
  | none => c.addWaiter e (.request r)

/-! ### Ancestors -/

/-- An entry asks for its ancestor, unless that would close a circle. -/
def requestAncestor (c : Catalog) (e : EntryId) (name ancestor : String) : Catalog :=
  match findCycle? c.links name ancestor with
  | some path => c.fail e (.circular path)
  | none =>
    let (a, c) := c.ensure ancestor
    match c.outcome? a with
    | some outcome => c.enqueue [.link e outcome]
    | none => c.addWaiter a (.descendant e)

/-- An entry learns what has become of its ancestor. -/
def link (c : Catalog) (e : EntryId) (outcome : Outcome) : Catalog :=
  let ancestor := (c.entries[e]?.bind (·.parent?)).getD ""
  match outcome with
  | .cancelled => c.fail e (.ancestorCancelled ancestor)
  | .failed error => c.fail e (.ancestorFailed ancestor error)
  | .ready chain =>
    if (c.outcome? e).isSome then c
    else (c.modifyEntry e fun entry => { entry with ancestor? := some chain }).countDown e

end TextTemplate.Catalog
