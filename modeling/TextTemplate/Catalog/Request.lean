import TextTemplate.Catalog.Load

/-! # Using a catalog

  What can be asked of a catalog from outside.  Requests, and the loads that
  gates start, are queued and take effect when the queue is worked off; all
  else takes effect at once.
-/

namespace TextTemplate.Catalog

/-! ### Requests and gates -/

/-- Queues a request. -/
def request (c : Catalog) (target : Target) : RequestId × Catalog :=
  (c.requests.length,
    { c with requests := c.requests ++ [target], jobs := c.jobs ++ [.start c.requests.length] })

/-- Puts a closed gate at the entry of a name. -/
def gate (c : Catalog) (name : String) : GateId × Catalog :=
  let (e, c) := c.ensure name
  let holdsBack := (c.outcome? e).isNone
  let c := if holdsBack then
      c.modifyEntry e fun entry => { entry with pending := entry.pending + 1 }
    else c
  (c.gates.length, { c with gates := c.gates ++ [⟨e, holdsBack, false, []⟩] })

/-- A gate can be opened once only. -/
inductive GateFault where
  | alreadyReleased (name : String)
  deriving Repr, DecidableEq

/-- What the message about a gate says. -/
def GateFault.message : GateFault → String
  | .alreadyReleased name => "Gate for template '" ++ name ++ "' is already released"

/-- Opens a gate: those in front of it come through, and the entry waits for it no more. -/
def release (c : Catalog) (g : GateId) : Except GateFault Catalog :=
  match c.gates[g]? with
  | none => .ok c
  | some gate =>
    if gate.released then .error (.alreadyReleased (c.entries[gate.entry]?.elim "" (·.name)))
    else
      let c := { c with
        gates := c.gates.set g { gate with released := true, waiters := [] }
        jobs := c.jobs ++ gate.waiters.map .pass }
      .ok (if gate.holdsBack then c.countDown gate.entry else c)

/-! ### Removing entries -/

/-- Is the entry found under its name and settled? -/
def Entry.isRemovable (entry : Entry) : Bool := entry.listed && !entry.isLoading

/-- Removes the entry of a name if it has settled, and says whether it did. -/
def evict (c : Catalog) (name : String) : Bool × Catalog :=
  match c.find? name with
  | none => (false, c)
  | some e =>
    if (c.outcome? e).isSome then
      (true, c.modifyEntry e fun entry => { entry with listed := false })
    else (false, c)

/-- Removes all settled entries, and says how many they were. -/
def clear (c : Catalog) : Nat × Catalog :=
  (c.entries.countP Entry.isRemovable,
    { c with entries := c.entries.map fun entry =>
        if entry.isRemovable then { entry with listed := false } else entry })

/-! ### Cancelling -/

/-- Does the job end or move on this request? -/
def Job.isFor (r : RequestId) : Job → Bool
  | .start r' | .dismiss r' | .pass r' | .answer r' _ => r' == r
  | _ => false

/-- What becomes of a job when its request is cancelled. -/
def Job.cancelled (r : RequestId) (job : Job) : Job :=
  if job.isFor r then
    match job with
    | .start _ | .dismiss _ => .dismiss r
    | _ => .answer r .cancelled
  else job

/-- Does the request wait at an entry or in front of a gate? -/
def waits (c : Catalog) (r : RequestId) : Bool :=
  c.entries.any (·.waiters.contains (.request r)) || c.gates.any (·.waiters.contains r)

/-- Cancels a request, and says whether it had not ended yet. -/
def cancel (c : Catalog) (r : RequestId) : Bool × Catalog :=
  if c.jobs.any (·.isFor r) then (true, { c with jobs := c.jobs.map (·.cancelled r) })
  else if c.waits r then
    (true, { c with
      entries := c.entries.map fun entry =>
        { entry with waiters := entry.waiters.filter (· != .request r) }
      gates := c.gates.map fun gate => { gate with waiters := gate.waiters.filter (· != r) }
      jobs := c.jobs ++ [.answer r .cancelled] })
  else (false, c)

/-- Cancels the loads of a name, and says how many they were. -/
def cancelLoads (c : Catalog) (name : String) : Nat × Catalog :=
  let running := (c.loads.map (·.entry)).filter fun e => c.entries[e]?.any (·.name == name)
  (running.length, running.foldl cancelLoad c)

/-- Sends all away who wait at the entry of a name. -/
def cancelWaiters (c : Catalog) (name : String) : Catalog :=
  match c.find? name with
  | none => c
  | some e =>
    let waiters := c.entries[e]?.elim [] (·.waiters)
    (c.modifyEntry e fun entry => { entry with waiters := [] }).enqueue
      (waiters.map (·.job .cancelled))

/-! ### The store and the clock -/

/-- From now on the store holds back the text of a name. -/
def hold (c : Catalog) (name : String) : Catalog := { c with held := name :: c.held }

/-- The store gives the text of a name out again, also to the fetches that wait for it. -/
def unhold (c : Catalog) (name : String) : Catalog :=
  let isFree (e : EntryId) : Bool := c.entries[e]?.any (·.name == name)
  { c with
    held := c.held.filter (· != name)
    postponed := c.postponed.filter fun e => !isFree e
    jobs := c.jobs ++ (c.postponed.filter isFree).map .read }

/-- Time passes. -/
def advance (c : Catalog) (nanoseconds : Nat) : Catalog :=
  { c with clock := c.clock + nanoseconds }

/-- Queues the ends of all fetches whose time is up, the longest overdue first. -/
def ring (c : Catalog) : Catalog :=
  let (due, later) := c.alarms.partition (·.1 ≤ c.clock)
  let due := due.mergeSort fun a b => decide (a.1 ≤ b.1)
  { c with alarms := later, jobs := c.jobs ++ due.map fun alarm => .expire alarm.2 }

end TextTemplate.Catalog
