import TextTemplate.Catalog.Settle

/-! # Loading

  A load asks the store for a text, reads it and asks for the ancestor that it
  names.  Without a time limit this is one job, unless the store holds the text
  back.  With a limit the fetch is a job of its own, the load sleeps, and either
  the end of the fetch or the end of its time wakes the load up.  A fetch that is
  called off has to end before the load does.
-/

namespace TextTemplate.Catalog

/-- What a store gives for a name: an answer, and where it looked for a text that it tried to
    read. -/
structure Reply where
  fetched : Fetched
  source? : Option String

/-- A job has run, or it first needs the store's reply for a name. -/
inductive Turn where
  | done (c : Catalog)
  | asks (name : String) (goOn : Reply → Catalog)

/-! ### The end of a load -/

/-- A load has its text. -/
def readText (c : Catalog) (e : EntryId) (name text : String) : Catalog :=
  let reading := Markup.Document.read c.rules text
  let c := c.note (.fetched name text.length :: reading.remarks.map (.doubtful name))
  match reading.result with
  | .error fault => c.fail e (.markup fault)
  | .ok document =>
    let c := (c.note [.parsed name document]).modifyEntry e fun entry =>
      { entry with document? := some document }
    match document.parent? with
    | none => c.countDown e
    | some ancestor =>
      let c := c.modifyEntry e fun entry => { entry with pending := entry.pending + 1 }
      (c.requestAncestor e name ancestor).countDown e

/-- Takes a load off the list. -/
def endLoad (c : Catalog) (e : EntryId) : Catalog :=
  { c with
    loads := c.loads.filter (·.entry != e)
    alarms := c.alarms.filter (·.2 != e) }

/-- A load ends with what the store has given.  Where no error is made of that, the entry stays as
    it is. -/
def conclude (c : Catalog) (e : EntryId) (fetched : Fetched) : Catalog :=
  let c := c.endLoad e
  let name := c.entries[e]?.elim "" (·.name)
  match fetched with
  | .text text => c.readText e name text
  | other => match other.error? (c.limit?.map (·.text)) with
    | some error => c.fail e error
    | none => c

/-- A load ends with an error. -/
def giveUp (c : Catalog) (e : EntryId) (error : LoadError) : Catalog := (c.endLoad e).fail e error

/-! ### Fetches -/

/-- The end of a fetch is the end of the load, or is reported to it if the fetch was limited. -/
def endFetch (c : Catalog) (e : EntryId) (fetched : Fetched) : Catalog :=
  match c.limit? with
  | none => c.conclude e fetched
  | some _ =>
    (c.modifyLoad e fun load => { load with fetched? := some fetched }).enqueue [.report e]

/-- The store has replied. -/
def receive (c : Catalog) (e : EntryId) (name : String) (reply : Reply) : Catalog :=
  (c.note [.asked name reply.source?]).endFetch e reply.fetched

/-- Asks the store for a text. -/
def askStore (c : Catalog) (e : EntryId) (name : String) : Turn := .asks name (c.receive e name)

/-- Asks the store for a text, unless it holds the text back. -/
def startFetch (c : Catalog) (e : EntryId) (name : String) : Turn :=
  if c.held.contains name then .done { c with postponed := c.postponed ++ [e] }
  else c.askStore e name

/-- Calls off a fetch that has not ended. -/
def callOff (c : Catalog) (e : EntryId) : Catalog :=
  if c.postponed.contains e then
    { c with postponed := c.postponed.filter (· != e), jobs := c.jobs ++ [.drop e] }
  else
    { c with jobs := c.jobs.map fun
        | .fetch e' => if e' == e then .drop e else .fetch e'
        | .read e' => if e' == e then .drop e else .read e'
        | job => job }

/-- A load calls off its fetch and will end with an error when the fetch has ended. -/
def abandon (c : Catalog) (e : EntryId) (error : LoadError) : Catalog :=
  (c.modifyLoad e fun load => { load with asleep := true, verdict? := some error }).callOff e

/-! ### The course of a load -/

/-- A load begins. -/
def startLoad (c : Catalog) (e : EntryId) : Turn :=
  let name := c.entries[e]?.elim "" (·.name)
  let c := c.note [.fetching name]
  match c.limit? with
  | none => c.startFetch e name
  | some limit =>
    match limit.patience with
    | .none => .done ((c.enqueue [.fetch e]).abandon e (.timedOut (some limit.text)))
    | .nanoseconds n =>
      let c := { c with alarms := c.alarms ++ [(c.clock + n, e)] }
      .done ((c.enqueue [.fetch e]).modifyLoad e fun load => { load with asleep := true })
    | .unbounded =>
      .done ((c.enqueue [.fetch e]).modifyLoad e fun load => { load with asleep := true })

/-- The load of an entry, if it has not ended. -/
def load? (c : Catalog) (e : EntryId) : Option Load := c.loads.find? (·.entry == e)

/-- Wakes a sleeping load up. -/
def wake (c : Catalog) (e : EntryId) : Catalog :=
  match c.load? e with
  | none => c
  | some load =>
    if load.asleep then
      (c.modifyLoad e fun load => { load with asleep := false }).enqueue [.resume e]
    else c

/-- The time of a limited fetch is up.  A load that has given it up already takes no notice. -/
def expire (c : Catalog) (e : EntryId) : Catalog :=
  if (c.load? e).any (·.verdict?.isNone) then c.wake e else c

/-- A load goes on after its sleep. -/
def resumeLoad (c : Catalog) (e : EntryId) : Catalog :=
  match c.load? e with
  | none => c
  | some load =>
    match load.verdict?, load.fetched? with
    | some error, _ => c.giveUp e error
    | none, some fetched => c.conclude e fetched
    | none, none => c.abandon e (.timedOut (c.limit?.map (·.text)))

/-- A load goes on after it was cancelled in its sleep.  A text that has come counts. -/
def interruptLoad (c : Catalog) (e : EntryId) : Catalog :=
  match c.load? e with
  | none => c
  | some load =>
    match load.verdict?, load.fetched? with
    | some _, _ => c.giveUp e .cancelled
    | none, some fetched => c.conclude e fetched
    | none, none => c.abandon e .cancelled

/-- Cancels a load that has not ended. -/
def cancelLoad (c : Catalog) (e : EntryId) : Catalog :=
  if c.jobs.any fun | .load e' => e' == e | _ => false then
    { c with jobs := c.jobs.map fun
        | .load e' => if e' == e then .skip e else .load e'
        | job => job }
  else if c.limit?.isNone then c.callOff e
  else if (c.load? e).any (·.asleep) then
    (c.modifyLoad e fun load => { load with asleep := false }).enqueue [.interrupt e]
  else
    { c with jobs := c.jobs.map fun
        | .resume e' => if e' == e then .interrupt e else .resume e'
        | job => job }

end TextTemplate.Catalog
