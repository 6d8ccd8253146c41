import TextTemplate.Catalog.Request

/-! # Working off the queue

  `turn?` runs the first job.  Only a job that reads from the store needs
  anything from outside, so a run is a matter of the state and of the store's
  replies alone.
-/

namespace TextTemplate.Catalog

/-- How many jobs a run may take, which is far more than the templates of any store ask for. -/
def maxJobs : Nat := 1000000

/-- Runs a job that has been taken from the queue. -/
def perform (c : Catalog) : Job → Turn
  | .start r =>
    match c.requests[r]? with
    | none => .done c
    | some (.template name) =>
      let (e, c) := c.ensure name
      .done (c.await r e)
    | some (.gate g) =>
      match c.gates[g]? with
      | none => .done c
      | some gate =>
        if gate.released then .done (c.await r gate.entry)
        else .done { c with gates := c.gates.set g { gate with waiters := gate.waiters ++ [r] } }
  | .dismiss _ => .done c
  | .pass r =>
    match c.requests[r]? with
    | some (.gate g) => .done (c.gates[g]?.elim c fun gate => c.await r gate.entry)
    | _ => .done c
  | .answer r outcome => .done (c.finish r outcome)
  | .link e outcome => .done (c.link e outcome)
  | .load e => c.startLoad e
  | .skip e => .done (c.endLoad e)
  | .fetch e => c.startFetch e (c.entries[e]?.elim "" (·.name))
  | .read e => c.askStore e (c.entries[e]?.elim "" (·.name))
  | .drop e => .done (c.endFetch e .cancelled)
  | .report e => .done (c.wake e)
  | .expire e => .done (c.expire e)
  | .resume e => .done (c.resumeLoad e)
  | .interrupt e => .done (c.interruptLoad e)

/-- Runs the first job, if there is one. -/
def turn? (c : Catalog) : Option Turn :=
  match c.jobs with
  | [] => none
  | job :: rest => some ({ c with jobs := rest }.perform job)

/-- Runs jobs until none is left, at most `limit` of them. -/
def run {m : Type → Type} [Monad m] (store : String → m Reply) : (limit : Nat) → Catalog → m Catalog
  | 0, c => pure c
  | limit + 1, c =>
    match c.turn? with
    | none => pure c
    | some (.done c) => run store limit c
    | some (.asks name goOn) => do run store limit (goOn (← store name))

end TextTemplate.Catalog
