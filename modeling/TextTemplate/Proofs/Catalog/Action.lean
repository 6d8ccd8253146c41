import TextTemplate.Catalog.Run

/-! # Runs of a catalog

  A run starts with a catalog in which nothing has happened.  Each step of it
  is an action: something is asked of the catalog from outside, or the first
  queued job runs.  Actions come in any order, and the store may answer each
  question as it likes, so the catalogs after all lists of actions are all that
  can be met.

  A fetch that takes its time is one for a name that the store holds back; it
  goes on after `unhold`, however much later.  An entry that is loading is never
  forgotten, so unless loads are broken off no name is fetched twice at a time,
  and fetches can end in any order.
-/

namespace TextTemplate.Catalog

/-! ### Actions -/

/-- What can happen to a catalog. -/
inductive Action where
  | request (target : Target)
  | gate (name : String)
  | release (g : GateId)
  | evict (name : String)
  | clear
  | cancel (r : RequestId)
  | cancelLoads (name : String)
  | cancelWaiters (name : String)
  | hold (name : String)
  | unhold (name : String)
  | advance (nanoseconds : Nat)
  /-- The fetches whose time is up are noticed. -/
  | ring
  /-- The first job runs, with a store that would give these replies. -/
  | turn (store : String → Reply)

/-- The catalog after a turn, with the reply of the store if the turn asks for it. -/
def Turn.resolve (store : String → Reply) : Turn → Catalog
  | .done c => c
  | .asks name goOn => goOn (store name)

/-- Can the target be asked for?  A gate has to be there. -/
def offers (c : Catalog) : Target → Bool
  | .template _ => true
  | .gate g => g < c.gates.length

/-- The catalog after an action.  One that cannot be taken changes nothing. -/
def step (c : Catalog) : Action → Catalog
  | .request target => if c.offers target then (c.request target).2 else c
  | .gate name => (c.gate name).2
  | .release g => (c.release g).toOption.getD c
  | .evict name => (c.evict name).2
  | .clear => c.clear.2
  | .cancel r => (c.cancel r).2
  | .cancelLoads name => (c.cancelLoads name).2
  | .cancelWaiters name => c.cancelWaiters name
  | .hold name => c.hold name
  | .unhold name => c.unhold name
  | .advance nanoseconds => c.advance nanoseconds
  | .ring => c.ring
  | .turn store => c.turn?.elim c (·.resolve store)

/-- The catalog after a list of actions. -/
def after (c : Catalog) (actions : List Action) : Catalog := actions.foldl step c

/-- Working off the queue is a run of turns. -/
theorem run_eq_after (store : String → Reply) (limit : Nat) (c : Catalog) :
    ∃ n, Id.run (c.run (fun name => pure (store name)) limit)
      = c.after (List.replicate n (.turn store)) := by
  induction limit generalizing c with
  | zero => exact ⟨0, rfl⟩
  | succ limit ih =>
    cases hturn : c.turn? with
    | none => exact ⟨0, by simp [run, hturn, after]⟩
    | some turn =>
      obtain ⟨n, hn⟩ := ih (turn.resolve store)
      refine ⟨n + 1, ?_⟩
      have hstep : c.step (.turn store) = turn.resolve store := by simp [step, hturn]
      show _ = (c.step (.turn store)).after (List.replicate n (.turn store))
      rw [hstep, ← hn]
      cases turn <;> simp [run, hturn, Turn.resolve]

end TextTemplate.Catalog
