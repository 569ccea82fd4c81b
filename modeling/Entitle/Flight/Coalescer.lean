import Entitle.Flight.Registry

/-!
Fan-out of one result to everyone who asked for it.

Whoever registers first on a key owns the exchange; everyone gets a waiter. A completed exchange delivers its
result to each waiter of its operation, a dropped one abandons them. A waiter can leave at any time; the last
one to leave takes the operation with it and aborts its task. The state holds the live handles, so that only
a handle that someone still has can act.
-/

namespace Entitle.Flight

/-- What a waiter receives. -/
inductive Delivery (ρ : Type) where
  | value (result : ρ)
  /-- The exchange was dropped before it had a result. -/
  | abandoned
  deriving DecidableEq, Repr

/-- What happens to a waiter whose exchange was dropped, in words. -/
def abandonedMessage : String := "coalesced exchange was dropped before producing a result"

/-- A registration: a waiter, and the exchange for the one who came first. -/
structure Registration (κ : Type) where
  exchange : Option (Exchange κ)
  waiter : Waiter κ
  deriving DecidableEq, Repr

/-- The registry, the handles in use and the results on their way. -/
structure Coalescer (κ ρ : Type) where
  registry : Registry κ := {}
  /-- The exchanges that are neither completed nor dropped. -/
  exchanges : List (Exchange κ) := []
  /-- The waiters that have neither left nor taken their result. -/
  waiters : List (Waiter κ) := []
  /-- Results that their waiters have not taken yet. -/
  received : Table (Waiter κ) (Delivery ρ) := []
  /-- The tasks aborted so far. -/
  aborted : List Nat := []
  deriving Repr

namespace Coalescer

variable {κ ρ : Type} [DecidableEq κ]

/-- Joins the operation in flight on a key, or starts one. -/
def register (c : Coalescer κ ρ) (key : κ) : Registration κ × Coalescer κ ρ :=
  let (exchange, waiter, registry) := c.registry.register key
  (⟨exchange, waiter⟩,
    { c with registry, exchanges := c.exchanges ++ exchange.toList, waiters := c.waiters ++ [waiter] })

/-- Ends an exchange with the same delivery for each waiter of its operation, and counts them. -/
def settle (c : Coalescer κ ρ) (e : Exchange κ) (delivery : Delivery ρ) : Nat × Coalescer κ ρ :=
  if e ∈ c.exchanges then
    let (waiters, registry) := c.registry.settle e
    (waiters.length,
      { c with
        registry
        exchanges := c.exchanges.erase e
        received := c.received ++ waiters.map (·, delivery) })
  else (0, c)

/-- The exchange is neither completed nor dropped. -/
def has (c : Coalescer κ ρ) (e : Exchange κ) : Bool :=
  e ∈ c.exchanges

/-- Delivers the result of an exchange, and counts who got it. -/
def complete (c : Coalescer κ ρ) (e : Exchange κ) (result : ρ) : Nat × Coalescer κ ρ :=
  c.settle e (.value result)

/-- Drops an exchange without a result. -/
def drop (c : Coalescer κ ρ) (e : Exchange κ) : Coalescer κ ρ :=
  (c.settle e .abandoned).2

/-- Records the task that runs an exchange, and aborts it if the operation has ended. -/
def attach (c : Coalescer κ ρ) (e : Exchange κ) (task : Nat) : Coalescer κ ρ :=
  if e ∈ c.exchanges then
    match c.registry.attach e task with
    | some registry => { c with registry }
    | none => { c with aborted := c.aborted ++ [task] }
  else c

/-- Asks the operation of a waiter to skip the rest of its start delay. -/
def expedite (c : Coalescer κ ρ) (w : Waiter κ) : Coalescer κ ρ :=
  if w ∈ c.waiters then { c with registry := c.registry.expedite w } else c

/-- Tells whether the operation of an exchange was expedited since the last look; `none` if it has ended. -/
def takeSignal (c : Coalescer κ ρ) (e : Exchange κ) : Option Bool × Coalescer κ ρ :=
  if e ∈ c.exchanges then
    let (signal, registry) := c.registry.takeSignal e
    (signal, { c with registry })
  else (none, c)

/-- A waiter leaves; the last one of an operation aborts its task. -/
def leave (c : Coalescer κ ρ) (w : Waiter κ) : Coalescer κ ρ :=
  if w ∈ c.waiters then
    let (orphan, registry) := c.registry.leave w
    { c with
      registry
      waiters := c.waiters.erase w
      received := c.received.erase w
      aborted := c.aborted ++ orphan.toList }
  else c

/-- A waiter takes its result, if it is there; after that the waiter is gone. -/
def take (c : Coalescer κ ρ) (w : Waiter κ) : Option (Delivery ρ) × Coalescer κ ρ :=
  if w ∈ c.waiters then
    match c.received.get? w with
    | some delivery =>
      (some delivery, { c with waiters := c.waiters.erase w, received := c.received.erase w })
    | none => (none, c)
  else (none, c)

/-- What can be done to a coalescer. -/
inductive Step (κ ρ : Type) where
  | register (key : κ)
  | complete (e : Exchange κ) (result : ρ)
  | drop (e : Exchange κ)
  | attach (e : Exchange κ) (task : Nat)
  | signal (e : Exchange κ)
  | expedite (w : Waiter κ)
  | leave (w : Waiter κ)
  | take (w : Waiter κ)
  deriving DecidableEq, Repr

/-- The state after a step. -/
def step (c : Coalescer κ ρ) : Step κ ρ → Coalescer κ ρ
  | .register key => (c.register key).2
  | .complete e result => (c.complete e result).2
  | .drop e => c.drop e
  | .attach e task => c.attach e task
  | .signal e => (c.takeSignal e).2
  | .expedite w => c.expedite w
  | .leave w => c.leave w
  | .take w => (c.take w).2

/-- The state after a run of steps. -/
def run (c : Coalescer κ ρ) (steps : List (Step κ ρ)) : Coalescer κ ρ :=
  steps.foldl step c

end Coalescer

end Entitle.Flight
