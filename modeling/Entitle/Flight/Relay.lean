import Entitle.Flight.Pool

/-!
A pool in which dispatches and ends take their time.

A dispatch starts the task of an exchange, then records the task with the operation, then hands the exchange over. A
task that gave its result ends some time later, and a task that was aborted stops some time later. At each of these
points every other task and every caller can act; an event of a pool is a few events here with nothing in between.
Start delays are any numbers, whatever their class, and they end at any time.
-/

namespace Entitle.Flight

/-- A pool, and how far its dispatches have come. -/
structure Relay (κ ρ : Type) where
  pool : Pool κ ρ
  /-- The exchange that each task was started for. -/
  orders : Table Nat (Exchange κ) := []
  /-- The tasks that their dispatch has not recorded. -/
  unrecorded : List Nat := []
  /-- The tasks that their dispatch has not given their exchange. -/
  undelivered : List Nat := []
  deriving Repr

namespace Relay

variable {κ ρ : Type} [DecidableEq κ]

/-- A relay without tasks. -/
def ofLimits (l : Limits) : Relay κ ρ :=
  { pool := .ofLimits l }

/-- An exchange in use that no task was started for. -/
def isUnassigned (r : Relay κ ρ) (e : Exchange κ) : Bool :=
  r.pool.coalescer.has e && r.orders.all (·.2 ≠ e)

/-- A dispatch begins: it starts the task of an exchange that has none. -/
def begin (r : Relay κ ρ) (e : Exchange κ) (delay : Nat) : Relay κ ρ :=
  if r.isUnassigned e then
    let task := r.pool.nextTask
    { pool := (r.pool.spawn (some e) delay).2
      orders := r.orders.put task e
      unrecorded := r.unrecorded ++ [task]
      undelivered := r.undelivered ++ [task] }
  else r

/-- A dispatch records its task, which is aborted if every waiter is gone. -/
def record (r : Relay κ ρ) (task : Nat) : Relay κ ρ :=
  if task ∈ r.unrecorded then
    match r.orders.get? task with
    | some e =>
      { r with
        pool := { r.pool with coalescer := r.pool.coalescer.attach e task }
        unrecorded := r.unrecorded.erase task }
    | none => r
  else r

/-- A dispatch ends: it gives the exchange to the recorded task, or drops it if the task has stopped. -/
def deliver (r : Relay κ ρ) (task : Nat) : Relay κ ρ :=
  if task ∈ r.undelivered ∧ task ∉ r.unrecorded then
    let coalescer := match r.pool.tasks.get? task, r.orders.get? task with
      | none, some e => r.pool.coalescer.drop e
      | _, _ => r.pool.coalescer
    { r with pool := { r.pool with coalescer }, undelivered := r.undelivered.erase task }
  else r

/-- Drops an exchange that no task was started for. -/
def drop (r : Relay κ ρ) (e : Exchange κ) : Relay κ ρ :=
  if r.isUnassigned e then { r with pool := { r.pool with coalescer := r.pool.coalescer.drop e } } else r

/-- The work of a task gives its result, if the task holds a permit and has its exchange. -/
def complete (r : Relay κ ρ) (task : Nat) (result : ρ) : Relay κ ρ :=
  if task ∈ r.pool.dispatcher.running ∧ task ∉ r.undelivered then
    match r.pool.exchange? task with
    | some e => { r with pool := { r.pool with coalescer := (r.pool.coalescer.complete e result).2 } }
    | none => r
  else r

/-- A task stops, at its end or before it, and drops what it has: its permit, and its exchange if that is neither
settled nor still with the dispatch. -/
def stop (r : Relay κ ρ) (task : Nat) : Relay κ ρ :=
  if task ∈ r.undelivered then
    { r with
      pool := { r.pool with dispatcher := r.pool.dispatcher.stop task, tasks := r.pool.tasks.erase task } }
  else { r with pool := r.pool.stop task }

/-- A waiter leaves; the recorded task of an operation without waiters is aborted, and stops later. -/
def leave (r : Relay κ ρ) (w : Waiter κ) : Relay κ ρ :=
  { r with pool := { r.pool with coalescer := r.pool.coalescer.leave w } }

/-- What can happen in a relay. -/
inductive Event (κ ρ : Type) where
  | register (key : κ)
  | begin (e : Exchange κ) (delay : Nat)
  | record (task : Nat)
  | deliver (task : Nat)
  | drop (e : Exchange κ)
  /-- Work of its own, without an exchange. -/
  | schedule (delay : Nat)
  | expedite (w : Waiter κ)
  | poll (task : Nat)
  | expire (task : Nat)
  | complete (task : Nat) (result : ρ)
  | stop (task : Nat)
  | leave (w : Waiter κ)
  | take (w : Waiter κ)
  deriving DecidableEq, Repr

/-- The relay after an event. -/
def step (r : Relay κ ρ) : Event κ ρ → Relay κ ρ
  | .register key => { r with pool := (r.pool.register key).2 }
  | .begin e delay => r.begin e delay
  | .record task => r.record task
  | .deliver task => r.deliver task
  | .drop e => r.drop e
  | .schedule delay => { r with pool := (r.pool.spawn none delay).2 }
  | .expedite w => { r with pool := r.pool.expedite w }
  | .poll task => { r with pool := r.pool.poll task }
  | .expire task => { r with pool := r.pool.expire task }
  | .complete task result => r.complete task result
  | .stop task => r.stop task
  | .leave w => r.leave w
  | .take w => { r with pool := (r.pool.take w).2 }

/-- The relay after a run of events. -/
def run (r : Relay κ ρ) (events : List (Event κ ρ)) : Relay κ ρ :=
  events.foldl step r

end Relay

end Entitle.Flight
