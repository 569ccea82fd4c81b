import Entitle.Flight.Coalescer
import Entitle.Flight.Dispatcher

/-!
Coalesced exchanges on a dispatcher.

Each exchange runs on a task of its own. The task that ends without a result drops its exchange, and a task
whose operation lost its last waiter is aborted; either way its permit comes back.
-/

namespace Entitle.Flight

/-- A coalescer, a dispatcher, and which task runs which exchange. -/
structure Pool (κ ρ : Type) where
  coalescer : Coalescer κ ρ := {}
  dispatcher : Dispatcher
  nextTask : Nat := 0
  /-- The tasks that have not ended; a task without an exchange runs work of its own. -/
  tasks : Table Nat (Option (Exchange κ)) := []
  deriving Repr

namespace Pool

variable {κ ρ : Type} [DecidableEq κ]

/-- A pool without tasks. -/
def ofLimits (l : Limits) : Pool κ ρ :=
  ⟨{}, .ofLimits l, 0, []⟩

/-- The exchange of a task. -/
def exchange? (p : Pool κ ρ) (task : Nat) : Option (Exchange κ) :=
  (p.tasks.get? task).join

/-- Starts a task. -/
def spawn (p : Pool κ ρ) (exchange : Option (Exchange κ)) (delay : Nat) : Nat × Pool κ ρ :=
  (p.nextTask,
    { p with
      dispatcher := p.dispatcher.spawn p.nextTask delay
      nextTask := p.nextTask + 1
      tasks := p.tasks.put p.nextTask exchange })

/-- A task ends and drops what it owns: its exchange, if that is not settled, and its permit. -/
def stop (p : Pool κ ρ) (task : Nat) : Pool κ ρ :=
  let coalescer := match p.exchange? task with
    | some e => p.coalescer.drop e
    | none => p.coalescer
  { p with coalescer, dispatcher := p.dispatcher.stop task, tasks := p.tasks.erase task }

/-- Stops the tasks aborted since an earlier state of the coalescer. -/
def stopAborted (p : Pool κ ρ) (before : Coalescer κ ρ) : Pool κ ρ :=
  (p.coalescer.aborted.drop before.aborted.length).foldl stop p

/-- Joins the operation in flight on a key, or starts one. -/
def register (p : Pool κ ρ) (key : κ) : Registration κ × Pool κ ρ :=
  let (registration, coalescer) := p.coalescer.register key
  (registration, { p with coalescer })

/-- An exchange that no task has yet. -/
def isUnassigned (p : Pool κ ρ) (e : Exchange κ) : Bool :=
  p.coalescer.has e && p.tasks.all (·.2 ≠ some e)

/-- Starts the task of an exchange that has none; if every waiter is gone the task is aborted before it runs. -/
def dispatch (p : Pool κ ρ) (e : Exchange κ) (delay : Nat) : Option Nat × Pool κ ρ :=
  if p.isUnassigned e then
    let before := p.coalescer
    let (task, p) := p.spawn (some e) delay
    (some task, { p with coalescer := p.coalescer.attach e task }.stopAborted before)
  else (none, p)

/-- Drops an exchange that no task has. -/
def drop (p : Pool κ ρ) (e : Exchange κ) : Pool κ ρ :=
  if p.isUnassigned e then { p with coalescer := p.coalescer.drop e } else p

/-- Asks the operation of a waiter to skip the rest of its start delay. -/
def expedite (p : Pool κ ρ) (w : Waiter κ) : Pool κ ρ :=
  { p with coalescer := p.coalescer.expedite w }

/-- The exchange of a task was told to skip its start delay; the task takes the signal. -/
def takeSignal (p : Pool κ ρ) (task : Nat) : Bool × Pool κ ρ :=
  match p.exchange? task with
  | some e =>
    let (signal, coalescer) := p.coalescer.takeSignal e
    (signal = some true, { p with coalescer })
  | none => (false, p)

/-- A task runs: a new one starts its delay or asks for a permit, and one that sleeps looks whether it was told
to skip the rest. -/
def poll (p : Pool κ ρ) (task : Nat) : Pool κ ρ :=
  match Table.get? p.dispatcher.fresh task with
  | some 0 => { p with dispatcher := p.dispatcher.start task 0 false }
  | some delay =>
    let (signal, p) := p.takeSignal task
    { p with dispatcher := p.dispatcher.start task delay signal }
  | none =>
    if task ∈ p.dispatcher.sleeping then
      let (signal, p) := p.takeSignal task
      if signal then { p with dispatcher := p.dispatcher.wake task } else p
    else p

/-- The start delay of a task is over. -/
def expire (p : Pool κ ρ) (task : Nat) : Pool κ ρ :=
  { p with dispatcher := p.dispatcher.wake task }

/-- The work of a task gives its result, if the task holds a permit. -/
def finish (p : Pool κ ρ) (task : Nat) (result : ρ) : Pool κ ρ :=
  if task ∈ p.dispatcher.running then
    let coalescer := match p.exchange? task with
      | some e => (p.coalescer.complete e result).2
      | none => p.coalescer
    { p with coalescer }.stop task
  else p

/-- A waiter leaves; the task of an operation without waiters is aborted. -/
def leave (p : Pool κ ρ) (w : Waiter κ) : Pool κ ρ :=
  { p with coalescer := p.coalescer.leave w }.stopAborted p.coalescer

/-- A waiter takes its result, if it is there. -/
def take (p : Pool κ ρ) (w : Waiter κ) : Option (Delivery ρ) × Pool κ ρ :=
  let (delivery, coalescer) := p.coalescer.take w
  (delivery, { p with coalescer })

/-- What can happen in a pool. -/
inductive Event (κ ρ : Type) where
  | register (key : κ)
  | dispatch (e : Exchange κ) (delay : Nat)
  | drop (e : Exchange κ)
  /-- Work of its own, without an exchange. -/
  | schedule (delay : Nat)
  | expedite (w : Waiter κ)
  | poll (task : Nat)
  | expire (task : Nat)
  | finish (task : Nat) (result : ρ)
  /-- A task fails or is aborted from outside. -/
  | stop (task : Nat)
  | leave (w : Waiter κ)
  | take (w : Waiter κ)
  deriving DecidableEq, Repr

/-- The pool after an event. -/
def step (p : Pool κ ρ) : Event κ ρ → Pool κ ρ
  | .register key => (p.register key).2
  | .dispatch e delay => (p.dispatch e delay).2
  | .drop e => p.drop e
  | .schedule delay => (p.spawn none delay).2
  | .expedite w => p.expedite w
  | .poll task => p.poll task
  | .expire task => p.expire task
  | .finish task result => p.finish task result
  | .stop task => p.stop task
  | .leave w => p.leave w
  | .take w => (p.take w).2

end Pool

end Entitle.Flight
