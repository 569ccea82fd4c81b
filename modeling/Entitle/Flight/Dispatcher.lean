/-!
Where exchanges run: a bounded number at once, the others in the order in which they became ready.

A task may first sleep for a random start delay, so that clients on one schedule do not meet at the server; it
queues for a permit only after that. A permit that is given back goes to the head of the queue at once.
-/

namespace Entitle.Flight

/-- How late an exchange may start. -/
inductive DelayClass where
  /-- At once: what a user waits for. -/
  | immediate
  /-- A refresh while the app is in the foreground. -/
  | default
  /-- A refresh that nobody will notice being late. -/
  | long
  deriving DecidableEq, Repr

/-- The bounds of a dispatcher; delays are in milliseconds. -/
structure Limits where
  maxConcurrent : Nat := 8
  defaultDelay : Nat := 5000
  longDelay : Nat := 10000
  deriving DecidableEq, Repr

namespace Limits

/-- The most permits that a dispatcher can be built with. -/
def permitLimit : Nat := Nat.pow 2 61 - 1

/-- The permits of a dispatcher: at least one, so that work goes on. -/
def permits (l : Limits) : Nat :=
  max l.maxConcurrent 1

end Limits

namespace DelayClass

/-- The longest delay of a class. -/
def maxDelay (c : DelayClass) (l : Limits) : Nat :=
  match c with
  | .immediate => 0
  | .default => l.defaultDelay
  | .long => l.longDelay

/-- The delay that a random number gives: any up to the longest. -/
def sample (c : DelayClass) (l : Limits) (draw : Nat) : Nat :=
  draw % (c.maxDelay l + 1)

end DelayClass

/-- The tasks by stage; a task goes from each stage to a later one. -/
structure Dispatcher where
  /-- The permits that nobody holds. -/
  free : Nat
  /-- Tasks that have not run yet, with their start delay. -/
  fresh : List (Nat × Nat) := []
  /-- Tasks in their start delay. -/
  sleeping : List Nat := []
  /-- Tasks that wait for a permit, the first to get one in front. -/
  queue : List Nat := []
  /-- Tasks that hold a permit, in the order in which they got it. -/
  running : List Nat := []
  deriving DecidableEq, Repr

namespace Dispatcher

/-- A dispatcher without tasks. -/
def ofLimits (l : Limits) : Dispatcher :=
  ⟨l.permits, [], [], [], []⟩

/-- A new task. -/
def spawn (d : Dispatcher) (task delay : Nat) : Dispatcher :=
  { d with fresh := d.fresh ++ [(task, delay)] }

/-- A task asks for a permit, and runs if one is free. -/
def ready (d : Dispatcher) (task : Nat) : Dispatcher :=
  if d.free = 0 then { d with queue := d.queue ++ [task] }
  else { d with free := d.free - 1, running := d.running ++ [task] }

/-- A permit is given back, to the head of the queue if there is one. -/
def release (d : Dispatcher) : Dispatcher :=
  match d.queue with
  | [] => { d with free := d.free + 1 }
  | task :: queue => { d with queue, running := d.running ++ [task] }

/-- A new task runs for the first time: it sleeps, unless it has no delay or was told to skip it. -/
def start (d : Dispatcher) (task delay : Nat) (skip : Bool) : Dispatcher :=
  let d := { d with fresh := d.fresh.filter (·.1 ≠ task) }
  if delay = 0 || skip then d.ready task else { d with sleeping := d.sleeping ++ [task] }

/-- The start delay of a task is over. -/
def wake (d : Dispatcher) (task : Nat) : Dispatcher :=
  if task ∈ d.sleeping then { d with sleeping := d.sleeping.erase task }.ready task else d

/-- A task ends, in whichever stage it is. -/
def stop (d : Dispatcher) (task : Nat) : Dispatcher :=
  if task ∈ d.running then { d with running := d.running.erase task }.release
  else
    { d with
      fresh := d.fresh.filter (·.1 ≠ task)
      sleeping := d.sleeping.erase task
      queue := d.queue.erase task }

end Dispatcher

end Entitle.Flight
