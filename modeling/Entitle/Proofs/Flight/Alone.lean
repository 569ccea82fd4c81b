import Entitle.Flight.Pool

/-!
# One exchange alone

From a pool in which nothing is in flight a single exchange goes through a few states, one for each stage of its
task, and leaves such a pool again. Each state is a closed term, so that what happens in it is computed.
-/

namespace Entitle.Flight

/-- What a pool goes on with when nothing is in flight. -/
structure Rest where
  generation : Nat
  aborted : List Nat
  /-- Permits. -/
  free : Nat
  /-- The next task. -/
  task : Nat

namespace Rest

/-- After one more exchange. -/
def next (r : Rest) : Rest :=
  { r with generation := r.generation + 1, task := r.task + 1 }

/-- The waiter of the next exchange. -/
def waiter {κ : Type} (r : Rest) (key : κ) : Waiter κ :=
  ⟨key, r.generation, 0⟩

/-! The stages of the next task. -/

def fresh (r : Rest) (delay : Nat) : Dispatcher :=
  ⟨r.free, [(r.task, delay)], [], [], []⟩

def sleeping (r : Rest) : Dispatcher :=
  ⟨r.free, [], [r.task], [], []⟩

def running (r : Rest) : Dispatcher :=
  ⟨r.free - 1, [], [], [], [r.task]⟩

end Rest

namespace Pool
variable {κ ρ : Type} [DecidableEq κ]

/-- Nothing is in flight. -/
def idle (r : Rest) : Pool κ ρ where
  coalescer := { registry := ⟨r.generation, []⟩, aborted := r.aborted }
  dispatcher := ⟨r.free, [], [], [], []⟩
  nextTask := r.task

/-- One exchange with one waiter has no task yet. -/
def launching (r : Rest) (key : κ) : Pool κ ρ where
  coalescer :=
    { registry := ⟨r.generation + 1, [(key, ⟨r.generation, 1, [0], none, false⟩)]⟩
      exchanges := [⟨key, r.generation⟩]
      waiters := [r.waiter key]
      aborted := r.aborted }
  dispatcher := ⟨r.free, [], [], [], []⟩
  nextTask := r.task

/-- One exchange with one waiter is in flight, its task at a stage. -/
def alone (r : Rest) (key : κ) (dispatcher : Dispatcher) : Pool κ ρ where
  coalescer :=
    { registry := ⟨r.generation + 1, [(key, ⟨r.generation, 1, [0], some r.task, false⟩)]⟩
      exchanges := [⟨key, r.generation⟩]
      waiters := [r.waiter key]
      aborted := r.aborted }
  dispatcher
  nextTask := r.task + 1
  tasks := [(r.task, some ⟨key, r.generation⟩)]

/-- The exchange has ended, and its waiter has not looked yet. -/
def answered (r : Rest) (key : κ) (result : ρ) : Pool κ ρ where
  coalescer :=
    { registry := ⟨r.generation + 1, []⟩
      waiters := [r.waiter key]
      received := [(r.waiter key, .value result)]
      aborted := r.aborted }
  dispatcher := ⟨r.free, [], [], [], []⟩
  nextTask := r.task + 1

variable {r : Rest} {delay : Nat} {key : κ} {result : ρ}

theorem register_idle : (idle r : Pool κ ρ).register key =
    (⟨some ⟨key, r.generation⟩, r.waiter key⟩, launching r key) := by
  simp [idle, launching, Rest.waiter, register, Coalescer.register, Registry.register, Registry.put, Operation.listen,
    Table.put]

theorem dispatch_launching : (launching r key : Pool κ ρ).dispatch ⟨key, r.generation⟩ delay =
    (some r.task, alone r key (r.fresh delay)) := by
  simp [launching, alone, Rest.fresh, dispatch, isUnassigned, Coalescer.has, spawn, Dispatcher.spawn, Coalescer.attach,
    Registry.attach, Registry.operation?, Registry.put, Table.get?, Table.put, stopAborted, Option.filter]

/-- A new task gets a permit at once, or sleeps. -/
theorem poll_fresh (hfree : 0 < r.free) : (alone r key (r.fresh delay) : Pool κ ρ).poll r.task =
    alone r key (if delay = 0 then r.running else r.sleeping) := by
  by_cases hdelay : delay = 0
  · subst hdelay
    simp [alone, Rest.fresh, Rest.running, poll, Table.get?, Dispatcher.start, Dispatcher.ready,
      Nat.pos_iff_ne_zero.1 hfree]
  · obtain ⟨delay, rfl⟩ := Nat.exists_eq_succ_of_ne_zero hdelay
    simp [alone, Rest.fresh, Rest.sleeping, poll, Table.get?, takeSignal, exchange?, Coalescer.takeSignal,
      Registry.takeSignal, Registry.operation?, Registry.put, Table.put, Dispatcher.start, Option.filter]

omit [DecidableEq κ] in
theorem expire_sleeping (hfree : 0 < r.free) :
    (alone r key r.sleeping : Pool κ ρ).expire r.task = alone r key r.running := by
  simp [alone, Rest.sleeping, Rest.running, expire, Dispatcher.wake, Dispatcher.ready, Nat.pos_iff_ne_zero.1 hfree]

theorem poll_running : (alone r key r.running : Pool κ ρ).poll r.task = alone r key r.running := by
  simp [alone, Rest.running, poll]

theorem finish_running (hfree : 0 < r.free) :
    (alone r key r.running : Pool κ ρ).finish r.task result = answered r key result := by
  simp [alone, answered, Rest.running, Rest.waiter, finish, exchange?, Table.get?, Coalescer.complete, Coalescer.settle,
    Registry.settle, Registry.operation?, Registry.remove, stop, Coalescer.drop, Dispatcher.stop, Dispatcher.release,
    Table.erase, Option.filter, Nat.sub_add_cancel hfree]

theorem take_alone (dispatcher : Dispatcher) :
    (alone r key dispatcher : Pool κ ρ).take (r.waiter key) = (none, alone r key dispatcher) := by
  simp [alone, take, Coalescer.take]

theorem take_answered : (answered r key result).take (r.waiter key) = (some (.value result), idle r.next) := by
  simp [answered, idle, Rest.next, take, Coalescer.take, Table.get?, Table.erase]

end Pool

end Entitle.Flight
