import Entitle.Table

/-!
The operations in flight, one for each key.

An operation collects listeners until its exchange settles it. Successive operations on one key differ by
their generation, so a handle of an operation that has ended touches no later one: every function below acts
through `operation?`, which finds an operation by key and generation.
-/

namespace Entitle.Flight

/-- One exchange in progress and those who wait for it. -/
structure Operation where
  /-- Tells successive operations on one key apart. -/
  generation : Nat
  nextListener : Nat := 0
  /-- In the order of registration. -/
  listeners : List Nat := []
  /-- The task that runs the exchange. -/
  running : Option Nat := none
  /-- Someone asked to skip the rest of the start delay, and the task has not seen it yet. -/
  expedited : Bool := false
  deriving DecidableEq, Repr

/-- Adds a listener. -/
def Operation.listen (o : Operation) : Operation :=
  { o with nextListener := o.nextListener + 1, listeners := o.listeners ++ [o.nextListener] }

/-- Removes a listener. -/
def Operation.unlisten (o : Operation) (listener : Nat) : Operation :=
  { o with listeners := o.listeners.filter (· ≠ listener) }

/-- The obligation to settle one operation. -/
structure Exchange (κ : Type) where
  key : κ
  generation : Nat
  deriving DecidableEq, Repr

/-- One caller's place in an operation. -/
structure Waiter (κ : Type) where
  key : κ
  generation : Nat
  listener : Nat
  deriving DecidableEq, Repr

/-- The pending operations. -/
structure Registry (κ : Type) where
  nextGeneration : Nat := 0
  pending : Table κ Operation := []
  deriving Repr

namespace Registry

variable {κ : Type} [DecidableEq κ]

/-- An operation is pending on the key. -/
def isInFlight (r : Registry κ) (key : κ) : Bool :=
  (r.pending.get? key).isSome

/-- The number of pending operations. -/
def inFlight (r : Registry κ) : Nat :=
  r.pending.length

/-- The number of listeners on a key. -/
def waiterCount (r : Registry κ) (key : κ) : Nat :=
  match r.pending.get? key with
  | some o => o.listeners.length
  | none => 0

/-- The pending operation of a key and generation. -/
def operation? (r : Registry κ) (key : κ) (generation : Nat) : Option Operation :=
  (r.pending.get? key).filter (·.generation = generation)

/-- Changes the operation on a key. -/
def put (r : Registry κ) (key : κ) (o : Operation) : Registry κ :=
  { r with pending := r.pending.put key o }

/-- Ends the operation on a key. -/
def remove (r : Registry κ) (key : κ) : Registry κ :=
  { r with pending := r.pending.erase key }

/-- Joins the pending operation on a key, or starts the next one; who starts it gets the exchange. -/
def register (r : Registry κ) (key : κ) : Option (Exchange κ) × Waiter κ × Registry κ :=
  match r.pending.get? key with
  | some o => (none, ⟨key, o.generation, o.nextListener⟩, r.put key o.listen)
  | none =>
    let o : Operation := ⟨r.nextGeneration, 0, [], none, false⟩
    (some ⟨key, o.generation⟩, ⟨key, o.generation, o.nextListener⟩,
      { r.put key o.listen with nextGeneration := r.nextGeneration + 1 })

/-- Ends the operation of an exchange, and gives its listeners in the order of registration. -/
def settle (r : Registry κ) (e : Exchange κ) : List (Waiter κ) × Registry κ :=
  match r.operation? e.key e.generation with
  | some o => (o.listeners.map fun listener => ⟨e.key, e.generation, listener⟩, r.remove e.key)
  | none => ([], r)

/-- Records the task that runs an exchange; `none` if its operation has ended. -/
def attach (r : Registry κ) (e : Exchange κ) (task : Nat) : Option (Registry κ) :=
  (r.operation? e.key e.generation).map fun o => r.put e.key { o with running := some task }

/-- Asks the operation of a waiter to skip the rest of its start delay. -/
def expedite (r : Registry κ) (w : Waiter κ) : Registry κ :=
  match r.operation? w.key w.generation with
  | some o => r.put w.key { o with expedited := true }
  | none => r

/-- Tells whether the operation of an exchange was expedited since the last look; `none` if it has ended. -/
def takeSignal (r : Registry κ) (e : Exchange κ) : Option Bool × Registry κ :=
  match r.operation? e.key e.generation with
  | some o => (some o.expedited, r.put e.key { o with expedited := false })
  | none => (none, r)

/-- Removes a waiter; with its last waiter an operation ends, and the task to abort is given. -/
def leave (r : Registry κ) (w : Waiter κ) : Option Nat × Registry κ :=
  match r.operation? w.key w.generation with
  | none => (none, r)
  | some o =>
    match (o.unlisten w.listener).listeners with
    | [] => (o.running, r.remove w.key)
    | _ :: _ => (none, r.put w.key (o.unlisten w.listener))

end Registry

end Entitle.Flight
