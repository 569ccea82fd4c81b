import Entitle.Backend

/-!
Requests of one backend, side by side.

A caller registers for its signature. The one that comes first then launches the exchange, and whether it uses the cache
and how late it may start is as this caller asked; one that joins and cannot wait cuts the start delay short. After that
a caller waits for the result, or leaves. At each of these points every task and every other caller can act. Nobody else
can end an exchange that is still to be launched, since the caller that will do so is there until it waits; so a launch
is one event.
-/

namespace Entitle

open Flight

/-- What a caller asks for. -/
structure Ask where
  signature : Signature
  useCache : Bool
  delay : DelayClass
  deriving DecidableEq, Repr

/-- How far a caller has come. -/
inductive Progress where
  | registered
  /-- It waits for an exchange that another caller launches. -/
  | joined
  /-- It waits for the exchange that it launched, on a task with a start delay. -/
  | launched (task delay : Nat)
  deriving DecidableEq, Repr

/-- A caller, also one that has left or has its result. -/
structure Caller where
  ask : Ask
  registration : Registration Signature
  progress : Progress := .registered
  deriving DecidableEq, Repr

namespace Caller

/-- Its place in the operation. -/
def waiter (c : Caller) : Waiter Signature :=
  c.registration.waiter

end Caller

namespace Backend

variable {σ : Type}

/-- Joins the exchange in flight for a signature, or gets one to launch. -/
def register (s : Signature) (b : Backend σ) : Registration Signature × Backend σ :=
  let (registration, pool) := b.pool.register s
  (registration, { b with pool })

/-- Cuts the start delay of the exchange of a waiter short. -/
def expedite (w : Waiter Signature) (b : Backend σ) : Backend σ :=
  { b with pool := b.pool.expedite w }

end Backend

/-- A backend and its callers, in the order in which they came. -/
structure Requests (σ : Type) where
  backend : Backend σ
  callers : List Caller := []
  /-- What a caller got. -/
  results : Table Nat (Classified Json) := []

namespace Requests

variable {σ : Type}

/-- Nobody has called a backend that was just opened; its cache may have been in use before. -/
def openOn (cache : ConditionalCache) (store : σ) (caching : Bool) (limits : Limits) : Requests σ :=
  { backend := { Backend.openOn store caching limits with cache } }

/-- The caller of a number. -/
def caller? (r : Requests σ) (n : Nat) : Option Caller :=
  r.callers[n]?

/-- A caller comes and registers. -/
def arrive (ask : Ask) (r : Requests σ) : Requests σ :=
  let (registration, backend) := r.backend.register ask.signature
  { r with backend, callers := r.callers ++ [{ ask, registration }] }

/-- A registered caller launches the exchange that it got, or joins; then it waits. -/
def proceed (n draw : Nat) (r : Requests σ) : Requests σ :=
  match r.caller? n with
  | some ⟨ask, ⟨some e, waiter⟩, .registered⟩ =>
    let progress := .launched r.backend.pool.nextTask (ask.delay.sample r.backend.limits draw)
    { r with
      backend := r.backend.launch e ask.useCache ask.delay draw
      callers := r.callers.set n ⟨ask, ⟨some e, waiter⟩, progress⟩ }
  | some ⟨ask, ⟨none, waiter⟩, .registered⟩ =>
    { r with
      backend := if ask.delay = .immediate then r.backend.expedite waiter else r.backend
      callers := r.callers.set n ⟨ask, ⟨none, waiter⟩, .joined⟩ }
  | _ => r

/-- A caller that waits, or has waited. -/
def waiting? (r : Requests σ) (n : Nat) : Option Caller :=
  (r.caller? n).filter (·.progress ≠ .registered)

/-- A caller that waits leaves. -/
def leave (n : Nat) (r : Requests σ) : Requests σ :=
  match r.waiting? n with
  | some c => { r with backend := r.backend.leave c.waiter }
  | none => r

/-- A caller that waits takes its result, if it is there. -/
def take (n : Nat) (r : Requests σ) : Requests σ :=
  match r.waiting? n with
  | some c =>
    let (result, backend) := r.backend.take c.waiter
    { r with backend, results := r.results ++ result.toList.map (n, ·) }
  | none => r

/-- Something happens to the backend alone. -/
def onBackend (f : Backend σ → Backend σ) (r : Requests σ) : Requests σ :=
  { r with backend := f r.backend }

/-- What can happen. -/
inductive Event where
  | arrive (ask : Ask)
  | proceed (n draw : Nat)
  | leave (n : Nat)
  | take (n : Nat)
  | poll (task : Nat)
  | expire (task : Nat)
  | answer (now : Instant) (task : Nat) (outcome : Outcome)
  | fail (task : Nat)
  | invalidate (s : Signature)
  | clear
  deriving Repr

variable [KeyValueStore σ]

/-- The requests after an event. -/
def step (r : Requests σ) : Event → Requests σ
  | .arrive ask => r.arrive ask
  | .proceed n draw => r.proceed n draw
  | .leave n => r.leave n
  | .take n => r.take n
  | .poll task => r.onBackend (·.poll task)
  | .expire task => r.onBackend (·.expire task)
  | .answer now task outcome => r.onBackend (·.answer now task outcome)
  | .fail task => r.onBackend (·.fail task)
  | .invalidate s => r.onBackend (·.invalidate s)
  | .clear => r.onBackend (·.clear)

/-- The requests after a run of events. -/
def run (r : Requests σ) (events : List Event) : Requests σ :=
  events.foldl step r

end Requests

end Entitle
