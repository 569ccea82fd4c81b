import Entitle.Backend
import Entitle.Flight.Relay

/-!
A backend whose tasks take their time.

The exchanges run on a relay, and the work of a task is cut wherever another task or a caller can act: the task attaches
the known tag when it sends its request, receives the outcome, settles it with the entry, drops the entry that a 304 did
not find, and delivers the result. An abort only marks a task. Where the task waits it stops some time later, but once
it has its outcome it waits no more, so it settles and delivers that outcome whoever has left.
-/

namespace Entitle

open Flight

/-- How far a task is with the outcome of its exchange. -/
inductive Gateway.Progress where
  | received (outcome : Outcome)
  /-- The outcome is settled with the entry. A 304 that `missed` found none, and the signature is still to be
  invalidated. -/
  | settled (result : Classified Json) (missed : Bool)
  | done

/-- The result is delivered. -/
def Gateway.Progress.isDone : Gateway.Progress → Bool
  | .done => true
  | _ => false

/-- Cache, store and exchanges of one backend, between any two things that its tasks and callers do. -/
structure Gateway (σ : Type) where
  store : σ
  cache : ConditionalCache := {}
  caching : Bool := true
  limits : Limits := {}
  relay : Relay Signature (Classified Json)
  plans : Table Nat Plan := []
  sent : Table Nat Request := []
  /-- Of the tasks that have an outcome. -/
  progress : Table Nat Gateway.Progress := []

namespace Gateway

variable {σ : Type}

/-- A gateway on a store, with nothing in flight. -/
def openOn (store : σ) (caching : Bool) (limits : Limits) : Gateway σ :=
  { store, caching, limits, relay := .ofLimits limits }

/-- A task has its permit and its exchange. -/
def works (g : Gateway σ) (task : Nat) : Bool :=
  task ∈ g.relay.pool.dispatcher.running && task ∉ g.relay.undelivered

/-- A task has its outcome and has not delivered its result. -/
def isBusy (g : Gateway σ) (task : Nat) : Bool :=
  (g.progress.get? task).any (!·.isDone)

/-- A task has delivered its result. -/
def hasDelivered (g : Gateway σ) (task : Nat) : Bool :=
  (g.progress.get? task).any (·.isDone)

/-- A dispatch begins: it starts the task of an exchange that has none. -/
def begin (e : Exchange Signature) (useCache : Bool) (delay : DelayClass) (draw : Nat) (g : Gateway σ) : Gateway σ :=
  if g.relay.isUnassigned e then
    { g with
      relay := g.relay.begin e (delay.sample g.limits draw)
      plans := g.plans.put g.relay.pool.nextTask ⟨e.key, useCache && g.caching⟩ }
  else g

/-- The outcome of an exchange comes in. -/
def receive (task : Nat) (outcome : Outcome) (g : Gateway σ) : Gateway σ :=
  if g.works task && (g.sent.get? task).isSome && (g.progress.get? task).isNone then
    { g with progress := g.progress.put task (.received outcome) }
  else g

/-- A task gives its result to the callers that listen. -/
def complete (task : Nat) (g : Gateway σ) : Gateway σ :=
  match g.progress.get? task with
  | some (.settled result false) =>
    { g with relay := g.relay.complete task result, progress := g.progress.put task .done }
  | _ => g

/-- A task stops where it waits, or at its end. -/
def stop (task : Nat) (g : Gateway σ) : Gateway σ :=
  if g.isBusy task then g else { g with relay := g.relay.stop task }

variable [KeyValueStore σ]

/-- A task sends its request. -/
def send (task : Nat) (g : Gateway σ) : Gateway σ :=
  if g.works task && (g.sent.get? task).isNone then
    match g.plans.get? task with
    | some plan =>
      let (request, cache, store) := Backend.requestOf plan g.cache g.store
      { g with cache, store, sent := g.sent.put task request }
    | none => g
  else g

/-- An outcome is a 304 without an entry. -/
def misses (s : Signature) (outcome : Outcome) (cache : ConditionalCache) (store : σ) : Bool :=
  match outcome with
  | .ok response =>
    response.status.isNotModified && (ConditionalCache.load (ConditionalCache.storageKey s) cache store).1.isNone
  | .error _ => false

/-- A task settles its outcome with the entry. With a 304 it looks for the entry first, and if there is none it has to
invalidate the signature afterwards. -/
def settle (now : Instant) (task : Nat) (g : Gateway σ) : Gateway σ :=
  match g.progress.get? task, g.plans.get? task with
  | some (.received outcome), some plan =>
    if plan.useCache && misses plan.signature outcome g.cache g.store then
      let (_, cache, store) := ConditionalCache.load (ConditionalCache.storageKey plan.signature) g.cache g.store
      { g with cache, store, progress := g.progress.put task (.settled (Classify.classify outcome) true) }
    else
      let (outcome, cache, store) := Backend.settled now plan outcome g.cache g.store
      { g with cache, store, progress := g.progress.put task (.settled (Classify.classify outcome) false) }
  | _, _ => g

/-- A task whose 304 found no entry makes sure that there is none. -/
def forget (task : Nat) (g : Gateway σ) : Gateway σ :=
  match g.progress.get? task, g.plans.get? task with
  | some (.settled result true), some plan =>
    let (cache, store) := g.cache.invalidate plan.signature g.store
    { g with cache, store, progress := g.progress.put task (.settled result false) }
  | _, _ => g

/-- A caller takes its result, if it is there. -/
def take (w : Waiter Signature) (g : Gateway σ) : Option (Classified Json) × Gateway σ :=
  let (delivery, pool) := g.relay.pool.take w
  (delivery.map Backend.resultOf, { g with relay := { g.relay with pool } })

/-- Makes the next request of a signature unconditional. -/
def invalidate (s : Signature) (g : Gateway σ) : Gateway σ :=
  let (cache, store) := g.cache.invalidate s g.store
  { g with cache, store }

/-- Makes the next request of every signature unconditional. -/
def clear (g : Gateway σ) : Gateway σ :=
  let (cache, store) := g.cache.clear g.store
  { g with cache, store }

/-- What can happen to a gateway. -/
inductive Event where
  | enter (s : Signature)
  | expedite (w : Waiter Signature)
  | begin (e : Exchange Signature) (useCache : Bool) (delay : DelayClass) (draw : Nat)
  | record (task : Nat)
  | deliver (task : Nat)
  | poll (task : Nat)
  | expire (task : Nat)
  | send (task : Nat)
  | receive (task : Nat) (outcome : Outcome)
  | settle (now : Instant) (task : Nat)
  | forget (task : Nat)
  | complete (task : Nat)
  | stop (task : Nat)
  | leave (w : Waiter Signature)
  | take (w : Waiter Signature)
  | invalidate (s : Signature)
  | clear
  deriving Repr

/-- The gateway after an event. -/
def step (g : Gateway σ) : Event → Gateway σ
  | .enter s => { g with relay := g.relay.step (.register s) }
  | .expedite w => { g with relay := g.relay.step (.expedite w) }
  | .begin e useCache delay draw => g.begin e useCache delay draw
  | .record task => { g with relay := g.relay.step (.record task) }
  | .deliver task => { g with relay := g.relay.step (.deliver task) }
  | .poll task => { g with relay := g.relay.step (.poll task) }
  | .expire task => { g with relay := g.relay.step (.expire task) }
  | .send task => g.send task
  | .receive task outcome => g.receive task outcome
  | .settle now task => g.settle now task
  | .forget task => g.forget task
  | .complete task => g.complete task
  | .stop task => g.stop task
  | .leave w => { g with relay := g.relay.step (.leave w) }
  | .take w => (g.take w).2
  | .invalidate s => g.invalidate s
  | .clear => g.clear

/-- The gateway after a run of events. -/
def run (g : Gateway σ) (events : List Event) : Gateway σ :=
  events.foldl step g

end Gateway

end Entitle
