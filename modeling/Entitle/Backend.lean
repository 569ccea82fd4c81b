import Entitle.Cache.Conditional
import Entitle.Classify
import Entitle.Flight.Pool

/-!
Requests on the way: coalesced, dispatched, revalidated and classified.

Callers with one signature share one exchange, and each gets the one classified result of that exchange. The
caller that starts an exchange decides whether it uses the cache: then the known tag is attached when it is
sent, and the outcome is settled with the entry before it is classified. Any other exchange neither reads nor
changes the cache.
-/

namespace Entitle

open Flight

/-- What an exchange is for. -/
structure Plan where
  signature : Signature
  useCache : Bool
  deriving DecidableEq, Repr

/-- Cache, store and exchanges of one backend. -/
structure Backend (σ : Type) where
  store : σ
  cache : ConditionalCache := {}
  /-- Caching as a whole can be switched off. -/
  caching : Bool := true
  limits : Limits := {}
  pool : Pool Signature (Classified Json)
  /-- What the exchange of a task is for. -/
  plans : Table Nat Plan := []
  /-- The request that a task sent, in the order of sending. -/
  sent : Table Nat Request := []

namespace Backend

variable {σ : Type}

/-- A backend on a store, with nothing in flight. -/
def openOn (store : σ) (caching : Bool) (limits : Limits) : Backend σ :=
  { store, caching, limits, pool := .ofLimits limits }

/-- The number of exchanges that someone waits for. -/
def inFlight (b : Backend σ) : Nat :=
  b.pool.coalescer.registry.inFlight

/-- Someone waits for the exchange of a signature. -/
def isInFlight (b : Backend σ) (s : Signature) : Bool :=
  b.pool.coalescer.registry.isInFlight s

/-- A task has a permit and has not sent its request. -/
def mustSend (b : Backend σ) (task : Nat) : Bool :=
  task ∈ b.pool.dispatcher.running && (b.sent.get? task).isNone

/-- A task has sent its request and waits for the outcome. -/
def isSending (b : Backend σ) (task : Nat) : Bool :=
  task ∈ b.pool.dispatcher.running && (b.sent.get? task).isSome

/-- A caller joins the exchange in flight for a signature, or gets one to launch. A caller that cannot wait cuts
the start delay of the exchange that it joins. -/
def enter (s : Signature) (delay : DelayClass) (b : Backend σ) : Registration Signature × Backend σ :=
  let (registration, pool) := b.pool.register s
  let pool := if registration.exchange.isNone && delay = .immediate then pool.expedite registration.waiter else pool
  (registration, { b with pool })

/-- Starts the task of an exchange. -/
def launch (e : Exchange Signature) (useCache : Bool) (delay : DelayClass) (draw : Nat) (b : Backend σ) :
    Backend σ :=
  let (task, pool) := b.pool.dispatch e (delay.sample b.limits draw)
  let plans := match task with
    | some task => b.plans.put task ⟨e.key, useCache && b.caching⟩
    | none => b.plans
  { b with pool, plans }

/-- Joins the exchange in flight for a signature, or starts one. -/
def call (s : Signature) (useCache : Bool) (delay : DelayClass) (draw : Nat) (b : Backend σ) :
    Waiter Signature × Backend σ :=
  let (registration, b) := b.enter s delay
  match registration.exchange with
  | some e => (registration.waiter, b.launch e useCache delay draw)
  | none => (registration.waiter, b)

variable [KeyValueStore σ]

/-- The request of an exchange. -/
def requestOf (plan : Plan) (cache : ConditionalCache) (store : σ) : Request × ConditionalCache × σ :=
  if plan.useCache then cache.attach plan.signature (.ofSignature plan.signature) store
  else (.ofSignature plan.signature, cache, store)

/-- What the classifier sees of an outcome. -/
def settled (now : Instant) (plan : Plan) (outcome : Outcome) (cache : ConditionalCache) (store : σ) :
    Outcome × ConditionalCache × σ :=
  if plan.useCache then cache.record now plan.signature outcome store else (outcome, cache, store)

/-- A task with a permit sends its request. -/
def send (task : Nat) (b : Backend σ) : Backend σ :=
  match b.plans.get? task with
  | some plan =>
    let (request, cache, store) := requestOf plan b.cache b.store
    { b with cache, store, sent := b.sent.put task request }
  | none => b

/-- A task runs as far as it can: into its start delay, to the queue for a permit, or until its request is
sent. -/
def poll (task : Nat) (b : Backend σ) : Backend σ :=
  let b := { b with pool := b.pool.poll task }
  if b.mustSend task then b.send task else b

/-- The start delay of a task is over. -/
def expire (task : Nat) (b : Backend σ) : Backend σ :=
  { b with pool := b.pool.expire task }

/-- The outcome of an exchange comes in. -/
def answer (now : Instant) (task : Nat) (outcome : Outcome) (b : Backend σ) : Backend σ :=
  if b.isSending task then
    match b.plans.get? task with
    | some plan =>
      let (outcome, cache, store) := settled now plan outcome b.cache b.store
      { b with cache, store, pool := b.pool.finish task (Classify.classify outcome) }
    | none => b
  else b

/-- A task fails without a result. -/
def fail (task : Nat) (b : Backend σ) : Backend σ :=
  { b with pool := b.pool.stop task }

/-- A caller leaves. -/
def leave (w : Waiter Signature) (b : Backend σ) : Backend σ :=
  { b with pool := b.pool.leave w }

/-- What a caller makes of a delivery. -/
def resultOf : Delivery (Classified Json) → Classified Json
  | .value result => result
  | .abandoned => .error (.network .abandoned)

/-- A caller takes its result, if it is there. -/
def take (w : Waiter Signature) (b : Backend σ) : Option (Classified Json) × Backend σ :=
  let (delivery, pool) := b.pool.take w
  (delivery.map resultOf, { b with pool })

/-- Makes the next request of a signature unconditional. -/
def invalidate (s : Signature) (b : Backend σ) : Backend σ :=
  let (cache, store) := b.cache.invalidate s b.store
  { b with cache, store }

/-- Makes the next request of every signature unconditional. -/
def clear (b : Backend σ) : Backend σ :=
  let (cache, store) := b.cache.clear b.store
  { b with cache, store }

/-- Lets every task run as far as it can. -/
def settle (b : Backend σ) : Backend σ :=
  let d := b.pool.dispatcher
  (d.running ++ d.fresh.map Prod.fst ++ d.sleeping).foldl (fun b task => b.poll task) b

/-- What can happen to a backend; between the two halves of a call anything else can. -/
inductive Event where
  | enter (s : Signature) (delay : DelayClass)
  | launch (e : Exchange Signature) (useCache : Bool) (delay : DelayClass) (draw : Nat)
  | poll (task : Nat)
  | expire (task : Nat)
  | answer (now : Instant) (task : Nat) (outcome : Outcome)
  | fail (task : Nat)
  | leave (w : Waiter Signature)
  | take (w : Waiter Signature)
  | invalidate (s : Signature)
  | clear
  deriving Repr

/-- The backend after an event. -/
def step (b : Backend σ) : Event → Backend σ
  | .enter s delay => (b.enter s delay).2
  | .launch e useCache delay draw => b.launch e useCache delay draw
  | .poll task => b.poll task
  | .expire task => b.expire task
  | .answer now task outcome => b.answer now task outcome
  | .fail task => b.fail task
  | .leave w => b.leave w
  | .take w => (b.take w).2
  | .invalidate s => b.invalidate s
  | .clear => b.clear

/-- The backend after a run of events. -/
def run (b : Backend σ) (events : List Event) : Backend σ :=
  events.foldl step b

end Backend

end Entitle
