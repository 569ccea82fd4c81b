import Entitle.Client.Basic

/-!
A client in use by many calls at once.

A call goes on step by step, and between two of its steps anything can happen: to other calls, to the exchanges,
to the ledger and to the cache. A call that nobody disturbs begins and ends as `Client.begin` and
`Client.resume` have it.
-/

namespace Entitle

open Flight

/-- How far a call has come. -/
inductive Stage where
  /-- It has read the ledger and knows what to ask for. -/
  | prepared (q : Inquiry)
  /-- It came first, and the exchange has no task yet. -/
  | launching (p : Pending) (e : Exchange Signature)
  | waiting (p : Pending)
  /-- It has the shared result, which the ledger has not seen yet. -/
  | served (p : Pending) (shared : Classified Json)
  | ended (reply : Classified Reply)
  | cancelled

namespace Stage

variable {σ : Type} [KeyValueStore σ]

/-- The stage in which a call begins. -/
def ofPrepared : Prepared → Stage
  | .answered reply => .ended (.ok reply)
  | .inquiry q => .prepared q

/-- The stage of a registered call. -/
def ofRegistration (q : Inquiry) (registration : Registration Signature) : Stage :=
  match registration.exchange with
  | some e => .launching ⟨q, registration.waiter⟩ e
  | none => .waiting ⟨q, registration.waiter⟩

/-- The next step of a call; a call that waits goes on when its result has come. -/
def advance (stage : Stage) (draw : Nat) (c : Client σ) : Stage × Client σ :=
  match stage with
  | .prepared q =>
    let (registration, backend) := c.backend.enter q.signature q.delay
    (ofRegistration q registration, { c with backend })
  | .launching p e => (.waiting p, { c with backend := c.backend.launch e p.useCache p.delay draw })
  | .waiting p =>
    let (result, backend) := c.backend.take p.waiter
    match result with
    | some shared => (.served p shared, { c with backend })
    | none => (.waiting p, { c with backend })
  | .served p shared =>
    let (reply, c) := c.finish p shared
    (.ended reply, c)
  | .ended reply => (.ended reply, c)
  | .cancelled => (.cancelled, c)

end Stage

/-- A client and its calls, in the order in which they began. -/
structure Traffic (σ : Type) where
  client : Client σ
  calls : List Stage := []

namespace Traffic

variable {σ : Type} [KeyValueStore σ]

/-- Nothing has happened on a client that was just opened. -/
def openOn (store : σ) (caching : Bool) (limits : Limits) : Traffic σ :=
  { client := .openOn store caching limits }

/-- Something happens to the backend alone. -/
def onBackend (f : Backend σ → Backend σ) (g : Traffic σ) : Traffic σ :=
  { g with client := { g.client with backend := f g.client.backend } }

/-- Begins a call. -/
def begin (call : Call) (g : Traffic σ) : Traffic σ :=
  { g with calls := g.calls ++ [.ofPrepared (call.prepare g.client.ledger)] }

/-- A call makes its next step. -/
def advance (i draw : Nat) (g : Traffic σ) : Traffic σ :=
  match g.calls[i]? with
  | some stage =>
    let (stage, client) := stage.advance draw g.client
    { client, calls := g.calls.set i stage }
  | none => g

/-- The caller of a call leaves, if it still waits. -/
def cancel (i : Nat) (g : Traffic σ) : Traffic σ :=
  match g.calls[i]? with
  | some (.waiting p) => { client := g.client.cancel p, calls := g.calls.set i .cancelled }
  | _ => g

/-- What can happen to a client. -/
inductive Event where
  | begin (call : Call)
  | advance (i draw : Nat)
  | cancel (i : Nat)
  | poll (task : Nat)
  | expire (task : Nat)
  | answer (now : Instant) (task : Nat) (outcome : Outcome)
  | fail (task : Nat)
  | invalidateCustomer (user : String)
  | clearCaches
  /-- Transactions were acknowledged elsewhere. -/
  | mark (ids : List String)
  | reset
  deriving Repr

/-- The client after an event. -/
def step (g : Traffic σ) : Event → Traffic σ
  | .begin call => g.begin call
  | .advance i draw => g.advance i draw
  | .cancel i => g.cancel i
  | .poll task => g.onBackend (·.poll task)
  | .expire task => g.onBackend (·.expire task)
  | .answer now task outcome => g.onBackend (·.answer now task outcome)
  | .fail task => g.onBackend (·.fail task)
  | .invalidateCustomer user => { g with client := g.client.invalidateCustomer user }
  | .clearCaches => { g with client := g.client.clearCaches }
  | .mark ids => { g with client := (g.client.markSynced ids).2 }
  | .reset => { g with client := g.client.resetLedger.2 }

/-- The client after a run of events. -/
def run (g : Traffic σ) (events : List Event) : Traffic σ :=
  events.foldl step g

end Traffic

end Entitle
