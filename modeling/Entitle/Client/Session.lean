import Entitle.Client.Basic

/-!
A client on a transport whose outcomes are given in advance.

An exchange takes the next outcome when its request is sent, and holds it until it goes on. Calls can be begun
side by side, and then everything that is held goes on in the order of sending.
-/

namespace Entitle

open Flight

/-- A client, the outcomes to come and those that exchanges hold. -/
structure Session (σ : Type) where
  client : Client σ
  outcomes : List Outcome
  /-- By task, in the order of sending. -/
  held : Table Nat Outcome := []

/-- A call: answered, or waiting. -/
inductive Slot where
  | answered (reply : Classified Reply)
  | waiting (p : Pending)

namespace Session

variable {σ : Type} [KeyValueStore σ]

/-- What an exchange gets when no outcome is left. -/
def exhausted : Outcome :=
  .error (.other "no scripted response")

/-- An exchange takes the next outcome. -/
def hold (s : Session σ) (task : Nat) : Session σ :=
  match s.outcomes with
  | outcome :: outcomes => { s with outcomes, held := s.held.put task outcome }
  | [] => { s with held := s.held.put task exhausted }

/-- Lets every exchange run until its request is sent. -/
def settle (s : Session σ) : Session σ :=
  let s := { s with client := s.client.settle }
  ((s.client.backend.sent.drop s.held.length).map Prod.fst).foldl hold s

/-- Begins a call. -/
def begin (call : Call) (draw : Nat) (s : Session σ) : Slot × Session σ :=
  let (begun, client) := s.client.begin call draw
  let s := { s with client }.settle
  match begun with
  | .answered reply => (.answered (.ok reply), s)
  | .pending p => (.waiting p, s)

/-- The caller of a call leaves, if it still waits. -/
def cancel (slot : Slot) (s : Session σ) : Session σ :=
  match slot with
  | .answered _ => s
  | .waiting p => { s with client := s.client.cancel p }.settle

/-- The next thing that happens by itself: the outcome of the oldest request comes in, or, with no request on the
way, the oldest start delay ends. -/
def advance (now : Instant) (s : Session σ) : Session σ :=
  let b := s.client.backend
  match s.held.find? fun (task, _) => b.isSending task with
  | some (task, outcome) => { s with client := { s.client with backend := b.answer now task outcome } }.settle
  | none =>
    match b.pool.dispatcher.sleeping with
    | task :: _ => { s with client := { s.client with backend := b.expire task } }.settle
    | [] => s

/-- Ends the calls whose results have come. -/
def resume : List Slot → Session σ → List Slot × Session σ
  | [], s => ([], s)
  | .answered reply :: rest, s =>
    let (rest, s) := resume rest s
    (.answered reply :: rest, s)
  | .waiting p :: rest, s =>
    let (reply, client) := s.client.resume p
    let slot := match reply with
      | some reply => .answered reply
      | none => .waiting p
    let (rest, s) := resume rest { s with client }
    (slot :: rest, s)

/-- Lets things happen, a number of them at most. -/
def drain (now : Instant) : Nat → List Slot → Session σ → List Slot × Session σ
  | 0, slots, s => (slots, s)
  | count + 1, slots, s =>
    let (slots, s) := resume slots (s.advance now)
    drain now count slots s

/-- Ends the calls. A task sleeps once and is answered once at most, so that many things can happen. -/
def finish (now : Instant) (slots : List Slot) (s : Session σ) : List Slot × Session σ :=
  drain now (2 * s.client.backend.pool.tasks.length) slots s

/-- Makes a call from its beginning to its end. -/
def perform (now : Instant) (call : Call) (draw : Nat) (s : Session σ) : Slot × Session σ :=
  let (slot, s) := s.begin call draw
  let (slots, s) := s.finish now [slot]
  (slots.headD slot, s)

/-- Builds the client anew on a store. -/
def restart (client : Client σ) (s : Session σ) : Session σ :=
  { s with client, held := [] }

end Session

/-! ## One after the other -/

/-- The reply of a call that has been answered. -/
def Slot.reply? : Slot → Option (Classified Reply)
  | .answered reply => some reply
  | .waiting _ => none

/-- What is done with a client. -/
inductive Action where
  /-- A call from its beginning to its end, with the clock and the random number of its start delay. -/
  | call (now : Instant) (call : Call) (draw : Nat)
  | invalidateCustomer (user : String)
  | clearCaches
  | mark (id : String)
  | markAll (ids : List String)
  | resetLedger
  /-- The client is dropped, and built anew on what its store holds. -/
  | restart
  deriving Repr

/-- The client is built anew. -/
def Action.isRestart : Action → Bool
  | .restart => true
  | _ => false

/-- What an action answers. -/
inductive Answer where
  /-- Of a call; none while it waits. -/
  | reply (reply : Option (Classified Reply))
  | isNew (result : Except StoreError Bool)
  | count (result : Except StoreError Nat)
  | reset (result : Except StoreError Unit)
  | done

/-- What an action shows: the requests that it sent and its answer. -/
structure Report where
  sent : List Request
  answer : Answer

namespace Session

variable {σ : Type} [KeyValueStore σ]

/-- Does one thing; `rebuild` makes a client on what a store holds. -/
def act (rebuild : σ → Client σ) (action : Action) (s : Session σ) : Answer × Session σ :=
  match action with
  | .call now call draw =>
    let (slot, s) := s.perform now call draw
    (.reply slot.reply?, s)
  | .invalidateCustomer user => (.done, { s with client := s.client.invalidateCustomer user })
  | .clearCaches => (.done, { s with client := s.client.clearCaches })
  | .mark id =>
    let (result, ledger, store) := s.client.ledger.mark id s.client.backend.store
    (.isNew result, { s with client.ledger := ledger, client.backend.store := store })
  | .markAll ids =>
    let (result, client) := s.client.markSynced ids
    (.count result, { s with client })
  | .resetLedger =>
    let (result, client) := s.client.resetLedger
    (.reset result, { s with client })
  | .restart => (.done, s.restart (rebuild s.client.backend.store))

/-- Does one thing, and reports it. -/
def step (rebuild : σ → Client σ) (action : Action) (s : Session σ) : Report × Session σ :=
  let (answer, after) := s.act rebuild action
  (⟨(after.client.backend.sent.drop s.client.backend.sent.length).map Prod.snd, answer⟩, after)

/-- Does one thing after the other, and reports each but the restarts. -/
def reports (rebuild : σ → Client σ) : List Action → Session σ → List Report
  | [], _ => []
  | action :: actions, s =>
    let (report, s) := s.step rebuild action
    let others := reports rebuild actions s
    if action.isRestart then others else report :: others

end Session

end Entitle
