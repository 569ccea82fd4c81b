import Entitle.Backend
import Entitle.Client.Endpoint
import Entitle.Ledger
import Entitle.Responses

/-!
The calls of a client.

A call begins by asking the backend and ends when the shared result has come. The upload of a receipt leaves
out what the ledger knows, and sends nothing when nothing is left; afterwards the ledger takes up what was
sent, if the server accepted it or rejected it for good.
-/

namespace Entitle

open Flight

/-- A backend and a ledger on one store. -/
structure Client (σ : Type) where
  backend : Backend σ
  ledger : Ledger

/-- What a caller asks for. -/
inductive Call where
  | offerings (user : String) (delay : DelayClass)
  | customerInfo (user : String) (delay : DelayClass)
  | productsEntitlements (delay : DelayClass)
  | postReceipt (receipt : Receipt)
  | postAttributes (user : String) (changes : KeyMap Attribute)
  /-- Any request, without a type for its payload. -/
  | request (signature : Signature) (useCache : Bool) (delay : DelayClass)
  deriving Repr

/-- What a caller gets. -/
inductive Reply where
  | offerings (value : Offerings)
  | customerInfo (value : CustomerInfo)
  | productsEntitlements (value : ProductsEntitlements)
  /-- Every transaction was acknowledged before, and nothing was sent. -/
  | alreadySynced
  | done
  | payload (value : Json)

/-- The reply as it is shown. -/
def Reply.toJson : Reply → Json
  | .offerings value => value.toJson
  | .customerInfo value => value.toJson
  | .productsEntitlements value => value.toJson
  | .alreadySynced => .object [("status", .string "already_synced")]
  | .done => .null
  | .payload value => value

/-- What a call asks the backend for. -/
structure Inquiry where
  call : Call
  signature : Signature
  useCache : Bool := false
  delay : DelayClass := .immediate
  /-- The transactions sent with a receipt. -/
  unsynced : List String := []
  deriving Repr

/-- A call that waits for its result. -/
structure Pending extends Inquiry where
  waiter : Waiter Signature
  deriving Repr

/-- A call before it asks: answered at once, or with something to ask for. -/
inductive Prepared where
  | answered (reply : Reply)
  | inquiry (q : Inquiry)

/-- A call that has begun: answered at once, or waiting. -/
inductive Begun where
  | answered (reply : Reply)
  | pending (p : Pending)

/-- What a call asks for, with the ledger as it is. -/
def Call.prepare (call : Call) (ledger : Ledger) : Prepared :=
  match call with
  | .offerings user delay => .inquiry { call, signature := Endpoint.offerings user, useCache := true, delay }
  | .customerInfo user delay => .inquiry { call, signature := Endpoint.customerInfo user, useCache := true, delay }
  | .productsEntitlements delay =>
    .inquiry { call, signature := Endpoint.productsEntitlements, useCache := true, delay }
  | .request signature useCache delay => .inquiry { call, signature, useCache, delay }
  | .postReceipt receipt =>
    let unsynced := ledger.filterUnsynced receipt.transactions
    if unsynced.isEmpty && !receipt.isReceiptOnly then .answered .alreadySynced
    else .inquiry { call, signature := Endpoint.receipt receipt unsynced, unsynced }
  | .postAttributes user changes =>
    if changes.isEmpty then .answered .done
    else .inquiry { call, signature := Endpoint.attributes user changes }

/-- The payload of a result as what the call asks for. -/
def Call.read (call : Call) (payload : Json) : Classified Reply :=
  match call with
  | .offerings .. => (Classify.decode Offerings.decoder payload).map .offerings
  | .customerInfo .. | .postReceipt .. => (Classify.decode CustomerInfo.decoder payload).map .customerInfo
  | .productsEntitlements .. => (Classify.decode ProductsEntitlements.decoder payload).map .productsEntitlements
  | .postAttributes .. => .ok .done
  | .request .. => .ok (.payload payload)

namespace Client

variable {σ : Type} [KeyValueStore σ]

/-- A client on a store, with the ledger that the store holds. -/
def openOn (store : σ) (caching : Bool) (limits : Limits) : Client σ :=
  let (ledger, store) := Ledger.openFrom store
  ⟨.openOn store caching limits, ledger⟩

/-- Asks the backend; a delayed exchange starts as late as the draw says. -/
def ask (q : Inquiry) (draw : Nat) (c : Client σ) : Pending × Client σ :=
  let (waiter, backend) := c.backend.call q.signature q.useCache q.delay draw
  (⟨q, waiter⟩, { c with backend })

/-- Begins a call. -/
def begin (call : Call) (draw : Nat) (c : Client σ) : Begun × Client σ :=
  match call.prepare c.ledger with
  | .answered reply => (.answered reply, c)
  | .inquiry q =>
    let (p, c) := c.ask q draw
    (.pending p, c)

/-- Records transactions; a failure to write is not reported. -/
def recordSynced (ids : List String) (c : Client σ) : Client σ :=
  let (_, ledger, store) := c.ledger.markAll ids c.backend.store
  { c with ledger, backend.store := store }

/-- What was sent with a receipt counts as acknowledged after a success and after a final rejection. -/
def settlesReceipt : Classified Reply → Bool
  | .ok _ => true
  | .error e => e.isFinishable

/-- Ends a call with the shared result of its exchange. -/
def finish (p : Pending) (result : Classified Json) (c : Client σ) : Classified Reply × Client σ :=
  let reply := result.bind p.call.read
  match p.call with
  | .postReceipt _ => (reply, if settlesReceipt reply then c.recordSynced p.unsynced else c)
  | _ => (reply, c)

/-- Ends a call if its result has come. -/
def resume (p : Pending) (c : Client σ) : Option (Classified Reply) × Client σ :=
  let (result, backend) := c.backend.take p.waiter
  let c := { c with backend }
  match result with
  | some result =>
    let (reply, c) := c.finish p result
    (some reply, c)
  | none => (none, c)

/-- The caller of a call leaves. -/
def cancel (p : Pending) (c : Client σ) : Client σ :=
  { c with backend := c.backend.leave p.waiter }

/-- Makes the next requests about a user unconditional. -/
def invalidateCustomer (user : String) (c : Client σ) : Client σ :=
  { c with backend := (c.backend.invalidate (Endpoint.customerInfo user)).invalidate (Endpoint.offerings user) }

/-- Makes every next request unconditional. -/
def clearCaches (c : Client σ) : Client σ :=
  { c with backend := c.backend.clear }

/-- Records transactions that were acknowledged elsewhere, and says how many were new. -/
def markSynced (ids : List String) (c : Client σ) : Except StoreError Nat × Client σ :=
  let (result, ledger, store) := c.ledger.markAll ids c.backend.store
  (result, { c with ledger, backend.store := store })

/-- Forgets every acknowledged transaction. -/
def resetLedger (c : Client σ) : Except StoreError Unit × Client σ :=
  let (result, ledger, store) := c.ledger.reset c.backend.store
  (result, { c with ledger, backend.store := store })

/-- Lets every exchange run as far as it can. -/
def settle (c : Client σ) : Client σ :=
  { c with backend := c.backend.settle }

end Client

end Entitle
