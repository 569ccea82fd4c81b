import Entitle.Proofs.Classify
import Entitle.Proofs.Client.Traffic
import Entitle.Proofs.Ledger

/-!
# Receipts and the ledger

Main statement: `receipt_uploads`. Whatever other calls, marks, resets and exchanges do in between, the ledger takes
up what an upload sent if and only if the server accepted it or rejected it for good.

A call reads the ledger when it begins and writes it when it ends, so what it writes is what it asked for at its
beginning (`Traffic.Asked`), and whether it writes depends on nothing but the result that its callers share
(`mem_ledger_finish`).
-/

namespace Entitle

open Flight

/-! ### What counts as accepted -/

/-- The shared result of an upload is customer information, or a rejection that is no server error. -/
def Accepted (shared : Classified Json) : Prop :=
  (∃ payload info, shared = .ok payload ∧ CustomerInfo.decoder payload = .ok info) ∨
    ∃ error rejection, shared = .error error ∧ error.backend? = some rejection ∧ ¬ rejection.status.isServerError

/-- A response that makes an upload accepted: a success with customer information or with a partial rejection, or
a rejection that is no server error. A 304 is neither. -/
def Response.IsAcceptance (response : Response) : Prop :=
  if response.status.isSuccessful then
    ∃ payload, Json.read response.body = .ok payload ∧
      ((Classify.partialRejection? response.status payload).isSome ∨ ∃ info, CustomerInfo.decoder payload = .ok info)
  else ¬ response.status.isNotModified ∧ ¬ response.status.isServerError

namespace RequestError

@[simp]
theorem isFinishable_network (error : TransportError) : (network error).isFinishable = false := rfl

@[simp]
theorem isFinishable_malformed (reason body : String) : (malformed reason body).isFinishable = false := rfl

@[simp]
theorem isFinishable_ofBackend (e : BackendError) : (ofBackend e).isFinishable = !e.status.isServerError := by
  unfold ofBackend
  split <;> rfl

end RequestError

theorem accepted_ok {payload : Json} : Accepted (.ok payload) ↔ ∃ info, CustomerInfo.decoder payload = .ok info := by
  simp [Accepted]

theorem accepted_error {error : RequestError} : Accepted (.error error) ↔ error.isFinishable := by
  simp only [Accepted, RequestError.isFinishable, BackendError.isFinishable, Status.isFinishable]
  cases h : error.backend? <;> simp [h]

theorem not_accepted_network (error : TransportError) : ¬ Accepted (.error (.network error)) := by
  simp [accepted_error]

theorem Status.not_isServerError_of_isSuccessful {s : Status} (h : s.isSuccessful) : s.isServerError = false := by
  simp only [isSuccessful, isServerError, Bool.and_eq_true, Bool.and_eq_false_iff, decide_eq_true_eq,
    decide_eq_false_iff_not] at h ⊢
  omega

/-- An upload is accepted if and only if its response is an acceptance. -/
theorem accepted_classify (outcome : Outcome) :
    Accepted (Classify.classify outcome) ↔ ∃ response, outcome = .ok response ∧ response.IsAcceptance := by
  cases outcome with
  | error e => simp [Classify.classify, accepted_error]
  | ok response =>
    simp only [Except.ok.injEq, exists_eq_left', Response.IsAcceptance, Classify.classify]
    split
    · next hok =>
      unfold Classify.success
      cases Json.read response.body with
      | error fault => simp [accepted_error]
      | ok payload =>
        cases hp : Classify.partialRejection? response.status payload with
        | none => simp [hp, accepted_ok]
        | some e =>
          -- a partial rejection has the status of the success that it came with
          have hserver := Status.not_isServerError_of_isSuccessful hok
          simp [hp, accepted_error, Classify.partialRejection?_status hp, hserver]
    · split
      · next h304 => simp [h304, accepted_error]
      · next h304 => simp [h304, accepted_error, Classify.backendError, BackendError.ofPairs]

theorem settlesReceipt_iff {call : Call} {receipt : Receipt} (hcall : call = .postReceipt receipt)
    (shared : Classified Json) : Client.settlesReceipt (shared.bind call.read) ↔ Accepted shared := by
  subst hcall
  cases shared with
  | error e => exact accepted_error.symm
  | ok payload =>
    rw [accepted_ok]
    show Client.settlesReceipt ((Classify.decode CustomerInfo.decoder payload).map Reply.customerInfo) ↔ _
    unfold Classify.decode
    cases CustomerInfo.decoder payload with
    | ok info => simp [Except.map, Client.settlesReceipt]
    | error mismatch => simp [Except.map, Client.settlesReceipt]

/-! ### Before and after -/

theorem Call.of_prepare {call : Call} {ledger : Ledger} {q : Inquiry} (h : call.prepare ledger = .inquiry q) :
    q.call = call ∧ (q.useCache → q.signature.method = .get ∨ ∃ delay, call = .request q.signature true delay) ∧
      ∀ receipt, call = .postReceipt receipt →
        q.signature = Endpoint.receipt receipt q.unsynced ∧
          q.unsynced = ledger.filterUnsynced receipt.transactions := by
  cases call with
  | postReceipt receipt =>
    simp only [prepare] at h
    split at h
    · cases h
    · cases h
      exact ⟨rfl, by simp, by simp⟩
  | postAttributes user changes =>
    simp only [prepare] at h
    split at h
    · cases h
    · cases h
      exact ⟨rfl, by simp, by simp⟩
  | request s useCache delay =>
    cases h
    exact ⟨rfl, fun huse => .inr ⟨delay, congrArg (request s · delay) huse⟩, by simp⟩
  | _ =>
    cases h
    exact ⟨rfl, fun _ => .inl rfl, by simp⟩

/-- A receipt is not sent if and only if it has transactions, is no restore, and the ledger has them all. -/
theorem Call.prepare_eq_alreadySynced {call : Call} {ledger : Ledger} :
    call.prepare ledger = .answered .alreadySynced ↔ ∃ receipt, call = .postReceipt receipt ∧
      ¬ receipt.isReceiptOnly ∧ ∀ id ∈ receipt.transactions, id ∈ ledger.ids := by
  cases call with
  | postReceipt receipt =>
    have hempty : (ledger.filterUnsynced receipt.transactions).isEmpty ↔
        ∀ id ∈ receipt.transactions, id ∈ ledger.ids := by
      simp [List.isEmpty_iff, List.eq_nil_iff_forall_not_mem, Ledger.mem_filterUnsynced]
    simp only [prepare, Call.postReceipt.injEq, exists_eq_left', ← hempty]
    cases (ledger.filterUnsynced receipt.transactions).isEmpty <;> cases receipt.isReceiptOnly <;> simp
  | postAttributes user changes =>
    simp only [prepare, reduceCtorEq, false_and, exists_false, iff_false]
    split <;> simp
  | _ => simp [prepare]

namespace Client
variable {σ : Type} [KeyValueStore σ] {p : Pending}

theorem finish_fst (p : Pending) (shared : Classified Json) (c : Client σ) :
    (c.finish p shared).1 = shared.bind p.call.read := by
  unfold finish
  split <;> rfl

theorem finish_of_not_accepted {shared : Classified Json} (h : ¬ Accepted shared) (c : Client σ) :
    (c.finish p shared).2 = c := by
  unfold finish
  split
  · next receipt hcall => exact if_neg fun hs => h ((settlesReceipt_iff hcall shared).1 hs)
  · rfl

/-- What the ledger holds after the end of a call: what an accepted upload sent, if it can be written. -/
theorem mem_ledger_finish (p : Pending) (shared : Classified Json) (c : Client σ) (id : String) :
    id ∈ (c.finish p shared).2.ledger.ids ↔ id ∈ c.ledger.ids ∨
      (∃ receipt, p.call = .postReceipt receipt) ∧ Accepted shared ∧ id ∈ p.unsynced ∧
        ∃ added, (c.ledger.markAll p.unsynced c.backend.store).1 = .ok added := by
  by_cases hshared : Accepted shared
  · unfold finish
    split
    · next receipt hcall =>
      simp only [if_pos ((settlesReceipt_iff hcall shared).2 hshared)]
      exact (Ledger.mem_markAll p.unsynced c.ledger c.backend.store id).trans (by simp [hcall, hshared])
    · next hcall =>
      refine ⟨.inl, ?_⟩
      rintro (h | ⟨⟨receipt, hc⟩, -⟩)
      · exact h
      · exact (hcall receipt hc).elim
  · simp [finish_of_not_accepted hshared, hshared]

theorem finish_ne_alreadySynced (p : Pending) (shared : Classified Json) (c : Client σ) :
    (c.finish p shared).1 ≠ .ok .alreadySynced := by
  rw [finish_fst]
  cases shared with
  | error e => simp [Except.bind]
  | ok payload =>
    show p.call.read payload ≠ _
    have hmap : ∀ {α : Type} (f : α → Reply) (x : Classified α), (∀ a, f a ≠ .alreadySynced) →
        x.map f ≠ .ok .alreadySynced := fun f x hf => by cases x <;> simp [Except.map, hf]
    cases p.call with
    | postAttributes user changes => simp [Call.read]
    | request s useCache delay => simp [Call.read]
    | _ => exact hmap _ _ (by simp)

end Client

theorem Stage.eq_of_advance_alreadySynced {σ : Type} [KeyValueStore σ] {stage : Stage} {draw : Nat} {c : Client σ}
    (h : (stage.advance draw c).1 = .ended (.ok .alreadySynced)) : stage = .ended (.ok .alreadySynced) := by
  cases stage with
  | prepared q =>
    simp only [advance, ofRegistration] at h
    split at h <;> cases h
  | launching p e => cases h
  | waiting p =>
    rw [advance_waiting] at h
    cases hr : (c.backend.take p.waiter).1 <;> simp [hr] at h
  | served p shared => exact absurd (Stage.ended.inj h) (Client.finish_ne_alreadySynced p shared c)
  | ended reply => exact h
  | cancelled => cases h

namespace Traffic
variable {σ : Type} [KeyValueStore σ] {g start : Traffic σ} {events : List Event} {i : Nat}

theorem ledger_step (g : Traffic σ) (event : Event) :
    (g.step event).client.ledger = g.client.ledger ∨
      (∃ ids, event = .mark ids ∧
        (g.step event).client.ledger = (g.client.ledger.markAll ids g.client.backend.store).2.1) ∨
      (event = .reset ∧ (g.step event).client.ledger = (g.client.ledger.reset g.client.backend.store).2.1) ∨
      ∃ i draw p shared, event = .advance i draw ∧ g.calls[i]? = some (.served p shared) ∧
        (g.step event).client = (g.client.finish p shared).2 := by
  cases event with
  | advance i draw =>
    simp only [step, advance]
    cases hi : g.calls[i]? with
    | none => exact .inl rfl
    | some stage =>
      cases stage with
      | served p shared => exact .inr (.inr (.inr ⟨i, draw, p, shared, rfl, hi, rfl⟩))
      | waiting p =>
        simp only [Stage.advance_waiting]
        exact .inl trivial
      | _ => exact .inl rfl
  | cancel i =>
    simp only [step, cancel]
    split <;> exact .inl rfl
  | mark ids => exact .inr (.inl ⟨ids, rfl, rfl⟩)
  | reset => exact .inr (.inr (.inl ⟨rfl, rfl⟩))
  | _ => exact .inl rfl

/-- An identifier gets into the ledger by a mark, or at the end of an upload that sent it and was accepted. -/
theorem of_mem_ledger_step {event : Event} {id : String} (h : id ∈ (g.step event).client.ledger.ids)
    (hnew : id ∉ g.client.ledger.ids) :
    (∃ ids, event = .mark ids ∧ id ∈ ids) ∨
      ∃ i draw p shared receipt, event = .advance i draw ∧ g.calls[i]? = some (.served p shared) ∧
        p.call = .postReceipt receipt ∧ id ∈ p.unsynced ∧ Accepted shared := by
  rcases g.ledger_step event with hl | ⟨ids, rfl, hl⟩ | ⟨rfl, hl⟩ | ⟨i, draw, p, shared, rfl, hi, hc⟩
  · exact absurd (hl ▸ h) hnew
  · rw [hl] at h
    rcases (Ledger.mem_markAll ids g.client.ledger g.client.backend.store id).1 h with hold | ⟨hid, -⟩
    · exact absurd hold hnew
    · exact .inl ⟨ids, rfl, hid⟩
  · rw [hl] at h
    exact absurd (Ledger.mem_of_mem_reset h) hnew
  · rw [hc] at h
    rcases (Client.mem_ledger_finish p shared g.client id).1 h with hold | ⟨⟨receipt, hp⟩, hshared, hid, -⟩
    · exact absurd hold hnew
    · exact .inr ⟨i, draw, p, shared, receipt, rfl, hi, hp, hid, hshared⟩

/-- An identifier leaves the ledger by a reset only. -/
theorem eq_reset_of_not_mem_ledger {event : Event} {id : String} (h : id ∈ g.client.ledger.ids)
    (hgone : id ∉ (g.step event).client.ledger.ids) : event = .reset := by
  rcases g.ledger_step event with hl | ⟨ids, rfl, hl⟩ | ⟨rfl, hl⟩ | ⟨i, draw, p, shared, rfl, hi, hc⟩
  · exact absurd (hl ▸ h) hgone
  · rw [hl] at hgone
    exact absurd ((Ledger.mem_markAll ids g.client.ledger g.client.backend.store id).2 (.inl h)) hgone
  · rfl
  · rw [hc] at hgone
    exact absurd ((Client.mem_ledger_finish p shared g.client id).2 (.inl h)) hgone

/-! ### Where a result comes from -/

/-- How the result of a call came about: its exchange was abandoned, or the outcome of the request that the call
asked for came in. The outcome is classified as it is, unless some call asked for the same with the cache. -/
def Delivered (start : Traffic σ) (events : List Event) (p : Pending) (shared : Classified Json) : Prop :=
  shared = .error (.network .abandoned) ∨
    ∃ before now task outcome mid request seen, events = before ++ .answer now task outcome :: mid ∧
      (start.run before).client.backend.pool.exchange? task = some p.waiter.exchange ∧
      (start.run before).client.backend.sending? task = some request ∧
      { request with headers := [] } = Request.ofSignature p.signature ∧ shared = Classify.classify seen ∧
      (seen = outcome ∨ ∃ delay, .begin (.request p.signature true delay) ∈ before)

omit [KeyValueStore σ] in
/-- Whatever is on the way in the exchange of a call is the request that it asked for. -/
theorem request_of_waiter (h : g.client.backend.Coherent) {p : Pending} (hkey : p.waiter.key = p.signature)
    {task : Nat} {request : Request} (hr : g.client.backend.sending? task = some request)
    (he : g.client.backend.pool.exchange? task = some p.waiter.exchange) :
    { request with headers := [] } = Request.ofSignature p.signature := by
  obtain ⟨e, he', hreq⟩ := h.exchange_of_sending? hr
  rw [he] at he'
  cases he'
  exact hreq.trans (congrArg Request.ofSignature hkey)

theorem Sound.asked (h : start.Sound events) {stage : Stage} (hi : (start.run events).calls[i]? = some stage)
    {q : Inquiry} (hq : stage.inquiry? = some q) : start.Asked events i q := by
  have hs := h.calls i stage hi
  cases stage with
  | prepared q' => cases hq; exact hs
  | launching p e => cases hq; exact hs.1
  | waiting p => cases hq; exact hs.1
  | served p shared => cases hq; exact hs.1
  | _ => cases hq

/-- A receipt is asked for with what the ledger did not have when the call began. -/
theorem Asked.receipt {q : Inquiry} (h : start.Asked events i q) {receipt : Receipt}
    (hcall : q.call = .postReceipt receipt) :
    q.signature = Endpoint.receipt receipt q.unsynced ∧ ∃ before mid, events = before ++ .begin q.call :: mid ∧
      (start.run before).calls.length = i ∧ ∀ id ∈ (start.run before).client.ledger.ids, id ∉ q.unsynced := by
  obtain ⟨before, call, mid, rfl, hlen, hq⟩ := h
  obtain ⟨rfl, -, hreceipt⟩ := Call.of_prepare hq
  obtain ⟨hs, hu⟩ := hreceipt receipt hcall
  refine ⟨hs, before, mid, rfl, hlen, fun id hid hmem => ?_⟩
  rw [hu, Ledger.mem_filterUnsynced] at hmem
  exact hmem.2 hid

theorem Sound.delivered (h : ∀ events, start.Sound events) {p : Pending} {shared : Classified Json}
    (hi : (start.run events).calls[i]? = some (.served p shared)) {receipt : Receipt}
    (hcall : p.call = .postReceipt receipt) : start.Delivered events p shared := by
  obtain ⟨hasked, hkey, d, ⟨before, event, mid, rfl, hend⟩, rfl⟩ := (h events).calls i _ hi
  rcases ends?_of_moves hend with ⟨now, task, outcome, rfl, hd⟩ | ⟨task, rfl, rfl⟩
  swap
  · exact .inl rfl
  simp only [Backend.ends?] at hd
  split at hd
  swap
  · cases hd
  next hans =>
  obtain ⟨hsend, hex⟩ := hans
  obtain ⟨plan, hplan, rfl⟩ := Option.map_eq_some_iff.1 hd
  obtain ⟨request, hsent⟩ : ∃ request, (start.run before).client.backend.sent.get? task = some request := by
    simp only [Backend.isSending, Bool.and_eq_true] at hsend
    exact Option.isSome_iff_exists.1 hsend.2
  have hsending : (start.run before).client.backend.sending? task = some request := by
    rw [Backend.sending?, if_pos hsend, hsent]
  obtain ⟨plan', hplan', hsig⟩ := (h before).coherent.planned task _ hex
  rw [hplan] at hplan'
  cases hplan'
  refine .inr ⟨before, now, task, outcome, mid, request, _, rfl, hex, hsending,
    request_of_waiter (h before).coherent hkey hsending hex, rfl, ?_⟩
  cases huse : plan.useCache with
  | false => exact .inl (by simp [Backend.settled, huse])
  | true =>
    -- a plan with the cache is that of a call which asked for it, and for a POST only a bare request does
    obtain ⟨j, q, ⟨earlier, call, later, rfl, -, hq⟩, hqs, hquse⟩ := (h before).plans task plan hplan huse
    obtain ⟨-, hcache, -⟩ := Call.of_prepare hq
    have hsame : q.signature = p.signature := hqs.trans (hsig.trans hkey)
    rcases hcache hquse with hget | ⟨delay, rfl⟩
    · rw [hsame, (hasked.receipt hcall).1] at hget
      cases hget
    · exact .inr ⟨delay, by simp [hsame]⟩

/-! ### Nothing to send -/

/-- The call at an index was for a receipt with nothing to send: no restore, and with transactions that were all in
the ledger when it began. -/
def Skipped (start : Traffic σ) (events : List Event) (i : Nat) : Prop :=
  ∃ before receipt mid, events = before ++ .begin (.postReceipt receipt) :: mid ∧
    (start.run before).calls.length = i ∧ ¬ receipt.isReceiptOnly ∧
    ∀ id ∈ receipt.transactions, id ∈ (start.run before).client.ledger.ids

theorem Skipped.concat (h : start.Skipped events i) (event : Event) : start.Skipped (events ++ [event]) i := by
  obtain ⟨before, receipt, mid, rfl, hi, hskip⟩ := h
  exact ⟨before, receipt, mid ++ [event], by simp, hi, hskip⟩

theorem ended_step {reply : Classified Reply} (h : g.calls[i]? = some (.ended reply)) (event : Event) :
    (g.step event).calls[i]? = some (.ended reply) := by
  cases event with
  | begin call => exact (List.getElem?_append_left (List.getElem?_eq_some_iff.1 h).1).trans h
  | advance j draw =>
    by_cases hij : j = i
    · subst hij
      exact calls_step_advance h draw
    · simp only [step, advance]
      split
      · exact (List.getElem?_set_ne hij).trans h
      · exact h
  | cancel j =>
    simp only [step, cancel]
    split
    · next p hj =>
      have hij : j ≠ i := fun hij => by rw [hij, h] at hj; cases hj
      exact (List.getElem?_set_ne hij).trans h
    · exact h
  | _ => exact h

theorem ended_run {reply : Classified Reply} (h : g.calls[i]? = some (.ended reply)) (events : List Event) :
    (g.run events).calls[i]? = some (.ended reply) := by
  induction events generalizing g with
  | nil => exact h
  | cons event rest ih => exact ih (ended_step h event)

theorem alreadySynced_iff (hnone : start.calls = []) :
    (start.run events).calls[i]? = some (.ended (.ok .alreadySynced)) ↔ start.Skipped events i := by
  constructor
  · intro h
    induction events using List.reverseRecOn with
    | nil =>
      change start.calls[i]? = _ at h
      rw [hnone] at h
      cases h
    | append_singleton events event ih =>
      rw [run_concat] at h
      rcases calls_step h with ⟨hold, -⟩ | ⟨call, rfl, rfl, hs⟩ | ⟨draw, old, rfl, hold, hs⟩ | ⟨-, hs⟩
      · exact (ih hold).concat event
      · cases hp : call.prepare (start.run events).client.ledger with
        | answered reply =>
          rw [hp] at hs
          cases hs
          obtain ⟨receipt, rfl, hskip⟩ := Call.prepare_eq_alreadySynced.1 hp
          exact ⟨events, receipt, [], rfl, rfl, hskip⟩
        | inquiry q => rw [hp] at hs; cases hs
      · rw [Stage.eq_of_advance_alreadySynced hs.symm] at hold
        exact (ih hold).concat _
      · cases hs
  · rintro ⟨before, receipt, mid, rfl, rfl, hskip⟩
    rw [run_append]
    refine ended_run (g := (start.run before).step (.begin (.postReceipt receipt))) ?_ mid
    have hp := Call.prepare_eq_alreadySynced.2 ⟨receipt, rfl, hskip⟩
    simp [step, begin, hp, Stage.ofPrepared]

/-- The ledger and the uploads, after any run. An identifier gets into the ledger by a mark, or at the end of an
upload that sent it and was accepted, and leaves it by a reset. A result is that of the request the upload asked for,
which every caller of the exchange asked for, and is accepted if and only if the response is an acceptance. At the end
of an upload the reply is that result, whatever the store does; without an acceptance nothing changes, and with one
all that was sent is in the ledger if it could be written. An upload sends nothing that the ledger had when it began.
It says that there was nothing to send if and only if there was nothing, and then it has asked for nothing. -/
theorem receipt_uploads (store : σ) (caching : Bool) (limits : Limits) (events : List Event) :
    let start := openOn store caching limits
    let g := start.run events
    (∀ event id, id ∈ (g.step event).client.ledger.ids → id ∉ g.client.ledger.ids →
      (∃ ids, event = .mark ids ∧ id ∈ ids) ∨
        ∃ i draw p shared receipt, event = .advance i draw ∧ g.calls[i]? = some (.served p shared) ∧
          p.call = .postReceipt receipt ∧ id ∈ p.unsynced ∧ Accepted shared) ∧
    (∀ event id, id ∈ g.client.ledger.ids → id ∉ (g.step event).client.ledger.ids → event = .reset) ∧
    ((∀ error, ¬ Accepted (.error (.network error))) ∧
      ∀ outcome, Accepted (Classify.classify outcome) ↔ ∃ response, outcome = .ok response ∧ response.IsAcceptance) ∧
    (∀ i p shared receipt, g.calls[i]? = some (.served p shared) → p.call = .postReceipt receipt →
      p.waiter.key = Endpoint.receipt receipt p.unsynced ∧ start.Delivered events p shared ∧ ∀ draw,
        let after := g.step (.advance i draw)
        after.calls[i]? = some (.ended (shared.bind p.call.read)) ∧
        (¬ Accepted shared → after.client = g.client) ∧
        (Accepted shared → ∀ added, (g.client.ledger.markAll p.unsynced g.client.backend.store).1 = .ok added →
          ∀ id ∈ p.unsynced, id ∈ after.client.ledger.ids)) ∧
    (∀ i stage q receipt, g.calls[i]? = some stage → stage.inquiry? = some q → q.call = .postReceipt receipt →
      q.signature = Endpoint.receipt receipt q.unsynced ∧ ∃ before mid, events = before ++ .begin q.call :: mid ∧
        (start.run before).calls.length = i ∧ ∀ id ∈ (start.run before).client.ledger.ids, id ∉ q.unsynced) ∧
    (∀ (i : Nat) p task request, g.calls[i]? = some (.waiting p) →
      g.client.backend.pool.exchange? task = some p.waiter.exchange →
      g.client.backend.sending? task = some request →
      { request with headers := [] } = Request.ofSignature p.signature) ∧
    (∀ i, g.calls[i]? = some (.ended (.ok .alreadySynced)) ↔ start.Skipped events i) ∧
    (∀ call, (g.step (.begin call)).client = g.client) ∧
    ∀ i draw reply, g.calls[i]? = some (.ended reply) → (g.step (.advance i draw)).client = g.client := by
  intro start g
  have hsound : ∀ events, start.Sound events := Sound.run store caching limits
  refine ⟨fun event id => of_mem_ledger_step, fun event id => eq_reset_of_not_mem_ledger,
    ⟨not_accepted_network, accepted_classify⟩, fun i p shared receipt hi hcall => ?_,
    fun i stage q receipt hi hq hcall => ?_, fun i p task request hi he hr => ?_,
    fun i => alreadySynced_iff rfl, fun call => rfl, fun i draw reply hi => ?_⟩
  · obtain ⟨hasked, hkey, -⟩ := (hsound events).calls i _ hi
    refine ⟨hkey.trans (hasked.receipt hcall).1, Sound.delivered hsound hi hcall, fun draw => ?_⟩
    have hafter : (g.step (.advance i draw)).client = (g.client.finish p shared).2 := by rw [step_advance hi]; rfl
    refine ⟨?_, fun hno => ?_, fun hyes added hwrite id hid => ?_⟩
    · rw [calls_step_advance hi, ← Client.finish_fst p shared g.client]
      rfl
    · rw [hafter, Client.finish_of_not_accepted hno]
    · rw [hafter]
      exact (Client.mem_ledger_finish p shared g.client id).2 (.inr ⟨⟨receipt, hcall⟩, hyes, hid, added, hwrite⟩)
  · exact ((hsound events).asked hi hq).receipt hcall
  · exact request_of_waiter (hsound events).coherent ((hsound events).calls i _ hi).2.1 hr he
  · rw [step_advance hi]
    rfl

end Traffic

end Entitle
