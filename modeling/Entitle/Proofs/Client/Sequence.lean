import Entitle.Client.Session
import Entitle.Proofs.Flight.Alone

/-!
# Calls one after the other

From a session in which nothing is in flight (`Session.Idle`) a call goes from its beginning to its end:
`Session.perform_inquiry` says what it sends, what it answers and what it leaves, with and without a start delay,
and `Session.Idle.asked` that nothing is in flight again.
-/

namespace Entitle

open Flight

namespace Table
variable {κ α : Type} [DecidableEq κ] {t : Table κ α} {key : κ}

theorem put_of_not_mem (h : key ∉ keys t) (value : α) : put t key value = t ++ [(key, value)] := by
  induction t with
  | nil => rfl
  | cons entry rest ih => grind [keys, put]

theorem get?_of_not_mem (h : key ∉ keys t) : get? t key = none := by
  simpa using mt mem_keys.2 h

end Table

variable {σ : Type} [KeyValueStore σ] {r : Rest} {plan : Plan} {now : Instant} {outcome : Outcome}

/-! ### One exchange -/

namespace Backend
variable {b : Backend σ}

/-- With one exchange in flight, its task at a stage. -/
def during (r : Rest) (plan : Plan) (dispatcher : Dispatcher) (b : Backend σ) : Backend σ :=
  { b with pool := .alone r plan.signature dispatcher, plans := b.plans.put r.task plan }

/-- With one exchange in flight, whose request was sent. -/
def sending (r : Rest) (plan : Plan) (b : Backend σ) : Backend σ :=
  let (request, cache, store) := requestOf plan b.cache b.store
  { b.during r plan r.running with cache, store, sent := b.sent.put r.task request }

/-- After an exchange from its beginning to its end, and what the classifier sees of its outcome. -/
def exchanged (r : Rest) (plan : Plan) (now : Instant) (outcome : Outcome) (b : Backend σ) : Outcome × Backend σ :=
  let (request, cache, store) := requestOf plan b.cache b.store
  let (shown, cache, store) := settled now plan outcome cache store
  (shown,
    { b with
      cache, store
      pool := .idle r.next
      plans := b.plans.put r.task plan
      sent := b.sent.put r.task request })

omit [KeyValueStore σ] in
theorem call_idle (h : b.pool = .idle r) (s : Signature) (useCache : Bool) (delay : DelayClass) (draw : Nat) :
    b.call s useCache delay draw =
      (r.waiter s, b.during r ⟨s, useCache && b.caching⟩ (r.fresh (delay.sample b.limits draw))) := by
  simp only [call, enter, h, Pool.register_idle, Option.isNone_some, Bool.false_and, Bool.false_eq_true, if_false,
    launch, Pool.dispatch_launching, during]

theorem settle_still {free : Nat} (h : b.pool.dispatcher = ⟨free, [], [], [], []⟩) : b.settle = b := by
  simp [settle, h]

theorem send_during (dispatcher : Dispatcher) :
    (b.during r plan dispatcher).send r.task =
      { b.during r plan dispatcher with
        cache := (requestOf plan b.cache b.store).2.1
        store := (requestOf plan b.cache b.store).2.2
        sent := b.sent.put r.task (requestOf plan b.cache b.store).1 } := by
  simp only [send, during, Table.get?_put, if_true]

theorem poll_during {dispatcher dispatcher' : Dispatcher}
    (hpool : (.alone r plan.signature dispatcher : Pool Signature (Classified Json)).poll r.task =
      .alone r plan.signature dispatcher') :
    (b.during r plan dispatcher).poll r.task =
      if (b.during r plan dispatcher').mustSend r.task then (b.during r plan dispatcher').send r.task
      else b.during r plan dispatcher' := by
  have hpolled : { b.during r plan dispatcher with pool := (b.during r plan dispatcher).pool.poll r.task } =
      b.during r plan dispatcher' := by
    simp only [during, hpool]
  unfold poll
  rw [hpolled]

theorem poll_to_running {dispatcher : Dispatcher} (hnew : b.sent.get? r.task = none)
    (hpool : (.alone r plan.signature dispatcher : Pool Signature (Classified Json)).poll r.task =
      .alone r plan.signature r.running) :
    (b.during r plan dispatcher).poll r.task = b.sending r plan := by
  have hmust : (b.during r plan r.running).mustSend r.task := by
    simp [mustSend, during, Pool.alone, Rest.running, hnew]
  rw [poll_during hpool, if_pos hmust, send_during]
  rfl

theorem settle_fresh (hfree : 0 < r.free) (hnew : b.sent.get? r.task = none) (delay : Nat) :
    (b.during r plan (r.fresh delay)).settle = if delay = 0 then b.sending r plan else b.during r plan r.sleeping := by
  have hpool := @Pool.poll_fresh _ (Classified Json) _ r delay plan.signature hfree
  show (b.during r plan (r.fresh delay)).poll r.task = _
  split
  · next hdelay =>
    rw [if_pos hdelay] at hpool
    exact poll_to_running hnew hpool
  · next hdelay =>
    rw [if_neg hdelay] at hpool
    have hmust : ¬ (b.during r plan r.sleeping).mustSend r.task := by
      simp [mustSend, during, Pool.alone, Rest.sleeping]
    rw [poll_during hpool, if_neg hmust]

theorem settle_expire (hfree : 0 < r.free) (hnew : b.sent.get? r.task = none) :
    ((b.during r plan r.sleeping).expire r.task).settle = b.sending r plan := by
  have hexpire : (b.during r plan r.sleeping).expire r.task = b.during r plan r.running := by
    simp only [expire, during, Pool.expire_sleeping hfree]
  rw [hexpire]
  exact poll_to_running hnew Pool.poll_running

theorem answer_sending (hfree : 0 < r.free) :
    (b.sending r plan).answer now r.task outcome =
      { (b.exchanged r plan now outcome).2 with
        pool := .answered r plan.signature (Classify.classify (b.exchanged r plan now outcome).1) } := by
  have hsending : (b.sending r plan).isSending r.task := by
    simp [isSending, sending, during, Pool.alone, Rest.running, Table.get?_put]
  simp only [answer, hsending, if_true]
  simp only [sending, during, exchanged, Table.get?_put, if_true, Pool.finish_running hfree]

end Backend

namespace Client
variable {c : Client σ}

theorem settle_eq {backend : Backend σ} (h : c.backend.settle = backend) : c.settle = { c with backend } := by
  rw [settle, h]

theorem finish_backend (p : Pending) (result : Classified Json) (c : Client σ) :
    (finish p result c).2.backend = { c.backend with store := (finish p result c).2.backend.store } := by
  unfold finish
  split
  · dsimp only
    split <;> rfl
  · rfl

@[simp] theorem pool_finish (p : Pending) (result : Classified Json) (c : Client σ) :
    (finish p result c).2.backend.pool = c.backend.pool := by rw [finish_backend]

@[simp] theorem sent_finish (p : Pending) (result : Classified Json) (c : Client σ) :
    (finish p result c).2.backend.sent = c.backend.sent := by rw [finish_backend]

@[simp] theorem caching_finish (p : Pending) (result : Classified Json) (c : Client σ) :
    (finish p result c).2.backend.caching = c.backend.caching := by rw [finish_backend]

end Client

namespace Session
variable {s : Session σ} {q : Inquiry} {call : Call} {draw : Nat}

/-- Nothing is in flight, and every request that was sent has had its outcome. -/
structure Idle (r : Rest) (s : Session σ) : Prop where
  pool : s.client.backend.pool = .idle r
  free : 0 < r.free
  held : Table.keys s.held = Table.keys s.client.backend.sent
  old : ∀ task ∈ Table.keys s.held, task < r.task

/-- What the exchange of an inquiry is for. -/
def planOf (q : Inquiry) (s : Session σ) : Plan :=
  ⟨q.signature, q.useCache && s.client.backend.caching⟩

/-- With one exchange in flight, its task at a stage. -/
def during (r : Rest) (plan : Plan) (dispatcher : Dispatcher) (s : Session σ) : Session σ :=
  { s with client.backend := s.client.backend.during r plan dispatcher }

/-- With one exchange in flight, whose request was sent and has its outcome. -/
def sending (r : Rest) (plan : Plan) (s : Session σ) : Session σ where
  client := { s.client with backend := s.client.backend.sending r plan }
  outcomes := s.outcomes.tail
  held := s.held.put r.task (s.outcomes.headD exhausted)

/-- What an inquiry gets when its exchange goes from its beginning to its end, and what it leaves. -/
def asked (r : Rest) (q : Inquiry) (now : Instant) (s : Session σ) : Classified Reply × Session σ :=
  let outcome := s.outcomes.headD exhausted
  let (shown, backend) := s.client.backend.exchanged r (s.planOf q) now outcome
  let (reply, client) := Client.finish ⟨q, r.waiter q.signature⟩ (Classify.classify shown) { s.client with backend }
  (reply, ⟨client, s.outcomes.tail, s.held.put r.task outcome⟩)

namespace Idle

theorem openOn (store : σ) (caching : Bool) (limits : Limits) (outcomes : List Outcome) :
    Session.Idle ⟨0, [], limits.permits, 0⟩ ⟨Client.openOn store caching limits, outcomes, []⟩ :=
  ⟨rfl, Nat.le_max_right _ _, rfl, fun _ htask => nomatch htask⟩

omit [KeyValueStore σ] in
theorem new_held (h : s.Idle r) : r.task ∉ Table.keys s.held :=
  fun hmem => Nat.lt_irrefl _ (h.old r.task hmem)

omit [KeyValueStore σ] in
theorem new (h : s.Idle r) : r.task ∉ Table.keys s.client.backend.sent :=
  h.held ▸ h.new_held

omit [KeyValueStore σ] in
theorem length_held (h : s.Idle r) : s.held.length = s.client.backend.sent.length := by
  simpa [Table.keys] using congrArg List.length h.held

theorem asked (h : s.Idle r) : (s.asked r q now).2.Idle r.next where
  pool := by
    simp only [Session.asked, Client.pool_finish]
    rfl
  free := h.free
  held := by
    simp only [Session.asked, Client.sent_finish]
    calc Table.keys (s.held.put r.task (s.outcomes.headD exhausted))
      _ = Table.keys s.held ++ [r.task] := Table.keys_put h.new_held _
      _ = Table.keys s.client.backend.sent ++ [r.task] := by rw [h.held]
      _ = _ := (Table.keys_put h.new _).symm
  old task htask := by
    have htask : task ∈ Table.keys (s.held.put r.task (s.outcomes.headD exhausted)) := htask
    rw [Table.keys_put h.new_held] at htask
    rcases List.mem_append.1 htask with hold | hnew
    · exact Nat.lt_succ_of_lt (h.old task hold)
    · exact List.mem_singleton.1 hnew ▸ Nat.lt_succ_self task

end Idle

omit [KeyValueStore σ] in
theorem hold_eq (s : Session σ) (task : Nat) :
    s.hold task = { s with outcomes := s.outcomes.tail, held := s.held.put task (s.outcomes.headD exhausted) } := by
  unfold hold
  cases s.outcomes <;> rfl

theorem settle_quiet {client : Client σ} (hclient : s.client.settle = client)
    (hsent : client.backend.sent.length = s.held.length) : s.settle = { s with client } := by
  have hnone : (client.backend.sent.drop s.held.length).map Prod.fst = [] := by simp [← hsent]
  simp only [settle, hclient, hnone, List.foldl_nil]

theorem settle_sending (h : s.Idle r) {client : Client σ}
    (hclient : client.settle = { s.client with backend := s.client.backend.sending r plan }) :
    Session.settle { s with client } = s.sending r plan := by
  have hsent : (s.client.backend.sending r plan).sent = s.client.backend.sent ++
      [(r.task, (Backend.requestOf plan s.client.backend.cache s.client.backend.store).1)] :=
    Table.put_of_not_mem h.new _
  simp [Session.settle, hclient, hsent, h.length_held, hold_eq, sending]

/-! ### One call -/

theorem begin_answered (h : s.Idle r) {reply : Reply} (hcall : call.prepare s.client.ledger = .answered reply) :
    s.begin call draw = (.answered (.ok reply), s) := by
  have hstill : s.client.backend.settle = s.client.backend := Backend.settle_still (by rw [h.pool]; rfl)
  simp only [begin, Client.begin, hcall]
  rw [settle_quiet (Client.settle_eq hstill) h.length_held.symm]

/-- A call that asks waits in its start delay, or has sent its request. -/
theorem begin_inquiry (h : s.Idle r) (hcall : call.prepare s.client.ledger = .inquiry q) :
    s.begin call draw = (.waiting ⟨q, r.waiter q.signature⟩,
      if q.delay.sample s.client.backend.limits draw = 0 then s.sending r (s.planOf q)
      else s.during r (s.planOf q) r.sleeping) := by
  have hsettle : (s.client.backend.during r (s.planOf q) _).settle = _ :=
    Backend.settle_fresh h.free (Table.get?_of_not_mem h.new) (q.delay.sample s.client.backend.limits draw)
  simp only [begin, Client.begin, hcall, Client.ask, Backend.call_idle h.pool]
  congr 1
  split at hsettle
  · next hzero =>
    rw [if_pos hzero]
    exact settle_sending h (Client.settle_eq hsettle)
  · next hzero =>
    rw [if_neg hzero]
    exact settle_quiet (Client.settle_eq hsettle) h.length_held.symm

theorem drain_idle (h : s.client.backend.pool = .idle r) (reply : Classified Reply) (count : Nat) :
    drain now count [.answered reply] s = ([.answered reply], s) := by
  have hadvance : s.advance now = s := by
    simp only [advance]
    split
    · next task outcome hfind =>
      have hsending := List.find?_some hfind
      simp [Backend.isSending, h, Pool.idle] at hsending
    · simp [h, Pool.idle]
  induction count with
  | zero => rfl
  | succ count ih =>
    simp only [drain, hadvance, resume]
    exact ih

/-- When its start delay is over, a call sends its request. -/
theorem drain_sleeping (h : s.Idle r) (p : Pending) (hp : p.waiter = r.waiter plan.signature) (count : Nat) :
    drain now (count + 1) [.waiting p] (s.during r plan r.sleeping) =
      drain now count [.waiting p] (s.sending r plan) := by
  have hadvance : (s.during r plan r.sleeping).advance now = s.sending r plan := by
    simp only [advance]
    split
    · next task outcome hfind =>
      have hsending := List.find?_some hfind
      simp [during, Backend.during, Backend.isSending, Pool.alone, Rest.sleeping] at hsending
    · exact settle_sending h (Client.settle_eq (Backend.settle_expire h.free (Table.get?_of_not_mem h.new)))
  -- the exchange goes on, so its waiter has nothing yet
  have htake : (s.client.backend.sending r plan).take p.waiter = (none, s.client.backend.sending r plan) := by
    rw [hp]
    simp only [Backend.take, Backend.sending, Backend.during, Pool.take_alone, Option.map_none]
  have hresume : (s.sending r plan).client.resume p = (none, (s.sending r plan).client) := by
    simp only [Client.resume, sending, htake]
  simp only [drain, hadvance, resume, hresume]

/-- The request that was sent is the only one on the way: those of older tasks have had their outcome. -/
theorem find?_sending (h : s.Idle r) :
    (s.sending r plan).held.find? (fun (task, _) => (s.sending r plan).client.backend.isSending task) =
      some (r.task, s.outcomes.headD exhausted) := by
  have hheld : (s.sending r plan).held = s.held ++ [(r.task, s.outcomes.headD exhausted)] :=
    Table.put_of_not_mem h.new_held _
  have hbackend : (s.sending r plan).client.backend.isSending = fun task => decide (task = r.task) := by
    funext task
    by_cases heq : task = r.task <;>
      simp [sending, Backend.isSending, Backend.sending, Backend.during, Pool.alone, Rest.running, Table.get?_put, heq]
  have hnone : s.held.find? (fun (task, _) => decide (task = r.task)) = none := by
    rw [List.find?_eq_none]
    rintro ⟨task, outcome⟩ hmem
    simpa using Nat.ne_of_lt (h.old task (List.mem_map_of_mem hmem))
  rw [hheld, hbackend, List.find?_append, hnone]
  simp

theorem drain_sending (h : s.Idle r) (count : Nat) :
    drain now (count + 1) [.waiting ⟨q, r.waiter q.signature⟩] (s.sending r (s.planOf q)) =
      ([.answered (s.asked r q now).1], (s.asked r q now).2) := by
  have hanswer := @Backend.answer_sending _ _ r (s.planOf q) now (s.outcomes.headD exhausted) s.client.backend h.free
  have hadvance : (s.sending r (s.planOf q)).advance now =
      { s.sending r (s.planOf q) with
        client.backend :=
          (s.client.backend.sending r (s.planOf q)).answer now r.task (s.outcomes.headD exhausted) } := by
    simp only [advance, find?_sending h]
    refine settle_quiet (Client.settle_eq (@Backend.settle_still _ _ _ r.free ?_)) ?_
    · rw [sending, hanswer]
      rfl
    · rw [hanswer]
      simp [sending, Backend.exchanged, Table.put_of_not_mem h.new, Table.put_of_not_mem h.new_held, h.length_held]
  have htake : ((s.client.backend.sending r (s.planOf q)).answer now r.task (s.outcomes.headD exhausted)).take
      (r.waiter q.signature) =
        let exchanged := s.client.backend.exchanged r (s.planOf q) now (s.outcomes.headD exhausted)
        (some (Classify.classify exchanged.1), exchanged.2) := by
    rw [hanswer]
    simp only [Backend.take, planOf, Pool.take_answered, Option.map_some, Backend.resultOf]
    rfl
  -- what is left of the count passes without anything to do
  simp only [drain, hadvance, resume, Client.resume, htake]
  exact drain_idle h.asked.pool _ count

theorem perform_answered (h : s.Idle r) {reply : Reply} (hcall : call.prepare s.client.ledger = .answered reply) :
    s.perform now call draw = (.answered (.ok reply), s) := by
  simp only [perform, begin_answered h hcall, finish, h.pool]
  rfl

/-- A call that asks gets its answer. -/
theorem perform_inquiry (h : s.Idle r) (hcall : call.prepare s.client.ledger = .inquiry q) :
    s.perform now call draw = (.answered (s.asked r q now).1, (s.asked r q now).2) := by
  -- with one task in flight two things can happen
  have hsending : 2 * (s.sending r (s.planOf q)).client.backend.pool.tasks.length = 0 + 1 + 1 := rfl
  have hsleeping : 2 * (s.during r (s.planOf q) r.sleeping).client.backend.pool.tasks.length = 0 + 1 + 1 := rfl
  simp only [perform, begin_inquiry h hcall, finish]
  split
  · rw [hsending, drain_sending h]
    rfl
  · rw [hsleeping, drain_sleeping h _ rfl, drain_sending h]
    rfl

end Session

end Entitle
