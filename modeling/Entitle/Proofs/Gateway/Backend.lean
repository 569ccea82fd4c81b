import Entitle.Proofs.Gateway

/-!
# Backends as gateways

A run of a backend is a run of a gateway (`Idle.run_parts`): there the pieces of an event follow each other with nothing
in between, and an aborted task stops at once.
-/

namespace Entitle

open Flight

namespace Gateway
variable {σ : Type} {g : Gateway σ} {t : Nat}

/-- The backend that a gateway is when no task is on the way from its outcome to its result. -/
def backend (g : Gateway σ) : Backend σ :=
  { store := g.store, cache := g.cache, caching := g.caching, limits := g.limits, pool := g.relay.pool,
    plans := g.plans,
    sent := g.sent }

/-- An event of a backend in pieces. -/
def parts (b : Backend σ) : Backend.Event → List Event
  | .enter s delay =>
    let registration := (b.pool.register s).1
    .enter s :: if registration.exchange.isNone && delay = .immediate then [.expedite registration.waiter] else []
  | .launch e useCache delay draw =>
    if b.pool.isUnassigned e then
      .begin e useCache delay draw :: .record b.pool.nextTask ::
        ((if b.pool.coalescer.registry.audience e = [] then [.stop b.pool.nextTask] else []) ++
          [.deliver b.pool.nextTask])
    else []
  | .poll t => [.poll t, .send t]
  | .expire t => [.expire t]
  | .answer now t outcome =>
    if b.isSending t then [.receive t outcome, .settle now t, .forget t, .complete t, .stop t] else []
  | .fail t => [.stop t]
  | .leave w => .leave w :: (b.pool.coalescer.orphan? w).toList.map .stop
  | .take w => [.take w]
  | .invalidate s => [.invalidate s]
  | .clear => [.clear]

/-- A run of a backend in pieces. -/
def partsAll [KeyValueStore σ] (b : Backend σ) : List Backend.Event → List Event
  | [] => []
  | event :: rest => parts b event ++ partsAll (b.step event) rest

/-- Every piece of the past is over. -/
structure Idle (g : Gateway σ) : Prop where
  coherent : g.Coherent
  settled : g.relay.Settled
  fresh : ∀ t x, g.relay.pool.tasks.get? t = some x → g.progress.get? t = none
  rest : ∀ t, g.isBusy t = false

namespace Idle

theorem openOn (store : σ) (caching : Bool) (limits : Limits) : (openOn store caching limits).Idle :=
  ⟨.openOn store caching limits, .ofLimits limits, fun _ _ _ => rfl, fun _ => rfl⟩

theorem works_eq (h : g.Idle) (t : Nat) : g.works t = decide (t ∈ g.relay.pool.dispatcher.running) := by
  simp [works, h.settled.undelivered]

theorem of_eq (h : g.Idle) {g' : Gateway σ} (hc : g'.Coherent) (hr : g'.relay = g.relay)
    (hp : g'.progress = g.progress) : g'.Idle := by
  refine ⟨hc, hr ▸ h.settled, fun t x hx => ?_, fun t => ?_⟩
  · rw [hr] at hx
    rw [hp]
    exact h.fresh t x hx
  · rw [isBusy, hp]
    exact h.rest t

/-- The pieces of an event of the pool, while no task goes on with an outcome. -/
theorem next (h : g.Idle) {g' : Gateway σ} (hc : g'.Coherent) (m : Pool.Event Signature (Classified Json))
    (hr : g'.relay = g.relay.run (Relay.parts g.relay.pool m)) (hp : g'.progress = g.progress) :
    g'.Idle ∧ g'.relay.pool = g.relay.pool.step m := by
  have hpool : g'.relay.pool = g.relay.pool.step m := by rw [hr, h.settled.run_event]
  refine ⟨⟨hc, hr ▸ h.settled.step m, fun t x hx => ?_, fun t => ?_⟩, hpool⟩
  · rw [hp]
    rw [hpool] at hx
    rcases Pool.get?_step hx with hold | ⟨rfl, -⟩
    · exact h.fresh t x hold
    · by_contra hne
      exact Nat.lt_irrefl _ (h.coherent.plan_lt (h.coherent.sent_planned _ (h.coherent.progress_sent _ hne)))
  · rw [isBusy, hp]
    exact h.rest t

theorem of_isSending (ht : g.backend.isSending t) :
    t ∈ g.relay.pool.dispatcher.running ∧ (g.sent.get? t).isSome :=
  ⟨of_decide_eq_true (Bool.and_eq_true_iff.1 ht).1, (Bool.and_eq_true_iff.1 ht).2⟩

variable [KeyValueStore σ]

theorem move (h : g.Idle) (events : List Event) (m : Pool.Event Signature (Classified Json))
    (hrun : g.run events = { g with relay := g.relay.run (Relay.parts g.relay.pool m) }) :
    (g.run events).Idle ∧ (g.run events).backend = { g.backend with pool := g.backend.pool.step m } := by
  obtain ⟨hidle, hpool⟩ := h.next (h.coherent.run events) m (by rw [hrun]) (by rw [hrun])
  refine ⟨hidle, ?_⟩
  rw [hrun] at hpool ⊢
  exact congrArg (fun pool => { g.backend with pool }) hpool

theorem enter (h : g.Idle) (s : Signature) (delay : DelayClass) :
    (g.run (parts g.backend (.enter s delay))).Idle ∧
      (g.run (parts g.backend (.enter s delay))).backend = (g.backend.enter s delay).2 := by
  obtain ⟨hidle, hbackend⟩ := h.move [.enter s] (.register s) rfl
  simp only [parts, Backend.enter]
  split
  · obtain ⟨hidle', hbackend'⟩ :=
      hidle.move [.expedite (g.backend.pool.register s).1.waiter] (.expedite _) rfl
    refine ⟨hidle', hbackend'.trans ?_⟩
    rw [hbackend]
    rfl
  · exact ⟨hidle, hbackend⟩

theorem launch (h : g.Idle) (e : Exchange Signature) (useCache : Bool) (delay : DelayClass) (draw : Nat) :
    (g.run (parts g.backend (.launch e useCache delay draw))).Idle ∧
      (g.run (parts g.backend (.launch e useCache delay draw))).backend = g.backend.launch e useCache delay draw := by
  by_cases hu : g.backend.pool.isUnassigned e
  swap
  · simp only [parts, Backend.launch, Pool.dispatch, hu, Bool.false_eq_true, if_false]
    exact ⟨h, rfl⟩
  have hpool : g.relay.pool.isUnassigned e := hu
  have hcoherent := h.coherent.run (parts g.backend (.launch e useCache delay draw))
  have hstop : ∀ (g' : Gateway σ), g'.progress = g.progress →
      g'.stop g.relay.pool.nextTask = { g' with relay := g'.relay.stop g.relay.pool.nextTask } := fun g' hp => by
    have hrest : g'.isBusy g.relay.pool.nextTask = false := by
      rw [isBusy, hp]
      exact h.rest _
    rw [Gateway.stop, hrest]
    rfl
  have hrun : g.run (parts g.backend (.launch e useCache delay draw)) =
      { g with
        relay := g.relay.run (Relay.parts g.relay.pool (.dispatch e (delay.sample g.limits draw)))
        plans := g.plans.put g.relay.pool.nextTask ⟨e.key, useCache && g.caching⟩ } := by
    have hbegin : g.begin e useCache delay draw =
        { g with
          relay := g.relay.begin e (delay.sample g.limits draw)
          plans := g.plans.put g.relay.pool.nextTask ⟨e.key, useCache && g.caching⟩ } :=
      if_pos (by rw [h.settled.isUnassigned_eq, hpool])
    let recorded : Gateway σ :=
      { g with
        relay := (g.relay.begin e (delay.sample g.limits draw)).record g.relay.pool.nextTask
        plans := g.plans.put g.relay.pool.nextTask ⟨e.key, useCache && g.caching⟩ }
    have hrecord : (g.begin e useCache delay draw).step (.record g.relay.pool.nextTask) = recorded := by
      rw [hbegin]
      rfl
    rw [parts, if_pos hu, Relay.parts, if_pos hpool]
    show ((g.begin e useCache delay draw).step (.record g.relay.pool.nextTask)).run
      ((if g.relay.pool.coalescer.registry.audience e = [] then _ else _) ++ _) = _
    rw [hrecord]
    split
    · exact congrArg (Gateway.step · (.deliver g.relay.pool.nextTask)) (hstop recorded rfl)
    · rfl
  rw [hrun] at hcoherent ⊢
  obtain ⟨hidle, hstep⟩ := h.next hcoherent (.dispatch e (delay.sample g.limits draw)) rfl rfl
  refine ⟨hidle, ?_⟩
  have hdispatch : g.backend.pool.dispatch e (delay.sample g.backend.limits draw) =
      (some g.relay.pool.nextTask, g.relay.pool.step (.dispatch e (delay.sample g.limits draw))) := by
    simp only [Pool.step, Pool.dispatch, hu, hpool, if_true]
    rfl
  rw [Backend.launch, hdispatch, ← hstep]
  rfl

theorem send (h : g.Idle) (t : Nat) :
    (g.send t).Idle ∧ (g.send t).backend = if g.backend.mustSend t then g.backend.send t else g.backend := by
  have hguard : (g.works t && (g.sent.get? t).isNone) = g.backend.mustSend t := by rw [h.works_eq]; rfl
  have hcoherent := h.coherent.send t
  have hsame : (g.send t).relay = g.relay ∧ (g.send t).progress = g.progress := by
    unfold Gateway.send
    split
    · split <;> exact ⟨rfl, rfl⟩
    · exact ⟨rfl, rfl⟩
  refine ⟨h.of_eq hcoherent hsame.1 hsame.2, ?_⟩
  unfold Gateway.send
  rw [hguard]
  split
  · have hplans : g.backend.plans.get? t = g.plans.get? t := rfl
    rw [Backend.send, hplans]
    cases g.plans.get? t <;> rfl
  · rfl

theorem leave (h : g.Idle) (w : Waiter Signature) :
    (g.run (parts g.backend (.leave w))).Idle ∧
      (g.run (parts g.backend (.leave w))).backend = g.backend.leave w := by
  refine h.move _ (.leave w) ?_
  simp only [parts, Relay.parts]
  show Gateway.run { g with relay := g.relay.leave w } ((g.relay.pool.coalescer.orphan? w).toList.map .stop) = _
  cases g.relay.pool.coalescer.orphan? w with
  | none => rfl
  | some t =>
    show Gateway.stop t { g with relay := g.relay.leave w } = _
    exact if_neg (Bool.eq_false_iff.1 (h.rest t))

/-- A 304 without an entry is settled by looking and then invalidating. -/
theorem settled_of_misses {plan : Plan} {outcome : Outcome} {cache : ConditionalCache} {store : σ} (now : Instant)
    (hm : (plan.useCache && misses plan.signature outcome cache store) = true) :
    Backend.settled now plan outcome cache store =
      (outcome, ConditionalCache.invalidate plan.signature
        (ConditionalCache.load (ConditionalCache.storageKey plan.signature) cache store).2.1
        (ConditionalCache.load (ConditionalCache.storageKey plan.signature) cache store).2.2) := by
  simp only [Bool.and_eq_true] at hm
  obtain ⟨hcache, hmiss⟩ := hm
  cases outcome with
  | error e => cases hmiss
  | ok response =>
    simp only [misses, Bool.and_eq_true, Option.isNone_iff_eq_none] at hmiss
    obtain ⟨h304, hnone⟩ := hmiss
    simp only [Backend.settled, hcache, if_true, ConditionalCache.record, h304, ConditionalCache.settleNotModified,
      hnone]

theorem run_settle (h : g.Idle) {plan : Plan} (ht : g.backend.isSending t) (hplan : g.plans.get? t = some plan)
    (now : Instant) (outcome : Outcome) :
    let settled := Backend.settled now plan outcome g.cache g.store
    ∃ progress : Table Nat Progress, progress.get? t = some (.settled (Classify.classify settled.1) false) ∧
      (∀ t', t ≠ t' → progress.get? t' = g.progress.get? t') ∧
      g.run [.receive t outcome, .settle now t, .forget t] =
        { g with cache := settled.2.1, store := settled.2.2, progress } := by
  intro settled
  obtain ⟨hrunning, hsent⟩ := of_isSending ht
  have hself : ∀ (table : Table Nat Progress) p, (table.put t p).get? t = some p := fun table p => by
    rw [Table.get?_put, if_pos rfl]
  have hother : ∀ (table : Table Nat Progress) p t', t ≠ t' → (table.put t p).get? t' = table.get? t' :=
    fun table p t' hne => by rw [Table.get?_put, if_neg hne]
  have hfresh : g.progress.get? t = none := by
    obtain ⟨e, he⟩ := h.coherent.exchange_of_running hrunning
    exact h.fresh t _ (Pool.exchange?_eq_some.1 he)
  have hreceive : g.receive t outcome = { g with progress := g.progress.put t (.received outcome) } :=
    if_pos (by simp [h.works_eq, hrunning, hsent, hfresh])
  show ∃ progress : Table Nat Progress, _ ∧ _ ∧ ((g.receive t outcome).settle now t).forget t = _
  rw [hreceive]
  let received := g.progress.put t (.received outcome)
  by_cases hm : (plan.useCache && misses plan.signature outcome g.cache g.store) = true
  · have hsettled : settled = _ := settled_of_misses now hm
    refine ⟨(received.put t (.settled (Classify.classify outcome) true)).put t
        (.settled (Classify.classify outcome) false),
      ?_, fun t' hne => ?_, ?_⟩
    · rw [hself, hsettled]
    · rw [hother _ _ _ hne, hother _ _ _ hne, hother _ _ _ hne]
    · simp only [Gateway.settle, hself, hplan, hm, if_true, Gateway.forget]
      rw [hsettled]
  · refine ⟨received.put t (.settled (Classify.classify settled.1) false), hself _ _, fun t' hne => ?_, ?_⟩
    · rw [hother _ _ _ hne, hother _ _ _ hne]
    · simp only [Gateway.settle, hself, hplan, hm, Bool.false_eq_true, if_false, Gateway.forget]
      rfl

theorem answer (h : g.Idle) (now : Instant) (t : Nat) (outcome : Outcome) :
    (g.run (parts g.backend (.answer now t outcome))).Idle ∧
      (g.run (parts g.backend (.answer now t outcome))).backend = g.backend.answer now t outcome := by
  by_cases ht : g.backend.isSending t
  swap
  · simp only [parts, Backend.answer, ht, Bool.false_eq_true, if_false]
    exact ⟨h, rfl⟩
  have hrunning := (of_isSending ht).1
  obtain ⟨e, he⟩ := h.coherent.exchange_of_running hrunning
  obtain ⟨plan, hplan, -⟩ := h.coherent.plan_of_order (h.coherent.relay.ordered t e he)
  obtain ⟨progress, hself, hother, hsettle⟩ := h.run_settle ht hplan now outcome
  set settled := Backend.settled now plan outcome g.cache g.store
  have hcoherent := h.coherent.run (parts g.backend (.answer now t outcome))
  have hrun : g.run (parts g.backend (.answer now t outcome)) =
      { g with
        cache := settled.2.1
        store := settled.2.2
        relay := g.relay.run (Relay.parts g.relay.pool (.finish t (Classify.classify settled.1)))
        progress := progress.put t .done } := by
    rw [parts, if_pos ht]
    show ((g.run [.receive t outcome, .settle now t, .forget t]).complete t).stop t = _
    rw [hsettle]
    simp only [Gateway.complete, hself, Gateway.stop, isBusy, Table.get?_put, if_true, Option.any_some, Progress.isDone]
    rw [Relay.parts, if_pos hrunning]
    rfl
  rw [hrun] at hcoherent ⊢
  have hpool : (g.relay.run (Relay.parts g.relay.pool (.finish t (Classify.classify settled.1)))).pool =
      g.relay.pool.finish t (Classify.classify settled.1) := by
    rw [h.settled.run_event]
    rfl
  have hprogress : ∀ t', t ≠ t' → Table.get? (progress.put t .done) t' = g.progress.get? t' := fun t' hne => by
    rw [Table.get?_put, if_neg hne, hother t' hne]
  refine ⟨⟨hcoherent, h.settled.step _, fun t' x hx => ?_, fun t' => ?_⟩, ?_⟩
  · rw [hpool] at hx
    have hne : t ≠ t' := fun heq => by
      subst heq
      simp only [Pool.finish, hrunning, if_true, Pool.stop, Table.get?_erase] at hx
      cases hx
    have hold := Pool.get?_step (m := .finish t (Classify.classify settled.1)) hx
    refine (hprogress t' hne).trans (h.fresh t' x (hold.resolve_right fun hnew => ?_))
    rcases hnew.2 with ⟨_, _, hm, -⟩ | ⟨_, hm⟩ <;> cases hm
  · by_cases heq : t = t'
    · simp [isBusy, Table.get?_put, heq, Progress.isDone]
    · rw [isBusy, hprogress t' heq]
      exact h.rest t'
  · have hplan' : g.backend.plans.get? t = some plan := hplan
    rw [Backend.answer, if_pos ht, hplan']
    show Backend.mk .. = Backend.mk ..
    rw [hpool]
    rfl

theorem step (h : g.Idle) (event : Backend.Event) :
    (g.run (parts g.backend event)).Idle ∧ (g.run (parts g.backend event)).backend = g.backend.step event := by
  cases event with
  | enter s delay => exact h.enter s delay
  | launch e useCache delay draw => exact h.launch e useCache delay draw
  | poll t =>
    obtain ⟨hidle, hbackend⟩ := h.move [.poll t] (.poll t) rfl
    obtain ⟨hidle', hbackend'⟩ := hidle.send t
    refine ⟨hidle', hbackend'.trans ?_⟩
    rw [hbackend]
    rfl
  | expire t => exact h.move _ (.expire t) rfl
  | answer now t outcome => exact h.answer now t outcome
  | fail t => exact h.move _ (.stop t) (if_neg (Bool.eq_false_iff.1 (h.rest t)))
  | leave w => exact h.leave w
  | take w => exact h.move _ (.take w) rfl
  | invalidate s => exact ⟨h.of_eq (h.coherent.step (.invalidate s)) rfl rfl, rfl⟩
  | clear => exact ⟨h.of_eq (h.coherent.step .clear) rfl rfl, rfl⟩

/-- A run of a backend is a run of a gateway. -/
theorem run_parts (h : g.Idle) (events : List Backend.Event) :
    (g.run (partsAll g.backend events)).backend = g.backend.run events := by
  induction events generalizing g with
  | nil => rfl
  | cons event rest ih =>
    obtain ⟨hidle, hbackend⟩ := h.step event
    rw [partsAll, run_append, ← hbackend, ih hidle, hbackend]
    rfl

end Idle

end Gateway
end Entitle
