import Entitle.Backend
import Entitle.Proofs.Flight.Pool
import Entitle.Proofs.Text.Utf8

/-!
# A backend on its pool

What an event of a backend does to the pool is a list of events of the pool (`Backend.moves`), and so a run of
the backend is a run of the pool and of its coalescer. `Backend.Coherent` adds what the backend itself keeps:
every task runs an exchange and has the plan of that exchange, and what a task sent is the request of its plan.
-/

namespace Entitle

open Flight

theorem Request.ofSignature_injective {s₁ s₂ : Signature} (h : ofSignature s₁ = ofSignature s₂) : s₁ = s₂ := by
  obtain ⟨method₁, path₁, body₁⟩ := s₁
  obtain ⟨method₂, path₂, body₂⟩ := s₂
  simp only [ofSignature, Request.mk.injEq, and_true] at h
  obtain ⟨rfl, rfl, hbody⟩ := h
  rw [Option.map_injective Text.utf8_injective hbody]

namespace Backend
variable {σ : Type} {b : Backend σ}

/-- Every task has the plan of its exchange, and sends the request of that plan. -/
structure Coherent (b : Backend σ) : Prop where
  pool : b.pool.Coherent
  owned : ∀ t, b.pool.tasks.get? t ≠ some none
  planned : ∀ t e, b.pool.exchange? t = some e → ∃ plan, b.plans.get? t = some plan ∧ plan.signature = e.key
  plan_lt : ∀ t plan, b.plans.get? t = some plan → t < b.pool.nextTask
  sent_plan : ∀ t r, b.sent.get? t = some r →
    ∃ plan, b.plans.get? t = some plan ∧ { r with headers := [] } = Request.ofSignature plan.signature

namespace Coherent

theorem openOn (store : σ) (caching : Bool) (limits : Limits) : (openOn store caching limits).Coherent where
  pool := .ofLimits limits
  owned t := by simp [Backend.openOn, Pool.ofLimits]
  planned t e h := by simp [Backend.openOn, Pool.ofLimits, Pool.exchange?] at h
  plan_lt t plan h := by simp [Backend.openOn] at h
  sent_plan t r h := by simp [Backend.openOn] at h

/-- An event of the pool that starts no task, whatever becomes of cache and store. -/
theorem of_move (h : b.Coherent) {m : Pool.Event Signature (Classified Json)} (hd : ∀ e delay, m ≠ .dispatch e delay)
    (hs : ∀ delay, m ≠ .schedule delay) (cache : ConditionalCache) (store : σ) :
    Coherent { b with pool := b.pool.step m, cache, store } := by
  have hold : ∀ t x, (b.pool.step m).tasks.get? t = some x → b.pool.tasks.get? t = some x := by
    intro t x hx
    rcases Pool.get?_step hx with hx | ⟨-, ⟨e, delay, hm, -⟩ | ⟨delay, hm⟩⟩
    · exact hx
    · exact absurd hm (hd e delay)
    · exact absurd hm (hs delay)
  refine ⟨h.pool.step m, fun t ht => h.owned t (hold t none ht), fun t e he => ?_, fun t plan hp => ?_, h.sent_plan⟩
  · exact h.planned t e (Pool.exchange?_eq_some.2 (hold t _ (Pool.exchange?_eq_some.1 he)))
  · rw [Pool.nextTask_step _ hd hs]
    exact h.plan_lt t plan hp

theorem enter (h : b.Coherent) (s : Signature) (delay : DelayClass) : (b.enter s delay).2.Coherent := by
  have hreg := h.of_move (m := .register s) (by simp) (by simp) b.cache b.store
  unfold Backend.enter
  show Coherent { b with pool := if _ then _ else _ }
  split
  · exact hreg.of_move (m := .expedite (b.pool.register s).1.waiter) (by simp) (by simp) b.cache b.store
  · exact hreg

theorem launch (h : b.Coherent) (e : Exchange Signature) (useCache : Bool) (delay : DelayClass) (draw : Nat) :
    (b.launch e useCache delay draw).Coherent := by
  have hstep := h.pool.dispatch e (delay.sample b.limits draw)
  have hnext := b.pool.nextTask_dispatch e (delay.sample b.limits draw)
  have hget : ∀ t x, (b.pool.dispatch e (delay.sample b.limits draw)).2.tasks.get? t = some x →
      b.pool.tasks.get? t = some x ∨ t = b.pool.nextTask ∧ b.pool.isUnassigned e ∧ x = some e := by
    intro t x hx
    rcases Pool.get?_step (m := .dispatch e (delay.sample b.limits draw)) hx with
      hx | ⟨ht, ⟨e', delay', hev, hu, hx⟩ | ⟨delay', hev⟩⟩
    · exact .inl hx
    · cases hev
      exact .inr ⟨ht, hu, hx⟩
    · cases hev
  unfold Backend.launch
  by_cases hu : b.pool.isUnassigned e
  · have hfst : (b.pool.dispatch e (delay.sample b.limits draw)).1 = some b.pool.nextTask := by
      simp only [Pool.dispatch, hu, if_true]; rfl
    have hplan : ∀ t, (b.plans.put b.pool.nextTask ⟨e.key, useCache && b.caching⟩).get? t =
        if b.pool.nextTask = t then some ⟨e.key, useCache && b.caching⟩ else b.plans.get? t :=
      fun t => Table.get?_put _ _ t _
    have hkept : ∀ t plan, b.plans.get? t = some plan →
        (b.plans.put b.pool.nextTask ⟨e.key, useCache && b.caching⟩).get? t = some plan := by
      intro t plan hp
      rw [hplan, if_neg (Nat.ne_of_gt (h.plan_lt t plan hp))]
      exact hp
    simp only [hfst]
    refine ⟨hstep, fun t ht => ?_, fun t e' he' => ?_, fun t plan hp => ?_, fun t r hr => ?_⟩
    · rcases hget t none ht with ht | ⟨-, -, hx⟩
      · exact h.owned t ht
      · cases hx
    · rcases hget t _ (Pool.exchange?_eq_some.1 he') with ht | ⟨rfl, -, hx⟩
      · obtain ⟨plan, hp, hs⟩ := h.planned t e' (Pool.exchange?_eq_some.2 ht)
        exact ⟨plan, hkept t plan hp, hs⟩
      · cases hx
        exact ⟨_, (hplan _).trans (if_pos rfl), rfl⟩
    · show t < (b.pool.dispatch e (delay.sample b.limits draw)).2.nextTask
      rw [hnext, if_pos hu]
      rw [hplan] at hp
      split at hp
      · next ht => exact ht ▸ Nat.lt_succ_self _
      · exact Nat.lt_succ_of_lt (h.plan_lt t plan hp)
    · obtain ⟨plan, hp, hr⟩ := h.sent_plan t r hr
      exact ⟨plan, hkept t plan hp, hr⟩
  · have hsame : b.pool.dispatch e (delay.sample b.limits draw) = (none, b.pool) := by simp [Pool.dispatch, hu]
    simp only [hsame]
    exact h

variable [KeyValueStore σ]

theorem requestOf_headers (plan : Plan) (cache : ConditionalCache) (store : σ) :
    { (requestOf plan cache store).1 with headers := [] } = Request.ofSignature plan.signature := by
  unfold requestOf
  split
  · unfold ConditionalCache.attach
    cases ConditionalCache.tag? plan.signature cache store with
    | mk tag rest => cases tag <;> rfl
  · rfl

theorem send (h : b.Coherent) (t : Nat) : (b.send t).Coherent := by
  unfold Backend.send
  split
  · next plan hp =>
    refine ⟨h.pool, h.owned, h.planned, h.plan_lt, fun t' r hr => ?_⟩
    change (b.sent.put t (requestOf plan b.cache b.store).1).get? t' = some r at hr
    rw [Table.get?_put] at hr
    split at hr
    · next ht =>
      cases hr
      exact ⟨plan, ht ▸ hp, requestOf_headers ..⟩
    · exact h.sent_plan t' r hr
  · exact h

theorem poll (h : b.Coherent) (t : Nat) : (b.poll t).Coherent := by
  have hpool := h.of_move (m := .poll t) (by simp) (by simp) b.cache b.store
  unfold Backend.poll
  show Coherent (if _ then Backend.send t { b with pool := b.pool.step (.poll t) } else _)
  split
  · exact hpool.send t
  · exact hpool

theorem answer (h : b.Coherent) (now : Instant) (t : Nat) (outcome : Outcome) : (b.answer now t outcome).Coherent := by
  unfold Backend.answer
  split
  · split
    · next plan _ =>
      exact h.of_move (m := .finish t (Classify.classify (settled now plan outcome b.cache b.store).1))
        (by simp) (by simp) _ _
    · exact h
  · exact h

theorem step (h : b.Coherent) (event : Event) : (b.step event).Coherent := by
  cases event with
  | enter s delay => exact h.enter s delay
  | launch e useCache delay draw => exact h.launch e useCache delay draw
  | poll t => exact h.poll t
  | expire t => exact h.of_move (m := .expire t) (by simp) (by simp) b.cache b.store
  | answer now t outcome => exact h.answer now t outcome
  | fail t => exact h.of_move (m := .stop t) (by simp) (by simp) b.cache b.store
  | leave w => exact h.of_move (m := .leave w) (by simp) (by simp) b.cache b.store
  | take w => exact h.of_move (m := .take w) (by simp) (by simp) b.cache b.store
  | invalidate s => exact ⟨h.pool, h.owned, h.planned, h.plan_lt, h.sent_plan⟩
  | clear => exact ⟨h.pool, h.owned, h.planned, h.plan_lt, h.sent_plan⟩

theorem run (h : b.Coherent) (events : List Event) : (b.run events).Coherent := by
  induction events generalizing b with
  | nil => exact h
  | cons event rest ih => exact ih (h.step event)

end Coherent

/-! ### Steps of pool and coalescer -/

variable [KeyValueStore σ]

/-- What an event does to the pool. -/
def moves (b : Backend σ) : Event → List (Pool.Event Signature (Classified Json))
  | .enter s delay =>
    let registration := (b.pool.register s).1
    .register s ::
      if registration.exchange.isNone && delay = .immediate then [.expedite registration.waiter] else []
  | .launch e _ delay draw => [.dispatch e (delay.sample b.limits draw)]
  | .poll t => [.poll t]
  | .expire t => [.expire t]
  | .answer now t outcome =>
    if b.isSending t then
      (b.plans.get? t).toList.map fun plan =>
        .finish t (Classify.classify (settled now plan outcome b.cache b.store).1)
    else []
  | .fail t => [.stop t]
  | .leave w => [.leave w]
  | .take w => [.take w]
  | .invalidate _ => []
  | .clear => []

theorem pool_send (b : Backend σ) (t : Nat) : (b.send t).pool = b.pool := by
  unfold send
  split <;> rfl

theorem pool_step (b : Backend σ) (event : Event) : (b.step event).pool = b.pool.run (b.moves event) := by
  cases event with
  | enter s delay =>
    simp only [step, enter, moves]
    split <;> rfl
  | poll t =>
    show (if _ then Backend.send t { b with pool := b.pool.poll t } else _).pool = _
    split
    · exact pool_send ..
    · rfl
  | answer now t outcome =>
    simp only [step, answer, moves]
    split
    · cases b.plans.get? t <;> rfl
    · rfl
  | _ => rfl

/-- What a run does to the coalescer. -/
def trace (b : Backend σ) : List Event → List (Coalescer.Step Signature (Classified Json))
  | [] => []
  | event :: rest => b.pool.traceAll (b.moves event) ++ trace (b.step event) rest

theorem coalescer_step (h : b.Coherent) (event : Event) :
    (b.step event).pool.coalescer = b.pool.coalescer.run (b.pool.traceAll (b.moves event)) := by
  rw [pool_step, Pool.coalescer_run h.pool]

/-- The coalescer of a backend takes the steps of the trace. -/
theorem coalescer_run (h : b.Coherent) (events : List Event) :
    (b.run events).pool.coalescer = b.pool.coalescer.run (b.trace events) := by
  induction events generalizing b with
  | nil => rfl
  | cons event rest ih =>
    show ((b.step event).run rest).pool.coalescer = _
    rw [ih (h.step event), coalescer_step h, trace, Coalescer.run_append]

/-- What comes from callers alone: a registration, a waiter that leaves and one that takes its result. -/
def asks : Event → Coalescer.Step Signature (Classified Json) → Prop
  | event, .register s => ∃ delay, event = .enter s delay
  | event, .leave w => event = .leave w
  | event, .take w => event = .take w
  | _, _ => True

theorem asks_of_mem_moves {event : Event} {m : Pool.Event Signature (Classified Json)} (hm : m ∈ b.moves event) :
    (∀ key, m = .register key → ∃ delay, event = .enter key delay) ∧ (∀ w, m = .leave w → event = .leave w) ∧
      ∀ w, m = .take w → event = .take w := by
  cases event with
  | enter key delay =>
    rcases List.mem_cons.1 hm with rfl | hm
    · simp
    · split at hm
      · cases List.mem_singleton.1 hm
        simp
      · cases hm
  | answer now t outcome =>
    simp only [moves] at hm
    split at hm
    · obtain ⟨plan, -, rfl⟩ := List.mem_map.1 hm
      simp
    · cases hm
  | invalidate key => cases hm
  | clear => cases hm
  | _ =>
    cases List.mem_singleton.1 hm
    simp

theorem asks_of_mem_traceAll {event : Event} {s : Coalescer.Step Signature (Classified Json)}
    (h : s ∈ b.pool.traceAll (b.moves event)) : asks event s := by
  obtain ⟨q, m, hm, hs⟩ := Pool.mem_traceAll h
  have hasks := Pool.asks_of_mem_trace hs
  obtain ⟨hregister, hleave, htake⟩ := asks_of_mem_moves hm
  cases s with
  | register key => exact hregister key hasks
  | leave w => exact hleave w hasks
  | take w => exact htake w hasks
  | _ => trivial

theorem run_append (b : Backend σ) (s t : List Event) : b.run (s ++ t) = (b.run s).run t :=
  List.foldl_append

/-! ### Tasks over time -/

variable {t : Nat}

theorem plans_send (b : Backend σ) (t : Nat) : (b.send t).plans = b.plans := by
  unfold send
  split <;> rfl

/-- Only the launch of an exchange makes a plan, that of the exchange. -/
theorem plans_of_step {event : Event} {plan : Plan} (hp : (b.step event).plans.get? t = some plan) :
    b.plans.get? t = some plan ∨ ∃ e useCache delay draw, event = .launch e useCache delay draw ∧
      e ∈ b.pool.coalescer.exchanges ∧ plan = ⟨e.key, useCache && b.caching⟩ := by
  cases event with
  | launch e useCache delay draw =>
    simp only [step, launch] at hp
    split at hp
    · next task htask =>
      rw [Table.get?_put] at hp
      split at hp
      · simp only [Pool.dispatch] at htask
        split at htask
        · next hu =>
          simp only [Pool.isUnassigned, Coalescer.has, Bool.and_eq_true, decide_eq_true_eq] at hu
          exact .inr ⟨e, useCache, delay, draw, rfl, hu.1, (Option.some.inj hp).symm⟩
        · cases htask
      · exact .inl hp
    · exact .inl hp
  | poll task =>
    change Table.get? (if _ then Backend.send task { b with pool := b.pool.poll task } else _).plans t = _ at hp
    split at hp
    · rw [plans_send] at hp; exact .inl hp
    · exact .inl hp
  | answer now task outcome =>
    simp only [step, answer] at hp
    split at hp
    · split at hp <;> exact .inl hp
    · exact .inl hp
  | _ => exact .inl hp

theorem plans_of_run {events : List Event} {plan : Plan} (hp : (b.run events).plans.get? t = some plan) :
    b.plans.get? t = some plan ∨ ∃ e useCache delay draw, .launch e useCache delay draw ∈ events ∧
      plan.signature = e.key ∧ (plan.useCache → useCache = true) := by
  induction events generalizing b with
  | nil => exact .inl hp
  | cons event rest ih =>
    rcases ih hp with hstep | ⟨e, useCache, delay, draw, hmem, hplan⟩
    · rcases plans_of_step hstep with hold | ⟨e, useCache, delay, draw, rfl, -, rfl⟩
      · exact .inl hold
      · exact .inr ⟨e, useCache, delay, draw, List.mem_cons_self, rfl, fun h => (Bool.and_eq_true_iff.1 h).1⟩
    · exact .inr ⟨e, useCache, delay, draw, List.mem_cons_of_mem _ hmem, hplan⟩

end Backend

end Entitle
