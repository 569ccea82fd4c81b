import Entitle.Flight.Relay
import Entitle.Proofs.Flight.Attendance
import Entitle.Proofs.Flight.Pool

/-!
# Dispatches in pieces

`Relay.Coherent`: every task that has not ended is in one stage, no two tasks were started for one exchange, a dispatch
that has not ended holds its exchange, and an operation that someone listens to names its task once the dispatch has
recorded it. Between the pieces of a dispatch and between an abort and the end of the task more states are possible than
in a pool, so `Pool.Coherent` does not hold here.

An event is at most one step of the coalescer (`coalescer_step`). An event of a pool is a few events of a relay with
nothing in between (`Settled.run_event`).
-/

namespace Entitle.Flight

variable {κ ρ : Type} [DecidableEq κ]

/-! ### What a step leaves as it is -/

namespace Coalescer
variable {c : Coalescer κ ρ} {s : Step κ ρ} {e : Exchange κ}

/-- An exchange stays in use until it is settled. -/
theorem mem_exchanges_step_of_mem (he : e ∈ c.exchanges) (hs : s.settles? e = none) : e ∈ (c.step s).exchanges := by
  have hkeep : ∀ e' d, e' ≠ e → e ∈ (c.settle e' d).2.exchanges := fun e' d hne => by
    rw [exchanges_settle]
    exact (List.mem_erase_of_ne (Ne.symm hne)).2 he
  cases s with
  | register key => exact List.mem_append_left _ he
  | complete e' result => exact hkeep e' _ fun heq => by simp [Step.settles?, heq] at hs
  | drop e' => exact hkeep e' _ fun heq => by simp [Step.settles?, heq] at hs
  | attach e' task => exact (exchanges_attach c e' task).symm ▸ he
  | signal e' => exact (exchanges_takeSignal c e').symm ▸ he
  | expedite w => exact (exchanges_expedite c w).symm ▸ he
  | leave w => exact (exchanges_leave c w).symm ▸ he
  | take w => exact (exchanges_take c w).symm ▸ he

namespace Coherent

/-- Only a registration brings someone to listen where nobody did, and it starts an operation. -/
theorem started_of_audience_step (h : c.Coherent) (hnil : c.registry.audience e = [])
    (hne : (c.step s).registry.audience e ≠ []) :
    s = .register e.key ∧ e.generation = c.registry.nextGeneration := by
  rw [h.audience_step] at hne
  cases s with
  | register key =>
    simp only [audienceAfter] at hne
    split at hne
    swap
    · exact absurd hnil hne
    next he =>
    cases hget : c.registry.pending.get? key with
    | some o =>
      have hin : c.registry.isInFlight key := by rw [Registry.isInFlight, hget]; rfl
      exact absurd (he ▸ hnil) (h.registry.audience_ne_nil_of_isInFlight hin)
    | none =>
      have hwaiter : (c.register key).1.waiter = ⟨key, c.registry.nextGeneration, 0⟩ := by
        show (c.registry.register key).2.1 = _
        rw [Registry.register_started hget]
      rw [he, hwaiter]
      exact ⟨rfl, rfl⟩
  | complete e' result | drop e' =>
    simp only [audienceAfter, hnil, ite_self, ne_eq, not_true] at hne
  | leave w => simp [audienceAfter, hnil] at hne
  | _ => exact absurd hnil hne

theorem audience_of_run (h : c.Coherent) (hgen : e.generation < c.registry.nextGeneration) {steps : List (Step κ ρ)}
    (hne : (c.run steps).registry.audience e ≠ []) : c.registry.audience e ≠ [] := by
  induction steps generalizing c with
  | nil => exact hne
  | cons s rest ih =>
    intro hnil
    refine ih (h.step s) (Nat.lt_of_lt_of_le hgen (c.nextGeneration_step_le s)) hne ?_
    by_contra hstep
    exact Nat.ne_of_lt hgen (h.started_of_audience_step hnil hstep).2

/-- While someone listens, only recording a task changes which task an operation names. -/
theorem task?_step (h : c.Coherent) (hs : ∀ e t, s ≠ .attach e t) (hne : (c.step s).registry.audience e ≠ []) :
    (c.step s).registry.task? e = c.registry.task? e := by
  have hsettle : ∀ e' d, (c.settle e' d).2.registry.audience e ≠ [] →
      (c.settle e' d).2.registry.task? e = c.registry.task? e := fun e' d hne => by
    rw [h.audience_settle] at hne
    rw [h.task?_settle]
    split at hne
    · exact absurd rfl hne
    · next he => exact if_neg he
  cases s with
  | register key => exact c.task?_register key e
  | complete e' result => exact hsettle e' _ hne
  | drop e' => exact hsettle e' _ hne
  | attach e' t => exact absurd rfl (hs e' t)
  | signal e' => exact c.task?_takeSignal e' e
  | expedite w => exact c.task?_expedite w e
  | leave w =>
    show (c.leave w).registry.task? e = _
    rw [h.task?_leave]
    refine if_neg fun ⟨hsome, he⟩ => hne ?_
    obtain ⟨t, ht⟩ := Option.isSome_iff_exists.1 hsome
    rw [he]
    exact audience_of_orphan? ht
  | take w =>
    show (c.take w).2.registry.task? e = _
    rw [registry_take]

theorem audience_step_ne_nil (h : c.Coherent) (hs : ∀ w, s ≠ .leave w) (he : e ∈ (c.step s).exchanges)
    (hold : e ∈ c.exchanges → c.registry.audience e ≠ []) : (c.step s).registry.audience e ≠ [] := by
  have hsettle : ∀ e' d, e ∈ (c.settle e' d).2.exchanges → (if e = e' then [] else c.registry.audience e) ≠ [] :=
    fun e' d he => by
      rw [exchanges_settle, h.exchanges_nodup.mem_erase_iff] at he
      rw [if_neg he.1]
      exact hold he.2
  rw [h.audience_step]
  cases s with
  | register key =>
    simp only [audienceAfter]
    split
    · exact List.append_ne_nil_of_right_ne_nil _ (List.cons_ne_nil _ _)
    · next hne =>
      rcases mem_exchanges_step he with he | ⟨key', heq, hnew⟩
      · exact hold he
      · cases heq
        exact absurd (register_exchange hnew) hne
  | complete e' result => exact hsettle e' _ he
  | drop e' => exact hsettle e' _ he
  | leave w => exact absurd rfl (hs w)
  | attach e' t => exact hold (exchanges_attach c e' t ▸ he)
  | signal e' => exact hold (exchanges_takeSignal c e' ▸ he)
  | expedite w => exact hold (exchanges_expedite c w ▸ he)
  | take w => exact hold (exchanges_take c w ▸ he)

theorem audience_run_ne_nil (h : c.Coherent) {steps : List (Step κ ρ)} (hs : ∀ w, .leave w ∉ steps)
    (he : e ∈ (c.run steps).exchanges) (hold : e ∈ c.exchanges → c.registry.audience e ≠ []) :
    (c.run steps).registry.audience e ≠ [] := by
  induction steps generalizing c with
  | nil => exact hold he
  | cons s rest ih =>
    refine ih (h.step s) (fun w hw => hs w (List.mem_cons_of_mem _ hw)) he fun hin => ?_
    exact h.audience_step_ne_nil (fun w hw => hs w (hw ▸ List.mem_cons_self)) hin hold

end Coherent

end Coalescer

namespace Pool
variable {p : Pool κ ρ} {t : Nat}

theorem dispatcher_poll (p : Pool κ ρ) (t : Nat) :
    (p.poll t).dispatcher = p.dispatcher ∨
    (t ∈ p.dispatcher.fresh.map Prod.fst ∧ ∃ delay skip, (p.poll t).dispatcher = p.dispatcher.start t delay skip) ∨
    (p.poll t).dispatcher = p.dispatcher.wake t := by
  have hlook := Coherent.dispatcher_takeSignal p t
  have hfresh : ∀ delay, Table.get? p.dispatcher.fresh t = some delay → t ∈ p.dispatcher.fresh.map Prod.fst :=
    fun delay hd => Table.mem_keys.2 (by rw [hd]; simp)
  unfold poll
  split
  · next hd => exact .inr (.inl ⟨hfresh _ hd, 0, false, rfl⟩)
  · next delay _ hd =>
    refine .inr (.inl ⟨hfresh _ hd, delay, (p.takeSignal t).1, ?_⟩)
    show (p.takeSignal t).2.dispatcher.start t delay (p.takeSignal t).1 = _
    rw [hlook]
  · split
    swap
    · exact .inl rfl
    show Pool.dispatcher (if (p.takeSignal t).1 then
      { (p.takeSignal t).2 with dispatcher := (p.takeSignal t).2.dispatcher.wake t } else (p.takeSignal t).2) = _ ∨ _ ∨
      Pool.dispatcher (if (p.takeSignal t).1 then
      { (p.takeSignal t).2 with dispatcher := (p.takeSignal t).2.dispatcher.wake t } else (p.takeSignal t).2) = _
    split
    · exact .inr (.inr (congrArg (Dispatcher.wake · t) hlook))
    · exact .inl hlook

theorem Staged.poll (h : p.Staged) (t : Nat) : (p.poll t).Staged := by
  have htasks := p.tasks_poll t
  refine ⟨?_, ?_, ?_, ?_⟩
  · rw [coalescer_poll]
    exact h.coalescer.run _
  · rw [htasks.1]
    refine List.Perm.trans ?_ h.stages
    rcases p.dispatcher_poll t with hd | ⟨ht, delay, skip, hd⟩ | hd <;> rw [hd]
    · exact Dispatcher.tasks_start h.nodup ht
    · exact Dispatcher.tasks_wake _ t
  · rw [htasks.1]
    exact h.tasks_nodup
  · rw [htasks.1, htasks.2]
    exact h.task_lt

end Pool

/-! ### The invariant -/

namespace Relay
variable {r : Relay κ ρ} {t : Nat} {e : Exchange κ}

/-- What an event does to the coalescer, if anything. -/
def trace (r : Relay κ ρ) : Event κ ρ → Option (Coalescer.Step κ ρ)
  | .register key => some (.register key)
  | .begin _ _ => none
  | .record task => if task ∈ r.unrecorded then (r.orders.get? task).map (.attach · task) else none
  | .deliver task =>
    if task ∈ r.undelivered ∧ task ∉ r.unrecorded ∧ r.pool.tasks.get? task = none then
      (r.orders.get? task).map .drop
    else none
  | .drop e => if r.isUnassigned e then some (.drop e) else none
  | .schedule _ => none
  | .expedite w => some (.expedite w)
  | .poll task => if r.pool.looks task then (r.pool.exchange? task).map .signal else none
  | .expire _ => none
  | .complete task result =>
    if task ∈ r.pool.dispatcher.running ∧ task ∉ r.undelivered then
      (r.pool.exchange? task).map (.complete · result)
    else none
  | .stop task => if task ∈ r.undelivered then none else (r.pool.exchange? task).map .drop
  | .leave w => some (.leave w)
  | .take w => some (.take w)

theorem coalescer_step (r : Relay κ ρ) (event : Event κ ρ) :
    (r.step event).pool.coalescer = (r.trace event).elim r.pool.coalescer r.pool.coalescer.step := by
  cases event with
  | begin e delay =>
    simp only [step, begin, trace]
    split <;> rfl
  | record task =>
    simp only [step, record, trace]
    split
    · cases r.orders.get? task <;> rfl
    · rfl
  | deliver task =>
    simp only [step, deliver, trace]
    by_cases hd : task ∈ r.undelivered ∧ task ∉ r.unrecorded
    · rw [if_pos hd]
      cases htask : r.pool.tasks.get? task with
      | some x => rw [if_neg (by simp)]; rfl
      | none =>
        rw [if_pos ⟨hd.1, hd.2, rfl⟩]
        cases r.orders.get? task <;> rfl
    · rw [if_neg hd, if_neg fun h => hd ⟨h.1, h.2.1⟩]
      rfl
  | drop e =>
    simp only [step, drop, trace]
    split <;> rfl
  | poll task =>
    simp only [step, trace, Pool.coalescer_poll, Pool.trace]
    split
    · cases r.pool.exchange? task <;> rfl
    · rfl
  | complete task result =>
    simp only [step, complete, trace]
    split
    · cases r.pool.exchange? task <;> rfl
    · rfl
  | stop task =>
    simp only [step, stop, trace]
    split
    · rfl
    · rw [Pool.coalescer_stop]
      cases r.pool.exchange? task <;> rfl
  | _ => rfl

/-- An event leaves the coalescer as it is or takes one of its steps. -/
theorem coalescer_cases (r : Relay κ ρ) (event : Event κ ρ) :
    (r.step event).pool.coalescer = r.pool.coalescer ∨
    ∃ s ∈ r.trace event, (r.step event).pool.coalescer = r.pool.coalescer.step s := by
  rw [coalescer_step]
  cases hs : r.trace event with
  | none => exact .inl rfl
  | some s => exact .inr ⟨s, rfl, rfl⟩

/-- What comes from one kind of event alone. -/
def asks : Event κ ρ → Coalescer.Step κ ρ → Prop
  | event, .register key => event = .register key
  | event, .attach _ task => event = .record task
  | event, .leave w => event = .leave w
  | event, .take w => event = .take w
  | _, _ => True

theorem asks_of_mem_trace {event : Event κ ρ} {s : Coalescer.Step κ ρ} (h : s ∈ r.trace event) : asks event s := by
  cases event with
  | begin e delay | schedule delay | expire t => cases h
  | register key | expedite w | leave w | take w => cases h; trivial
  | record t =>
    simp only [trace] at h
    split at h
    · obtain ⟨e, -, rfl⟩ := Option.map_eq_some_iff.1 h
      rfl
    · cases h
  | drop e =>
    simp only [trace] at h
    split at h
    · cases h; trivial
    · cases h
  | deliver t | poll t | complete t result =>
    simp only [trace] at h
    split at h
    · obtain ⟨e, -, rfl⟩ := Option.map_eq_some_iff.1 h
      trivial
    · cases h
  | stop t =>
    simp only [trace] at h
    split at h
    · cases h
    · obtain ⟨e, -, rfl⟩ := Option.map_eq_some_iff.1 h
      trivial

/-- What a list of events does to the coalescer. -/
def traceAll (r : Relay κ ρ) : List (Event κ ρ) → List (Coalescer.Step κ ρ)
  | [] => []
  | event :: rest => (r.trace event).toList ++ traceAll (r.step event) rest

theorem coalescer_run (r : Relay κ ρ) (events : List (Event κ ρ)) :
    (r.run events).pool.coalescer = r.pool.coalescer.run (r.traceAll events) := by
  induction events generalizing r with
  | nil => rfl
  | cons event rest ih =>
    show ((r.step event).run rest).pool.coalescer = _
    rw [ih, coalescer_step, traceAll, Coalescer.run_append]
    cases r.trace event <;> rfl

theorem of_isUnassigned (hu : r.isUnassigned e) :
    e ∈ r.pool.coalescer.exchanges ∧ ∀ t, r.orders.get? t ≠ some e := by
  simp only [isUnassigned, Coalescer.has, Bool.and_eq_true, decide_eq_true_eq] at hu
  refine ⟨hu.1, fun t ht => ?_⟩
  simpa using List.all_eq_true.1 hu.2 _ (Table.mem_of_get? ht)

/-- The registry, the tasks and the dispatches agree. -/
structure Coherent (r : Relay κ ρ) : Prop where
  staged : r.pool.Staged
  orders_nodup : (Table.keys r.orders).Nodup
  order_lt : ∀ t e, r.orders.get? t = some e → t < r.pool.nextTask
  generation_lt : ∀ t e, r.orders.get? t = some e → e.generation < r.pool.coalescer.registry.nextGeneration
  /-- An exchange has one task. -/
  unshared : ∀ t₁ t₂ e, r.orders.get? t₁ = some e → r.orders.get? t₂ = some e → t₁ = t₂
  ordered : ∀ t e, r.pool.exchange? t = some e → r.orders.get? t = some e
  unrecorded_nodup : r.unrecorded.Nodup
  undelivered_nodup : r.undelivered.Nodup
  undelivered_of_unrecorded : ∀ t ∈ r.unrecorded, t ∈ r.undelivered
  /-- A dispatch that has not ended holds its exchange. -/
  held : ∀ t ∈ r.undelivered, ∃ e, r.orders.get? t = some e ∧ e ∈ r.pool.coalescer.exchanges
  named : ∀ t e, r.pool.coalescer.registry.task? e = some t → r.orders.get? t = some e ∧ t ∉ r.unrecorded
  /-- An operation that someone listens to names its task. -/
  recorded : ∀ t e, r.orders.get? t = some e → t ∉ r.unrecorded → r.pool.coalescer.registry.audience e ≠ [] →
    r.pool.coalescer.registry.task? e = some t

namespace Coherent

theorem coalescer (h : r.Coherent) : r.pool.coalescer.Coherent :=
  h.staged.coalescer

theorem ofLimits (l : Limits) : (ofLimits l : Relay κ ρ).Coherent where
  staged := (Pool.Coherent.ofLimits l).toStaged
  orders_nodup := .nil
  order_lt := by simp [Relay.ofLimits]
  generation_lt := by simp [Relay.ofLimits]
  unshared := by simp [Relay.ofLimits]
  ordered := by simp [Relay.ofLimits, Pool.ofLimits, Pool.exchange?]
  unrecorded_nodup := .nil
  undelivered_nodup := .nil
  undelivered_of_unrecorded := by simp [Relay.ofLimits]
  held := by simp [Relay.ofLimits]
  named := by simp [Relay.ofLimits, Pool.ofLimits, Registry.task?, Registry.operation?]
  recorded := by simp [Relay.ofLimits]

theorem orders_nextTask (h : r.Coherent) : r.orders.get? r.pool.nextTask = none := by
  cases hget : r.orders.get? r.pool.nextTask with
  | none => rfl
  | some e => exact absurd (h.order_lt _ e hget) (Nat.lt_irrefl _)

theorem lt_of_undelivered (h : r.Coherent) (ht : t ∈ r.undelivered) : t < r.pool.nextTask := by
  obtain ⟨e, he, -⟩ := h.held t ht
  exact h.order_lt t e he

theorem of_step (h : r.Coherent) {s : Coalescer.Step κ ρ} (hs : ∀ e t, s ≠ .attach e t)
    (hfree : ∀ t ∈ r.undelivered, ∀ e, r.orders.get? t = some e → s.settles? e = none) :
    Coherent { r with pool := { r.pool with coalescer := r.pool.coalescer.step s } } where
  staged := h.staged.of_coalescer (h.coalescer.step s)
  orders_nodup := h.orders_nodup
  order_lt := h.order_lt
  generation_lt t e he := Nat.lt_of_lt_of_le (h.generation_lt t e he) (r.pool.coalescer.nextGeneration_step_le s)
  unshared := h.unshared
  ordered := h.ordered
  unrecorded_nodup := h.unrecorded_nodup
  undelivered_nodup := h.undelivered_nodup
  undelivered_of_unrecorded := h.undelivered_of_unrecorded
  held t ht := by
    obtain ⟨e, he, hin⟩ := h.held t ht
    exact ⟨e, he, Coalescer.mem_exchanges_step_of_mem hin (hfree t ht e he)⟩
  named t e ht := by
    have hne : (r.pool.coalescer.step s).registry.audience e ≠ [] := fun hnil => by
      cases ((h.coalescer.step s).registry.task?_of_audience hnil).symm.trans ht
    exact h.named t e (h.coalescer.task?_step hs hne ▸ ht)
  recorded t e he ht hne := by
    -- an operation with an order is no new one, so someone listened to it before
    have hold : r.pool.coalescer.registry.audience e ≠ [] := fun hnil =>
      Nat.ne_of_lt (h.generation_lt t e he) (h.coalescer.started_of_audience_step hnil hne).2
    exact (h.coalescer.task?_step hs hne).trans (h.recorded t e he ht hold)

theorem of_staged (h : r.Coherent) {p : Pool κ ρ} (hp : p.Staged) (hc : p.coalescer = r.pool.coalescer)
    (hn : r.pool.nextTask ≤ p.nextTask) (he : ∀ t e, p.exchange? t = some e → r.pool.exchange? t = some e) :
    Coherent { r with pool := p } where
  staged := hp
  orders_nodup := h.orders_nodup
  order_lt t e ho := Nat.lt_of_lt_of_le (h.order_lt t e ho) hn
  generation_lt := by rw [hc]; exact h.generation_lt
  unshared := h.unshared
  ordered t e ht := h.ordered t e (he t e ht)
  unrecorded_nodup := h.unrecorded_nodup
  undelivered_nodup := h.undelivered_nodup
  undelivered_of_unrecorded := h.undelivered_of_unrecorded
  held := by rw [hc]; exact h.held
  named := by rw [hc]; exact h.named
  recorded := by rw [hc]; exact h.recorded

theorem begin (h : r.Coherent) (e : Exchange κ) (delay : Nat) : (r.begin e delay).Coherent := by
  unfold Relay.begin
  split
  swap
  · exact h
  next hu =>
  obtain ⟨hin, hfree⟩ := of_isUnassigned hu
  have hnew := h.orders_nextTask
  have hget : ∀ t, Table.get? (r.orders.put r.pool.nextTask e) t =
      if r.pool.nextTask = t then some e else r.orders.get? t := fun t => Table.get?_put _ _ t _
  have hundelivered : r.pool.nextTask ∉ r.undelivered := fun ht => Nat.lt_irrefl _ (h.lt_of_undelivered ht)
  have hunrecorded : r.pool.nextTask ∉ r.unrecorded := fun ht => hundelivered (h.undelivered_of_unrecorded _ ht)
  refine ⟨h.staged.spawn (some e) delay, Table.nodup_keys_put h.orders_nodup _ _,
    ?_, ?_, ?_, ?_, ?_, ?_, ?_, ?_, ?_, ?_⟩
  all_goals simp only [hget, List.mem_append, List.mem_singleton]
  · intro t e' ho
    show t < r.pool.nextTask + 1
    split at ho
    · next ht => exact ht ▸ Nat.lt_succ_self _
    · exact Nat.lt_succ_of_lt (h.order_lt t e' ho)
  · intro t e' ho
    split at ho
    · cases ho
      exact h.coalescer.generation_lt e hin
    · exact h.generation_lt t e' ho
  · intro t₁ t₂ e' h₁ h₂
    split at h₁ <;> split at h₂
    · next ht₁ ht₂ => exact ht₁.symm.trans ht₂
    · cases h₁; exact absurd h₂ (hfree t₂)
    · cases h₂; exact absurd h₁ (hfree t₁)
    · exact h.unshared t₁ t₂ e' h₁ h₂
  · intro t e' he'
    rw [Pool.exchange?_spawn] at he'
    split at he'
    · next ht => rw [if_pos ht]; exact he'
    · next ht => rw [if_neg ht]; exact h.ordered t e' he'
  · exact h.unrecorded_nodup.append (List.nodup_singleton _) (by simpa using hunrecorded)
  · exact h.undelivered_nodup.append (List.nodup_singleton _) (by simpa using hundelivered)
  · exact fun t => Or.imp_left (h.undelivered_of_unrecorded t)
  · rintro t (ht | rfl)
    · obtain ⟨e', ho, hin'⟩ := h.held t ht
      refine ⟨e', ?_, hin'⟩
      rwa [if_neg]
      rintro rfl
      exact hundelivered ht
    · exact ⟨e, if_pos rfl, hin⟩
  · intro t e' htask
    obtain ⟨ho, ht⟩ := h.named t e' htask
    have hne : r.pool.nextTask ≠ t := fun heq => by rw [← heq, hnew] at ho; cases ho
    exact ⟨(if_neg hne).trans ho, not_or.2 ⟨ht, Ne.symm hne⟩⟩
  · intro t e' ho ht
    obtain ⟨ht, hne⟩ := not_or.1 ht
    rw [if_neg (Ne.symm hne)] at ho
    exact h.recorded t e' ho ht

theorem record (h : r.Coherent) (t : Nat) : (r.record t).Coherent := by
  unfold Relay.record
  split
  swap
  · exact h
  split
  swap
  · exact h
  next ht _ e ho =>
  obtain ⟨e', ho', hin⟩ := h.held t (h.undelivered_of_unrecorded t ht)
  cases ho.symm.trans ho'
  have haudience : ∀ e', (r.pool.coalescer.attach e t).registry.audience e' = r.pool.coalescer.registry.audience e' :=
    fun e' => h.coalescer.audience_step (.attach e t) e'
  have hmem : ∀ t', t' ∈ r.unrecorded.erase t ↔ t' ≠ t ∧ t' ∈ r.unrecorded := fun _ => h.unrecorded_nodup.mem_erase_iff
  have hcases := h.coalescer.attach_cases hin t
  refine ⟨h.staged.of_coalescer (h.coalescer.attach e t), h.orders_nodup, h.order_lt, fun t' e' ho' => ?_, h.unshared,
    h.ordered,
    h.unrecorded_nodup.erase t, h.undelivered_nodup,
    fun t' ht' => h.undelivered_of_unrecorded t' (List.mem_of_mem_erase ht'), fun t' ht' => ?_, fun t' e' ht' => ?_,
    fun t' e' ho' ht' hne => ?_⟩
  · exact Nat.lt_of_lt_of_le (h.generation_lt t' e' ho') (r.pool.coalescer.nextGeneration_step_le (.attach e t))
  · obtain ⟨e', ho', hin'⟩ := h.held t' ht'
    exact ⟨e', ho', (r.pool.coalescer.exchanges_attach e t).symm ▸ hin'⟩
  · rw [hmem]
    rcases hcases with ⟨-, -, htask⟩ | ⟨-, -, hreg⟩
    · rw [htask] at ht'
      split at ht'
      · next he =>
        cases ht'
        exact ⟨he ▸ ho, fun hboth => hboth.1 rfl⟩
      · obtain ⟨ho', hnot⟩ := h.named t' e' ht'
        exact ⟨ho', fun hboth => hnot hboth.2⟩
    · rw [hreg] at ht'
      obtain ⟨ho', hnot⟩ := h.named t' e' ht'
      exact ⟨ho', fun hboth => hnot hboth.2⟩
  · rw [haudience] at hne
    rw [hmem] at ht'
    by_cases heq : t' = t
    · subst heq
      cases ho.symm.trans ho'
      rcases hcases with ⟨-, -, htask⟩ | ⟨hnil, -, -⟩
      · rw [htask, if_pos rfl]
      · exact absurd hnil hne
    · have hold := h.recorded t' e' ho' (fun hin' => ht' ⟨heq, hin'⟩) hne
      rcases hcases with ⟨-, -, htask⟩ | ⟨-, -, hreg⟩
      · rw [htask e', if_neg fun he : e' = e => heq (h.unshared t' t e (he ▸ ho') ho)]
        exact hold
      · rw [hreg]
        exact hold

theorem deliver (h : r.Coherent) (t : Nat) : (r.deliver t).Coherent := by
  unfold Relay.deliver
  split
  swap
  · exact h
  next ht =>
  have hmem : ∀ t', t' ∈ r.undelivered.erase t ↔ t' ≠ t ∧ t' ∈ r.undelivered := fun _ =>
    h.undelivered_nodup.mem_erase_iff
  have herase : Coherent { r with undelivered := r.undelivered.erase t } :=
    ⟨h.staged, h.orders_nodup, h.order_lt, h.generation_lt, h.unshared, h.ordered, h.unrecorded_nodup,
      h.undelivered_nodup.erase t,
      fun t' ht' => (hmem t').2 ⟨fun heq => ht.2 (heq ▸ ht'), h.undelivered_of_unrecorded t' ht'⟩,
      fun t' ht' => h.held t' (List.mem_of_mem_erase ht'), h.named, h.recorded⟩
  split
  · next e _ ho =>
    refine herase.of_step (s := .drop e) (fun _ _ => by simp) fun t' ht' e' ho' => if_neg fun he => ?_
    exact ((hmem t').1 ht').1 (h.unshared t' t e (he ▸ ho') ho)
  · exact herase

theorem drop (h : r.Coherent) (e : Exchange κ) : (r.drop e).Coherent := by
  unfold Relay.drop
  split
  swap
  · exact h
  next hu =>
  refine h.of_step (s := .drop e) (fun _ _ => by simp) fun t _ e' ho => if_neg fun he => ?_
  exact (of_isUnassigned hu).2 t (he ▸ ho)

/-- A task that has its exchange shares it with no dispatch. -/
theorem ne_of_undelivered (h : r.Coherent) (ht : t ∉ r.undelivered) (he : r.pool.exchange? t = some e) {t' : Nat}
    (ht' : t' ∈ r.undelivered) {e' : Exchange κ} (ho : r.orders.get? t' = some e') : e ≠ e' := fun heq =>
  ht (h.unshared t t' e (h.ordered t e he) (heq ▸ ho) ▸ ht')

theorem complete (h : r.Coherent) (t : Nat) (result : ρ) : (r.complete t result).Coherent := by
  unfold Relay.complete
  split
  swap
  · exact h
  next ht =>
  split
  swap
  · exact h
  next e he =>
  exact h.of_step (s := .complete e result) (fun _ _ => by simp) fun t' ht' e' ho' =>
    if_neg (h.ne_of_undelivered ht.2 he ht' ho')

theorem retire (h : r.Coherent) (t : Nat) :
    Coherent { r with
      pool := { r.pool with dispatcher := r.pool.dispatcher.stop t, tasks := r.pool.tasks.erase t } } := by
  refine h.of_staged (h.staged.retire t) rfl (Nat.le_refl _) fun t' e he => ?_
  change (Table.get? (r.pool.tasks.erase t) t').join = some e at he
  rw [Pool.exchange?_erase] at he
  split at he
  · cases he
  · exact he

theorem stop (h : r.Coherent) (t : Nat) : (r.stop t).Coherent := by
  unfold Relay.stop
  split
  · exact h.retire t
  next ht =>
  unfold Pool.stop
  split
  · next e he =>
    exact (h.retire t).of_step (s := .drop e) (fun _ _ => by simp) fun t' ht' e' ho' =>
      if_neg (h.ne_of_undelivered ht he ht' ho')
  · exact h.retire t

theorem poll (h : r.Coherent) (t : Nat) : Coherent { r with pool := r.pool.poll t } := by
  have htasks := r.pool.tasks_poll t
  have hlook : Coherent { r with pool := { r.pool with coalescer := (r.step (.poll t)).pool.coalescer } } := by
    rw [coalescer_step]
    cases hs : r.trace (.poll t) with
    | none => exact h
    | some s =>
      simp only [trace] at hs
      split at hs
      · obtain ⟨e, -, rfl⟩ := Option.map_eq_some_iff.1 hs
        exact h.of_step (s := .signal e) (fun _ _ => by simp) fun _ _ _ _ => rfl
      · cases hs
  refine hlook.of_staged (h.staged.poll t) rfl (Nat.le_of_eq htasks.2.symm) fun t' e he => ?_
  simp only [Pool.exchange?, htasks.1] at he
  exact he

theorem schedule (h : r.Coherent) (delay : Nat) : Coherent { r with pool := (r.pool.spawn none delay).2 } := by
  refine h.of_staged (h.staged.spawn none delay) rfl (Nat.le_succ _) fun t e he => ?_
  rw [Pool.exchange?_spawn] at he
  split at he
  · cases he
  · exact he

theorem step (h : r.Coherent) (event : Event κ ρ) : (r.step event).Coherent := by
  cases event with
  | register key => exact h.of_step (s := .register key) (fun _ _ => by simp) fun _ _ _ _ => rfl
  | begin e delay => exact h.begin e delay
  | record t => exact h.record t
  | deliver t => exact h.deliver t
  | drop e => exact h.drop e
  | schedule delay => exact h.schedule delay
  | expedite w => exact h.of_step (s := .expedite w) (fun _ _ => by simp) fun _ _ _ _ => rfl
  | poll t => exact h.poll t
  | expire t =>
    exact h.of_staged (h.staged.of_perm (r.pool.dispatcher.tasks_wake t)) rfl (Nat.le_refl _) fun _ _ he => he
  | complete t result => exact h.complete t result
  | stop t => exact h.stop t
  | leave w => exact h.of_step (s := .leave w) (fun _ _ => by simp) fun _ _ _ _ => rfl
  | take w => exact h.of_step (s := .take w) (fun _ _ => by simp) fun _ _ _ _ => rfl

theorem run (h : r.Coherent) (events : List (Event κ ρ)) : (r.run events).Coherent := by
  induction events generalizing r with
  | nil => exact h
  | cons event rest ih => exact ih (h.step event)

end Coherent

/-! ### Tasks and their exchanges -/

variable {event : Event κ ρ}

/-- A stop takes a task away, a begin or work of its own adds one, and nothing else changes the tasks. -/
theorem tasks_cases (r : Relay κ ρ) (event : Event κ ρ) :
    ((∀ t, event ≠ .stop t) ∧ (r.step event).pool.tasks = r.pool.tasks) ∨
    (∃ t, event = .stop t ∧ (r.step event).pool.tasks = r.pool.tasks.erase t) ∨
    ∃ x, (r.step event).pool.tasks = r.pool.tasks.put r.pool.nextTask x ∧
      ((∃ e delay, event = .begin e delay ∧ r.isUnassigned e ∧ x = some e) ∨
        ∃ delay, event = .schedule delay ∧ x = none) := by
  cases event with
  | begin e delay =>
    simp only [step, begin]
    split
    · next hu => exact .inr (.inr ⟨some e, rfl, .inl ⟨e, delay, rfl, hu, rfl⟩⟩)
    · exact .inl ⟨fun _ => by simp, rfl⟩
  | schedule delay => exact .inr (.inr ⟨none, rfl, .inr ⟨delay, rfl, rfl⟩⟩)
  | stop t =>
    refine .inr (.inl ⟨t, rfl, ?_⟩)
    simp only [step, stop]
    split <;> rfl
  | poll t => exact .inl ⟨fun _ => by simp, (r.pool.tasks_poll t).1⟩
  | record t =>
    refine .inl ⟨fun _ => by simp, ?_⟩
    simp only [step, record]
    split
    · split <;> rfl
    · rfl
  | deliver t =>
    refine .inl ⟨fun _ => by simp, ?_⟩
    simp only [step, deliver]
    split <;> rfl
  | drop e =>
    refine .inl ⟨fun _ => by simp, ?_⟩
    simp only [step, drop]
    split <;> rfl
  | complete t result =>
    refine .inl ⟨fun _ => by simp, ?_⟩
    simp only [step, complete]
    split
    · split <;> rfl
    · rfl
  | _ => exact .inl ⟨fun _ => by simp, rfl⟩

theorem owned_step (h : ∀ t, r.pool.tasks.get? t ≠ some none) (hw : ∀ delay, event ≠ .schedule delay) (t : Nat) :
    (r.step event).pool.tasks.get? t ≠ some none := by
  intro ht
  rcases r.tasks_cases event with
    ⟨-, htasks⟩ | ⟨t', -, htasks⟩ | ⟨x, htasks, ⟨e, delay, -, -, rfl⟩ | ⟨delay, hevent, -⟩⟩
  · exact h t (htasks ▸ ht)
  · rw [htasks, Table.get?_erase] at ht
    split at ht
    · cases ht
    · exact h t ht
  · rw [htasks, Table.get?_put] at ht
    split at ht
    · cases ht
    · exact h t ht
  · exact hw delay hevent

theorem exchange?_of_step (he : (r.step event).pool.exchange? t = some e) :
    (r.pool.exchange? t = some e ∧ event ≠ .stop t) ∨
      t = r.pool.nextTask ∧ ∃ delay, event = .begin e delay ∧ r.isUnassigned e := by
  rw [Pool.exchange?_eq_some] at he
  rcases r.tasks_cases event with ⟨hstop, htasks⟩ | ⟨t', rfl, htasks⟩ | ⟨x, htasks, hx⟩
  · exact .inl ⟨Pool.exchange?_eq_some.2 (htasks ▸ he), hstop t⟩
  · rw [htasks, Table.get?_erase] at he
    split at he
    · cases he
    · next hne => exact .inl ⟨Pool.exchange?_eq_some.2 he, fun heq => hne (Event.stop.inj heq)⟩
  · have hstop : event ≠ .stop t := by rcases hx with ⟨_, _, rfl, -⟩ | ⟨_, rfl, -⟩ <;> simp
    rw [htasks, Table.get?_put] at he
    split at he
    swap
    · exact .inl ⟨Pool.exchange?_eq_some.2 he, hstop⟩
    next ht =>
    rcases hx with ⟨e', delay, rfl, hu, rfl⟩ | ⟨delay, rfl, rfl⟩
    · cases he
      exact .inr ⟨ht.symm, delay, rfl, hu⟩
    · cases he

theorem not_mem_undelivered_step (hb : ∀ e delay, event ≠ .begin e delay) (ht : t ∉ r.undelivered) :
    t ∉ (r.step event).undelivered := by
  cases event with
  | begin e delay => exact absurd rfl (hb e delay)
  | record t' =>
    simp only [step, record]
    split
    · split <;> exact ht
    · exact ht
  | deliver t' =>
    simp only [step, deliver]
    split
    · exact fun hmem => ht (List.mem_of_mem_erase hmem)
    · exact ht
  | drop e =>
    simp only [step, drop]
    split <;> exact ht
  | complete t' result =>
    simp only [step, complete]
    split
    · split <;> exact ht
    · exact ht
  | stop t' =>
    simp only [step, stop]
    split <;> exact ht
  | _ => exact ht

namespace Coherent

theorem settles?_eq_none (h : r.Coherent) (he : r.pool.exchange? t = some e) (hs : event ≠ .stop t)
    (hc : ∀ result, event ≠ .complete t result) {s : Coalescer.Step κ ρ} (hmem : s ∈ r.trace event) :
    s.settles? e = none := by
  have hother : ∀ t' e', r.pool.exchange? t' = some e' → t' ≠ t → e' ≠ e := fun t' e' he' hne heq =>
    hne (h.unshared t' t e (h.ordered t' e (heq ▸ he')) (h.ordered t e he))
  cases event with
  | begin e' delay | schedule delay | expire t' => cases hmem
  | register key | expedite w | leave w | take w => cases hmem; rfl
  | record t' =>
    simp only [trace] at hmem
    split at hmem
    · obtain ⟨e', -, rfl⟩ := Option.map_eq_some_iff.1 hmem
      rfl
    · cases hmem
  | deliver t' =>
    simp only [trace] at hmem
    split at hmem
    swap
    · cases hmem
    next ht =>
    obtain ⟨e', ho, rfl⟩ := Option.map_eq_some_iff.1 hmem
    refine if_neg fun heq => ?_
    -- the dispatch drops an exchange whose task has stopped, and this one's task has not
    have hsame := h.unshared t' t e (heq ▸ ho) (h.ordered t e he)
    rw [hsame, Pool.exchange?_eq_some.1 he] at ht
    cases ht.2.2
  | drop e' =>
    simp only [trace] at hmem
    split at hmem
    swap
    · cases hmem
    next hu =>
    cases hmem
    refine if_neg fun heq => (of_isUnassigned hu).2 t ?_
    rw [heq]
    exact h.ordered t e he
  | poll t' =>
    simp only [trace] at hmem
    split at hmem
    · obtain ⟨e', -, rfl⟩ := Option.map_eq_some_iff.1 hmem
      rfl
    · cases hmem
  | complete t' result =>
    simp only [trace] at hmem
    split at hmem
    swap
    · cases hmem
    obtain ⟨e', he', rfl⟩ := Option.map_eq_some_iff.1 hmem
    exact if_neg (hother t' e' he' fun heq => hc result (by rw [heq]))
  | stop t' =>
    simp only [trace] at hmem
    split at hmem
    · cases hmem
    obtain ⟨e', he', rfl⟩ := Option.map_eq_some_iff.1 hmem
    exact if_neg (hother t' e' he' fun heq => hs (by rw [heq]))

/-- The exchange of a task stays in use until the task gives its result or stops. -/
theorem mem_exchanges_step (h : r.Coherent) (he : r.pool.exchange? t = some e) (hs : event ≠ .stop t)
    (hc : ∀ result, event ≠ .complete t result) (hin : e ∈ r.pool.coalescer.exchanges) :
    e ∈ (r.step event).pool.coalescer.exchanges := by
  rcases r.coalescer_cases event with hsame | ⟨s, hmem, hstep⟩
  · rw [hsame]
    exact hin
  · rw [hstep]
    exact Coalescer.mem_exchanges_step_of_mem hin (h.settles?_eq_none he hs hc hmem)

theorem order_step (h : r.Coherent) (ho : r.orders.get? t = some e) (event : Event κ ρ) :
    (r.step event).orders.get? t = some e := by
  cases event with
  | begin e' delay =>
    simp only [Relay.step, Relay.begin]
    split
    · rw [Table.get?_put, if_neg (Nat.ne_of_gt (h.order_lt t e ho))]
      exact ho
    · exact ho
  | record t' =>
    simp only [Relay.step, Relay.record]
    split
    · split <;> exact ho
    · exact ho
  | deliver t' =>
    simp only [Relay.step, Relay.deliver]
    split <;> exact ho
  | drop e' =>
    simp only [Relay.step, Relay.drop]
    split <;> exact ho
  | complete t' result =>
    simp only [Relay.step, Relay.complete]
    split
    · split <;> exact ho
    · exact ho
  | stop t' =>
    simp only [Relay.step, Relay.stop]
    split <;> exact ho
  | _ => exact ho

/-- An exchange that has ended is not issued again. -/
theorem not_mem_exchanges_step (h : r.Coherent) (ho : r.orders.get? t = some e) (he : e ∉ r.pool.coalescer.exchanges) :
    e ∉ (r.step event).pool.coalescer.exchanges := by
  intro hin
  rcases r.coalescer_cases event with hsame | ⟨s, -, hstep⟩
  · exact he (hsame ▸ hin)
  rw [hstep] at hin
  rcases Coalescer.mem_exchanges_step hin with hold | ⟨key, rfl, hnew⟩
  · exact he hold
  · exact Nat.ne_of_lt (h.generation_lt t e ho) (Coalescer.generation_of_issued hnew)

end Coherent

theorem mem_running_step (ht : t ∈ r.pool.dispatcher.running) (hs : event ≠ .stop t) :
    t ∈ (r.step event).pool.dispatcher.running := by
  cases event with
  | begin e delay =>
    simp only [step, begin]
    split <;> exact ht
  | record t' =>
    simp only [step, record]
    split
    · split <;> exact ht
    · exact ht
  | deliver t' =>
    simp only [step, deliver]
    split <;> exact ht
  | drop e =>
    simp only [step, drop]
    split <;> exact ht
  | poll t' =>
    show t ∈ (r.pool.poll t').dispatcher.running
    rcases r.pool.dispatcher_poll t' with hd | ⟨-, delay, skip, hd⟩ | hd <;> rw [hd]
    · exact ht
    · exact Dispatcher.mem_running_start ht t' delay skip
    · exact Dispatcher.mem_running_wake ht t'
  | expire t' => exact Dispatcher.mem_running_wake ht t'
  | complete t' result =>
    simp only [step, complete]
    split
    · split <;> exact ht
    · exact ht
  | stop t' =>
    have hne : t' ≠ t := fun heq => hs (by rw [heq])
    simp only [step, stop]
    split <;> exact Dispatcher.mem_running_stop ht hne
  | _ => exact ht

/-! ### Pools as relays -/

/-- An event of a pool in pieces. -/
def parts (p : Pool κ ρ) : Pool.Event κ ρ → List (Event κ ρ)
  | .register key => [.register key]
  | .dispatch e delay =>
    if p.isUnassigned e then
      .begin e delay :: .record p.nextTask ::
        ((if p.coalescer.registry.audience e = [] then [.stop p.nextTask] else []) ++ [.deliver p.nextTask])
    else []
  | .drop e => [.drop e]
  | .schedule delay => [.schedule delay]
  | .expedite w => [.expedite w]
  | .poll task => [.poll task]
  | .expire task => [.expire task]
  | .finish task result => if task ∈ p.dispatcher.running then [.complete task result, .stop task] else []
  | .stop task => [.stop task]
  | .leave w => .leave w :: (p.coalescer.orphan? w).toList.map .stop
  | .take w => [.take w]

/-- The orders after an event of the pool. -/
def ordersAfter (r : Relay κ ρ) : Pool.Event κ ρ → Table Nat (Exchange κ)
  | .dispatch e _ => if r.pool.isUnassigned e then r.orders.put r.pool.nextTask e else r.orders
  | _ => r.orders

theorem run_append (r : Relay κ ρ) (events more : List (Event κ ρ)) :
    r.run (events ++ more) = (r.run events).run more :=
  List.foldl_append

/-- Every dispatch has ended, and so has every task whose waiters are gone. -/
structure Settled (r : Relay κ ρ) : Prop where
  coherent : r.Coherent
  pool : r.pool.Coherent
  unrecorded : r.unrecorded = []
  undelivered : r.undelivered = []
  attended : ∀ t e, r.orders.get? t = some e → e ∈ r.pool.coalescer.exchanges →
    r.pool.coalescer.registry.audience e ≠ []

namespace Settled

theorem ofLimits (l : Limits) : (ofLimits l : Relay κ ρ).Settled :=
  ⟨.ofLimits l, .ofLimits l, rfl, rfl, by simp [Relay.ofLimits]⟩

theorem exchange?_of_order (h : r.Settled) (ho : r.orders.get? t = some e) (he : e ∈ r.pool.coalescer.exchanges) :
    r.pool.exchange? t = some e :=
  (h.pool.assigned t e).2 (h.coherent.recorded t e ho (by simp [h.unrecorded]) (h.attended t e ho he))

theorem isUnassigned_eq (h : r.Settled) (e : Exchange κ) : r.isUnassigned e = r.pool.isUnassigned e := by
  rw [Bool.eq_iff_iff]
  simp only [isUnassigned, Pool.isUnassigned, Coalescer.has, Bool.and_eq_true, decide_eq_true_eq, List.all_eq_true]
  refine and_congr_right fun he => ⟨fun hall entry hentry heq => ?_, fun hall entry hentry heq => ?_⟩
  · have hget := Table.get?_of_mem h.pool.tasks_nodup hentry
    rw [heq] at hget
    exact hall _ (Table.mem_of_get? (h.coherent.ordered _ e (Pool.exchange?_eq_some.2 hget))) rfl
  · have hget := Table.get?_of_mem h.coherent.orders_nodup hentry
    rw [heq] at hget
    exact hall _ (Table.mem_of_get? (Pool.exchange?_eq_some.1 (h.exchange?_of_order hget he))) rfl

theorem run_dispatch (h : r.Settled) (e : Exchange κ) (delay : Nat) :
    r.run (parts r.pool (.dispatch e delay)) =
      { r with pool := (r.pool.dispatch e delay).2, orders := r.ordersAfter (.dispatch e delay) } := by
  by_cases hu : r.pool.isUnassigned e
  swap
  · simp only [parts, Pool.dispatch, ordersAfter, hu, Bool.false_eq_true, if_false]
    rfl
  obtain ⟨hin, -⟩ := h.pool.of_isUnassigned hu
  have hbegin : r.step (.begin e delay) =
      ⟨(r.pool.spawn (some e) delay).2, r.orders.put r.pool.nextTask e, [r.pool.nextTask], [r.pool.nextTask]⟩ := by
    simp [step, begin, h.isUnassigned_eq, hu, h.unrecorded, h.undelivered]
  let recorded : Relay κ ρ :=
    ⟨{ (r.pool.spawn (some e) delay).2 with coalescer := r.pool.coalescer.attach e r.pool.nextTask },
      r.orders.put r.pool.nextTask e, [], [r.pool.nextTask]⟩
  have hrecord : (r.step (.begin e delay)).step (.record r.pool.nextTask) = recorded := by
    rw [hbegin]
    simp only [step, record, List.mem_singleton, if_true, Table.get?_put, List.erase_cons_head]
    rfl
  have htasks : recorded.pool.tasks.get? r.pool.nextTask = some (some e) := by
    show Table.get? (r.pool.tasks.put r.pool.nextTask (some e)) r.pool.nextTask = _
    rw [Table.get?_put, if_pos rfl]
  have horder : recorded.orders.get? r.pool.nextTask = some e := by
    show Table.get? (r.orders.put r.pool.nextTask e) r.pool.nextTask = _
    rw [Table.get?_put, if_pos rfl]
  have hpool : (r.pool.dispatch e delay).2 = recorded.pool.stopAborted r.pool.coalescer := by
    simp only [Pool.dispatch, hu, if_true]
    rfl
  rw [hpool, ordersAfter, if_pos hu, parts, if_pos hu]
  show ((r.step (.begin e delay)).step (.record r.pool.nextTask)).run _ = _
  rw [hrecord]
  rcases h.pool.coalescer.attach_cases hin r.pool.nextTask with ⟨haud, haborted, -⟩ | ⟨haud, haborted, -⟩
  · rw [if_neg haud, Pool.stopAborted_of_aborted (l := []) (by simpa using haborted)]
    show recorded.deliver r.pool.nextTask = _
    simp only [deliver, htasks, recorded, List.mem_singleton, List.not_mem_nil, not_false_eq_true, and_self, if_true,
      List.erase_cons_head, h.unrecorded, h.undelivered]
    rfl
  · rw [if_pos haud, Pool.stopAborted_of_aborted (l := [r.pool.nextTask]) haborted]
    let stopped : Relay κ ρ :=
      { recorded with
        pool := { recorded.pool with
          dispatcher := recorded.pool.dispatcher.stop r.pool.nextTask
          tasks := recorded.pool.tasks.erase r.pool.nextTask } }
    have hstop : recorded.step (.stop r.pool.nextTask) = stopped := if_pos (List.mem_singleton_self _)
    have hgone : stopped.pool.tasks.get? r.pool.nextTask = none := by
      show Table.get? (recorded.pool.tasks.erase r.pool.nextTask) r.pool.nextTask = none
      rw [Table.get?_erase, if_pos rfl]
    have hexchange : recorded.pool.exchange? r.pool.nextTask = some e := Pool.exchange?_eq_some.2 htasks
    show (recorded.step (.stop r.pool.nextTask)).deliver r.pool.nextTask = _
    rw [hstop]
    have horder : stopped.orders.get? r.pool.nextTask = some e := horder
    simp only [deliver, hgone, horder, List.foldl_cons, List.foldl_nil, Pool.stop, hexchange]
    simp only [stopped, recorded, List.mem_singleton, List.not_mem_nil, not_false_eq_true, and_self, if_true,
      List.erase_cons_head, h.unrecorded, h.undelivered]

/-- The pieces of an event. -/
theorem run_event (h : r.Settled) (event : Pool.Event κ ρ) :
    r.run (parts r.pool event) = { r with pool := r.pool.step event, orders := r.ordersAfter event } := by
  have hstop : ∀ (r' : Relay κ ρ) (t : Nat), r'.undelivered = [] →
      r'.step (.stop t) = { r' with pool := r'.pool.stop t } :=
    fun r' t hr => if_neg (by simp [hr])
  cases event with
  | dispatch e delay => exact h.run_dispatch e delay
  | drop e =>
    show r.drop e = { r with pool := r.pool.drop e }
    unfold Relay.drop Pool.drop
    rw [h.isUnassigned_eq]
    split <;> rfl
  | finish t result =>
    show r.run (if t ∈ r.pool.dispatcher.running then _ else []) = { r with pool := r.pool.finish t result }
    unfold Pool.finish
    split
    swap
    · rfl
    next ht =>
    show (r.complete t result).step (.stop t) = _
    unfold Relay.complete
    rw [if_pos ⟨ht, by simp [h.undelivered]⟩]
    cases r.pool.exchange? t <;> exact hstop _ t h.undelivered
  | stop t => exact hstop r t h.undelivered
  | leave w =>
    have haborted := r.pool.coalescer.aborted_leave w
    show (r.leave w).run ((r.pool.coalescer.orphan? w).toList.map .stop) = { r with pool := r.pool.leave w }
    show _ = { r with pool := { r.pool with coalescer := r.pool.coalescer.leave w }.stopAborted r.pool.coalescer }
    rw [Pool.stopAborted_of_aborted haborted]
    cases r.pool.coalescer.orphan? w with
    | none => rfl
    | some t => exact hstop (r.leave w) t h.undelivered
  | _ => rfl

theorem not_mem_leave (h : r.Settled) (ho : r.orders.get? t = some e) (w : Waiter κ)
    (hnil : (r.pool.coalescer.leave w).registry.audience e = []) : e ∉ (r.pool.leave w).coalescer.exchanges := by
  intro he
  have hrun := r.pool.coalescer_leave w
  have hsub : e ∈ r.pool.coalescer.exchanges := by
    rw [hrun] at he
    refine (Coalescer.mem_exchanges_run he).resolve_right fun hmem => ?_
    cases Pool.asks_of_mem_trace hmem
  have hne := h.attended t e ho hsub
  rw [h.pool.coalescer.audience_leave] at hnil
  -- the waiter that left is the only one who listened
  obtain ⟨v, hv⟩ := List.exists_mem_of_ne_nil _ hne
  have hvw : v = w := by simpa using List.filter_eq_nil_iff.1 hnil v hv
  have hwe : w.exchange = e := hvw ▸ Registry.exchange_of_mem_audience hv
  subst hwe
  have hw : w ∈ r.pool.coalescer.waiters := ((h.pool.coalescer.listening w).1 (hvw ▸ hv)).1
  have hexchange := h.exchange?_of_order ho hsub
  have horphan : r.pool.coalescer.orphan? w = some t := by
    rw [Coalescer.orphan?_of_mem hw, Registry.leave_fst, Registry.audience_leave, if_pos hnil]
    exact (h.pool.assigned t _).1 hexchange
  rw [hrun, Pool.trace, horphan] at he
  simp only [Option.bind_some, hexchange, Option.toList_some, List.map_cons, List.map_nil] at he
  change w.exchange ∈ ((r.pool.coalescer.leave w).settle w.exchange .abandoned).2.exchanges at he
  rw [Coalescer.exchanges_settle, Coalescer.exchanges_leave, h.pool.coalescer.exchanges_nodup.mem_erase_iff] at he
  exact he.1 rfl

theorem attended_step (h : r.Settled) (event : Pool.Event κ ρ) (ho : (r.ordersAfter event).get? t = some e)
    (he : e ∈ (r.pool.step event).coalescer.exchanges) :
    (r.pool.step event).coalescer.registry.audience e ≠ [] := by
  have hrun := Pool.coalescer_step h.pool event
  have hkeep : (∀ w, event ≠ .leave w) → (e ∈ r.pool.coalescer.exchanges → r.pool.coalescer.registry.audience e ≠ []) →
      (r.pool.step event).coalescer.registry.audience e ≠ [] := fun hne hold => by
    rw [hrun] at he ⊢
    exact h.pool.coalescer.audience_run_ne_nil (fun w hw => hne w (Pool.asks_of_mem_trace hw)) he hold
  cases event with
  | dispatch e' delay =>
    refine hkeep (fun _ => by simp) fun hin hnil => ?_
    simp only [ordersAfter] at ho
    split at ho
    swap
    · exact h.attended t e ho hin hnil
    next hu =>
    rw [Table.get?_put] at ho
    split at ho
    swap
    · exact h.attended t e ho hin hnil
    cases ho
    -- the dispatch found nobody and dropped the exchange
    rw [hrun, Pool.trace, if_pos hu, if_pos hnil] at he
    change e ∈ ((r.pool.coalescer.attach e r.pool.nextTask).settle e .abandoned).2.exchanges at he
    rw [Coalescer.exchanges_settle, Coalescer.exchanges_attach, h.pool.coalescer.exchanges_nodup.mem_erase_iff] at he
    exact he.1 rfl
  | leave w =>
    have hleave : (r.pool.coalescer.leave w).registry.audience e ≠ [] := fun hnil => h.not_mem_leave ho w hnil he
    change e ∈ (r.pool.leave w).coalescer.exchanges at he
    show (r.pool.leave w).coalescer.registry.audience e ≠ []
    rw [r.pool.coalescer_leave] at he ⊢
    refine (h.pool.coalescer.leave w).audience_run_ne_nil (fun v hv => ?_) he fun _ => hleave
    obtain ⟨_, -, hdrop⟩ := List.mem_map.1 hv
    cases hdrop
  | _ => exact hkeep (fun _ => by simp) (h.attended t e ho)

theorem step (h : r.Settled) (event : Pool.Event κ ρ) : (r.run (parts r.pool event)).Settled := by
  have hcoherent := h.coherent.run (parts r.pool event)
  rw [h.run_event] at hcoherent ⊢
  exact ⟨hcoherent, h.pool.step event, h.unrecorded, h.undelivered, fun t e => h.attended_step event⟩

end Settled

end Relay

end Entitle.Flight
