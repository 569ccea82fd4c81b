import Entitle.Gateway
import Entitle.Proofs.Flight.Cancellation

/-!
# A gateway on its relay

An event of a gateway is at most one event of the relay (`move?`), and a change of one task's progress is one of four
(`advance`). `Gateway.Coherent` says what relay, plans, requests and progress have to do with each other; a task that
has its outcome keeps its permit and its exchange until the result is delivered (`Coherent.busy`, `Coherent.used`), so
that whoever listens then gets it (`Coherent.take_of_listening`).
-/

namespace Entitle

open Flight

namespace Gateway
variable {σ : Type} {g : Gateway σ} {t : Nat}

/-! ### The invariant -/

/-- Relay, plans, requests and progress agree. -/
structure Coherent (g : Gateway σ) : Prop where
  relay : g.relay.Coherent
  planned : ∀ t, (g.plans.get? t).map (·.signature) = (g.relay.orders.get? t).map (·.key)
  owned : ∀ t, g.relay.pool.tasks.get? t ≠ some none
  sent_planned : ∀ t, g.sent.get? t ≠ none → g.plans.get? t ≠ none
  progress_sent : ∀ t, g.progress.get? t ≠ none → g.sent.get? t ≠ none
  busy : ∀ t, g.isBusy t → t ∈ g.relay.pool.dispatcher.running ∧ t ∉ g.relay.undelivered
  /-- Until its result is delivered the exchange of a task is in use, and then never again. -/
  used : ∀ t e, g.relay.pool.exchange? t = some e → g.hasDelivered t = false → e ∈ g.relay.pool.coalescer.exchanges
  ended : ∀ t e, g.hasDelivered t → g.relay.orders.get? t = some e → e ∉ g.relay.pool.coalescer.exchanges

theorem isBusy_iff : g.isBusy t ↔ g.progress.get? t ≠ none ∧ g.hasDelivered t = false := by
  unfold isBusy hasDelivered
  cases g.progress.get? t <;> simp

namespace Coherent

theorem openOn (store : σ) (caching : Bool) (limits : Limits) : (openOn store caching limits).Coherent where
  relay := .ofLimits limits
  planned t := rfl
  owned t := by simp [Gateway.openOn, Relay.ofLimits, Pool.ofLimits]
  sent_planned t ht := absurd rfl ht
  progress_sent t ht := absurd rfl ht
  busy t ht := absurd ht Bool.false_ne_true
  used t e he := by simp [Gateway.openOn, Relay.ofLimits, Pool.ofLimits, Pool.exchange?] at he
  ended t e ht := absurd ht Bool.false_ne_true

theorem order_of_plan (h : g.Coherent) {plan : Plan} (hp : g.plans.get? t = some plan) :
    ∃ e, g.relay.orders.get? t = some e ∧ e.key = plan.signature := by
  have hmap := h.planned t
  rw [hp] at hmap
  exact Option.map_eq_some_iff.1 hmap.symm

theorem plan_of_order (h : g.Coherent) {e : Exchange Signature} (ho : g.relay.orders.get? t = some e) :
    ∃ plan, g.plans.get? t = some plan ∧ plan.signature = e.key := by
  have hmap := h.planned t
  rw [ho] at hmap
  exact Option.map_eq_some_iff.1 hmap

theorem plan_lt (h : g.Coherent) (hp : g.plans.get? t ≠ none) : t < g.relay.pool.nextTask := by
  obtain ⟨plan, hp⟩ := Option.ne_none_iff_exists'.1 hp
  obtain ⟨e, ho, -⟩ := h.order_of_plan hp
  exact h.relay.order_lt t e ho

theorem exchange_of_running (h : g.Coherent) (ht : t ∈ g.relay.pool.dispatcher.running) :
    ∃ e, g.relay.pool.exchange? t = some e := by
  have hmem := h.relay.staged.stages.mem_iff.1 (Dispatcher.mem_tasks_of_running ht)
  obtain ⟨x, hx⟩ := Option.ne_none_iff_exists'.1 (Table.mem_keys.1 hmem)
  cases x with
  | none => exact absurd hx (h.owned t)
  | some e => exact ⟨e, Pool.exchange?_eq_some.2 hx⟩

/-- An event of the relay that starts no task, delivers no result and stops no task on the way to one. -/
theorem pass (h : g.Coherent) {m : Relay.Event Signature (Classified Json)} (hb : ∀ e delay, m ≠ .begin e delay)
    (hw : ∀ delay, m ≠ .schedule delay) (hc : ∀ t result, m ≠ .complete t result)
    (hs : ∀ t, m = .stop t → g.isBusy t = false) : Coherent { g with relay := g.relay.step m } where
  relay := h.relay.step m
  planned := by
    rw [(Relay.orders_step hb).1]
    exact h.planned
  owned := Relay.owned_step h.owned hw
  sent_planned := h.sent_planned
  progress_sent := h.progress_sent
  busy t ht := by
    obtain ⟨hrunning, hdelivered⟩ := h.busy t ht
    refine ⟨Relay.mem_running_step hrunning fun heq => ?_, Relay.not_mem_undelivered_step hb hdelivered⟩
    exact Bool.false_ne_true ((hs t heq).symm.trans ht)
  used t e he hd := by
    rcases Relay.exchange?_of_step he with ⟨hold, hstop⟩ | ⟨-, delay, hm, -⟩
    · exact h.relay.mem_exchanges_step hold hstop (hc t) (h.used t e hold hd)
    · exact absurd hm (hb e delay)
  ended t e hd ho := by
    rw [(Relay.orders_step hb).1] at ho
    exact h.relay.not_mem_exchanges_step ho (h.ended t e hd ho)

theorem begin (h : g.Coherent) (e : Exchange Signature) (useCache : Bool) (delay : DelayClass) (draw : Nat) :
    (g.begin e useCache delay draw).Coherent := by
  unfold Gateway.begin
  split
  swap
  · exact h
  next hu =>
  have hbegin : g.relay.begin e (delay.sample g.limits draw) =
      { pool := (g.relay.pool.spawn (some e) (delay.sample g.limits draw)).2
        orders := g.relay.orders.put g.relay.pool.nextTask e
        unrecorded := g.relay.unrecorded ++ [g.relay.pool.nextTask]
        undelivered := g.relay.undelivered ++ [g.relay.pool.nextTask] } := if_pos hu
  have hnew : g.progress.get? g.relay.pool.nextTask = none := by
    by_contra hne
    exact Nat.lt_irrefl _ (h.plan_lt (h.sent_planned _ (h.progress_sent _ hne)))
  have hprogress : ∀ {t}, g.progress.get? t ≠ none → g.relay.pool.nextTask ≠ t := fun hp heq => hp (heq ▸ hnew)
  have howned : ∀ t, (g.relay.step (.begin e (delay.sample g.limits draw))).pool.tasks.get? t ≠ some none :=
    Relay.owned_step h.owned (by simp)
  refine ⟨h.relay.begin e _, fun t => ?_, howned, fun t ht => ?_,
    h.progress_sent, fun t ht => ?_, fun t e' he' hd => ?_, fun t e' hd ho => ?_⟩
  · show (Table.get? (g.plans.put g.relay.pool.nextTask _) t).map _ = (Table.get? (g.relay.begin e _).orders t).map _
    rw [hbegin, Table.get?_put, Table.get?_put]
    split
    · rfl
    · exact h.planned t
  · show Table.get? (g.plans.put g.relay.pool.nextTask _) t ≠ none
    rw [Table.get?_put]
    split
    · simp
    · exact h.sent_planned t ht
  · obtain ⟨hrunning, hdelivered⟩ := h.busy t ht
    have hkeep : t ∈ (g.relay.step (.begin e (delay.sample g.limits draw))).pool.dispatcher.running :=
      Relay.mem_running_step hrunning (by simp)
    refine ⟨hkeep, ?_⟩
    show t ∉ (g.relay.begin e _).undelivered
    rw [hbegin, List.mem_append, List.mem_singleton]
    exact not_or.2 ⟨hdelivered, Ne.symm (hprogress (isBusy_iff.1 ht).1)⟩
  · show e' ∈ (g.relay.begin e _).pool.coalescer.exchanges
    change (g.relay.step (.begin e (delay.sample g.limits draw))).pool.exchange? t = some e' at he'
    rcases Relay.exchange?_of_step he' with ⟨hold, -⟩ | ⟨-, delay', heq, -⟩
    · rw [hbegin]
      exact h.used t e' hold hd
    · cases heq
      rw [hbegin]
      exact (Relay.of_isUnassigned hu).1
  · change Table.get? (g.relay.begin e _).orders t = some e' at ho
    show e' ∉ (g.relay.begin e _).pool.coalescer.exchanges
    rw [hbegin] at ho ⊢
    rw [Table.get?_put, if_neg (hprogress fun hp => ?_)] at ho
    · exact h.ended t e' hd ho
    · change (g.progress.get? t).any (·.isDone) = true at hd
      rw [hp] at hd
      cases hd

/-- A task goes on with its outcome, whatever becomes of cache and store. -/
theorem work (h : g.Coherent) (ht : t ∈ g.relay.pool.dispatcher.running) (hd : t ∉ g.relay.undelivered)
    (hs : g.sent.get? t ≠ none) (hfresh : g.hasDelivered t = false) {p : Progress} (hp : p.isDone = false)
    (cache : ConditionalCache) (store : σ) :
    Coherent { g with cache, store, progress := g.progress.put t p } := by
  have hdelivered : ∀ t', hasDelivered { g with cache, store, progress := g.progress.put t p } t' = g.hasDelivered t' :=
    fun t' => by
      simp only [hasDelivered, Table.get?_put]
      split
      · next heq => rw [← heq, Option.any_some, hp]; exact hfresh.symm
      · rfl
  refine ⟨h.relay, h.planned, h.owned, h.sent_planned, fun t' ht' => ?_, fun t' ht' => ?_, fun t' e he hd' => ?_,
    fun t' e hd' ho => ?_⟩
  · change Table.get? (g.progress.put t p) t' ≠ none at ht'
    rw [Table.get?_put] at ht'
    split at ht'
    · next heq => exact heq ▸ hs
    · exact h.progress_sent t' ht'
  · by_cases heq : t = t'
    · exact heq ▸ ⟨ht, hd⟩
    · refine h.busy t' ?_
      simpa only [isBusy, Table.get?_put, if_neg heq] using ht'
  · exact h.used t' e he (hdelivered t' ▸ hd')
  · exact h.ended t' e (hdelivered t' ▸ hd') ho

theorem holds_of_busy (h : g.Coherent) (ht : g.isBusy t) :
    ∃ e, g.relay.pool.exchange? t = some e ∧ g.relay.orders.get? t = some e ∧ e ∈ g.relay.pool.coalescer.exchanges := by
  obtain ⟨e, he⟩ := h.exchange_of_running (h.busy t ht).1
  exact ⟨e, he, h.relay.ordered t e he, h.used t e he (isBusy_iff.1 ht).2⟩

theorem receive (h : g.Coherent) (t : Nat) (outcome : Outcome) : (g.receive t outcome).Coherent := by
  unfold Gateway.receive
  split
  swap
  · exact h
  next hguard =>
  simp only [works, Bool.and_eq_true, decide_eq_true_eq, Option.isNone_iff_eq_none, Option.isSome_iff_ne_none] at hguard
  obtain ⟨⟨⟨ht, hd⟩, hs⟩, hp⟩ := hguard
  exact h.work ht hd hs (by rw [hasDelivered, hp]; rfl) rfl g.cache g.store

theorem work_of_busy (h : g.Coherent) (ht : g.isBusy t) {p : Progress} (hp : p.isDone = false)
    (cache : ConditionalCache) (store : σ) : Coherent { g with cache, store, progress := g.progress.put t p } := by
  obtain ⟨hrunning, hdelivered⟩ := h.busy t ht
  obtain ⟨hsome, hfresh⟩ := isBusy_iff.1 ht
  exact h.work hrunning hdelivered (h.progress_sent t hsome) hfresh hp cache store

theorem trace_complete (h : g.Coherent) (ht : g.isBusy t) (result : Classified Json) {e : Exchange Signature}
    (he : g.relay.pool.exchange? t = some e) : g.relay.trace (.complete t result) = some (.complete e result) := by
  rw [Relay.trace, if_pos (h.busy t ht), he]
  rfl

theorem complete (h : g.Coherent) (t : Nat) : (g.complete t).Coherent := by
  unfold Gateway.complete
  split
  swap
  · exact h
  next result hp =>
  have ht : g.isBusy t := by rw [isBusy, hp]; rfl
  obtain ⟨e, he, ho, -⟩ := h.holds_of_busy ht
  have htrace := h.trace_complete ht result he
  show Coherent { g with relay := g.relay.step (.complete t result), progress := g.progress.put t .done }
  generalize hm : Relay.Event.complete t result = m at htrace
  have hb : ∀ e delay, m ≠ .begin e delay := by simp [← hm]
  have hs : ∀ t', m ≠ .stop t' := by simp [← hm]
  have hdone : ∀ t', hasDelivered { g with relay := g.relay.step m, progress := g.progress.put t .done } t' =
      if t = t' then true else g.hasDelivered t' := fun t' => by
    simp only [hasDelivered, Table.get?_put]
    split <;> rfl
  refine ⟨h.relay.step m, ?_, Relay.owned_step h.owned (by simp [← hm]), h.sent_planned, fun t' ht' => ?_,
    fun t' ht' => ?_, fun t' e' he' hd' => ?_, fun t' e' hd' ho' => ?_⟩
  · rw [(Relay.orders_step hb).1]
    exact h.planned
  · change Table.get? (g.progress.put t .done) t' ≠ none at ht'
    rw [Table.get?_put] at ht'
    split at ht'
    · next heq => exact heq ▸ h.progress_sent t (isBusy_iff.1 ht).1
    · exact h.progress_sent t' ht'
  · have hold : g.isBusy t' := by
      by_cases heq : t = t'
      · exact heq ▸ ht
      · simpa only [isBusy, Table.get?_put, if_neg heq] using ht'
    obtain ⟨hrunning, hdelivered⟩ := h.busy t' hold
    exact ⟨Relay.mem_running_step hrunning (hs t'), Relay.not_mem_undelivered_step hb hdelivered⟩
  · rw [hdone] at hd'
    split at hd'
    · cases hd'
    next hne =>
    rcases Relay.exchange?_of_step he' with ⟨hold, -⟩ | ⟨-, delay, hbegin, -⟩
    · exact h.relay.mem_exchanges_step hold (hs t') (fun _ => by simp [← hm, hne]) (h.used t' e' hold hd')
    · exact absurd hbegin (hb e' delay)
  · rw [(Relay.orders_step hb).1] at ho'
    rw [hdone] at hd'
    split at hd'
    · next heq =>
      subst heq
      cases ho.symm.trans ho'
      show e ∉ (g.relay.step m).pool.coalescer.exchanges
      rw [Relay.coalescer_step, htrace]
      show e ∉ (g.relay.pool.coalescer.settle e (.value result)).2.exchanges
      rw [Coalescer.exchanges_settle]
      exact h.relay.coalescer.exchanges_nodup.not_mem_erase
    · exact h.relay.not_mem_exchanges_step ho' (h.ended t' e' hd' ho')

end Coherent

/-! ### One event -/

variable {event : Event}

/-- What an event does to the relay, if anything. -/
def move? (g : Gateway σ) : Event → Option (Relay.Event Signature (Classified Json))
  | .enter s => some (.register s)
  | .expedite w => some (.expedite w)
  | .begin e _ delay draw => some (.begin e (delay.sample g.limits draw))
  | .record t => some (.record t)
  | .deliver t => some (.deliver t)
  | .poll t => some (.poll t)
  | .expire t => some (.expire t)
  | .complete t =>
    match g.progress.get? t with
    | some (.settled result false) => some (.complete t result)
    | _ => none
  | .stop t => if g.isBusy t then none else some (.stop t)
  | .leave w => some (.leave w)
  | .take w => some (.take w)
  | _ => none

/-- What comes from one kind of event alone. -/
def asks (g : Gateway σ) : Event → Relay.Event Signature (Classified Json) → Prop
  | event, .register s => event = .enter s
  | event, .complete t result => event = .complete t ∧ g.progress.get? t = some (.settled result false)
  | event, .stop t => event = .stop t ∧ g.isBusy t = false
  | event, .leave w => event = .leave w
  | event, .take w => event = .take w
  | _, _ => True

theorem asks_of_move? {m : Relay.Event Signature (Classified Json)} (hm : g.move? event = some m) : g.asks event m := by
  cases event with
  | complete t =>
    simp only [move?] at hm
    split at hm
    · next hp =>
      cases hm
      exact ⟨rfl, hp⟩
    · cases hm
  | stop t =>
    simp only [move?] at hm
    split at hm
    · cases hm
    · next ht =>
      cases hm
      exact ⟨rfl, by simpa using ht⟩
  | send t | receive t outcome | settle now t | forget t | invalidate s | clear => cases hm
  | _ => cases hm; trivial

variable [KeyValueStore σ]

/-- What an event can make of a gateway. -/
inductive Change (g : Gateway σ) : Event → Gateway σ → Prop where
  /-- At most an event of the relay. -/
  | relay {event : Event} : Change g event { g with relay := (g.move? event).elim g.relay g.relay.step }
  | begin {e : Exchange Signature} {useCache : Bool} {delay : DelayClass} {draw : Nat} (hu : g.relay.isUnassigned e) :
    Change g (.begin e useCache delay draw)
      { g with
        relay := g.relay.begin e (delay.sample g.limits draw)
        plans := g.plans.put g.relay.pool.nextTask ⟨e.key, useCache && g.caching⟩ }
  | send {t : Nat} {plan : Plan} (hw : g.works t && (g.sent.get? t).isNone) (hplan : g.plans.get? t = some plan) :
    Change g (.send t)
      { g with
        cache := (Backend.requestOf plan g.cache g.store).2.1
        store := (Backend.requestOf plan g.cache g.store).2.2
        sent := g.sent.put t (Backend.requestOf plan g.cache g.store).1 }
  | receive {t : Nat} {outcome : Outcome} (hw : g.works t) (hs : (g.sent.get? t).isSome)
      (hp : g.progress.get? t = none) :
    Change g (.receive t outcome) { g with progress := g.progress.put t (.received outcome) }
  | miss {now : Instant} {t : Nat} {outcome : Outcome} {plan : Plan} (hp : g.progress.get? t = some (.received outcome))
      (hplan : g.plans.get? t = some plan) (hm : plan.useCache && misses plan.signature outcome g.cache g.store) :
    Change g (.settle now t)
      { g with
        cache := (ConditionalCache.load (ConditionalCache.storageKey plan.signature) g.cache g.store).2.1
        store := (ConditionalCache.load (ConditionalCache.storageKey plan.signature) g.cache g.store).2.2
        progress := g.progress.put t (.settled (Classify.classify outcome) true) }
  | settle {now : Instant} {t : Nat} {outcome : Outcome} {plan : Plan}
      (hp : g.progress.get? t = some (.received outcome)) (hplan : g.plans.get? t = some plan)
      (hm : ¬(plan.useCache && misses plan.signature outcome g.cache g.store)) :
    Change g (.settle now t)
      { g with
        cache := (Backend.settled now plan outcome g.cache g.store).2.1
        store := (Backend.settled now plan outcome g.cache g.store).2.2
        progress := g.progress.put t
          (.settled (Classify.classify (Backend.settled now plan outcome g.cache g.store).1) false) }
  | forget {t : Nat} {result : Classified Json} {plan : Plan} (hp : g.progress.get? t = some (.settled result true))
      (hplan : g.plans.get? t = some plan) :
    Change g (.forget t)
      { g with
        cache := (g.cache.invalidate plan.signature g.store).1
        store := (g.cache.invalidate plan.signature g.store).2
        progress := g.progress.put t (.settled result false) }
  | complete {t : Nat} {result : Classified Json} (hp : g.progress.get? t = some (.settled result false)) :
    Change g (.complete t)
      { g with relay := g.relay.complete t result, progress := g.progress.put t .done }
  | invalidate {s : Signature} : Change g (.invalidate s) (g.invalidate s)
  | clear : Change g .clear g.clear

theorem change (g : Gateway σ) (event : Event) : g.Change event (g.step event) := by
  cases event with
  | begin e useCache delay draw =>
    simp only [step, Gateway.begin]
    split
    · next hu => exact .begin hu
    · next hu =>
      have hsame : g.relay.step (.begin e (delay.sample g.limits draw)) = g.relay := if_neg hu
      have hrelay : g.Change (.begin e useCache delay draw) _ := .relay
      rwa [move?, Option.elim_some, hsame] at hrelay
  | send t =>
    simp only [step, Gateway.send]
    split
    swap
    · exact .relay
    next hw =>
    split
    · next hplan => exact .send hw hplan
    · exact .relay
  | receive t outcome =>
    simp only [step, Gateway.receive]
    split
    · next hguard =>
      simp only [Bool.and_eq_true, Option.isNone_iff_eq_none] at hguard
      exact .receive hguard.1.1 hguard.1.2 hguard.2
    · exact .relay
  | settle now t =>
    simp only [step, Gateway.settle]
    split
    swap
    · exact .relay
    next hp hplan =>
    split
    · next hm => exact .miss hp hplan hm
    · next hm => exact .settle hp hplan hm
  | forget t =>
    simp only [step, Gateway.forget]
    split
    · next hp hplan => exact .forget hp hplan
    · exact .relay
  | complete t =>
    have hrelay : g.Change (.complete t) _ := .relay
    simp only [step, Gateway.complete]
    rcases hp : g.progress.get? t with _ | _ | ⟨result, _ | _⟩ | _
    case some.settled.false => exact .complete hp
    all_goals rwa [move?, hp] at hrelay
  | stop t =>
    have hrelay : g.Change (.stop t) _ := .relay
    simp only [step, Gateway.stop]
    split
    · next ht => rwa [move?, if_pos ht] at hrelay
    · next ht => rwa [move?, if_neg ht] at hrelay
  | invalidate s => exact .invalidate
  | clear => exact .clear
  | _ => exact .relay

theorem relay_step (g : Gateway σ) (event : Event) :
    (g.step event).relay = (g.move? event).elim g.relay g.relay.step := by
  have hchange := g.change event
  generalize g.step event = g' at hchange ⊢
  cases hchange with
  | complete hp => rw [move?, hp]; rfl
  | _ => rfl

theorem move_cases (g : Gateway σ) (event : Event) :
    (g.step event).relay = g.relay ∨ ∃ m, g.move? event = some m ∧ (g.step event).relay = g.relay.step m := by
  rw [relay_step]
  cases hm : g.move? event with
  | none => exact .inl rfl
  | some m => exact .inr ⟨m, rfl, rfl⟩

/-- What a run does to the relay. -/
def moves (g : Gateway σ) : List Event → List (Relay.Event Signature (Classified Json))
  | [] => []
  | event :: rest => (g.move? event).toList ++ moves (g.step event) rest

theorem relay_run (g : Gateway σ) (events : List Event) : (g.run events).relay = g.relay.run (g.moves events) := by
  induction events generalizing g with
  | nil => rfl
  | cons event rest ih =>
    show ((g.step event).run rest).relay = _
    rw [ih, relay_step, moves, Relay.run_append]
    cases g.move? event <;> rfl

theorem run_append (g : Gateway σ) (l₁ l₂ : List Event) : g.run (l₁ ++ l₂) = (g.run l₁).run l₂ :=
  List.foldl_append

/-- How an event changes what a task has done with its outcome. -/
inductive Advance (g : Gateway σ) (t : Nat) : Event → Option Progress → Prop where
  | still {event : Event} : Advance g t event (g.progress.get? t)
  | receive (outcome : Outcome) (hw : g.works t) (hs : (g.sent.get? t).isSome) (hp : g.progress.get? t = none) :
    Advance g t (.receive t outcome) (some (.received outcome))
  | settle (now : Instant) {outcome : Outcome} (hp : g.progress.get? t = some (.received outcome))
      (result : Classified Json) (missed : Bool) : Advance g t (.settle now t) (some (.settled result missed))
  | forget {result : Classified Json} (hp : g.progress.get? t = some (.settled result true)) :
    Advance g t (.forget t) (some (.settled result false))
  | complete {result : Classified Json} (hp : g.progress.get? t = some (.settled result false)) :
    Advance g t (.complete t) (some .done)

theorem advance (g : Gateway σ) (event : Event) (t : Nat) :
    g.Advance t event ((g.step event).progress.get? t) := by
  have hput : ∀ {event : Event} {t' : Nat} {p : Progress}, g.Advance t' event (some p) →
      g.Advance t event ((g.progress.put t' p).get? t) := fun {event t' p} hp => by
    rw [Table.get?_put]
    split
    · next ht => exact ht ▸ hp
    · exact .still
  have hchange := g.change event
  generalize g.step event = g' at hchange ⊢
  cases hchange with
  | receive hw hs hp => exact hput (.receive _ hw hs hp)
  | miss hp => exact hput (.settle _ hp _ true)
  | settle hp => exact hput (.settle _ hp _ false)
  | forget hp => exact hput (.forget hp)
  | complete hp => exact hput (.complete hp)
  | _ => exact .still

namespace Coherent

theorem send (h : g.Coherent) (t : Nat) : (g.send t).Coherent := by
  unfold Gateway.send
  split
  swap
  · exact h
  split
  swap
  · exact h
  next plan hp =>
  have hsent : ∀ t', g.sent.get? t' ≠ none →
      Table.get? (g.sent.put t (Backend.requestOf plan g.cache g.store).1) t' ≠ none := fun t' ht' => by
    rw [Table.get?_put]
    split
    · simp
    · exact ht'
  refine ⟨h.relay, h.planned, h.owned, fun t' ht' => ?_, fun t' ht' => hsent t' (h.progress_sent t' ht'), h.busy,
    h.used,
    h.ended⟩
  change Table.get? (g.sent.put t _) t' ≠ none at ht'
  show g.plans.get? t' ≠ none
  rw [Table.get?_put] at ht'
  split at ht'
  · next heq => rw [← heq, hp]; simp
  · exact h.sent_planned t' ht'

theorem settle (h : g.Coherent) (now : Instant) (t : Nat) : (g.settle now t).Coherent := by
  unfold Gateway.settle
  split
  swap
  · exact h
  next hp _ =>
  have ht : g.isBusy t := by rw [isBusy, hp]; rfl
  split <;> exact h.work_of_busy ht rfl _ _

theorem forget (h : g.Coherent) (t : Nat) : (g.forget t).Coherent := by
  unfold Gateway.forget
  split
  swap
  · exact h
  next hp _ =>
  exact h.work_of_busy (by rw [isBusy, hp]; rfl) rfl _ _

theorem step (h : g.Coherent) (event : Event) : (g.step event).Coherent := by
  cases event with
  | enter s => exact h.pass (m := .register s) (by simp) (by simp) (by simp) (by simp)
  | expedite w => exact h.pass (m := .expedite w) (by simp) (by simp) (by simp) (by simp)
  | begin e useCache delay draw => exact h.begin e useCache delay draw
  | record t => exact h.pass (m := .record t) (by simp) (by simp) (by simp) (by simp)
  | deliver t => exact h.pass (m := .deliver t) (by simp) (by simp) (by simp) (by simp)
  | poll t => exact h.pass (m := .poll t) (by simp) (by simp) (by simp) (by simp)
  | expire t => exact h.pass (m := .expire t) (by simp) (by simp) (by simp) (by simp)
  | send t => exact h.send t
  | receive t outcome => exact h.receive t outcome
  | settle now t => exact h.settle now t
  | forget t => exact h.forget t
  | complete t => exact h.complete t
  | stop t =>
    show (g.stop t).Coherent
    unfold Gateway.stop
    split
    · exact h
    · next ht => exact h.pass (m := .stop t) (by simp) (by simp) (by simp) (by simpa using ht)
  | leave w => exact h.pass (m := .leave w) (by simp) (by simp) (by simp) (by simp)
  | take w => exact h.pass (m := .take w) (by simp) (by simp) (by simp) (by simp)
  | invalidate s =>
    exact ⟨h.relay, h.planned, h.owned, h.sent_planned, h.progress_sent, h.busy, h.used, h.ended⟩
  | clear => exact ⟨h.relay, h.planned, h.owned, h.sent_planned, h.progress_sent, h.busy, h.used, h.ended⟩

theorem run (h : g.Coherent) (events : List Event) : (g.run events).Coherent := by
  induction events generalizing g with
  | nil => exact h
  | cons event rest ih => exact ih (h.step event)

end Coherent

/-! ### Whoever listens -/

/-- A waiter of a task with a result: it waits for the delivery, or has what was delivered. -/
def Awaits (g : Gateway σ) (t : Nat) (w : Waiter Signature) (result : Classified Json) : Prop :=
  ((∃ missed, g.progress.get? t = some (.settled result missed)) ∧ g.relay.pool.coalescer.Waiting w) ∨
  (g.progress.get? t = some .done ∧ g.relay.pool.coalescer.Resolved w (.value result))

/-- A result that is delivered is the one that was settled. -/
theorem progress_of_settled {result : Classified Json} {missed : Bool}
    (hp : g.progress.get? t = some (.settled result missed)) (event : Event) :
    (event ≠ .complete t ∧ ∃ missed', (g.step event).progress.get? t = some (.settled result missed')) ∨
      (event = .complete t ∧ (g.step event).progress.get? t =
        if missed then some (.settled result missed) else some .done) := by
  by_cases hc : event = .complete t
  · subst hc
    refine .inr ⟨rfl, ?_⟩
    simp only [step, Gateway.complete, hp]
    cases missed with
    | false => exact (Table.get?_put ..).trans (if_pos rfl)
    | true => exact hp
  · refine .inl ⟨hc, ?_⟩
    have hadvance := g.advance event t
    generalize (g.step event).progress.get? t = p at hadvance ⊢
    cases hadvance with
    | still => exact ⟨missed, hp⟩
    | receive outcome hw hs hnone => cases hnone.symm.trans hp
    | settle now hreceived result' missed' => cases hreceived.symm.trans hp
    | forget hsettled => cases hsettled.symm.trans hp; exact ⟨false, rfl⟩
    | complete hsettled => exact absurd rfl hc

theorem progress_of_done (hp : g.progress.get? t = some .done) (event : Event) :
    (g.step event).progress.get? t = some .done := by
  have hadvance := g.advance event t
  generalize (g.step event).progress.get? t = p at hadvance ⊢
  cases hadvance with
  | still => exact hp
  | receive outcome hw hs hnone => cases hnone.symm.trans hp
  | settle now hreceived result' missed' => cases hreceived.symm.trans hp
  | forget hsettled => cases hsettled.symm.trans hp
  | complete hsettled => rfl

/-- A task has its result, and perhaps has delivered it. -/
def HasResult (g : Gateway σ) (t : Nat) (result : Classified Json) : Prop :=
  (∃ missed, g.progress.get? t = some (.settled result missed)) ∨ g.progress.get? t = some .done

theorem HasResult.step {result : Classified Json} (h : g.HasResult t result) (event : Event) :
    (g.step event).HasResult t result := by
  rcases h with ⟨missed, hsettled⟩ | hdone
  · rcases progress_of_settled hsettled event with ⟨-, hstep⟩ | ⟨-, hstep⟩
    · exact .inl hstep
    · cases missed with
      | true => exact .inl ⟨true, hstep⟩
      | false => exact .inr hstep
  · exact .inr (progress_of_done hdone event)

theorem HasResult.run {result : Classified Json} (h : g.HasResult t result) (events : List Event) :
    (g.run events).HasResult t result := by
  induction events generalizing g with
  | nil => exact h
  | cons event rest ih => exact ih (h.step event)

namespace Coherent
variable {w : Waiter Signature} {result : Classified Json}

theorem waiting_step (h : g.Coherent) (ht : g.isBusy t) (hw : g.relay.pool.coalescer.Waiting w)
    (ho : g.relay.orders.get? t = some w.exchange) (hl : event ≠ .leave w) (hc : event ≠ .complete t) :
    (g.step event).relay.pool.coalescer.Waiting w := by
  obtain ⟨e, he, ho', -⟩ := h.holds_of_busy ht
  cases ho.symm.trans ho'
  rcases g.move_cases event with hsame | ⟨m, hm, hstep⟩
  · rw [hsame]
    exact hw
  have hasks := asks_of_move? hm
  rw [hstep]
  rcases g.relay.coalescer_cases m with hsame | ⟨s, hs, hcoalescer⟩
  · rw [hsame]
    exact hw
  rw [hcoalescer]
  have hstop : m ≠ .stop t := fun heq => by
    subst heq
    exact Bool.false_ne_true (hasks.2.symm.trans ht)
  have hcomplete : ∀ result, m ≠ .complete t result := fun result heq => by
    subst heq
    exact hc hasks.1
  refine h.relay.coalescer.waiting_step hw (fun heq => ?_) (h.relay.settles?_eq_none he hstop hcomplete hs)
  subst heq
  have hleave := Relay.asks_of_mem_trace hs
  subst hleave
  exact hl hasks

theorem resolved_step {d : Delivery (Classified Json)} (hw : g.relay.pool.coalescer.Resolved w d)
    (hl : event ≠ .leave w)
    (hk : event ≠ .take w) : (g.step event).relay.pool.coalescer.Resolved w d := by
  rcases g.move_cases event with hsame | ⟨m, hm, hstep⟩
  · rw [hsame]
    exact hw
  have hasks := asks_of_move? hm
  rw [hstep]
  rcases g.relay.coalescer_cases m with hsame | ⟨s, hs, hcoalescer⟩
  · rw [hsame]
    exact hw
  rw [hcoalescer]
  have hrelay := Relay.asks_of_mem_trace hs
  refine hw.step (fun heq => ?_) fun heq => ?_
  · subst heq
    change m = .leave w at hrelay
    subst hrelay
    exact hl hasks
  · subst heq
    change m = .take w at hrelay
    subst hrelay
    exact hk hasks

theorem order_step (h : g.Coherent) {e : Exchange Signature} (ho : g.relay.orders.get? t = some e) (event : Event) :
    (g.step event).relay.orders.get? t = some e := by
  rcases g.move_cases event with hsame | ⟨m, -, hstep⟩
  · rw [hsame, ho]
  · rw [hstep]
    exact h.relay.order_step ho m

theorem awaits_step (h : g.Coherent) (hw : g.Awaits t w result) (ho : g.relay.orders.get? t = some w.exchange)
    (hl : event ≠ .leave w) (hk : event ≠ .take w) : (g.step event).Awaits t w result := by
  rcases hw with ⟨⟨missed, hp⟩, hwait⟩ | ⟨hp, hresolved⟩
  swap
  · exact .inr ⟨progress_of_done hp event, resolved_step hresolved hl hk⟩
  have ht : g.isBusy t := by rw [isBusy, hp]; rfl
  rcases progress_of_settled hp event with ⟨hc, hsettled⟩ | ⟨rfl, hdone⟩
  · exact .inl ⟨hsettled, h.waiting_step ht hwait ho hl hc⟩
  cases missed with
  | true =>
    have hsame : g.step (.complete t) = g := by simp only [Gateway.step, Gateway.complete, hp]
    exact .inl ⟨⟨true, hdone⟩, hsame.symm ▸ hwait⟩
  | false =>
    obtain ⟨e, he, ho', -⟩ := h.holds_of_busy ht
    cases ho.symm.trans ho'
    have hrelay : (g.step (.complete t)).relay = g.relay.step (.complete t result) := by
      simp only [Gateway.step, Gateway.complete, hp]
      rfl
    refine .inr ⟨hdone, ?_⟩
    rw [hrelay, Relay.coalescer_step, h.trace_complete ht result he]
    exact h.relay.coalescer.resolved_step (s := .complete w.exchange result) hwait (if_pos rfl)

theorem awaits_run (h : g.Coherent) (hw : g.Awaits t w result) (ho : g.relay.orders.get? t = some w.exchange)
    {events : List Event} (hl : .leave w ∉ events) (hk : .take w ∉ events) : (g.run events).Awaits t w result := by
  induction events generalizing g with
  | nil => exact hw
  | cons event rest ih =>
    obtain ⟨hl, hlrest⟩ := not_or.1 (mt List.mem_cons.2 hl)
    obtain ⟨hk, hkrest⟩ := not_or.1 (mt List.mem_cons.2 hk)
    exact ih (h.step event) (h.awaits_step hw ho (Ne.symm hl) (Ne.symm hk)) (h.order_step ho event) hlrest hkrest

theorem order_run (h : g.Coherent) {e : Exchange Signature} (ho : g.relay.orders.get? t = some e)
    (events : List Event) :
    (g.run events).relay.orders.get? t = some e := by
  induction events generalizing g with
  | nil => exact ho
  | cons event rest ih => exact ih (h.step event) (h.order_step ho event)

theorem audience_of_run (h : g.Coherent) {e : Exchange Signature} (ho : g.relay.orders.get? t = some e)
    {events : List Event} (hne : (g.run events).relay.pool.coalescer.registry.audience e ≠ []) :
    g.relay.pool.coalescer.registry.audience e ≠ [] := by
  rw [relay_run, Relay.coalescer_run] at hne
  exact h.relay.coalescer.audience_of_run (h.relay.generation_lt t e ho) hne

omit [KeyValueStore σ] in
/-- Of the tasks of one signature only one is listened to. -/
theorem task_unique (h : g.Coherent) {t' : Nat} {e e' : Exchange Signature} (ho : g.relay.orders.get? t = some e)
    (ho' : g.relay.orders.get? t' = some e') (hkey : e.key = e'.key)
    (he : g.relay.pool.coalescer.registry.audience e ≠ []) (he' : g.relay.pool.coalescer.registry.audience e' ≠ []) :
    t = t' := by
  obtain ⟨key, generation⟩ := e
  obtain ⟨key', generation'⟩ := e'
  obtain rfl : key = key' := hkey
  cases Registry.generation_unique he he'
  exact h.relay.unshared t t' _ ho ho'

omit [KeyValueStore σ] in
/-- A busy task that nobody listens to has been aborted. -/
theorem mem_aborted_of_busy (h : g.Coherent) {gone : List (Exchange Signature)} (htracked : g.relay.Tracked gone)
    (ht : g.isBusy t) {e : Exchange Signature} (ho : g.relay.orders.get? t = some e)
    (hnil : g.relay.pool.coalescer.registry.audience e = []) : t ∈ g.relay.pool.coalescer.aborted := by
  obtain ⟨e', -, ho', hin⟩ := h.holds_of_busy ht
  cases ho.symm.trans ho'
  exact (htracked.aborted t).2 ⟨e, htracked.left e hin hnil, ho, fun hmem =>
    (h.busy t ht).2 (h.relay.undelivered_of_unrecorded t hmem)⟩

omit [KeyValueStore σ] in
/-- What a waiter takes: nothing before the delivery, and then the result. -/
theorem take_of_awaits (h : g.Coherent) (hw : g.Awaits t w result) :
    (g.take w).1 = if g.hasDelivered t then some result else none := by
  rcases hw with ⟨⟨missed, hp⟩, hwait⟩ | ⟨hp, hresolved⟩
  · have htake : (g.relay.pool.coalescer.take w).1 = none := h.relay.coalescer.take_of_waiting hwait
    rw [if_neg (by rw [hasDelivered, hp]; exact Bool.false_ne_true)]
    show ((g.relay.pool.coalescer.take w).1).map Backend.resultOf = none
    rw [htake, Option.map_none]
  · have htake : (g.relay.pool.coalescer.take w).1 = some (.value result) := hresolved.take
    rw [if_pos (by rw [hasDelivered, hp]; rfl)]
    show ((g.relay.pool.coalescer.take w).1).map Backend.resultOf = some result
    rw [htake]
    rfl

/-- Whoever listens to an exchange with a result gets that result when it is delivered, unless it leaves. -/
theorem take_of_listening (h : g.Coherent) {e : Exchange Signature} (ho : g.relay.orders.get? t = some e)
    {missed : Bool}
    (hp : g.progress.get? t = some (.settled result missed)) (before : List Event) {after : List Event}
    (hw : w ∈ (g.run before).relay.pool.coalescer.listening e) (hl : .leave w ∉ after) (hk : .take w ∉ after) :
    ((g.run (before ++ after)).take w).1 =
      if (g.run (before ++ after)).hasDelivered t then some result else none := by
  have hbefore := h.run before
  have ho' := h.order_run ho before
  rw [← (hbefore.relay.coalescer.perm_listening e).mem_iff] at hw
  obtain rfl := Registry.exchange_of_mem_audience hw
  have hsettled : ∃ missed', (g.run before).progress.get? t = some (.settled result missed') := by
    rcases HasResult.run (.inl ⟨missed, hp⟩) before with hsettled | hdone
    · exact hsettled
    · -- nobody listens to an exchange that has ended
      have hover := hbefore.ended t _ (by rw [hasDelivered, hdone]; rfl) ho'
      exact absurd (hbefore.relay.coalescer.mem_exchanges hw) hover
  rw [run_append]
  exact (hbefore.run after).take_of_awaits (hbefore.awaits_run (.inl ⟨hsettled, hw⟩) ho' hl hk)

end Coherent

end Gateway
end Entitle
