import Entitle.Proofs.Requests

/-!
# Nobody who cannot wait sits out a start delay

Main statement: `urgent_past_delay`. Once a caller without delay has launched or joined an exchange, the task of the
exchange leaves its start delay when it next runs, in whatever order callers join, tasks run and timers end, and also if
that caller has left since; and an exchange that only callers with a delay launched or joined keeps its delay until the
timer ends it. `Requests.Hasty` is what an event keeps: an urged exchange is hurried, and a signal that a task has not
taken comes from a caller who urges it.
-/

namespace Entitle

open Flight

/-- A caller without delay that has launched or joined its exchange, also if it has left since. -/
def Caller.Urges (c : Caller) : Prop :=
  c.ask.delay = .immediate ∧ c.progress ≠ .registered

namespace Requests
variable {σ : Type} {r : Requests σ} {e : Exchange Signature}

/-- A caller without delay has launched or joined the exchange. -/
def Urged (r : Requests σ) (e : Exchange Signature) : Prop :=
  ∃ n c, r.caller? n = some c ∧ c.Urges ∧ c.exchange = e

/-- Signals and urgent callers agree. -/
structure Hasty (r : Requests σ) : Prop where
  hurried : ∀ e, r.Urged e → r.backend.pool.Hurried e
  urged : ∀ e, r.backend.pool.coalescer.registry.isExpedited e → r.Urged e

theorem Sound.generation_lt (h : r.Sound) (he : r.Urged e) :
    e.generation < r.backend.pool.coalescer.registry.nextGeneration := by
  obtain ⟨n, c, hc, -, rfl⟩ := he
  exact (h.known n c hc).1

theorem urged_arrive (ask : Ask) : (r.arrive ask).Urged e ↔ r.Urged e := by
  refine ⟨fun ⟨n, c, hc, hu, he⟩ => ?_, fun ⟨n, c, hc, hu, he⟩ => ⟨n, c, caller?_arrive_of_some hc ask, hu, he⟩⟩
  rcases caller?_arrive hc with hc | ⟨-, rfl⟩
  · exact ⟨n, c, hc, hu, he⟩
  · exact absurd rfl hu.2

theorem urged_set {b : Backend σ} {n : Nat} {c : Caller} {progress : Progress} (hc : r.caller? n = some c)
    (hreg : c.progress = .registered) (hp : progress ≠ .registered) :
    Urged ⟨b, r.callers.set n { c with progress }, r.results⟩ e ↔
      r.Urged e ∨ c.ask.delay = .immediate ∧ c.exchange = e := by
  constructor
  · rintro ⟨m, d, hd, hu, he⟩
    rcases caller?_set hd with ⟨rfl, rfl⟩ | ⟨-, hd⟩
    · exact .inr ⟨hu.1, he⟩
    · exact .inl ⟨m, d, hd, hu, he⟩
  · rintro (⟨m, d, hd, hu, he⟩ | ⟨hu, he⟩)
    · have hne : m ≠ n := fun heq => by
        subst heq
        cases hc.symm.trans hd
        exact hu.2 hreg
      exact ⟨m, d, (caller?_set_of_ne hne b _ r.results).trans hd, hu, he⟩
    · exact ⟨n, _, caller?_set_self hc b _ r.results, ⟨hu, hp⟩, he⟩

namespace Hasty

theorem openOn (cache : ConditionalCache) (store : σ) (caching : Bool) (limits : Limits) :
    (openOn cache store caching limits).Hasty where
  hurried e he := by
    obtain ⟨n, c, hc, -⟩ := he
    simp [Requests.openOn, caller?] at hc
  urged e he := by
    simp [Requests.openOn, Backend.openOn, Pool.ofLimits, Registry.isExpedited, Registry.operation?] at he

/-- What comes of an event that lets nobody proceed. -/
theorem of_step (hh : r.Hasty) (h : r.Sound) {r' : Requests σ} (hu : ∀ e, r'.Urged e ↔ r.Urged e)
    (hpool : r'.backend.pool = r.backend.pool ∨
      ∃ m, r'.backend.pool = r.backend.pool.step m ∧ ∀ w, m ≠ .expedite w) : r'.Hasty where
  hurried e he := by
    have he := (hu e).1 he
    rcases hpool with hpool | ⟨m, hpool, -⟩ <;> rw [hpool]
    · exact hh.hurried e he
    · exact (hh.hurried e he).step h.backend.pool (h.generation_lt he) m
  urged e he := by
    refine (hu e).2 (hh.urged e ?_)
    rcases hpool with hpool | ⟨m, hpool, hm⟩ <;> rw [hpool] at he
    · exact he
    · exact (Pool.isExpedited_of_step h.backend.pool he).resolve_right fun ⟨w, hw, _⟩ => hm w hw

theorem proceed (hh : r.Hasty) (h : r.Sound) (n draw : Nat) : (r.proceed n draw).Hasty := by
  rcases r.proceed_cases n draw with heq | ⟨c, hc, hreg, ⟨e, he, heq⟩ | ⟨-, heq⟩⟩ <;> rw [heq]
  · exact hh
  · obtain rfl := h.first n c e hc he
    have hu := h.pending n c _ hc hreg he
    refine ⟨fun e' he' => ?_, fun e' he' => ?_⟩
    · rcases (urged_set hc hreg (by simp)).1 he' with he' | ⟨hurgent, rfl⟩
      · exact (hh.hurried e' he').step h.backend.pool (h.generation_lt he') (.dispatch c.exchange _)
      · have hzero : c.ask.delay.sample r.backend.limits draw = 0 := by
          rw [hurgent]
          exact Nat.mod_one draw
        show (r.backend.pool.dispatch c.exchange (c.ask.delay.sample r.backend.limits draw)).2.Hurried c.exchange
        rw [hzero]
        exact Pool.hurried_dispatch h.backend.pool hu
    · refine (urged_set hc hreg (by simp)).2 (.inl (hh.urged e' ?_))
      exact (Pool.isExpedited_of_step (m := .dispatch c.exchange _) h.backend.pool he').resolve_right (by simp)
  · by_cases hurgent : c.ask.delay = .immediate
    · simp only [if_pos hurgent]
      refine ⟨fun e' he' => ?_, fun e' he' => ?_⟩
      · rcases (urged_set hc hreg (by simp)).1 he' with he' | ⟨-, rfl⟩
        · exact (hh.hurried e' he').step h.backend.pool (h.generation_lt he') (.expedite c.waiter)
        · exact Pool.hurried_expedite (h.waiting n c hc hreg)
      · refine (urged_set hc hreg (by simp)).2 ?_
        rcases Pool.isExpedited_of_step (m := .expedite c.waiter) h.backend.pool he' with he' | ⟨w, hw, he'⟩
        · exact .inl (hh.urged e' he')
        · cases hw
          exact .inr ⟨hurgent, he'⟩
    · simp only [if_neg hurgent]
      have hsame : ∀ e', Urged ⟨r.backend, r.callers.set n { c with progress := .joined }, r.results⟩ e' ↔ r.Urged e' :=
        fun e' => (urged_set hc hreg (by simp)).trans (or_iff_left fun hnew => hurgent hnew.1)
      exact ⟨fun e' he' => hh.hurried e' ((hsame e').1 he'), fun e' he' => (hsame e').2 (hh.urged e' he')⟩

variable [KeyValueStore σ]

theorem step (hh : r.Hasty) (h : r.Sound) (event : Event) : (r.step event).Hasty := by
  by_cases hproceed : ∃ n draw, event = .proceed n draw
  · obtain ⟨n, draw, rfl⟩ := hproceed
    exact hh.proceed h n draw
  · refine hh.of_step h (fun e => ?_) ((r.pool_step event).imp_right fun ⟨m, hpool, hm⟩ => ⟨m, hpool, ?_⟩)
    · by_cases harrive : ∃ ask, event = .arrive ask
      · obtain ⟨ask, rfl⟩ := harrive
        exact urged_arrive ask
      · have hsame := r.callers_step (fun ask heq => harrive ⟨ask, heq⟩) fun n draw heq => hproceed ⟨n, draw, heq⟩
        simp only [Urged, caller?, hsame]
    · rintro w rfl
      exact hproceed hm

theorem run (hh : r.Hasty) (h : r.Sound) (events : List Event) : (r.run events).Hasty := by
  induction events generalizing r with
  | nil => exact hh
  | cons event rest ih => exact ih (hh.step h event) (h.step event)

end Hasty

/-! ### Tasks over time -/

variable [KeyValueStore σ] {t : Nat}

theorem nextTask_step_le (r : Requests σ) (event : Event) :
    r.backend.pool.nextTask ≤ (r.step event).backend.pool.nextTask := by
  rcases r.pool_step event with hpool | ⟨m, hpool, -⟩
  · exact Nat.le_of_eq (by rw [hpool])
  · rw [hpool]
    exact r.backend.pool.le_nextTask_step m

theorem past_run (h : r.Sound) (ht : t < r.backend.pool.nextTask) (hd : r.backend.pool.dispatcher.Past t)
    (events : List Event) : (r.run events).backend.pool.dispatcher.Past t := by
  induction events generalizing r with
  | nil => exact hd
  | cons event rest ih =>
    refine ih (h.step event) (Nat.lt_of_lt_of_le ht (r.nextTask_step_le event)) ?_
    rcases r.pool_step event with hpool | ⟨m, hpool, -⟩ <;> rw [hpool]
    · exact hd
    · exact Pool.past_step h.backend.pool ht hd m

omit [KeyValueStore σ] in
/-- A task past its start delay waits for a permit, has one, or has ended. -/
theorem Sound.stage_of_past (h : r.Sound) (hd : r.backend.pool.dispatcher.Past t) :
    t ∈ r.backend.pool.dispatcher.queue ∨ t ∈ r.backend.pool.dispatcher.running ∨
      r.backend.pool.tasks.get? t = none := by
  by_cases hlive : r.backend.pool.tasks.get? t = none
  · exact .inr (.inr hlive)
  · have hmem := h.backend.pool.stages.mem_iff.2 (Table.mem_keys.2 hlive)
    rcases Dispatcher.mem_tasks.1 hmem with hfresh | hsleep | hqueue | hrun
    · exact absurd hd.1 (Table.mem_keys.1 hfresh)
    · exact absurd hsleep hd.2
    · exact .inl hqueue
    · exact .inr (.inl hrun)

theorem urged_step (he : r.Urged e) (event : Event) : (r.step event).Urged e := by
  obtain ⟨n, c, hc, hu, he⟩ := he
  exact ⟨n, c, caller?_step hc hu.2 event, hu, he⟩

theorem launched_of_step (h : r.Sound) {event : Event} {n : Nat} {c : Caller} {delay : Nat}
    (hc : (r.step event).caller? n = some c) (hp : c.progress = .launched t delay) :
    r.caller? n = some c ∨ r.backend.pool.isUnassigned c.exchange ∧ t = r.backend.pool.nextTask ∧
      (r.step event).backend.pool = (r.backend.pool.dispatch c.exchange delay).2 := by
  by_cases hproceed : ∃ n draw, event = .proceed n draw
  · obtain ⟨m, draw, rfl⟩ := hproceed
    change (r.proceed m draw).caller? n = some c at hc
    rcases r.proceed_cases m draw with heq | ⟨d, hd, hreg, ⟨e', he', heq⟩ | ⟨-, heq⟩⟩ <;> rw [heq] at hc
    · exact .inl hc
    · rcases caller?_set hc with ⟨rfl, rfl⟩ | ⟨-, hc⟩
      · cases hp
        obtain rfl := h.first n d e' hd he'
        refine .inr ⟨h.pending n d _ hd hreg he', rfl, ?_⟩
        rw [step, heq]
        rfl
      · exact .inl hc
    · rcases caller?_set hc with ⟨rfl, rfl⟩ | ⟨-, hc⟩
      · cases hp
      · exact .inl hc
  · by_cases harrive : ∃ ask, event = .arrive ask
    · obtain ⟨ask, rfl⟩ := harrive
      rcases caller?_arrive hc with hc | ⟨-, rfl⟩
      · exact .inl hc
      · cases hp
    · have hsame := r.callers_step (fun ask heq => harrive ⟨ask, heq⟩) fun n draw heq => hproceed ⟨n, draw, heq⟩
      rw [caller?, hsame] at hc
      exact .inl hc

/-- A task that nobody urges keeps its start delay until the timer ends it. -/
theorem slow_run (cache : ConditionalCache) (store : σ) (caching : Bool) (limits : Limits) {events : List Event}
    {n delay : Nat} {c : Caller}
    (hc : ((openOn cache store caching limits).run events).caller? n = some c) (hp : c.progress = .launched t delay)
    (hne : delay ≠ 0) (hu : ¬ ((openOn cache store caching limits).run events).Urged c.exchange)
    (hx : .expire t ∉ events)
    (hlive : ((openOn cache store caching limits).run events).backend.pool.tasks.get? t ≠ none) :
    ((openOn cache store caching limits).run events).backend.pool.dispatcher.Slow t delay := by
  -- from the end of the run: that nobody urges the exchange there says that nobody did at any point before
  induction events using List.reverseRecOn with
  | nil => simp [run, openOn, caller?] at hc
  | append_singleton events event ih =>
    rw [run_append] at hc hu hlive ⊢
    have h := (Sound.openOn cache store caching limits).run events
    have hh := (Hasty.openOn cache store caching limits).run (.openOn cache store caching limits) events
    generalize (openOn cache store caching limits).run events = r at *
    change (r.step event).caller? n = some c at hc
    change ¬ (r.step event).Urged c.exchange at hu
    change (r.step event).backend.pool.tasks.get? t ≠ none at hlive
    show (r.step event).backend.pool.dispatcher.Slow t delay
    rw [List.mem_append, List.mem_singleton, not_or] at hx
    rcases launched_of_step h hc hp with hc | ⟨hunassigned, rfl, hpool⟩
    · have hu : ¬ r.Urged c.exchange := mt (urged_step · event) hu
      have hexp : r.backend.pool.coalescer.registry.isExpedited c.exchange = false :=
        Bool.eq_false_iff.2 (mt (hh.urged c.exchange) hu)
      rcases r.pool_step event with hpool | ⟨m, hpool, hm⟩ <;> rw [hpool] at hlive ⊢
      · exact ih hc hu hx.1 hlive
      · have hold : r.backend.pool.tasks.get? t ≠ none := by
          obtain ⟨x, hx⟩ := Option.ne_none_iff_exists'.1 hlive
          rcases Pool.get?_step hx with hold | ⟨hnew, -⟩
          · exact Option.ne_none_iff_exists'.2 ⟨x, hold⟩
          · exact absurd hnew (Nat.ne_of_lt (h.backend.plan_lt t _ (h.launched n c t delay hc hp).2.1))
        exact Pool.slow_step h.backend.pool (h.exchange?_of_launched hc hp hold) hexp hne (ih hc hu hx.1 hold)
          (fun heq => hx.2 (by subst heq; exact hm.symm)) hlive
    · rw [hpool] at hlive ⊢
      exact .inl (Pool.get?_fresh_dispatch h.backend.pool hunassigned hlive)

/-- After any run of callers, cancellations, tasks and timers, the task of an exchange that a caller without delay has
launched or joined is past its start delay from its next run on: it waits for a permit, has one, or has ended. The task
of an exchange that only callers with a delay have launched or joined keeps its delay until the timer ends it: it has
not run yet, or it sleeps, and it sleeps after it runs. -/
theorem urgent_past_delay (cache : ConditionalCache) (store : σ) (caching : Bool) (limits : Limits)
    (events : List Event) :
    let r := (openOn cache store caching limits).run events
    (∀ t e, r.backend.pool.exchange? t = some e → r.Urged e → ∀ later,
      let d := ((r.step (.poll t)).run later).backend.pool.dispatcher
      t ∉ d.fresh.map Prod.fst ∧ t ∉ d.sleeping ∧
        (t ∈ d.queue ∨ t ∈ d.running ∨ ((r.step (.poll t)).run later).backend.pool.tasks.get? t = none)) ∧
    (∀ n c t delay, r.caller? n = some c → c.progress = .launched t delay → delay ≠ 0 → ¬ r.Urged c.exchange →
      .expire t ∉ events → r.backend.pool.tasks.get? t ≠ none →
        (Table.get? r.backend.pool.dispatcher.fresh t = some delay ∨ t ∈ r.backend.pool.dispatcher.sleeping) ∧
          t ∈ (r.step (.poll t)).backend.pool.dispatcher.sleeping) := by
  intro r
  have h : r.Sound := (Sound.openOn cache store caching limits).run events
  have hh : r.Hasty := (Hasty.openOn cache store caching limits).run (.openOn cache store caching limits) events
  refine ⟨fun t e he hu later => ?_, fun n c t delay hc hp hne hu hx hlive => ?_⟩
  · have hpoll : (r.step (.poll t)).backend.pool = r.backend.pool.poll t := (r.backend.poll_frame t).1
    have hpast : (r.step (.poll t)).backend.pool.dispatcher.Past t := by
      rw [hpoll]
      exact (hh.hurried e hu).past_poll h.backend.pool he
    have hlt : t < (r.step (.poll t)).backend.pool.nextTask :=
      Nat.lt_of_lt_of_le (h.backend.pool.task_lt t (Pool.mem_keys_of_exchange? he)) (r.nextTask_step_le _)
    have hstep := h.step (.poll t)
    have hlater := past_run hstep hlt hpast later
    exact ⟨fun hmem => Table.mem_keys.1 hmem hlater.1, hlater.2, (hstep.run later).stage_of_past hlater⟩
  · have hslow := slow_run cache store caching limits hc hp hne hu hx hlive
    have hexp : r.backend.pool.coalescer.registry.isExpedited c.exchange = false :=
      Bool.eq_false_iff.2 (mt (hh.urged c.exchange) hu)
    refine ⟨hslow, ?_⟩
    show t ∈ (r.backend.poll t).pool.dispatcher.sleeping
    rw [(r.backend.poll_frame t).1]
    exact Pool.mem_sleeping_poll h.backend.pool (h.exchange?_of_launched hc hp hlive) hexp hne hslow

end Requests

end Entitle
