import Entitle.Proofs.Requests

/-!
# Exchanges without the cache

Main statement: `uncached_blind`. An exchange that its caller launched without the cache, or with caching switched off,
sends the request of its signature and nothing else, gives everyone who waits the classified outcome, and leaves cache
and store as they are, whatever the callers that join it ask for. So runs on two backends that differ in cache and store
only are the same as long as no exchange uses the cache (`Alike`).
-/

namespace Entitle

open Flight

namespace Backend
variable {σ τ : Type} {b : Backend σ} {b' : Backend τ}

/-- A task whose plan leaves the cache alone has sent the request of its signature, as it is. -/
def Plain (b : Backend σ) : Prop :=
  ∀ t request plan, b.sent.get? t = some request → b.plans.get? t = some plan → plan.useCache = false →
    request = .ofSignature plan.signature

/-- They differ in cache and store only. -/
structure Alike (b : Backend σ) (b' : Backend τ) : Prop where
  pool : b'.pool = b.pool
  plans : b'.plans = b.plans
  sent : b'.sent = b.sent
  caching : b'.caching = b.caching
  limits : b'.limits = b.limits

namespace Plain

theorem launch (hp : b.Plain) (h : b.Coherent) {e : Exchange Signature} (hu : b.pool.isUnassigned e) (useCache : Bool)
    (delay : DelayClass) (draw : Nat) : (b.launch e useCache delay draw).Plain := by
  intro t request plan hsent hplan hcache
  change b.sent.get? t = some request at hsent
  rw [plans_launch hu, Table.get?_put] at hplan
  split at hplan
  · next ht =>
    -- a new task has sent nothing
    obtain ⟨old, hold, -⟩ := h.sent_plan t request hsent
    exact absurd ht (Nat.ne_of_gt (h.plan_lt t old hold))
  · exact hp t request plan hsent hplan hcache

variable [KeyValueStore σ]

theorem send (hp : b.Plain) (t : Nat) : (b.send t).Plain := by
  intro t' request plan hsent hplan hcache
  rw [plans_send] at hplan
  unfold Backend.send at hsent
  split at hsent
  · next plan' hplan' =>
    change (b.sent.put t (requestOf plan' b.cache b.store).1).get? t' = some request at hsent
    rw [Table.get?_put] at hsent
    split at hsent
    · next ht =>
      subst ht
      cases hplan.symm.trans hplan'
      rw [requestOf, if_neg (by simp [hcache])] at hsent
      exact (Option.some.inj hsent).symm
    · exact hp t' request plan hsent hplan hcache
  · exact hp t' request plan hsent hplan hcache

theorem poll (hp : b.Plain) (t : Nat) : (b.poll t).Plain := by
  unfold Backend.poll
  show Plain (if _ then Backend.send t { b with pool := b.pool.poll t } else _)
  split
  · exact send (b := { b with pool := b.pool.poll t }) hp t
  · exact hp

theorem answer (hp : b.Plain) (now : Instant) (t : Nat) (outcome : Outcome) : (b.answer now t outcome).Plain := by
  unfold Backend.answer
  split
  · split <;> exact hp
  · exact hp

end Plain

/-! ### Cache and store -/

section Frame
variable [KeyValueStore σ]

theorem send_frame {t : Nat} (h : ∀ plan, b.plans.get? t = some plan → plan.useCache = false) :
    (b.send t).cache = b.cache ∧ (b.send t).store = b.store := by
  unfold send
  split
  · next plan hplan =>
    rw [requestOf, if_neg (by simp [h plan hplan])]
    exact ⟨rfl, rfl⟩
  · exact ⟨rfl, rfl⟩

theorem poll_cache {t : Nat} (h : ∀ plan, b.plans.get? t = some plan → plan.useCache = false) :
    (b.poll t).cache = b.cache ∧ (b.poll t).store = b.store := by
  unfold poll
  show Backend.cache (if _ then Backend.send t { b with pool := b.pool.poll t } else _) = _ ∧
    Backend.store (if _ then Backend.send t { b with pool := b.pool.poll t } else _) = _
  split
  · exact send_frame (b := { b with pool := b.pool.poll t }) h
  · exact ⟨rfl, rfl⟩

theorem answer_cache {t : Nat} (h : ∀ plan, b.plans.get? t = some plan → plan.useCache = false) (now : Instant)
    (outcome : Outcome) :
    (b.answer now t outcome).cache = b.cache ∧ (b.answer now t outcome).store = b.store := by
  unfold answer
  split
  · split
    · next plan hplan =>
      rw [settled, if_neg (by simp [h plan hplan])]
      exact ⟨rfl, rfl⟩
    · exact ⟨rfl, rfl⟩
  · exact ⟨rfl, rfl⟩

theorem sent_poll {t : Nat} {plan : Plan} (hp : b.Plain) (hplan : b.plans.get? t = some plan)
    (hcache : plan.useCache = false) (hrun : t ∈ (b.poll t).pool.dispatcher.running) :
    (b.poll t).sent.get? t = some (.ofSignature plan.signature) := by
  have hafter : (b.poll t).plans.get? t = some plan := by rw [(b.poll_frame t).2.1, hplan]
  have hsent : (b.poll t).sent.get? t ≠ none := by
    rw [(b.poll_frame t).1] at hrun
    unfold poll
    show Table.get? (Backend.sent (if _ then Backend.send t { b with pool := b.pool.poll t } else _)) t ≠ none
    split
    · unfold send
      simp only [hplan]
      simp [Table.get?_put]
    · next hmust =>
      intro hnone
      change b.sent.get? t = none at hnone
      exact hmust (by simp [mustSend, hrun, hnone])
  obtain ⟨request, hrequest⟩ := Option.ne_none_iff_exists'.1 hsent
  rw [hrequest, hp.poll t t request plan hrequest hafter hcache]

end Frame

/-! ### Two backends -/

namespace Alike

theorem of_pool (h : Alike b b') (f : Pool Signature (Classified Json) → Pool Signature (Classified Json)) :
    Alike { b with pool := f b.pool } { b' with pool := f b'.pool } :=
  ⟨congrArg f h.pool, h.plans, h.sent, h.caching, h.limits⟩

theorem launch (h : Alike b b') (e : Exchange Signature) (useCache : Bool) (delay : DelayClass) (draw : Nat) :
    Alike (b.launch e useCache delay draw) (b'.launch e useCache delay draw) := by
  unfold Backend.launch
  rw [h.pool, h.plans, h.caching, h.limits]
  exact ⟨rfl, rfl, h.sent, rfl, rfl⟩

variable [KeyValueStore σ] [KeyValueStore τ]

theorem send (h : Alike b b') {t : Nat} (hp : ∀ plan, b.plans.get? t = some plan → plan.useCache = false) :
    Alike (b.send t) (b'.send t) := by
  unfold Backend.send
  rw [h.plans]
  cases hplan : b.plans.get? t with
  | none => exact h
  | some plan =>
    simp only [requestOf, hp plan hplan, Bool.false_eq_true, if_false]
    exact ⟨h.pool, rfl, congrArg (Table.put · t _) h.sent, h.caching, h.limits⟩

theorem poll (h : Alike b b') {t : Nat} (hp : ∀ plan, b.plans.get? t = some plan → plan.useCache = false) :
    Alike (b.poll t) (b'.poll t) := by
  have hpool := h.of_pool (·.poll t)
  have hmust : mustSend { b' with pool := b'.pool.poll t } t = mustSend { b with pool := b.pool.poll t } t := by
    simp only [mustSend, h.pool, h.sent]
  unfold Backend.poll
  simp only [hmust]
  split
  · exact hpool.send hp
  · exact hpool

theorem answer (h : Alike b b') {t : Nat} (hp : ∀ plan, b.plans.get? t = some plan → plan.useCache = false)
    (now : Instant) (outcome : Outcome) : Alike (b.answer now t outcome) (b'.answer now t outcome) := by
  have hsending : b'.isSending t = b.isSending t := by simp only [isSending, h.pool, h.sent]
  unfold Backend.answer
  rw [hsending, h.plans]
  by_cases hs : b.isSending t
  swap
  · simp only [hs]
    exact h
  simp only [hs, if_true]
  cases hplan : b.plans.get? t with
  | none => exact h
  | some plan =>
    simp only [settled, hp plan hplan, Bool.false_eq_true, if_false]
    exact ⟨congrArg (fun p => p.finish t (Classify.classify outcome)) h.pool, rfl, h.sent, h.caching, h.limits⟩

end Alike

end Backend

namespace Requests
variable {σ τ : Type} [KeyValueStore σ] [KeyValueStore τ] {r : Requests σ} {r' : Requests τ} {t : Nat}

theorem plain_step (h : r.Sound) (hp : r.backend.Plain) (event : Event) : (r.step event).backend.Plain := by
  rcases r.backend_step event with ⟨pool, heq⟩ | ⟨n, c, e, draw, hc, hreg, he, heq⟩ | ⟨t, rfl⟩ |
    ⟨now, t, outcome, rfl⟩ | ⟨s, rfl⟩ | rfl
  · rw [heq]
    exact hp
  · rw [heq]
    exact hp.launch h.backend (h.pending n c e hc hreg he) _ _ _
  · exact hp.poll t
  · exact hp.answer now t outcome
  · exact hp
  · exact hp

theorem plain_run (h : r.Sound) (hp : r.backend.Plain) (events : List Event) : (r.run events).backend.Plain := by
  induction events generalizing r with
  | nil => exact hp
  | cons event rest ih => exact ih (h.step event) (plain_step h hp event)

/-- The task of an exchange that its caller launched with the cache, on a backend that has caching switched on. -/
def UsesCache (r : Requests σ) (t : Nat) : Prop :=
  ∃ n c delay, r.caller? n = some c ∧ c.progress = .launched t delay ∧
    (c.plan r.backend.caching).useCache = true

theorem UsesCache.step (h : r.UsesCache t) (event : Event) : (r.step event).UsesCache t := by
  obtain ⟨n, c, delay, hc, hp, hcache⟩ := h
  refine ⟨n, c, delay, caller?_step hc (by simp [hp]) event, hp, ?_⟩
  rw [caching_step]
  exact hcache

namespace Sound

omit [KeyValueStore σ] in
theorem plan_of_not_usesCache (h : r.Sound) (ht : ¬ r.UsesCache t) {plan : Plan}
    (hplan : r.backend.plans.get? t = some plan) : plan.useCache = false := by
  obtain ⟨n, c, delay, hc, hp, rfl⟩ := h.planned t plan hplan
  exact Bool.eq_false_iff.2 fun hcache => ht ⟨n, c, delay, hc, hp, hcache⟩

omit [KeyValueStore σ] in
theorem not_usesCache (h : r.Sound) {n delay : Nat} {c : Caller} (hc : r.caller? n = some c)
    (hp : c.progress = .launched t delay) (hcache : (c.ask.useCache && r.backend.caching) = false) :
    ¬ r.UsesCache t := by
  rintro ⟨m, d, delay', hd, hp', hcache'⟩
  have hplan := (h.launched n c t delay hc hp).2.1
  rw [(h.launched m d t delay' hd hp').2.1] at hplan
  rw [Option.some.inj hplan] at hcache'
  exact Bool.eq_false_iff.1 hcache hcache'

end Sound

/-- Only what was launched with the cache, and upkeep of the cache, changes cache or store. -/
theorem cache_step (h : r.Sound) (event : Event) :
    ((r.step event).backend.cache = r.backend.cache ∧ (r.step event).backend.store = r.backend.store) ∨
      (∃ s, event = .invalidate s) ∨ event = .clear ∨
      ∃ t, r.UsesCache t ∧ (event = .poll t ∨ ∃ now outcome, event = .answer now t outcome) := by
  rcases r.backend_step event with ⟨pool, heq⟩ | ⟨n, c, e, draw, -, -, -, heq⟩ | ⟨t, rfl⟩ | ⟨now, t, outcome, rfl⟩ |
    ⟨s, rfl⟩ | rfl
  · rw [heq]
    exact .inl ⟨rfl, rfl⟩
  · rw [heq]
    exact .inl ⟨rfl, rfl⟩
  · by_cases ht : r.UsesCache t
    · exact .inr (.inr (.inr ⟨t, ht, .inl rfl⟩))
    · exact .inl (Backend.poll_cache fun plan => h.plan_of_not_usesCache ht)
  · by_cases ht : r.UsesCache t
    · exact .inr (.inr (.inr ⟨t, ht, .inr ⟨now, outcome, rfl⟩⟩))
    · exact .inl (Backend.answer_cache (fun plan => h.plan_of_not_usesCache ht) now outcome)
  · exact .inr (.inl ⟨s, rfl⟩)
  · exact .inr (.inr (.inl rfl))

/-! ### What the callers get -/

/-- The outcome of an exchange without the cache goes to everyone who waits for it, classified and otherwise as it is.
-/
theorem Sound.resolved_answer (h : r.Sound) {n delay : Nat} {c : Caller} (hc : r.caller? n = some c)
    (hp : c.progress = .launched t delay) (hcache : (c.ask.useCache && r.backend.caching) = false)
    (hs : r.backend.isSending t) {w : Waiter Signature} (he : w.exchange = c.exchange)
    (hw : r.backend.pool.coalescer.Waiting w) (now : Instant) (outcome : Outcome) :
    (r.step (.answer now t outcome)).backend.pool.coalescer.Resolved w (.value (Classify.classify outcome)) := by
  have hrun : t ∈ r.backend.pool.dispatcher.running := by
    simp only [Backend.isSending, Bool.and_eq_true, decide_eq_true_eq] at hs
    exact hs.1
  have hlive : r.backend.pool.tasks.get? t ≠ none :=
    Table.mem_keys.1 (h.backend.pool.stages.mem_iff.1 (Dispatcher.mem_tasks.2 (.inr (.inr (.inr hrun)))))
  have hex : r.backend.pool.exchange? t = some w.exchange := he ▸ h.exchange?_of_launched hc hp hlive
  have hplan := (h.launched n c t delay hc hp).2.1
  have hends : Backend.ending? w.exchange r.backend [.answer now t outcome] =
      some (.value (Classify.classify outcome)) := by
    have hflag : (c.plan r.backend.caching).useCache = false := hcache
    simp [Backend.ending?, Backend.ends?, hs, hex, hplan, Backend.settled, hflag]
  exact Backend.resolved_run h.backend hw (by simp) (by simp) hends

theorem Sound.resolved_run (h : r.Sound) {n : Nat} {c : Caller} {d : Delivery (Classified Json)}
    (hc : r.caller? n = some c) (hd : r.backend.pool.coalescer.Resolved c.waiter d) {events : List Event}
    (hl : .leave n ∉ events) (ht : .take n ∉ events) :
    (r.run events).backend.pool.coalescer.Resolved c.waiter d := by
  induction events generalizing r c with
  | nil => exact hd
  | cons event rest ih =>
    obtain ⟨hl', hlrest⟩ := not_or.1 (mt List.mem_cons.2 hl)
    obtain ⟨ht', htrest⟩ := not_or.1 (mt List.mem_cons.2 ht)
    obtain ⟨c', hc', hw⟩ := waiter_step hc event
    have hstep : (r.step event).backend.pool.coalescer.Resolved c'.waiter d := by
      rw [hw]
      rcases r.pool_step event with hpool | ⟨m, hpool, hm⟩ <;> rw [hpool]
      · exact hd
      rw [Pool.coalescer_step h.backend.pool]
      refine hd.run (fun hmem => ?_) fun hmem => ?_ <;> cases Pool.asks_of_mem_trace hmem
      · obtain ⟨k, c₂, heq, hc₂, hsame⟩ := hm
        exact hl' (h.apart k n c₂ c hc₂ hc hsame ▸ heq.symm)
      · obtain ⟨k, c₂, heq, hc₂, hsame⟩ := hm
        exact ht' (h.apart k n c₂ c hc₂ hc hsame ▸ heq.symm)
    rw [← hw]
    exact ih (h.step event) hc' hstep hlrest htrest

/-! ### Two runs -/

/-- They differ in cache and store only. -/
structure Alike (r : Requests σ) (r' : Requests τ) : Prop where
  backend : r.backend.Alike r'.backend
  callers : r'.callers = r.callers
  results : r'.results = r.results

namespace Alike

omit [KeyValueStore σ] [KeyValueStore τ] in
theorem proceed (h : Alike r r') (n draw : Nat) : Alike (r.proceed n draw) (r'.proceed n draw) := by
  have hcaller : r'.caller? n = r.caller? n := by rw [caller?, caller?, h.callers]
  unfold Requests.proceed
  rw [hcaller]
  rcases r.caller? n with _ | ⟨ask, ⟨_ | e, w⟩, _ | _ | ⟨t, delay⟩⟩
  · exact h
  · refine ⟨?_, congrArg (List.set · n _) h.callers, h.results⟩
    show Backend.Alike (if _ then _ else _) (if _ then _ else _)
    split
    · exact h.backend.of_pool (·.expedite w)
    · exact h.backend
  · exact h
  · exact h
  · refine ⟨h.backend.launch e ask.useCache ask.delay draw, ?_, h.results⟩
    simp only [h.callers, h.backend.pool, h.backend.limits]
  · exact h
  · exact h

theorem step (h : Alike r r') (hp : ∀ t plan, r.backend.plans.get? t = some plan → plan.useCache = false)
    (event : Event) : Alike (r.step event) (r'.step event) := by
  have hcaller : ∀ n, r'.caller? n = r.caller? n := fun n => by rw [caller?, caller?, h.callers]
  have hwaiting : ∀ n, r'.waiting? n = r.waiting? n := fun n => by rw [waiting?, waiting?, hcaller]
  cases event with
  | arrive ask =>
    refine ⟨h.backend.of_pool fun p => (p.register ask.signature).2, ?_, h.results⟩
    show r'.callers ++ [_] = r.callers ++ [_]
    simp only [h.callers, h.backend.pool]
  | proceed n draw => exact h.proceed n draw
  | leave n =>
    simp only [Requests.step, Requests.leave, hwaiting]
    cases r.waiting? n with
    | none => exact h
    | some c => exact ⟨h.backend.of_pool (·.leave c.waiter), h.callers, h.results⟩
  | take n =>
    simp only [Requests.step, Requests.take, hwaiting]
    cases r.waiting? n with
    | none => exact h
    | some c =>
      refine ⟨h.backend.of_pool fun p => (p.take c.waiter).2, h.callers, ?_⟩
      simp only [Backend.take, h.results, h.backend.pool]
  | poll t => exact ⟨h.backend.poll (hp t), h.callers, h.results⟩
  | expire t => exact ⟨h.backend.of_pool (·.expire t), h.callers, h.results⟩
  | answer now t outcome => exact ⟨h.backend.answer (hp t) now outcome, h.callers, h.results⟩
  | fail t => exact ⟨h.backend.of_pool (·.stop t), h.callers, h.results⟩
  | invalidate s => exact ⟨⟨h.backend.pool, h.backend.plans, h.backend.sent, h.backend.caching, h.backend.limits⟩,
      h.callers, h.results⟩
  | clear => exact ⟨⟨h.backend.pool, h.backend.plans, h.backend.sent, h.backend.caching, h.backend.limits⟩,
      h.callers, h.results⟩

theorem run (h : Alike r r') (hs : r.Sound) {events : List Event} (hu : ∀ t, ¬ (r.run events).UsesCache t) :
    Alike (r.run events) (r'.run events) := by
  -- from the end of the run: what was launched with the cache at any point is still known there
  induction events using List.reverseRecOn with
  | nil => exact h
  | append_singleton events event ih =>
    rw [run_append] at hu
    rw [run_append, run_append]
    have hbefore : ∀ t, ¬ (r.run events).UsesCache t := fun t ht => hu t (ht.step event)
    exact (ih hbefore).step (fun t plan hplan => (hs.run events).plan_of_not_usesCache (hbefore t) hplan) event

end Alike

/-- After any run of requests, an exchange whose caller launched it without the cache, or with caching switched off, has
sent the request of its signature without a tag if it has sent one, and has sent it if it has a permit after it ran.
What its task does next leaves cache and store as they are. Its outcome goes to everyone who waits for it, classified
and otherwise as it is. Any event that leaves cache or store otherwise than before is upkeep of the cache, or an event
of a task that was launched with the cache. And if no exchange of the run was, then the same run on any other cache and
store has the same callers, requests, results and exchanges. -/
theorem uncached_blind (cache : ConditionalCache) (store : σ) (cache' : ConditionalCache) (store' : τ) (caching : Bool)
    (limits : Limits) (events : List Event) :
    let r := (openOn cache store caching limits).run events
    let r' := (openOn cache' store' caching limits).run events
    (∀ n c t delay, r.caller? n = some c → c.progress = .launched t delay → (c.ask.useCache && caching) = false →
      (∀ request, r.backend.sent.get? t = some request →
        request = .ofSignature c.ask.signature ∧ request.tag? = none) ∧
      (t ∈ (r.step (.poll t)).backend.pool.dispatcher.running →
        (r.step (.poll t)).backend.sent.get? t = some (.ofSignature c.ask.signature)) ∧
      (∀ event, event ∈ [.poll t, .expire t, .fail t] ∨ (∃ now outcome, event = .answer now t outcome) →
        (r.step event).backend.cache = r.backend.cache ∧ (r.step event).backend.store = r.backend.store) ∧
      (∀ now outcome m d, r.backend.isSending t → r.caller? m = some d → d.exchange = c.exchange →
        r.backend.pool.coalescer.Waiting d.waiter → ∀ later, .leave m ∉ later → .take m ∉ later →
          (((r.step (.answer now t outcome)).run later).backend.take d.waiter).1 = some (Classify.classify outcome))) ∧
    (∀ event,
      ((r.step event).backend.cache = r.backend.cache ∧ (r.step event).backend.store = r.backend.store) ∨
        (∃ s, event = .invalidate s) ∨ event = .clear ∨
        ∃ t, r.UsesCache t ∧ (event = .poll t ∨ ∃ now outcome, event = .answer now t outcome)) ∧
    ((∀ t, ¬ r.UsesCache t) → r'.callers = r.callers ∧ r'.results = r.results ∧ r'.backend.sent = r.backend.sent ∧
      r'.backend.pool = r.backend.pool) := by
  intro r r'
  have hstart := Sound.openOn cache store caching limits
  have h : r.Sound := hstart.run events
  have hplain : r.backend.Plain := plain_run hstart (fun t request plan hsent => by cases hsent) events
  have hcaching : r.backend.caching = caching := caching_run _ events
  refine ⟨fun n c t delay hc hp hcache => ?_, cache_step h, fun hu => ?_⟩
  · rw [← hcaching] at hcache
    have ht := h.not_usesCache hc hp hcache
    have hplan := (h.launched n c t delay hc hp).2.1
    refine ⟨fun request hsent => ?_, ?_, fun event hevent => ?_, fun now outcome m d hs hd he hw later hl htake => ?_⟩
    · obtain rfl := hplain t request _ hsent hplan hcache
      exact ⟨rfl, rfl⟩
    · exact Backend.sent_poll hplain hplan hcache
    · rcases cache_step h event with hsame | ⟨s, rfl⟩ | rfl | ⟨t', ht', hother⟩
      · exact hsame
      · simp at hevent
      · simp at hevent
      · have hne : t' ≠ t := fun heq => ht (heq ▸ ht')
        rcases hother with rfl | ⟨now, outcome, rfl⟩ <;> simp [hne] at hevent
    · have hresolved := h.resolved_answer hc hp hcache hs he hw now outcome
      obtain ⟨d', hd', hsame⟩ := waiter_step hd (.answer now t outcome)
      rw [← hsame] at hresolved ⊢
      rw [Backend.take_fst, ((h.step _).resolved_run hd' hresolved hl htake).take]
      rfl
  · have hopen : Alike (openOn cache store caching limits) (openOn cache' store' caching limits) :=
      ⟨⟨rfl, rfl, rfl, rfl, rfl⟩, rfl, rfl⟩
    have halike : Alike r r' := hopen.run hstart hu
    exact ⟨halike.callers, halike.results, halike.backend.sent, halike.backend.pool⟩

end Requests

end Entitle
