import Entitle.Requests
import Entitle.Proofs.Flight.Cancellation
import Entitle.Proofs.Flight.Haste
import Entitle.Proofs.SingleFlight

/-!
# Callers and their exchanges

`Requests.Sound`: every caller has a registration of its own (`Requests.Handed`), one that is still to proceed has its
waiter, and its exchange if it came first, and one that launched an exchange has a task with the plan that it asked for.
An event lets a caller come, lets one launch or join, or leaves the callers as they are (`Requests.callers_step`), and
what it does to the pool is one event of the pool at most (`Requests.pool_step`).
-/

namespace Entitle

open Flight

/-! ### What an event of a pool keeps -/

namespace Flight
variable {κ ρ : Type} [DecidableEq κ]

namespace Coalescer
variable {c : Coalescer κ ρ} {s : Step κ ρ} {w : Waiter κ}

theorem mem_waiters_step_of_mem (hw : w ∈ c.waiters) (hl : s ≠ .leave w) (ht : s ≠ .take w) :
    w ∈ (c.step s).waiters := by
  cases s with
  | register key => exact List.mem_append_left _ hw
  | complete e result => exact (waiters_settle c e _).symm ▸ hw
  | drop e => exact (waiters_settle c e _).symm ▸ hw
  | attach e task => exact (waiters_attach c e task).symm ▸ hw
  | signal e => exact (waiters_takeSignal c e).symm ▸ hw
  | expedite v => exact (waiters_expedite c v).symm ▸ hw
  | leave v =>
    have hne : w ≠ v := fun heq => hl (by rw [heq])
    simp only [step, Coalescer.leave]
    split
    · exact (List.mem_erase_of_ne hne).2 hw
    · exact hw
  | take v =>
    have hne : w ≠ v := fun heq => ht (by rw [heq])
    simp only [step, Coalescer.take]
    split
    · split
      · exact (List.mem_erase_of_ne hne).2 hw
      · exact hw
    · exact hw

end Coalescer

namespace Pool
variable {p : Pool κ ρ} {m : Event κ ρ} {e : Exchange κ} {w : Waiter κ}

theorem knows_step (h : p.Coherent) (hw : p.coalescer.registry.Knows w) (m : Event κ ρ) :
    (p.step m).coalescer.registry.Knows w := by
  rw [coalescer_step h]
  exact Coalescer.Registry.Knows.run hw _

theorem mem_waiters_step (h : p.Coherent) (hw : w ∈ p.coalescer.waiters) (hl : m ≠ .leave w) (ht : m ≠ .take w) :
    w ∈ (p.step m).coalescer.waiters := by
  rw [coalescer_step h]
  refine List.foldlRecOn (motive := fun c : Coalescer κ ρ => w ∈ c.waiters) _ _ hw fun c hc s hs =>
    Coalescer.mem_waiters_step_of_mem hc (fun heq => hl ?_) fun heq => ht ?_
  · exact asks_of_mem_trace (heq ▸ hs)
  · exact asks_of_mem_trace (heq ▸ hs)

theorem isUnassigned_iff (h : p.Staged) :
    p.isUnassigned e ↔ e ∈ p.coalescer.exchanges ∧ ∀ t, p.exchange? t ≠ some e := by
  simp only [isUnassigned, Coalescer.has, Bool.and_eq_true, decide_eq_true_eq, List.all_eq_true]
  refine and_congr_right fun _ => ⟨fun hall t he => ?_, fun hnone entry hmem heq => ?_⟩
  · exact hall _ (Table.mem_of_get? (exchange?_eq_some.1 he)) rfl
  · exact hnone entry.1 (exchange?_eq_some.2 (Table.get?_of_mem h.tasks_nodup (heq ▸ hmem)))

theorem isUnassigned_step (h : p.Coherent) (hu : p.isUnassigned e) (hd : ∀ delay, m ≠ .dispatch e delay)
    (hm : m ≠ .drop e) : (p.step m).isUnassigned e := by
  obtain ⟨hin, hfree⟩ := (isUnassigned_iff h.toStaged).1 hu
  have hother : ∀ e', ((∃ t, p.exchange? t = some e') ∨ (∃ delay, m = .dispatch e' delay) ∨ m = .drop e') →
      e' ≠ e := by
    rintro e' (⟨t, ht⟩ | ⟨delay, rfl⟩ | rfl) rfl
    · exact hfree t ht
    · exact hd delay rfl
    · exact hm rfl
  refine (isUnassigned_iff (h.step m).toStaged).2 ⟨?_, fun t he => ?_⟩
  · rw [coalescer_step h]
    refine List.foldlRecOn (motive := fun c : Coalescer κ ρ => e ∈ c.exchanges) _ _ hin fun c hc s hs =>
      Coalescer.mem_exchanges_step_of_mem hc ?_
    have hprompts := prompts_of_mem_trace hs
    cases s with
    | complete e' result => exact if_neg (hother e' hprompts)
    | drop e' => exact if_neg (hother e' hprompts)
    | _ => rfl
  · rcases get?_step (exchange?_eq_some.1 he) with hold | ⟨-, ⟨e', delay, rfl, -, hx⟩ | ⟨delay, rfl⟩⟩
    · exact hfree t (exchange?_eq_some.2 hold)
    · cases hx
      exact hd delay rfl
    · have hnone := exchange?_spawn p none delay t
      change (p.spawn none delay).2.exchange? t = some e at he
      rw [hnone] at he
      split at he
      · cases he
      · exact hfree t he

end Pool

end Flight

/-! ### Sound requests -/

/-- The exchange that it launches or joins. -/
def Caller.exchange (c : Caller) : Exchange Signature :=
  c.waiter.exchange

/-- The plan of the exchange that it launches. -/
def Caller.plan (caching : Bool) (c : Caller) : Plan :=
  ⟨c.ask.signature, c.ask.useCache && caching⟩

namespace Backend
variable {σ : Type} {b : Backend σ}

theorem plans_launch {e : Exchange Signature} (hu : b.pool.isUnassigned e)
    (useCache : Bool) (delay : DelayClass) (draw : Nat) :
    (b.launch e useCache delay draw).plans = b.plans.put b.pool.nextTask ⟨e.key, useCache && b.caching⟩ := by
  simp only [launch, Pool.dispatch, hu, if_true]
  rfl

variable [KeyValueStore σ]

theorem poll_frame (b : Backend σ) (t : Nat) :
    (b.poll t).pool = b.pool.poll t ∧ (b.poll t).plans = b.plans ∧ (b.poll t).caching = b.caching := by
  have hsend : ∀ b : Backend σ,
      (b.send t).pool = b.pool ∧ (b.send t).plans = b.plans ∧ (b.send t).caching = b.caching :=
    fun b => by
      unfold send
      split <;> exact ⟨rfl, rfl, rfl⟩
  unfold poll
  show Backend.pool (if _ then _ else _) = _ ∧ Backend.plans (if _ then _ else _) = _ ∧
    Backend.caching (if _ then _ else _) = _
  split
  · exact hsend { b with pool := b.pool.poll t }
  · exact ⟨rfl, rfl, rfl⟩

theorem answer_frame (b : Backend σ) (now : Instant) (t : Nat) (outcome : Outcome) :
    ((b.answer now t outcome).pool = b.pool ∨ ∃ result, (b.answer now t outcome).pool = b.pool.finish t result) ∧
      (b.answer now t outcome).plans = b.plans ∧ (b.answer now t outcome).caching = b.caching := by
  unfold answer
  split
  · split
    · exact ⟨.inr ⟨_, rfl⟩, rfl, rfl⟩
    · exact ⟨.inl rfl, rfl, rfl⟩
  · exact ⟨.inl rfl, rfl, rfl⟩

end Backend

namespace Requests
variable {σ : Type} {r : Requests σ}

/-- What it means to proceed: to launch an exchange, to join, or nothing if the caller is not there or has done so. -/
theorem proceed_cases (r : Requests σ) (n draw : Nat) :
    r.proceed n draw = r ∨
    ∃ c, r.caller? n = some c ∧ c.progress = .registered ∧
      ((∃ e, c.registration.exchange = some e ∧ r.proceed n draw =
        { r with
          backend := r.backend.launch e c.ask.useCache c.ask.delay draw
          callers := r.callers.set n { c with
            progress := .launched r.backend.pool.nextTask (c.ask.delay.sample r.backend.limits draw) } }) ∨
      c.registration.exchange = none ∧ r.proceed n draw =
        { r with
          backend := if c.ask.delay = .immediate then r.backend.expedite c.waiter else r.backend
          callers := r.callers.set n { c with progress := .joined } }) := by
  unfold proceed
  split
  · next ask e w hc => exact .inr ⟨_, hc, rfl, .inl ⟨e, rfl, rfl⟩⟩
  · next ask w hc => exact .inr ⟨_, hc, rfl, .inr ⟨rfl, rfl⟩⟩
  · exact .inl rfl

/-! ### The callers after an event -/

theorem caller?_arrive {ask : Ask} {n : Nat} {c : Caller} (hc : (r.arrive ask).caller? n = some c) :
    r.caller? n = some c ∨
      n = r.callers.length ∧ c = { ask, registration := (r.backend.pool.register ask.signature).1 } := by
  change (r.callers ++ [_])[n]? = some c at hc
  rw [List.getElem?_append] at hc
  split at hc
  · exact .inl hc
  · next hn =>
    rw [List.getElem?_singleton] at hc
    split at hc
    · exact .inr ⟨by omega, (Option.some.inj hc).symm⟩
    · cases hc

theorem caller?_arrive_of_some {n : Nat} {c : Caller} (hc : r.caller? n = some c) (ask : Ask) :
    (r.arrive ask).caller? n = some c := by
  show (r.callers ++ [_])[n]? = some c
  rw [List.getElem?_append_left (List.getElem?_eq_some_iff.1 hc).1]
  exact hc

theorem caller?_set {b : Backend σ} {results : Table Nat (Classified Json)} {n m : Nat} {c d : Caller}
    (hd : Requests.caller? ⟨b, r.callers.set n c, results⟩ m = some d) :
    m = n ∧ d = c ∨ m ≠ n ∧ r.caller? m = some d := by
  change (r.callers.set n c)[m]? = some d at hd
  rw [List.getElem?_set] at hd
  split at hd
  · next hn =>
    split at hd
    · exact .inl ⟨hn.symm, (Option.some.inj hd).symm⟩
    · cases hd
  · next hn => exact .inr ⟨Ne.symm hn, hd⟩

theorem caller?_set_self {n : Nat} {c : Caller} (hc : r.caller? n = some c) (b : Backend σ) (d : Caller)
    (results : Table Nat (Classified Json)) : Requests.caller? ⟨b, r.callers.set n d, results⟩ n = some d := by
  show (r.callers.set n d)[n]? = some d
  rw [List.getElem?_set_self (List.getElem?_eq_some_iff.1 hc).1]

theorem caller?_set_of_ne {n m : Nat} (hne : m ≠ n) (b : Backend σ) (d : Caller)
    (results : Table Nat (Classified Json)) : Requests.caller? ⟨b, r.callers.set n d, results⟩ m = r.caller? m :=
  List.getElem?_set_ne (Ne.symm hne)

theorem waiting?_eq_some {n : Nat} {c : Caller} (hc : r.waiting? n = some c) :
    r.caller? n = some c ∧ c.progress ≠ .registered := by
  obtain ⟨hc, hp⟩ := Option.filter_eq_some_iff.1 hc
  exact ⟨hc, of_decide_eq_true hp⟩

section Frame
variable [KeyValueStore σ]

theorem callers_step (r : Requests σ) {event : Event} (ha : ∀ ask, event ≠ .arrive ask)
    (hp : ∀ n draw, event ≠ .proceed n draw) : (r.step event).callers = r.callers := by
  cases event with
  | arrive ask => exact absurd rfl (ha ask)
  | proceed n draw => exact absurd rfl (hp n draw)
  | leave n =>
    simp only [step, leave]
    split <;> rfl
  | take n =>
    simp only [step, take]
    split <;> rfl
  | _ => rfl

theorem caller?_step {n : Nat} {c : Caller} (hc : r.caller? n = some c) (hp : c.progress ≠ .registered)
    (event : Event) : (r.step event).caller? n = some c := by
  by_cases harrive : ∃ ask, event = .arrive ask
  · obtain ⟨ask, rfl⟩ := harrive
    exact caller?_arrive_of_some hc ask
  by_cases hproceed : ∃ m draw, event = .proceed m draw
  · obtain ⟨m, draw, rfl⟩ := hproceed
    have hset : ∀ d, r.caller? m = some d → d.progress = .registered → n ≠ m := fun d hd hreg heq => by
      subst heq
      cases hc.symm.trans hd
      exact hp hreg
    show (r.proceed m draw).caller? n = some c
    rcases r.proceed_cases m draw with heq | ⟨d, hd, hreg, ⟨e, -, heq⟩ | ⟨-, heq⟩⟩ <;> rw [heq]
    · exact hc
    · exact (caller?_set_of_ne (hset d hd hreg) _ _ _).trans hc
    · exact (caller?_set_of_ne (hset d hd hreg) _ _ _).trans hc
  · rw [caller?, r.callers_step (fun ask heq => harrive ⟨ask, heq⟩) fun m draw heq => hproceed ⟨m, draw, heq⟩]
    exact hc

theorem waiter_step {n : Nat} {c : Caller} (hc : r.caller? n = some c) (event : Event) :
    ∃ d, (r.step event).caller? n = some d ∧ d.waiter = c.waiter := by
  by_cases hp : c.progress = .registered
  swap
  · exact ⟨c, caller?_step hc hp event, rfl⟩
  cases event with
  | arrive ask => exact ⟨c, caller?_arrive_of_some hc ask, rfl⟩
  | proceed m draw =>
    show ∃ d, (r.proceed m draw).caller? n = some d ∧ _
    have hset : ∀ (b : Backend σ) d progress, r.caller? m = some d → ∃ d',
        Requests.caller? ⟨b, r.callers.set m { d with progress }, r.results⟩ n = some d' ∧ d'.waiter = c.waiter :=
      fun b d progress hd => by
        by_cases hn : n = m
        · subst hn
          cases hc.symm.trans hd
          exact ⟨_, caller?_set_self hc b _ r.results, rfl⟩
        · exact ⟨c, (caller?_set_of_ne hn b _ r.results).trans hc, rfl⟩
    rcases r.proceed_cases m draw with heq | ⟨d, hd, -, ⟨e, -, heq⟩ | ⟨-, heq⟩⟩ <;> rw [heq]
    · exact ⟨c, hc, rfl⟩
    · exact hset _ d _ hd
    · exact hset _ d _ hd
  | _ =>
    refine ⟨c, ?_, rfl⟩
    rw [caller?, r.callers_step (by simp) (by simp)]
    exact hc

/-- What has happened if the pool sees an event: who leaves or takes is a caller, and one that proceeds cuts a delay
short. -/
def Shows (r : Requests σ) (event : Event) : Pool.Event Signature (Classified Json) → Prop
  | .expire t => event = .expire t
  | .expedite _ => ∃ n draw, event = .proceed n draw
  | .leave w => ∃ n c, event = .leave n ∧ r.caller? n = some c ∧ c.waiter = w
  | .take w => ∃ n c, event = .take n ∧ r.caller? n = some c ∧ c.waiter = w
  | _ => True

theorem pool_step (r : Requests σ) (event : Event) :
    (r.step event).backend.pool = r.backend.pool ∨
    ∃ m, (r.step event).backend.pool = r.backend.pool.step m ∧ r.Shows event m := by
  cases event with
  | arrive ask => exact .inr ⟨.register ask.signature, rfl, trivial⟩
  | proceed n draw =>
    show (r.proceed n draw).backend.pool = _ ∨ _
    rcases r.proceed_cases n draw with heq | ⟨c, -, -, ⟨e, -, heq⟩ | ⟨-, heq⟩⟩
    · exact .inl (by rw [heq])
    · exact .inr ⟨.dispatch e (c.ask.delay.sample r.backend.limits draw), by rw [step, heq]; rfl, trivial⟩
    · by_cases hurgent : c.ask.delay = .immediate
      · refine .inr ⟨.expedite c.waiter, ?_, n, draw, rfl⟩
        rw [step, heq]
        simp only [if_pos hurgent]
        rfl
      · exact .inl (by rw [heq]; simp only [if_neg hurgent])
  | leave n =>
    simp only [step, leave]
    split
    · next c hc => exact .inr ⟨.leave c.waiter, rfl, n, c, rfl, (waiting?_eq_some hc).1, rfl⟩
    · exact .inl rfl
  | take n =>
    simp only [step, take]
    split
    · next c hc => exact .inr ⟨.take c.waiter, rfl, n, c, rfl, (waiting?_eq_some hc).1, rfl⟩
    · exact .inl rfl
  | poll t => exact .inr ⟨.poll t, (r.backend.poll_frame t).1, trivial⟩
  | expire t => exact .inr ⟨.expire t, rfl, rfl⟩
  | answer now t outcome =>
    rcases (r.backend.answer_frame now t outcome).1 with heq | ⟨result, heq⟩
    · exact .inl heq
    · exact .inr ⟨.finish t result, heq, trivial⟩
  | fail t => exact .inr ⟨.stop t, rfl, trivial⟩
  | invalidate s => exact .inl rfl
  | clear => exact .inl rfl

/-- Only a launch, a poll, an answer and upkeep of the cache change more of the backend than its pool. -/
theorem backend_step (r : Requests σ) (event : Event) :
    (∃ pool, (r.step event).backend = { r.backend with pool }) ∨
    (∃ n c e draw, r.caller? n = some c ∧ c.progress = .registered ∧ c.registration.exchange = some e ∧
      (r.step event).backend = r.backend.launch e c.ask.useCache c.ask.delay draw) ∨
    (∃ t, event = .poll t) ∨ (∃ now t outcome, event = .answer now t outcome) ∨ (∃ s, event = .invalidate s) ∨
      event = .clear := by
  cases event with
  | arrive ask => exact .inl ⟨_, rfl⟩
  | proceed n draw =>
    show (∃ pool, (r.proceed n draw).backend = _) ∨ (∃ n' c e draw', _ ∧ _ ∧ _ ∧ (r.proceed n draw).backend = _) ∨ _
    rcases r.proceed_cases n draw with heq | ⟨c, hc, hreg, ⟨e, he, heq⟩ | ⟨-, heq⟩⟩ <;> rw [heq]
    · exact .inl ⟨_, rfl⟩
    · exact .inr (.inl ⟨n, c, e, draw, hc, hreg, he, rfl⟩)
    · refine .inl ⟨if c.ask.delay = .immediate then r.backend.pool.expedite c.waiter else r.backend.pool, ?_⟩
      show (if _ then _ else _) = _
      split <;> rfl
  | leave n =>
    refine .inl ?_
    simp only [step, leave]
    split <;> exact ⟨_, rfl⟩
  | take n =>
    refine .inl ?_
    simp only [step, take]
    split <;> exact ⟨_, rfl⟩
  | poll t => exact .inr (.inr (.inl ⟨t, rfl⟩))
  | expire t => exact .inl ⟨_, rfl⟩
  | answer now t outcome => exact .inr (.inr (.inr (.inl ⟨now, t, outcome, rfl⟩)))
  | fail t => exact .inl ⟨_, rfl⟩
  | invalidate s => exact .inr (.inr (.inr (.inr (.inl ⟨s, rfl⟩))))
  | clear => exact .inr (.inr (.inr (.inr (.inr rfl))))

theorem caching_step (r : Requests σ) (event : Event) : (r.step event).backend.caching = r.backend.caching := by
  rcases r.backend_step event with ⟨pool, heq⟩ | ⟨n, c, e, draw, -, -, -, heq⟩ | ⟨t, rfl⟩ | ⟨now, t, outcome, rfl⟩ |
    ⟨s, rfl⟩ | rfl
  · rw [heq]
  · rw [heq]
    rfl
  · exact (r.backend.poll_frame t).2.2
  · exact (r.backend.answer_frame now t outcome).2.2
  · rfl
  · rfl

theorem caching_run (r : Requests σ) (events : List Event) : (r.run events).backend.caching = r.backend.caching := by
  induction events generalizing r with
  | nil => rfl
  | cons event rest ih => exact (ih (r.step event)).trans (r.caching_step event)

theorem run_append (r : Requests σ) (events later : List Event) : r.run (events ++ later) = (r.run events).run later :=
  List.foldl_append

end Frame

/-- Every caller has a registration of its own, for the signature that it asked for. -/
structure Handed (r : Requests σ) : Prop where
  known : ∀ n c, r.caller? n = some c → r.backend.pool.coalescer.registry.Knows c.waiter
  key : ∀ n c, r.caller? n = some c → c.waiter.key = c.ask.signature
  first : ∀ n c e, r.caller? n = some c → c.registration.exchange = some e → e = c.exchange
  apart : ∀ m n c d, r.caller? m = some c → r.caller? n = some d → c.waiter = d.waiter → m = n
  firsts_apart : ∀ m n c d e, r.caller? m = some c → r.caller? n = some d → c.registration.exchange = some e →
    d.registration.exchange = some e → m = n

/-- The callers and the backend agree. -/
structure Sound (r : Requests σ) : Prop extends r.Handed where
  backend : r.backend.Coherent
  waiting : ∀ n c, r.caller? n = some c → c.progress = .registered → c.waiter ∈ r.backend.pool.coalescer.waiters
  pending : ∀ n c e, r.caller? n = some c → c.progress = .registered → c.registration.exchange = some e →
    r.backend.pool.isUnassigned e
  launched : ∀ n c t delay, r.caller? n = some c → c.progress = .launched t delay →
    c.registration.exchange = some c.exchange ∧ r.backend.plans.get? t = some (c.plan r.backend.caching) ∧
      ∀ e, r.backend.pool.exchange? t = some e → e = c.exchange
  planned : ∀ t plan, r.backend.plans.get? t = some plan → ∃ n c delay, r.caller? n = some c ∧
    c.progress = .launched t delay ∧ plan = c.plan r.backend.caching

namespace Handed

/-- It does not matter how far the callers have come. -/
theorem of_same (h : r.Handed) {r' : Requests σ}
    (hknown : ∀ w, r.backend.pool.coalescer.registry.Knows w → r'.backend.pool.coalescer.registry.Knows w)
    (hsame : ∀ n d, r'.caller? n = some d →
      ∃ c, r.caller? n = some c ∧ d.ask = c.ask ∧ d.registration = c.registration) : r'.Handed where
  known n d hd := by
    obtain ⟨c, hc, -, hreg⟩ := hsame n d hd
    rw [Caller.waiter, hreg]
    exact hknown _ (h.known n c hc)
  key n d hd := by
    obtain ⟨c, hc, hask, hreg⟩ := hsame n d hd
    rw [Caller.waiter, hask, hreg]
    exact h.key n c hc
  first n d e hd he := by
    obtain ⟨c, hc, -, hreg⟩ := hsame n d hd
    rw [hreg] at he
    rw [Caller.exchange, Caller.waiter, hreg]
    exact h.first n c e hc he
  apart m n d d' hd hd' heq := by
    obtain ⟨c, hc, -, hreg⟩ := hsame m d hd
    obtain ⟨c', hc', -, hreg'⟩ := hsame n d' hd'
    rw [Caller.waiter, Caller.waiter, hreg, hreg'] at heq
    exact h.apart m n c c' hc hc' heq
  firsts_apart m n d d' e hd hd' he he' := by
    obtain ⟨c, hc, -, hreg⟩ := hsame m d hd
    obtain ⟨c', hc', -, hreg'⟩ := hsame n d' hd'
    rw [hreg] at he
    rw [hreg'] at he'
    exact h.firsts_apart m n c c' e hc hc' he he'

theorem arrive (h : r.Handed) (hpool : r.backend.pool.Coherent) (ask : Ask) : (r.arrive ask).Handed := by
  set registration := (r.backend.pool.register ask.signature).1 with hreg
  have hnew : ∀ n c, r.caller? n = some c → c.waiter ≠ registration.waiter := fun n c hc heq => by
    have hknown := h.known n c hc
    rw [heq] at hknown
    exact Registry.not_knows_register ask.signature hknown
  have hfirst : ∀ e, registration.exchange = some e → e.generation = r.backend.pool.coalescer.registry.nextGeneration :=
    fun e he => by
      rcases hpool.coalescer.register_cases ask.signature with ⟨-, hstart⟩ | ⟨hjoin, -⟩
      · cases he.symm.trans hstart
        rfl
      · cases he.symm.trans hjoin
  -- an exchange that is given out now has a number that no caller has seen
  have hold : ∀ n c e, r.caller? n = some c → registration.exchange = some e → c.registration.exchange ≠ some e :=
    fun n c e hc he hce => by
      have hlt := (h.known n c hc).1
      have hgen := hfirst e he
      rw [h.first n c e hc hce] at hgen
      exact Nat.ne_of_lt hlt hgen
  refine ⟨fun n c hc => ?_, fun n c hc => ?_, fun n c e hc he => ?_, fun m n c d hc hd heq => ?_,
    fun m n c d e hc hd hce hde => ?_⟩
  · rcases caller?_arrive hc with hc | ⟨-, rfl⟩
    · exact Pool.knows_step (m := .register ask.signature) hpool (h.known n c hc)
    · exact hpool.coalescer.registry.knows_register ask.signature
  · rcases caller?_arrive hc with hc | ⟨-, rfl⟩
    · exact h.key n c hc
    · exact Registry.register_key ask.signature
  · rcases caller?_arrive hc with hc | ⟨-, rfl⟩
    · exact h.first n c e hc he
    · exact Coalescer.register_exchange he
  · rcases caller?_arrive hc with hc | ⟨rfl, rfl⟩ <;> rcases caller?_arrive hd with hd | ⟨rfl, rfl⟩
    · exact h.apart m n c d hc hd heq
    · exact absurd heq (hnew m c hc)
    · exact absurd heq.symm (hnew n d hd)
    · rfl
  · rcases caller?_arrive hc with hc | ⟨rfl, rfl⟩ <;> rcases caller?_arrive hd with hd | ⟨rfl, rfl⟩
    · exact h.firsts_apart m n c d e hc hd hce hde
    · exact absurd hce (hold m c e hc hde)
    · exact absurd hde (hold n d e hd hce)
    · rfl

end Handed

namespace Sound

theorem openOn (cache : ConditionalCache) (store : σ) (caching : Bool) (limits : Limits) :
    (openOn cache store caching limits).Sound where
  backend := by
    obtain ⟨pool, owned, planned, plan_lt, sent_plan⟩ := Backend.Coherent.openOn store caching limits
    exact ⟨pool, owned, planned, plan_lt, sent_plan⟩
  known := by simp [Requests.openOn, caller?]
  key := by simp [Requests.openOn, caller?]
  first := by simp [Requests.openOn, caller?]
  apart := by simp [Requests.openOn, caller?]
  firsts_apart := by simp [Requests.openOn, caller?]
  waiting := by simp [Requests.openOn, caller?]
  pending := by simp [Requests.openOn, caller?]
  launched := by simp [Requests.openOn, caller?]
  planned t plan h := by simp [Requests.openOn, Backend.openOn] at h

/-- Nobody who is still to proceed shows the change of the pool, and no task is new. -/
structure Kept (r : Requests σ) (p : Pool Signature (Classified Json)) : Prop where
  known : ∀ w, r.backend.pool.coalescer.registry.Knows w → p.coalescer.registry.Knows w
  waiting : ∀ n c, r.caller? n = some c → c.progress = .registered → c.waiter ∈ p.coalescer.waiters
  pending : ∀ n c e, r.caller? n = some c → c.progress = .registered → c.registration.exchange = some e →
    p.isUnassigned e
  exchange? : ∀ t e, p.exchange? t = some e → r.backend.pool.exchange? t = some e

/-- An event of the pool that starts nothing and touches nobody who is still to proceed. -/
def Spares (r : Requests σ) : Pool.Event Signature (Classified Json) → Prop
  | .register _ | .dispatch _ _ | .drop _ | .schedule _ => False
  | .leave w | .take w => ∀ n c, r.caller? n = some c → c.progress = .registered → c.waiter ≠ w
  | .expedite _ | .poll _ | .expire _ | .finish _ _ | .stop _ => True

theorem kept (h : r.Sound) : Kept r r.backend.pool :=
  ⟨fun _ hw => hw, h.waiting, h.pending, fun _ _ he => he⟩

theorem kept_of_spares (h : r.Sound) {m : Pool.Event Signature (Classified Json)} (hm : Spares r m) :
    Kept r (r.backend.pool.step m) where
  known w hw := Pool.knows_step h.backend.pool hw m
  waiting n c hc hp := by
    refine Pool.mem_waiters_step h.backend.pool (h.waiting n c hc hp) ?_ ?_ <;> rintro rfl <;> exact hm n c hc hp rfl
  pending n c e hc hp he := by
    refine Pool.isUnassigned_step h.backend.pool (h.pending n c e hc hp he) ?_ ?_
    · rintro delay rfl
      exact hm
    · rintro rfl
      exact hm
  exchange? t e he := by
    rcases Pool.get?_step (Pool.exchange?_eq_some.1 he) with hold | ⟨-, ⟨e', delay', rfl, -⟩ | ⟨delay', rfl⟩⟩
    · exact Pool.exchange?_eq_some.2 hold
    · exact absurd hm id
    · exact absurd hm id

theorem of_kept (h : r.Sound) {b : Backend σ} (hk : Kept r b.pool) (hb : b.Coherent)
    (hplans : b.plans = r.backend.plans) (hcaching : b.caching = r.backend.caching)
    (results : Table Nat (Classified Json)) : Sound { r with backend := b, results } where
  toHanded := h.toHanded.of_same hk.known fun _ c hc => ⟨c, hc, rfl, rfl⟩
  backend := hb
  waiting := hk.waiting
  pending := hk.pending
  launched n c t delay hc hp := by
    obtain ⟨hfirst, hplan, hex⟩ := h.launched n c t delay hc hp
    refine ⟨hfirst, ?_, fun e he => hex e (hk.exchange? t e he)⟩
    show b.plans.get? t = some (c.plan b.caching)
    rw [hplans, hcaching, hplan]
  planned t plan hp := by
    change b.plans.get? t = some plan at hp
    show ∃ n c delay, r.caller? n = some c ∧ c.progress = .launched t delay ∧ plan = c.plan b.caching
    rw [hplans] at hp
    rw [hcaching]
    exact h.planned t plan hp

theorem arrive (h : r.Sound) (ask : Ask) : (r.arrive ask).Sound where
  toHanded := h.toHanded.arrive h.backend.pool ask
  backend := h.backend.of_move (m := .register ask.signature) (by simp) (by simp) r.backend.cache r.backend.store
  waiting n c hc hp := by
    rcases caller?_arrive hc with hc | ⟨-, rfl⟩
    · exact List.mem_append_left _ (h.waiting n c hc hp)
    · exact List.mem_append_right _ (List.mem_singleton_self _)
  pending n c e hc hp he := by
    have hpool := h.backend.pool
    rcases caller?_arrive hc with hc | ⟨-, rfl⟩
    · exact Pool.isUnassigned_step (m := .register ask.signature) hpool (h.pending n c e hc hp he) (by simp) (by simp)
    · refine (Pool.isUnassigned_iff (hpool.register ask.signature).toStaged).2 ⟨?_, fun t ht => ?_⟩
      · exact List.mem_append_right _ (Option.mem_toList.2 he)
      · exact hpool.coalescer.exchange_not_mem he (hpool.mem_exchanges ht)
  launched n c t delay hc hp := by
    rcases caller?_arrive hc with hc | ⟨-, rfl⟩
    · exact h.launched n c t delay hc hp
    · cases hp
  planned t plan hp := by
    obtain ⟨n, c, delay, hc, hlaunched, hplan⟩ := h.planned t plan hp
    exact ⟨n, c, delay, caller?_arrive_of_some hc ask, hlaunched, hplan⟩

/-! #### A caller proceeds -/

theorem set (h : r.Sound) {n : Nat} {c : Caller} (hc : r.caller? n = some c) (hreg : c.progress = .registered)
    {progress : Progress} (hprogress : progress ≠ .registered) {b : Backend σ} (hb : b.Coherent)
    (hcaching : b.caching = r.backend.caching)
    (hknown : ∀ w, r.backend.pool.coalescer.registry.Knows w → b.pool.coalescer.registry.Knows w)
    (hwaiting : ∀ m d, m ≠ n → r.caller? m = some d → d.progress = .registered → d.waiter ∈ b.pool.coalescer.waiters)
    (hpending : ∀ m d e, m ≠ n → r.caller? m = some d → d.progress = .registered →
      d.registration.exchange = some e → b.pool.isUnassigned e)
    (hold : ∀ m d t delay, m ≠ n → r.caller? m = some d → d.progress = .launched t delay →
      b.plans.get? t = r.backend.plans.get? t ∧
        ∀ e, b.pool.exchange? t = some e → r.backend.pool.exchange? t = some e)
    (hnew : ∀ t delay, progress = .launched t delay → c.registration.exchange = some c.exchange ∧
      b.plans.get? t = some (c.plan b.caching) ∧ ∀ e, b.pool.exchange? t = some e → e = c.exchange)
    (hplanned : ∀ t plan, b.plans.get? t = some plan → r.backend.plans.get? t = some plan ∨
      ∃ delay, progress = .launched t delay ∧ plan = c.plan b.caching) :
    Sound { r with backend := b, callers := r.callers.set n { c with progress } } := by
  have hsame : ∀ m d, Requests.caller? ⟨b, r.callers.set n { c with progress }, r.results⟩ m = some d →
      ∃ d₀, r.caller? m = some d₀ ∧ d.ask = d₀.ask ∧ d.registration = d₀.registration := fun m d hd => by
    rcases caller?_set hd with ⟨rfl, rfl⟩ | ⟨-, hd⟩
    · exact ⟨c, hc, rfl, rfl⟩
    · exact ⟨d, hd, rfl, rfl⟩
  refine
    { toHanded := h.toHanded.of_same hknown hsame
      backend := hb
      waiting := fun m d hd hp => ?_
      pending := fun m d e hd hp he => ?_
      launched := fun m d t delay hd hp => ?_
      planned := fun t plan hp => ?_ }
  · rcases caller?_set hd with ⟨rfl, rfl⟩ | ⟨hne, hd⟩
    · exact absurd hp hprogress
    · exact hwaiting m d hne hd hp
  · rcases caller?_set hd with ⟨rfl, rfl⟩ | ⟨hne, hd⟩
    · exact absurd hp hprogress
    · exact hpending m d e hne hd hp he
  · rcases caller?_set hd with ⟨rfl, rfl⟩ | ⟨hne, hd⟩
    · exact hnew t delay hp
    · obtain ⟨hfirst, hplan, hex⟩ := h.launched m d t delay hd hp
      obtain ⟨hplans, hback⟩ := hold m d t delay hne hd hp
      refine ⟨hfirst, ?_, fun e he => hex e (hback e he)⟩
      show b.plans.get? t = some (d.plan b.caching)
      rw [hplans, hplan, hcaching]
  · rcases hplanned t plan hp with hp | ⟨delay, hlaunched, hplan⟩
    · obtain ⟨m, d, delay, hd, hlaunched, hplan⟩ := h.planned t plan hp
      have hne : m ≠ n := fun heq => by
        subst heq
        cases hc.symm.trans hd
        cases hreg.symm.trans hlaunched
      refine ⟨m, d, delay, (caller?_set_of_ne hne b _ r.results).trans hd, hlaunched, ?_⟩
      rw [hplan]
      show d.plan r.backend.caching = d.plan b.caching
      rw [hcaching]
    · exact ⟨n, _, delay, caller?_set_self hc b _ r.results, hlaunched, hplan⟩

theorem join (h : r.Sound) {n : Nat} {c : Caller} (hc : r.caller? n = some c) (hreg : c.progress = .registered) :
    Sound { r with callers := r.callers.set n { c with progress := .joined } } :=
  h.set hc hreg (by simp) h.backend rfl (fun _ hw => hw) (fun m d _ => h.waiting m d) (fun m d e _ => h.pending m d e)
    (fun _ _ _ _ _ _ _ => ⟨rfl, fun _ he => he⟩) (fun _ _ hp => by cases hp) fun _ _ hp => .inl hp

theorem launch (h : r.Sound) {n : Nat} {c : Caller} {e : Exchange Signature} (hc : r.caller? n = some c)
    (hreg : c.progress = .registered) (he : c.registration.exchange = some e) (draw delay : Nat) :
    Sound { r with
      backend := r.backend.launch e c.ask.useCache c.ask.delay draw
      callers := r.callers.set n { c with progress := .launched r.backend.pool.nextTask delay } } := by
  have hu := h.pending n c e hc hreg he
  have hpool := h.backend.pool
  obtain rfl := h.first n c e hc he
  have hplan : ∀ t, (r.backend.launch c.exchange c.ask.useCache c.ask.delay draw).plans.get? t =
      if r.backend.pool.nextTask = t then some (c.plan r.backend.caching) else r.backend.plans.get? t := fun t => by
    rw [Backend.plans_launch hu, Table.get?_put, Caller.plan, ← h.key n c hc]
    rfl
  have hex : ∀ t e, (r.backend.launch c.exchange c.ask.useCache c.ask.delay draw).pool.exchange? t = some e →
      r.backend.pool.exchange? t = some e ∨ t = r.backend.pool.nextTask ∧ e = c.exchange := fun t e he => by
    rcases Pool.get?_step (m := .dispatch c.exchange (c.ask.delay.sample r.backend.limits draw))
      (Pool.exchange?_eq_some.1 he) with hold | ⟨ht, ⟨e', delay', hm, -, hx⟩ | ⟨delay', hm⟩⟩
    · exact .inl (Pool.exchange?_eq_some.2 hold)
    · cases hm
      exact .inr ⟨ht, Option.some.inj hx⟩
    · cases hm
  -- what the others launched has a task already, so the new task and its plan are not theirs
  have hlt : ∀ m d t delay, r.caller? m = some d → d.progress = .launched t delay → t ≠ r.backend.pool.nextTask :=
    fun m d t delay hd hp => Nat.ne_of_lt (h.backend.plan_lt t _ (h.launched m d t delay hd hp).2.1)
  refine h.set hc hreg (by simp) (h.backend.launch _ _ _ _) rfl
    (fun w hw => Pool.knows_step (m := .dispatch c.exchange _) hpool hw)
    (fun m d _ hd hp =>
      Pool.mem_waiters_step (m := .dispatch c.exchange _) hpool (h.waiting m d hd hp) (by simp) (by simp))
    (fun m d e hne hd hp hde => ?_) (fun m d t delay _ hd hp => ⟨?_, fun e he => ?_⟩) (fun t delay' hp => ?_)
    fun t plan hp => ?_
  · refine Pool.isUnassigned_step (m := .dispatch c.exchange _) hpool (h.pending m d e hd hp hde) (fun delay heq => ?_)
      (by simp)
    cases heq
    exact hne (h.firsts_apart m n d c _ hd hc hde he)
  · rw [hplan, if_neg (Ne.symm (hlt m d t delay hd hp))]
  · exact (hex t e he).resolve_right fun hnew => hlt m d t delay hd hp hnew.1
  · cases hp
    refine ⟨he, (hplan _).trans (if_pos rfl), fun e' he' => ?_⟩
    rcases hex _ e' he' with hold | ⟨-, rfl⟩
    · exact absurd (hpool.task_lt _ (Pool.mem_keys_of_exchange? hold)) (Nat.lt_irrefl _)
    · rfl
  · rw [hplan] at hp
    split at hp
    · next ht => exact .inr ⟨delay, by rw [ht], (Option.some.inj hp).symm⟩
    · exact .inl hp

/-! #### Any event -/

theorem proceed (h : r.Sound) (n draw : Nat) : (r.proceed n draw).Sound := by
  rcases r.proceed_cases n draw with heq | ⟨c, hc, hreg, ⟨e, he, heq⟩ | ⟨-, heq⟩⟩ <;> rw [heq]
  · exact h
  · exact h.launch hc hreg he draw _
  · by_cases hurgent : c.ask.delay = .immediate
    · have hk := h.kept_of_spares (m := .expedite c.waiter) trivial
      have hb := h.backend.of_move (m := .expedite c.waiter) (by simp) (by simp) r.backend.cache r.backend.store
      rw [if_pos hurgent]
      exact (h.of_kept (b := r.backend.expedite c.waiter) hk hb rfl rfl r.results).join hc hreg
    · rw [if_neg hurgent]
      exact h.join hc hreg

theorem spares_waiter (h : r.Sound) {n : Nat} {c : Caller} (hc : r.waiting? n = some c) :
    ∀ m d, r.caller? m = some d → d.progress = .registered → d.waiter ≠ c.waiter := by
  obtain ⟨hc, hp⟩ := waiting?_eq_some hc
  intro m d hd hreg heq
  cases h.apart m n d c hd hc heq
  cases hc.symm.trans hd
  exact hp hreg

theorem exchange?_of_launched (h : r.Sound) {n t delay : Nat} {c : Caller} (hc : r.caller? n = some c)
    (hp : c.progress = .launched t delay) (hlive : r.backend.pool.tasks.get? t ≠ none) :
    r.backend.pool.exchange? t = some c.exchange := by
  obtain ⟨x, hx⟩ := Option.ne_none_iff_exists'.1 hlive
  cases x with
  | none => exact absurd hx (h.backend.owned t)
  | some e =>
    have he := Pool.exchange?_eq_some.2 hx
    rw [he, (h.launched n c t delay hc hp).2.2 e he]

variable [KeyValueStore σ]

theorem step (h : r.Sound) (event : Event) : (r.step event).Sound := by
  cases event with
  | arrive ask => exact h.arrive ask
  | proceed n draw => exact h.proceed n draw
  | leave n =>
    show (r.leave n).Sound
    unfold Requests.leave
    split
    · next c hc =>
      have hk := h.kept_of_spares (m := .leave c.waiter) (h.spares_waiter hc)
      exact h.of_kept hk (h.backend.step (.leave c.waiter)) rfl rfl r.results
    · exact h
  | take n =>
    show (r.take n).Sound
    unfold Requests.take
    split
    · next c hc =>
      have hk := h.kept_of_spares (m := .take c.waiter) (h.spares_waiter hc)
      exact h.of_kept hk (h.backend.step (.take c.waiter)) rfl rfl _
    · exact h
  | poll t =>
    have hk := h.kept_of_spares (m := .poll t) trivial
    obtain ⟨hpool, hplans, hcaching⟩ := r.backend.poll_frame t
    exact h.of_kept (hpool.symm ▸ hk) (h.backend.step (.poll t)) hplans hcaching r.results
  | expire t =>
    exact h.of_kept (h.kept_of_spares (m := .expire t) trivial) (h.backend.step (.expire t)) rfl rfl r.results
  | answer now t outcome =>
    obtain ⟨hpool, hplans, hcaching⟩ := r.backend.answer_frame now t outcome
    have hk : Kept r (r.backend.answer now t outcome).pool := by
      rcases hpool with hpool | ⟨result, hpool⟩ <;> rw [hpool]
      · exact h.kept
      · exact h.kept_of_spares (m := .finish t result) trivial
    exact h.of_kept hk (h.backend.step (.answer now t outcome)) hplans hcaching r.results
  | fail t =>
    exact h.of_kept (h.kept_of_spares (m := .stop t) trivial) (h.backend.step (.fail t)) rfl rfl r.results
  | invalidate s =>
    exact h.of_kept (b := r.backend.invalidate s) h.kept (h.backend.step (.invalidate s)) rfl rfl r.results
  | clear => exact h.of_kept (b := r.backend.clear) h.kept (h.backend.step .clear) rfl rfl r.results

theorem run (h : r.Sound) (events : List Event) : (r.run events).Sound := by
  induction events generalizing r with
  | nil => exact h
  | cons event rest ih => exact ih (h.step event)

end Sound

end Requests

end Entitle
