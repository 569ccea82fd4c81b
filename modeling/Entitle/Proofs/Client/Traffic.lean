import Entitle.Client.Traffic
import Entitle.Proofs.SingleFlight

/-!
# Calls over time

What an event of a client in use does to its backend is a list of events of the backend (`Traffic.moves`), but for
the store, which the ledger writes as well. Who gets what does not depend on the store. So a call that waits is in
the operation of its exchange or has what ended that exchange, as long as no other call has the same place
(`Traffic.Sound`).
-/

namespace Entitle

open Flight

theorem Backend.Coherent.withStore {σ : Type} {b : Backend σ} (h : b.Coherent) (store : σ) :
    Coherent { b with store } :=
  ⟨h.pool, h.owned, h.planned, h.plan_lt, h.sent_plan⟩

/-! ### Moves of the backend -/

namespace Stage
variable {σ : Type} [KeyValueStore σ]

theorem advance_waiting (p : Pending) (draw : Nat) (c : Client σ) :
    (waiting p).advance draw c =
      (match (c.backend.take p.waiter).1 with
        | some shared => .served p shared
        | none => .waiting p,
      { c with backend := (c.backend.take p.waiter).2 }) := by
  simp only [advance]
  cases (c.backend.take p.waiter).1 <;> rfl

/-- What the next step of a call does to the backend. -/
def moves (draw : Nat) : Stage → List Backend.Event
  | .prepared q => [.enter q.signature q.delay]
  | .launching p e => [.launch e p.useCache p.delay draw]
  | .waiting p => [.take p.waiter]
  | _ => []

theorem backend_advance (stage : Stage) (draw : Nat) (c : Client σ) :
    ∃ store, (stage.advance draw c).2.backend = { c.backend.run (stage.moves draw) with store } := by
  cases stage with
  | prepared q => exact ⟨(c.backend.enter q.signature q.delay).2.store, rfl⟩
  | launching p e => exact ⟨(c.backend.launch e p.useCache p.delay draw).store, rfl⟩
  | waiting p =>
    rw [advance_waiting]
    exact ⟨(c.backend.take p.waiter).2.store, rfl⟩
  | served p shared =>
    simp only [advance, Client.finish, moves]
    split
    · simp only
      split
      · exact ⟨_, rfl⟩
      · exact ⟨c.backend.store, rfl⟩
    · exact ⟨c.backend.store, rfl⟩
  | ended reply => exact ⟨c.backend.store, rfl⟩
  | cancelled => exact ⟨c.backend.store, rfl⟩

/-! ### What a stage holds -/

/-- What a call asks for, until it ends. -/
def inquiry? : Stage → Option Inquiry
  | .prepared q => some q
  | .launching p _ => some p.toInquiry
  | .waiting p => some p.toInquiry
  | .served p _ => some p.toInquiry
  | _ => none

/-- The waiter of a call that has not got its result. -/
def place? : Stage → Option (Waiter Signature)
  | .launching p _ => some p.waiter
  | .waiting p => some p.waiter
  | _ => none

theorem place?_advance {stage : Stage} {draw : Nat} {c : Client σ} {w : Waiter Signature}
    (h : (stage.advance draw c).1.place? = some w) :
    stage.place? = some w ∨ ∃ q, stage = .prepared q ∧ w = (c.backend.enter q.signature q.delay).1.waiter := by
  cases stage with
  | prepared q =>
    simp only [advance, ofRegistration] at h
    split at h <;> exact .inr ⟨q, rfl, (Option.some.inj h).symm⟩
  | launching p e => exact .inl h
  | waiting p =>
    rw [advance_waiting] at h
    cases hr : (c.backend.take p.waiter).1 with
    | none => simp only [hr] at h; exact .inl h
    | some shared => simp only [hr] at h; cases h
  | served p shared => cases h
  | ended reply => cases h
  | cancelled => cases h

end Stage

namespace Traffic
variable {σ : Type} [KeyValueStore σ] {g : Traffic σ} {w : Waiter Signature}

/-- What an event does to the backend. -/
def moves (g : Traffic σ) : Event → List Backend.Event
  | .advance i draw => (g.calls[i]?.map (·.moves draw)).getD []
  | .cancel i => match g.calls[i]? with
    | some (.waiting p) => [.leave p.waiter]
    | _ => []
  | .poll task => [.poll task]
  | .expire task => [.expire task]
  | .answer now task outcome => [.answer now task outcome]
  | .fail task => [.fail task]
  | .invalidateCustomer user =>
    [.invalidate (Endpoint.customerInfo user), .invalidate (Endpoint.offerings user)]
  | .clearCaches => [.clear]
  | _ => []

theorem backend_step (g : Traffic σ) (event : Event) :
    ∃ store, (g.step event).client.backend = { g.client.backend.run (g.moves event) with store } := by
  cases event with
  | advance i draw =>
    simp only [step, advance, moves]
    cases g.calls[i]? with
    | none => exact ⟨g.client.backend.store, rfl⟩
    | some stage => exact stage.backend_advance draw g.client
  | cancel i =>
    simp only [step, cancel, moves]
    cases g.calls[i]? with
    | none => exact ⟨g.client.backend.store, rfl⟩
    | some stage => cases stage <;> exact ⟨g.client.backend.store, rfl⟩
  | poll task => exact ⟨(g.client.backend.poll task).store, rfl⟩
  | expire task => exact ⟨(g.client.backend.expire task).store, rfl⟩
  | answer now task outcome => exact ⟨(g.client.backend.answer now task outcome).store, rfl⟩
  | fail task => exact ⟨(g.client.backend.fail task).store, rfl⟩
  | invalidateCustomer user => exact ⟨(g.client.invalidateCustomer user).backend.store, rfl⟩
  | clearCaches => exact ⟨g.client.backend.clear.store, rfl⟩
  | begin call => exact ⟨g.client.backend.store, rfl⟩
  | mark ids => exact ⟨(g.client.markSynced ids).2.backend.store, rfl⟩
  | reset => exact ⟨g.client.resetLedger.2.backend.store, rfl⟩

theorem step_advance {i : Nat} {stage : Stage} (h : g.calls[i]? = some stage) (draw : Nat) :
    g.step (.advance i draw) =
      { client := (stage.advance draw g.client).2, calls := g.calls.set i (stage.advance draw g.client).1 } := by
  simp only [step, advance, h]

theorem calls_step_advance {i : Nat} {stage : Stage} (h : g.calls[i]? = some stage) (draw : Nat) :
    (g.step (.advance i draw)).calls[i]? = some (stage.advance draw g.client).1 := by
  rw [step_advance h]
  exact List.getElem?_set_self (List.getElem?_eq_some_iff.1 h).1

theorem run_append (g : Traffic σ) (s t : List Event) : g.run (s ++ t) = (g.run s).run t :=
  List.foldl_append

theorem run_concat (g : Traffic σ) (s : List Event) (event : Event) : g.run (s ++ [event]) = (g.run s).step event :=
  g.run_append s [event]

theorem coherent_step (h : g.client.backend.Coherent) (event : Event) : (g.step event).client.backend.Coherent := by
  obtain ⟨store, hb⟩ := g.backend_step event
  rw [hb]
  exact (h.run (g.moves event)).withStore store

omit [KeyValueStore σ] in
/-- A move is that of a call, or it moves no caller and launches nothing. -/
theorem of_mem_moves {event : Event} {m : Backend.Event} (h : m ∈ g.moves event) :
    (∃ i draw stage, event = .advance i draw ∧ g.calls[i]? = some stage ∧ m ∈ stage.moves draw) ∨
      (∃ i p, event = .cancel i ∧ g.calls[i]? = some (.waiting p) ∧ m = .leave p.waiter) ∨
      (∀ w, m ≠ .leave w) ∧ (∀ w, m ≠ .take w) ∧ ∀ e useCache delay draw, m ≠ .launch e useCache delay draw := by
  cases event with
  | advance i draw =>
    simp only [moves] at h
    cases hi : g.calls[i]? with
    | none => rw [hi] at h; cases h
    | some stage => rw [hi] at h; exact .inl ⟨i, draw, stage, rfl, hi, h⟩
  | cancel i =>
    simp only [moves] at h
    split at h
    · next p hi => exact .inr (.inl ⟨i, p, rfl, hi, List.mem_singleton.1 h⟩)
    · cases h
  | invalidateCustomer user =>
    refine .inr (.inr ?_)
    rcases List.mem_cons.1 h with rfl | h
    · simp
    · cases List.mem_singleton.1 h
      simp
  | begin call => cases h
  | mark ids => cases h
  | reset => cases h
  | _ =>
    cases List.mem_singleton.1 h
    exact .inr (.inr (by simp))

omit [KeyValueStore σ] in
theorem eq_cancel_of_leave {event : Event} (h : .leave w ∈ g.moves event) :
    ∃ i p, event = .cancel i ∧ g.calls[i]? = some (.waiting p) ∧ p.waiter = w := by
  rcases of_mem_moves h with ⟨i, draw, stage, -, -, hm⟩ | ⟨i, p, rfl, hi, hm⟩ | ⟨hleave, -⟩
  · cases stage <;> simp [Stage.moves] at hm
  · cases hm
    exact ⟨i, p, rfl, hi, rfl⟩
  · exact absurd rfl (hleave w)

omit [KeyValueStore σ] in
theorem eq_advance_of_take {event : Event} (h : .take w ∈ g.moves event) :
    ∃ i draw p, event = .advance i draw ∧ g.calls[i]? = some (.waiting p) ∧ p.waiter = w := by
  rcases of_mem_moves h with ⟨i, draw, stage, rfl, hi, hm⟩ | ⟨i, p, -, -, hm⟩ | ⟨-, htake, -⟩
  · cases stage with
    | waiting p =>
      cases List.mem_singleton.1 hm
      exact ⟨i, draw, p, rfl, hi, rfl⟩
    | _ => simp [Stage.moves] at hm
  · cases hm
  · exact absurd rfl (htake w)

omit [KeyValueStore σ] in
theorem eq_advance_of_launch {event : Event} {e : Exchange Signature} {useCache : Bool} {delay : DelayClass}
    {draw : Nat} (h : .launch e useCache delay draw ∈ g.moves event) :
    ∃ i p, event = .advance i draw ∧ g.calls[i]? = some (.launching p e) ∧ p.useCache = useCache := by
  rcases of_mem_moves h with ⟨i, draw', stage, rfl, hi, hm⟩ | ⟨i, p, -, -, hm⟩ | ⟨-, -, hlaunch⟩
  · cases stage with
    | launching p e' =>
      cases List.mem_singleton.1 hm
      exact ⟨i, p, rfl, hi, rfl⟩
    | _ => simp [Stage.moves] at hm
  · cases hm
  · exact absurd rfl (hlaunch e useCache delay draw)

theorem ends?_of_moves {event : Event} {e : Exchange Signature} {d : Delivery (Classified Json)}
    (h : Backend.ending? e g.client.backend (g.moves event) = some d) :
    (∃ now task outcome, event = .answer now task outcome ∧
      g.client.backend.ends? e (.answer now task outcome) = some d) ∨ ∃ task, event = .fail task ∧ d = .abandoned := by
  cases event with
  | advance i draw =>
    simp only [moves] at h
    cases hi : g.calls[i]? with
    | none => rw [hi] at h; cases h
    | some stage => rw [hi] at h; cases stage <;> cases h
  | cancel i =>
    simp only [moves] at h
    split at h <;> cases h
  | answer now task outcome =>
    rw [moves, Backend.ending?, Backend.ending?, Option.or_none] at h
    exact .inl ⟨now, task, outcome, rfl, h⟩
  | fail task =>
    rw [moves, Backend.ending?, Backend.ending?, Option.or_none, Backend.ends?] at h
    split at h
    · cases h
      exact .inr ⟨task, rfl, rfl⟩
    · cases h
  | _ => cases h

/-! ### Stages over time -/

/-- A call stays at its stage, or it begins, makes its next step or is cancelled. -/
theorem calls_step {event : Event} {i : Nat} {stage : Stage} (h : (g.step event).calls[i]? = some stage) :
    g.calls[i]? = some stage ∧ (∀ draw, event ≠ .advance i draw) ∧ (event = .cancel i → ∀ p, stage ≠ .waiting p) ∨
      (∃ call, event = .begin call ∧ i = g.calls.length ∧ stage = .ofPrepared (call.prepare g.client.ledger)) ∨
      (∃ draw old, event = .advance i draw ∧ g.calls[i]? = some old ∧ stage = (old.advance draw g.client).1) ∨
      event = .cancel i ∧ stage = .cancelled := by
  cases event with
  | begin call =>
    change (g.calls ++ [_])[i]? = some stage at h
    rw [List.getElem?_append] at h
    split at h
    · exact .inl ⟨h, by simp, by simp⟩
    · next hge =>
      obtain ⟨hi, hs⟩ := List.getElem?_eq_some_iff.1 h
      have hi : i = g.calls.length := by simp at hi; omega
      subst hi
      exact .inr (.inl ⟨call, rfl, rfl, by simpa [eq_comm] using h⟩)
  | advance j draw =>
    simp only [step, advance] at h
    cases hj : g.calls[j]? with
    | none =>
      rw [hj] at h
      refine .inl ⟨h, fun draw' heq => ?_, by simp⟩
      cases heq
      cases hj.symm.trans h
    | some old =>
      simp only [hj, List.getElem?_set] at h
      split at h
      · next hij =>
        subst hij
        split at h
        · exact .inr (.inr (.inl ⟨draw, old, rfl, hj, (Option.some.inj h).symm⟩))
        · cases h
      · next hij => exact .inl ⟨h, fun draw' heq => hij (by cases heq; rfl), by simp⟩
  | cancel j =>
    simp only [step, cancel] at h
    split at h
    · next p hp =>
      rw [List.getElem?_set] at h
      split at h
      · next hij =>
        subst hij
        split at h
        · exact .inr (.inr (.inr ⟨rfl, (Option.some.inj h).symm⟩))
        · cases h
      · next hij => exact .inl ⟨h, by simp, fun heq => absurd (by cases heq; rfl) hij⟩
    · next hp =>
      refine .inl ⟨h, by simp, fun heq p hs => ?_⟩
      cases heq
      exact hp p (hs ▸ h)
  | _ => exact .inl ⟨h, by simp, by simp⟩

/-- The waiter of the call at an index, as long as it has not got its result. -/
def place? (g : Traffic σ) (i : Nat) : Option (Waiter Signature) :=
  g.calls[i]?.bind Stage.place?

theorem place?_step {event : Event} {i : Nat} (h : (g.step event).place? i = some w) :
    g.place? i = some w ∨ ∃ draw q, event = .advance i draw ∧ g.calls[i]? = some (.prepared q) ∧
      w = (g.client.backend.enter q.signature q.delay).1.waiter := by
  obtain ⟨stage, hstage, hw⟩ := Option.bind_eq_some_iff.1 h
  rcases calls_step hstage with ⟨hold, -⟩ | ⟨call, -, -, rfl⟩ | ⟨draw, old, rfl, hold, rfl⟩ | ⟨-, rfl⟩
  · exact .inl (Option.bind_eq_some_iff.2 ⟨stage, hold, hw⟩)
  · cases hp : call.prepare g.client.ledger <;> rw [hp] at hw <;> cases hw
  · rcases Stage.place?_advance hw with hw | ⟨q, rfl, rfl⟩
    · exact .inl (Option.bind_eq_some_iff.2 ⟨old, hold, hw⟩)
    · exact .inr ⟨draw, q, rfl, hold, rfl⟩
  · cases hw

/-- No two calls have one place. -/
structure Placed (g : Traffic σ) : Prop where
  known : ∀ i w, g.place? i = some w → g.client.backend.pool.coalescer.registry.Knows w
  apart : ∀ i j w, g.place? i = some w → g.place? j = some w → i = j

theorem knows_step (h : g.client.backend.Coherent) (hw : g.client.backend.pool.coalescer.registry.Knows w)
    (event : Event) : (g.step event).client.backend.pool.coalescer.registry.Knows w := by
  obtain ⟨store, hb⟩ := g.backend_step event
  rw [hb]
  exact Backend.knows_run h hw (g.moves event)

theorem waiting_advance (h : g.client.backend.Coherent) {i draw : Nat} {q : Inquiry}
    (hi : g.calls[i]? = some (.prepared q)) :
    (g.step (.advance i draw)).client.backend.pool.coalescer.Waiting
      (g.client.backend.enter q.signature q.delay).1.waiter := by
  rw [step_advance hi]
  exact Backend.waiting_enter h q.signature q.delay

theorem Placed.step (hg : g.Placed) (h : g.client.backend.Coherent) (event : Event) : (g.step event).Placed := by
  refine ⟨fun i w hi => ?_, fun i j w hi hj => ?_⟩
  · rcases place?_step hi with hold | ⟨draw, q, rfl, hq, rfl⟩
    · exact knows_step h (hg.known i w hold) event
    · exact (coherent_step h _).pool.coalescer.registry.knows_of_mem_audience (waiting_advance h hq)
  · -- a waiter that is handed out is not that of another call
    rcases place?_step hi with hiold | ⟨draw, q, rfl, -, rfl⟩
    · rcases place?_step hj with hjold | ⟨draw, q, rfl, -, rfl⟩
      · exact hg.apart i j w hiold hjold
      · exact absurd (hg.known i _ hiold) (Registry.not_knows_register q.signature)
    · rcases place?_step hj with hjold | ⟨draw', q', heq, -, -⟩
      · exact absurd (hg.known j _ hjold) (Registry.not_knows_register q.signature)
      · cases heq
        rfl

/-! ### Soundness -/

variable {start : Traffic σ} {events : List Event} {i : Nat} {q : Inquiry} {e : Exchange Signature}
  {d : Delivery (Classified Json)}

/-- The call at an index began in the run, and found out what to ask for. -/
def Asked (start : Traffic σ) (events : List Event) (i : Nat) (q : Inquiry) : Prop :=
  ∃ before call mid, events = before ++ .begin call :: mid ∧ (start.run before).calls.length = i ∧
    call.prepare (start.run before).client.ledger = .inquiry q

/-- An event of the run ended the exchange. -/
def Ended (start : Traffic σ) (events : List Event) (e : Exchange Signature) (d : Delivery (Classified Json)) : Prop :=
  ∃ before event mid, events = before ++ event :: mid ∧
    Backend.ending? e (start.run before).client.backend ((start.run before).moves event) = some d

/-- The waiter is in the operation of its exchange, or has what ended it in the run. -/
def Holds (start : Traffic σ) (events : List Event) (w : Waiter Signature) : Prop :=
  (start.run events).client.backend.pool.coalescer.Waiting w ∨
    ∃ d, (start.run events).client.backend.pool.coalescer.Resolved w d ∧ start.Ended events w.exchange d

theorem Asked.concat (h : start.Asked events i q) (event : Event) : start.Asked (events ++ [event]) i q := by
  obtain ⟨before, call, mid, rfl, hi, hq⟩ := h
  exact ⟨before, call, mid ++ [event], by simp, hi, hq⟩

theorem Ended.concat (h : start.Ended events e d) (event : Event) : start.Ended (events ++ [event]) e d := by
  obtain ⟨before, last, mid, rfl, hd⟩ := h
  exact ⟨before, last, mid ++ [event], by simp, hd⟩

/-- A waiter keeps what it holds, unless it leaves or takes its result. -/
theorem Holds.concat (h : (start.run events).client.backend.Coherent) (hw : start.Holds events w) {event : Event}
    (hl : .leave w ∉ (start.run events).moves event)
    (ht : .take w ∈ (start.run events).moves event → ((start.run events).client.backend.take w).1 = none) :
    start.Holds (events ++ [event]) w := by
  obtain ⟨store, hb⟩ := (start.run events).backend_step event
  unfold Holds
  rw [run_concat, hb]
  rcases hw with hw | ⟨d, hd, hend⟩
  · cases hx : Backend.ending? w.exchange (start.run events).client.backend ((start.run events).moves event) with
    | none => exact .inl (Backend.waiting_run h hw hl hx)
    | some d =>
      refine .inr ⟨d, Backend.resolved_run h hw hl (fun hmem => ?_) hx, events, event, [], rfl, hx⟩
      obtain ⟨i, draw, p, rfl, -⟩ := eq_advance_of_take hmem
      rcases ends?_of_moves hx with ⟨_, _, _, heq, -⟩ | ⟨_, heq, -⟩ <;> cases heq
  · refine .inr ⟨d, Backend.resolved_stays h hd hl fun hmem => ?_, hend.concat event⟩
    have hnone := ht hmem
    rw [Backend.take_fst, hd.take] at hnone
    cases hnone

end Traffic

/-- What is true of the call at an index after a run, at each stage. -/
def Stage.Sound {σ : Type} [KeyValueStore σ] (start : Traffic σ) (events : List Traffic.Event) (i : Nat) : Stage → Prop
  | .prepared q => start.Asked events i q
  | .launching p e =>
    start.Asked events i p.toInquiry ∧ p.waiter.key = p.signature ∧ start.Holds events p.waiter ∧ e = p.waiter.exchange
  | .waiting p => start.Asked events i p.toInquiry ∧ p.waiter.key = p.signature ∧ start.Holds events p.waiter
  | .served p shared => start.Asked events i p.toInquiry ∧ p.waiter.key = p.signature ∧
    ∃ d, start.Ended events p.waiter.exchange d ∧ shared = Backend.resultOf d
  | _ => True

namespace Traffic
variable {σ : Type} [KeyValueStore σ] {start : Traffic σ} {events : List Event} {i : Nat}

/-- What is true after a run. A plan that uses the cache is that of a call which asked for it. -/
structure Sound (start : Traffic σ) (events : List Event) : Prop where
  coherent : (start.run events).client.backend.Coherent
  placed : (start.run events).Placed
  calls : ∀ i (stage : Stage), (start.run events).calls[i]? = some stage → stage.Sound start events i
  plans : ∀ t plan, (start.run events).client.backend.plans.get? t = some plan → plan.useCache →
    ∃ i q, start.Asked events i q ∧ q.signature = plan.signature ∧ q.useCache

namespace Sound

theorem openOn (store : σ) (caching : Bool) (limits : Limits) : (openOn store caching limits).Sound [] where
  coherent := .openOn _ caching limits
  placed := ⟨fun i w h => (by cases h), fun i j w h => (by cases h)⟩
  calls i stage h := by cases h
  plans t plan h := by cases h

/-- The next step of a call takes it from a sound stage to a sound stage. -/
theorem advance (h : start.Sound events) {old : Stage} (hi : (start.run events).calls[i]? = some old) (draw : Nat) :
    (old.advance draw (start.run events).client).1.Sound start (events ++ [.advance i draw]) i := by
  have hold := h.calls i old hi
  have hmoves : (start.run events).moves (.advance i draw) = old.moves draw := by simp [moves, hi]
  cases old with
  | prepared q =>
    have hasked := hold.concat (.advance i draw)
    have hkey := Registry.register_key (r := (start.run events).client.backend.pool.coalescer.registry) q.signature
    have hholds : start.Holds (events ++ [.advance i draw])
        ((start.run events).client.backend.enter q.signature q.delay).1.waiter :=
      .inl (by rw [run_concat]; exact waiting_advance h.coherent hi)
    simp only [Stage.advance, Stage.ofRegistration]
    split
    · next e he => exact ⟨hasked, hkey, hholds, Coalescer.register_exchange he⟩
    · exact ⟨hasked, hkey, hholds⟩
  | launching p e =>
    obtain ⟨hasked, hkey, hholds, -⟩ := hold
    refine ⟨hasked.concat _, hkey, hholds.concat h.coherent ?_ ?_⟩ <;> simp [hmoves, Stage.moves]
  | waiting p =>
    obtain ⟨hasked, hkey, hholds⟩ := hold
    rw [Stage.advance_waiting]
    cases hr : ((start.run events).client.backend.take p.waiter).1 with
    | none =>
      refine ⟨hasked.concat _, hkey, hholds.concat h.coherent ?_ fun _ => hr⟩
      simp [hmoves, Stage.moves]
    | some shared =>
      rw [Backend.take_fst] at hr
      rcases hholds with hwait | ⟨d, hd, hend⟩
      · rw [h.coherent.pool.coalescer.take_of_waiting hwait] at hr
        cases hr
      · rw [hd.take] at hr
        exact ⟨hasked.concat _, hkey, d, hend.concat _, (Option.some.inj hr).symm⟩
  | served p shared => trivial
  | ended reply => trivial
  | cancelled => trivial

theorem untouched (h : start.Sound events) {stage : Stage} (hi : (start.run events).calls[i]? = some stage)
    {event : Event} (ha : ∀ draw, event ≠ .advance i draw) (hc : event = .cancel i → ∀ p, stage ≠ .waiting p) :
    stage.Sound start (events ++ [event]) i := by
  have hold := h.calls i stage hi
  have hholds : ∀ w, stage.place? = some w → start.Holds events w → start.Holds (events ++ [event]) w := by
    intro w hw hholds
    have hplace : (start.run events).place? i = some w := Option.bind_eq_some_iff.2 ⟨stage, hi, hw⟩
    have hsame : ∀ j p, (start.run events).calls[j]? = some (.waiting p) → p.waiter = w → i = j := fun j p hj hp =>
      h.placed.apart i j w hplace (Option.bind_eq_some_iff.2 ⟨_, hj, congrArg some hp⟩)
    refine hholds.concat h.coherent (fun hmem => ?_) fun hmem => ?_
    · obtain ⟨j, p, rfl, hj, hp⟩ := eq_cancel_of_leave hmem
      cases hsame j p hj hp
      exact hc rfl p (Option.some.inj (hi.symm.trans hj))
    · obtain ⟨j, draw, p, rfl, hj, hp⟩ := eq_advance_of_take hmem
      cases hsame j p hj hp
      exact absurd rfl (ha draw)
  cases stage with
  | prepared q => exact hold.concat event
  | launching p e =>
    obtain ⟨hasked, hkey, hw, he⟩ := hold
    exact ⟨hasked.concat event, hkey, hholds _ rfl hw, he⟩
  | waiting p =>
    obtain ⟨hasked, hkey, hw⟩ := hold
    exact ⟨hasked.concat event, hkey, hholds _ rfl hw⟩
  | served p shared =>
    obtain ⟨hasked, hkey, d, hend, hd⟩ := hold
    exact ⟨hasked.concat event, hkey, d, hend.concat event, hd⟩
  | ended reply => trivial
  | cancelled => trivial

theorem step (h : start.Sound events) (event : Event) : start.Sound (events ++ [event]) := by
  refine ⟨?_, ?_, fun i stage hi => ?_, fun t plan hp huse => ?_⟩
  · rw [run_concat]
    exact coherent_step h.coherent event
  · rw [run_concat]
    exact h.placed.step h.coherent event
  · rw [run_concat] at hi
    rcases calls_step hi with ⟨hold, ha, hc⟩ | ⟨call, rfl, rfl, rfl⟩ | ⟨draw, old, rfl, hold, rfl⟩ | ⟨rfl, rfl⟩
    · exact h.untouched hold ha hc
    · cases hq : call.prepare (start.run events).client.ledger with
      | answered reply => trivial
      | inquiry q => exact ⟨events, call, [], rfl, rfl, hq⟩
    · exact h.advance hold draw
    · trivial
  · obtain ⟨store, hb⟩ := (start.run events).backend_step event
    rw [run_concat, hb] at hp
    rcases Backend.plans_of_run hp with hold | ⟨e, useCache, delay, draw, hmem, hkey, hcache⟩
    · obtain ⟨i, q, hq, hs⟩ := h.plans t plan hold huse
      exact ⟨i, q, hq.concat event, hs⟩
    · obtain ⟨i, p, rfl, hi, rfl⟩ := eq_advance_of_launch hmem
      obtain ⟨hasked, hwaiter, -, rfl⟩ := h.calls i _ hi
      exact ⟨i, p.toInquiry, hasked.concat _, hwaiter.symm.trans hkey.symm, hcache huse⟩

theorem run (store : σ) (caching : Bool) (limits : Limits) (events : List Event) :
    (Traffic.openOn store caching limits).Sound events := by
  induction events using List.reverseRecOn with
  | nil => exact openOn store caching limits
  | append_singleton events event ih => exact ih.step event

end Sound

end Traffic

end Entitle
