import Entitle.Proofs.Backend

/-!
# Single flight

Main statement: `single_flight`. On one backend, whatever happens in whatever order, a signature has one live
exchange and one request on the way, every caller gets what ended the exchange that it started or joined, once
and decoded as it asked, and nothing stays in flight when the exchanges have ended.

The part about callers is that of the coalescer, carried over along the trace: an event ends an exchange
(`Backend.ends?`) if and only if its steps do, as long as someone waits for it.
-/

namespace Entitle

open Flight

namespace Backend
variable {σ : Type} {b : Backend σ} {w : Waiter Signature} {e : Exchange Signature}

/-! ### What a run shows -/

/-- The request of a task that waits for the outcome. -/
def sending? (b : Backend σ) (t : Nat) : Option Request :=
  if b.isSending t then b.sent.get? t else none

/-- An exchange without a task, or a task with the exchange. -/
def isLive (b : Backend σ) (e : Exchange Signature) : Prop :=
  b.pool.isUnassigned e ∨ ∃ t ∈ b.pool.dispatcher.tasks, b.pool.exchange? t = some e

/-- What a caller makes of the shared result. -/
def readAs {α : Type} (decoder : Json.Decoder α) (shared : Classified Json) : Classified α :=
  shared.bind (Classify.decode decoder)

variable [KeyValueStore σ]

/-- What an event delivers to the callers of an exchange, if it ends it: the classified outcome, settled with the
cache if the exchange uses it, or nothing but the end. -/
def ends? (b : Backend σ) (e : Exchange Signature) : Event → Option (Delivery (Classified Json))
  | .answer now t outcome =>
    if b.isSending t ∧ b.pool.exchange? t = some e then
      (b.plans.get? t).map fun plan => .value (Classify.classify (settled now plan outcome b.cache b.store).1)
    else none
  | .fail t => if b.pool.exchange? t = some e then some .abandoned else none
  | _ => none

/-- How an exchange ended in a run. -/
def ending? (e : Exchange Signature) (b : Backend σ) : List Event → Option (Delivery (Classified Json))
  | [] => none
  | event :: rest => (b.ends? e event).or (ending? e (b.step event) rest)

/-- The waiters of the callers in a run. -/
def callers (b : Backend σ) : List Event → List (Waiter Signature)
  | [] => []
  | .enter s delay :: rest => (b.enter s delay).1.waiter :: callers (b.enter s delay).2 rest
  | event :: rest => callers (b.step event) rest

/-- What a caller got in a run. -/
def results (w : Waiter Signature) (b : Backend σ) : List Event → List (Classified Json)
  | [] => []
  | .take v :: rest => (if v = w then (b.take w).1.toList else []) ++ results w (b.take v).2 rest
  | event :: rest => results w (b.step event) rest

/-- What a caller that asks for a type got in a run. -/
def replies {α : Type} (decoder : Json.Decoder α) (w : Waiter Signature) (b : Backend σ) (events : List Event) :
    List (Classified α) :=
  (results w b events).map (readAs decoder)

/-! ### Events and steps -/

omit [KeyValueStore σ] in
theorem take_fst (b : Backend σ) (w : Waiter Signature) :
    (b.take w).1 = (b.pool.coalescer.take w).1.map resultOf := rfl

/-- What ends an exchange, in the steps of an event: what `ends?` says. -/
theorem findSome?_moves {d : Delivery (Classified Json)} {event : Event} (hd : b.ends? e event = some d) :
    (b.pool.traceAll (b.moves event)).findSome? (·.settles? e) = some d := by
  cases event with
  | answer now t outcome =>
    simp only [ends?] at hd
    split at hd
    · next h =>
      obtain ⟨hs, he⟩ := h
      obtain ⟨plan, hp, rfl⟩ := Option.map_eq_some_iff.1 hd
      have hrun : t ∈ b.pool.dispatcher.running := by
        simp only [isSending, Bool.and_eq_true, decide_eq_true_eq] at hs
        exact hs.1
      simp [moves, hs, hp, Pool.traceAll, Pool.trace, hrun, he, Coalescer.Step.settles?]
    · cases hd
  | fail t =>
    simp only [ends?] at hd
    split at hd
    · next he =>
      cases hd
      simp [moves, Pool.traceAll, Pool.trace, he, Coalescer.Step.settles?]
    · cases hd
  | _ => cases hd

theorem findSome?_moves_of_none (h : b.Coherent) (hw : b.pool.coalescer.Waiting w) {event : Event}
    (hl : event ≠ .leave w) (hd : b.ends? w.exchange event = none) :
    (b.pool.traceAll (b.moves event)).findSome? (·.settles? w.exchange) = none := by
  cases event with
  | enter s delay =>
    simp only [moves]
    split <;> simp [Pool.traceAll, Pool.trace, Coalescer.Step.settles?]
  | launch e' useCache delay draw =>
    simp only [moves, Pool.traceAll, Pool.trace, List.append_nil]
    split
    · split
      · next hnil =>
        have hne : e' ≠ w.exchange := fun he => List.ne_nil_of_mem hw (he ▸ hnil)
        simp [Coalescer.Step.settles?, hne]
      · simp [Coalescer.Step.settles?]
    · rfl
  | poll t =>
    simp only [moves, Pool.traceAll, Pool.trace, List.append_nil]
    split
    · cases b.pool.exchange? t <;> simp [Coalescer.Step.settles?]
    · rfl
  | answer now t outcome =>
    simp only [moves]
    split
    swap
    · rfl
    next hs =>
    cases hp : b.plans.get? t with
    | none => rfl
    | some plan =>
      have hne : b.pool.exchange? t ≠ some w.exchange := fun he => by simp [ends?, hs, he, hp] at hd
      simp only [Option.toList_some, List.map_cons, List.map_nil, Pool.traceAll, Pool.trace, List.append_nil]
      split
      · cases he : b.pool.exchange? t with
        | none => rfl
        | some e' =>
          have hne : e' ≠ w.exchange := fun heq => hne (heq ▸ he)
          simp [Coalescer.Step.settles?, hne]
      · rfl
  | fail t =>
    have hne : b.pool.exchange? t ≠ some w.exchange := fun he => by simp [ends?, he] at hd
    simp only [moves, Pool.traceAll, Pool.trace, List.append_nil]
    cases he : b.pool.exchange? t with
    | none => rfl
    | some e' =>
      have hne : e' ≠ w.exchange := fun heq => hne (heq ▸ he)
      simp [Coalescer.Step.settles?, hne]
  | leave v =>
    have hv : w ≠ v := fun hv => hl (by rw [hv])
    simp only [moves, Pool.traceAll, Pool.trace, List.append_nil]
    cases ho : b.pool.coalescer.orphan? v with
    | none => simp [Coalescer.Step.settles?]
    | some t =>
      -- the last one of an operation leaves, and that is not the operation of `w`
      have hex := (h.pool.assigned t _).2 (Coalescer.orphan?_eq_some ho)
      have hne : v.exchange ≠ w.exchange := fun heq => by
        have hmem : w ∈ (b.pool.coalescer.leave v).registry.audience w.exchange := by
          rw [h.pool.coalescer.audience_leave]
          exact List.mem_filter.2 ⟨hw, by simpa using hv⟩
        rw [← heq, Coalescer.audience_of_orphan? ho] at hmem
        cases hmem
      simp [hex, Coalescer.Step.settles?, hne]
  | _ => rfl

/-! ### Runs -/

theorem asks_of_mem_trace {s : Coalescer.Step Signature (Classified Json)} {events : List Event}
    (h : s ∈ b.trace events) : ∃ event ∈ events, asks event s := by
  induction events generalizing b with
  | nil => cases h
  | cons event rest ih =>
    rcases List.mem_append.1 h with h | h
    · exact ⟨event, List.mem_cons_self, asks_of_mem_traceAll h⟩
    · obtain ⟨event', hmem, hasks⟩ := ih h
      exact ⟨event', List.mem_cons_of_mem _ hmem, hasks⟩

theorem leave_mem_trace {events : List Event} (h : .leave w ∈ b.trace events) : .leave w ∈ events := by
  obtain ⟨event, hmem, rfl⟩ := asks_of_mem_trace h
  exact hmem

theorem take_mem_trace {events : List Event} (h : .take w ∈ b.trace events) : .take w ∈ events := by
  obtain ⟨event, hmem, rfl⟩ := asks_of_mem_trace h
  exact hmem

/-- What a caller got is what its waiter gave. -/
theorem results_eq_waited (h : b.Coherent) (w : Waiter Signature) (events : List Event) :
    results w b events = (Coalescer.waited w b.pool.coalescer (b.trace events)).map resultOf := by
  induction events generalizing b with
  | nil => rfl
  | cons event rest ih =>
    rw [trace, Coalescer.waited_append, List.map_append, ← coalescer_step h, ← ih (h.step event)]
    by_cases ht : event = .take w
    · subst ht
      have hone : b.pool.traceAll (b.moves (.take w)) = [.take w] := rfl
      rw [hone, Coalescer.waited_cons_take, results, if_pos rfl, take_fst]
      cases (b.pool.coalescer.take w).1 <;> rfl
    · have hnone : .take w ∉ b.pool.traceAll (b.moves event) := fun hmem => ht (asks_of_mem_traceAll hmem)
      rw [Coalescer.waited_eq_nil _ hnone]
      cases event with
      | take v =>
        have hv : v ≠ w := fun hv => ht (by rw [hv])
        rw [results, if_neg hv]
        rfl
      | _ => rfl

/-- As long as a waiter stays, a run and its trace end the exchange alike. -/
theorem ending?_eq_findSome? (h : b.Coherent) (hw : b.pool.coalescer.Waiting w) {events : List Event}
    (hl : .leave w ∉ events) :
    ending? w.exchange b events = (b.trace events).findSome? (·.settles? w.exchange) := by
  induction events generalizing b with
  | nil => rfl
  | cons event rest ih =>
    have hne : event ≠ .leave w := fun heq => hl (heq ▸ List.mem_cons_self)
    have hrest : .leave w ∉ rest := fun hr => hl (List.mem_cons_of_mem _ hr)
    rw [ending?, trace, List.findSome?_append]
    cases hd : b.ends? w.exchange event with
    | some d => rw [findSome?_moves hd]; rfl
    | none =>
      have hnone := findSome?_moves_of_none h hw hne hd
      have hwait : (b.step event).pool.coalescer.Waiting w := by
        rw [coalescer_step h]
        exact h.pool.coalescer.waiting_run hw (fun hmem => hne (asks_of_mem_traceAll hmem))
          (List.findSome?_eq_none_iff.1 hnone)
      rw [hnone, ih (h.step event) hwait hrest]

theorem waiting_run (h : b.Coherent) (hw : b.pool.coalescer.Waiting w) {events : List Event} (hl : .leave w ∉ events)
    (hend : ending? w.exchange b events = none) : (b.run events).pool.coalescer.Waiting w := by
  rw [coalescer_run h]
  refine h.pool.coalescer.waiting_run hw (fun hmem => hl (leave_mem_trace hmem)) ?_
  exact List.findSome?_eq_none_iff.1 ((ending?_eq_findSome? h hw hl).symm.trans hend)

theorem resolved_run (h : b.Coherent) (hw : b.pool.coalescer.Waiting w) {d : Delivery (Classified Json)}
    {events : List Event} (hl : .leave w ∉ events) (ht : .take w ∉ events)
    (hend : ending? w.exchange b events = some d) : (b.run events).pool.coalescer.Resolved w d := by
  rw [coalescer_run h]
  exact h.pool.coalescer.resolved_run hw (fun hmem => hl (leave_mem_trace hmem))
    (fun hmem => ht (take_mem_trace hmem)) ((ending?_eq_findSome? h hw hl).symm.trans hend)

theorem resolved_stays (h : b.Coherent) {d : Delivery (Classified Json)} (hw : b.pool.coalescer.Resolved w d)
    {events : List Event} (hl : .leave w ∉ events) (ht : .take w ∉ events) :
    (b.run events).pool.coalescer.Resolved w d := by
  rw [coalescer_run h]
  exact hw.run (fun hmem => hl (leave_mem_trace hmem)) fun hmem => ht (take_mem_trace hmem)

theorem not_open_of_ending? (h : b.Coherent) {events : List Event} (hd : ending? e b events ≠ none) :
    ¬ (b.run events).pool.coalescer.Open e := by
  induction events generalizing b with
  | nil => exact absurd rfl hd
  | cons event rest ih =>
    rw [ending?] at hd
    cases hev : b.ends? e event with
    | none =>
      rw [hev, Option.none_or] at hd
      exact ih (h.step event) hd
    | some d =>
      have hin : e ∈ b.pool.coalescer.exchanges := by
        cases event with
        | answer now t outcome =>
          simp only [ends?] at hev
          split at hev
          · next ht => exact h.pool.mem_exchanges ht.2
          · cases hev
        | fail t =>
          simp only [ends?] at hev
          split at hev
          · next ht => exact h.pool.mem_exchanges ht
          · cases hev
        | _ => cases hev
      have hclosed : ¬ (b.step event).pool.coalescer.Open e := by
        rw [coalescer_step h]
        obtain ⟨s, hs, hse⟩ := List.exists_of_findSome?_eq_some (findSome?_moves hev)
        exact h.pool.coalescer.not_open_run hin ⟨s, hs, by rw [hse]; simp⟩
      show ¬ ((b.step event).run rest).pool.coalescer.Open e
      rw [coalescer_run (h.step event)]
      exact fun hopen => hclosed (Coalescer.Open.of_run _ hopen)

theorem knows_run (h : b.Coherent) (hw : b.pool.coalescer.registry.Knows w) (events : List Event) :
    (b.run events).pool.coalescer.registry.Knows w := by
  rw [coalescer_run h]
  exact Coalescer.Registry.Knows.run hw _

theorem results_eq_nil (h : b.Coherent) {events : List Event}
    (hw : ¬ (b.run events).pool.coalescer.registry.Knows w) : results w b events = [] := by
  induction events generalizing b with
  | nil => rfl
  | cons event rest ih =>
    have hrest := ih (h.step event) hw
    cases event with
    | take v =>
      rw [results]
      split
      · next hv =>
        subst hv
        have hnot : v ∉ b.pool.coalescer.waiters := fun hmem =>
          hw (knows_run h (h.pool.coalescer.known v hmem) (.take v :: rest))
        have hnone : (b.take v).1 = none := by rw [take_fst, Coalescer.take, if_neg hnot]; rfl
        rw [hnone]
        exact hrest
      · exact hrest
    | _ => exact hrest

theorem ending?_append (e : Exchange Signature) (b : Backend σ) (s t : List Event) :
    ending? e b (s ++ t) = (ending? e b s).or (ending? e (b.run s) t) := by
  induction s generalizing b with
  | nil => rfl
  | cons event rest ih =>
    rw [List.cons_append, ending?, ending?, ih, Option.or_assoc]
    rfl

theorem results_append (w : Waiter Signature) (b : Backend σ) (s t : List Event) :
    results w b (s ++ t) = results w b s ++ results w (b.run s) t := by
  induction s generalizing b with
  | nil => rfl
  | cons event rest ih =>
    cases event with
    | take v => rw [List.cons_append, results, results, ih, List.append_assoc]; rfl
    | _ => exact ih _

theorem exists_enter_of_mem_callers {events : List Event} (hw : w ∈ b.callers events) :
    ∃ before s delay after, events = before ++ .enter s delay :: after ∧
      w = ((b.run before).enter s delay).1.waiter := by
  induction events generalizing b with
  | nil => cases hw
  | cons event rest ih =>
    have later : w ∈ (b.step event).callers rest → ∃ before s delay after, event :: rest =
        before ++ .enter s delay :: after ∧ w = ((b.run before).enter s delay).1.waiter := fun hmem => by
      obtain ⟨before, s, delay, after, rfl, heq⟩ := ih hmem
      exact ⟨event :: before, s, delay, after, rfl, heq⟩
    cases event with
    | enter s delay =>
      rcases List.mem_cons.1 hw with rfl | hw
      · exact ⟨[], s, delay, rest, rfl, rfl⟩
      · exact later hw
    | _ => exact later hw

/-! ### Callers -/

omit [KeyValueStore σ] in
theorem coalescer_enter (b : Backend σ) (s : Signature) (delay : DelayClass) :
    ∃ m, (b.enter s delay).2.pool.coalescer = (b.pool.coalescer.register s).2.run m ∧
      (∀ x ∈ m, ∃ v, x = .expedite v) := by
  unfold enter
  by_cases hc : ((b.pool.register s).1.exchange.isNone && decide (delay = .immediate)) = true
  · refine ⟨[.expedite (b.pool.register s).1.waiter], ?_, by simp⟩
    simp only [hc, if_true]
    rfl
  · refine ⟨[], ?_, by simp⟩
    simp only [hc]
    rfl

omit [KeyValueStore σ] in
theorem waiting_enter (h : b.Coherent) (s : Signature) (delay : DelayClass) :
    (b.enter s delay).2.pool.coalescer.Waiting (b.enter s delay).1.waiter := by
  obtain ⟨m, hm, hexp⟩ := b.coalescer_enter s delay
  rw [hm]
  refine (h.pool.coalescer.register s).waiting_run (Coalescer.waiting_register _ s) (fun hmem => ?_) fun x hx => ?_
  · obtain ⟨v, hv⟩ := hexp _ hmem
    cases hv
  · obtain ⟨v, rfl⟩ := hexp x hx
    rfl

theorem not_knows_of_callers (h : b.Coherent) {events : List Event} (hw : w ∈ b.callers events) :
    ¬ b.pool.coalescer.registry.Knows w := by
  obtain ⟨before, s, delay, after, -, rfl⟩ := exists_enter_of_mem_callers hw
  exact fun hk => Registry.not_knows_register s (knows_run h hk before)

theorem callers_nodup (h : b.Coherent) (events : List Event) : (b.callers events).Nodup := by
  induction events generalizing b with
  | nil => exact .nil
  | cons event rest ih =>
    cases event with
    | enter s delay =>
      have hnext := h.enter s delay
      refine List.nodup_cons.2 ⟨fun hmem => not_knows_of_callers hnext hmem ?_, ih hnext⟩
      exact hnext.pool.coalescer.registry.knows_of_mem_audience (waiting_enter h s delay)
    | _ => exact ih (h.step _)

/-- What a caller has got and would get now: how its exchange ended, unless it left. -/
theorem results_of_callers (h : b.Coherent) {events : List Event} (hw : w ∈ b.callers events)
    (hl : .leave w ∉ events) :
    results w b events ++ ((b.run events).take w).1.toList =
      ((ending? w.exchange b events).map resultOf).toList := by
  obtain ⟨before, s, delay, after, rfl, rfl⟩ := exists_enter_of_mem_callers hw
  set w := ((b.run before).enter s delay).1.waiter
  have hb := h.run before
  have hstart := hb.enter s delay
  have hwait := waiting_enter hb s delay
  have hafter : .leave w ∉ after := fun hmem => hl (by simp [hmem])
  have hresults : results w b before = [] :=
    results_eq_nil h (Registry.not_knows_register s)
  have hending : ending? w.exchange b before = none := by
    by_contra hne
    refine not_open_of_ending? h hne (Coalescer.Open.of_run ((b.run before).trace [.enter s delay]) ?_)
    rw [← coalescer_run hb]
    exact .inl (hstart.pool.coalescer.mem_exchanges hwait)
  rw [results_append, ending?_append, hresults, hending, run_append]
  show results w ((b.run before).enter s delay).2 after ++
      ((((b.run before).enter s delay).2.run after).take w).1.toList =
    ((ending? w.exchange ((b.run before).enter s delay).2 after).map resultOf).toList
  rw [results_eq_waited hstart, ending?_eq_findSome? hstart hwait hafter, take_fst, coalescer_run hstart]
  have hstay : .leave w ∉ ((b.run before).enter s delay).2.trace after := fun hmem => hafter (leave_mem_trace hmem)
  rw [Option.toList_map, Option.toList_map, ← List.map_append]
  exact congrArg (List.map resultOf) (hstart.pool.coalescer.waited_of_waiting hwait hstay)

theorem results_leave (h : b.Coherent) {events : List Event} (hw : w ∈ b.callers events) (after : List Event) :
    results w b (events ++ .leave w :: after) = results w b events := by
  have hb := h.run events
  have hknown : (b.run events).pool.coalescer.registry.Knows w := by
    obtain ⟨before, s, delay, rest, rfl, rfl⟩ := exists_enter_of_mem_callers hw
    have hstart := (h.run before).enter s delay
    rw [run_append]
    exact knows_run hstart
      (hstart.pool.coalescer.registry.knows_of_mem_audience (waiting_enter (h.run before) s delay)) rest
  have hgone : (Coalescer.step (b.run events).pool.coalescer (.leave w)).Gone w := by
    by_cases hmem : w ∈ (b.run events).pool.coalescer.waiters
    · exact hb.pool.coalescer.gone_leave hmem
    · exact Coalescer.Gone.step ⟨hmem, hknown⟩ _
  rw [results_append, results_eq_waited hb, trace]
  have hsplit : (b.run events).pool.traceAll ((b.run events).moves (.leave w)) =
      .leave w :: (((b.run events).pool.coalescer.orphan? w).bind (b.run events).pool.exchange?).toList.map .drop := by
    simp [moves, Pool.traceAll, Pool.trace]
  rw [hsplit, List.cons_append, Coalescer.waited_cons_of_ne _ (by simp), hgone.waited, List.map_nil, List.append_nil]

/-- A caller that stays and has no result yet is in the operation of its exchange. -/
theorem waiting_of_callers (h : b.Coherent) {events : List Event} (hw : w ∈ b.callers events)
    (hl : .leave w ∉ events) (hend : ending? w.exchange b events = none) :
    (b.run events).pool.coalescer.Waiting w := by
  obtain ⟨before, s, delay, after, rfl, rfl⟩ := exists_enter_of_mem_callers hw
  have hstart := (h.run before).enter s delay
  have hwait := waiting_enter (h.run before) s delay
  have hafter : .leave ((b.run before).enter s delay).1.waiter ∉ after := fun hmem => hl (by simp [hmem])
  rw [ending?_append, Option.or_eq_none_iff] at hend
  rw [run_append]
  exact waiting_run hstart hwait hafter hend.2

/-! ### Exchanges -/

namespace Coherent

omit [KeyValueStore σ] in
theorem isLive_of_mem (h : b.Coherent) (he : e ∈ b.pool.coalescer.exchanges) : b.isLive e := by
  by_cases hu : b.pool.isUnassigned e
  · exact .inl hu
  · simp only [Pool.isUnassigned, Coalescer.has, he, decide_true, Bool.true_and, List.all_eq_true, not_forall] at hu
    obtain ⟨⟨t, x⟩, hmem, hx⟩ := hu
    have hx : x = some e := by simpa using hx
    subst hx
    have hget := Table.get?_of_mem h.pool.tasks_nodup hmem
    have hex := Pool.exchange?_eq_some.2 hget
    exact .inr ⟨t, h.pool.mem_tasks hex, hex⟩

omit [KeyValueStore σ] in
theorem inFlight_eq_zero (h : b.Coherent) (hnone : ∀ e, ¬ b.isLive e) : b.inFlight = 0 := by
  unfold inFlight Registry.inFlight
  cases hp : b.pool.coalescer.registry.pending with
  | nil => rfl
  | cons entry rest =>
    obtain ⟨key, o⟩ := entry
    have hget : b.pool.coalescer.registry.pending.get? key = some o := by rw [hp]; exact if_pos rfl
    have hop : b.pool.coalescer.registry.operation? key o.generation = some o :=
      Registry.operation?_eq_some.2 ⟨hget, rfl⟩
    refine absurd (h.isLive_of_mem (e := ⟨key, o.generation⟩) (h.pool.coalescer.owed _ fun hnil => ?_)) (hnone _)
    cases hop.symm.trans (h.pool.coalescer.registry.operation?_eq_none_of_audience hnil)

omit [KeyValueStore σ] in
/-- A task that waits for an outcome has sent the request of its exchange. -/
theorem exchange_of_sending? (h : b.Coherent) {t : Nat} {r : Request} (hr : b.sending? t = some r) :
    ∃ e, b.pool.exchange? t = some e ∧ { r with headers := [] } = Request.ofSignature e.key := by
  unfold sending? at hr
  split at hr
  · next hs =>
    simp only [isSending, Bool.and_eq_true, decide_eq_true_eq] at hs
    have hmem := h.pool.stages.mem_iff.1 (Dispatcher.mem_tasks_of_running hs.1)
    obtain ⟨x, hx⟩ := Option.ne_none_iff_exists'.1 (Table.mem_keys.1 hmem)
    cases x with
    | none => exact absurd hx (h.owned t)
    | some e =>
      have he := Pool.exchange?_eq_some.2 hx
      obtain ⟨plan, hp, hkey⟩ := h.planned t e he
      obtain ⟨plan', hp', hreq⟩ := h.sent_plan t r hr
      rw [hp] at hp'
      cases hp'
      exact ⟨e, he, hkey ▸ hreq⟩
  · cases hr

omit [KeyValueStore σ] in
theorem task_of_key (h : b.Coherent) {t₁ t₂ : Nat} {e₁ e₂ : Exchange Signature} (h₁ : b.pool.exchange? t₁ = some e₁)
    (h₂ : b.pool.exchange? t₂ = some e₂) (hkey : e₁.key = e₂.key) : t₁ = t₂ ∧ e₁ = e₂ := by
  have he := h.pool.exchange_unique h₁ h₂ hkey
  exact ⟨h.pool.task_unique h₁ (he ▸ h₂), he⟩

omit [KeyValueStore σ] in
theorem task_of_request (h : b.Coherent) {t₁ t₂ : Nat} {r₁ r₂ : Request} (h₁ : b.sending? t₁ = some r₁)
    (h₂ : b.sending? t₂ = some r₂) (hr : { r₁ with headers := [] } = { r₂ with headers := [] }) : t₁ = t₂ := by
  obtain ⟨e₁, he₁, hr₁⟩ := h.exchange_of_sending? h₁
  obtain ⟨e₂, he₂, hr₂⟩ := h.exchange_of_sending? h₂
  exact (h.task_of_key he₁ he₂ (Request.ofSignature_injective (by rw [← hr₁, ← hr₂, hr]))).1

omit [KeyValueStore σ] in
/-- A caller starts an exchange if none is in flight for its signature, and joins a live one else. -/
theorem enter_exchange (h : b.Coherent) (s : Signature) (delay : DelayClass) :
    (b.enter s delay).1.waiter.key = s ∧
      (b.enter s delay).1.exchange = (if b.isInFlight s then none else some (b.enter s delay).1.waiter.exchange) ∧
      (b.isInFlight s → b.isLive (b.enter s delay).1.waiter.exchange) :=
  ⟨Registry.register_key s, Registry.register_fst s, fun hin =>
    h.isLive_of_mem (h.pool.coalescer.owed _ (h.pool.coalescer.registry.audience_ne_nil_of_isInFlight hin))⟩

end Coherent

/-- Single flight, after any run of a backend. A signature has one live exchange and one request on the way. A
caller joins the exchange in flight for its signature or starts one, and unless it leaves it gets, once, what
ended that exchange, decoded as it asks; until then the exchange is live. Callers of one exchange decode one
result, whatever they ask for; a caller that left gets nothing more. With no live exchange nothing is in flight. -/
theorem single_flight (store : σ) (caching : Bool) (limits : Limits) (events : List Event) :
    let start := openOn store caching limits
    let b := start.run events
    ((∀ t₁ t₂ e₁ e₂, b.pool.exchange? t₁ = some e₁ → b.pool.exchange? t₂ = some e₂ → e₁.key = e₂.key →
        t₁ = t₂ ∧ e₁ = e₂) ∧
      ∀ t₁ t₂ r₁ r₂, b.sending? t₁ = some r₁ → b.sending? t₂ = some r₂ →
        { r₁ with headers := [] } = { r₂ with headers := [] } → t₁ = t₂) ∧
    (∀ s delay, (b.enter s delay).1.waiter.key = s ∧
      (b.enter s delay).1.exchange = (if b.isInFlight s then none else some (b.enter s delay).1.waiter.exchange) ∧
      (b.isInFlight s → b.isLive (b.enter s delay).1.waiter.exchange)) ∧
    (start.callers events).Nodup ∧
    (∀ w ∈ start.callers events, .leave w ∉ events →
      (∀ (α : Type) (decoder : Json.Decoder α),
        replies decoder w start events ++ ((b.take w).1.map (readAs decoder)).toList =
          ((ending? w.exchange start events).map fun d => readAs decoder (resultOf d)).toList) ∧
      (ending? w.exchange start events = none → b.isLive w.exchange)) ∧
    (∀ w₁ ∈ start.callers events, ∀ w₂ ∈ start.callers events, .leave w₁ ∉ events → .leave w₂ ∉ events →
      w₁.exchange = w₂.exchange → ∀ (α β : Type) (d₁ : Json.Decoder α) (d₂ : Json.Decoder β),
        ∀ r₁ ∈ replies d₁ w₁ start events, ∀ r₂ ∈ replies d₂ w₂ start events,
          ∃ shared, r₁ = readAs d₁ shared ∧ r₂ = readAs d₂ shared) ∧
    (∀ w ∈ start.callers events, ∀ after,
      results w start (events ++ .leave w :: after) = results w start events) ∧
    ((∀ e, ¬ b.isLive e) → b.inFlight = 0) := by
  intro start b
  have hstart : start.Coherent := .openOn store caching limits
  have hb : b.Coherent := hstart.run events
  have served : ∀ w ∈ start.callers events, .leave w ∉ events → ∀ (α : Type) (decoder : Json.Decoder α),
      replies decoder w start events ++ ((b.take w).1.map (readAs decoder)).toList =
        ((ending? w.exchange start events).map fun d => readAs decoder (resultOf d)).toList := by
    intro w hw hl α decoder
    have hgot := congrArg (List.map (readAs decoder)) (results_of_callers hstart hw hl)
    rw [List.map_append, ← Option.toList_map, ← Option.toList_map, Option.map_map] at hgot
    exact hgot
  refine ⟨⟨fun _ _ _ _ => hb.task_of_key, fun _ _ _ _ => hb.task_of_request⟩, hb.enter_exchange,
    callers_nodup hstart events, fun w hw hl => ⟨served w hw hl, fun hend => ?_⟩, ?_,
    fun w hw => results_leave hstart hw, hb.inFlight_eq_zero⟩
  · exact hb.isLive_of_mem (hb.pool.coalescer.mem_exchanges (waiting_of_callers hstart hw hl hend))
  · intro w₁ hw₁ w₂ hw₂ hl₁ hl₂ he α β d₁ d₂ r₁ hr₁ r₂ hr₂
    have h₁ : r₁ ∈ ((ending? w₁.exchange start events).map fun d => readAs d₁ (resultOf d)).toList :=
      served w₁ hw₁ hl₁ α d₁ ▸ List.mem_append_left _ hr₁
    have h₂ : r₂ ∈ ((ending? w₂.exchange start events).map fun d => readAs d₂ (resultOf d)).toList :=
      served w₂ hw₂ hl₂ β d₂ ▸ List.mem_append_left _ hr₂
    rw [he] at h₁
    cases hend : ending? w₂.exchange start events with
    | none => rw [hend] at h₁; cases h₁
    | some d =>
      rw [hend] at h₁ h₂
      exact ⟨resultOf d, List.mem_singleton.1 h₁, List.mem_singleton.1 h₂⟩

end Backend

end Entitle
