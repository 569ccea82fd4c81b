import Entitle.Proofs.Flight.Relay

/-!
# Cancellation

The task of an exchange is aborted if and only if the last waiter of its operation left, at once if the dispatch has
recorded the task and at the record otherwise (`Tracked`). A task counts as aborted from the moment the registry gives
it out, not from its end, which may be much later. Only while the dispatch is on its way can a newer operation of the
key begin before the abort; an abort by a leave leaves the key to the next registration. Nothing that an aborted task
does later shows to anyone else (`coalescer_step_of_silent`).
-/

namespace Entitle.Flight

variable {κ ρ : Type} [DecidableEq κ]

namespace Registry

theorem generation_unique {r : Registry κ} {key : κ} {g₁ g₂ : Nat} (h₁ : r.audience ⟨key, g₁⟩ ≠ [])
    (h₂ : r.audience ⟨key, g₂⟩ ≠ []) : g₁ = g₂ := by
  obtain ⟨o₁, ho₁⟩ := Option.ne_none_iff_exists'.1 (mt (audience_of_none (e := ⟨key, g₁⟩)) h₁)
  obtain ⟨o₂, ho₂⟩ := Option.ne_none_iff_exists'.1 (mt (audience_of_none (e := ⟨key, g₂⟩)) h₂)
  exact operation?_unique ho₁ ho₂

end Registry

namespace Coalescer
variable {c : Coalescer κ ρ} {s : Step κ ρ} {e : Exchange κ} {w : Waiter κ}

/-! ### Listeners -/

/-- No exchange in use is newer than an operation that is waited for on its key. -/
def Oldest (c : Coalescer κ ρ) : Prop :=
  ∀ e ∈ c.exchanges, ∀ g, c.registry.audience ⟨e.key, g⟩ ≠ [] → e.generation ≤ g

theorem aborted_settle (c : Coalescer κ ρ) (e : Exchange κ) (d : Delivery ρ) :
    (c.settle e d).2.aborted = c.aborted := by
  unfold settle
  split <;> rfl

theorem aborted_step (c : Coalescer κ ρ) (ha : ∀ e t, s ≠ .attach e t) (hl : ∀ w, s ≠ .leave w) :
    (c.step s).aborted = c.aborted := by
  cases s with
  | register key => rfl
  | complete e result => exact c.aborted_settle e _
  | drop e => exact c.aborted_settle e _
  | attach e t => exact absurd rfl (ha e t)
  | signal e =>
    simp only [step, takeSignal]
    split <;> rfl
  | expedite w =>
    simp only [step, expedite]
    split <;> rfl
  | leave w => exact absurd rfl (hl w)
  | take w =>
    simp only [step, take]
    split
    · split <;> rfl
    · rfl

namespace Coherent

theorem listening_eq_nil_iff (h : c.Coherent) : c.listening e = [] ↔ c.registry.audience e = [] :=
  ⟨fun hnil => (hnil ▸ h.perm_listening e).eq_nil, fun hnil => (hnil ▸ h.perm_listening e).nil_eq.symm⟩

theorem listening_eq_singleton_iff (h : c.Coherent) : c.listening e = [w] ↔ c.registry.audience e = [w] :=
  ⟨fun hone => List.perm_singleton.1 (hone ▸ h.perm_listening e),
    fun hone => List.perm_singleton.1 (hone ▸ h.perm_listening e).symm⟩

theorem audience_eq_singleton (h : c.Coherent) (hne : c.registry.audience e ≠ [])
    (hnil : (c.registry.audience e).filter (· ≠ w) = []) : c.registry.audience e = [w] := by
  have hall : ∀ v ∈ c.registry.audience e, v = w := fun v hv => by
    simpa using List.filter_eq_nil_iff.1 hnil v hv
  have hnodup : (c.registry.audience e).Nodup := (h.perm_listening e).nodup_iff.2 (h.waiters_nodup.filter _)
  obtain ⟨v, hv⟩ := List.exists_mem_of_ne_nil _ hne
  refine List.perm_singleton.1 ((List.perm_ext_iff_of_nodup hnodup (List.nodup_singleton w)).2 fun u => ?_)
  rw [List.mem_singleton]
  exact ⟨hall u, fun hu => hu ▸ hall v hv ▸ hv⟩

theorem orphan?_of_alone (h : c.Coherent) (hone : c.registry.audience w.exchange = [w]) :
    c.orphan? w = c.registry.task? w.exchange := by
  have hw : w ∈ c.waiters := ((h.listening w).1 (hone ▸ List.mem_singleton_self w)).1
  rw [orphan?_of_mem hw, Registry.leave_fst, Registry.audience_leave, hone]
  simp

theorem alone_of_orphan? (h : c.Coherent) {t : Nat} (ho : c.orphan? w = some t) :
    c.registry.audience w.exchange = [w] := by
  have hnil := audience_of_orphan? ho
  rw [h.audience_leave] at hnil
  refine h.audience_eq_singleton (fun hnone => ?_) hnil
  cases (h.registry.task?_of_audience hnone).symm.trans (orphan?_eq_some ho)

/-- A registration joins the operation that is waited for, or starts one that is newer than all before. -/
theorem register_cases (h : c.Coherent) (key : κ) :
    ((∀ g, c.registry.audience ⟨key, g⟩ = []) ∧ (c.register key).1.exchange = some ⟨key, c.registry.nextGeneration⟩) ∨
    ((c.register key).1.exchange = none ∧
      c.registry.audience ⟨key, (c.register key).1.waiter.generation⟩ ≠ []) := by
  cases hget : c.registry.pending.get? key with
  | none =>
    refine .inl ⟨fun g => Registry.audience_of_none (Registry.operation?_eq_none.2 fun o ho => ?_), ?_⟩
    · cases hget.symm.trans ho
    · show (c.registry.register key).1 = _
      rw [Registry.register_started hget]
  | some o =>
    have hin : c.registry.isInFlight key := by rw [Registry.isInFlight, hget]; rfl
    refine .inr ⟨?_, ?_⟩
    · show (c.registry.register key).1 = _
      rw [Registry.register_joined hget]
    · have hwaiter : (c.registry.register key).2.1.exchange = ⟨key, (c.register key).1.waiter.generation⟩ := by
        rw [Waiter.exchange, Registry.register_key]
        rfl
      exact hwaiter ▸ h.registry.audience_ne_nil_of_isInFlight hin

theorem oldest_step (h : c.Coherent) (ho : c.Oldest) (s : Step κ ρ) : (c.step s).Oldest := by
  intro e he g hg
  by_cases hold : c.registry.audience ⟨e.key, g⟩ = []
  · -- the operation is new, so no exchange in use is newer
    obtain ⟨-, hgeneration : g = c.registry.nextGeneration⟩ := h.started_of_audience_step hold hg
    rw [hgeneration]
    rcases mem_exchanges_step he with he | ⟨key, -, hnew⟩
    · exact Nat.le_of_lt (h.generation_lt e he)
    · rcases h.register_cases key with ⟨-, hstart⟩ | ⟨hjoin, -⟩
      · cases hnew.symm.trans hstart
        exact Nat.le_refl _
      · cases hnew.symm.trans hjoin
  · rcases mem_exchanges_step he with he | ⟨key, -, hnew⟩
    · exact ho e he g hold
    · rcases h.register_cases key with ⟨hnone, hstart⟩ | ⟨hjoin, -⟩
      · cases hnew.symm.trans hstart
        exact absurd (hnone g) hold
      · cases hnew.symm.trans hjoin

/-- Settling an exchange that nobody waits for only ends it. -/
theorem settle_of_silent (h : c.Coherent) (hnil : c.registry.audience e = []) (d : Delivery ρ) :
    (c.settle e d).2 = { c with exchanges := c.exchanges.erase e } := by
  by_cases he : e ∈ c.exchanges
  · have hregistry : (c.registry.settle e).2 = c.registry := by
      unfold Registry.settle
      rw [h.registry.operation?_eq_none_of_audience hnil]
    rw [settle_of_mem he, hnil, hregistry]
    simp
  · rw [List.erase_of_not_mem he, Coalescer.settle, if_neg he]

theorem takeSignal_of_silent (h : c.Coherent) (hnil : c.registry.audience e = []) : (c.takeSignal e).2 = c := by
  unfold Coalescer.takeSignal
  split
  · have hregistry : (c.registry.takeSignal e).2 = c.registry := by
      unfold Registry.takeSignal
      rw [h.registry.operation?_eq_none_of_audience hnil]
    show { c with registry := (c.registry.takeSignal e).2 } = c
    rw [hregistry]
  · rfl

end Coherent

end Coalescer

namespace Relay
variable {r : Relay κ ρ} {t : Nat} {e : Exchange κ} {gone : List (Exchange κ)}

/-! ### Who is left alone -/

/-- The exchange whose operation loses its last waiter by an event: the only one who still listens leaves. -/
def deserts? (r : Relay κ ρ) : Event κ ρ → Option (Exchange κ)
  | .leave w => if r.pool.coalescer.listening w.exchange = [w] then some w.exchange else none
  | _ => none

/-- The exchanges whose operation lost its last waiter in a run. -/
def deserted (r : Relay κ ρ) : List (Event κ ρ) → List (Exchange κ)
  | [] => []
  | event :: rest => (r.deserts? event).toList ++ deserted (r.step event) rest

/-- The dispatch has recorded the task, and the exchange is one of those that nobody waits for any more. -/
def Forsaken (r : Relay κ ρ) (gone : List (Exchange κ)) (t : Nat) : Prop :=
  ∃ e ∈ gone, r.orders.get? t = some e ∧ t ∉ r.unrecorded

/-- The aborted tasks are those whose exchange was deserted. -/
structure Tracked (r : Relay κ ρ) (gone : List (Exchange κ)) : Prop where
  aborted : ∀ t, t ∈ r.pool.coalescer.aborted ↔ r.Forsaken gone t
  /-- Nobody comes back to a deserted operation. -/
  silent : ∀ e ∈ gone, r.pool.coalescer.registry.audience e = [] ∧
    e.generation < r.pool.coalescer.registry.nextGeneration
  /-- Whoever owes an answer to nobody was deserted. -/
  left : ∀ e ∈ r.pool.coalescer.exchanges, r.pool.coalescer.registry.audience e = [] → e ∈ gone
  oldest : r.pool.coalescer.Oldest

theorem Tracked.ofLimits (l : Limits) : (ofLimits l : Relay κ ρ).Tracked [] where
  aborted := by simp [Relay.ofLimits, Pool.ofLimits, Forsaken]
  silent := by simp
  left := by simp [Relay.ofLimits, Pool.ofLimits]
  oldest := by simp [Coalescer.Oldest, Relay.ofLimits, Pool.ofLimits]

theorem nextGeneration_step_le (r : Relay κ ρ) (event : Event κ ρ) :
    r.pool.coalescer.registry.nextGeneration ≤ (r.step event).pool.coalescer.registry.nextGeneration := by
  rcases r.coalescer_cases event with hsame | ⟨s, -, hstep⟩
  · exact Nat.le_of_eq (congrArg (·.registry.nextGeneration) hsame.symm)
  · rw [hstep]
    exact r.pool.coalescer.nextGeneration_step_le s

theorem nextGeneration_run_le (r : Relay κ ρ) (events : List (Event κ ρ)) :
    r.pool.coalescer.registry.nextGeneration ≤ (r.run events).pool.coalescer.registry.nextGeneration := by
  induction events generalizing r with
  | nil => exact Nat.le_refl _
  | cons event rest ih => exact Nat.le_trans (r.nextGeneration_step_le event) (ih _)

theorem orders_step {event : Event κ ρ} (hb : ∀ e delay, event ≠ .begin e delay) :
    (r.step event).orders = r.orders ∧
      ((∀ t, event ≠ .record t) → (r.step event).unrecorded = r.unrecorded) := by
  cases event with
  | begin e delay => exact absurd rfl (hb e delay)
  | record t =>
    simp only [step, record]
    split
    · split <;> exact ⟨rfl, fun hr => absurd rfl (hr t)⟩
    · exact ⟨rfl, fun _ => rfl⟩
  | deliver t =>
    simp only [step, deliver]
    split <;> exact ⟨rfl, fun _ => rfl⟩
  | drop e =>
    simp only [step, drop]
    split <;> exact ⟨rfl, fun _ => rfl⟩
  | complete t result =>
    simp only [step, complete]
    split
    · split <;> exact ⟨rfl, fun _ => rfl⟩
    · exact ⟨rfl, fun _ => rfl⟩
  | stop t =>
    simp only [step, stop]
    split <;> exact ⟨rfl, fun _ => rfl⟩
  | _ => exact ⟨rfl, fun _ => rfl⟩

theorem aborted_step {event : Event κ ρ} (hr : ∀ t, event ≠ .record t) (hl : ∀ w, event ≠ .leave w) :
    (r.step event).pool.coalescer.aborted = r.pool.coalescer.aborted := by
  rcases r.coalescer_cases event with hsame | ⟨s, hs, hstep⟩
  · rw [hsame]
  · have hasks := asks_of_mem_trace hs
    rw [hstep]
    exact r.pool.coalescer.aborted_step (fun e t heq => hr t (by subst heq; exact hasks))
      (fun w heq => hl w (by subst heq; exact hasks))

/-- What a record that has to be made does: it names the task or, if nobody listens, aborts it. -/
theorem Coherent.record_cases (h : r.Coherent) (ht : t ∈ r.unrecorded) :
    ∃ e, r.orders.get? t = some e ∧ e ∈ r.pool.coalescer.exchanges ∧
      (r.step (.record t)).unrecorded = r.unrecorded.erase t ∧
      ((r.pool.coalescer.registry.audience e ≠ [] ∧
          (r.step (.record t)).pool.coalescer.aborted = r.pool.coalescer.aborted) ∨
        (r.pool.coalescer.registry.audience e = [] ∧
          (r.step (.record t)).pool.coalescer.aborted = r.pool.coalescer.aborted ++ [t])) := by
  obtain ⟨e, ho, hin⟩ := h.held t (h.undelivered_of_unrecorded t ht)
  have hstep : r.step (.record t) =
      { r with
        pool := { r.pool with coalescer := r.pool.coalescer.attach e t }
        unrecorded := r.unrecorded.erase t } := by
    simp only [Relay.step, Relay.record, if_pos ht, ho]
  rw [hstep]
  refine ⟨e, ho, hin, rfl, ?_⟩
  rcases h.coalescer.attach_cases hin t with ⟨haud, haborted, -⟩ | ⟨haud, haborted, -⟩
  · exact .inl ⟨haud, haborted⟩
  · exact .inr ⟨haud, haborted⟩

theorem record_of_not_mem (ht : t ∉ r.unrecorded) : r.step (.record t) = r :=
  if_neg ht

namespace Tracked

theorem mono_silent (ht : r.Tracked gone) (h : r.Coherent) (event : Event κ ρ) (he : e ∈ gone) :
    (r.step event).pool.coalescer.registry.audience e = [] ∧
      e.generation < (r.step event).pool.coalescer.registry.nextGeneration := by
  obtain ⟨hnil, hlt⟩ := ht.silent e he
  refine ⟨?_, Nat.lt_of_lt_of_le hlt (r.nextGeneration_step_le event)⟩
  rcases r.coalescer_cases event with hsame | ⟨s, -, hstep⟩
  · rw [hsame]
    exact hnil
  · rw [hstep]
    by_contra hne
    exact Nat.ne_of_lt hlt (h.coalescer.started_of_audience_step hnil hne).2

/-- What an event deserts has nobody left. -/
theorem silent_of_deserts? (h : r.Coherent) {event : Event κ ρ} (he : r.deserts? event = some e) :
    (r.step event).pool.coalescer.registry.audience e = [] ∧
      e.generation < (r.step event).pool.coalescer.registry.nextGeneration := by
  cases event with
  | leave w =>
    simp only [deserts?] at he
    split at he
    swap
    · cases he
    next hone =>
    cases he
    have hone := h.coalescer.listening_eq_singleton_iff.1 hone
    have hin : w.exchange ∈ r.pool.coalescer.exchanges := h.coalescer.owed _ (by simp [hone])
    constructor
    · show (r.pool.coalescer.leave w).registry.audience w.exchange = []
      rw [h.coalescer.audience_leave, hone]
      simp
    · exact Nat.lt_of_lt_of_le (h.coalescer.generation_lt _ hin) (r.nextGeneration_step_le (.leave w))
  | _ => cases he

theorem deserts?_of_silent (h : r.Coherent) {event : Event κ ρ} (he : e ∈ (r.step event).pool.coalescer.exchanges)
    (hnil : (r.step event).pool.coalescer.registry.audience e = [])
    (hold : e ∈ r.pool.coalescer.exchanges → r.pool.coalescer.registry.audience e ≠ []) :
    r.deserts? event = some e := by
  rcases r.coalescer_cases event with hsame | ⟨s, hs, hstep⟩
  · rw [hsame] at he hnil
    exact absurd hnil (hold he)
  rw [hstep] at he hnil
  by_cases hleave : ∃ w, s = .leave w
  · obtain ⟨w, rfl⟩ := hleave
    obtain rfl : event = .leave w := asks_of_mem_trace hs
    change e ∈ (r.pool.coalescer.leave w).exchanges at he
    change (r.pool.coalescer.leave w).registry.audience e = [] at hnil
    rw [Coalescer.exchanges_leave] at he
    rw [h.coalescer.audience_leave] at hnil
    have hone := h.coalescer.audience_eq_singleton (hold he) hnil
    have hw : w.exchange = e := Registry.exchange_of_mem_audience (hone ▸ List.mem_singleton_self w)
    subst hw
    exact if_pos (h.coalescer.listening_eq_singleton_iff.2 hone)
  · exact absurd hnil (h.coalescer.audience_step_ne_nil (fun w hw => hleave ⟨w, hw⟩) he hold)

theorem aborted_begin (ht : r.Tracked gone) (h : r.Coherent) (e : Exchange κ) (delay t : Nat) :
    t ∈ (r.step (.begin e delay)).pool.coalescer.aborted ↔ (r.step (.begin e delay)).Forsaken gone t := by
  have hcoalescer : (r.step (.begin e delay)).pool.coalescer = r.pool.coalescer := coalescer_step r (.begin e delay)
  rw [hcoalescer, ht.aborted]
  simp only [Forsaken, Relay.step, Relay.begin]
  split
  swap
  · exact .rfl
  simp only [Table.get?_put, List.mem_append, List.mem_singleton, not_or]
  refine exists_congr fun e' => and_congr_right fun _ => ?_
  by_cases hnew : r.pool.nextTask = t
  · -- the new task has no order before and is not recorded afterwards
    subst hnew
    rw [h.orders_nextTask]
    simp
  · rw [if_neg hnew]
    simp [Ne.symm hnew]

theorem aborted_record (ht : r.Tracked gone) (h : r.Coherent) (t₀ t : Nat) :
    t ∈ (r.step (.record t₀)).pool.coalescer.aborted ↔ (r.step (.record t₀)).Forsaken gone t := by
  by_cases ht₀ : t₀ ∈ r.unrecorded
  swap
  · rw [record_of_not_mem ht₀]
    exact ht.aborted t
  obtain ⟨e, ho, hin, hunrecorded, hcases⟩ := h.record_cases ht₀
  have horders : (r.step (.record t₀)).orders = r.orders := (orders_step (by simp)).1
  simp only [Forsaken, horders, hunrecorded, h.unrecorded_nodup.mem_erase_iff, not_and_or, not_not]
  by_cases heq : t = t₀
  · subst heq
    have hnot : t ∉ r.pool.coalescer.aborted := fun hin => by
      obtain ⟨_, _, _, hout⟩ := (ht.aborted t).1 hin
      exact hout ht₀
    rcases hcases with ⟨haud, haborted⟩ | ⟨haud, haborted⟩ <;> rw [haborted]
    · refine iff_of_false hnot ?_
      rintro ⟨e', he', ho', -⟩
      cases ho.symm.trans ho'
      exact haud (ht.silent e he').1
    · exact iff_of_true (by simp) ⟨e, ht.left e hin haud, ho, .inl rfl⟩
  · have hsame : t ∈ (r.step (.record t₀)).pool.coalescer.aborted ↔ t ∈ r.pool.coalescer.aborted := by
      rcases hcases with ⟨-, haborted⟩ | ⟨-, haborted⟩ <;> rw [haborted]
      simp [heq]
    rw [hsame, ht.aborted]
    simp [Forsaken, heq]

theorem aborted_leave (ht : r.Tracked gone) (h : r.Coherent) (w : Waiter κ) (t : Nat) :
    t ∈ (r.step (.leave w)).pool.coalescer.aborted ↔
      (r.step (.leave w)).Forsaken (gone ++ (r.deserts? (.leave w)).toList) t := by
  show t ∈ (r.pool.coalescer.leave w).aborted ↔ r.Forsaken (gone ++ (r.deserts? (.leave w)).toList) t
  rw [Coalescer.aborted_leave, List.mem_append, ht.aborted]
  simp only [Forsaken, List.mem_append, or_and_right, exists_or]
  refine or_congr_right ?_
  rw [Option.mem_toList]
  simp only [deserts?, h.coalescer.listening_eq_singleton_iff]
  constructor
  · intro horphan
    have hone := h.coalescer.alone_of_orphan? horphan
    exact ⟨w.exchange, by simp [hone], h.named t _ (Coalescer.orphan?_eq_some horphan)⟩
  · rintro ⟨e, he, ho, hrecorded⟩
    split at he
    swap
    · cases he
    next hone =>
    obtain rfl : e = w.exchange := by simpa using he
    show r.pool.coalescer.orphan? w = some t
    rw [h.coalescer.orphan?_of_alone hone]
    exact h.recorded t _ ho hrecorded (by simp [hone])

theorem aborted_other (ht : r.Tracked gone) {event : Event κ ρ} (hb : ∀ e delay, event ≠ .begin e delay)
    (hr : ∀ t, event ≠ .record t) (hl : ∀ w, event ≠ .leave w) (t : Nat) :
    t ∈ (r.step event).pool.coalescer.aborted ↔ (r.step event).Forsaken gone t := by
  obtain ⟨horders, hunrecorded⟩ := orders_step (r := r) hb
  rw [aborted_step hr hl, ht.aborted, Forsaken, Forsaken, horders, hunrecorded hr]

theorem aborted_next (ht : r.Tracked gone) (h : r.Coherent) (event : Event κ ρ) (t : Nat) :
    t ∈ (r.step event).pool.coalescer.aborted ↔ (r.step event).Forsaken (gone ++ (r.deserts? event).toList) t := by
  cases event with
  | leave w => exact ht.aborted_leave h w t
  | begin e delay => exact (List.append_nil gone).symm ▸ ht.aborted_begin h e delay t
  | record t₀ => exact (List.append_nil gone).symm ▸ ht.aborted_record h t₀ t
  | _ => exact (List.append_nil gone).symm ▸ ht.aborted_other (by simp) (by simp) (by simp) t

theorem step (ht : r.Tracked gone) (h : r.Coherent) (event : Event κ ρ) :
    (r.step event).Tracked (gone ++ (r.deserts? event).toList) where
  aborted := ht.aborted_next h event
  silent e he := by
    rcases List.mem_append.1 he with he | he
    · exact ht.mono_silent h event he
    · exact silent_of_deserts? h (Option.mem_toList.1 he)
  left e he hnil := by
    by_cases hold : e ∈ r.pool.coalescer.exchanges → r.pool.coalescer.registry.audience e ≠ []
    · exact List.mem_append_right _ (Option.mem_toList.2 (deserts?_of_silent h he hnil hold))
    · simp only [Classical.not_imp, not_not] at hold
      exact List.mem_append_left _ (ht.left e hold.1 hold.2)
  oldest := by
    rcases r.coalescer_cases event with hsame | ⟨s, -, hstep⟩
    · rw [hsame]
      exact ht.oldest
    · rw [hstep]
      exact h.coalescer.oldest_step ht.oldest s

theorem run (ht : r.Tracked gone) (h : r.Coherent) (events : List (Event κ ρ)) :
    (r.run events).Tracked (gone ++ r.deserted events) := by
  induction events generalizing r gone with
  | nil => simpa [deserted, Relay.run] using ht
  | cons event rest ih =>
    have hrest := ih (ht.step h event) (h.step event)
    rw [List.append_assoc] at hrest
    exact hrest

end Tracked

/-! ### After an abort -/

theorem silent_step (h : r.Coherent) {event : Event κ ρ} (hk : event ≠ .register e.key)
    (hnil : r.pool.coalescer.registry.audience e = []) : (r.step event).pool.coalescer.registry.audience e = [] := by
  rcases r.coalescer_cases event with hsame | ⟨s, hs, hstep⟩
  · rw [hsame]
    exact hnil
  · rw [hstep]
    by_contra hne
    obtain ⟨rfl, -⟩ := h.coalescer.started_of_audience_step hnil hne
    exact hk (asks_of_mem_trace hs)

theorem silent_run (h : r.Coherent) {events : List (Event κ ρ)} (hk : .register e.key ∉ events)
    (hnil : r.pool.coalescer.registry.audience e = []) : (r.run events).pool.coalescer.registry.audience e = [] := by
  induction events generalizing r with
  | nil => exact hnil
  | cons event rest ih =>
    obtain ⟨hevent, hrest⟩ := not_or.1 (mt List.mem_cons.2 hk)
    exact ih (h.step event) hrest (silent_step h (Ne.symm hevent) hnil)

theorem aborted_cases (h : r.Coherent) {event : Event κ ρ} (hbefore : t ∉ r.pool.coalescer.aborted)
    (hafter : t ∈ (r.step event).pool.coalescer.aborted) :
    (event = .record t ∧
      ∃ e, r.orders.get? t = some e ∧ e ∈ r.pool.coalescer.exchanges ∧ r.pool.coalescer.registry.audience e = []) ∨
    ∃ w, event = .leave w ∧ r.pool.coalescer.orphan? w = some t := by
  cases event with
  | record t₀ =>
    by_cases ht₀ : t₀ ∈ r.unrecorded
    · obtain ⟨e, ho, hin, -, ⟨-, haborted⟩ | ⟨haud, haborted⟩⟩ := h.record_cases ht₀
      · exact absurd (haborted ▸ hafter) hbefore
      · rw [haborted, List.mem_append, List.mem_singleton] at hafter
        obtain rfl := hafter.resolve_left hbefore
        exact .inl ⟨rfl, e, ho, hin, haud⟩
    · rw [record_of_not_mem ht₀] at hafter
      exact absurd hafter hbefore
  | leave w =>
    change t ∈ (r.pool.coalescer.leave w).aborted at hafter
    rw [Coalescer.aborted_leave, List.mem_append, Option.mem_toList] at hafter
    exact .inr ⟨w, rfl, hafter.resolve_left hbefore⟩
  | _ =>
    rw [aborted_step (by simp) (by simp)] at hafter
    exact absurd hafter hbefore

/-- What is waited for on the key after an abort: nothing, or at a record an operation that began before it. -/
theorem waited_after_abort (h : r.Coherent) (holdest : r.pool.coalescer.Oldest) (ho : r.orders.get? t = some e)
    {event : Event κ ρ} (hbefore : t ∉ r.pool.coalescer.aborted) (hafter : t ∈ (r.step event).pool.coalescer.aborted)
    {g : Nat} (hg : (r.step event).pool.coalescer.registry.audience ⟨e.key, g⟩ ≠ []) :
    event = .record t ∧ e.generation < g ∧ r.pool.coalescer.registry.audience ⟨e.key, g⟩ ≠ [] := by
  have hcases := aborted_cases h hbefore hafter
  have hregister : event ≠ .register e.key := by
    rcases hcases with ⟨rfl, -⟩ | ⟨w, rfl, -⟩ <;> simp
  have hold : r.pool.coalescer.registry.audience ⟨e.key, g⟩ ≠ [] := mt (silent_step h hregister) hg
  rcases hcases with ⟨hevent, e', ho', hin, hnil⟩ | ⟨w, rfl, horphan⟩
  · cases ho.symm.trans ho'
    refine ⟨hevent, Nat.lt_of_le_of_ne (holdest e hin g hold) ?_, hold⟩
    rintro rfl
    exact hold hnil
  · obtain ⟨ho', -⟩ := h.named t _ (Coalescer.orphan?_eq_some horphan)
    cases ho.symm.trans ho'
    have hone := h.coalescer.alone_of_orphan? horphan
    have hsame : w.exchange.generation = g := Registry.generation_unique (by rw [hone]; simp) hold
    subst hsame
    exact absurd (Coalescer.audience_of_orphan? horphan) hg

/-- The task that an event comes from. -/
def Event.task? : Event κ ρ → Option Nat
  | .record task | .deliver task | .poll task | .expire task | .complete task _ | .stop task => some task
  | _ => none

/-- A task that nobody waits for changes nothing but that its exchange ends. -/
theorem coalescer_step_of_silent (h : r.Coherent) (ho : r.orders.get? t = some e) (ht : t ∉ r.unrecorded)
    (hnil : r.pool.coalescer.registry.audience e = []) {event : Event κ ρ} (hevent : event.task? = some t) :
    (r.step event).pool.coalescer = r.pool.coalescer ∨
    (r.step event).pool.coalescer = { r.pool.coalescer with exchanges := r.pool.coalescer.exchanges.erase e } := by
  rcases r.coalescer_cases event with hsame | ⟨s, hs, hstep⟩
  · exact .inl hsame
  rw [hstep]
  have hsettle := h.coalescer.settle_of_silent hnil
  have hexchange : ∀ {e'}, r.pool.exchange? t = some e' → e' = e := fun he' =>
    Option.some.inj ((h.ordered t _ he').symm.trans ho)
  cases event with
  | record task =>
    cases hevent
    rw [trace, if_neg ht] at hs
    cases hs
  | deliver task =>
    cases hevent
    rw [trace, ho] at hs
    split at hs <;> cases hs
    exact .inr (hsettle _)
  | poll task =>
    cases hevent
    rw [trace] at hs
    split at hs
    swap
    · cases hs
    obtain ⟨e', he', rfl⟩ := Option.map_eq_some_iff.1 hs
    obtain rfl := hexchange he'
    exact .inl (h.coalescer.takeSignal_of_silent hnil)
  | complete task result =>
    cases hevent
    rw [trace] at hs
    split at hs
    swap
    · cases hs
    obtain ⟨e', he', rfl⟩ := Option.map_eq_some_iff.1 hs
    obtain rfl := hexchange he'
    exact .inr (hsettle _)
  | stop task =>
    cases hevent
    rw [trace] at hs
    split at hs
    · cases hs
    obtain ⟨e', he', rfl⟩ := Option.map_eq_some_iff.1 hs
    obtain rfl := hexchange he'
    exact .inr (hsettle _)
  | expire task => cases hs
  | _ => cases hevent

/-! ### Runs -/

theorem single_run (l : Limits) (events : List (Event κ ρ)) :
    ((ofLimits l : Relay κ ρ).run events).pool.coalescer.registry.Single := by
  rw [coalescer_run]
  exact Coalescer.single_run _

/-- After any run, with all waiters, dispatches and tasks in any order: a task is aborted if and only if its dispatch
has recorded it and the last waiter of its operation left while that was pending. Nobody listens to the operation of an
aborted task. Once the dispatch has ended, an operation that is pending names its task, and the task of an exchange in
use that nobody listens to is aborted. The next registration on the key after an abort starts a newer operation, except
that it joins one that others waited for already when the dispatch recorded the task. Whatever an aborted task does
changes nothing in the coalescer but that its own exchange ends. -/
theorem cancellation_run (l : Limits) (events : List (Event κ ρ)) :
    let start : Relay κ ρ := ofLimits l
    let r := start.run events
    let c := r.pool.coalescer
    (∀ t, t ∈ c.aborted ↔ ∃ e ∈ start.deserted events, r.orders.get? t = some e ∧ t ∉ r.unrecorded) ∧
    ∀ t e, r.orders.get? t = some e →
      (t ∈ c.aborted → c.listening e = []) ∧
      (t ∉ r.undelivered →
        (∀ o, (e.key, o) ∈ c.registry.pending → o.generation = e.generation → o.running = some t) ∧
        (e ∈ c.exchanges → c.listening e = [] → t ∈ c.aborted)) ∧
      (∀ event, t ∉ c.aborted → t ∈ (r.step event).pool.coalescer.aborted → ∀ later, .register e.key ∉ later →
        let next := (((r.step event).run later).pool.coalescer.register e.key).1
        (∃ g, e.generation < g ∧ next.exchange = some ⟨e.key, g⟩) ∨
        (event = .record t ∧ next.exchange = none ∧ e.generation < next.waiter.generation ∧
          c.listening ⟨e.key, next.waiter.generation⟩ ≠ [])) ∧
      (t ∈ c.aborted → ∀ event : Event κ ρ, event.task? = some t →
        (r.step event).pool.coalescer = c ∨
        (r.step event).pool.coalescer = { c with exchanges := c.exchanges.erase e }) := by
  intro start r c
  have hr : r.Coherent := (Coherent.ofLimits l).run events
  have htracked : r.Tracked (start.deserted events) := (Tracked.ofLimits l).run (.ofLimits l) events
  have hsingle : c.registry.Single := single_run l events
  have haborted : ∀ {t e}, r.orders.get? t = some e → t ∈ c.aborted →
      t ∉ r.unrecorded ∧ c.registry.audience e = [] := fun ho ht => by
    obtain ⟨e', he', ho', hrecorded⟩ := (htracked.aborted _).1 ht
    cases ho.symm.trans ho'
    exact ⟨hrecorded, (htracked.silent _ he').1⟩
  refine ⟨htracked.aborted, fun t e ho => ⟨fun ht => ?_, fun ht => ⟨fun o hpending hgeneration => ?_, ?_⟩, ?_, ?_⟩⟩
  · exact hr.coalescer.listening_eq_nil_iff.2 (haborted ho ht).2
  · have hget := (Table.mem_iff_get? hsingle).1 hpending
    have hoperation : c.registry.operation? e.key e.generation = some o :=
      Registry.operation?_eq_some.2 ⟨hget, hgeneration⟩
    have hlistened : c.registry.audience e ≠ [] := by
      rw [Registry.audience_of_some hoperation]
      simpa using (hr.coalescer.registry.operation _ o hget).listened
    have hrecorded : t ∉ r.unrecorded := fun hmem => ht (hr.undelivered_of_unrecorded t hmem)
    exact (Registry.task?_of_some hoperation).symm.trans (hr.recorded t e ho hrecorded hlistened)
  · intro hin hnobody
    have hgone := htracked.left e hin (hr.coalescer.listening_eq_nil_iff.1 hnobody)
    exact (htracked.aborted t).2 ⟨e, hgone, ho, fun hmem => ht (hr.undelivered_of_unrecorded t hmem)⟩
  · intro event hbefore hafter later hlater next
    have hstep := hr.step event
    have hlate : ((r.step event).run later).Coherent := hstep.run later
    rcases hlate.coalescer.register_cases e.key with ⟨-, hstart⟩ | ⟨hjoin, hpending⟩
    · exact .inl ⟨_, Nat.lt_of_lt_of_le (hr.generation_lt t e ho)
        (Nat.le_trans (r.nextGeneration_step_le event) ((r.step event).nextGeneration_run_le later)), hstart⟩
    · have hstill := mt (silent_run (e := ⟨e.key, next.waiter.generation⟩) hstep hlater) hpending
      obtain ⟨hevent, hnewer, hold⟩ := waited_after_abort hr htracked.oldest ho hbefore hafter hstill
      exact .inr ⟨hevent, hjoin, hnewer, mt hr.coalescer.listening_eq_nil_iff.1 hold⟩
  · intro ht event hevent
    obtain ⟨hrecorded, hnil⟩ := haborted ho ht
    exact coalescer_step_of_silent hr ho hrecorded hnil hevent

/-- A dispatch that comes late: the waiter of an exchange leaves, someone else registers on the key, and only then is
the task of the first exchange recorded, and aborted. The next registration joins the second operation. -/
theorem abort_behind_newer :
    ¬ ∀ (events : List (Event Nat Nat)) (event : Event Nat Nat) (t : Nat) (e : Exchange Nat),
      let r : Relay Nat Nat := (ofLimits {}).run events
      r.orders.get? t = some e → t ∉ r.pool.coalescer.aborted → t ∈ (r.step event).pool.coalescer.aborted →
        ((r.step event).pool.coalescer.register e.key).1.exchange.isSome := fun h => by
  have hjoined := h [.register 0, .leave ⟨0, 0, 0⟩, .register 0, .begin ⟨0, 0⟩ 0] (.record 0) 0 ⟨0, 0⟩
    (by decide) (by decide)
    (by decide)
  revert hjoined
  decide

end Relay

end Entitle.Flight
