import Entitle.Flight.Coalescer
import Entitle.Proofs.Flight.Registry
import Mathlib.Data.List.Nodup
import Mathlib.Tactic.Set
import Mathlib.Tactic.ByContra

/-!
# Handles and the registry

`Coherent` ties the handles in use to the registry: the waiters of an operation are those that have
neither left nor got a result, and whoever waits has an exchange that owes the answer. It holds at the
start and after every step, in any order (`Coherent.run`).
-/

namespace Entitle.Flight.Coalescer

variable {κ ρ : Type} [DecidableEq κ] {c : Coalescer κ ρ}

/-! ### What an operation leaves alone -/

@[simp] theorem waiters_settle (c : Coalescer κ ρ) (e : Exchange κ) (d : Delivery ρ) :
    (c.settle e d).2.waiters = c.waiters := by
  unfold settle; split <;> rfl

@[simp] theorem waiters_attach (c : Coalescer κ ρ) (e : Exchange κ) (task : Nat) :
    (c.attach e task).waiters = c.waiters := by
  unfold attach
  repeat' split
  all_goals rfl

@[simp] theorem received_attach (c : Coalescer κ ρ) (e : Exchange κ) (task : Nat) :
    (c.attach e task).received = c.received := by
  unfold attach
  repeat' split
  all_goals rfl

@[simp] theorem exchanges_attach (c : Coalescer κ ρ) (e : Exchange κ) (task : Nat) :
    (c.attach e task).exchanges = c.exchanges := by
  unfold attach
  repeat' split
  all_goals rfl

@[simp] theorem waiters_takeSignal (c : Coalescer κ ρ) (e : Exchange κ) :
    (c.takeSignal e).2.waiters = c.waiters := by
  unfold takeSignal; split <;> rfl

@[simp] theorem received_takeSignal (c : Coalescer κ ρ) (e : Exchange κ) :
    (c.takeSignal e).2.received = c.received := by
  unfold takeSignal; split <;> rfl

@[simp] theorem exchanges_takeSignal (c : Coalescer κ ρ) (e : Exchange κ) :
    (c.takeSignal e).2.exchanges = c.exchanges := by
  unfold takeSignal; split <;> rfl

@[simp] theorem waiters_expedite (c : Coalescer κ ρ) (w : Waiter κ) : (c.expedite w).waiters = c.waiters := by
  unfold expedite; split <;> rfl

@[simp] theorem received_expedite (c : Coalescer κ ρ) (w : Waiter κ) : (c.expedite w).received = c.received := by
  unfold expedite; split <;> rfl

@[simp] theorem exchanges_expedite (c : Coalescer κ ρ) (w : Waiter κ) : (c.expedite w).exchanges = c.exchanges := by
  unfold expedite; split <;> rfl

@[simp] theorem exchanges_leave (c : Coalescer κ ρ) (w : Waiter κ) : (c.leave w).exchanges = c.exchanges := by
  unfold leave; split <;> rfl

@[simp] theorem exchanges_take (c : Coalescer κ ρ) (w : Waiter κ) : (c.take w).2.exchanges = c.exchanges := by
  unfold take
  repeat' split
  all_goals rfl

theorem exchanges_settle (c : Coalescer κ ρ) (e : Exchange κ) (d : Delivery ρ) :
    (c.settle e d).2.exchanges = c.exchanges.erase e := by
  unfold settle
  split
  · rfl
  · next h => exact (List.erase_of_not_mem h).symm

theorem mem_of_mem_waiters_leave {v w : Waiter κ} (h : v ∈ (c.leave w).waiters) : v ∈ c.waiters := by
  unfold leave at h
  split at h
  · exact List.mem_of_mem_erase h
  · exact h

theorem mem_of_mem_waiters_take {v w : Waiter κ} (h : v ∈ (c.take w).2.waiters) : v ∈ c.waiters := by
  unfold take at h
  split at h
  · split at h
    · exact List.mem_of_mem_erase h
    · exact h
  · exact h

theorem mem_waiters_step {v : Waiter κ} {s : Step κ ρ} (h : v ∈ (c.step s).waiters) :
    v ∈ c.waiters ∨ ∃ key, s = .register key ∧ v = (c.register key).1.waiter := by
  cases s with
  | register key =>
    rcases List.mem_append.1 h with h | h
    · exact .inl h
    · exact .inr ⟨key, rfl, List.mem_singleton.1 h⟩
  | leave w => exact .inl (mem_of_mem_waiters_leave h)
  | take w => exact .inl (mem_of_mem_waiters_take h)
  | complete e result => exact .inl (waiters_settle c e _ ▸ h)
  | drop e => exact .inl (waiters_settle c e _ ▸ h)
  | attach e task => exact .inl (waiters_attach c e task ▸ h)
  | signal e => exact .inl (waiters_takeSignal c e ▸ h)
  | expedite w => exact .inl (waiters_expedite c w ▸ h)

theorem mem_exchanges_step {e : Exchange κ} {s : Step κ ρ} (h : e ∈ (c.step s).exchanges) :
    e ∈ c.exchanges ∨ ∃ key, s = .register key ∧ (c.register key).1.exchange = some e := by
  cases s with
  | register key =>
    rcases List.mem_append.1 h with h | h
    · exact .inl h
    · exact .inr ⟨key, rfl, Option.mem_toList.1 h⟩
  | leave w => exact .inl (exchanges_leave c w ▸ h)
  | take w => exact .inl (exchanges_take c w ▸ h)
  | complete e' result => exact .inl (List.mem_of_mem_erase (exchanges_settle c e' _ ▸ h))
  | drop e' => exact .inl (List.mem_of_mem_erase (exchanges_settle c e' _ ▸ h))
  | attach e' task => exact .inl (exchanges_attach c e' task ▸ h)
  | signal e' => exact .inl (exchanges_takeSignal c e' ▸ h)
  | expedite w => exact .inl (exchanges_expedite c w ▸ h)

theorem register_exchange {key : κ} {e : Exchange κ} (h : (c.register key).1.exchange = some e) :
    e = (c.register key).1.waiter.exchange := by
  change (c.registry.register key).1 = some e at h
  rw [Registry.register_fst] at h
  split at h
  · cases h
  · exact (Option.some.inj h).symm

theorem key_of_register {key : κ} {e : Exchange κ} (h : (c.register key).1.exchange = some e) : e.key = key := by
  rw [register_exchange h]
  exact Registry.register_key key

/-- An exchange in use after a run was in use before it, or belongs to a registration of its key. -/
theorem mem_exchanges_run {e : Exchange κ} {steps : List (Step κ ρ)} (h : e ∈ (c.run steps).exchanges) :
    e ∈ c.exchanges ∨ .register e.key ∈ steps := by
  induction steps generalizing c with
  | nil => exact .inl h
  | cons s rest ih =>
    rcases ih h with h | h
    · rcases mem_exchanges_step h with h | ⟨key, rfl, hnew⟩
      · exact .inl h
      · exact .inr (key_of_register hnew ▸ List.mem_cons_self)
    · exact .inr (List.mem_cons_of_mem _ h)

/-- The handles in use and the registry agree. -/
structure Coherent (c : Coalescer κ ρ) : Prop where
  registry : c.registry.Sound
  /-- The audience of an exchange: waiters in use, without a result. -/
  listening : ∀ w, w ∈ c.registry.audience w.exchange ↔ w ∈ c.waiters ∧ c.received.get? w = none
  /-- Whoever waits has an exchange that owes the answer. -/
  owed : ∀ e, c.registry.audience e ≠ [] → e ∈ c.exchanges
  known : ∀ w ∈ c.waiters, c.registry.Knows w
  received_mem : ∀ w, c.received.get? w ≠ none → w ∈ c.waiters
  generation_lt : ∀ e ∈ c.exchanges, e.generation < c.registry.nextGeneration
  waiters_nodup : c.waiters.Nodup
  exchanges_nodup : c.exchanges.Nodup

namespace Coherent

theorem empty : ({} : Coalescer κ ρ).Coherent where
  registry := .empty
  listening w := by simp [Registry.audience, Registry.operation?]
  owed e := by simp [Registry.audience, Registry.operation?]
  known := by simp
  received_mem := by simp
  generation_lt := by simp
  waiters_nodup := .nil
  exchanges_nodup := .nil

/-- A change of the registry that neither view of the waiters shows. -/
theorem of_registry (h : c.Coherent) {r : Registry κ} {aborted : List Nat} (hs : r.Sound)
    (ha : ∀ e, r.audience e = c.registry.audience e) (hk : ∀ w, c.registry.Knows w → r.Knows w)
    (hg : c.registry.nextGeneration ≤ r.nextGeneration) :
    Coherent { c with registry := r, aborted } where
  registry := hs
  listening w := by rw [ha]; exact h.listening w
  owed e := by rw [ha]; exact h.owed e
  known w hw := hk w (h.known w hw)
  received_mem := h.received_mem
  generation_lt e he := Nat.lt_of_lt_of_le (h.generation_lt e he) hg
  waiters_nodup := h.waiters_nodup
  exchanges_nodup := h.exchanges_nodup

theorem attach (h : c.Coherent) (e : Exchange κ) (task : Nat) : (c.attach e task).Coherent := by
  unfold Coalescer.attach
  split
  · split
    · next r hr =>
      exact h.of_registry (h.registry.attach hr) (Registry.audience_attach hr) (fun w hw => hw.attach hr)
        (Nat.le_of_eq (Registry.nextGeneration_attach hr).symm)
    · exact h.of_registry h.registry (fun _ => rfl) (fun _ hw => hw) (Nat.le_refl _)
  · exact h

theorem expedite (h : c.Coherent) (w : Waiter κ) : (c.expedite w).Coherent := by
  unfold Coalescer.expedite
  split
  · exact h.of_registry (h.registry.expedite w) (Registry.audience_expedite w) (fun _ hv => hv.expedite w)
      (Nat.le_of_eq (Registry.nextGeneration_expedite w).symm)
  · exact h

theorem takeSignal (h : c.Coherent) (e : Exchange κ) : (c.takeSignal e).2.Coherent := by
  unfold Coalescer.takeSignal
  split
  · exact h.of_registry (h.registry.takeSignal e) (Registry.audience_takeSignal e) (fun _ hv => hv.takeSignal e)
      (Nat.le_of_eq (Registry.nextGeneration_takeSignal e).symm)
  · exact h

theorem not_mem_register (h : c.Coherent) (key : κ) : (c.register key).1.waiter ∉ c.waiters :=
  fun hw => Registry.not_knows_register key (h.known _ hw)

theorem exchange_not_mem (h : c.Coherent) {key : κ} {e : Exchange κ} (he : (c.register key).1.exchange = some e) :
    e ∉ c.exchanges := by
  intro hmem
  change (c.registry.register key).1 = some e at he
  cases ho : c.registry.pending.get? key with
  | some o => rw [Registry.register_joined ho] at he; cases he
  | none =>
    rw [Registry.register_started ho] at he
    cases he
    exact Nat.lt_irrefl _ (h.generation_lt _ hmem)

theorem register (h : c.Coherent) (key : κ) : (c.register key).2.Coherent := by
  have hnew := h.not_mem_register key
  have hexch := @h.exchange_not_mem _ _ _ _ key
  have haud := Registry.audience_register (r := c.registry) key
  have hfst := Registry.register_fst (r := c.registry) key
  have hgen : c.registry.nextGeneration ≤ (c.registry.register key).2.2.nextGeneration := by
    rw [Registry.nextGeneration_register]; exact Nat.le_add_right _ _
  simp only [Coalescer.register] at hnew hexch ⊢
  set w := (c.registry.register key).2.1 with hw
  have hfresh : c.received.get? w = none := by
    by_contra hr
    exact hnew (h.received_mem w hr)
  refine ⟨h.registry.register key, ?_, ?_, ?_, ?_, ?_, ?_, ?_⟩
  · intro v
    rw [haud, List.mem_append, List.mem_singleton]
    split
    · rw [List.mem_append, List.mem_singleton, h.listening v]
      constructor
      · rintro (⟨hv, hr⟩ | rfl)
        · exact ⟨.inl hv, hr⟩
        · exact ⟨.inr rfl, hfresh⟩
      · rintro ⟨hv | rfl, hr⟩
        · exact .inl ⟨hv, hr⟩
        · exact .inr rfl
    · next hne =>
      rw [h.listening v]
      constructor
      · rintro ⟨hv, hr⟩
        exact ⟨.inl hv, hr⟩
      · rintro ⟨hv | rfl, hr⟩
        · exact ⟨hv, hr⟩
        · exact absurd rfl hne
  · intro e he
    rw [haud] at he
    rw [List.mem_append]
    split at he
    · next hew =>
      subst hew
      by_cases hin : c.registry.isInFlight key
      · exact .inl (h.owed _ (h.registry.audience_ne_nil_of_isInFlight hin))
      · exact .inr (by rw [hfst, if_neg hin]; simp)
    · exact .inl (h.owed e he)
  · intro v hv
    rcases List.mem_append.1 hv with hv | hv
    · exact (h.known v hv).register key
    · rw [List.mem_singleton.1 hv]; exact h.registry.knows_register key
  · exact fun v hv => List.mem_append_left _ (h.received_mem v hv)
  · intro e he
    rcases List.mem_append.1 he with he | he
    · exact Nat.lt_of_lt_of_le (h.generation_lt e he) hgen
    · rw [Option.mem_toList, hfst] at he
      split at he
      · cases he
      · cases he
        exact (h.registry.knows_register key).1
  · exact h.waiters_nodup.append (List.nodup_singleton _) (by simpa using hnew)
  · refine h.exchanges_nodup.append ?_ ?_
    · cases (c.registry.register key).1 <;> simp
    · intro e he he'
      exact hexch (Option.mem_toList.1 he') he

theorem settle (h : c.Coherent) (e : Exchange κ) (d : Delivery ρ) : (c.settle e d).2.Coherent := by
  unfold Coalescer.settle
  split
  swap
  · exact h
  next he =>
  have haud := Registry.audience_settle (r := c.registry) e
  have hget : ∀ v, Table.get? (c.received ++ (c.registry.settle e).1.map (·, d)) v =
      (c.received.get? v).or (if v ∈ c.registry.audience e then some d else none) := by
    intro v
    rw [Table.get?_append, Table.get?_map_const, Registry.settle_fst]
  refine ⟨h.registry.settle e, ?_, ?_, ?_, ?_, ?_, h.waiters_nodup, h.exchanges_nodup.erase e⟩
  · intro v
    rw [haud, hget]
    by_cases hv : v.exchange = e
    · rw [if_pos hv]
      refine ⟨fun hnil => absurd hnil List.not_mem_nil, fun ⟨hw, hr⟩ => ?_⟩
      obtain ⟨hr, hnot⟩ := Option.or_eq_none_iff.1 hr
      have hmem : v ∈ c.registry.audience e := hv ▸ (h.listening v).2 ⟨hw, hr⟩
      rw [if_pos hmem] at hnot
      cases hnot
    · have hnot : v ∉ c.registry.audience e := fun hmem => hv (Registry.exchange_of_mem_audience hmem)
      rw [if_neg hv, if_neg hnot, Option.or_none]
      exact h.listening v
  · intro e' he'
    rw [haud] at he'
    split at he'
    · exact absurd rfl he'
    · next hne => exact (List.mem_erase_of_ne hne).2 (h.owed e' he')
  · exact fun v hv => (h.known v hv).settle e
  · intro v hv
    rw [hget] at hv
    by_cases hmem : v ∈ c.registry.audience e
    · rw [← Registry.exchange_of_mem_audience hmem] at hmem
      exact ((h.listening v).1 hmem).1
    · rw [if_neg hmem, Option.or_none] at hv
      exact h.received_mem v hv
  · intro e' he'
    simp only [Registry.nextGeneration_settle]
    exact h.generation_lt e' (List.mem_of_mem_erase he')

theorem leave (h : c.Coherent) (w : Waiter κ) : (c.leave w).Coherent := by
  unfold Coalescer.leave
  split
  swap
  · exact h
  have haud := Registry.audience_leave (r := c.registry) w
  refine ⟨h.registry.leave w, ?_, ?_, ?_, ?_, ?_, h.waiters_nodup.erase w, h.exchanges_nodup⟩
  · intro v
    rw [haud, List.mem_filter, h.listening v, h.waiters_nodup.mem_erase_iff, Table.get?_erase]
    by_cases hv : v = w
    · simp [hv]
    · simp [hv, Ne.symm hv]
  · intro e he
    rw [haud] at he
    exact h.owed e fun hnil => he (by rw [hnil]; rfl)
  · exact fun v hv => (h.known v (List.mem_of_mem_erase hv)).leave w
  · intro v hv
    rw [Table.get?_erase] at hv
    split at hv
    · exact absurd rfl hv
    · next hne => exact (List.mem_erase_of_ne (Ne.symm hne)).2 (h.received_mem v hv)
  · intro e he
    simp only [Registry.nextGeneration_leave]
    exact h.generation_lt e he

theorem take (h : c.Coherent) (w : Waiter κ) : (c.take w).2.Coherent := by
  unfold Coalescer.take
  split
  swap
  · exact h
  split
  swap
  · exact h
  next hw d hd =>
  have hnot : w ∉ c.registry.audience w.exchange := fun hmem => by
    rw [((h.listening w).1 hmem).2] at hd; cases hd
  refine ⟨h.registry, ?_, h.owed, ?_, ?_, h.generation_lt, h.waiters_nodup.erase w, h.exchanges_nodup⟩
  · intro v
    rw [h.waiters_nodup.mem_erase_iff, Table.get?_erase]
    by_cases hv : v = w
    · subst hv; simp [hnot]
    · rw [if_neg (Ne.symm hv), h.listening v]
      simp [hv]
  · exact fun v hv => h.known v (List.mem_of_mem_erase hv)
  · intro v hv
    rw [Table.get?_erase] at hv
    split at hv
    · exact absurd rfl hv
    · next hne => exact (List.mem_erase_of_ne (Ne.symm hne)).2 (h.received_mem v hv)

theorem step (h : c.Coherent) (s : Step κ ρ) : (c.step s).Coherent := by
  cases s with
  | register key => exact h.register key
  | complete e result => exact h.settle e (.value result)
  | drop e => exact h.settle e .abandoned
  | attach e task => exact h.attach e task
  | signal e => exact h.takeSignal e
  | expedite w => exact h.expedite w
  | leave w => exact h.leave w
  | take w => exact h.take w

theorem run (h : c.Coherent) (steps : List (Step κ ρ)) : (c.run steps).Coherent := by
  induction steps generalizing c with
  | nil => exact h
  | cons s rest ih => exact ih (h.step s)

end Coherent

/-- What a step does to the registry: one of its operations, or nothing. -/
theorem registry_step {P : Registry κ → Prop} (same : P c.registry)
    (register : ∀ key, P (c.registry.register key).2.2) (settle : ∀ e, P (c.registry.settle e).2)
    (attach : ∀ e task r, c.registry.attach e task = some r → P r) (takeSignal : ∀ e, P (c.registry.takeSignal e).2)
    (expedite : ∀ w, P (c.registry.expedite w)) (leave : ∀ w, P (c.registry.leave w).2) (s : Step κ ρ) :
    P (c.step s).registry := by
  have hsettle : ∀ e d, P (c.settle e d).2.registry := by
    intro e d
    unfold Coalescer.settle
    split
    · exact settle e
    · exact same
  cases s with
  | register key => exact register key
  | complete e result => exact hsettle e _
  | drop e => exact hsettle e _
  | attach e task =>
    simp only [step, Coalescer.attach]
    split
    · split
      · next r hr => exact attach e task r hr
      · exact same
    · exact same
  | signal e =>
    simp only [step, Coalescer.takeSignal]
    split
    · exact takeSignal e
    · exact same
  | expedite w =>
    simp only [step, Coalescer.expedite]
    split
    · exact expedite w
    · exact same
  | leave w =>
    simp only [step, Coalescer.leave]
    split
    · exact leave w
    · exact same
  | take w =>
    simp only [step, Coalescer.take]
    split
    · split <;> exact same
    · exact same

/-- What a step makes of the waiters of an operation. -/
def audienceAfter (c : Coalescer κ ρ) (e : Exchange κ) : Step κ ρ → List (Waiter κ)
  | .register key =>
    if e = (c.register key).1.waiter.exchange then c.registry.audience e ++ [(c.register key).1.waiter]
    else c.registry.audience e
  | .complete e' _ => if e = e' then [] else c.registry.audience e
  | .drop e' => if e = e' then [] else c.registry.audience e
  | .leave w => (c.registry.audience e).filter (· ≠ w)
  | _ => c.registry.audience e

namespace Coherent

theorem audience_eq_nil (h : c.Coherent) {e : Exchange κ} (he : e ∉ c.exchanges) : c.registry.audience e = [] :=
  not_not.1 (mt (h.owed e) he)

theorem filter_audience (h : c.Coherent) {w : Waiter κ} (hw : w ∉ c.waiters) (e : Exchange κ) :
    (c.registry.audience e).filter (· ≠ w) = c.registry.audience e := by
  refine List.filter_eq_self.2 fun v hv => ?_
  have he := Registry.exchange_of_mem_audience hv
  subst he
  have hmem := ((h.listening v).1 hv).1
  simpa using fun hvw : v = w => hw (hvw ▸ hmem)

theorem audience_settle (h : c.Coherent) (e' : Exchange κ) (d : Delivery ρ) (e : Exchange κ) :
    (c.settle e' d).2.registry.audience e = if e = e' then [] else c.registry.audience e := by
  unfold Coalescer.settle
  split
  · exact Registry.audience_settle e' e
  · next hnot =>
    split
    · next he => subst he; exact h.audience_eq_nil hnot
    · rfl

theorem audience_leave (h : c.Coherent) (w : Waiter κ) (e : Exchange κ) :
    (c.leave w).registry.audience e = (c.registry.audience e).filter (· ≠ w) := by
  unfold Coalescer.leave
  split
  · exact Registry.audience_leave w e
  · next hnot => exact (h.filter_audience hnot e).symm

theorem audience_step (h : c.Coherent) (s : Step κ ρ) (e : Exchange κ) :
    (c.step s).registry.audience e = c.audienceAfter e s := by
  cases s with
  | register key => exact Registry.audience_register key e
  | complete e' result => exact h.audience_settle e' _ e
  | drop e' => exact h.audience_settle e' _ e
  | leave w => exact h.audience_leave w e
  | attach e' task =>
    simp only [Coalescer.step, Coalescer.attach, audienceAfter]
    split
    · split
      · next hr => exact Registry.audience_attach hr e
      · rfl
    · rfl
  | signal e' =>
    simp only [Coalescer.step, Coalescer.takeSignal, audienceAfter]
    split
    · exact Registry.audience_takeSignal e' e
    · rfl
  | expedite w =>
    simp only [Coalescer.step, Coalescer.expedite, audienceAfter]
    split
    · exact Registry.audience_expedite w e
    · rfl
  | take w =>
    simp only [Coalescer.step, Coalescer.take, audienceAfter]
    split
    · split <;> rfl
    · rfl

end Coherent

theorem Registry.Knows.step {w : Waiter κ} (h : c.registry.Knows w) (s : Step κ ρ) : (c.step s).registry.Knows w :=
  c.registry_step h h.register h.settle (fun _ _ _ ha => h.attach ha) h.takeSignal h.expedite h.leave s

theorem nextGeneration_step_le (c : Coalescer κ ρ) (s : Step κ ρ) :
    c.registry.nextGeneration ≤ (c.step s).registry.nextGeneration := by
  refine c.registry_step (P := fun r => c.registry.nextGeneration ≤ r.nextGeneration) (Nat.le_refl _)
    ?_ ?_ ?_ ?_ ?_ ?_ s
  · intro key; rw [Registry.nextGeneration_register]; exact Nat.le_add_right _ _
  · exact fun e => Nat.le_of_eq (Registry.nextGeneration_settle e).symm
  · exact fun e task r h => Nat.le_of_eq (Registry.nextGeneration_attach h).symm
  · exact fun e => Nat.le_of_eq (Registry.nextGeneration_takeSignal e).symm
  · exact fun w => Nat.le_of_eq (Registry.nextGeneration_expedite w).symm
  · exact fun w => Nat.le_of_eq (Registry.nextGeneration_leave w).symm

end Entitle.Flight.Coalescer
