import Entitle.Flight.Pool
import Entitle.Proofs.Flight.FanOut
import Entitle.Proofs.Flight.Dispatcher

/-!
# Tasks and exchanges

`Pool.Coherent`: every task that has not ended is in one stage of the dispatcher, and a task runs an exchange
if and only if the registry names it as the task of the pending operation. So an exchange has one task, a key
has one live exchange, and a task whose operation has ended is gone.

While one task is about to stop the two sides differ for that task alone (`CoherentBut`); stopping it restores
the invariant. What a pool does to its coalescer is a list of steps (`Pool.trace`), so what holds of every run
of a coalescer holds here.
-/

namespace Entitle.Flight

variable {κ ρ : Type} [DecidableEq κ]

/-! ### The task of an exchange -/

namespace Coalescer
variable {c : Coalescer κ ρ} {w : Waiter κ} {t : Nat}

/-- The task that a waiter aborts by leaving. -/
def orphan? (c : Coalescer κ ρ) (w : Waiter κ) : Option Nat :=
  if c.waiters.contains w then (c.registry.leave w).1 else none

theorem orphan?_of_mem (hw : w ∈ c.waiters) : c.orphan? w = (c.registry.leave w).1 :=
  if_pos (List.contains_iff_mem.2 hw)

theorem orphan?_of_not_mem (hw : w ∉ c.waiters) : c.orphan? w = none :=
  if_neg fun h => hw (List.contains_iff_mem.1 h)

theorem aborted_leave (c : Coalescer κ ρ) (w : Waiter κ) :
    (c.leave w).aborted = c.aborted ++ (c.orphan? w).toList := by
  unfold leave
  split
  · next hw => rw [orphan?_of_mem hw]
  · next hw => simp [orphan?_of_not_mem hw]

theorem task?_register (c : Coalescer κ ρ) (key : κ) (e : Exchange κ) :
    (c.register key).2.registry.task? e = c.registry.task? e :=
  Registry.task?_register key e

theorem task?_expedite (c : Coalescer κ ρ) (w : Waiter κ) (e : Exchange κ) :
    (c.expedite w).registry.task? e = c.registry.task? e := by
  unfold expedite
  split
  · exact Registry.task?_expedite w e
  · rfl

theorem task?_takeSignal (c : Coalescer κ ρ) (e₀ e : Exchange κ) :
    (c.takeSignal e₀).2.registry.task? e = c.registry.task? e := by
  unfold takeSignal
  split
  · exact Registry.task?_takeSignal e₀ e
  · rfl

theorem registry_take (c : Coalescer κ ρ) (w : Waiter κ) : (c.take w).2.registry = c.registry := by
  unfold take
  repeat' split
  all_goals rfl

theorem orphan?_eq_some (h : c.orphan? w = some t) : c.registry.task? w.exchange = some t := by
  unfold orphan? at h
  split at h
  · rw [Registry.leave_fst] at h
    split at h
    · exact h
    · cases h
  · cases h

theorem audience_of_orphan? (h : c.orphan? w = some t) : (c.leave w).registry.audience w.exchange = [] := by
  by_cases hw : w ∈ c.waiters
  · rw [orphan?_of_mem hw, Registry.leave_fst] at h
    unfold leave
    split at h
    · next hnil => rw [if_pos hw]; exact hnil
    · cases h
  · rw [orphan?_of_not_mem hw] at h
    cases h

namespace Coherent

theorem task?_settle (h : c.Coherent) (e₀ : Exchange κ) (d : Delivery ρ) (e : Exchange κ) :
    (c.settle e₀ d).2.registry.task? e = if e = e₀ then none else c.registry.task? e := by
  unfold Coalescer.settle
  split
  · exact Registry.task?_settle e₀ e
  · next hnot =>
    split
    · next he => subst he; exact h.registry.task?_of_audience (h.audience_eq_nil hnot)
    · rfl

theorem task?_leave (h : c.Coherent) (w : Waiter κ) (e : Exchange κ) :
    (c.leave w).registry.task? e =
      if (c.orphan? w).isSome ∧ e = w.exchange then none else c.registry.task? e := by
  unfold Coalescer.leave
  by_cases hw : w ∈ c.waiters
  · rw [if_pos hw, orphan?_of_mem hw]
    simp only
    rw [h.registry.task?_leave, Registry.leave_fst]
    by_cases he : e = w.exchange
    · subst he
      by_cases hnil : (c.registry.leave w).2.audience w.exchange = []
      · cases ht : c.registry.task? w.exchange <;> simp [hnil]
      · simp [hnil]
    · simp only [he, and_false, if_false]
      split
      · next hnil =>
        have hsame : (c.registry.leave w).2.audience e = c.registry.audience e := by
          rw [Registry.audience_leave]
          refine List.filter_eq_self.2 fun v hv => ?_
          simpa using fun hvw : v = w => he (by rw [← Registry.exchange_of_mem_audience hv, hvw])
        exact (h.registry.task?_of_audience (hsame ▸ hnil)).symm
      · rfl
  · simp [hw, orphan?_of_not_mem hw]

/-- Recording a task shows in the registry if the operation is pending; else the task is aborted. -/
theorem attach_cases (h : c.Coherent) {e : Exchange κ} (he : e ∈ c.exchanges) (t : Nat) :
    (c.registry.audience e ≠ [] ∧ (c.attach e t).aborted = c.aborted ∧
      ∀ e', (c.attach e t).registry.task? e' = if e' = e then some t else c.registry.task? e') ∨
    (c.registry.audience e = [] ∧ (c.attach e t).aborted = c.aborted ++ [t] ∧
      (c.attach e t).registry = c.registry) := by
  unfold Coalescer.attach
  rw [if_pos he]
  split
  · next r hr =>
    refine .inl ⟨fun hnil => ?_, rfl, Registry.task?_attach hr⟩
    rw [Registry.attach_eq_none.2 (h.registry.operation?_eq_none_of_audience hnil)] at hr
    cases hr
  · next hr => exact .inr ⟨Registry.audience_of_none (Registry.attach_eq_none.1 hr), rfl, rfl⟩

theorem mem_exchanges_of_task? (h : c.Coherent) {e : Exchange κ} (he : c.registry.task? e = some t) :
    e ∈ c.exchanges := by
  refine h.owed e fun hnil => ?_
  rw [h.registry.task?_of_audience hnil] at he
  cases he

end Coherent

end Coalescer

/-! ### The invariant -/

namespace Pool
variable {p : Pool κ ρ} {t : Nat} {e : Exchange κ}

/-- Stages and tasks agree. -/
structure Staged (p : Pool κ ρ) : Prop where
  coalescer : p.coalescer.Coherent
  stages : p.dispatcher.tasks.Perm p.tasks.keys
  tasks_nodup : p.tasks.keys.Nodup
  task_lt : ∀ t ∈ p.tasks.keys, t < p.nextTask

/-- Every task runs the exchange whose operation names it, and no other task does. -/
structure Coherent (p : Pool κ ρ) : Prop extends p.Staged where
  assigned : ∀ t e, p.exchange? t = some e ↔ p.coalescer.registry.task? e = some t

/-- Coherent, except that the operation of one task may have ended. -/
structure CoherentBut (p : Pool κ ρ) (t : Nat) : Prop extends p.Staged where
  others : ∀ t' e, t' ≠ t → (p.exchange? t' = some e ↔ p.coalescer.registry.task? e = some t')
  own : ∀ e, p.coalescer.registry.task? e = some t → p.exchange? t = some e
  alone : ∀ e t', p.exchange? t = some e → p.coalescer.registry.task? e = some t' → t' = t

theorem Staged.nodup (h : p.Staged) : p.dispatcher.tasks.Nodup :=
  h.stages.nodup_iff.2 h.tasks_nodup

omit [DecidableEq κ] in
theorem exchange?_eq_some : p.exchange? t = some e ↔ p.tasks.get? t = some (some e) := by
  simp [exchange?, Option.join_eq_some_iff]

omit [DecidableEq κ] in
theorem mem_keys_of_exchange? (h : p.exchange? t = some e) : t ∈ p.tasks.keys := by
  rw [Table.mem_keys, exchange?_eq_some.1 h]
  simp

theorem Staged.mem_tasks (h : p.Staged) (ht : p.exchange? t = some e) : t ∈ p.dispatcher.tasks :=
  h.stages.mem_iff.2 (mem_keys_of_exchange? ht)

theorem Staged.of_coalescer (h : p.Staged) {c : Coalescer κ ρ} (hc : c.Coherent) :
    Staged { p with coalescer := c } :=
  ⟨hc, h.stages, h.tasks_nodup, h.task_lt⟩

theorem Staged.of_perm (h : p.Staged) {d : Dispatcher} (hd : d.tasks.Perm p.dispatcher.tasks) :
    Staged { p with dispatcher := d } :=
  ⟨h.coalescer, hd.trans h.stages, h.tasks_nodup, h.task_lt⟩

omit [DecidableEq κ] in
theorem exchange?_erase (p : Pool κ ρ) (t t' : Nat) :
    (Table.get? (p.tasks.erase t) t').join = if t = t' then none else p.exchange? t' := by
  rw [Table.get?_erase]
  split <;> rfl

namespace Coherent

theorem ofLimits (l : Limits) : (ofLimits l : Pool κ ρ).Coherent :=
  ⟨⟨.empty, .refl _, .nil, by simp [Pool.ofLimits, Table.keys]⟩, fun t e => by
    simp [Pool.ofLimits, exchange?, Registry.task?, Registry.operation?]⟩

theorem but (h : p.Coherent) (t : Nat) : p.CoherentBut t where
  toStaged := h.toStaged
  others t' e _ := h.assigned t' e
  own e := (h.assigned t e).2
  alone e t' he ht' := by
    rw [(h.assigned t e).1 he] at ht'
    exact (Option.some.inj ht').symm

/-- An exchange has one task. -/
theorem task_unique (h : p.Coherent) {t₁ t₂ : Nat} (h₁ : p.exchange? t₁ = some e) (h₂ : p.exchange? t₂ = some e) :
    t₁ = t₂ := by
  have := (h.assigned t₁ e).1 h₁
  rw [(h.assigned t₂ e).1 h₂] at this
  exact (Option.some.inj this).symm

/-- A key has one live exchange. -/
theorem exchange_unique (h : p.Coherent) {t₁ t₂ : Nat} {e₁ e₂ : Exchange κ} (h₁ : p.exchange? t₁ = some e₁)
    (h₂ : p.exchange? t₂ = some e₂) (hkey : e₁.key = e₂.key) : e₁ = e₂ := by
  obtain ⟨o₁, ho₁, -⟩ := Option.bind_eq_some_iff.1 ((h.assigned t₁ e₁).1 h₁)
  obtain ⟨o₂, ho₂, -⟩ := Option.bind_eq_some_iff.1 ((h.assigned t₂ e₂).1 h₂)
  have hgen : e₁.generation = e₂.generation := Registry.operation?_unique ho₁ (hkey ▸ ho₂)
  cases e₁
  cases e₂
  simp_all

theorem mem_exchanges (h : p.Coherent) (ht : p.exchange? t = some e) : e ∈ p.coalescer.exchanges :=
  h.coalescer.mem_exchanges_of_task? ((h.assigned t e).1 ht)

theorem of_coalescer (h : p.Coherent) {c : Coalescer κ ρ} (hc : c.Coherent)
    (ht : ∀ e, c.registry.task? e = p.coalescer.registry.task? e) : Coherent { p with coalescer := c } :=
  ⟨h.toStaged.of_coalescer hc, fun t e => by rw [ht]; exact h.assigned t e⟩

theorem of_perm (h : p.Coherent) {d : Dispatcher} (hd : d.tasks.Perm p.dispatcher.tasks) :
    Coherent { p with dispatcher := d } :=
  ⟨h.toStaged.of_perm hd, h.assigned⟩

end Coherent

/-- The operation of one exchange ended. -/
theorem Coherent.but_of_ended (h : p.Coherent) (he : p.exchange? t = some e) {c : Coalescer κ ρ} (hc : c.Coherent)
    (htask : ∀ e', c.registry.task? e' = if e' = e then none else p.coalescer.registry.task? e') :
    CoherentBut { p with coalescer := c } t where
  toStaged := h.toStaged.of_coalescer hc
  others t' e' ht' := by
    show p.exchange? t' = some e' ↔ c.registry.task? e' = some t'
    rw [htask]
    split
    · next heq =>
      subst heq
      exact ⟨fun hex => absurd (h.task_unique hex he) ht', fun hn => by cases hn⟩
    · exact h.assigned t' e'
  own e' he' := by
    change c.registry.task? e' = some t at he'
    rw [htask] at he'
    split at he'
    · cases he'
    · exact (h.assigned t e').2 he'
  alone e' t' he' ht' := by
    change p.exchange? t = some e' at he'
    change c.registry.task? e' = some t' at ht'
    rw [he] at he'
    cases he'
    rw [htask, if_pos rfl] at ht'
    cases ht'

theorem Staged.retire (h : p.Staged) (t : Nat) :
    Staged { p with dispatcher := p.dispatcher.stop t, tasks := p.tasks.erase t } := by
  refine ⟨h.coalescer, ?_, ?_, fun t' ht' => ?_⟩
  · show (p.dispatcher.stop t).tasks.Perm (p.tasks.erase t).keys
    rw [Table.keys_erase]
    refine (Dispatcher.tasks_stop h.nodup t).trans ((h.stages.erase t).trans (.of_eq ?_))
    rw [h.tasks_nodup.erase_eq_filter]
    exact List.filter_congr fun _ _ => by grind
  · show (p.tasks.erase t).keys.Nodup
    rw [Table.keys_erase]
    exact h.tasks_nodup.filter _
  · change t' ∈ (p.tasks.erase t).keys at ht'
    rw [Table.keys_erase] at ht'
    exact h.task_lt t' (List.mem_filter.1 ht').1

theorem CoherentBut.stop (h : p.CoherentBut t) : (p.stop t).Coherent := by
  have hretire := h.toStaged.retire t
  unfold Pool.stop
  cases he : p.exchange? t with
  | none =>
    refine ⟨hretire, fun t' e => ?_⟩
    show (Table.get? (p.tasks.erase t) t').join = _ ↔ p.coalescer.registry.task? e = _
    rw [exchange?_erase]
    split
    · next ht =>
      subst ht
      refine ⟨fun hn => (by cases hn), fun htask => ?_⟩
      rw [h.own e htask] at he
      cases he
    · next ht => exact h.others t' e (Ne.symm ht)
  | some e₀ =>
    refine ⟨hretire.of_coalescer (h.coalescer.settle e₀ .abandoned), fun t' e => ?_⟩
    show (Table.get? (p.tasks.erase t) t').join = _ ↔ (p.coalescer.settle e₀ .abandoned).2.registry.task? e = _
    rw [exchange?_erase, h.coalescer.task?_settle]
    split
    · next ht =>
      subst ht
      refine ⟨fun hn => (by cases hn), fun htask => ?_⟩
      split at htask
      · cases htask
      · next hne =>
        rw [h.own e htask] at he
        exact absurd (Option.some.inj he) hne
    · next ht =>
      split
      · next heq =>
        subst heq
        refine ⟨fun hex => ?_, fun hn => by cases hn⟩
        exact absurd (h.alone e t' he ((h.others t' e (Ne.symm ht)).1 hex)) (Ne.symm ht)
      · exact h.others t' e (Ne.symm ht)

/-- A new task leaves the others as they are. -/
theorem Staged.spawn (h : p.Staged) (exchange : Option (Exchange κ)) (delay : Nat) :
    (p.spawn exchange delay).2.Staged := by
  have hnew : p.nextTask ∉ p.tasks.keys := fun hmem => Nat.lt_irrefl _ (h.task_lt _ hmem)
  refine ⟨h.coalescer, ?_, ?_, ?_⟩
  · show (p.dispatcher.spawn p.nextTask delay).tasks.Perm (p.tasks.put p.nextTask exchange).keys
    rw [Table.keys_put hnew]
    exact (Dispatcher.tasks_spawn _ _).trans ((h.stages.cons _).trans (List.perm_append_singleton _ _).symm)
  · show (p.tasks.put p.nextTask exchange).keys.Nodup
    rw [Table.keys_put hnew]
    exact h.tasks_nodup.append (List.nodup_singleton _) (by simpa using hnew)
  · intro t ht
    change t ∈ (p.tasks.put p.nextTask exchange).keys at ht
    rw [Table.keys_put hnew, List.mem_append, List.mem_singleton] at ht
    rcases ht with ht | rfl
    · exact Nat.lt_succ_of_lt (h.task_lt t ht)
    · exact Nat.lt_succ_self _

omit [DecidableEq κ] in
theorem exchange?_spawn (p : Pool κ ρ) (exchange : Option (Exchange κ)) (delay t : Nat) :
    (p.spawn exchange delay).2.exchange? t = if p.nextTask = t then exchange else p.exchange? t := by
  simp only [exchange?, Pool.spawn, Table.get?_put]
  split <;> rfl

theorem stopAborted_of_aborted {before : Coalescer κ ρ} {l : List Nat}
    (h : p.coalescer.aborted = before.aborted ++ l) : p.stopAborted before = l.foldl Pool.stop p := by
  rw [stopAborted, h, List.drop_left]

namespace Coherent

theorem stop (h : p.Coherent) (t : Nat) : (p.stop t).Coherent :=
  (h.but t).stop

theorem register (h : p.Coherent) (key : κ) : (p.register key).2.Coherent :=
  h.of_coalescer (h.coalescer.register key) (p.coalescer.task?_register key)

theorem expedite (h : p.Coherent) (w : Waiter κ) : (p.expedite w).Coherent :=
  h.of_coalescer (h.coalescer.expedite w) (p.coalescer.task?_expedite w)

theorem take (h : p.Coherent) (w : Waiter κ) : (p.take w).2.Coherent :=
  h.of_coalescer (h.coalescer.take w) fun e => by
    show (p.coalescer.take w).2.registry.task? e = _
    rw [Coalescer.registry_take]

theorem takeSignal (h : p.Coherent) (t : Nat) : (p.takeSignal t).2.Coherent := by
  unfold Pool.takeSignal
  split
  · next e _ => exact h.of_coalescer (h.coalescer.takeSignal e) (p.coalescer.task?_takeSignal e)
  · exact h

theorem task?_ne_nextTask (h : p.Coherent) (e : Exchange κ) :
    p.coalescer.registry.task? e ≠ some p.nextTask := fun ht =>
  Nat.lt_irrefl _ (h.task_lt _ (mem_keys_of_exchange? ((h.assigned _ e).2 ht)))

theorem schedule (h : p.Coherent) (delay : Nat) : (p.spawn none delay).2.Coherent := by
  refine ⟨Staged.spawn h.toStaged none delay, fun t e => ?_⟩
  rw [exchange?_spawn]
  split
  · next ht =>
    subst ht
    exact ⟨fun hn => (by cases hn), fun htask => absurd htask (h.task?_ne_nextTask e)⟩
  · exact h.assigned t e

theorem of_isUnassigned (h : p.Coherent) (hu : p.isUnassigned e) :
    e ∈ p.coalescer.exchanges ∧ p.coalescer.registry.task? e = none := by
  simp only [isUnassigned, Coalescer.has, Bool.and_eq_true, decide_eq_true_eq] at hu
  refine ⟨hu.1, ?_⟩
  cases ht : p.coalescer.registry.task? e with
  | none => rfl
  | some t =>
    have hex := (h.assigned t e).2 ht
    have hall := List.all_eq_true.1 hu.2 _ (Table.mem_of_get? (exchange?_eq_some.1 hex))
    simp at hall

theorem drop (h : p.Coherent) (e : Exchange κ) : (p.drop e).Coherent := by
  unfold Pool.drop
  split
  · next hu =>
    obtain ⟨-, ht⟩ := h.of_isUnassigned hu
    refine h.of_coalescer (h.coalescer.settle e .abandoned) fun e' => ?_
    show (p.coalescer.settle e .abandoned).2.registry.task? e' = _
    rw [h.coalescer.task?_settle]
    split
    · next he => rw [he, ht]
    · rfl
  · exact h

theorem dispatch (h : p.Coherent) (e : Exchange κ) (delay : Nat) : (p.dispatch e delay).2.Coherent := by
  unfold Pool.dispatch
  split
  swap
  · exact h
  next hu =>
  obtain ⟨hin, hnone⟩ := h.of_isUnassigned hu
  have hstaged := Staged.spawn h.toStaged (some e) delay
  have hex := exchange?_spawn p (some e) delay
  have hstaged' : Staged { (p.spawn (some e) delay).2 with coalescer := p.coalescer.attach e p.nextTask } :=
    hstaged.of_coalescer (h.coalescer.attach e p.nextTask)
  show (stopAborted { (p.spawn (some e) delay).2 with coalescer := p.coalescer.attach e p.nextTask }
    p.coalescer).Coherent
  rcases h.coalescer.attach_cases hin p.nextTask with ⟨-, haborted, htask⟩ | ⟨-, haborted, hreg⟩
  · rw [stopAborted_of_aborted (l := []) (by simpa using haborted)]
    refine ⟨hstaged', fun t e' => ?_⟩
    show (p.spawn (some e) delay).2.exchange? t = some e' ↔ (p.coalescer.attach e p.nextTask).registry.task? e' = some t
    rw [hex, htask]
    by_cases ht : p.nextTask = t <;> by_cases he : e' = e
    · simp [ht, he]
    · subst ht
      simp [he, Ne.symm he, h.task?_ne_nextTask]
    · subst he
      simp only [ht, if_false, if_true, Option.some.injEq, iff_false]
      intro hold
      rw [(h.assigned t e').1 hold] at hnone
      cases hnone
    · simp only [ht, he, if_false]
      exact h.assigned t e'
  · rw [stopAborted_of_aborted (l := [p.nextTask]) haborted]
    refine CoherentBut.stop ⟨hstaged', fun t' e' ht' => ?_, fun e' he' => ?_, fun e' t' he' ht' => ?_⟩
    · show (p.spawn (some e) delay).2.exchange? t' = some e' ↔
        (p.coalescer.attach e p.nextTask).registry.task? e' = some t'
      rw [hex, hreg, if_neg (Ne.symm ht')]
      exact h.assigned t' e'
    · change (p.coalescer.attach e p.nextTask).registry.task? e' = some p.nextTask at he'
      rw [hreg] at he'
      exact absurd he' (h.task?_ne_nextTask e')
    · change (p.spawn (some e) delay).2.exchange? p.nextTask = some e' at he'
      change (p.coalescer.attach e p.nextTask).registry.task? e' = some t' at ht'
      rw [hex, if_pos rfl] at he'
      rw [hreg, ← Option.some.inj he', hnone] at ht'
      cases ht'

theorem start (h : p.Coherent) {t delay : Nat} {skip : Bool} (ht : t ∈ p.dispatcher.fresh.map Prod.fst) :
    Coherent { p with dispatcher := p.dispatcher.start t delay skip } :=
  h.of_perm (Dispatcher.tasks_start h.nodup ht)

theorem wake (h : p.Coherent) (t : Nat) : Coherent { p with dispatcher := p.dispatcher.wake t } :=
  h.of_perm (p.dispatcher.tasks_wake t)

theorem expire (h : p.Coherent) (t : Nat) : (p.expire t).Coherent :=
  h.wake t

theorem dispatcher_takeSignal (p : Pool κ ρ) (t : Nat) : (p.takeSignal t).2.dispatcher = p.dispatcher := by
  unfold Pool.takeSignal
  split <;> rfl

theorem poll (h : p.Coherent) (t : Nat) : (p.poll t).Coherent := by
  have hfresh : ∀ delay, Table.get? p.dispatcher.fresh t = some delay → t ∈ p.dispatcher.fresh.map Prod.fst :=
    fun delay hd => Table.mem_keys.2 (by rw [hd]; simp)
  have hlook := h.takeSignal t
  have hsame := dispatcher_takeSignal p t
  unfold Pool.poll
  split
  · next hd => exact h.start (hfresh _ hd)
  · next delay _ hd => exact hlook.start (by rw [hsame]; exact hfresh _ hd)
  · split
    · show Coherent (if (p.takeSignal t).1 then
        { (p.takeSignal t).2 with dispatcher := (p.takeSignal t).2.dispatcher.wake t } else (p.takeSignal t).2)
      split
      · exact hlook.wake t
      · exact hlook
    · exact h

theorem finish (h : p.Coherent) (t : Nat) (result : ρ) : (p.finish t result).Coherent := by
  unfold Pool.finish
  split
  swap
  · exact h
  split
  · next e he =>
    exact (h.but_of_ended he (h.coalescer.settle e _) (h.coalescer.task?_settle e (.value result))).stop
  · exact h.stop t

theorem leave (h : p.Coherent) (w : Waiter κ) : (p.leave w).Coherent := by
  have htask := h.coalescer.task?_leave w
  show (stopAborted { p with coalescer := p.coalescer.leave w } p.coalescer).Coherent
  rw [stopAborted_of_aborted (p.coalescer.aborted_leave w)]
  cases ho : p.coalescer.orphan? w with
  | none => exact h.of_coalescer (h.coalescer.leave w) fun e => by simpa [ho] using htask e
  | some t =>
    have hw := (h.assigned t _).2 (Coalescer.orphan?_eq_some ho)
    exact (h.but_of_ended hw (h.coalescer.leave w) fun e => by simpa [ho] using htask e).stop

theorem step (h : p.Coherent) (event : Event κ ρ) : (p.step event).Coherent := by
  cases event with
  | register key => exact h.register key
  | dispatch e delay => exact h.dispatch e delay
  | drop e => exact h.drop e
  | schedule delay => exact h.schedule delay
  | expedite w => exact h.expedite w
  | poll t => exact h.poll t
  | expire t => exact h.expire t
  | finish t result => exact h.finish t result
  | stop t => exact h.stop t
  | leave w => exact h.leave w
  | take w => exact h.take w

end Coherent

/-! ### Steps of the coalescer -/

/-- A task that is polled looks whether it was told to skip its start delay. -/
def looks (p : Pool κ ρ) (task : Nat) : Bool :=
  match Table.get? p.dispatcher.fresh task with
  | some delay => delay ≠ 0
  | none => task ∈ p.dispatcher.sleeping

/-- What an event does to the coalescer. -/
def trace (p : Pool κ ρ) : Event κ ρ → List (Coalescer.Step κ ρ)
  | .register key => [.register key]
  | .dispatch e _ =>
    if p.isUnassigned e then
      .attach e p.nextTask :: if p.coalescer.registry.audience e = [] then [.drop e] else []
    else []
  | .drop e => if p.isUnassigned e then [.drop e] else []
  | .schedule _ => []
  | .expedite w => [.expedite w]
  | .poll task => if p.looks task then (p.exchange? task).toList.map .signal else []
  | .expire _ => []
  | .finish task result =>
    if task ∈ p.dispatcher.running then
      match p.exchange? task with
      | some e => [.complete e result, .drop e]
      | none => []
    else []
  | .stop task => (p.exchange? task).toList.map .drop
  | .leave w => .leave w :: ((p.coalescer.orphan? w).bind p.exchange?).toList.map .drop
  | .take w => [.take w]

/-- What a list of events does to the coalescer. -/
def traceAll (p : Pool κ ρ) : List (Event κ ρ) → List (Coalescer.Step κ ρ)
  | [] => []
  | event :: rest => p.trace event ++ traceAll (p.step event) rest

/-- The pool after a run of events. -/
def run (p : Pool κ ρ) (events : List (Event κ ρ)) : Pool κ ρ :=
  events.foldl step p

theorem coalescer_stop (p : Pool κ ρ) (t : Nat) :
    (p.stop t).coalescer = p.coalescer.run ((p.exchange? t).toList.map .drop) := by
  unfold stop
  cases p.exchange? t <;> rfl

theorem coalescer_takeSignal (p : Pool κ ρ) (t : Nat) :
    (p.takeSignal t).2.coalescer = p.coalescer.run ((p.exchange? t).toList.map .signal) := by
  unfold takeSignal
  cases p.exchange? t <;> rfl

theorem coalescer_poll (p : Pool κ ρ) (t : Nat) : (p.poll t).coalescer = p.coalescer.run (p.trace (.poll t)) := by
  have hlook := p.coalescer_takeSignal t
  cases hf : Table.get? p.dispatcher.fresh t with
  | some delay =>
    cases delay with
    | zero => simp only [poll, trace, looks, hf]; rfl
    | succ n => simpa [poll, trace, looks, hf] using hlook
  | none =>
    by_cases ht : t ∈ p.dispatcher.sleeping
    · simp only [poll, trace, looks, hf, ht, if_true, decide_true]
      rw [← hlook]
      show Pool.coalescer (if (p.takeSignal t).1 then _ else (p.takeSignal t).2) = _
      split <;> rfl
    · simp [poll, trace, looks, hf, ht, Coalescer.run]

theorem coalescer_dispatch (h : p.Coherent) (e : Exchange κ) (delay : Nat) :
    (p.dispatch e delay).2.coalescer = p.coalescer.run (p.trace (.dispatch e delay)) := by
  unfold dispatch trace
  by_cases hu : p.isUnassigned e
  swap
  · simp only [hu, Bool.false_eq_true, if_false]; rfl
  simp only [hu, if_true]
  obtain ⟨hin, -⟩ := h.of_isUnassigned hu
  let q : Pool κ ρ := { (p.spawn (some e) delay).2 with coalescer := p.coalescer.attach e p.nextTask }
  show (stopAborted q p.coalescer).coalescer = _
  rcases h.coalescer.attach_cases hin p.nextTask with ⟨haud, haborted, -⟩ | ⟨haud, haborted, -⟩
  · rw [stopAborted_of_aborted (l := []) (by simpa using haborted), if_neg haud]
    rfl
  · rw [stopAborted_of_aborted (l := [p.nextTask]) haborted, if_pos haud]
    have hex : q.exchange? p.nextTask = some e := by
      show (p.spawn (some e) delay).2.exchange? p.nextTask = some e
      rw [exchange?_spawn, if_pos rfl]
    show (q.stop p.nextTask).coalescer = _
    rw [coalescer_stop, hex]
    rfl

theorem coalescer_leave (p : Pool κ ρ) (w : Waiter κ) :
    (p.leave w).coalescer = p.coalescer.run (p.trace (.leave w)) := by
  show (stopAborted { p with coalescer := p.coalescer.leave w } p.coalescer).coalescer = _
  rw [stopAborted_of_aborted (p.coalescer.aborted_leave w), trace]
  cases p.coalescer.orphan? w with
  | none => rfl
  | some t => exact coalescer_stop _ t

theorem coalescer_step (h : p.Coherent) (event : Event κ ρ) :
    (p.step event).coalescer = p.coalescer.run (p.trace event) := by
  cases event with
  | dispatch e delay => exact coalescer_dispatch h e delay
  | drop e =>
    simp only [step, drop, trace]
    split <;> rfl
  | poll t => exact p.coalescer_poll t
  | finish t result =>
    simp only [step, finish, trace]
    split
    · cases he : p.exchange? t with
      | none =>
        show (p.stop t).coalescer = _
        rw [coalescer_stop, he]
        rfl
      | some e =>
        rw [coalescer_stop]
        show Coalescer.run _ ((p.exchange? t).toList.map .drop) = _
        rw [he]
        rfl
    · rfl
  | stop t => exact p.coalescer_stop t
  | leave w => exact p.coalescer_leave w
  | _ => rfl

/-- What comes from callers alone: a registration, a waiter that leaves and one that takes its result. -/
def asks : Event κ ρ → Coalescer.Step κ ρ → Prop
  | event, .register key => event = .register key
  | event, .leave w => event = .leave w
  | event, .take w => event = .take w
  | _, _ => True

theorem asks_of_mem_trace {event : Event κ ρ} {s : Coalescer.Step κ ρ} (h : s ∈ p.trace event) : asks event s := by
  have drops : ∀ o : Option (Exchange κ), s ∈ o.toList.map .drop → asks event s := by
    intro o hs
    obtain ⟨e, -, rfl⟩ := List.mem_map.1 hs
    trivial
  cases event with
  | register key => cases List.mem_singleton.1 h; rfl
  | dispatch e delay =>
    simp only [trace] at h
    split at h
    · rcases List.mem_cons.1 h with rfl | h
      · trivial
      · split at h
        · exact drops (some e) h
        · cases h
    · cases h
  | drop e =>
    simp only [trace] at h
    split at h
    · exact drops (some e) h
    · cases h
  | schedule delay => cases h
  | expedite w => cases List.mem_singleton.1 h; trivial
  | poll t =>
    simp only [trace] at h
    split at h
    · obtain ⟨e, -, rfl⟩ := List.mem_map.1 h
      trivial
    · cases h
  | expire t => cases h
  | finish t result =>
    simp only [trace] at h
    split at h
    · split at h
      · next e _ =>
        rcases List.mem_cons.1 h with rfl | h
        · trivial
        · exact drops (some e) h
      · cases h
    · cases h
  | stop t => exact drops _ h
  | leave w =>
    rcases List.mem_cons.1 h with rfl | h
    · rfl
    · exact drops _ h
  | take w => cases List.mem_singleton.1 h; rfl

theorem mem_traceAll {events : List (Event κ ρ)} {s : Coalescer.Step κ ρ} (h : s ∈ p.traceAll events) :
    ∃ q : Pool κ ρ, ∃ event ∈ events, s ∈ q.trace event := by
  induction events generalizing p with
  | nil => cases h
  | cons event rest ih =>
    rcases List.mem_append.1 h with h | h
    · exact ⟨p, event, List.mem_cons_self, h⟩
    · obtain ⟨q, event', hmem, hs⟩ := ih h
      exact ⟨q, event', List.mem_cons_of_mem _ hmem, hs⟩

theorem coalescer_run (h : p.Coherent) (events : List (Event κ ρ)) :
    (p.run events).coalescer = p.coalescer.run (p.traceAll events) := by
  induction events generalizing p with
  | nil => rfl
  | cons event rest ih =>
    show ((p.step event).run rest).coalescer = _
    rw [ih (h.step event), coalescer_step h, traceAll, Coalescer.run_append]

/-! ### Where tasks come from -/

theorem get?_of_foldl_stop {l : List Nat} {x : Option (Exchange κ)}
    (h : Table.get? (l.foldl Pool.stop p).tasks t = some x) : p.tasks.get? t = some x := by
  induction l generalizing p with
  | nil => exact h
  | cons a l ih =>
    have h := ih h
    change Table.get? (p.tasks.erase a) t = some x at h
    rw [Table.get?_erase] at h
    split at h
    · cases h
    · exact h

theorem get?_of_stopAborted {before : Coalescer κ ρ} {x : Option (Exchange κ)}
    (h : Table.get? (p.stopAborted before).tasks t = some x) : p.tasks.get? t = some x :=
  get?_of_foldl_stop h

theorem nextTask_foldl_stop (l : List Nat) (p : Pool κ ρ) : (l.foldl Pool.stop p).nextTask = p.nextTask := by
  induction l generalizing p with
  | nil => rfl
  | cons a l ih => exact ih (p.stop a)

theorem tasks_takeSignal (p : Pool κ ρ) (t : Nat) :
    (p.takeSignal t).2.tasks = p.tasks ∧ (p.takeSignal t).2.nextTask = p.nextTask := by
  unfold takeSignal
  split <;> exact ⟨rfl, rfl⟩

theorem tasks_poll (p : Pool κ ρ) (t : Nat) :
    (p.poll t).tasks = p.tasks ∧ (p.poll t).nextTask = p.nextTask := by
  have hlook := p.tasks_takeSignal t
  unfold poll
  split
  · exact ⟨rfl, rfl⟩
  · exact hlook
  · split
    · show Pool.tasks (if (p.takeSignal t).1 then _ else (p.takeSignal t).2) = _ ∧
        Pool.nextTask (if (p.takeSignal t).1 then _ else (p.takeSignal t).2) = _
      split <;> exact hlook
    · exact ⟨rfl, rfl⟩

theorem get?_step {m : Event κ ρ} {x : Option (Exchange κ)} (h : (p.step m).tasks.get? t = some x) :
    p.tasks.get? t = some x ∨ t = p.nextTask ∧
      ((∃ e delay, m = .dispatch e delay ∧ p.isUnassigned e ∧ x = some e) ∨ ∃ delay, m = .schedule delay) := by
  have hspawn : ∀ exchange delay, Table.get? (p.spawn exchange delay).2.tasks t = some x →
      p.tasks.get? t = some x ∨ t = p.nextTask ∧ x = exchange := by
    intro exchange delay hget
    change Table.get? (p.tasks.put p.nextTask exchange) t = some x at hget
    rw [Table.get?_put] at hget
    split at hget
    · next ht => exact .inr ⟨ht.symm, (Option.some.inj hget).symm⟩
    · exact .inl hget
  cases m with
  | dispatch e delay =>
    simp only [step, dispatch] at h
    split at h
    · next hu =>
      have hget := get?_of_stopAborted
        (p := { (p.spawn (some e) delay).2 with coalescer := p.coalescer.attach e p.nextTask }) h
      rcases hspawn (some e) delay hget with hold | ⟨ht, hx⟩
      · exact .inl hold
      · exact .inr ⟨ht, .inl ⟨e, delay, rfl, hu, hx⟩⟩
    · exact .inl h
  | schedule delay =>
    rcases hspawn none delay h with hold | ⟨ht, -⟩
    · exact .inl hold
    · exact .inr ⟨ht, .inr ⟨delay, rfl⟩⟩
  | drop e =>
    simp only [step, drop] at h
    split at h <;> exact .inl h
  | poll task =>
    simp only [step, (p.tasks_poll task).1] at h
    exact .inl h
  | finish task result =>
    simp only [step, finish] at h
    split at h
    · exact .inl (get?_of_foldl_stop (l := [task]) h)
    · exact .inl h
  | stop task => exact .inl (get?_of_foldl_stop (l := [task]) h)
  | leave w => exact .inl (get?_of_stopAborted (p := { p with coalescer := p.coalescer.leave w }) h)
  | _ => exact .inl h

theorem nextTask_dispatch (p : Pool κ ρ) (e : Exchange κ) (delay : Nat) :
    (p.dispatch e delay).2.nextTask = if p.isUnassigned e then p.nextTask + 1 else p.nextTask := by
  unfold dispatch
  split
  · exact nextTask_foldl_stop ..
  · rfl

theorem nextTask_step (p : Pool κ ρ) {event : Event κ ρ} (hd : ∀ e delay, event ≠ .dispatch e delay)
    (hs : ∀ delay, event ≠ .schedule delay) : (p.step event).nextTask = p.nextTask := by
  cases event with
  | dispatch e delay => exact absurd rfl (hd e delay)
  | schedule delay => exact absurd rfl (hs delay)
  | drop e =>
    simp only [step, drop]
    split <;> rfl
  | poll task => exact (p.tasks_poll task).2
  | finish task result =>
    simp only [step, finish]
    split <;> rfl
  | leave w => exact nextTask_foldl_stop ..
  | _ => rfl

theorem le_nextTask_step (p : Pool κ ρ) (event : Event κ ρ) : p.nextTask ≤ (p.step event).nextTask := by
  cases event with
  | dispatch e delay =>
    show _ ≤ (p.dispatch e delay).2.nextTask
    rw [nextTask_dispatch]
    split <;> omega
  | schedule delay => exact Nat.le_succ _
  | _ => rw [nextTask_step] <;> simp

end Pool

end Entitle.Flight
