import Entitle.Proofs.Flight.Relay

/-!
# Start delays cut short

A waiter that cannot wait leaves a signal with its operation, and the task takes it when it runs. `isExpedited` is the
signal as a view of the registry: it is set by a waiter of the same operation only, and as long as someone listens
nothing but the task takes it away. Of a pool it follows that a hurried exchange stays hurried (`Hurried.step`) and
leaves its start delay when its task runs (`Hurried.past_poll`), and that an exchange that nobody hurries keeps its
delay until the timer ends it (`Pool.slow_step`).
-/

namespace Entitle.Flight

variable {κ ρ : Type} [DecidableEq κ]

/-! ### The signal -/

namespace Registry
variable {r : Registry κ}

/-- The operation of an exchange is pending with a signal that the task has not taken. -/
def isExpedited (r : Registry κ) (e : Exchange κ) : Bool :=
  (r.operation? e.key e.generation).any (·.expedited)

theorem isExpedited_of_some {e : Exchange κ} {o : Operation} (h : r.operation? e.key e.generation = some o) :
    r.isExpedited e = o.expedited := by
  simp [isExpedited, h]

theorem isExpedited_of_none {e : Exchange κ} (h : r.operation? e.key e.generation = none) :
    r.isExpedited e = false := by
  simp [isExpedited, h]

theorem isExpedited_congr {r' : Registry κ} {e : Exchange κ}
    (h : r'.operation? e.key e.generation = r.operation? e.key e.generation) : r'.isExpedited e = r.isExpedited e := by
  simp only [isExpedited, h]

theorem isExpedited_put {key : κ} {g : Nat} {o : Operation} (o' : Operation) (ho : r.operation? key g = some o)
    (hg : o'.generation = o.generation) (e : Exchange κ) :
    (r.put key o').isExpedited e = if e = ⟨key, g⟩ then o'.expedited else r.isExpedited e := by
  obtain ⟨hp, rfl⟩ := operation?_eq_some.1 ho
  split
  · next he =>
    subst he
    exact isExpedited_of_some (operation?_put_self hg)
  · next he => exact isExpedited_congr (operation?_put_of_ne hp hg he)

theorem isExpedited_register (key : κ) (e : Exchange κ) :
    (r.register key).2.2.isExpedited e = r.isExpedited e := by
  cases ho : r.pending.get? key with
  | some o =>
    have hop : r.operation? key o.generation = some o := operation?_eq_some.2 ⟨ho, rfl⟩
    simp only [register_joined ho]
    rw [isExpedited_put o.listen hop rfl]
    split
    · next he => rw [he, isExpedited_of_some (e := ⟨key, o.generation⟩) hop]; rfl
    · rfl
  | none =>
    simp only [register_started ho, isExpedited, operation?, put, Table.get?_put]
    by_cases hk : key = e.key
    · subst hk
      by_cases hg : r.nextGeneration = e.generation <;> simp [ho, Operation.listen, hg]
    · simp [hk]

theorem isExpedited_settle (e₀ e : Exchange κ) :
    (r.settle e₀).2.isExpedited e = if e = e₀ then false else r.isExpedited e := by
  simp only [isExpedited, operation?_settle]
  split <;> simp

theorem isExpedited_attach {e₀ : Exchange κ} {task : Nat} {r' : Registry κ} (h : r.attach e₀ task = some r')
    (e : Exchange κ) : r'.isExpedited e = r.isExpedited e := by
  obtain ⟨o, ho, rfl⟩ := Option.map_eq_some_iff.1 h
  rw [isExpedited_put { o with running := some task } ho rfl]
  split
  · next he => rw [he, isExpedited_of_some ho]
  · rfl

theorem isExpedited_expedite (w : Waiter κ) (e : Exchange κ) :
    (r.expedite w).isExpedited e =
      if e = w.exchange then (r.operation? w.key w.generation).isSome else r.isExpedited e := by
  unfold expedite
  split
  · next o ho =>
    rw [isExpedited_put { o with expedited := true } ho rfl, ho]
    rfl
  · next ho =>
    split
    · next he => rw [he, ho, isExpedited_of_none (e := w.exchange) ho]; rfl
    · rfl

theorem isExpedited_takeSignal (e₀ e : Exchange κ) :
    (r.takeSignal e₀).2.isExpedited e = if e = e₀ then false else r.isExpedited e := by
  unfold takeSignal
  split
  · next o ho => exact isExpedited_put { o with expedited := false } ho rfl e
  · next ho =>
    split
    · next he => rw [he, isExpedited_of_none ho]
    · rfl

theorem takeSignal_fst (e : Exchange κ) : decide ((r.takeSignal e).1 = some true) = r.isExpedited e := by
  unfold takeSignal
  split
  · next o ho => simp [isExpedited_of_some ho]
  · next ho => simp [isExpedited_of_none ho]

theorem isExpedited_leave (w : Waiter κ) (e : Exchange κ) :
    (r.leave w).2.isExpedited e = r.isExpedited e ∨
      (r.leave w).2.isExpedited e = false ∧ (r.leave w).2.audience e = [] := by
  rcases leave_cases r w with ⟨-, hr⟩ | ⟨o, ho, ⟨-, hr⟩ | ⟨-, hr⟩⟩ <;> rw [hr]
  · exact .inl rfl
  · by_cases he : e = w.exchange
    · have hnone : (r.remove w.key).operation? e.key e.generation = none := by
        rw [he, operation?_remove]
        exact if_pos rfl
      exact .inr ⟨isExpedited_of_none hnone, audience_of_none hnone⟩
    · obtain ⟨hp, hg⟩ := operation?_eq_some.1 ho
      exact .inl (isExpedited_congr (operation?_remove_of_ne hp (by rw [hg]; exact he)))
  · refine .inl ((isExpedited_put (o.unlisten w.listener) ho rfl e).trans ?_)
    split
    · next he =>
      rw [he, isExpedited_of_some (e := ⟨w.key, w.generation⟩) ho]
      rfl
    · rfl

end Registry

namespace Coalescer
variable {c : Coalescer κ ρ} {s : Step κ ρ} {e : Exchange κ} {w : Waiter κ}

/-- A step that leaves no signal keeps it, unless the task takes it or the operation ends. -/
theorem isExpedited_step_cases (hs : ∀ w, s ≠ .expedite w) :
    (c.step s).registry.isExpedited e = c.registry.isExpedited e ∨
      (c.step s).registry.isExpedited e = false ∧ (s = .signal e ∨ (c.step s).registry.audience e = []) := by
  have hsettle : ∀ e' d, (c.settle e' d).2.registry.isExpedited e = c.registry.isExpedited e ∨
      (c.settle e' d).2.registry.isExpedited e = false ∧ (c.settle e' d).2.registry.audience e = [] := fun e' d => by
    unfold Coalescer.settle
    split
    swap
    · exact .inl rfl
    by_cases he : e = e'
    · refine .inr ⟨?_, ?_⟩
      · exact (Registry.isExpedited_settle e' e).trans (if_pos he)
      · exact (Registry.audience_settle e' e).trans (if_pos he)
    · exact .inl ((Registry.isExpedited_settle e' e).trans (if_neg he))
  cases s with
  | register key => exact .inl (Registry.isExpedited_register key e)
  | complete e' result => exact (hsettle e' _).imp_right fun h => ⟨h.1, .inr h.2⟩
  | drop e' => exact (hsettle e' _).imp_right fun h => ⟨h.1, .inr h.2⟩
  | attach e' t =>
    refine .inl ?_
    simp only [step, Coalescer.attach]
    split
    · split
      · next hr => exact Registry.isExpedited_attach hr e
      · rfl
    · rfl
  | signal e' =>
    simp only [step, Coalescer.takeSignal]
    split
    swap
    · exact .inl rfl
    by_cases he : e = e'
    · exact .inr ⟨(Registry.isExpedited_takeSignal e' e).trans (if_pos he), .inl (he ▸ rfl)⟩
    · exact .inl ((Registry.isExpedited_takeSignal e' e).trans (if_neg he))
  | expedite w => exact absurd rfl (hs w)
  | leave w =>
    simp only [step, Coalescer.leave]
    split
    · exact (Registry.isExpedited_leave w e).imp_right fun h => ⟨h.1, .inr h.2⟩
    · exact .inl rfl
  | take w =>
    show (c.take w).2.registry.isExpedited e = _ ∨ _
    rw [registry_take]
    exact .inl rfl

theorem isExpedited_of_step (h : (c.step s).registry.isExpedited e) :
    c.registry.isExpedited e ∨ ∃ w, s = .expedite w ∧ w.exchange = e := by
  by_cases hs : ∃ w, s = .expedite w
  · obtain ⟨w, rfl⟩ := hs
    change (c.expedite w).registry.isExpedited e at h
    unfold Coalescer.expedite at h
    split at h
    swap
    · exact .inl h
    rw [Registry.isExpedited_expedite] at h
    split at h
    · next he => exact .inr ⟨w, rfl, he.symm⟩
    · exact .inl h
  · rcases isExpedited_step_cases (c := c) (e := e) fun w heq => hs ⟨w, heq⟩ with heq | ⟨heq, -⟩
    · exact .inl (heq ▸ h)
    · cases heq.symm.trans h

theorem isExpedited_step (h : c.registry.isExpedited e) (hs : s ≠ .signal e)
    (hne : (c.step s).registry.audience e ≠ []) : (c.step s).registry.isExpedited e := by
  by_cases hw : ∃ w, s = .expedite w
  · obtain ⟨w, rfl⟩ := hw
    show (c.expedite w).registry.isExpedited e
    unfold Coalescer.expedite
    split
    swap
    · exact h
    rw [Registry.isExpedited_expedite]
    split
    · next he =>
      have hsome : (c.registry.operation? e.key e.generation).isSome := by
        cases ho : c.registry.operation? e.key e.generation with
        | none => cases (Registry.isExpedited_of_none ho).symm.trans h
        | some o => rfl
      rw [he] at hsome
      exact hsome
    · exact h
  · rcases isExpedited_step_cases (c := c) (e := e) fun w heq => hw ⟨w, heq⟩ with heq | ⟨-, heq | heq⟩
    · exact heq.trans h
    · exact absurd heq hs
    · exact absurd heq hne

theorem isExpedited_expedite (hw : w ∈ c.waiters) (hne : c.registry.audience w.exchange ≠ []) :
    (c.expedite w).registry.isExpedited w.exchange := by
  have hpending : c.registry.operation? w.key w.generation ≠ none :=
    fun hnone => hne (Registry.audience_of_none (e := w.exchange) hnone)
  rw [Coalescer.expedite, if_pos hw, Registry.isExpedited_expedite, if_pos rfl]
  exact Option.isSome_iff_ne_none.2 hpending

namespace Coherent

/-- What every step keeps while someone listens, a run keeps while someone listens. -/
theorem run_of_listening {P : Coalescer κ ρ → Prop} (h : c.Coherent) (hgen : e.generation < c.registry.nextGeneration)
    {steps : List (Step κ ρ)} (hne : (c.run steps).registry.audience e ≠ [])
    (hstep : ∀ c : Coalescer κ ρ, ∀ s ∈ steps, c.Coherent → (c.step s).registry.audience e ≠ [] → P c → P (c.step s))
    (hP : P c) : P (c.run steps) := by
  induction steps generalizing c with
  | nil => exact hP
  | cons s rest ih =>
    have hlt := Nat.lt_of_lt_of_le hgen (c.nextGeneration_step_le s)
    -- an operation that has begun gets no first listener, so whoever is there at the end was there all along
    have hlisten : (c.step s).registry.audience e ≠ [] := (h.step s).audience_of_run hlt hne
    exact ih (h.step s) hlt hne (fun c s hs => hstep c s (List.mem_cons_of_mem _ hs))
      (hstep c s List.mem_cons_self h hlisten hP)

theorem task?_step_of_ne (h : c.Coherent) (hs : ∀ t, s ≠ .attach e t) (hne : (c.step s).registry.audience e ≠ []) :
    (c.step s).registry.task? e = c.registry.task? e := by
  by_cases ha : ∃ e' t, s = .attach e' t
  · obtain ⟨e', t, rfl⟩ := ha
    show (c.attach e' t).registry.task? e = _
    by_cases he : e' ∈ c.exchanges
    · rcases h.attach_cases he t with ⟨-, -, htask⟩ | ⟨-, -, hsame⟩
      · rw [htask]
        exact if_neg fun heq => hs t (by rw [heq])
      · rw [hsame]
    · rw [Coalescer.attach, if_neg he]
  · exact h.task?_step (fun e' t heq => ha ⟨e', t, heq⟩) hne

end Coherent

end Coalescer

/-! ### How far a task is from its permit -/

namespace Dispatcher
variable {d d' : Dispatcher} {t t' : Nat}

/-- A task is as far as it was. -/
structure Keeps (t : Nat) (d d' : Dispatcher) : Prop where
  fresh : Table.get? d'.fresh t = Table.get? d.fresh t
  sleeping : t ∈ d'.sleeping ↔ t ∈ d.sleeping

/-- A task is past its start delay: it waits for a permit, has one, or has ended. -/
def Past (d : Dispatcher) (t : Nat) : Prop :=
  Table.get? d.fresh t = none ∧ t ∉ d.sleeping

/-- A task is past its start delay or has not run yet and has none. -/
def Due (d : Dispatcher) (t : Nat) : Prop :=
  (∀ delay, Table.get? d.fresh t = some delay → delay = 0) ∧ t ∉ d.sleeping

/-- A task with a start delay that has not run yet, or is asleep. -/
def Slow (d : Dispatcher) (t delay : Nat) : Prop :=
  Table.get? d.fresh t = some delay ∨ t ∈ d.sleeping

namespace Keeps

theorem refl (t : Nat) (d : Dispatcher) : Keeps t d d :=
  ⟨rfl, Iff.rfl⟩

theorem trans {d'' : Dispatcher} (h : Keeps t d d') (h' : Keeps t d' d'') : Keeps t d d'' :=
  ⟨h'.fresh.trans h.fresh, h'.sleeping.trans h.sleeping⟩

theorem ready (t t' : Nat) (d : Dispatcher) : Keeps t d (d.ready t') := by
  unfold Dispatcher.ready
  split <;> exact ⟨rfl, Iff.rfl⟩

theorem release (t : Nat) (d : Dispatcher) : Keeps t d d.release := by
  unfold Dispatcher.release
  split <;> exact ⟨rfl, Iff.rfl⟩

theorem spawn (hne : t' ≠ t) (d : Dispatcher) (delay : Nat) : Keeps t d (d.spawn t' delay) where
  fresh := by
    have hnew : Table.get? [(t', delay)] t = none := if_neg hne
    rw [Dispatcher.spawn, Table.get?_append, hnew, Option.or_none]
  sleeping := Iff.rfl

theorem start (hne : t' ≠ t) (d : Dispatcher) (delay : Nat) (skip : Bool) : Keeps t d (d.start t' delay skip) := by
  have hforget : Keeps t d { d with fresh := d.fresh.filter (·.1 ≠ t') } :=
    ⟨(Table.get?_erase ..).trans (if_neg hne), Iff.rfl⟩
  unfold Dispatcher.start
  split
  · exact hforget.trans (ready t t' _)
  · exact hforget.trans ⟨rfl, by simp [Ne.symm hne]⟩

theorem wake (hne : t' ≠ t) (d : Dispatcher) : Keeps t d (d.wake t') := by
  unfold Dispatcher.wake
  split
  · have herase : Keeps t d { d with sleeping := d.sleeping.erase t' } :=
      ⟨rfl, List.mem_erase_of_ne (Ne.symm hne)⟩
    exact herase.trans (ready t t' _)
  · exact refl t d

theorem stop (hne : t' ≠ t) (d : Dispatcher) : Keeps t d (d.stop t') := by
  unfold Dispatcher.stop
  split
  · have hend : Keeps t d { d with running := d.running.erase t' } := ⟨rfl, Iff.rfl⟩
    exact hend.trans (release t _)
  · exact ⟨(Table.get?_erase ..).trans (if_neg hne), List.mem_erase_of_ne (Ne.symm hne)⟩

theorem due (h : Keeps t d d') (hd : d.Due t) : d'.Due t :=
  ⟨fun delay hget => hd.1 delay (h.fresh ▸ hget), mt h.sleeping.1 hd.2⟩

theorem past (h : Keeps t d d') (hd : d.Past t) : d'.Past t :=
  ⟨h.fresh.trans hd.1, mt h.sleeping.1 hd.2⟩

theorem slow (h : Keeps t d d') {delay : Nat} (hd : d.Slow t delay) : d'.Slow t delay :=
  hd.imp (fun hget => h.fresh.trans hget) h.sleeping.2

end Keeps

theorem past_of_not_mem (ht : t ∉ d.tasks) : d.Past t := by
  rw [mem_tasks, not_or, not_or] at ht
  exact ⟨not_not.1 (mt Table.mem_keys.2 ht.1), ht.2.1⟩

theorem Past.due (h : d.Past t) : d.Due t :=
  ⟨fun _ hget => absurd (h.1.symm.trans hget) nofun, h.2⟩

theorem not_mem_sleeping (h : d.tasks.Nodup) {delay : Nat} (hget : Table.get? d.fresh t = some delay) :
    t ∉ d.sleeping := by
  have hfresh : t ∈ d.fresh.map Prod.fst := Table.mem_keys.2 (by rw [hget]; simp)
  intro hsleep
  have hone := List.one_le_count_iff.2 hfresh
  have hone' := List.one_le_count_iff.2 hsleep
  have hall := count_stage h t
  omega

theorem past_start (hs : t ∉ d.sleeping) {delay : Nat} {skip : Bool} (h : delay = 0 ∨ skip = true) :
    (d.start t delay skip).Past t := by
  have hforget : Dispatcher.Past { d with fresh := d.fresh.filter (·.1 ≠ t) } t :=
    ⟨(Table.get?_erase ..).trans (if_pos rfl), hs⟩
  unfold Dispatcher.start
  rw [if_pos (by simpa using h)]
  exact (Keeps.ready t t _).past hforget

theorem mem_sleeping_start (d : Dispatcher) (t : Nat) {delay : Nat} (h : delay ≠ 0) :
    t ∈ (d.start t delay false).sleeping := by
  unfold Dispatcher.start
  rw [if_neg (by simpa using h)]
  exact List.mem_append_right _ (List.mem_singleton_self t)

theorem past_wake (h : d.tasks.Nodup) (ht : t ∈ d.sleeping) : (d.wake t).Past t := by
  have hfresh : Table.get? d.fresh t = none := by
    cases hget : Table.get? d.fresh t with
    | none => rfl
    | some delay => exact absurd ht (not_mem_sleeping h hget)
  have hnodup : d.sleeping.Nodup := ((List.nodup_append.1 h).2.1.of_append_left)
  have hawake : Dispatcher.Past { d with sleeping := d.sleeping.erase t } t := ⟨hfresh, hnodup.not_mem_erase⟩
  rw [Dispatcher.wake, if_pos ht]
  exact (Keeps.ready t t _).past hawake

end Dispatcher

/-! ### Events of a pool -/

namespace Pool
variable {p : Pool κ ρ} {t : Nat} {e : Exchange κ} {m : Event κ ρ}

/-- What has to happen for a step that concerns an exchange or its signal. -/
def prompts (p : Pool κ ρ) (m : Event κ ρ) : Coalescer.Step κ ρ → Prop
  | .attach e _ => p.isUnassigned e
  | .complete e _ | .drop e => (∃ t, p.exchange? t = some e) ∨ (∃ delay, m = .dispatch e delay) ∨ m = .drop e
  | .signal e => ∃ t, m = .poll t ∧ p.exchange? t = some e
  | .expedite w => m = .expedite w
  | _ => True

theorem prompts_of_mem_trace {s : Coalescer.Step κ ρ} (h : s ∈ p.trace m) : p.prompts m s := by
  have drops : ∀ t, s ∈ (p.exchange? t).toList.map .drop → p.prompts m s := fun t hs => by
    obtain ⟨e, he, rfl⟩ := List.mem_map.1 hs
    exact .inl ⟨t, Option.mem_toList.1 he⟩
  cases m with
  | dispatch e delay =>
    simp only [trace] at h
    split at h
    swap
    · cases h
    next hu =>
    rcases List.mem_cons.1 h with rfl | h
    · exact hu
    · split at h
      · cases List.mem_singleton.1 h
        exact .inr (.inl ⟨delay, rfl⟩)
      · cases h
  | drop e =>
    simp only [trace] at h
    split at h
    · cases List.mem_singleton.1 h
      exact .inr (.inr rfl)
    · cases h
  | schedule delay => cases h
  | poll t =>
    simp only [trace] at h
    split at h
    · obtain ⟨e, he, rfl⟩ := List.mem_map.1 h
      exact ⟨t, rfl, Option.mem_toList.1 he⟩
    · cases h
  | expire t => cases h
  | finish t result =>
    simp only [trace] at h
    split at h
    swap
    · cases h
    split at h
    · next e he =>
      rcases List.mem_cons.1 h with rfl | h
      · exact .inl ⟨t, he⟩
      · cases List.mem_singleton.1 h
        exact .inl ⟨t, he⟩
    · cases h
  | stop t => exact drops t h
  | leave w =>
    rcases List.mem_cons.1 h with rfl | h
    · trivial
    · cases ho : p.coalescer.orphan? w with
      | none => rw [ho] at h; cases h
      | some t => rw [ho] at h; exact drops t h
  | register key | expedite w | take w =>
    cases List.mem_singleton.1 h
    trivial

theorem audience_of_step (h : p.Coherent) (hgen : e.generation < p.coalescer.registry.nextGeneration)
    (hne : (p.step m).coalescer.registry.audience e ≠ []) : p.coalescer.registry.audience e ≠ [] := by
  rw [coalescer_step h] at hne
  exact h.coalescer.audience_of_run hgen hne

theorem exchange?_step (h : p.Coherent) (he : p.exchange? t = some e)
    (hne : (p.step m).coalescer.registry.audience e ≠ []) : (p.step m).exchange? t = some e := by
  have htask := (h.assigned t e).1 he
  have hgen := h.coalescer.generation_lt e (h.mem_exchanges he)
  refine ((h.step m).assigned t e).2 ?_
  rw [coalescer_step h] at hne ⊢
  refine h.coalescer.run_of_listening (P := fun c => c.registry.task? e = some t) hgen hne
    (fun c s hs hc hne ht => ?_) htask
  refine (hc.task?_step_of_ne (fun t' hattach => ?_) hne).trans ht
  subst hattach
  have hnone := (h.of_isUnassigned (prompts_of_mem_trace hs)).2
  cases hnone.symm.trans htask

theorem isExpedited_of_step (h : p.Coherent) (he : (p.step m).coalescer.registry.isExpedited e) :
    p.coalescer.registry.isExpedited e ∨ ∃ w, m = .expedite w ∧ w.exchange = e := by
  rw [coalescer_step h] at he
  refine (List.foldlRecOn (motive := fun c : Coalescer κ ρ => c.registry.isExpedited e →
    p.coalescer.registry.isExpedited e ∨ ∃ w, m = .expedite w ∧ w.exchange = e) _ _ Or.inl fun c hc s hs he => ?_) he
  rcases Coalescer.isExpedited_of_step he with he | ⟨w, rfl, hw⟩
  · exact hc he
  · exact .inr ⟨w, prompts_of_mem_trace hs, hw⟩

theorem isExpedited_step (h : p.Coherent) (he : p.coalescer.registry.isExpedited e)
    (hm : ∀ t, m = .poll t → p.exchange? t ≠ some e) (hne : (p.step m).coalescer.registry.audience e ≠ [])
    (hgen : e.generation < p.coalescer.registry.nextGeneration) :
    (p.step m).coalescer.registry.isExpedited e := by
  rw [coalescer_step h] at hne ⊢
  refine h.coalescer.run_of_listening (P := fun c => c.registry.isExpedited e) hgen hne
    (fun c s hs _ hne he => ?_) he
  refine Coalescer.isExpedited_step he (fun heq => ?_) hne
  subst heq
  obtain ⟨t, rfl, ht⟩ := prompts_of_mem_trace hs
  exact hm t rfl ht

/-! ### Stages -/

theorem dispatch_of_isUnassigned (hu : p.isUnassigned e) (delay : Nat) :
    (p.dispatch e delay).2 =
      stopAborted { (p.spawn (some e) delay).2 with coalescer := p.coalescer.attach e p.nextTask } p.coalescer := by
  simp only [dispatch, hu, if_true]
  rfl

theorem keeps_foldl_stop {l : List Nat} (ht : t ∉ l) (p : Pool κ ρ) :
    Dispatcher.Keeps t p.dispatcher (l.foldl Pool.stop p).dispatcher := by
  induction l generalizing p with
  | nil => exact .refl t _
  | cons a l ih =>
    rw [List.mem_cons, not_or] at ht
    exact (Dispatcher.Keeps.stop (Ne.symm ht.1) p.dispatcher).trans (ih ht.2 (p.stop a))

theorem not_mem_of_foldl_stop {l : List Nat} (h : (l.foldl Pool.stop p).tasks.get? t ≠ none) : t ∉ l := by
  induction l generalizing p with
  | nil => simp
  | cons a l ih =>
    rw [List.mem_cons, not_or]
    refine ⟨fun ha => ?_, ih h⟩
    obtain ⟨x, hx⟩ := Option.ne_none_iff_exists'.1 h
    have hget : Table.get? (p.tasks.erase a) t = some x := get?_of_foldl_stop (p := p.stop a) hx
    rw [Table.get?_erase, if_pos ha.symm] at hget
    cases hget

/-- A task that lives on stays in its stage until it runs or its timer ends. -/
theorem keeps_step (ht : t < p.nextTask) (hlive : (p.step m).tasks.get? t ≠ none) (hp : m ≠ .poll t)
    (hx : m ≠ .expire t) : Dispatcher.Keeps t p.dispatcher (p.step m).dispatcher := by
  cases m with
  | dispatch e delay =>
    change (p.dispatch e delay).2.tasks.get? t ≠ none at hlive
    show Dispatcher.Keeps t p.dispatcher (p.dispatch e delay).2.dispatcher
    by_cases hu : p.isUnassigned e
    · rw [dispatch_of_isUnassigned hu] at hlive ⊢
      have hspawn : Dispatcher.Keeps t p.dispatcher (p.spawn (some e) delay).2.dispatcher :=
        .spawn (Nat.ne_of_gt ht) p.dispatcher delay
      refine hspawn.trans ?_
      exact keeps_foldl_stop (not_mem_of_foldl_stop hlive)
        { (p.spawn (some e) delay).2 with coalescer := p.coalescer.attach e p.nextTask }
    · rw [dispatch, if_neg hu]
      exact .refl t _
  | drop e =>
    simp only [step, drop]
    split <;> exact .refl t _
  | schedule delay => exact .spawn (Nat.ne_of_gt ht) p.dispatcher delay
  | poll t' =>
    have hne : t' ≠ t := fun heq => hp (heq ▸ rfl)
    have hsame := Coherent.dispatcher_takeSignal p t'
    simp only [step, poll]
    split
    · exact .start hne p.dispatcher 0 false
    · next delay _ _ => exact hsame ▸ .start hne _ delay _
    · split
      · show Dispatcher.Keeps t p.dispatcher (Pool.dispatcher (if _ then _ else _))
        split
        · exact hsame ▸ .wake hne _
        · exact hsame ▸ .refl t _
      · exact .refl t _
  | expire t' => exact .wake (fun heq => hx (by rw [heq])) p.dispatcher
  | finish t' result =>
    change (p.finish t' result).tasks.get? t ≠ none at hlive
    show Dispatcher.Keeps t p.dispatcher (p.finish t' result).dispatcher
    unfold finish at hlive ⊢
    split
    · next hr =>
      rw [if_pos hr] at hlive
      have hne : t ∉ [t'] := not_mem_of_foldl_stop (l := [t']) hlive
      exact .stop (fun heq => hne (List.mem_singleton.2 heq.symm)) p.dispatcher
    · exact .refl t _
  | stop t' => exact keeps_foldl_stop (not_mem_of_foldl_stop (l := [t']) hlive) p
  | leave w =>
    exact keeps_foldl_stop (not_mem_of_foldl_stop hlive) { p with coalescer := p.coalescer.leave w }
  | _ => exact .refl t _

theorem Staged.past (h : p.Staged) (ht : p.tasks.get? t = none) : p.dispatcher.Past t :=
  Dispatcher.past_of_not_mem fun hmem => Table.mem_keys.1 (h.stages.mem_iff.1 hmem) ht

omit [DecidableEq κ] in
theorem expire_of_not_mem (ht : t ∉ p.dispatcher.sleeping) : p.expire t = p := by
  rw [expire, Dispatcher.wake, if_neg ht]

theorem poll_of_past (ht : p.dispatcher.Past t) : p.poll t = p := by
  simp only [poll, ht.1, if_neg ht.2]

theorem takeSignal_fst (h : p.Coherent) (he : p.exchange? t = some e) :
    (p.takeSignal t).1 = p.coalescer.registry.isExpedited e := by
  simp only [takeSignal, he, Coalescer.takeSignal, h.mem_exchanges he, if_true]
  exact Registry.takeSignal_fst e

theorem past_poll (h : p.Coherent) (he : p.exchange? t = some e)
    (hd : p.coalescer.registry.isExpedited e ∨ p.dispatcher.Due t) : (p.poll t).dispatcher.Past t := by
  have hsignal := takeSignal_fst h he
  have hsame := Coherent.dispatcher_takeSignal p t
  cases hf : Table.get? p.dispatcher.fresh t with
  | some delay =>
    have hawake := Dispatcher.not_mem_sleeping h.nodup hf
    cases delay with
    | zero =>
      simp only [poll, hf]
      exact Dispatcher.past_start hawake (.inl rfl)
    | succ n =>
      simp only [poll, hf]
      rw [hsignal, hsame]
      exact Dispatcher.past_start hawake (.inr (hd.resolve_right fun hdue => by cases hdue.1 _ hf))
  | none =>
    by_cases ht : t ∈ p.dispatcher.sleeping
    · have hexp := hd.resolve_right fun hdue => hdue.2 ht
      simp only [poll, hf, ht, if_true, hsignal, hexp, hsame]
      exact Dispatcher.past_wake h.nodup ht
    · have hpast : p.dispatcher.Past t := ⟨hf, ht⟩
      rw [poll_of_past hpast]
      exact hpast

theorem mem_sleeping_poll (h : p.Coherent) (he : p.exchange? t = some e)
    (hexp : p.coalescer.registry.isExpedited e = false) {delay : Nat} (hne : delay ≠ 0)
    (hs : p.dispatcher.Slow t delay) : t ∈ (p.poll t).dispatcher.sleeping := by
  have hsignal := takeSignal_fst h he
  have hsame := Coherent.dispatcher_takeSignal p t
  rcases hs with hf | ht
  · obtain ⟨n, rfl⟩ := Nat.exists_eq_succ_of_ne_zero hne
    simp only [poll, hf]
    rw [hsignal, hexp, hsame]
    exact Dispatcher.mem_sleeping_start _ t hne
  · have hf : Table.get? p.dispatcher.fresh t = none := by
      cases hget : Table.get? p.dispatcher.fresh t with
      | none => rfl
      | some delay => exact absurd ht (Dispatcher.not_mem_sleeping h.nodup hget)
    simp only [poll, hf, ht, if_true, hsignal, hexp, Bool.false_eq_true, if_false, hsame]

theorem stage_cases (ht : t < p.nextTask) (m : Event κ ρ) :
    (p.step m).tasks.get? t = none ∨ m = .poll t ∨ m = .expire t ∨
      Dispatcher.Keeps t p.dispatcher (p.step m).dispatcher := by
  by_cases hlive : (p.step m).tasks.get? t = none
  · exact .inl hlive
  by_cases hp : m = .poll t
  · exact .inr (.inl hp)
  by_cases hx : m = .expire t
  · exact .inr (.inr (.inl hx))
  · exact .inr (.inr (.inr (keeps_step ht hlive hp hx)))

theorem due_step (h : p.Coherent) (ht : t < p.nextTask) (hd : p.dispatcher.Due t) (m : Event κ ρ) :
    (p.step m).dispatcher.Due t := by
  rcases stage_cases ht m with hdead | rfl | rfl | hkeeps
  · exact ((h.step m).toStaged.past hdead).due
  · cases hf : Table.get? p.dispatcher.fresh t with
    | some delay =>
      obtain rfl := hd.1 delay hf
      show (p.poll t).dispatcher.Due t
      simp only [poll, hf]
      exact (Dispatcher.past_start hd.2 (.inl rfl)).due
    | none =>
      rw [step, poll_of_past ⟨hf, hd.2⟩]
      exact hd
  · rw [step, expire_of_not_mem hd.2]
    exact hd
  · exact hkeeps.due hd

theorem past_step (h : p.Coherent) (ht : t < p.nextTask) (hd : p.dispatcher.Past t) (m : Event κ ρ) :
    (p.step m).dispatcher.Past t := by
  rcases stage_cases ht m with hdead | rfl | rfl | hkeeps
  · exact (h.step m).toStaged.past hdead
  · rw [step, poll_of_past hd]
    exact hd
  · rw [step, expire_of_not_mem hd.2]
    exact hd
  · exact hkeeps.past hd

theorem slow_step (h : p.Coherent) (he : p.exchange? t = some e)
    (hexp : p.coalescer.registry.isExpedited e = false) {delay : Nat} (hne : delay ≠ 0)
    (hs : p.dispatcher.Slow t delay) (hx : m ≠ .expire t) (hlive : (p.step m).tasks.get? t ≠ none) :
    (p.step m).dispatcher.Slow t delay := by
  by_cases hp : m = .poll t
  · subst hp
    exact .inr (mem_sleeping_poll h he hexp hne hs)
  · exact (keeps_step (h.task_lt t (mem_keys_of_exchange? he)) hlive hp hx).slow hs

theorem get?_fresh_dispatch (h : p.Coherent) (hu : p.isUnassigned e) {delay : Nat}
    (hlive : (p.dispatch e delay).2.tasks.get? p.nextTask ≠ none) :
    Table.get? (p.dispatch e delay).2.dispatcher.fresh p.nextTask = some delay := by
  have hnew : p.nextTask ∉ p.dispatcher.tasks := fun hmem =>
    Nat.lt_irrefl _ (h.task_lt _ (h.stages.mem_iff.1 hmem))
  have hspawn : Table.get? (p.spawn (some e) delay).2.dispatcher.fresh p.nextTask = some delay := by
    show Table.get? (p.dispatcher.fresh ++ [(p.nextTask, delay)]) p.nextTask = _
    rw [Table.get?_append, (Dispatcher.past_of_not_mem hnew).1]
    exact if_pos rfl
  rw [dispatch_of_isUnassigned hu] at hlive ⊢
  exact (keeps_foldl_stop (not_mem_of_foldl_stop hlive) _).fresh.trans hspawn

/-! ### Hurried exchanges -/

/-- Someone asked for no delay: the signal is there to be taken, or the task has no delay left. -/
def Hurried (p : Pool κ ρ) (e : Exchange κ) : Prop :=
  p.coalescer.registry.audience e ≠ [] →
    p.coalescer.registry.isExpedited e ∨ ∃ t, p.exchange? t = some e ∧ p.dispatcher.Due t

theorem hurried_expedite {w : Waiter κ} (hw : w ∈ p.coalescer.waiters) : (p.expedite w).Hurried w.exchange := by
  intro hne
  refine .inl (Coalescer.isExpedited_expedite hw fun hnil => hne ?_)
  have hsame : (p.expedite w).coalescer.registry.audience w.exchange = p.coalescer.registry.audience w.exchange := by
    simp only [expedite, Coalescer.expedite, if_pos hw]
    exact Registry.audience_expedite w _
  rw [hsame, hnil]

theorem hurried_dispatch (h : p.Coherent) (hu : p.isUnassigned e) : (p.dispatch e 0).2.Hurried e := by
  intro hne
  obtain ⟨hin, -⟩ := h.of_isUnassigned hu
  have hlisten := audience_of_step (m := .dispatch e 0) h (h.coalescer.generation_lt e hin) hne
  have hex : (p.dispatch e 0).2.exchange? p.nextTask = some e := by
    rcases h.coalescer.attach_cases hin p.nextTask with ⟨-, haborted, -⟩ | ⟨hnil, -⟩
    · rw [dispatch_of_isUnassigned hu, stopAborted_of_aborted (l := []) (by simpa using haborted)]
      exact (exchange?_spawn p (some e) 0 p.nextTask).trans (if_pos rfl)
    · exact absurd hnil hlisten
  have hcoherent := h.dispatch e 0
  have hlive : (p.dispatch e 0).2.tasks.get? p.nextTask ≠ none := by
    rw [exchange?_eq_some.1 hex]
    simp
  have hfresh := get?_fresh_dispatch h hu hlive
  refine .inr ⟨p.nextTask, hex, fun delay hget => ?_, Dispatcher.not_mem_sleeping hcoherent.nodup hfresh⟩
  exact Option.some.inj (hget.symm.trans hfresh)

namespace Hurried

theorem step (hh : p.Hurried e) (h : p.Coherent) (hgen : e.generation < p.coalescer.registry.nextGeneration)
    (m : Event κ ρ) : (p.step m).Hurried e := by
  intro hne
  rcases hh (audience_of_step h hgen hne) with hexp | ⟨t, he, hd⟩
  · -- only a poll of the task that runs the exchange takes the signal, and that poll makes use of it
    by_cases hm : ∃ t, m = .poll t ∧ p.exchange? t = some e
    · obtain ⟨t, rfl, he⟩ := hm
      exact .inr ⟨t, exchange?_step h he hne, (past_poll h he (.inl hexp)).due⟩
    · exact .inl (isExpedited_step h hexp (fun t hp he => hm ⟨t, hp, he⟩) hne hgen)
  · exact .inr ⟨t, exchange?_step h he hne, due_step h (h.task_lt t (mem_keys_of_exchange? he)) hd m⟩

/-- The task of a hurried exchange leaves its start delay when it runs. -/
theorem past_poll (hh : p.Hurried e) (h : p.Coherent) (he : p.exchange? t = some e) :
    (p.poll t).dispatcher.Past t := by
  -- somebody listens, or the task would have been aborted
  have hne : p.coalescer.registry.audience e ≠ [] := fun hnil => by
    cases (h.coalescer.registry.task?_of_audience hnil).symm.trans ((h.assigned t e).1 he)
  refine Pool.past_poll h he ((hh hne).imp_right fun ⟨t', he', hd⟩ => ?_)
  exact h.task_unique he' he ▸ hd

end Hurried

end Pool

end Entitle.Flight
