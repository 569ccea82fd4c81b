import Entitle.Flight.Registry

/-!
# The registry as its audiences

A registry is read through two views: `audience`, the waiters of the operation that an exchange settles
in the order of registration, and `task?`, the task that runs it. Both are empty once the operation has
ended. Each operation of the registry is one equation on each view, so nothing below looks at the table
again. `Sound` is what makes the views faithful: generations and listeners are never given twice, and an
operation without listeners is not kept.
-/

namespace Entitle.Flight

/-- The exchange that settles the operation of a waiter. -/
def Waiter.exchange {κ : Type} (w : Waiter κ) : Exchange κ := ⟨w.key, w.generation⟩

/-- An operation that a registry may hold. -/
structure Operation.Sound (o : Operation) : Prop where
  listened : o.listeners ≠ []
  increasing : o.listeners.Pairwise (· < ·)
  listener_lt : ∀ l ∈ o.listeners, l < o.nextListener

namespace Operation.Sound
variable {o : Operation}

theorem listen (increasing : o.listeners.Pairwise (· < ·)) (lt : ∀ l ∈ o.listeners, l < o.nextListener) :
    o.listen.Sound := by
  refine ⟨by simp [Operation.listen], ?_, ?_⟩
  · simp only [Operation.listen, List.pairwise_append, List.mem_singleton]
    exact ⟨increasing, List.pairwise_singleton .., fun l hl m hm => hm ▸ lt l hl⟩
  · intro l hl
    simp only [Operation.listen, List.mem_append, List.mem_singleton] at hl ⊢
    rcases hl with hl | rfl
    · exact Nat.lt_succ_of_lt (lt l hl)
    · exact Nat.lt_succ_self _

theorem unlisten (h : o.Sound) {l : Nat} (hne : (o.unlisten l).listeners ≠ []) : (o.unlisten l).Sound :=
  ⟨hne, h.increasing.filter _, fun m hm => h.listener_lt m (List.mem_filter.1 hm).1⟩

end Operation.Sound

namespace Registry
variable {κ : Type} [DecidableEq κ] {r : Registry κ}

/-! ### Finding an operation -/

theorem operation?_eq_some {key : κ} {generation : Nat} {o : Operation} :
    r.operation? key generation = some o ↔ r.pending.get? key = some o ∧ o.generation = generation := by
  simp [operation?, Option.filter_eq_some_iff]

theorem operation?_eq_none {key : κ} {generation : Nat} :
    r.operation? key generation = none ↔ ∀ o, r.pending.get? key = some o → o.generation ≠ generation := by
  simp [operation?, Option.filter_eq_none_iff]

theorem operation?_put (key k : κ) (o : Operation) (g : Nat) :
    (r.put key o).operation? k g =
      if key = k then (if o.generation = g then some o else none) else r.operation? k g := by
  simp only [operation?, put, Table.get?_put]
  split <;> simp [Option.filter]

theorem operation?_remove (key k : κ) (g : Nat) :
    (r.remove key).operation? k g = if key = k then none else r.operation? k g := by
  simp only [operation?, remove, Table.get?_erase]
  split <;> simp

/-- One key has one pending operation. -/
theorem operation?_unique {key : κ} {g₁ g₂ : Nat} {o₁ o₂ : Operation}
    (h₁ : r.operation? key g₁ = some o₁) (h₂ : r.operation? key g₂ = some o₂) : g₁ = g₂ := by
  rw [operation?_eq_some] at h₁ h₂
  have : o₁ = o₂ := Option.some.inj (h₁.1.symm.trans h₂.1)
  rw [← h₁.2, ← h₂.2, this]

/-! ### The two views -/

/-- The waiters of the operation that an exchange settles, in the order of registration. -/
def audience (r : Registry κ) (e : Exchange κ) : List (Waiter κ) :=
  match r.operation? e.key e.generation with
  | some o => o.listeners.map fun listener => ⟨e.key, e.generation, listener⟩
  | none => []

/-- The task that runs an exchange whose operation is pending. -/
def task? (r : Registry κ) (e : Exchange κ) : Option Nat :=
  (r.operation? e.key e.generation).bind (·.running)

theorem audience_of_some {e : Exchange κ} {o : Operation} (h : r.operation? e.key e.generation = some o) :
    r.audience e = o.listeners.map fun listener => ⟨e.key, e.generation, listener⟩ := by
  simp [audience, h]

theorem audience_of_none {e : Exchange κ} (h : r.operation? e.key e.generation = none) : r.audience e = [] := by
  simp [audience, h]

theorem task?_of_some {e : Exchange κ} {o : Operation} (h : r.operation? e.key e.generation = some o) :
    r.task? e = o.running := by
  simp [task?, h]

theorem task?_of_none {e : Exchange κ} (h : r.operation? e.key e.generation = none) : r.task? e = none := by
  simp [task?, h]

theorem exchange_of_mem_audience {e : Exchange κ} {w : Waiter κ} (h : w ∈ r.audience e) : w.exchange = e := by
  unfold audience at h
  split at h
  · obtain ⟨l, -, rfl⟩ := List.mem_map.1 h
    rfl
  · simp at h

theorem mem_audience {w : Waiter κ} :
    w ∈ r.audience w.exchange ↔ ∃ o, r.operation? w.key w.generation = some o ∧ w.listener ∈ o.listeners := by
  constructor
  · intro h
    unfold audience at h
    split at h
    · next o ho =>
      obtain ⟨l, hl, hw⟩ := List.mem_map.1 h
      cases w
      cases hw
      exact ⟨o, ho, hl⟩
    · simp at h
  · rintro ⟨o, ho, hl⟩
    rw [audience_of_some ho]
    exact List.mem_map.2 ⟨w.listener, hl, rfl⟩

/-- Changing an operation changes the views of its own exchange only. -/
theorem operation?_put_of_ne {e : Exchange κ} {o o' : Operation} {key : κ} (ho : r.pending.get? key = some o)
    (hg : o'.generation = o.generation) (hne : e ≠ ⟨key, o.generation⟩) :
    (r.put key o').operation? e.key e.generation = r.operation? e.key e.generation := by
  rw [operation?_put]
  split
  · next hk =>
    have hge : o.generation ≠ e.generation := fun hge => hne (by cases e; simp_all)
    rw [if_neg (hg ▸ hge)]
    exact (operation?_eq_none.2 fun o₂ h₂ => by
      rw [← hk, ho] at h₂; cases h₂; exact hge).symm
  · rfl

theorem operation?_put_self {o' : Operation} {key : κ} {g : Nat} (hg : o'.generation = g) :
    (r.put key o').operation? key g = some o' := by
  rw [operation?_put, if_pos rfl, if_pos hg]

theorem operation?_remove_of_ne {e : Exchange κ} {o : Operation} {key : κ} (ho : r.pending.get? key = some o)
    (hne : e ≠ ⟨key, o.generation⟩) :
    (r.remove key).operation? e.key e.generation = r.operation? e.key e.generation := by
  rw [operation?_remove]
  split
  · next hk =>
    refine (operation?_eq_none.2 fun o₂ h₂ hg => hne ?_).symm
    rw [← hk, ho] at h₂
    cases h₂; cases e; simp_all
  · rfl

theorem audience_put_self {key : κ} {g : Nat} {o' : Operation} (hg : o'.generation = g) :
    (r.put key o').audience ⟨key, g⟩ = o'.listeners.map fun listener => ⟨key, g, listener⟩ :=
  audience_of_some (operation?_put_self hg)

theorem task?_put_self {key : κ} {g : Nat} {o' : Operation} (hg : o'.generation = g) :
    (r.put key o').task? ⟨key, g⟩ = o'.running :=
  task?_of_some (operation?_put_self hg)

theorem audience_congr {r' : Registry κ} {e : Exchange κ}
    (h : r'.operation? e.key e.generation = r.operation? e.key e.generation) : r'.audience e = r.audience e := by
  simp only [audience, h]

theorem task?_congr {r' : Registry κ} {e : Exchange κ}
    (h : r'.operation? e.key e.generation = r.operation? e.key e.generation) : r'.task? e = r.task? e := by
  simp only [task?, h]

/-! ### What each operation does to the views -/

theorem register_joined {key : κ} {o : Operation} (ho : r.pending.get? key = some o) :
    r.register key = (none, ⟨key, o.generation, o.nextListener⟩, r.put key o.listen) := by
  simp [register, ho]

theorem register_started {key : κ} (ho : r.pending.get? key = none) :
    r.register key = (some ⟨key, r.nextGeneration⟩, ⟨key, r.nextGeneration, 0⟩,
      { r.put key (Operation.listen ⟨r.nextGeneration, 0, [], none, false⟩) with
        nextGeneration := r.nextGeneration + 1 }) := by
  simp [register, ho]

theorem register_key (key : κ) : (r.register key).2.1.key = key := by
  unfold register; split <;> rfl

theorem register_fst (key : κ) :
    (r.register key).1 = if r.isInFlight key then none else some (r.register key).2.1.exchange := by
  unfold register isInFlight
  split <;> simp_all [Waiter.exchange]

theorem audience_register (key : κ) (e : Exchange κ) :
    (r.register key).2.2.audience e =
      if e = (r.register key).2.1.exchange then r.audience e ++ [(r.register key).2.1] else r.audience e := by
  cases ho : r.pending.get? key with
  | some o =>
    simp only [register_joined ho, Waiter.exchange]
    split
    · next he =>
      subst he
      have h : r.operation? key o.generation = some o := operation?_eq_some.2 ⟨ho, rfl⟩
      rw [audience_put_self (by rfl), audience_of_some (e := ⟨key, o.generation⟩) h]
      simp [Operation.listen]
    · next he => exact audience_congr (operation?_put_of_ne ho rfl he)
  | none =>
    have hnone : ∀ g, r.operation? key g = none := fun g => operation?_eq_none.2 (by simp [ho])
    simp only [register_started ho, Waiter.exchange]
    split
    · next he =>
      subst he
      rw [audience_of_none (r := r) (e := ⟨key, r.nextGeneration⟩) (hnone _)]
      simp [audience, operation?, put, Table.get?_put, Operation.listen, Option.filter]
    · next he =>
      refine audience_congr (r := r) ?_
      by_cases hk : key = e.key
      · have hg : r.nextGeneration ≠ e.generation := fun hg => he (by cases e; simp_all)
        rw [← hk, hnone]
        simp [operation?, put, Table.get?_put, Operation.listen, hg]
      · simp [operation?, put, Table.get?_put, hk]

theorem task?_register (key : κ) (e : Exchange κ) : (r.register key).2.2.task? e = r.task? e := by
  cases ho : r.pending.get? key with
  | some o =>
    simp only [register_joined ho]
    by_cases he : e = ⟨key, o.generation⟩
    · subst he
      have h : r.operation? key o.generation = some o := operation?_eq_some.2 ⟨ho, rfl⟩
      rw [task?_put_self (by rfl), task?_of_some (e := ⟨key, o.generation⟩) h]
      rfl
    · exact task?_congr (operation?_put_of_ne ho rfl he)
  | none =>
    simp only [register_started ho, task?, operation?, put, Table.get?_put]
    by_cases hk : key = e.key
    · subst hk
      by_cases hg : r.nextGeneration = e.generation <;> simp [ho, Operation.listen, hg]
    · simp [hk]

theorem settle_fst (e : Exchange κ) : (r.settle e).1 = r.audience e := by
  unfold settle audience; split <;> simp_all

theorem operation?_settle (e₀ e : Exchange κ) :
    (r.settle e₀).2.operation? e.key e.generation =
      if e = e₀ then none else r.operation? e.key e.generation := by
  unfold settle
  split
  · next o ho =>
    obtain ⟨hp, hg⟩ := operation?_eq_some.1 ho
    split
    · next he => subst he; rw [operation?_remove, if_pos rfl]
    · next he => exact operation?_remove_of_ne hp (by rw [hg]; exact he)
  · next ho =>
    split
    · next he => subst he; exact ho
    · rfl

theorem audience_settle (e₀ e : Exchange κ) :
    (r.settle e₀).2.audience e = if e = e₀ then [] else r.audience e := by
  simp only [audience, operation?_settle]
  split <;> simp_all

theorem task?_settle (e₀ e : Exchange κ) :
    (r.settle e₀).2.task? e = if e = e₀ then none else r.task? e := by
  simp only [task?, operation?_settle]
  split <;> simp_all

theorem attach_eq_none {e : Exchange κ} {task : Nat} :
    r.attach e task = none ↔ r.operation? e.key e.generation = none := by
  simp [attach]

theorem audience_put_of_listeners {key : κ} {g : Nat} {o o' : Operation} (ho : r.operation? key g = some o)
    (hg : o'.generation = o.generation) (hl : o'.listeners = o.listeners) (e : Exchange κ) :
    (r.put key o').audience e = r.audience e := by
  obtain ⟨hp, rfl⟩ := operation?_eq_some.1 ho
  by_cases he : e = ⟨key, o.generation⟩
  · subst he
    rw [audience_put_self hg, audience_of_some (e := ⟨key, o.generation⟩) ho, hl]
  · exact audience_congr (operation?_put_of_ne hp hg he)

theorem audience_attach {e : Exchange κ} {task : Nat} {r' : Registry κ} (h : r.attach e task = some r')
    (e' : Exchange κ) : r'.audience e' = r.audience e' := by
  obtain ⟨o, ho, rfl⟩ := Option.map_eq_some_iff.1 h
  exact audience_put_of_listeners ho (by rfl) (by rfl) e'

theorem task?_attach {e : Exchange κ} {task : Nat} {r' : Registry κ} (h : r.attach e task = some r')
    (e' : Exchange κ) : r'.task? e' = if e' = e then some task else r.task? e' := by
  obtain ⟨o, ho, rfl⟩ := Option.map_eq_some_iff.1 h
  obtain ⟨hp, hg⟩ := operation?_eq_some.1 ho
  split
  · next he => subst he; rw [task?_of_some (operation?_put_self (by exact hg))]
  · next he => exact task?_congr (operation?_put_of_ne hp (by rfl) (by rw [hg]; exact he))

theorem task?_put_of_running {key : κ} {g : Nat} {o : Operation} (o' : Operation) (ho : r.operation? key g = some o)
    (hg : o'.generation = o.generation) (hr : o'.running = o.running) (e : Exchange κ) :
    (r.put key o').task? e = r.task? e := by
  obtain ⟨hp, rfl⟩ := operation?_eq_some.1 ho
  by_cases he : e = ⟨key, o.generation⟩
  · subst he
    rw [task?_put_self hg, task?_of_some (e := ⟨key, o.generation⟩) ho, hr]
  · exact task?_congr (operation?_put_of_ne hp hg he)

theorem audience_expedite (w : Waiter κ) (e : Exchange κ) : (r.expedite w).audience e = r.audience e := by
  unfold expedite
  split
  · next o ho => exact audience_put_of_listeners ho (by rfl) (by rfl) e
  · rfl

theorem task?_expedite (w : Waiter κ) (e : Exchange κ) : (r.expedite w).task? e = r.task? e := by
  unfold expedite
  split
  · next o ho => exact task?_put_of_running _ ho (by rfl) (by rfl) e
  · rfl

theorem audience_takeSignal (e₀ e : Exchange κ) : (r.takeSignal e₀).2.audience e = r.audience e := by
  unfold takeSignal
  split
  · next o ho => exact audience_put_of_listeners ho (by rfl) (by rfl) e
  · rfl

theorem task?_takeSignal (e₀ e : Exchange κ) : (r.takeSignal e₀).2.task? e = r.task? e := by
  unfold takeSignal
  split
  · next o ho => exact task?_put_of_running _ ho (by rfl) (by rfl) e
  · rfl

theorem leave_ended {w : Waiter κ} (ho : r.operation? w.key w.generation = none) : r.leave w = (none, r) := by
  simp [leave, ho]

theorem leave_last {w : Waiter κ} {o : Operation} (ho : r.operation? w.key w.generation = some o)
    (hl : (o.unlisten w.listener).listeners = []) : r.leave w = (o.running, r.remove w.key) := by
  simp [leave, ho, hl]

theorem leave_others {w : Waiter κ} {o : Operation} (ho : r.operation? w.key w.generation = some o)
    (hl : (o.unlisten w.listener).listeners ≠ []) :
    r.leave w = (none, r.put w.key (o.unlisten w.listener)) := by
  unfold leave
  simp only [ho]
  split
  · next h => exact absurd h hl
  · rfl

/-- A waiter that leaves finds its operation ended, ends it, or leaves others in it. -/
theorem leave_cases (r : Registry κ) (w : Waiter κ) :
    (r.operation? w.key w.generation = none ∧ r.leave w = (none, r)) ∨
    ∃ o, r.operation? w.key w.generation = some o ∧
      (((o.unlisten w.listener).listeners = [] ∧ r.leave w = (o.running, r.remove w.key)) ∨
        ((o.unlisten w.listener).listeners ≠ [] ∧ r.leave w = (none, r.put w.key (o.unlisten w.listener)))) := by
  cases ho : r.operation? w.key w.generation with
  | none => exact .inl ⟨rfl, leave_ended ho⟩
  | some o =>
    refine .inr ⟨o, rfl, ?_⟩
    by_cases hl : (o.unlisten w.listener).listeners = []
    · exact .inl ⟨hl, leave_last ho hl⟩
    · exact .inr ⟨hl, leave_others ho hl⟩

theorem audience_remove_self (w : Waiter κ) : (r.remove w.key).audience w.exchange = [] :=
  audience_of_none (by rw [operation?_remove]; exact if_pos rfl)

theorem audience_unlisten {w : Waiter κ} {o : Operation} (ho : r.operation? w.key w.generation = some o) :
    (r.put w.key (o.unlisten w.listener)).audience w.exchange =
      (o.unlisten w.listener).listeners.map fun l => ⟨w.key, w.generation, l⟩ :=
  audience_put_self (by exact (operation?_eq_some.1 ho).2)

theorem audience_leave (w : Waiter κ) (e : Exchange κ) :
    (r.leave w).2.audience e = (r.audience e).filter (· ≠ w) := by
  by_cases he : e = w.exchange
  · subst he
    have hself : ∀ o, r.operation? w.key w.generation = some o → (r.audience w.exchange).filter (· ≠ w) =
        (o.unlisten w.listener).listeners.map fun l => ⟨w.key, w.generation, l⟩ := by
      intro o ho
      rw [audience_of_some (e := w.exchange) ho, List.filter_map]
      congr 1
      exact List.filter_congr fun l _ => by cases w; simp [Waiter.exchange]
    rcases leave_cases r w with ⟨ho, hr⟩ | ⟨o, ho, ⟨hl, hr⟩ | ⟨-, hr⟩⟩ <;> rw [hr]
    · rw [audience_of_none (e := w.exchange) ho]; rfl
    · rw [hself o ho, hl]; exact audience_remove_self w
    · rw [hself o ho]; exact audience_unlisten ho
  · have hkeep : (r.audience e).filter (· ≠ w) = r.audience e := List.filter_eq_self.2 fun v hv => by
      simpa using fun hvw : v = w => he (by rw [← exchange_of_mem_audience hv, hvw])
    rw [hkeep]
    rcases leave_cases r w with ⟨-, hr⟩ | ⟨o, ho, h⟩
    · rw [hr]
    · obtain ⟨hp, hg⟩ := operation?_eq_some.1 ho
      have hne : e ≠ ⟨w.key, o.generation⟩ := by rw [hg]; exact he
      rcases h with ⟨-, hr⟩ | ⟨-, hr⟩ <;> rw [hr]
      · exact audience_congr (operation?_remove_of_ne hp hne)
      · exact audience_congr (operation?_put_of_ne hp rfl hne)

theorem leave_fst (w : Waiter κ) :
    (r.leave w).1 = if (r.leave w).2.audience w.exchange = [] then r.task? w.exchange else none := by
  rcases leave_cases r w with ⟨ho, hr⟩ | ⟨o, ho, ⟨-, hr⟩ | ⟨hl, hr⟩⟩ <;> rw [hr]
  · rw [if_pos (audience_of_none (e := w.exchange) ho), task?_of_none (e := w.exchange) ho]
  · rw [if_pos (audience_remove_self w), task?_of_some (e := w.exchange) ho]
  · rw [if_neg]
    rw [audience_unlisten ho, List.map_eq_nil_iff]
    exact hl

/-! ### Generations -/

theorem nextGeneration_register (key : κ) :
    (r.register key).2.2.nextGeneration = r.nextGeneration + if r.isInFlight key then 0 else 1 := by
  cases ho : r.pending.get? key with
  | some o => rw [register_joined ho]; simp [isInFlight, ho, put]
  | none => simp [register_started ho, isInFlight, ho]

@[simp] theorem nextGeneration_settle (e : Exchange κ) : (r.settle e).2.nextGeneration = r.nextGeneration := by
  unfold settle; split <;> rfl

theorem nextGeneration_attach {e : Exchange κ} {task : Nat} {r' : Registry κ} (h : r.attach e task = some r') :
    r'.nextGeneration = r.nextGeneration := by
  obtain ⟨o, -, rfl⟩ := Option.map_eq_some_iff.1 h
  rfl

@[simp] theorem nextGeneration_expedite (w : Waiter κ) : (r.expedite w).nextGeneration = r.nextGeneration := by
  unfold expedite; split <;> rfl

@[simp] theorem nextGeneration_takeSignal (e : Exchange κ) :
    (r.takeSignal e).2.nextGeneration = r.nextGeneration := by
  unfold takeSignal; split <;> rfl

@[simp] theorem nextGeneration_leave (w : Waiter κ) : (r.leave w).2.nextGeneration = r.nextGeneration := by
  rcases leave_cases r w with ⟨-, hr⟩ | ⟨o, -, ⟨-, hr⟩ | ⟨-, hr⟩⟩ <;> rw [hr] <;> rfl

/-! ### Sound registries -/

/-- Generations and listeners are not given twice, and every operation kept has a listener. -/
structure Sound (r : Registry κ) : Prop where
  operation : ∀ key o, r.pending.get? key = some o → o.Sound
  generation_lt : ∀ key o, r.pending.get? key = some o → o.generation < r.nextGeneration
  apart : ∀ k₁ k₂ o₁ o₂, r.pending.get? k₁ = some o₁ → r.pending.get? k₂ = some o₂ →
    o₁.generation = o₂.generation → k₁ = k₂

/-- The waiter was handed out, at some time, by a registration. -/
def Knows (r : Registry κ) (w : Waiter κ) : Prop :=
  w.generation < r.nextGeneration ∧
    ∀ o, r.operation? w.key w.generation = some o → w.listener < o.nextListener

theorem not_knows_register (key : κ) : ¬ r.Knows (r.register key).2.1 := by
  rintro ⟨hg, hl⟩
  cases ho : r.pending.get? key with
  | some o =>
    rw [register_joined ho] at hl
    exact Nat.lt_irrefl _ (hl o (operation?_eq_some.2 ⟨ho, rfl⟩))
  | none =>
    rw [register_started ho] at hg
    exact Nat.lt_irrefl _ hg

namespace Sound

theorem empty : (⟨0, []⟩ : Registry κ).Sound :=
  ⟨fun _ _ h => by simp at h, fun _ _ h => by simp at h, fun _ _ _ _ h => by simp at h⟩

theorem put {key : κ} {o o' : Operation} (h : r.Sound) (ho : r.pending.get? key = some o)
    (hg : o'.generation = o.generation) (hs : o'.Sound) : (r.put key o').Sound := by
  have hget : ∀ k o₁, (r.put key o').pending.get? k = some o₁ →
      (k = key ∧ o₁ = o') ∨ r.pending.get? k = some o₁ := by
    intro k o₁ h₁
    simp only [Registry.put, Table.get?_put] at h₁
    split at h₁
    · next hk => exact .inl ⟨hk.symm, (Option.some.inj h₁).symm⟩
    · exact .inr h₁
  -- every operation of the new registry has its key and its generation from the old one
  have hold : ∀ k o₁, (r.put key o').pending.get? k = some o₁ →
      ∃ o₂, r.pending.get? k = some o₂ ∧ o₂.generation = o₁.generation := by
    intro k o₁ h₁
    rcases hget k o₁ h₁ with ⟨rfl, rfl⟩ | h₁
    · exact ⟨o, ho, hg.symm⟩
    · exact ⟨o₁, h₁, rfl⟩
  refine ⟨?_, ?_, ?_⟩
  · intro k o₁ h₁
    rcases hget k o₁ h₁ with ⟨rfl, rfl⟩ | h₁
    · exact hs
    · exact h.operation k o₁ h₁
  · intro k o₁ h₁
    obtain ⟨o₂, h₂, hg₂⟩ := hold k o₁ h₁
    exact hg₂ ▸ h.generation_lt k o₂ h₂
  · intro k₁ k₂ o₁ o₂ h₁ h₂ hgen
    obtain ⟨p₁, hp₁, hg₁⟩ := hold k₁ o₁ h₁
    obtain ⟨p₂, hp₂, hg₂⟩ := hold k₂ o₂ h₂
    exact h.apart k₁ k₂ p₁ p₂ hp₁ hp₂ (by rw [hg₁, hg₂, hgen])

theorem remove (h : r.Sound) (key : κ) : (r.remove key).Sound := by
  have hget : ∀ k o, (r.remove key).pending.get? k = some o → r.pending.get? k = some o := by
    intro k o h₁
    simp only [Registry.remove, Table.get?_erase] at h₁
    split at h₁
    · cases h₁
    · exact h₁
  exact ⟨fun k o h₁ => h.operation k o (hget k o h₁), fun k o h₁ => h.generation_lt k o (hget k o h₁),
    fun k₁ k₂ o₁ o₂ h₁ h₂ => h.apart k₁ k₂ o₁ o₂ (hget k₁ o₁ h₁) (hget k₂ o₂ h₂)⟩

theorem register (h : r.Sound) (key : κ) : (r.register key).2.2.Sound := by
  cases ho : r.pending.get? key with
  | some o =>
    rw [register_joined ho]
    exact h.put ho rfl (.listen (h.operation key o ho).increasing (h.operation key o ho).listener_lt)
  | none =>
    simp only [register_started ho]
    have hget : ∀ k o₁, Table.get? (r.pending.put key (Operation.listen ⟨r.nextGeneration, 0, [], none, false⟩)) k =
        some o₁ → (k = key ∧ o₁ = Operation.listen ⟨r.nextGeneration, 0, [], none, false⟩) ∨
          r.pending.get? k = some o₁ := by
      intro k o₁ h₁
      rw [Table.get?_put] at h₁
      split at h₁
      · next hk => exact .inl ⟨hk.symm, (Option.some.inj h₁).symm⟩
      · exact .inr h₁
    refine ⟨?_, ?_, ?_⟩
    · intro k o₁ h₁
      rcases hget k o₁ h₁ with ⟨-, rfl⟩ | h₁
      · exact .listen List.Pairwise.nil (by simp)
      · exact h.operation k o₁ h₁
    · intro k o₁ h₁
      rcases hget k o₁ h₁ with ⟨-, rfl⟩ | h₁
      · exact Nat.lt_succ_self _
      · exact Nat.lt_succ_of_lt (h.generation_lt k o₁ h₁)
    · intro k₁ k₂ o₁ o₂ h₁ h₂ hgen
      rcases hget k₁ o₁ h₁ with ⟨rfl, rfl⟩ | hp₁ <;> rcases hget k₂ o₂ h₂ with ⟨rfl, rfl⟩ | hp₂
      · rfl
      · exact absurd hgen.symm (Nat.ne_of_lt (h.generation_lt k₂ o₂ hp₂))
      · exact absurd hgen (Nat.ne_of_lt (h.generation_lt k₁ o₁ hp₁))
      · exact h.apart k₁ k₂ o₁ o₂ hp₁ hp₂ hgen

theorem settle (h : r.Sound) (e : Exchange κ) : (r.settle e).2.Sound := by
  unfold Registry.settle
  split
  · exact h.remove _
  · exact h

theorem put_operation {key : κ} {g : Nat} {o o' : Operation} (h : r.Sound) (ho : r.operation? key g = some o)
    (hg : o'.generation = o.generation) (hs : o.Sound → o'.Sound) : (r.put key o').Sound :=
  have hp := (operation?_eq_some.1 ho).1
  h.put hp hg (hs (h.operation key o hp))

theorem attach (h : r.Sound) {e : Exchange κ} {task : Nat} {r' : Registry κ} (ha : r.attach e task = some r') :
    r'.Sound := by
  obtain ⟨o, ho, rfl⟩ := Option.map_eq_some_iff.1 ha
  exact h.put_operation ho rfl fun hs => ⟨hs.listened, hs.increasing, hs.listener_lt⟩

theorem expedite (h : r.Sound) (w : Waiter κ) : (r.expedite w).Sound := by
  unfold Registry.expedite
  split
  · next o ho => exact h.put_operation ho rfl fun hs => ⟨hs.listened, hs.increasing, hs.listener_lt⟩
  · exact h

theorem takeSignal (h : r.Sound) (e : Exchange κ) : (r.takeSignal e).2.Sound := by
  unfold Registry.takeSignal
  split
  · next o ho => exact h.put_operation ho rfl fun hs => ⟨hs.listened, hs.increasing, hs.listener_lt⟩
  · exact h

theorem leave (h : r.Sound) (w : Waiter κ) : (r.leave w).2.Sound := by
  rcases leave_cases r w with ⟨-, hr⟩ | ⟨o, ho, ⟨-, hr⟩ | ⟨hl, hr⟩⟩ <;> rw [hr]
  · exact h
  · exact h.remove _
  · exact h.put_operation ho rfl fun hs => hs.unlisten hl

/-- An operation that nobody listens to is not kept. -/
theorem operation?_eq_none_of_audience (h : r.Sound) {e : Exchange κ} (he : r.audience e = []) :
    r.operation? e.key e.generation = none := by
  cases ho : r.operation? e.key e.generation with
  | none => rfl
  | some o =>
    rw [audience_of_some ho, List.map_eq_nil_iff] at he
    exact absurd he (h.operation _ _ (operation?_eq_some.1 ho).1).listened

theorem task?_of_audience (h : r.Sound) {e : Exchange κ} (he : r.audience e = []) : r.task? e = none :=
  task?_of_none (h.operation?_eq_none_of_audience he)

theorem task?_leave (h : r.Sound) (w : Waiter κ) (e : Exchange κ) :
    (r.leave w).2.task? e = if (r.leave w).2.audience e = [] then none else r.task? e := by
  split
  · next hnil => exact (h.leave w).task?_of_audience hnil
  · next hne =>
    rcases leave_cases r w with ⟨-, hr⟩ | ⟨o, ho, ⟨-, hr⟩ | ⟨-, hr⟩⟩ <;> rw [hr] at hne ⊢
    · obtain ⟨hp, hg⟩ := operation?_eq_some.1 ho
      refine task?_congr (operation?_remove_of_ne hp fun he => hne ?_)
      rw [he, hg]
      exact audience_remove_self w
    · exact task?_put_of_running (o.unlisten w.listener) ho rfl rfl e

end Sound

/-! ### Waiters handed out -/

namespace Knows
variable {w : Waiter κ}

theorem put {key : κ} {g : Nat} {o o' : Operation} (h : r.Knows w) (ho : r.operation? key g = some o)
    (hg : o'.generation = o.generation) (hl : o.nextListener ≤ o'.nextListener) : (r.put key o').Knows w := by
  refine ⟨h.1, fun p hp => ?_⟩
  rw [operation?_put] at hp
  split at hp
  · next hk =>
    split at hp
    · next hgen =>
      cases hp
      have : r.operation? w.key w.generation = some o := by
        rw [operation?_eq_some] at ho ⊢
        exact ⟨hk ▸ ho.1, hg ▸ hgen⟩
      exact Nat.lt_of_lt_of_le (h.2 o this) hl
    · cases hp
  · exact h.2 p hp

theorem remove (h : r.Knows w) (key : κ) : (r.remove key).Knows w := by
  refine ⟨h.1, fun p hp => ?_⟩
  rw [operation?_remove] at hp
  split at hp
  · cases hp
  · exact h.2 p hp

theorem register (h : r.Knows w) (key : κ) : (r.register key).2.2.Knows w := by
  cases ho : r.pending.get? key with
  | some o =>
    rw [register_joined ho]
    exact h.put (operation?_eq_some.2 ⟨ho, rfl⟩) rfl (Nat.le_succ _)
  | none =>
    simp only [register_started ho]
    refine ⟨Nat.lt_succ_of_lt h.1, fun p hp => ?_⟩
    change (r.put key _).operation? w.key w.generation = some p at hp
    rw [operation?_put] at hp
    split at hp
    · split at hp
      · next hg => exact absurd hg.symm (Nat.ne_of_lt h.1)
      · cases hp
    · exact h.2 p hp

theorem settle (h : r.Knows w) (e : Exchange κ) : (r.settle e).2.Knows w := by
  unfold Registry.settle
  split
  · exact h.remove _
  · exact h

theorem attach (h : r.Knows w) {e : Exchange κ} {task : Nat} {r' : Registry κ} (ha : r.attach e task = some r') :
    r'.Knows w := by
  obtain ⟨o, ho, rfl⟩ := Option.map_eq_some_iff.1 ha
  exact h.put ho rfl (Nat.le_refl _)

theorem expedite (h : r.Knows w) (v : Waiter κ) : (r.expedite v).Knows w := by
  unfold Registry.expedite
  split
  · next o ho => exact h.put ho rfl (Nat.le_refl _)
  · exact h

theorem takeSignal (h : r.Knows w) (e : Exchange κ) : (r.takeSignal e).2.Knows w := by
  unfold Registry.takeSignal
  split
  · next o ho => exact h.put ho rfl (Nat.le_refl _)
  · exact h

theorem leave (h : r.Knows w) (v : Waiter κ) : (r.leave v).2.Knows w := by
  rcases leave_cases r v with ⟨-, hr⟩ | ⟨o, ho, ⟨-, hr⟩ | ⟨-, hr⟩⟩ <;> rw [hr]
  · exact h
  · exact h.remove _
  · exact h.put ho rfl (Nat.le_refl _)

end Knows

theorem Sound.knows_register (h : r.Sound) (key : κ) : (r.register key).2.2.Knows (r.register key).2.1 := by
  cases ho : r.pending.get? key with
  | some o =>
    rw [register_joined ho]
    refine ⟨h.generation_lt key o ho, fun p hp => ?_⟩
    rw [operation?_put_self (by rfl)] at hp
    cases hp
    exact Nat.lt_succ_self _
  | none =>
    simp only [register_started ho]
    refine ⟨Nat.lt_succ_self _, fun p hp => ?_⟩
    change (r.put key _).operation? key r.nextGeneration = some p at hp
    rw [operation?_put_self (by rfl)] at hp
    cases hp
    exact Nat.lt_succ_self _

/-- Whoever joins an operation in flight finds someone in it. -/
theorem Sound.audience_ne_nil_of_isInFlight (h : r.Sound) {key : κ} (hin : r.isInFlight key) :
    r.audience (r.register key).2.1.exchange ≠ [] := by
  obtain ⟨o, ho⟩ := Option.isSome_iff_exists.1 hin
  have hop : r.operation? key o.generation = some o := operation?_eq_some.2 ⟨ho, rfl⟩
  rw [register_joined ho]
  intro hnil
  cases hop.symm.trans (h.operation?_eq_none_of_audience hnil)

theorem Sound.knows_of_mem_audience (h : r.Sound) {e : Exchange κ} {w : Waiter κ} (hw : w ∈ r.audience e) :
    r.Knows w := by
  have he := exchange_of_mem_audience hw
  subst he
  obtain ⟨o, ho, hl⟩ := mem_audience.1 hw
  obtain ⟨hp, hg⟩ := operation?_eq_some.1 ho
  refine ⟨hg ▸ h.generation_lt _ o hp, fun p hp' => ?_⟩
  rw [ho] at hp'
  cases hp'
  exact (h.operation _ o hp).listener_lt _ hl

end Registry

end Entitle.Flight
