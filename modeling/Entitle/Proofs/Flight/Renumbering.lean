import Entitle.Flight.Script
import Entitle.Proofs.Flight.Cancellation
import Mathlib.Logic.Equiv.Basic

/-!
# One key under another numbering

A coalescer counts the operations of all its keys together, so the same steps on one key get other generations beside
other keys. `Coalescer.Mirrors`: a coalescer that knows one key only holds what another holds of that key, with the
generations changed by a permutation. A step on another key does not show (`Mirrors.other`), a step on the key does the
same on both sides (`Mirrors.own`), and a new operation finds its number in a new permutation (`Mirrors.register`).
-/

namespace Entitle.Flight

variable {κ ρ : Type}

/-! ### The same with other numbers -/

section Renumbered
variable (π : Equiv.Perm Nat)

/-- The operation with its generation renumbered. -/
def Operation.renumbered (o : Operation) : Operation :=
  { o with generation := π o.generation }

/-- The exchange with its generation renumbered. -/
def Exchange.renumbered (e : Exchange κ) : Exchange κ :=
  { e with generation := π e.generation }

/-- The waiter with its generation renumbered. -/
def Waiter.renumbered (w : Waiter κ) : Waiter κ :=
  { w with generation := π w.generation }

/-- The registration with what it gave renumbered. -/
def Registration.renumbered (r : Registration κ) : Registration κ :=
  ⟨r.exchange.map (·.renumbered π), r.waiter.renumbered π⟩

/-- The step with the exchange or waiter that it is about renumbered. -/
def Coalescer.Step.renumbered : Coalescer.Step κ ρ → Coalescer.Step κ ρ
  | .register key => .register key
  | .complete e result => .complete (e.renumbered π) result
  | .drop e => .drop (e.renumbered π)
  | .attach e task => .attach (e.renumbered π) task
  | .signal e => .signal (e.renumbered π)
  | .expedite w => .expedite (w.renumbered π)
  | .leave w => .leave (w.renumbered π)
  | .take w => .take (w.renumbered π)

end Renumbered

/-- The key of the operation that a step is about. -/
def Coalescer.Step.key : Coalescer.Step κ ρ → κ
  | .register key => key
  | .complete e _ | .drop e | .attach e _ | .signal e => e.key
  | .expedite w | .leave w | .take w => w.key

variable {π π' : Equiv.Perm Nat} {key : κ}

theorem Exchange.renumbered_injective (π : Equiv.Perm Nat) :
    Function.Injective (Exchange.renumbered π : Exchange κ → Exchange κ) := by
  rintro ⟨k₁, g₁⟩ ⟨k₂, g₂⟩ h
  simpa [Exchange.renumbered] using h

theorem Waiter.renumbered_injective (π : Equiv.Perm Nat) :
    Function.Injective (Waiter.renumbered π : Waiter κ → Waiter κ) := by
  rintro ⟨k₁, g₁, l₁⟩ ⟨k₂, g₂, l₂⟩ h
  simpa [Waiter.renumbered] using h

theorem Exchange.renumbered_congr {e : Exchange κ} (h : π' e.generation = π e.generation) :
    e.renumbered π' = e.renumbered π := by
  rw [Exchange.renumbered, h]
  rfl

theorem Waiter.renumbered_congr {w : Waiter κ} (h : π' w.generation = π w.generation) :
    w.renumbered π' = w.renumbered π := by
  rw [Waiter.renumbered, h]
  rfl

/-- A permutation can be changed to take one number to another; it stays as it is at every number that is neither. -/
theorem exists_renumbering (π : Equiv.Perm Nat) (g g' : Nat) :
    ∃ π' : Equiv.Perm Nat, π' g = g' ∧ ∀ n, n ≠ g → π n ≠ g' → π' n = π n := by
  refine ⟨π.trans (Equiv.swap (π g) g'), Equiv.swap_apply_left _ _, fun n hn hg => ?_⟩
  exact Equiv.swap_apply_of_ne_of_ne (fun heq => hn (π.injective heq)) hg

variable [DecidableEq κ]

/-! ### The operation of a key -/

namespace Registry
variable {r r' : Registry κ}

/-- Both have the same operation on the key, up to its number. -/
def Mirrors (π : Equiv.Perm Nat) (key : κ) (r r' : Registry κ) : Prop :=
  r'.pending.get? key = (r.pending.get? key).map (·.renumbered π)

theorem get?_put (key k : κ) (o : Operation) (r : Registry κ) :
    (r.put key o).pending.get? k = if key = k then some o else r.pending.get? k :=
  Table.get?_put ..

theorem get?_remove (key k : κ) (r : Registry κ) :
    (r.remove key).pending.get? k = if key = k then none else r.pending.get? k :=
  Table.get?_erase ..

namespace Mirrors

theorem operation? (h : Mirrors π key r r') (g : Nat) :
    r'.operation? key (π g) = (r.operation? key g).map (·.renumbered π) := by
  rw [Registry.operation?, Registry.operation?, show r'.pending.get? key = _ from h]
  cases r.pending.get? key with
  | none => rfl
  | some o =>
    by_cases hg : o.generation = g <;> simp [Option.filter, Operation.renumbered, hg]

theorem put (o : Operation) : Mirrors π key (r.put key o) (r'.put key (o.renumbered π)) := by
  simp [Mirrors, get?_put]

theorem remove : Mirrors π key (r.remove key) (r'.remove key) := by
  simp [Mirrors, get?_remove]

theorem register (h : Mirrors π key r r') (hnew : r.pending.get? key = none → π r.nextGeneration = r'.nextGeneration) :
    (r'.register key).1 = (r.register key).1.map (·.renumbered π) ∧
      (r'.register key).2.1 = (r.register key).2.1.renumbered π ∧
      Mirrors π key (r.register key).2.2 (r'.register key).2.2 := by
  have hpending : r'.pending.get? key = (r.pending.get? key).map (·.renumbered π) := h
  cases ho : r.pending.get? key with
  | some o =>
    rw [ho] at hpending
    rw [register_joined ho, register_joined hpending]
    exact ⟨rfl, rfl, put o.listen⟩
  | none =>
    rw [ho] at hpending
    rw [register_started ho, register_started hpending, ← hnew ho]
    refine ⟨rfl, rfl, ?_⟩
    simp only [Mirrors, Registry.put, Table.get?_put]
    rfl

variable {e : Exchange κ} {w : Waiter κ}

theorem settle (h : Mirrors π e.key r r') :
    (r'.settle (e.renumbered π)).1 = (r.settle e).1.map (·.renumbered π) ∧
      Mirrors π e.key (r.settle e).2 (r'.settle (e.renumbered π)).2 := by
  simp only [Registry.settle, Exchange.renumbered, h.operation?]
  cases r.operation? e.key e.generation with
  | none => exact ⟨rfl, h⟩
  | some o =>
    refine ⟨?_, remove⟩
    simp only [Option.map_some, Operation.renumbered, List.map_map]
    rfl

theorem attach (h : Mirrors π e.key r r') (task : Nat) :
    (r.attach e task = none ∧ r'.attach (e.renumbered π) task = none) ∨
      ∃ s s', r.attach e task = some s ∧ r'.attach (e.renumbered π) task = some s' ∧ Mirrors π e.key s s' := by
  simp only [Registry.attach, Exchange.renumbered, h.operation?]
  cases r.operation? e.key e.generation with
  | none => exact .inl ⟨rfl, rfl⟩
  | some o => exact .inr ⟨_, _, rfl, rfl, put { o with running := some task }⟩

theorem takeSignal (h : Mirrors π e.key r r') :
    (r'.takeSignal (e.renumbered π)).1 = (r.takeSignal e).1 ∧
      Mirrors π e.key (r.takeSignal e).2 (r'.takeSignal (e.renumbered π)).2 := by
  simp only [Registry.takeSignal, Exchange.renumbered, h.operation?]
  cases r.operation? e.key e.generation with
  | none => exact ⟨rfl, h⟩
  | some o => exact ⟨rfl, put { o with expedited := false }⟩

theorem expedite (h : Mirrors π w.key r r') :
    Mirrors π w.key (r.expedite w) (r'.expedite (w.renumbered π)) := by
  simp only [Registry.expedite, Waiter.renumbered, h.operation?]
  cases r.operation? w.key w.generation with
  | none => exact h
  | some o => exact put { o with expedited := true }

theorem leave (h : Mirrors π w.key r r') :
    (r'.leave (w.renumbered π)).1 = (r.leave w).1 ∧
      Mirrors π w.key (r.leave w).2 (r'.leave (w.renumbered π)).2 := by
  simp only [Registry.leave, Waiter.renumbered, h.operation?]
  cases r.operation? w.key w.generation with
  | none => exact ⟨rfl, h⟩
  | some o =>
    have hsame : ((o.renumbered π).unlisten w.listener).listeners = (o.unlisten w.listener).listeners := rfl
    simp only [Option.map_some, hsame]
    split
    · exact ⟨rfl, remove⟩
    · exact ⟨rfl, put (o.unlisten w.listener)⟩

end Mirrors

/-! ### The operations of other keys -/

section Other
variable {e : Exchange κ} {w : Waiter κ}

theorem get?_register_of_ne {k : κ} (hk : k ≠ key) (r : Registry κ) :
    (r.register k).2.2.pending.get? key = r.pending.get? key := by
  cases ho : r.pending.get? k with
  | some o =>
    rw [register_joined ho]
    exact (get?_put ..).trans (if_neg hk)
  | none =>
    rw [register_started ho]
    exact (get?_put ..).trans (if_neg hk)

theorem get?_settle_of_ne (hk : e.key ≠ key) (r : Registry κ) :
    (r.settle e).2.pending.get? key = r.pending.get? key := by
  unfold settle
  split
  · exact (get?_remove ..).trans (if_neg hk)
  · rfl

theorem get?_attach_of_ne (hk : e.key ≠ key) {task : Nat} (h : r.attach e task = some r') :
    r'.pending.get? key = r.pending.get? key := by
  obtain ⟨o, -, rfl⟩ := Option.map_eq_some_iff.1 h
  exact (get?_put ..).trans (if_neg hk)

theorem get?_takeSignal_of_ne (hk : e.key ≠ key) (r : Registry κ) :
    (r.takeSignal e).2.pending.get? key = r.pending.get? key := by
  unfold takeSignal
  split
  · exact (get?_put ..).trans (if_neg hk)
  · rfl

theorem get?_expedite_of_ne (hk : w.key ≠ key) (r : Registry κ) :
    (r.expedite w).pending.get? key = r.pending.get? key := by
  unfold expedite
  split
  · exact (get?_put ..).trans (if_neg hk)
  · rfl

theorem get?_leave_of_ne (hk : w.key ≠ key) (r : Registry κ) :
    (r.leave w).2.pending.get? key = r.pending.get? key := by
  rcases leave_cases r w with ⟨-, hr⟩ | ⟨o, -, ⟨-, hr⟩ | ⟨-, hr⟩⟩ <;> rw [hr]
  · exact (get?_remove ..).trans (if_neg hk)
  · exact (get?_put ..).trans (if_neg hk)

end Other
end Registry

/-! ### Everything that is held of a key -/

namespace Coalescer
variable {c c' d : Coalescer κ ρ}

/-- The second holds what the first holds of the key, up to the numbers, and nothing of other keys. -/
structure Mirrors (π : Equiv.Perm Nat) (key : κ) (c c' : Coalescer κ ρ) : Prop where
  registry : c.registry.Mirrors π key c'.registry
  exchanges : c'.exchanges = (c.exchanges.filter (·.key = key)).map (·.renumbered π)
  waiters : c'.waiters = (c.waiters.filter (·.key = key)).map (·.renumbered π)
  received : c'.received = (c.received.filter (·.1.key = key)).map fun entry => (entry.1.renumbered π, entry.2)

namespace Mirrors

theorem empty (π : Equiv.Perm Nat) (key : κ) : Mirrors π key ({} : Coalescer κ ρ) {} :=
  ⟨rfl, rfl, rfl, rfl⟩

theorem isInFlight (h : Mirrors π key c c') : c'.registry.isInFlight key = c.registry.isInFlight key := by
  rw [Registry.isInFlight, Registry.isInFlight, h.registry, Option.isSome_map]

theorem waiterCount (h : Mirrors π key c c') : c'.registry.waiterCount key = c.registry.waiterCount key := by
  rw [Registry.waiterCount, Registry.waiterCount, h.registry]
  cases c.registry.pending.get? key <;> rfl

variable {e : Exchange κ} {w : Waiter κ}

theorem mem_exchanges (h : Mirrors π e.key c c') : e.renumbered π ∈ c'.exchanges ↔ e ∈ c.exchanges := by
  rw [h.exchanges, List.mem_map_of_injective (Exchange.renumbered_injective π), List.mem_filter]
  simp

theorem mem_waiters (h : Mirrors π w.key c c') : w.renumbered π ∈ c'.waiters ↔ w ∈ c.waiters := by
  rw [h.waiters, List.mem_map_of_injective (Waiter.renumbered_injective π), List.mem_filter]
  simp

theorem get?_received (h : Mirrors π w.key c c') : c'.received.get? (w.renumbered π) = c.received.get? w := by
  have hinj := Waiter.renumbered_injective (κ := κ) π
  have hget : ∀ t : Table (Waiter κ) (Delivery ρ), Table.get? ((t.filter (·.1.key = w.key)).map
      fun entry => (entry.1.renumbered π, entry.2)) (w.renumbered π) = t.get? w := fun t => by
    induction t with
    | nil => rfl
    | cons entry rest ih =>
      by_cases hw : entry.1 = w
      · simp [hw, Table.get?]
      · by_cases hk : entry.1.key = w.key <;> simp [hk, Table.get?, hinj.eq_iff, hw, ih]
  rw [h.received, hget]

theorem exchanges_erase (h : Mirrors π e.key c c') :
    c'.exchanges.erase (e.renumbered π) = ((c.exchanges.erase e).filter (·.key = e.key)).map (·.renumbered π) := by
  rw [h.exchanges, ← List.map_erase (Exchange.renumbered_injective π), List.erase_filter]

theorem waiters_erase (h : Mirrors π w.key c c') :
    c'.waiters.erase (w.renumbered π) = ((c.waiters.erase w).filter (·.key = w.key)).map (·.renumbered π) := by
  rw [h.waiters, ← List.map_erase (Waiter.renumbered_injective π), List.erase_filter]

theorem received_erase (h : Mirrors π w.key c c') :
    c'.received.erase (w.renumbered π) =
      ((c.received.erase w).filter (·.1.key = w.key)).map fun entry => (entry.1.renumbered π, entry.2) := by
  rw [h.received, Table.erase, Table.erase, List.filter_map, List.filter_filter, List.filter_filter]
  congr 1
  refine List.filter_congr fun entry _ => ?_
  simp [(Waiter.renumbered_injective π).eq_iff, Bool.and_comm]

/-! #### Steps on the key -/

theorem settle (h : Mirrors π e.key c c') (delivery : Delivery ρ) :
    (c'.settle (e.renumbered π) delivery).1 = (c.settle e delivery).1 ∧
      Mirrors π e.key (c.settle e delivery).2 (c'.settle (e.renumbered π) delivery).2 := by
  unfold Coalescer.settle
  by_cases he : e ∈ c.exchanges
  swap
  · rw [if_neg he, if_neg (mt h.mem_exchanges.1 he)]
    exact ⟨rfl, h⟩
  rw [if_pos he, if_pos (h.mem_exchanges.2 he)]
  obtain ⟨hlist, hregistry⟩ := h.registry.settle
  have hkeys : ∀ w ∈ (c.registry.settle e).1, w.key = e.key := fun w hw => by
    rw [Registry.settle_fst] at hw
    exact congrArg Exchange.key (Registry.exchange_of_mem_audience hw)
  have hall : ((c.registry.settle e).1.map (·, delivery)).filter (·.1.key = e.key) =
      (c.registry.settle e).1.map (·, delivery) := List.filter_eq_self.2 fun entry hentry => by
    obtain ⟨w, hw, rfl⟩ := List.mem_map.1 hentry
    simpa using hkeys w hw
  refine ⟨by simp only [hlist, List.length_map], hregistry, h.exchanges_erase, h.waiters, ?_⟩
  simp only [hlist, h.received, List.filter_append, List.map_append, hall, List.map_map]
  rfl

theorem attach (h : Mirrors π e.key c c') (task : Nat) :
    Mirrors π e.key (c.attach e task) (c'.attach (e.renumbered π) task) ∧
      ∃ aborted, (c.attach e task).aborted = c.aborted ++ aborted ∧
        (c'.attach (e.renumbered π) task).aborted = c'.aborted ++ aborted := by
  unfold Coalescer.attach
  by_cases he : e ∈ c.exchanges
  swap
  · rw [if_neg he, if_neg (mt h.mem_exchanges.1 he)]
    exact ⟨h, [], (List.append_nil _).symm, (List.append_nil _).symm⟩
  rw [if_pos he, if_pos (h.mem_exchanges.2 he)]
  rcases h.registry.attach task with ⟨hr, hr'⟩ | ⟨r, r', hr, hr', hregistry⟩ <;> rw [hr, hr']
  · exact ⟨⟨h.registry, h.exchanges, h.waiters, h.received⟩, [task], rfl, rfl⟩
  · exact ⟨⟨hregistry, h.exchanges, h.waiters, h.received⟩, [], (List.append_nil _).symm, (List.append_nil _).symm⟩

theorem takeSignal (h : Mirrors π e.key c c') :
    (c'.takeSignal (e.renumbered π)).1 = (c.takeSignal e).1 ∧
      Mirrors π e.key (c.takeSignal e).2 (c'.takeSignal (e.renumbered π)).2 := by
  unfold Coalescer.takeSignal
  by_cases he : e ∈ c.exchanges
  swap
  · rw [if_neg he, if_neg (mt h.mem_exchanges.1 he)]
    exact ⟨rfl, h⟩
  rw [if_pos he, if_pos (h.mem_exchanges.2 he)]
  obtain ⟨hsignal, hregistry⟩ := h.registry.takeSignal
  exact ⟨hsignal, hregistry, h.exchanges, h.waiters, h.received⟩

theorem expedite (h : Mirrors π w.key c c') : Mirrors π w.key (c.expedite w) (c'.expedite (w.renumbered π)) := by
  unfold Coalescer.expedite
  by_cases hw : w ∈ c.waiters
  swap
  · rw [if_neg hw, if_neg (mt h.mem_waiters.1 hw)]
    exact h
  rw [if_pos hw, if_pos (h.mem_waiters.2 hw)]
  exact ⟨h.registry.expedite, h.exchanges, h.waiters, h.received⟩

theorem leave (h : Mirrors π w.key c c') :
    Mirrors π w.key (c.leave w) (c'.leave (w.renumbered π)) ∧
      ∃ aborted, (c.leave w).aborted = c.aborted ++ aborted ∧
        (c'.leave (w.renumbered π)).aborted = c'.aborted ++ aborted := by
  unfold Coalescer.leave
  by_cases hw : w ∈ c.waiters
  swap
  · rw [if_neg hw, if_neg (mt h.mem_waiters.1 hw)]
    exact ⟨h, [], (List.append_nil _).symm, (List.append_nil _).symm⟩
  rw [if_pos hw, if_pos (h.mem_waiters.2 hw)]
  obtain ⟨horphan, hregistry⟩ := h.registry.leave
  refine ⟨⟨hregistry, h.exchanges, h.waiters_erase, h.received_erase⟩, (c.registry.leave w).1.toList, rfl, ?_⟩
  simp only [horphan]

theorem take (h : Mirrors π w.key c c') :
    (c'.take (w.renumbered π)).1 = (c.take w).1 ∧ Mirrors π w.key (c.take w).2 (c'.take (w.renumbered π)).2 := by
  unfold Coalescer.take
  by_cases hw : w ∈ c.waiters
  swap
  · rw [if_neg hw, if_neg (mt h.mem_waiters.1 hw)]
    exact ⟨rfl, h⟩
  rw [if_pos hw, if_pos (h.mem_waiters.2 hw), h.get?_received]
  cases c.received.get? w with
  | none => exact ⟨rfl, h⟩
  | some delivery => exact ⟨rfl, h.registry, h.exchanges, h.waiters_erase, h.received_erase⟩

theorem own {s : Step κ ρ} (h : Mirrors π s.key c c') (hs : ∀ key, s ≠ .register key) :
    Mirrors π s.key (c.step s) (c'.step (s.renumbered π)) ∧ c'.answer (s.renumbered π) = c.answer s ∧
      ∃ aborted, (c.step s).aborted = c.aborted ++ aborted ∧
        (c'.step (s.renumbered π)).aborted = c'.aborted ++ aborted := by
  -- all but two steps abort nothing
  have hquiet : (∀ e t, s ≠ .attach e t) → (∀ w, s ≠ .leave w) →
      ∃ aborted, (c.step s).aborted = c.aborted ++ aborted ∧
        (c'.step (s.renumbered π)).aborted = c'.aborted ++ aborted := fun ha hl => by
    refine ⟨[], ?_, ?_⟩ <;> rw [List.append_nil]
    · exact c.aborted_step ha hl
    · exact c'.aborted_step (fun e t => by cases s <;> simp [Step.renumbered] at ha ⊢)
        (fun w => by cases s <;> simp [Step.renumbered] at hl ⊢)
  cases s with
  | register key => exact absurd rfl (hs key)
  | complete e result =>
    obtain ⟨hcount, hnext⟩ := h.settle (.value result)
    exact ⟨hnext, congrArg Answer.delivered hcount, hquiet (by simp) (by simp)⟩
  | drop e => exact ⟨(h.settle .abandoned).2, rfl, hquiet (by simp) (by simp)⟩
  | attach e task => exact ⟨(h.attach task).1, rfl, (h.attach task).2⟩
  | signal e =>
    obtain ⟨hsignal, hnext⟩ := h.takeSignal
    exact ⟨hnext, congrArg Answer.signal hsignal, hquiet (by simp) (by simp)⟩
  | expedite w => exact ⟨h.expedite, rfl, hquiet (by simp) (by simp)⟩
  | leave w => exact ⟨h.leave.1, rfl, h.leave.2⟩
  | take w =>
    obtain ⟨hdelivery, hnext⟩ := h.take
    exact ⟨hnext, congrArg Answer.received hdelivery, hquiet (by simp) (by simp)⟩

/-! #### New numbers -/

/-- Only numbers that both sides have given count. -/
theorem renumber (h : Mirrors π key c c') (hc : c.Coherent) (hc' : c'.Coherent)
    (hπ : ∀ g, g < c.registry.nextGeneration → π g < c'.registry.nextGeneration → π' g = π g) :
    Mirrors π' key c c' where
  registry := by
    refine h.registry.trans ?_
    cases ho : c.registry.pending.get? key with
    | none => rfl
    | some o =>
      have ho' : c'.registry.pending.get? key = some (o.renumbered π) := by rw [h.registry, ho]; rfl
      have hsame := hπ _ (hc.registry.generation_lt key o ho) (hc'.registry.generation_lt key _ ho')
      simp only [Option.map_some, Operation.renumbered, hsame]
  exchanges := by
    refine h.exchanges.trans (List.map_congr_left fun e he => (Exchange.renumbered_congr (hπ _ ?_ ?_)).symm)
    · exact hc.generation_lt e (List.mem_filter.1 he).1
    · exact hc'.generation_lt (e.renumbered π) (h.exchanges ▸ List.mem_map_of_mem he)
  waiters := by
    refine h.waiters.trans (List.map_congr_left fun w hw => (Waiter.renumbered_congr (hπ _ ?_ ?_)).symm)
    · exact (hc.known w (List.mem_filter.1 hw).1).1
    · exact (hc'.known (w.renumbered π) (h.waiters ▸ List.mem_map_of_mem hw)).1
  received := by
    refine h.received.trans (List.map_congr_left fun entry hentry => ?_)
    obtain ⟨hmem, hkey⟩ := List.mem_filter.1 hentry
    have hin : entry.1 ∈ c.waiters := hc.received_mem entry.1 (Table.mem_keys.1 (List.mem_map_of_mem hmem))
    have hin' : entry.1.renumbered π ∈ c'.waiters :=
      h.waiters ▸ List.mem_map_of_mem (List.mem_filter.2 ⟨hin, hkey⟩)
    rw [Waiter.renumbered_congr (hπ _ (hc.known _ hin).1 (hc'.known _ hin').1)]

/-- A registration on the key does the same on both sides; a new operation may need a new number. -/
theorem register (h : Mirrors π key c c') (hc : c.Coherent) (hc' : c'.Coherent) :
    ∃ π' : Equiv.Perm Nat,
      (∀ g, g < c.registry.nextGeneration → π g < c'.registry.nextGeneration → π' g = π g) ∧
      (c'.register key).1 = (c.register key).1.renumbered π' ∧
      Mirrors π' key (c.register key).2 (c'.register key).2 := by
  -- the two next numbers are paired whether or not they are given out now; no number in use is one of them
  obtain ⟨π', hnew, hold⟩ := exists_renumbering π c.registry.nextGeneration c'.registry.nextGeneration
  have hgiven : ∀ g, g < c.registry.nextGeneration → π g < c'.registry.nextGeneration → π' g = π g :=
    fun g hg hg' => hold g (Nat.ne_of_lt hg) (Nat.ne_of_lt hg')
  have h' := h.renumber hc hc' hgiven
  obtain ⟨hexchange, hwaiter, hregistry⟩ := h'.registry.register fun _ => hnew
  have hkey : (c.registry.register key).2.1.key = key := Registry.register_key key
  have hall : (c.registry.register key).1.toList.filter (·.key = key) = (c.registry.register key).1.toList :=
    List.filter_eq_self.2 fun e he => by
      rw [Option.mem_toList, Registry.register_fst] at he
      split at he
      · cases he
      · cases he
        exact decide_eq_true hkey
  refine ⟨π', hgiven, ?_, hregistry, ?_, ?_, h'.received⟩
  · simp only [Coalescer.register, hexchange, hwaiter]
    rfl
  · simp only [Coalescer.register, hexchange, h'.exchanges, List.filter_append, List.map_append, hall,
      Option.toList_map]
  · simp [Coalescer.register, hwaiter, h'.waiters, hkey]

/-! #### Steps on other keys -/

theorem of_frame (h : Mirrors π key c c') (hregistry : d.registry.pending.get? key = c.registry.pending.get? key)
    (hexchanges : d.exchanges.filter (·.key = key) = c.exchanges.filter (·.key = key))
    (hwaiters : d.waiters.filter (·.key = key) = c.waiters.filter (·.key = key))
    (hreceived : d.received.filter (·.1.key = key) = c.received.filter (·.1.key = key)) : Mirrors π key d c' where
  registry := by rw [Registry.Mirrors, hregistry]; exact h.registry
  exchanges := by rw [hexchanges]; exact h.exchanges
  waiters := by rw [hwaiters]; exact h.waiters
  received := by rw [hreceived]; exact h.received

end Mirrors

section Frame
variable {e : Exchange κ} {w : Waiter κ}

theorem filter_exchanges_erase (he : e.key ≠ key) (l : List (Exchange κ)) :
    (l.erase e).filter (·.key = key) = l.filter (·.key = key) := by
  rw [← List.erase_filter]
  exact List.erase_of_not_mem fun hmem => he (by simpa using (List.mem_filter.1 hmem).2)

theorem filter_waiters_erase (hw : w.key ≠ key) (l : List (Waiter κ)) :
    (l.erase w).filter (·.key = key) = l.filter (·.key = key) := by
  rw [← List.erase_filter]
  exact List.erase_of_not_mem fun hmem => hw (by simpa using (List.mem_filter.1 hmem).2)

theorem filter_received_erase (hw : w.key ≠ key) (t : Table (Waiter κ) (Delivery ρ)) :
    (t.erase w).filter (·.1.key = key) = t.filter (·.1.key = key) := by
  rw [Table.erase, List.filter_filter]
  refine List.filter_congr fun entry _ => ?_
  by_cases hkey : entry.1.key = key
  · have hne : entry.1 ≠ w := fun heq => hw (heq ▸ hkey)
    simp [hkey, hne]
  · simp [hkey]

end Frame

namespace Mirrors

theorem settle_other {e : Exchange κ} (h : Mirrors π key c c') (he : e.key ≠ key) (delivery : Delivery ρ) :
    Mirrors π key (c.settle e delivery).2 c' := by
  unfold Coalescer.settle
  split
  swap
  · exact h
  refine h.of_frame (Registry.get?_settle_of_ne he _) (filter_exchanges_erase he _) rfl ?_
  have hnone : ((c.registry.settle e).1.map (·, delivery)).filter (·.1.key = key) = [] :=
    List.filter_eq_nil_iff.2 fun entry hentry => by
      obtain ⟨w, hw, rfl⟩ := List.mem_map.1 hentry
      rw [Registry.settle_fst] at hw
      have hkey : w.key = e.key := congrArg Exchange.key (Registry.exchange_of_mem_audience hw)
      simpa [hkey] using he
  simp only [List.filter_append, hnone, List.append_nil]

/-- A step on another key does not show. -/
theorem other (h : Mirrors π key c c') {s : Step κ ρ} (hs : s.key ≠ key) : Mirrors π key (c.step s) c' := by
  cases s with
  | register k =>
    have hk : k ≠ key := hs
    have hkey : (c.registry.register k).2.1.key = k := Registry.register_key k
    refine h.of_frame (Registry.get?_register_of_ne hk _) ?_ ?_ rfl
    · have hnone : (c.registry.register k).1.toList.filter (·.key = key) = [] :=
        List.filter_eq_nil_iff.2 fun e he => by
          rw [Option.mem_toList, Registry.register_fst] at he
          split at he
          · cases he
          · cases he
            simpa [Waiter.exchange, hkey] using hk
      simp only [Coalescer.step, Coalescer.register, List.filter_append, hnone, List.append_nil]
    · simp [Coalescer.step, Coalescer.register, hkey, hk]
  | complete e result => exact h.settle_other hs _
  | drop e => exact h.settle_other hs _
  | attach e task =>
    simp only [Coalescer.step, Coalescer.attach]
    split
    · split
      · next r hr => exact h.of_frame (Registry.get?_attach_of_ne hs hr) rfl rfl rfl
      · exact h.of_frame rfl rfl rfl rfl
    · exact h
  | signal e =>
    simp only [Coalescer.step, Coalescer.takeSignal]
    split
    · exact h.of_frame (Registry.get?_takeSignal_of_ne hs _) rfl rfl rfl
    · exact h
  | expedite w =>
    simp only [Coalescer.step, Coalescer.expedite]
    split
    · exact h.of_frame (Registry.get?_expedite_of_ne hs _) rfl rfl rfl
    · exact h
  | leave w =>
    simp only [Coalescer.step, Coalescer.leave]
    split
    · exact h.of_frame (Registry.get?_leave_of_ne hs _) rfl (filter_waiters_erase hs _) (filter_received_erase hs _)
    · exact h
  | take w =>
    simp only [Coalescer.step, Coalescer.take]
    split
    · split
      · exact h.of_frame rfl rfl (filter_waiters_erase hs _) (filter_received_erase hs _)
      · exact h
    · exact h

end Mirrors
end Coalescer
end Entitle.Flight
