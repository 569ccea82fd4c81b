import Entitle.Proofs.Flight.Coalescer
import Mathlib.Data.List.Perm.Lattice

/-!
# Every operation and its handles

The registry keeps an operation as long as someone listens to it and owes it an answer, and no longer: after any run
its listeners are the waiters in use without a result, and one exchange in use settles it (`attended_run`). So nobody
waits for an answer that nobody owes, and nothing is pending once no exchange is in use.
-/

namespace Entitle

namespace Table
variable {κ α : Type} [DecidableEq κ] {t : Table κ α} {key : κ}

theorem nodup_keys_put (h : (keys t).Nodup) (key : κ) (value : α) : (keys (put t key value)).Nodup := by
  by_cases hkey : key ∈ keys t
  · have hsame : keys (put t key value) = keys t := by
      clear h
      induction t with
      | nil => cases hkey
      | cons entry rest ih => grind [keys, put]
    rw [hsame]
    exact h
  · rw [keys_put hkey, List.nodup_append]
    refine ⟨h, List.nodup_singleton key, fun k hk l hl => ?_⟩
    rw [List.mem_singleton.1 hl]
    exact ne_of_mem_of_not_mem hk hkey

theorem nodup_keys_erase (h : (keys t).Nodup) (key : κ) : (keys (erase t key)).Nodup := by
  rw [keys_erase]
  exact h.filter _

theorem mem_iff_get? (h : (keys t).Nodup) {value : α} : (key, value) ∈ t ↔ get? t key = some value :=
  ⟨get?_of_mem h, mem_of_get?⟩

end Table

namespace Flight

namespace Registry
variable {κ : Type} [DecidableEq κ] {r : Registry κ}

/-- One key has one operation. -/
def Single (r : Registry κ) : Prop :=
  (Table.keys r.pending).Nodup

namespace Single

theorem put (h : r.Single) (key : κ) (o : Operation) : (r.put key o).Single :=
  Table.nodup_keys_put h key o

theorem remove (h : r.Single) (key : κ) : (r.remove key).Single :=
  Table.nodup_keys_erase h key

theorem register (h : r.Single) (key : κ) : (r.register key).2.2.Single := by
  cases ho : r.pending.get? key with
  | some o =>
    rw [register_joined ho]
    exact h.put key _
  | none =>
    rw [register_started ho]
    exact h.put key _

theorem settle (h : r.Single) (e : Exchange κ) : (r.settle e).2.Single := by
  unfold Registry.settle
  split
  · exact h.remove _
  · exact h

theorem attach (h : r.Single) {e : Exchange κ} {task : Nat} {r' : Registry κ} (ha : r.attach e task = some r') :
    r'.Single := by
  obtain ⟨o, -, rfl⟩ := Option.map_eq_some_iff.1 ha
  exact h.put _ _

theorem expedite (h : r.Single) (w : Waiter κ) : (r.expedite w).Single := by
  unfold Registry.expedite
  split
  · exact h.put _ _
  · exact h

theorem takeSignal (h : r.Single) (e : Exchange κ) : (r.takeSignal e).2.Single := by
  unfold Registry.takeSignal
  split
  · exact h.put _ _
  · exact h

theorem leave (h : r.Single) (w : Waiter κ) : (r.leave w).2.Single := by
  rcases leave_cases r w with ⟨-, hr⟩ | ⟨o, -, ⟨-, hr⟩ | ⟨-, hr⟩⟩ <;> rw [hr]
  · exact h
  · exact h.remove _
  · exact h.put _ _

end Single

end Registry

namespace Coalescer
variable {κ ρ : Type} [DecidableEq κ] {c : Coalescer κ ρ} {key : κ} {o : Operation}

theorem single_run (steps : List (Step κ ρ)) : (run {} steps : Coalescer κ ρ).registry.Single := by
  suffices ∀ c : Coalescer κ ρ, c.registry.Single → (c.run steps).registry.Single from this {} List.nodup_nil
  induction steps with
  | nil => exact fun _ h => h
  | cons s rest ih =>
    exact fun c h => ih _ (c.registry_step h h.register h.settle (fun _ _ _ ha => h.attach ha) h.takeSignal h.expedite
      h.leave s)

/-- The waiters in use of an exchange that have no result yet. -/
def listening (c : Coalescer κ ρ) (e : Exchange κ) : List (Waiter κ) :=
  c.waiters.filter fun w => w.exchange = e ∧ c.received.get? w = none

/-- The operation that an exchange settles is pending. -/
def IsCurrent (c : Coalescer κ ρ) (e : Exchange κ) : Prop :=
  ∃ o, (e.key, o) ∈ c.registry.pending ∧ o.generation = e.generation

/-- A pending operation and its handles. -/
structure Attended (c : Coalescer κ ρ) (key : κ) (o : Operation) : Prop where
  sound : o.Sound
  generation_lt : o.generation < c.registry.nextGeneration
  apart : ∀ key' o', (key', o') ∈ c.registry.pending → o'.generation = o.generation → key' = key ∧ o' = o
  /-- Its listeners are the waiters in use that have no result yet, each once. -/
  listeners : (o.listeners.map fun l => (⟨key, o.generation, l⟩ : Waiter κ)).Perm (c.listening ⟨key, o.generation⟩)
  counted : c.registry.waiterCount key = (c.listening ⟨key, o.generation⟩).length
  owned : c.exchanges.count ⟨key, o.generation⟩ = 1

namespace Coherent

theorem perm_listening (h : c.Coherent) (e : Exchange κ) : (c.registry.audience e).Perm (c.listening e) := by
  have hnodup : (c.registry.audience e).Nodup := by
    cases ho : c.registry.operation? e.key e.generation with
    | none => rw [Registry.audience_of_none ho]; exact .nil
    | some o =>
      have hincreasing := (h.registry.operation _ o (Registry.operation?_eq_some.1 ho).1).increasing
      rw [Registry.audience_of_some ho]
      have hdistinct : o.listeners.Nodup := hincreasing.imp fun hlt => Nat.ne_of_lt hlt
      exact hdistinct.map fun a b hab => (Waiter.mk.inj hab).2.2
  refine (List.perm_ext_iff_of_nodup hnodup (h.waiters_nodup.filter _)).2 fun w => ?_
  simp only [List.mem_filter, decide_eq_true_eq]
  constructor
  · intro hw
    have he := Registry.exchange_of_mem_audience hw
    obtain ⟨hin, hnone⟩ := (h.listening w).1 (he ▸ hw)
    exact ⟨hin, he, hnone⟩
  · rintro ⟨hin, rfl, hnone⟩
    exact (h.listening w).2 ⟨hin, hnone⟩

theorem attended (h : c.Coherent) (hsingle : c.registry.Single) (ho : (key, o) ∈ c.registry.pending) :
    c.Attended key o := by
  have hget : c.registry.pending.get? key = some o := (Table.mem_iff_get? hsingle).1 ho
  have hoperation : c.registry.operation? key o.generation = some o := Registry.operation?_eq_some.2 ⟨hget, rfl⟩
  have haudience := Registry.audience_of_some (e := ⟨key, o.generation⟩) hoperation
  have hperm := h.perm_listening ⟨key, o.generation⟩
  have hsound := h.registry.operation key o hget
  rw [haudience] at hperm
  refine ⟨hsound, h.registry.generation_lt key o hget, fun key' o' ho' hgeneration => ?_, hperm, ?_, ?_⟩
  · have hget' := (Table.mem_iff_get? hsingle).1 ho'
    obtain rfl := h.registry.apart key' key o' o hget' hget hgeneration
    exact ⟨rfl, Option.some.inj (hget'.symm.trans hget)⟩
  · simp only [Registry.waiterCount, hget]
    rw [← hperm.length_eq, List.length_map]
  · refine List.count_eq_one_of_mem h.exchanges_nodup (h.owed _ ?_)
    rw [haudience]
    simpa using hsound.listened

theorem isCurrent_of_listening (h : c.Coherent) {w : Waiter κ} (hw : w ∈ c.waiters) (hnone : c.received.get? w = none) :
    w.exchange ∈ c.exchanges ∧ c.IsCurrent w.exchange := by
  have hlistening : w ∈ c.registry.audience w.exchange := (h.listening w).2 ⟨hw, hnone⟩
  obtain ⟨o, ho, -⟩ := Registry.mem_audience.1 hlistening
  obtain ⟨hget, hgeneration⟩ := Registry.operation?_eq_some.1 ho
  exact ⟨h.owed _ (List.ne_nil_of_mem hlistening), o, Table.mem_of_get? hget, hgeneration⟩

end Coherent

/-- After any run, each pending operation has listeners, who are the waiters in use without a result, and one exchange
in use that settles it. So a registration comes with an exchange if and only if nothing is pending on its key, no key
has two exchanges whose operation is pending, whoever waits is owed an answer, and with no exchange in use nothing is
pending. -/
theorem attended_run (steps : List (Step κ ρ)) :
    let c := run {} steps
    (∀ key o, (key, o) ∈ c.registry.pending → c.Attended key o) ∧
    (∀ key, (c.register key).1.exchange.isSome ↔ ∀ o, (key, o) ∉ c.registry.pending) ∧
    (∀ e₁ ∈ c.exchanges, ∀ e₂ ∈ c.exchanges, c.IsCurrent e₁ → c.IsCurrent e₂ → e₁.key = e₂.key → e₁ = e₂) ∧
    (∀ w ∈ c.waiters, c.received.get? w = none → w.exchange ∈ c.exchanges ∧ c.IsCurrent w.exchange) ∧
    (c.exchanges = [] → c.registry.pending = [] ∧ c.registry.inFlight = 0) := by
  intro c
  have hc : c.Coherent := Coherent.empty.run steps
  have hsingle : c.registry.Single := single_run steps
  have hattended : ∀ key o, (key, o) ∈ c.registry.pending → c.Attended key o := fun _ _ ho => hc.attended hsingle ho
  refine ⟨hattended, fun key => ?_, ?_, fun w hw hnone => hc.isCurrent_of_listening hw hnone, fun hnone => ?_⟩
  · show (c.registry.register key).1.isSome ↔ _
    rw [Registry.register_fst, Registry.isInFlight]
    cases hget : c.registry.pending.get? key with
    | some o =>
      have ho : (key, o) ∈ c.registry.pending := Table.mem_of_get? hget
      simp only [Option.isSome_some, if_true, Option.isSome_none, Bool.false_eq_true, false_iff, not_forall, not_not]
      exact ⟨o, ho⟩
    | none =>
      simp only [Option.isSome_none, Bool.false_eq_true, if_false, Option.isSome_some, true_iff]
      intro o ho
      cases ((Table.mem_iff_get? hsingle).1 ho).symm.trans hget
  · rintro ⟨key₁, g₁⟩ - ⟨key₂, g₂⟩ - ⟨o₁, ho₁, hg₁⟩ ⟨o₂, ho₂, hg₂⟩ hkey
    obtain rfl : key₁ = key₂ := hkey
    have hsame : o₁ = o₂ :=
      Option.some.inj (((Table.mem_iff_get? hsingle).1 ho₁).symm.trans ((Table.mem_iff_get? hsingle).1 ho₂))
    have hgeneration : g₁ = g₂ := hg₁.symm.trans (hsame ▸ hg₂)
    rw [hgeneration]
  · have hempty : c.registry.pending = [] := by
      refine List.eq_nil_iff_forall_not_mem.2 fun entry ho => ?_
      have howned := (hattended entry.1 entry.2 ho).owned
      rw [hnone] at howned
      cases howned
    exact ⟨hempty, congrArg List.length hempty⟩

end Coalescer

end Flight

end Entitle
