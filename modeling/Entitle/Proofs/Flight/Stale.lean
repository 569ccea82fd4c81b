import Entitle.Proofs.Flight.Cancellation

/-!
# Handles whose operation has ended

An operation ends when its exchange is completed or dropped, or when the last of those who listen leaves. From then on
nobody listens to it again, whatever comes (`Stale.run`). What is done with the handles that are left over reaches no
other operation, not even the next one on the same key (`stale_inert`).
-/

namespace Entitle.Flight.Coalescer

variable {κ ρ : Type} [DecidableEq κ] {c : Coalescer κ ρ} {s : Step κ ρ} {e : Exchange κ} {w : Waiter κ}

/-- A step ends the operation of an exchange: it settles the exchange, or the only one who still listens leaves. -/
def Ends (c : Coalescer κ ρ) (e : Exchange κ) (s : Step κ ρ) : Prop :=
  (c.IsCurrent e ∧ s.settles? e ≠ none) ∨ ∃ w, s = .leave w ∧ c.listening e = [w]

/-- The operation of an exchange has ended in a run. -/
def Ended (steps : List (Step κ ρ)) (e : Exchange κ) : Prop :=
  ∃ before s after, steps = before ++ s :: after ∧ (run {} before : Coalescer κ ρ).Ends e s

theorem Ended.append {steps : List (Step κ ρ)} (h : Ended steps e) (more : List (Step κ ρ)) :
    Ended (steps ++ more) e := by
  obtain ⟨before, s, after, rfl, hends⟩ := h
  exact ⟨before, s, after ++ more, by simp, hends⟩

/-- The operation of an exchange was started at some time, and nobody listens to it. -/
structure Stale (c : Coalescer κ ρ) (e : Exchange κ) : Prop where
  started : e.generation < c.registry.nextGeneration
  silent : c.registry.audience e = []

namespace Stale

/-- Generations are not given twice, so no step brings an operation back. -/
theorem step (h : c.Stale e) (hc : c.Coherent) (s : Step κ ρ) : (c.step s).Stale e where
  started := Nat.lt_of_lt_of_le h.started (c.nextGeneration_step_le s)
  silent := by
    by_contra hne
    exact Nat.ne_of_lt h.started (hc.started_of_audience_step h.silent hne).2

theorem run (h : c.Stale e) (hc : c.Coherent) (steps : List (Step κ ρ)) : (c.run steps).Stale e := by
  induction steps generalizing c with
  | nil => exact h
  | cons s rest ih => exact ih (h.step hc s) (hc.step s)

theorem operation?_eq_none (h : c.Stale e) (hc : c.Coherent) : c.registry.operation? e.key e.generation = none :=
  hc.registry.operation?_eq_none_of_audience h.silent

/-! ### What its handles do -/

theorem complete (h : c.Stale e) (hc : c.Coherent) (he : e ∈ c.exchanges) (result : ρ) :
    c.complete e result = (0, { c with exchanges := c.exchanges.erase e }) := by
  refine Prod.ext ?_ (hc.settle_of_silent h.silent _)
  show (c.settle e _).1 = 0
  rw [settle_of_mem he, h.silent]
  rfl

theorem attach (h : c.Stale e) (hc : c.Coherent) (he : e ∈ c.exchanges) (task : Nat) :
    c.attach e task = { c with aborted := c.aborted ++ [task] } := by
  rw [Coalescer.attach, if_pos he, Registry.attach_eq_none.2 (h.operation?_eq_none hc)]

theorem takeSignal (h : c.Stale e) (hc : c.Coherent) : c.takeSignal e = (none, c) := by
  refine Prod.ext ?_ (hc.takeSignal_of_silent h.silent)
  have hnone : (c.registry.takeSignal e).1 = none := by rw [Registry.takeSignal, h.operation?_eq_none hc]
  unfold Coalescer.takeSignal
  split
  · exact hnone
  · rfl

theorem expedite (h : c.Stale w.exchange) (hc : c.Coherent) : c.expedite w = c := by
  have hsame : c.registry.expedite w = c.registry := by
    unfold Registry.expedite
    rw [show c.registry.operation? w.key w.generation = none from h.operation?_eq_none hc]
  unfold Coalescer.expedite
  split
  · rw [hsame]
  · rfl

theorem leave (h : c.Stale w.exchange) (hc : c.Coherent) (hw : w ∈ c.waiters) :
    c.leave w = { c with waiters := c.waiters.erase w, received := c.received.erase w } := by
  rw [Coalescer.leave, if_pos hw, Registry.leave_ended (h.operation?_eq_none hc)]
  simp

end Stale

/-! ### Ends of operations -/

namespace Coherent

theorem isCurrent_iff (hc : c.Coherent) (hsingle : c.registry.Single) : c.IsCurrent e ↔ c.registry.audience e ≠ [] := by
  constructor
  · rintro ⟨o, ho, hgeneration⟩ hnil
    have hoperation : c.registry.operation? e.key e.generation = some o :=
      Registry.operation?_eq_some.2 ⟨(Table.mem_iff_get? hsingle).1 ho, hgeneration⟩
    cases hoperation.symm.trans (hc.registry.operation?_eq_none_of_audience hnil)
  · intro hne
    obtain ⟨o, ho⟩ := Option.ne_none_iff_exists'.1 (mt Registry.audience_of_none hne)
    obtain ⟨hget, hgeneration⟩ := Registry.operation?_eq_some.1 ho
    exact ⟨o, Table.mem_of_get? hget, hgeneration⟩

theorem stale_of_ends (hc : c.Coherent) (hsingle : c.registry.Single) (h : c.Ends e s) : (c.step s).Stale e := by
  have hlater := c.nextGeneration_step_le s
  rcases h with ⟨hcurrent, hs⟩ | ⟨w, rfl, halone⟩
  · obtain ⟨d, hd⟩ := Option.ne_none_iff_exists'.1 hs
    have hin : e ∈ c.exchanges := hc.owed e ((hc.isCurrent_iff hsingle).1 hcurrent)
    refine ⟨Nat.lt_of_lt_of_le (hc.generation_lt e hin) hlater, ?_⟩
    rw [step_of_settles? hd, hc.audience_settle, if_pos rfl]
  · have hone : c.registry.audience e = [w] := hc.listening_eq_singleton_iff.1 halone
    have hw : w ∈ c.registry.audience e := hone ▸ List.mem_singleton_self w
    obtain rfl := Registry.exchange_of_mem_audience hw
    refine ⟨Nat.lt_of_lt_of_le (hc.known w ((hc.listening w).1 hw).1).1 hlater, ?_⟩
    show (c.leave w).registry.audience w.exchange = []
    rw [hc.audience_leave, hone]
    simp

/-- A step after which nobody listens any more ends the operation. -/
theorem ends_of_silenced (hc : c.Coherent) (hsingle : c.registry.Single) (hne : c.registry.audience e ≠ [])
    (hnil : (c.step s).registry.audience e = []) : c.Ends e s := by
  have hcurrent : c.IsCurrent e := (hc.isCurrent_iff hsingle).2 hne
  rw [hc.audience_step] at hnil
  cases s with
  | register key =>
    simp only [audienceAfter] at hnil
    split at hnil
    · exact absurd (List.append_eq_nil_iff.1 hnil).1 hne
    · exact absurd hnil hne
  | complete e' result | drop e' =>
    simp only [audienceAfter] at hnil
    split at hnil
    · next he => exact .inl ⟨hcurrent, by simp [Step.settles?, he]⟩
    · exact absurd hnil hne
  | leave w => exact .inr ⟨w, rfl, hc.listening_eq_singleton_iff.2 (hc.audience_eq_singleton hne hnil)⟩
  | _ => exact absurd hnil hne

end Coherent

theorem Ended.stale {steps : List (Step κ ρ)} (h : Ended steps e) : (run {} steps : Coalescer κ ρ).Stale e := by
  obtain ⟨before, s, after, rfl, hends⟩ := h
  have hc : (run {} before : Coalescer κ ρ).Coherent := Coherent.empty.run before
  rw [run_append]
  exact (hc.stale_of_ends (single_run before) hends).run (hc.step s) after

theorem issued_register (c : Coalescer κ ρ) (key : κ) :
    c.issued [.register key] = (c.register key).1.exchange.toList := by
  cases he : (c.register key).1.exchange <;> simp [issued, registrations, he]

theorem ended_of_issued {steps : List (Step κ ρ)} (he : e ∈ issued {} steps)
    (hnil : (run {} steps : Coalescer κ ρ).registry.audience e = []) : Ended steps e := by
  induction steps using List.reverseRecOn with
  | nil => simp [issued, registrations] at he
  | append_singleton steps s ih =>
    have hc : (run {} steps : Coalescer κ ρ).Coherent := Coherent.empty.run steps
    rw [run_append] at hnil
    by_cases hbefore : (run {} steps : Coalescer κ ρ).registry.audience e = []
    · rw [issued_append, List.mem_append] at he
      refine (ih (he.resolve_right fun hnew => ?_) hbefore).append [s]
      -- a registration that issues an exchange has its own waiter listen to it
      cases s with
      | register key =>
        have hexchange : ((run {} steps : Coalescer κ ρ).register key).1.exchange = some e := by
          rwa [issued_register, Option.mem_toList] at hnew
        have hlistens := waiting_register (run {} steps : Coalescer κ ρ) key
        rw [Waiting, ← register_exchange hexchange] at hlistens
        exact List.ne_nil_of_mem hlistens hnil
      | _ => simp [issued, registrations] at hnew
    · exact ⟨steps, s, [], rfl, hc.ends_of_silenced (single_run steps) hbefore hnil⟩

/-- Handles of operations that have ended are inert. After any run, an operation that was started has ended if and only
if it is not pending. Completing, dropping or attaching a task to an exchange in use whose operation has ended, asking
for its signal, and expediting or leaving with a waiter of such an operation, whether or not a newer one is pending on
the key, leave the registry as it is: completing serves nobody, attaching aborts the task, there is no signal, and only
the handle itself is used up. -/
theorem stale_inert (steps : List (Step κ ρ)) :
    let c := run {} steps
    (∀ e ∈ issued {} steps, Ended steps e ↔ ¬ c.IsCurrent e) ∧
    (∀ e ∈ c.exchanges, Ended steps e →
      (∀ result, c.complete e result = (0, { c with exchanges := c.exchanges.erase e })) ∧
      c.drop e = { c with exchanges := c.exchanges.erase e } ∧
      (∀ task, c.attach e task = { c with aborted := c.aborted ++ [task] }) ∧
      c.takeSignal e = (none, c)) ∧
    ∀ w ∈ c.waiters, Ended steps w.exchange →
      c.expedite w = c ∧ c.leave w = { c with waiters := c.waiters.erase w, received := c.received.erase w } := by
  intro c
  have hc : c.Coherent := Coherent.empty.run steps
  refine ⟨fun e he => ?_, fun e he hended => ?_, fun w hw hended => ?_⟩
  · rw [hc.isCurrent_iff (single_run steps), not_not]
    exact ⟨fun hended => hended.stale.silent, ended_of_issued he⟩
  · have hstale : c.Stale e := hended.stale
    exact ⟨hstale.complete hc he, hc.settle_of_silent hstale.silent _, hstale.attach hc he, hstale.takeSignal hc⟩
  · have hstale : c.Stale w.exchange := hended.stale
    exact ⟨hstale.expedite hc, hstale.leave hc hw⟩

/-- An exchange that lost its last waiter and a waiter that has not looked at its result, each with a newer operation
pending on its key. -/
theorem stale_inert_behind_newer :
    let steps : List (Step Nat Nat) :=
      [.register 0, .leave ⟨0, 0, 0⟩, .register 0, .register 1, .complete ⟨1, 2⟩ 3, .register 1]
    let c : Coalescer Nat Nat := run {} steps
    (⟨0, 0⟩ ∈ c.exchanges ∧ Ended steps ⟨0, 0⟩ ∧ c.IsCurrent ⟨0, 1⟩ ∧
      c.complete ⟨0, 0⟩ 7 = (0, { c with exchanges := [⟨0, 1⟩, ⟨1, 3⟩] }) ∧
      c.attach ⟨0, 0⟩ 5 = { c with aborted := [5] }) ∧
    ⟨1, 2, 0⟩ ∈ c.waiters ∧ Ended steps ⟨1, 2⟩ ∧ c.IsCurrent ⟨1, 3⟩ ∧
      c.leave ⟨1, 2, 0⟩ = { c with waiters := [⟨0, 1, 0⟩, ⟨1, 3, 0⟩], received := [] } := by
  intro steps c
  have hcancelled : Ended steps ⟨0, 0⟩ := ⟨[.register 0], .leave ⟨0, 0, 0⟩, _, rfl, .inr ⟨_, rfl, by decide⟩⟩
  have hcompleted : Ended steps ⟨1, 2⟩ :=
    ⟨[.register 0, .leave ⟨0, 0, 0⟩, .register 0, .register 1], .complete ⟨1, 2⟩ 3, _, rfl,
      .inl ⟨⟨⟨2, 1, [0], none, false⟩, by decide, rfl⟩, by decide⟩⟩
  obtain ⟨-, hexchange, hwaiter⟩ := stale_inert steps
  obtain ⟨hcomplete, -, hattach, -⟩ := hexchange ⟨0, 0⟩ (by decide) hcancelled
  exact ⟨⟨by decide, hcancelled, ⟨⟨1, 1, [0], none, false⟩, by decide, rfl⟩, hcomplete 7, hattach 5⟩, by decide,
    hcompleted, ⟨⟨3, 1, [0], none, false⟩, by decide, rfl⟩, (hwaiter ⟨1, 2, 0⟩ (by decide) hcompleted).2⟩

end Entitle.Flight.Coalescer
