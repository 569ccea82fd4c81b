import Entitle.Proofs.Flight.Renumbering

/-!
# Keys do not interfere

A script is played beside the same script with the actions on one key only. Main statement: `keys_independent`. What the
key shows is the same in both, and so is which of the tasks that no other key has are aborted. `Roster.Follows` ties the
two runs together: it is `Coalescer.Mirrors` and the same for the registrations by name, which outlive their operations.
-/

namespace Entitle.Flight

variable {κ ι ρ : Type} [DecidableEq κ] {π : Equiv.Perm Nat} {k key : κ}

/-! ### Who aborts a task -/

namespace Coalescer.Coherent
variable {c : Coalescer κ ρ} {s : Step κ ρ} {t : Nat}

theorem aborted_step_append (h : c.Coherent) (s : Step κ ρ) :
    ∃ l, (c.step s).aborted = c.aborted ++ l ∧
      ∀ t ∈ l, (∃ e, s = .attach e t) ∨ ∃ w, s = .leave w ∧ c.registry.task? w.exchange = some t := by
  by_cases ha : ∃ e t, s = .attach e t
  · obtain ⟨e, t, rfl⟩ := ha
    show ∃ l, (c.attach e t).aborted = c.aborted ++ l ∧ _
    by_cases he : e ∈ c.exchanges
    · rcases h.attach_cases he t with ⟨-, heq, -⟩ | ⟨-, heq, -⟩
      · exact ⟨[], by rw [heq, List.append_nil], by simp⟩
      · exact ⟨[t], heq, by simp⟩
    · rw [Coalescer.attach, if_neg he]
      exact ⟨[], (List.append_nil _).symm, by simp⟩
  by_cases hl : ∃ w, s = .leave w
  · obtain ⟨w, rfl⟩ := hl
    refine ⟨(c.orphan? w).toList, c.aborted_leave w, fun t ht => .inr ⟨w, rfl, ?_⟩⟩
    exact orphan?_eq_some (Option.mem_toList.1 ht)
  · refine ⟨[], ?_, by simp⟩
    rw [c.aborted_step (fun e t heq => ha ⟨e, t, heq⟩) fun w heq => hl ⟨w, heq⟩, List.append_nil]

theorem task?_of_step (h : c.Coherent) {e : Exchange κ} (ht : (c.step s).registry.task? e = some t) :
    c.registry.task? e = some t ∨ s = .attach e t := by
  by_cases ha : ∃ e t, s = .attach e t
  · obtain ⟨e', t', rfl⟩ := ha
    change (c.attach e' t').registry.task? e = some t at ht
    by_cases he : e' ∈ c.exchanges
    · rcases h.attach_cases he t' with ⟨-, -, heq⟩ | ⟨-, -, heq⟩
      · rw [heq] at ht
        split at ht
        · next hsame =>
          cases ht
          exact .inr (by rw [hsame])
        · exact .inl ht
      · rw [heq] at ht
        exact .inl ht
    · rw [Coalescer.attach, if_neg he] at ht
      exact .inl ht
  · have hne : (c.step s).registry.audience e ≠ [] := fun hnil => by
      cases ((h.step s).registry.task?_of_audience hnil).symm.trans ht
    exact .inl ((h.task?_step (fun e t heq => ha ⟨e, t, heq⟩) hne).symm.trans ht)

end Coalescer.Coherent

namespace Roster

variable [DecidableEq ι] {r r' : Roster κ ι ρ}

/-! ### Steps of the coalescer -/

/-- Every registration is one of its key. -/
def Keyed (r : Roster κ ι ρ) : Prop :=
  ∀ k name registration, r.registrations.get? (k, name) = some registration →
    registration.waiter.key = k ∧ ∀ e, registration.exchange = some e → e = registration.waiter.exchange

theorem Keyed.act (h : r.Keyed) (k : κ) (action : Action ι ρ) : (r.act k action).Keyed := by
  cases action with
  | register name =>
    intro k' name' registration hget
    change (r.registrations.put (k, name) (r.coalescer.register k).1).get? (k', name') = some registration at hget
    rw [Table.get?_put] at hget
    split at hget
    · next heq =>
      cases heq
      cases hget
      exact ⟨Registry.register_key k, fun e he => Coalescer.register_exchange he⟩
    · exact h k' name' registration hget
  | _ => exact h

theorem Keyed.exchange? (h : r.Keyed) {name : ι} {e : Exchange κ} (he : r.exchange? k name = some e) : e.key = k := by
  obtain ⟨registration, hget, he⟩ := Option.bind_eq_some_iff.1 he
  obtain ⟨hkey, hexchange⟩ := h k name registration hget
  rw [hexchange e he]
  exact hkey

theorem Keyed.waiter? (h : r.Keyed) {name : ι} {w : Waiter κ} (hw : r.waiter? k name = some w) : w.key = k := by
  obtain ⟨registration, hget, rfl⟩ := Option.map_eq_some_iff.1 hw
  exact (h k name registration hget).1

theorem Keyed.step? (h : r.Keyed) {action : Action ι ρ} {s : Coalescer.Step κ ρ} (hs : r.step? k action = some s) :
    s.key = k := by
  cases action with
  | register name =>
    cases hs
    rfl
  | complete name _ | drop name | attach name _ | signal name =>
    obtain ⟨e, he, rfl⟩ := Option.map_eq_some_iff.1 hs
    exact h.exchange? he
  | expedite name | leave name | take name =>
    obtain ⟨w, hw, rfl⟩ := Option.map_eq_some_iff.1 hs
    exact h.waiter? hw

theorem coherent_act (h : r.coalescer.Coherent) (k : κ) (action : Action ι ρ) :
    (r.act k action).coalescer.Coherent := by
  show ((r.step? k action).elim r.coalescer r.coalescer.step).Coherent
  cases r.step? k action with
  | none => exact h
  | some s => exact h.step s

theorem nextGeneration_act_le (r : Roster κ ι ρ) (k : κ) (action : Action ι ρ) :
    r.coalescer.registry.nextGeneration ≤ (r.act k action).coalescer.registry.nextGeneration := by
  show _ ≤ ((r.step? k action).elim r.coalescer r.coalescer.step).registry.nextGeneration
  cases r.step? k action with
  | none => exact Nat.le_refl _
  | some s => exact r.coalescer.nextGeneration_step_le s

/-! ### Two runs -/

/-- The second knows of the key what the first knows, up to the numbers, and nothing of other keys. -/
structure Follows (π : Equiv.Perm Nat) (key : κ) (r r' : Roster κ ι ρ) : Prop where
  coherent : r.coalescer.Coherent
  coherent' : r'.coalescer.Coherent
  keyed : r.Keyed
  mirrors : r.coalescer.Mirrors π key r'.coalescer
  registrations : ∀ name, r'.registrations.get? (key, name) =
    (r.registrations.get? (key, name)).map (·.renumbered π)
  /-- The number of a registration was given on both sides. -/
  given : ∀ name registration, r.registrations.get? (key, name) = some registration →
    registration.waiter.generation < r.coalescer.registry.nextGeneration ∧
      π registration.waiter.generation < r'.coalescer.registry.nextGeneration

namespace Follows

theorem empty (key : κ) : Follows (Equiv.refl Nat) key ({} : Roster κ ι ρ) {} where
  coherent := .empty
  coherent' := .empty
  keyed := nofun
  mirrors := .empty _ key
  registrations _ := rfl
  given := nofun

theorem exchange? (h : Follows π key r r') (name : ι) :
    r'.exchange? key name = (r.exchange? key name).map (·.renumbered π) := by
  rw [Roster.exchange?, Roster.exchange?, h.registrations]
  cases r.registrations.get? (key, name) <;> rfl

theorem waiter? (h : Follows π key r r') (name : ι) :
    r'.waiter? key name = (r.waiter? key name).map (·.renumbered π) := by
  rw [Roster.waiter?, Roster.waiter?, h.registrations]
  cases r.registrations.get? (key, name) <;> rfl

theorem step? (h : Follows π key r r') (action : Action ι ρ) :
    r'.step? key action = (r.step? key action).map (·.renumbered π) := by
  cases action with
  | register name => rfl
  | complete name _ | drop name | attach name _ | signal name =>
    simp only [Roster.step?, h.exchange?, Option.map_map]
    rfl
  | expedite name | leave name | take name =>
    simp only [Roster.step?, h.waiter?, Option.map_map]
    rfl

theorem other (h : Follows π key r r') (hk : k ≠ key) (action : Action ι ρ) : Follows π key (r.act k action) r' := by
  have hget : ∀ name,
      (r.act k action).registrations.get? (key, name) = r.registrations.get? (key, name) := fun name => by
    cases action with
    | register name' =>
      show (r.registrations.put (k, name') (r.coalescer.register k).1).get? (key, name) = _
      rw [Table.get?_put, if_neg fun heq => hk (Prod.mk.inj heq).1]
    | _ => rfl
  refine ⟨coherent_act h.coherent k action, h.coherent', h.keyed.act k action, ?_, fun name => ?_,
    fun name registration hreg => ?_⟩
  · show Coalescer.Mirrors π key ((r.step? k action).elim r.coalescer r.coalescer.step) r'.coalescer
    cases hs : r.step? k action with
    | none => exact h.mirrors
    | some s => exact h.mirrors.other fun heq => hk ((h.keyed.step? hs).symm.trans heq)
  · rw [hget]
    exact h.registrations name
  · rw [hget] at hreg
    obtain ⟨hlt, hlt'⟩ := h.given name registration hreg
    exact ⟨Nat.lt_of_lt_of_le hlt (r.nextGeneration_act_le k action), hlt'⟩

theorem register (h : Follows π key r r') (name : ι) :
    r'.sight key (.register name) = r.sight key (.register name) ∧
      ∃ π', Follows π' key (r.act key (.register name)) (r'.act key (.register name)) := by
  obtain ⟨π', hgiven, hregistration, hmirrors⟩ := h.mirrors.register h.coherent h.coherent'
  -- registrations outlive their operations, so the new permutation has to leave their numbers alone, too
  have hold : ∀ name registration, r.registrations.get? (key, name) = some registration →
      registration.renumbered π' = registration.renumbered π := fun name registration hreg => by
    obtain ⟨hlt, hlt'⟩ := h.given name registration hreg
    have hsame := hgiven _ hlt hlt'
    rw [Registration.renumbered, Registration.renumbered, Waiter.renumbered_congr hsame]
    congr 1
    cases hexchange : registration.exchange with
    | none => rfl
    | some e =>
      obtain rfl := (h.keyed key name registration hreg).2 e hexchange
      exact congrArg some (Exchange.renumbered_congr hsame)
  refine ⟨?_, π', coherent_act h.coherent key _, coherent_act h.coherent' key _, h.keyed.act key _, hmirrors,
    fun name' => ?_, fun name' registration hreg => ?_⟩
  · have hfirst : (r'.coalescer.register key).1.exchange.isSome = (r.coalescer.register key).1.exchange.isSome := by
      rw [hregistration]
      exact Option.isSome_map
    have hlast : ∀ d : Coalescer κ ρ, (d.register key).2.aborted.drop d.aborted.length = [] := fun _ => List.drop_length
    show Sight.mk (some (.registered (r'.coalescer.register key).1.exchange.isSome))
        ((r'.coalescer.register key).2.registry.isInFlight key)
        ((r'.coalescer.register key).2.registry.waiterCount key) ((r'.coalescer.register key).2.aborted.drop _) =
      Sight.mk (some (.registered (r.coalescer.register key).1.exchange.isSome))
        ((r.coalescer.register key).2.registry.isInFlight key)
        ((r.coalescer.register key).2.registry.waiterCount key) ((r.coalescer.register key).2.aborted.drop _)
    rw [hfirst, hmirrors.isInFlight, hmirrors.waiterCount, hlast, hlast]
  · show (r'.registrations.put (key, name) (r'.coalescer.register key).1).get? (key, name') =
      ((r.registrations.put (key, name) (r.coalescer.register key).1).get? (key, name')).map _
    rw [Table.get?_put, Table.get?_put, hregistration]
    split
    · rfl
    · rw [h.registrations name']
      cases hreg : r.registrations.get? (key, name') with
      | none => rfl
      | some registration => exact congrArg some (hold name' registration hreg).symm
  · change (r.registrations.put (key, name) (r.coalescer.register key).1).get? (key, name') = some registration at hreg
    rw [Table.get?_put] at hreg
    split at hreg
    · cases hreg
      have hin : (r.coalescer.register key).1.waiter ∈ (r.coalescer.register key).2.waiters :=
        List.mem_append_right _ (List.mem_singleton_self _)
      have hin' : (r'.coalescer.register key).1.waiter ∈ (r'.coalescer.register key).2.waiters :=
        List.mem_append_right _ (List.mem_singleton_self _)
      rw [hregistration] at hin'
      exact ⟨((h.coherent.step (.register key)).known _ hin).1, ((h.coherent'.step (.register key)).known _ hin').1⟩
    · obtain ⟨hlt, hlt'⟩ := h.given name' registration hreg
      rw [hgiven _ hlt hlt']
      exact ⟨Nat.lt_of_lt_of_le hlt (r.nextGeneration_act_le key _),
        Nat.lt_of_lt_of_le hlt' (r'.nextGeneration_act_le key (.register name))⟩

theorem own (h : Follows π key r r') {action : Action ι ρ} (hne : ∀ name, action ≠ .register name) :
    r'.sight key action = r.sight key action ∧ Follows π key (r.act key action) (r'.act key action) := by
  have hafter : ∀ r : Roster κ ι ρ, (r.act key action).registrations = r.registrations := fun r => by
    cases action with
    | register name => exact absurd rfl (hne name)
    | _ => rfl
  have hfollows : ((r.act key action).coalescer.Mirrors π key (r'.act key action).coalescer) →
      Follows π key (r.act key action) (r'.act key action) := fun hmirrors =>
    { coherent := coherent_act h.coherent key action
      coherent' := coherent_act h.coherent' key action
      keyed := h.keyed.act key action
      mirrors := hmirrors
      registrations := by
        rw [hafter, hafter]
        exact h.registrations
      given := fun name registration hreg => by
        rw [hafter] at hreg
        obtain ⟨hlt, hlt'⟩ := h.given name registration hreg
        exact ⟨Nat.lt_of_lt_of_le hlt (r.nextGeneration_act_le key action),
          Nat.lt_of_lt_of_le hlt' (r'.nextGeneration_act_le key action)⟩ }
  -- a name that was never registered is unknown in both
  cases hs : r.step? key action with
  | none =>
    have hs' : r'.step? key action = none := by rw [h.step?, hs]; rfl
    have hmirrors : (r.act key action).coalescer.Mirrors π key (r'.act key action).coalescer := by
      simp only [act, hs, hs', Option.elim_none]
      exact h.mirrors
    refine ⟨?_, hfollows hmirrors⟩
    rw [sight, sight, hmirrors.isInFlight, hmirrors.waiterCount]
    simp only [act, hs, hs', Option.elim_none, Option.map_none, List.drop_length]
  | some s =>
    have hs' : r'.step? key action = some (s.renumbered π) := by rw [h.step?, hs]; rfl
    have hkey : s.key = key := h.keyed.step? hs
    have hstart : ∀ k, s ≠ .register k := fun k heq => by
      subst heq
      cases action with
      | register name => exact hne name rfl
      | _ => simp [Roster.step?] at hs
    subst hkey
    obtain ⟨hnext, hanswer, aborted, haborted, haborted'⟩ := h.mirrors.own hstart
    have hmirrors : (r.act s.key action).coalescer.Mirrors π s.key (r'.act s.key action).coalescer := by
      simp only [act, hs, hs', Option.elim_some]
      exact hnext
    refine ⟨?_, hfollows hmirrors⟩
    rw [sight, sight, hmirrors.isInFlight, hmirrors.waiterCount]
    simp only [act, hs, hs', Option.elim_some, Option.map_some, hanswer, haborted, haborted', List.drop_left]

/-- An action on the key shows the same in both, and both go on alike. -/
theorem act (h : Follows π key r r') (action : Action ι ρ) :
    r'.sight key action = r.sight key action ∧ ∃ π', Follows π' key (r.act key action) (r'.act key action) := by
  by_cases hstart : ∃ name, action = .register name
  · obtain ⟨name, rfl⟩ := hstart
    exact h.register name
  · obtain ⟨hsight, hnext⟩ := h.own fun name heq => hstart ⟨name, heq⟩
    exact ⟨hsight, π, hnext⟩

end Follows

/-! ### Tasks that no other key has -/

/-- No operation of another key names the task. -/
def Spares (key : κ) (t : Nat) (r : Roster κ ι ρ) : Prop :=
  ∀ e, e.key ≠ key → r.coalescer.registry.task? e ≠ some t

theorem attach_of_step? {action : Action ι ρ} {e : Exchange κ} {t : Nat} (h : r.step? k action = some (.attach e t)) :
    ∃ name, action = .attach name t := by
  cases action with
  | attach name t' =>
    obtain ⟨e', -, heq⟩ := Option.map_eq_some_iff.1 h
    cases heq
    exact ⟨name, rfl⟩
  | _ => simp [Roster.step?] at h

namespace Spares
variable {t : Nat} {action : Action ι ρ}

omit [DecidableEq ι] in
theorem empty (key : κ) (t : Nat) : Spares key t ({} : Roster κ ι ρ) :=
  nofun

theorem act (h : r.Spares key t) (hc : r.coalescer.Coherent) (hk : r.Keyed)
    (hne : k ≠ key → ∀ name, action ≠ .attach name t) : (r.act k action).Spares key t := by
  intro e he ht
  change ((r.step? k action).elim r.coalescer r.coalescer.step).registry.task? e = some t at ht
  cases hs : r.step? k action with
  | none =>
    rw [hs] at ht
    exact h e he ht
  | some s =>
    rw [hs] at ht
    rcases hc.task?_of_step ht with ht | rfl
    · exact h e he ht
    · obtain ⟨name, rfl⟩ := attach_of_step? hs
      have hkey : e.key = k := hk.step? hs
      exact hne (hkey ▸ he) name rfl

theorem aborted_act (h : r.Spares key t) (hc : r.coalescer.Coherent) (hk : r.Keyed) (hne : k ≠ key)
    (hname : ∀ name, action ≠ .attach name t) :
    t ∈ (r.act k action).coalescer.aborted ↔ t ∈ r.coalescer.aborted := by
  show t ∈ ((r.step? k action).elim r.coalescer r.coalescer.step).aborted ↔ _
  cases hs : r.step? k action with
  | none => exact Iff.rfl
  | some s =>
    obtain ⟨l, heq, hl⟩ := hc.aborted_step_append s
    show t ∈ (r.coalescer.step s).aborted ↔ _
    rw [heq, List.mem_append]
    refine ⟨fun ht => ht.resolve_right fun hmem => ?_, .inl⟩
    -- aborted as it is recorded for this very key, or by a last waiter of this key
    rcases hl t hmem with ⟨e, rfl⟩ | ⟨w, rfl, ht⟩
    · obtain ⟨name, rfl⟩ := attach_of_step? hs
      exact hname name rfl
    · have hkey : w.key = k := hk.step? hs
      exact h w.exchange (fun heq => hne (hkey.symm.trans heq)) ht

end Spares

/-- What an action aborts is what its sight shows. -/
theorem aborted_act (hc : r.coalescer.Coherent) (k : κ) (action : Action ι ρ) :
    (r.act k action).coalescer.aborted = r.coalescer.aborted ++ (r.sight k action).aborted := by
  show _ = _ ++ (r.act k action).coalescer.aborted.drop r.coalescer.aborted.length
  have hgrow : ∃ l, (r.act k action).coalescer.aborted = r.coalescer.aborted ++ l := by
    show ∃ l, ((r.step? k action).elim r.coalescer r.coalescer.step).aborted = _
    cases r.step? k action with
    | none => exact ⟨[], (List.append_nil _).symm⟩
    | some s =>
      obtain ⟨l, heq, -⟩ := hc.aborted_step_append s
      exact ⟨l, heq⟩
  obtain ⟨l, heq⟩ := hgrow
  rw [heq, List.drop_left]

/-! ### Runs -/

theorem Follows.sights (h : Follows π key r r') (script : List (κ × Action ι ρ)) :
    (r.sights script).filter (·.1 = key) = r'.sights (script.filter (·.1 = key)) := by
  induction script generalizing π r r' with
  | nil => rfl
  | cons entry rest ih =>
    obtain ⟨k, action⟩ := entry
    by_cases hk : k = key
    · subst hk
      obtain ⟨hsight, π', hnext⟩ := h.act action
      simp only [Roster.sights, List.filter_cons_of_pos, decide_true, hsight, ih hnext]
    · simp only [Roster.sights, hk, decide_false, List.filter_cons_of_neg, Bool.false_eq_true, not_false_eq_true,
        ih (h.other hk action)]

theorem Follows.aborted (h : Follows π key r r') {t : Nat} (ht : r.Spares key t) {script : List (κ × Action ι ρ)}
    (hs : ∀ k name, (k, .attach name t) ∈ script → k = key)
    (hsame : t ∈ r.coalescer.aborted ↔ t ∈ r'.coalescer.aborted) :
    t ∈ (r.play script).coalescer.aborted ↔
      t ∈ (r'.play (script.filter (·.1 = key))).coalescer.aborted := by
  induction script generalizing π r r' with
  | nil => exact hsame
  | cons entry rest ih =>
    obtain ⟨k, action⟩ := entry
    have hrest : ∀ k name, (k, .attach name t) ∈ rest → k = key := fun k name hmem =>
      hs k name (List.mem_cons_of_mem _ hmem)
    have hname : k ≠ key → ∀ name, action ≠ .attach name t := fun hk name heq =>
      hk (hs k name (heq ▸ List.mem_cons_self))
    have hspared := ht.act h.coherent h.keyed hname
    by_cases hk : k = key
    · subst hk
      obtain ⟨hsight, π', hnext⟩ := h.act action
      simp only [Roster.play, List.filter_cons_of_pos, decide_true]
      refine ih hnext hspared hrest ?_
      rw [aborted_act h.coherent, aborted_act h.coherent', hsight, List.mem_append, List.mem_append, hsame]
    · simp only [Roster.play, hk, decide_false, List.filter_cons_of_neg, Bool.false_eq_true, not_false_eq_true]
      exact ih (h.other hk action) hspared hrest
        ((ht.aborted_act h.coherent h.keyed hk (hname hk)).trans hsame)

/-- A key shows the same whatever is done on other keys, and of the tasks that no other key has the same are aborted. -/
theorem keys_independent (key : κ) (script : List (κ × Action ι ρ)) :
    (sights {} script).filter (·.1 = key) = sights {} (script.filter (·.1 = key)) ∧
      ∀ t, (∀ k name, (k, .attach name t) ∈ script → k = key) →
        (t ∈ (play {} script).coalescer.aborted ↔ t ∈ (play {} (script.filter (·.1 = key))).coalescer.aborted) :=
  ⟨(Follows.empty key).sights script, fun t ht => (Follows.empty key).aborted (Spares.empty key t) ht Iff.rfl⟩

end Roster
end Entitle.Flight
