import Entitle.Proofs.Flight.Coalescer
import Mathlib.Data.List.Induction

/-!
# Exact fan-out

Every waiter resolves once, at the step that ends the exchange of its own operation, to what that step
delivers; only a waiter that leaves before that step gets nothing. A completed exchange delivers to the
waiters of its operation that have not left, in the order of registration. Main statement: `fanOut_exact`.

A waiter is `Waiting` from its registration on, then `Resolved`, then `Gone`: each step is looked at once
for each of the three, and the statements about runs follow by induction on the run.
-/

namespace Entitle.Flight.Coalescer

variable {κ ρ : Type} [DecidableEq κ] {c : Coalescer κ ρ} {w : Waiter κ} {d : Delivery ρ}

/-! ### What a run shows -/

/-- What a step delivers to the waiters of an exchange, if it ends that exchange. -/
def Step.settles? (e : Exchange κ) : Step κ ρ → Option (Delivery ρ)
  | .complete e' result => if e' = e then some (.value result) else none
  | .drop e' => if e' = e then some .abandoned else none
  | _ => none

/-- The waiter resolves at a step: waiting on it gives nothing before the step and the delivery after it. -/
def ResolvesAt (c : Coalescer κ ρ) (s : Step κ ρ) (w : Waiter κ) (d : Delivery ρ) : Prop :=
  (c.take w).1 = none ∧ ((c.step s).take w).1 = some d

/-- What the registrations of a run handed out, in order. -/
def registrations (c : Coalescer κ ρ) : List (Step κ ρ) → List (Registration κ)
  | [] => []
  | .register key :: rest => (c.register key).1 :: registrations (c.register key).2 rest
  | s :: rest => registrations (c.step s) rest

/-- The waiters handed out in a run. -/
def handedOut (c : Coalescer κ ρ) (steps : List (Step κ ρ)) : List (Waiter κ) :=
  (c.registrations steps).map (·.waiter)

/-- The exchanges issued in a run. -/
def issued (c : Coalescer κ ρ) (steps : List (Step κ ρ)) : List (Exchange κ) :=
  (c.registrations steps).filterMap (·.exchange)

/-- The waiters that left in a run. -/
def departed (c : Coalescer κ ρ) : List (Step κ ρ) → List (Waiter κ)
  | [] => []
  | .leave w :: rest => (if c.waiters.contains w then [w] else []) ++ departed (c.leave w) rest
  | s :: rest => departed (c.step s) rest

/-- What waiting on a waiter gave in a run. -/
def waited (w : Waiter κ) (c : Coalescer κ ρ) : List (Step κ ρ) → List (Delivery ρ)
  | [] => []
  | .take v :: rest => (if v = w then (c.take w).1.toList else []) ++ waited w (c.take v).2 rest
  | s :: rest => waited w (c.step s) rest

/-- The waiters of an operation that have not left, in the order of registration. -/
def remaining (steps : List (Step κ ρ)) (e : Exchange κ) : List (Waiter κ) :=
  (handedOut {} steps).filter fun w => w.exchange = e && !(departed {} steps).contains w

theorem run_append (c : Coalescer κ ρ) (s t : List (Step κ ρ)) : c.run (s ++ t) = (c.run s).run t :=
  List.foldl_append

theorem registrations_append (c : Coalescer κ ρ) (s t : List (Step κ ρ)) :
    c.registrations (s ++ t) = c.registrations s ++ (c.run s).registrations t := by
  induction s generalizing c with
  | nil => rfl
  | cons a s ih => cases a <;> simp only [List.cons_append, registrations, ih] <;> rfl

theorem handedOut_append (c : Coalescer κ ρ) (s t : List (Step κ ρ)) :
    c.handedOut (s ++ t) = c.handedOut s ++ (c.run s).handedOut t := by
  simp only [handedOut, registrations_append, List.map_append]

theorem issued_append (c : Coalescer κ ρ) (s t : List (Step κ ρ)) :
    c.issued (s ++ t) = c.issued s ++ (c.run s).issued t := by
  simp only [issued, registrations_append, List.filterMap_append]

theorem departed_append (c : Coalescer κ ρ) (s t : List (Step κ ρ)) :
    c.departed (s ++ t) = c.departed s ++ (c.run s).departed t := by
  induction s generalizing c with
  | nil => rfl
  | cons a s ih => cases a <;> simp only [List.cons_append, departed, ih, List.append_assoc] <;> rfl

/-! ### Where a waiter stands -/

/-- The waiter is in an operation that is pending. -/
def Waiting (c : Coalescer κ ρ) (w : Waiter κ) : Prop :=
  w ∈ c.registry.audience w.exchange

/-- The waiter has a result that nobody has taken. -/
def Resolved (c : Coalescer κ ρ) (w : Waiter κ) (d : Delivery ρ) : Prop :=
  w ∈ c.waiters ∧ c.received.get? w = some d

/-- The waiter has left or has taken its result. -/
def Gone (c : Coalescer κ ρ) (w : Waiter κ) : Prop :=
  w ∉ c.waiters ∧ c.registry.Knows w

theorem Resolved.take (h : c.Resolved w d) : (c.take w).1 = some d := by
  simp [Coalescer.take, h.1, h.2]

theorem Gone.take (h : c.Gone w) : (c.take w).1 = none := by
  simp [Coalescer.take, h.1]

theorem waiting_register (c : Coalescer κ ρ) (key : κ) : (c.register key).2.Waiting (c.register key).1.waiter := by
  show _ ∈ (c.registry.register key).2.2.audience _
  rw [Registry.audience_register]
  exact (if_pos rfl).symm ▸ List.mem_append_right _ (List.mem_singleton_self _)

/-- Settling an exchange that is in use, seen from the registry and from the results. -/
theorem settle_of_mem {e : Exchange κ} (he : e ∈ c.exchanges) (d : Delivery ρ) :
    c.settle e d = ((c.registry.audience e).length,
      { c with
        registry := (c.registry.settle e).2
        exchanges := c.exchanges.erase e
        received := c.received ++ (c.registry.audience e).map (·, d) }) := by
  simp [Coalescer.settle, he, Registry.settle_fst]

theorem step_of_settles? {s : Step κ ρ} {e : Exchange κ} (hs : s.settles? e = some d) :
    c.step s = (c.settle e d).2 := by
  cases s with
  | complete e' result =>
    simp only [Step.settles?] at hs
    split at hs
    · next he => cases hs; subst he; rfl
    · cases hs
  | drop e' =>
    simp only [Step.settles?] at hs
    split at hs
    · next he => cases hs; subst he; rfl
    · cases hs
  | _ => cases hs

namespace Coherent

theorem take_of_waiting (h : c.Coherent) (hw : c.Waiting w) : (c.take w).1 = none := by
  obtain ⟨hmem, hr⟩ := (h.listening w).1 hw
  simp [Coalescer.take, hmem, hr]

theorem mem_exchanges (h : c.Coherent) (hw : c.Waiting w) : w.exchange ∈ c.exchanges :=
  h.owed _ (List.ne_nil_of_mem hw)

/-! ### One step -/

/-- Only leaving and the end of its exchange take a waiter out of its operation. -/
theorem waiting_step (h : c.Coherent) (hw : c.Waiting w) {s : Step κ ρ} (hl : s ≠ .leave w)
    (hs : s.settles? w.exchange = none) : (c.step s).Waiting w := by
  show w ∈ (c.step s).registry.audience w.exchange
  rw [h.audience_step]
  cases s with
  | register key =>
    simp only [audienceAfter]
    split
    · exact List.mem_append_left _ hw
    · exact hw
  | complete e result =>
    have he : w.exchange ≠ e := fun he => by simp [Step.settles?, he] at hs
    rw [audienceAfter, if_neg he]
    exact hw
  | drop e =>
    have he : w.exchange ≠ e := fun he => by simp [Step.settles?, he] at hs
    rw [audienceAfter, if_neg he]
    exact hw
  | leave v =>
    have hv : w ≠ v := fun hv => hl (by rw [hv])
    exact List.mem_filter.2 ⟨hw, by simpa using hv⟩
  | _ => exact hw

theorem resolved_settle (h : c.Coherent) (hw : c.Waiting w) (d : Delivery ρ) :
    (c.settle w.exchange d).2.Resolved w d := by
  obtain ⟨hmem, hr⟩ := (h.listening w).1 hw
  rw [settle_of_mem (h.mem_exchanges hw)]
  refine ⟨hmem, ?_⟩
  show Table.get? (c.received ++ _) w = some d
  rw [Table.get?_append, Table.get?_map_const, hr, Option.none_or]
  exact if_pos hw

theorem resolved_step (h : c.Coherent) (hw : c.Waiting w) {s : Step κ ρ} (hs : s.settles? w.exchange = some d) :
    (c.step s).Resolved w d :=
  step_of_settles? hs ▸ h.resolved_settle hw d

theorem gone_leave (h : c.Coherent) (hw : w ∈ c.waiters) : (c.step (.leave w)).Gone w := by
  refine ⟨?_, Registry.Knows.step (h.known w hw) (.leave w)⟩
  simp only [Coalescer.step, Coalescer.leave, hw, if_true]
  exact h.waiters_nodup.not_mem_erase

theorem gone_take (h : c.Coherent) (hw : c.Resolved w d) : (c.step (.take w)).Gone w := by
  refine ⟨?_, Registry.Knows.step (h.known w hw.1) (.take w)⟩
  simp only [Coalescer.step, Coalescer.take, hw.1, hw.2, if_true]
  exact h.waiters_nodup.not_mem_erase

end Coherent

theorem Gone.step (hw : c.Gone w) (s : Step κ ρ) : (c.step s).Gone w := by
  refine ⟨fun hmem => ?_, Registry.Knows.step hw.2 s⟩
  rcases mem_waiters_step hmem with hmem | ⟨key, -, rfl⟩
  · exact hw.1 hmem
  · exact Registry.not_knows_register key hw.2

theorem Resolved.step (hw : c.Resolved w d) {s : Step κ ρ} (hl : s ≠ .leave w) (ht : s ≠ .take w) :
    (c.step s).Resolved w d := by
  have settle : ∀ e d', (c.settle e d').2.Resolved w d := by
    intro e d'
    refine ⟨by rw [waiters_settle]; exact hw.1, ?_⟩
    unfold Coalescer.settle
    split
    · rw [Table.get?_append, hw.2]; rfl
    · exact hw.2
  cases s with
  | register key => exact ⟨List.mem_append_left _ hw.1, hw.2⟩
  | complete e result => exact settle e _
  | drop e => exact settle e _
  | attach e task => exact ⟨by simpa [Coalescer.step] using hw.1, by simpa [Coalescer.step] using hw.2⟩
  | signal e => exact ⟨by simpa [Coalescer.step] using hw.1, by simpa [Coalescer.step] using hw.2⟩
  | expedite v => exact ⟨by simpa [Coalescer.step] using hw.1, by simpa [Coalescer.step] using hw.2⟩
  | leave v =>
    have hv : w ≠ v := fun hv => hl (by rw [hv])
    simp only [Coalescer.step, Coalescer.leave]
    split
    · exact ⟨(List.mem_erase_of_ne hv).2 hw.1, by rw [Table.get?_erase, if_neg (Ne.symm hv)]; exact hw.2⟩
    · exact hw
  | take v =>
    have hv : w ≠ v := fun hv => ht (by rw [hv])
    simp only [Coalescer.step, Coalescer.take]
    split
    · split
      · exact ⟨(List.mem_erase_of_ne hv).2 hw.1, by rw [Table.get?_erase, if_neg (Ne.symm hv)]; exact hw.2⟩
      · exact hw
    · exact hw

/-- The exchange of the waiter has ended, or the waiter has left. -/
def Over (c : Coalescer κ ρ) (w : Waiter κ) : Prop :=
  (∃ d, c.Resolved w d) ∨ c.Gone w

theorem Over.step (h : c.Coherent) (hw : c.Over w) (s : Step κ ρ) : (c.step s).Over w := by
  rcases hw with ⟨d, hw⟩ | hw
  · by_cases hl : s = .leave w
    · subst hl; exact .inr (h.gone_leave hw.1)
    · by_cases ht : s = .take w
      · subst ht; exact .inr (h.gone_take hw)
      · exact .inl ⟨d, hw.step hl ht⟩
  · exact .inr (hw.step s)

/-! ### Runs -/

theorem Resolved.run (hw : c.Resolved w d) {steps : List (Step κ ρ)} (hl : .leave w ∉ steps) (ht : .take w ∉ steps) :
    (c.run steps).Resolved w d := by
  induction steps generalizing c with
  | nil => exact hw
  | cons s rest ih =>
    have hstep := hw.step (fun hsl => hl (hsl ▸ List.mem_cons_self)) fun hst => ht (hst ▸ List.mem_cons_self)
    exact ih hstep (fun hr => hl (List.mem_cons_of_mem _ hr)) fun hr => ht (List.mem_cons_of_mem _ hr)

namespace Coherent

theorem waiting_run (h : c.Coherent) (hw : c.Waiting w) {steps : List (Step κ ρ)} (hl : .leave w ∉ steps)
    (hs : ∀ s ∈ steps, s.settles? w.exchange = none) : (c.run steps).Waiting w := by
  induction steps generalizing c with
  | nil => exact hw
  | cons s rest ih =>
    have hstep := h.waiting_step hw (fun hsl => hl (hsl ▸ List.mem_cons_self)) (hs s List.mem_cons_self)
    exact ih (h.step s) hstep (fun hr => hl (List.mem_cons_of_mem _ hr)) fun t ht => hs t (List.mem_cons_of_mem _ ht)

theorem over_run (h : c.Coherent) (hw : c.Over w) (steps : List (Step κ ρ)) : (c.run steps).Over w := by
  induction steps generalizing c with
  | nil => exact hw
  | cons s rest ih => exact ih (h.step s) (hw.step h s)

/-- A run with the end of its exchange in it, or with its leaving, ends the waiting. -/
theorem over_run_of_waiting (h : c.Coherent) (hw : c.Waiting w) {steps : List (Step κ ρ)}
    (hs : .leave w ∈ steps ∨ ∃ s ∈ steps, s.settles? w.exchange ≠ none) : (c.run steps).Over w := by
  induction steps generalizing c with
  | nil => simp at hs
  | cons s rest ih =>
    by_cases hl : s = .leave w
    · subst hl
      exact (h.step _).over_run (.inr (h.gone_leave ((h.listening w).1 hw).1)) rest
    · cases hd : s.settles? w.exchange with
      | some d => exact (h.step s).over_run (.inl ⟨d, h.resolved_step hw hd⟩) rest
      | none =>
        refine ih (h.step s) (h.waiting_step hw hl hd) ?_
        rcases hs with hs | ⟨t, ht, hne⟩
        · rcases List.mem_cons.1 hs with hs | hs
          · exact absurd hs.symm hl
          · exact .inl hs
        · rcases List.mem_cons.1 ht with rfl | ht
          · exact absurd hd hne
          · exact .inr ⟨t, ht, hne⟩

/-- A run that ends the exchange of a waiter gives it the result, which stays. -/
theorem resolved_run (h : c.Coherent) (hw : c.Waiting w) {steps : List (Step κ ρ)} (hl : .leave w ∉ steps)
    (ht : .take w ∉ steps) (hs : steps.findSome? (·.settles? w.exchange) = some d) : (c.run steps).Resolved w d := by
  induction steps generalizing c with
  | nil => cases hs
  | cons s rest ih =>
    have hl' : .leave w ∉ rest := fun hr => hl (List.mem_cons_of_mem _ hr)
    have ht' : .take w ∉ rest := fun hr => ht (List.mem_cons_of_mem _ hr)
    rw [List.findSome?_cons] at hs
    cases hd : s.settles? w.exchange with
    | some d' =>
      rw [hd] at hs
      cases hs
      exact (h.resolved_step hw hd).run hl' ht'
    | none =>
      rw [hd] at hs
      exact ih (h.step s) (h.waiting_step hw (fun hsl => hl (hsl ▸ List.mem_cons_self)) hd) hl' ht' hs

/-- A waiter that waits resolves at a step if and only if the step is the first to end its exchange and the
waiter has not left. -/
theorem resolvesAt_iff (h : c.Coherent) (hw : c.Waiting w) (steps : List (Step κ ρ)) (s : Step κ ρ) (d : Delivery ρ) :
    (c.run steps).ResolvesAt s w d ↔
      s.settles? w.exchange = some d ∧ (∀ t ∈ steps, t.settles? w.exchange = none) ∧ .leave w ∉ steps := by
  have hrun := h.run steps
  constructor
  · rintro ⟨hbefore, hafter⟩
    have hnot : ¬ (.leave w ∈ steps ∨ ∃ t ∈ steps, t.settles? w.exchange ≠ none) := by
      intro hover
      rcases h.over_run_of_waiting hw hover with ⟨d', hres⟩ | hgone
      · rw [hres.take] at hbefore; cases hbefore
      · rw [(hgone.step s).take] at hafter; cases hafter
    simp only [not_or, not_exists, not_and, not_not] at hnot
    refine ⟨?_, hnot.2, hnot.1⟩
    have hwait := h.waiting_run hw hnot.1 hnot.2
    by_cases hl : s = .leave w
    · subst hl
      rw [Gone.take (hrun.gone_leave ((hrun.listening w).1 hwait).1)] at hafter
      cases hafter
    · cases hd : s.settles? w.exchange with
      | none => rw [(hrun.step s).take_of_waiting (hrun.waiting_step hwait hl hd)] at hafter; cases hafter
      | some d' => rw [(hrun.resolved_step hwait hd).take] at hafter; exact hafter
  · rintro ⟨hd, hs, hl⟩
    have hwait := h.waiting_run hw hl hs
    exact ⟨hrun.take_of_waiting hwait, (hrun.resolved_step hwait hd).take⟩

end Coherent

/-! ### What waiting gives -/

theorem waited_cons_take (c : Coalescer κ ρ) (w : Waiter κ) (rest : List (Step κ ρ)) :
    waited w c (.take w :: rest) = (c.take w).1.toList ++ waited w (c.step (.take w)) rest := by
  rw [waited, if_pos rfl]; rfl

theorem waited_cons_of_ne (c : Coalescer κ ρ) {s : Step κ ρ} (hs : s ≠ .take w) (rest : List (Step κ ρ)) :
    waited w c (s :: rest) = waited w (c.step s) rest := by
  cases s with
  | take v => rw [waited, if_neg fun hv => hs (by rw [hv])]; rfl
  | _ => rfl

theorem waited_append (w : Waiter κ) (c : Coalescer κ ρ) (s t : List (Step κ ρ)) :
    waited w c (s ++ t) = waited w c s ++ waited w (c.run s) t := by
  induction s generalizing c with
  | nil => rfl
  | cons a s ih =>
    by_cases ht : a = .take w
    · subst ht
      rw [List.cons_append, waited_cons_take, waited_cons_take, ih, List.append_assoc]
      rfl
    · rw [List.cons_append, waited_cons_of_ne c ht, waited_cons_of_ne c ht, ih]
      rfl

theorem waited_eq_nil (c : Coalescer κ ρ) {steps : List (Step κ ρ)} (hs : .take w ∉ steps) : waited w c steps = [] := by
  induction steps generalizing c with
  | nil => rfl
  | cons s rest ih =>
    have hne : s ≠ .take w := fun heq => hs (heq ▸ List.mem_cons_self)
    rw [waited_cons_of_ne c hne]
    exact ih _ fun hr => hs (List.mem_cons_of_mem _ hr)

theorem Gone.run (hw : c.Gone w) (steps : List (Step κ ρ)) : (c.run steps).Gone w := by
  induction steps generalizing c with
  | nil => exact hw
  | cons s rest ih => exact ih (hw.step s)

theorem Gone.waited (hw : c.Gone w) (steps : List (Step κ ρ)) : waited w c steps = [] := by
  induction steps generalizing c with
  | nil => rfl
  | cons s rest ih =>
    by_cases ht : s = .take w
    · subst ht; rw [waited_cons_take, hw.take, ih (hw.step _)]; rfl
    · rw [waited_cons_of_ne c ht, ih (hw.step s)]

namespace Coherent

theorem waited_of_resolved (h : c.Coherent) (hw : c.Resolved w d) {steps : List (Step κ ρ)} (hl : .leave w ∉ steps) :
    waited w c steps ++ ((c.run steps).take w).1.toList = [d] := by
  induction steps generalizing c with
  | nil => show [] ++ (c.take w).1.toList = [d]; rw [hw.take]; rfl
  | cons s rest ih =>
    have hne : s ≠ .leave w := fun hsl => hl (hsl ▸ List.mem_cons_self)
    by_cases ht : s = .take w
    · subst ht
      have hgone := h.gone_take hw
      show _ ++ (((c.step (.take w)).run rest).take w).1.toList = [d]
      rw [waited_cons_take, hw.take, hgone.waited, (hgone.run rest).take]; rfl
    · rw [waited_cons_of_ne c ht]
      exact ih (h.step s) (hw.step hne ht) fun hr => hl (List.mem_cons_of_mem _ hr)

/-- What waiting gave and what it would give now: what the end of the exchange delivered, if it has ended. -/
theorem waited_of_waiting (h : c.Coherent) (hw : c.Waiting w) {steps : List (Step κ ρ)} (hl : .leave w ∉ steps) :
    waited w c steps ++ ((c.run steps).take w).1.toList = (steps.findSome? (·.settles? w.exchange)).toList := by
  induction steps generalizing c with
  | nil => show [] ++ (c.take w).1.toList = []; rw [h.take_of_waiting hw]; rfl
  | cons s rest ih =>
    have hne : s ≠ .leave w := fun hsl => hl (hsl ▸ List.mem_cons_self)
    have hl' : .leave w ∉ rest := fun hr => hl (List.mem_cons_of_mem _ hr)
    rw [List.findSome?_cons]
    cases hd : s.settles? w.exchange with
    | some d =>
      have ht : s ≠ .take w := fun ht => by rw [ht] at hd; cases hd
      rw [waited_cons_of_ne c ht]
      exact (h.step s).waited_of_resolved (h.resolved_step hw hd) hl'
    | none =>
      have hstep := h.waiting_step hw hne hd
      by_cases ht : s = .take w
      · subst ht
        rw [waited_cons_take, h.take_of_waiting hw]
        exact ih (h.step _) hstep hl'
      · rw [waited_cons_of_ne c ht]
        exact ih (h.step s) hstep hl'

theorem waited_sublist_of_resolved (h : c.Coherent) (hw : c.Resolved w d) (steps : List (Step κ ρ)) :
    (waited w c steps).Sublist [d] := by
  induction steps generalizing c with
  | nil => exact List.nil_sublist _
  | cons s rest ih =>
    by_cases ht : s = .take w
    · subst ht
      rw [waited_cons_take, hw.take, (h.gone_take hw).waited]
      exact .refl _
    · rw [waited_cons_of_ne c ht]
      by_cases hl : s = .leave w
      · subst hl
        rw [(h.gone_leave hw.1).waited]
        exact List.nil_sublist _
      · exact ih (h.step s) (hw.step hl ht)

/-- Waiting gives nothing but what the end of the exchange delivered, and that once at most. -/
theorem waited_sublist (h : c.Coherent) (hw : c.Waiting w) (steps : List (Step κ ρ)) :
    (waited w c steps).Sublist (steps.findSome? (·.settles? w.exchange)).toList := by
  induction steps generalizing c with
  | nil => exact List.nil_sublist _
  | cons s rest ih =>
    rw [List.findSome?_cons]
    by_cases hl : s = .leave w
    · subst hl
      rw [waited_cons_of_ne c (by simp), (h.gone_leave ((h.listening w).1 hw).1).waited]
      exact List.nil_sublist _
    · cases hd : s.settles? w.exchange with
      | some d =>
        have ht : s ≠ .take w := fun ht => by rw [ht] at hd; cases hd
        rw [waited_cons_of_ne c ht]
        exact (h.step s).waited_sublist_of_resolved (h.resolved_step hw hd) rest
      | none =>
        have hstep := h.waiting_step hw hl hd
        by_cases ht : s = .take w
        · subst ht
          rw [waited_cons_take, h.take_of_waiting hw]
          exact ih (h.step _) hstep
        · rw [waited_cons_of_ne c ht]
          exact ih (h.step s) hstep

end Coherent

/-! ### Handles of a run -/

theorem Registry.Knows.run (h : c.registry.Knows w) (steps : List (Step κ ρ)) : (c.run steps).registry.Knows w := by
  induction steps generalizing c with
  | nil => exact h
  | cons s rest ih => exact ih (Registry.Knows.step h s)

namespace Coherent

theorem knows_of_handedOut (h : c.Coherent) {steps : List (Step κ ρ)} (hw : w ∈ c.handedOut steps) :
    (c.run steps).registry.Knows w := by
  induction steps generalizing c with
  | nil => simp [handedOut, registrations] at hw
  | cons s rest ih =>
    rw [show s :: rest = [s] ++ rest from rfl, handedOut_append, List.mem_append] at hw
    rcases hw with hw | hw
    · cases s with
      | register key =>
        have hw : w = (c.register key).1.waiter := by simpa [handedOut, registrations] using hw
        subst hw
        exact Registry.Knows.run (h.registry.knows_register key) rest
      | _ => simp [handedOut, registrations] at hw
    · exact ih (h.step s) hw

theorem knows_of_departed (h : c.Coherent) {steps : List (Step κ ρ)} (hw : w ∈ c.departed steps) :
    (c.run steps).registry.Knows w := by
  induction steps generalizing c with
  | nil => simp [departed] at hw
  | cons s rest ih =>
    rw [show s :: rest = [s] ++ rest from rfl, departed_append, List.mem_append] at hw
    rcases hw with hw | hw
    · cases s with
      | leave v =>
        simp only [departed, List.append_nil] at hw
        split at hw
        · next hv =>
          cases List.mem_singleton.1 hw
          exact Registry.Knows.run (h.known w (List.contains_iff_mem.1 hv)) (.leave w :: rest)
        · cases hw
      | _ => simp [departed] at hw
    · exact ih (h.step s) hw

end Coherent

theorem exists_handedOut_of_issued {steps : List (Step κ ρ)} {e : Exchange κ} (he : e ∈ c.issued steps) :
    ∃ w ∈ c.handedOut steps, w.exchange = e := by
  induction steps generalizing c with
  | nil => simp [issued, registrations] at he
  | cons s rest ih =>
    rw [show s :: rest = [s] ++ rest from rfl, issued_append, List.mem_append] at he
    rw [show s :: rest = [s] ++ rest from rfl, handedOut_append]
    rcases he with he | he
    · cases s with
      | register key =>
        have he : (c.register key).1.exchange = some e := by
          cases hx : (c.register key).1.exchange with
          | none => simp [issued, registrations, hx] at he
          | some x => simpa [issued, registrations, hx, eq_comm] using he
        exact ⟨_, by simp [handedOut, registrations], (register_exchange he).symm⟩
      | _ => simp [issued, registrations] at he
    · obtain ⟨w, hw, rfl⟩ := ih he
      exact ⟨w, List.mem_append_right _ hw, rfl⟩

theorem generation_of_issued {key : κ} {e : Exchange κ} (h : (c.register key).1.exchange = some e) :
    e.generation = c.registry.nextGeneration := by
  change (c.registry.register key).1 = some e at h
  cases ho : c.registry.pending.get? key with
  | some o => rw [Registry.register_joined ho] at h; cases h
  | none => rw [Registry.register_started ho] at h; cases h; rfl

theorem generation_lt_of_issued {steps : List (Step κ ρ)} {e : Exchange κ} (he : e ∈ issued {} steps) :
    e.generation < (run {} steps : Coalescer κ ρ).registry.nextGeneration := by
  obtain ⟨w, hw, rfl⟩ := exists_handedOut_of_issued he
  exact (Coherent.empty.knows_of_handedOut hw).1

theorem nodup_issued (steps : List (Step κ ρ)) : (issued {} steps : List (Exchange κ)).Nodup := by
  induction steps using List.reverseRecOn with
  | nil => exact .nil
  | append_singleton steps s ih =>
    rw [issued_append]
    cases s with
    | register key =>
      cases he : ((run {} steps : Coalescer κ ρ).register key).1.exchange with
      | none => simpa [issued, registrations, he] using ih
      | some e =>
        refine ih.append (by simp [issued, registrations, he]) fun e' hold hnew => ?_
        have : e' = e := by simpa [issued, registrations, he] using hnew
        subst this
        exact Nat.ne_of_lt (generation_lt_of_issued hold) (generation_of_issued he)
    | _ => simpa [issued, registrations] using ih

theorem issued_of_mem_exchanges {steps : List (Step κ ρ)} {e : Exchange κ}
    (he : e ∈ (run {} steps : Coalescer κ ρ).exchanges) : e ∈ issued {} steps := by
  induction steps using List.reverseRecOn with
  | nil => cases he
  | append_singleton steps s ih =>
    rw [run_append] at he
    rw [issued_append, List.mem_append]
    rcases mem_exchanges_step he with hold | ⟨key, rfl, hnew⟩
    · exact .inl (ih hold)
    · exact .inr (by simp [issued, registrations, hnew])

/-! ### Who is served -/

theorem remaining_register (steps : List (Step κ ρ)) (key : κ) (e : Exchange κ) :
    remaining (steps ++ [.register key]) e =
      let w := ((run {} steps : Coalescer κ ρ).register key).1.waiter
      if e = w.exchange then remaining steps e ++ [w] else remaining steps e := by
  have hw : ((run {} steps : Coalescer κ ρ).register key).1.waiter ∉ departed {} steps :=
    fun hw => Registry.not_knows_register key (Coherent.empty.knows_of_departed hw)
  simp only [remaining, handedOut_append, departed_append]
  by_cases he : e = ((run {} steps : Coalescer κ ρ).register key).1.waiter.exchange
  · subst he
    simp [handedOut, registrations, departed, hw]
  · simp [handedOut, registrations, departed, he, Ne.symm he]

theorem remaining_leave (steps : List (Step κ ρ)) (w : Waiter κ) (e : Exchange κ) :
    remaining (steps ++ [.leave w]) e =
      if w ∈ (run {} steps : Coalescer κ ρ).waiters then (remaining steps e).filter (· ≠ w) else remaining steps e := by
  simp only [remaining, handedOut_append, departed_append]
  split
  · next hw =>
    rw [List.filter_filter]
    simp only [handedOut, registrations, departed, List.contains_iff_mem.2 hw, if_true, List.map_nil, List.append_nil]
    exact List.filter_congr fun v _ => by simp [Bool.and_comm, Bool.and_assoc]
  · next hw => simp [handedOut, registrations, departed, hw]

theorem remaining_other (steps : List (Step κ ρ)) {s : Step κ ρ} (e : Exchange κ) (hr : ∀ key, s ≠ .register key)
    (hl : ∀ w, s ≠ .leave w) : remaining (steps ++ [s]) e = remaining steps e := by
  simp only [remaining, handedOut_append, departed_append]
  cases s with
  | register key => exact absurd rfl (hr key)
  | leave w => exact absurd rfl (hl w)
  | _ => simp [handedOut, registrations, departed]

/-- An exchange that has not ended: in use or still to be issued. -/
def Open (c : Coalescer κ ρ) (e : Exchange κ) : Prop :=
  e ∈ c.exchanges ∨ c.registry.nextGeneration ≤ e.generation

theorem Open.of_step {e : Exchange κ} {s : Step κ ρ} (he : (c.step s).Open e) : c.Open e := by
  rcases he with he | he
  · rcases mem_exchanges_step he with he | ⟨key, -, hnew⟩
    · exact .inl he
    · exact .inr (Nat.le_of_eq (generation_of_issued hnew).symm)
  · exact .inr (Nat.le_trans (c.nextGeneration_step_le s) he)

theorem Open.of_run {e : Exchange κ} (steps : List (Step κ ρ)) (he : (c.run steps).Open e) : c.Open e := by
  induction steps generalizing c with
  | nil => exact he
  | cons s rest ih => exact Open.of_step (ih he)

/-- An exchange that a step ends was not in use if it counts as open afterwards. -/
theorem Coherent.not_mem_of_open_settle (h : c.Coherent) {e : Exchange κ} {d : Delivery ρ}
    (he : (c.settle e d).2.Open e) : e ∉ c.exchanges := by
  intro hmem
  rcases he with he | he
  · rw [exchanges_settle] at he
    exact h.exchanges_nodup.not_mem_erase he
  · rw [settle_of_mem hmem] at he
    simp only [Registry.nextGeneration_settle] at he
    exact Nat.not_lt.2 he (h.generation_lt e hmem)

theorem Coherent.not_open_run (h : c.Coherent) {e : Exchange κ} (he : e ∈ c.exchanges) {steps : List (Step κ ρ)}
    (hs : ∃ s ∈ steps, s.settles? e ≠ none) : ¬ (c.run steps).Open e := by
  induction steps generalizing c with
  | nil => simp at hs
  | cons s rest ih =>
    cases hd : s.settles? e with
    | some d =>
      have hclosed : ¬ (c.step s).Open e := fun hopen =>
        h.not_mem_of_open_settle (step_of_settles? hd ▸ hopen) he
      exact fun hopen => hclosed (Open.of_run rest hopen)
    | none =>
      have hs : ∃ t ∈ rest, t.settles? e ≠ none := by
        obtain ⟨t, ht, hne⟩ := hs
        rcases List.mem_cons.1 ht with rfl | ht
        · exact absurd hd hne
        · exact ⟨t, ht, hne⟩
      by_cases hin : e ∈ (c.step s).exchanges
      · exact ih (h.step s) hin hs
      · refine fun hopen => hin ((Open.of_run rest hopen).resolve_right fun hge => ?_)
        exact Nat.not_lt.2 hge (Nat.lt_of_lt_of_le (h.generation_lt e he) (c.nextGeneration_step_le s))

/-- As long as its exchange has not ended, the waiters of an operation are those that have not left. -/
theorem audience_eq_remaining {steps : List (Step κ ρ)} {e : Exchange κ}
    (he : (run {} steps : Coalescer κ ρ).Open e) :
    (run {} steps : Coalescer κ ρ).registry.audience e = remaining steps e := by
  induction steps using List.reverseRecOn with
  | nil => rfl
  | append_singleton steps s ih =>
    have hc : (run {} steps : Coalescer κ ρ).Coherent := Coherent.empty.run steps
    rw [run_append] at he ⊢
    replace ih := ih (Open.of_step he)
    show (Coalescer.step _ s).registry.audience e = _
    rw [hc.audience_step]
    have settled : ∀ e' d, (Coalescer.settle (run {} steps : Coalescer κ ρ) e' d).2.Open e →
        (if e = e' then [] else (run {} steps : Coalescer κ ρ).registry.audience e) = remaining steps e := by
      intro e' d hopen
      split
      · next heq =>
        subst heq
        rw [← ih, hc.audience_eq_nil (hc.not_mem_of_open_settle hopen)]
      · exact ih
    cases s with
    | register key => rw [remaining_register, audienceAfter, ih]
    | complete e' result =>
      rw [remaining_other _ _ (by simp) (by simp)]
      exact settled e' _ he
    | drop e' =>
      rw [remaining_other _ _ (by simp) (by simp)]
      exact settled e' _ he
    | leave w =>
      rw [remaining_leave, ← ih, audienceAfter]
      split
      · rfl
      · next hw => exact hc.filter_audience hw e
    | _ => rw [remaining_other _ _ (by simp) (by simp)]; exact ih

/-- A completed exchange delivers to the waiters of its operation that have not left, in the order of
registration, and counts them. -/
theorem complete_serves {steps : List (Step κ ρ)} {e : Exchange κ}
    (he : e ∈ (run {} steps : Coalescer κ ρ).exchanges) (result : ρ) :
    ((run {} steps).complete e result).1 = (remaining steps e).length ∧
      ((run {} steps).complete e result).2.received =
        (run {} steps).received ++ (remaining steps e).map (·, .value result) := by
  rw [complete, settle_of_mem he, audience_eq_remaining (.inl he)]
  exact ⟨rfl, rfl⟩

/-- Fan-out is exact. After any run, take the waiter of a registration. It is a new one, and one registration
alone, at the latest its own, issues the exchange of its key and generation. However the run goes on, the waiter
resolves at the first step that ends this exchange, to what that step delivers, unless it has left before; waiting
gives that once and nothing else. And whatever exchange is in use then, completing it serves the waiters of its
operation that have not left, in the order of registration. -/
theorem fanOut_exact (before : List (Step κ ρ)) (key : κ) :
    let c := run {} before
    let w := (c.register key).1.waiter
    let start := (c.register key).2
    (w.key = key ∧ w ∉ handedOut {} before) ∧
    (w.exchange ∈ issued {} (before ++ [.register key]) ∧
      ∀ after, (issued {} (before ++ .register key :: after)).count w.exchange = 1) ∧
    (∀ after s d, (start.run after).ResolvesAt s w d ↔
      s.settles? w.exchange = some d ∧ (∀ t ∈ after, t.settles? w.exchange = none) ∧ .leave w ∉ after) ∧
    (∀ after, (waited w start after).Sublist (after.findSome? (·.settles? w.exchange)).toList ∧
      (.leave w ∉ after → waited w start after ++ ((start.run after).take w).1.toList =
        (after.findSome? (·.settles? w.exchange)).toList)) ∧
    ∀ e ∈ c.exchanges, ∀ result, (c.complete e result).1 = (remaining before e).length ∧
      (c.complete e result).2.received = c.received ++ (remaining before e).map (·, .value result) := by
  intro c w start
  have hc : c.Coherent := Coherent.empty.run before
  have hstart : start.Coherent := hc.register key
  have hw : start.Waiting w := waiting_register c key
  have hsplit : ∀ after, run {} (before ++ .register key :: after) = start.run after := fun after => run_append ..
  have hissued : w.exchange ∈ issued {} (before ++ [.register key]) :=
    issued_of_mem_exchanges (by rw [hsplit]; exact hstart.mem_exchanges hw)
  refine ⟨⟨Registry.register_key key, fun hold => ?_⟩, ⟨hissued, fun after => ?_⟩, hstart.resolvesAt_iff hw, ?_, ?_⟩
  · exact Registry.not_knows_register key (Coherent.empty.knows_of_handedOut hold)
  · refine List.count_eq_one_of_mem (nodup_issued _) ?_
    rw [show before ++ .register key :: after = (before ++ [.register key]) ++ after by simp, issued_append]
    exact List.mem_append_left _ hissued
  · exact fun after => ⟨hstart.waited_sublist hw after, hstart.waited_of_waiting hw⟩
  · exact fun e he result => complete_serves he result

end Entitle.Flight.Coalescer
