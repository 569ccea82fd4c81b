import Entitle.Proofs.Flight.Relay

/-!
# Permits

The permits are bounded, go to whoever waits, and go round in order. `Dispatcher.Turn` is one change of the stages and
`Dispatcher.Passing` what it does to the queue and to the holders of permits, in six cases; everything below is read off
these cases. `permits_run` is the statement for runs: the permits in use and the free ones are as many as the dispatcher
was built with, a delayed task holds none, nobody waits while one is free, and the tasks that got one so far, followed
by those that wait, are the tasks that finished their delay, in that order, without those that ended while they waited.
-/

namespace Entitle.Flight

namespace Dispatcher
variable {d d' : Dispatcher} {t next permits : Nat}

/-- The tasks that have not finished their start delay. -/
def delayed (d : Dispatcher) : List Nat :=
  d.fresh.map Prod.fst ++ d.sleeping

theorem tasks_eq (d : Dispatcher) : d.tasks = d.delayed ++ (d.queue ++ d.running) := by
  simp only [tasks, delayed, List.append_assoc]

/-- A task that has not ended is in one stage. -/
structure Staged (d : Dispatcher) : Prop where
  queue : d.queue.Nodup
  running : d.running.Nodup
  delayed : ∀ t ∈ d.delayed, t ∉ d.queue ∧ t ∉ d.running
  waiting : ∀ t ∈ d.queue, t ∉ d.running

theorem staged_of_nodup (h : d.tasks.Nodup) : d.Staged := by
  rw [tasks_eq, List.nodup_append, List.nodup_append] at h
  obtain ⟨-, ⟨hqueue, hrunning, hwaiting⟩, hdelayed⟩ := h
  refine ⟨hqueue, hrunning, fun t ht => ⟨fun hq => ?_, fun hr => ?_⟩, fun t ht hr => hwaiting t ht t hr rfl⟩
  · exact hdelayed t ht t (List.mem_append_left _ hq) rfl
  · exact hdelayed t ht t (List.mem_append_right _ hr) rfl

/-! ### One change of the stages -/

/-- What can happen to the stages; a new task gets the next number. -/
inductive Turn (next : Nat) (d : Dispatcher) : Dispatcher → Prop where
  | still : Turn next d d
  | spawn (delay : Nat) : Turn next d (d.spawn next delay)
  | start {t : Nat} (ht : t ∈ d.fresh.map Prod.fst) (delay : Nat) (skip : Bool) : Turn next d (d.start t delay skip)
  | wake (t : Nat) : Turn next d (d.wake t)
  | stop (t : Nat) : Turn next d (d.stop t)

/-- What happens to the queue and to the holders of permits. -/
inductive Passing (d d' : Dispatcher) : Prop where
  | still (hqueue : d'.queue = d.queue) (hrunning : d'.running = d.running) (hfree : d'.free = d.free)
  /-- A task finishes its delay and finds no permit. -/
  | queued (t : Nat) (ht : t ∈ d.delayed) (hnone : d.free = 0) (hqueue : d'.queue = d.queue ++ [t])
      (hrunning : d'.running = d.running) (hfree : d'.free = d.free)
  /-- A task finishes its delay and gets a permit. -/
  | admitted (t : Nat) (ht : t ∈ d.delayed) (hnil : d.queue = []) (hqueue : d'.queue = [])
      (hrunning : d'.running = d.running ++ [t]) (hfree : d.free = d'.free + 1)
  /-- A task ends while it waits. -/
  | left (t : Nat) (ht : t ∈ d.queue) (hqueue : d'.queue = d.queue.erase t) (hrunning : d'.running = d.running)
      (hfree : d'.free = d.free)
  /-- A task ends and nobody waits for its permit. -/
  | returned (t : Nat) (ht : t ∈ d.running) (hnil : d.queue = []) (hqueue : d'.queue = [])
      (hrunning : d'.running = d.running.erase t) (hfree : d'.free = d.free + 1)
  /-- A task ends and its permit goes to the head of the queue. -/
  | passed (t head : Nat) (ht : t ∈ d.running) (hqueue : d.queue = head :: d'.queue)
      (hrunning : d'.running = d.running.erase t ++ [head]) (hfree : d'.free = d.free)

/-- Every permit is held or free, and none is free while someone waits. -/
structure Fair (permits : Nat) (d : Dispatcher) : Prop where
  nodup : d.tasks.Nodup
  conserved : d.running.length + d.free = permits
  working : d.queue ≠ [] → d.free = 0

theorem Fair.staged (h : d.Fair permits) : d.Staged :=
  staged_of_nodup h.nodup

theorem Fair.ofLimits (l : Limits) : (ofLimits l).Fair (max 1 l.maxConcurrent) where
  nodup := .nil
  conserved := by simp [Dispatcher.ofLimits, Limits.permits, Nat.max_comm]
  working h := absurd rfl h

@[simp] theorem delayed_ready (d : Dispatcher) (t : Nat) : (d.ready t).delayed = d.delayed := by
  unfold ready
  split <;> rfl

@[simp] theorem delayed_release (d : Dispatcher) : d.release.delayed = d.delayed := by
  unfold release
  split <;> rfl

theorem passing_ready (hworking : d.queue ≠ [] → d.free = 0) (ht : t ∈ d.delayed) {fresh : List (Nat × Nat)}
    {sleeping : List Nat} : d.Passing (ready { d with fresh, sleeping } t) := by
  unfold ready
  split
  · next hnone => exact .queued t ht hnone rfl rfl rfl
  · next hsome =>
    have hnil : d.queue = [] := not_not.1 (mt hworking hsome)
    exact .admitted t ht hnil hnil rfl (Nat.succ_pred_eq_of_ne_zero hsome).symm

namespace Turn

theorem mem_delayed (turn : Turn next d d') (ht : t ∈ d'.delayed) : t ∈ d.delayed ∨ t = next := by
  simp only [delayed, List.mem_append] at ht ⊢
  cases turn with
  | still => exact .inl ht
  | spawn delay =>
    simp only [Dispatcher.spawn, List.map_append, List.mem_append, List.map_cons, List.map_nil,
      List.mem_singleton] at ht
    rcases ht with (ht | ht) | ht
    · exact .inl (.inl ht)
    · exact .inr ht
    · exact .inl (.inr ht)
  | @start a ha delay skip =>
    have hsub : ∀ b ∈ (d.fresh.filter (·.1 ≠ a)).map Prod.fst, b ∈ d.fresh.map Prod.fst := fun b hb =>
      (List.filter_sublist.map Prod.fst).subset hb
    unfold Dispatcher.start at ht
    split at ht
    · have ht : t ∈ Dispatcher.delayed _ := List.mem_append.2 ht
      rw [delayed_ready, delayed, List.mem_append] at ht
      exact .inl (ht.imp_left (hsub t))
    · rcases ht with ht | ht
      · exact .inl (.inl (hsub t ht))
      · rcases List.mem_append.1 ht with ht | ht
        · exact .inl (.inr ht)
        · exact .inl (.inl (List.mem_singleton.1 ht ▸ ha))
  | wake a =>
    unfold Dispatcher.wake at ht
    split at ht
    · have ht : t ∈ Dispatcher.delayed _ := List.mem_append.2 ht
      rw [delayed_ready, delayed, List.mem_append] at ht
      exact .inl (ht.imp_right List.mem_of_mem_erase)
    · exact .inl ht
  | stop a =>
    unfold Dispatcher.stop at ht
    split at ht
    · have ht : t ∈ Dispatcher.delayed _ := List.mem_append.2 ht
      rw [delayed_release, delayed, List.mem_append] at ht
      exact .inl ht
    · exact .inl (ht.imp (fun h => (List.filter_sublist.map Prod.fst).subset h) List.mem_of_mem_erase)

theorem passing (turn : Turn next d d') (hworking : d.queue ≠ [] → d.free = 0) : d.Passing d' := by
  cases turn with
  | still => exact .still rfl rfl rfl
  | spawn delay => exact .still rfl rfl rfl
  | @start t ht delay skip =>
    unfold Dispatcher.start
    split
    · exact passing_ready hworking (List.mem_append_left _ ht)
    · exact .still rfl rfl rfl
  | wake t =>
    unfold Dispatcher.wake
    split
    · next ht => exact passing_ready hworking (List.mem_append_right _ ht)
    · exact .still rfl rfl rfl
  | stop t =>
    unfold Dispatcher.stop
    split
    · next ht =>
      unfold release
      split
      · next hnil => exact .returned t ht hnil hnil rfl rfl
      · next head rest hqueue => exact .passed t head ht hqueue rfl rfl
    · by_cases ht : t ∈ d.queue
      · exact .left t ht rfl rfl rfl
      · exact .still (List.erase_of_not_mem ht) rfl rfl

theorem nodup (turn : Turn next d d') (h : d.tasks.Nodup) (hnext : next ∉ d.tasks) : d'.tasks.Nodup := by
  cases turn with
  | still => exact h
  | spawn delay => exact (tasks_spawn next delay).nodup_iff.2 (List.nodup_cons.2 ⟨hnext, h⟩)
  | start ht delay skip => exact (tasks_start h ht).nodup_iff.2 h
  | wake t => exact (d.tasks_wake t).nodup_iff.2 h
  | stop t => exact (tasks_stop h t).nodup_iff.2 (h.erase t)

end Turn

theorem Fair.turn (h : d.Fair permits) (turn : Turn next d d') (hnext : next ∉ d.tasks) : d'.Fair permits := by
  have hconserved := h.conserved
  have hworking := h.working
  have hlength : ∀ t ∈ d.running, (d.running.erase t).length + 1 = d.running.length := fun t ht => by
    rw [List.length_erase_of_mem ht]
    exact Nat.succ_pred_eq_of_pos (List.length_pos_of_mem ht)
  refine ⟨turn.nodup h.nodup hnext, ?_, ?_⟩
  · cases turn.passing hworking with
    | still hqueue hrunning hfree | queued _ _ _ hqueue hrunning hfree | left _ _ hqueue hrunning hfree =>
      rw [hrunning, hfree]
      exact hconserved
    | admitted t ht hnil hqueue hrunning hfree =>
      rw [hrunning, List.length_append, List.length_singleton]
      omega
    | returned t ht hnil hqueue hrunning hfree =>
      have := hlength t ht
      rw [hrunning]
      omega
    | passed t head ht hqueue hrunning hfree =>
      have := hlength t ht
      rw [hrunning, List.length_append, List.length_singleton]
      omega
  · intro hne
    cases turn.passing hworking with
    | still hqueue hrunning hfree => exact hfree.trans (hworking (hqueue ▸ hne))
    | queued t ht hnone hqueue hrunning hfree => exact hfree.trans hnone
    | admitted t ht hnil hqueue hrunning hfree => exact absurd hqueue hne
    | left t ht hqueue hrunning hfree => exact hfree.trans (hworking (List.ne_nil_of_mem ht))
    | returned t ht hnil hqueue hrunning hfree => exact absurd hqueue hne
    | passed t head ht hqueue hrunning hfree => exact hfree.trans (hworking (hqueue ▸ List.cons_ne_nil _ _))

/-! ### Who comes and who goes -/

/-- The members of a list that another one lacks. -/
def lacking (l m : List Nat) : List Nat :=
  m.filter (· ∉ l)

theorem mem_lacking {l m : List Nat} : t ∈ lacking l m ↔ t ∈ m ∧ t ∉ l := by
  simp [lacking]

theorem lacking_eq_nil {l m : List Nat} (h : ∀ t ∈ m, t ∈ l) : lacking l m = [] :=
  List.filter_eq_nil_iff.2 fun t ht => by simpa using h t ht

theorem lacking_insert {l m n : List Nat} (hm : ∀ t ∈ m, t ∈ l) (hn : ∀ t ∈ n, t ∈ l) (ht : t ∉ l) :
    lacking l (m ++ t :: n) = [t] := by
  have hm := lacking_eq_nil hm
  have hn := lacking_eq_nil hn
  rw [lacking] at hm hn ⊢
  rw [List.filter_append, hm, List.nil_append, List.filter_cons_of_pos (by simpa using ht), hn]

/-- The tasks that have just finished their delay. -/
def arrived (d d' : Dispatcher) : List Nat :=
  lacking (d.queue ++ d.running) (d'.queue ++ d'.running)

/-- The tasks that have just got a permit. -/
def granted (d d' : Dispatcher) : List Nat :=
  lacking d.running d'.running

/-- The tasks that have just ended while they waited. -/
def withdrawn (d d' : Dispatcher) : List Nat :=
  lacking (d'.queue ++ d'.running) d.queue

/-- The new holders and those who still wait are those who waited, then the newcomers, without those who left. -/
theorem Passing.order (passing : d.Passing d') (h : d.Staged) :
    granted d d' ++ d'.queue = (d.queue ++ arrived d d').filter (· ∉ withdrawn d d') := by
  unfold granted arrived withdrawn
  cases passing with
  | still hqueue hrunning hfree =>
    rw [hqueue, hrunning, lacking_eq_nil fun _ => id, lacking_eq_nil fun _ => id,
      lacking_eq_nil fun _ => List.mem_append_left _]
    simp
  | queued t ht hnone hqueue hrunning hfree =>
    obtain ⟨hq, hr⟩ := h.delayed t ht
    rw [hqueue, hrunning, List.append_assoc, List.singleton_append, lacking_eq_nil fun _ => id,
      lacking_insert (fun _ => List.mem_append_left _) (fun _ => List.mem_append_right _)
        fun hmem => (List.mem_append.1 hmem).elim hq hr, lacking_eq_nil fun _ => List.mem_append_left _]
    simp
  | admitted t ht hnil hqueue hrunning hfree =>
    obtain ⟨-, hr⟩ := h.delayed t ht
    simp only [hqueue, hnil, hrunning, List.nil_append]
    rw [lacking_insert (fun _ => id) (fun _ ha => absurd ha List.not_mem_nil) hr]
    simp [lacking]
  | left t ht hqueue hrunning hfree =>
    obtain ⟨before, after, hsplit⟩ := List.append_of_mem ht
    have hleft : lacking (d.queue.erase t ++ d.running) d.queue = [t] := by
      have hmem : ∀ a ∈ d.queue, a ≠ t → a ∈ d.queue.erase t ++ d.running := fun a ha hne =>
        List.mem_append_left _ ((List.mem_erase_of_ne hne).2 ha)
      have hnodup := h.queue
      rw [hsplit, List.nodup_append, List.nodup_cons] at hnodup
      have hbefore : ∀ a ∈ before, a ∈ d.queue.erase t ++ d.running := fun a ha =>
        hmem a (hsplit ▸ List.mem_append_left _ ha) (hnodup.2.2 a ha t List.mem_cons_self)
      have hafter : ∀ a ∈ after, a ∈ d.queue.erase t ++ d.running := fun a ha =>
        hmem a (hsplit ▸ List.mem_append_right _ (List.mem_cons_of_mem _ ha)) (ne_of_mem_of_not_mem ha hnodup.2.1.1)
      have hnot : t ∉ d.queue.erase t ++ d.running := fun hmem =>
        (List.mem_append.1 hmem).elim h.queue.not_mem_erase (h.waiting t ht)
      have hinsert := lacking_insert hbefore hafter hnot
      rwa [← hsplit] at hinsert
    have hcome : lacking (d.queue ++ d.running) (d.queue.erase t ++ d.running) = [] := lacking_eq_nil fun a ha =>
      List.mem_append.2 ((List.mem_append.1 ha).imp_left List.mem_of_mem_erase)
    rw [hqueue, hrunning, lacking_eq_nil fun _ => id, hcome, hleft, List.append_nil, List.nil_append,
      h.queue.erase_eq_filter]
    exact List.filter_congr fun a _ => by grind
  | returned t ht hnil hqueue hrunning hfree =>
    simp only [hqueue, hnil, hrunning, List.nil_append]
    rw [lacking_eq_nil fun _ => List.mem_of_mem_erase]
    rfl
  | passed t head ht hqueue hrunning hfree =>
    have hhead : head ∉ d.running := h.waiting head (hqueue ▸ List.mem_cons_self)
    have hcome : lacking (d.queue ++ d.running) (d'.queue ++ (d.running.erase t ++ [head])) = [] := by
      refine lacking_eq_nil fun a ha => ?_
      simp only [hqueue, List.mem_append, List.mem_cons, List.not_mem_nil, or_false] at ha ⊢
      rcases ha with ha | ha | ha
      · exact .inl (.inr ha)
      · exact .inr (List.mem_of_mem_erase ha)
      · exact .inl (.inl ha)
    have hleft : lacking (d'.queue ++ (d.running.erase t ++ [head])) d.queue = [] := by
      refine lacking_eq_nil fun a ha => ?_
      simp only [hqueue, List.mem_append, List.mem_cons, List.not_mem_nil, or_false] at ha ⊢
      exact ha.elim (fun ha => .inr (.inr ha)) .inl
    rw [hrunning, hcome, hleft,
      lacking_insert (fun _ => List.mem_of_mem_erase) (fun _ ha => absurd ha List.not_mem_nil) hhead, hqueue]
    simp

theorem Passing.delayed_of_arrived (passing : d.Passing d') (ht : t ∈ arrived d d') : t ∈ d.delayed := by
  obtain ⟨hin, hout⟩ := mem_lacking.1 ht
  simp only [List.mem_append, not_or] at hin hout
  cases passing with
  | still hqueue hrunning hfree =>
    rw [hqueue, hrunning] at hin
    exact (not_or.2 hout hin).elim
  | queued a ha hnone hqueue hrunning hfree =>
    rw [hqueue, hrunning, List.mem_append, List.mem_singleton] at hin
    rcases hin with (hin | rfl) | hin
    · exact absurd hin hout.1
    · exact ha
    · exact absurd hin hout.2
  | admitted a ha hnil hqueue hrunning hfree =>
    rw [hqueue, hrunning, List.mem_append, List.mem_singleton] at hin
    rcases hin with hin | hin | rfl
    · exact absurd hin List.not_mem_nil
    · exact absurd hin hout.2
    · exact ha
  | left a ha hqueue hrunning hfree =>
    rw [hqueue, hrunning] at hin
    exact (not_or.2 hout (hin.imp_left List.mem_of_mem_erase)).elim
  | returned a ha hnil hqueue hrunning hfree =>
    rw [hqueue, hrunning] at hin
    exact (hin.elim List.not_mem_nil fun hin => hout.2 (List.mem_of_mem_erase hin)).elim
  | passed a head ha hqueue hrunning hfree =>
    rw [hqueue, List.mem_cons, not_or] at hout
    rw [hrunning, List.mem_append, List.mem_singleton] at hin
    rcases hin with hin | hin | hin
    · exact absurd hin hout.1.2
    · exact absurd (List.mem_of_mem_erase hin) hout.2
    · exact absurd hin hout.1.1

/-! ### The order of a run -/

/-- The tasks that have finished their delay, those that have got a permit and those that ended while they waited, each
in the order in which it happened. -/
structure Orderly (next : Nat) (d : Dispatcher) (arrivals grants withdrawals : List Nat) : Prop where
  order : grants ++ d.queue = arrivals.filter (· ∉ withdrawals)
  arrivals_nodup : arrivals.Nodup
  arrivals_lt : ∀ t ∈ arrivals, t < next
  arrivals_past : ∀ t ∈ arrivals, t ∉ d.delayed
  withdrawals_lt : ∀ t ∈ withdrawals, t < next
  withdrawals_ended : ∀ t ∈ withdrawals, t ∉ d.tasks

theorem Orderly.turn {arrivals grants withdrawals : List Nat} {next' : Nat}
    (h : Orderly next d arrivals grants withdrawals) (hfair : d.Fair permits) (turn : Turn next d d')
    (hlt : ∀ t ∈ d.tasks, t < next) (hle : next ≤ next') :
    Orderly next' d' (arrivals ++ arrived d d') (grants ++ granted d d') (withdrawals ++ withdrawn d d') := by
  have hnext : next ∉ d.tasks := fun hmem => Nat.lt_irrefl _ (hlt _ hmem)
  have hstaged := hfair.staged
  have hstaged' := (hfair.turn turn hnext).staged
  have hpassing := turn.passing hfair.working
  have hdelayed : ∀ t ∈ d.delayed, t ∈ d.tasks := fun t ht => by
    rw [tasks_eq]
    exact List.mem_append_left _ ht
  have harrived : ∀ t ∈ arrived d d', t ∈ d.delayed := fun t => hpassing.delayed_of_arrived
  have hwaited : ∀ t ∈ withdrawn d d', t ∈ d.queue := fun t ht => (mem_lacking.1 ht).1
  have hqueue : ∀ t ∈ d.queue, t ∈ d.tasks := fun t ht => mem_tasks.2 (.inr (.inr (.inl ht)))
  have hold : ∀ t ∈ d'.tasks, t ∈ d.tasks ∨ t = next := fun t ht => by
    rw [tasks_eq, List.mem_append] at ht
    rcases ht with ht | ht
    · exact (turn.mem_delayed ht).imp_left (hdelayed t)
    · by_cases hin : t ∈ d.queue ++ d.running
      · rw [tasks_eq]
        exact .inl (List.mem_append_right _ hin)
      · exact .inl (hdelayed t (harrived t (mem_lacking.2 ⟨ht, hin⟩)))
  refine ⟨?_, ?_, ?_, ?_, ?_, ?_⟩
  · -- nobody who left just now has had a permit, and nobody who came just now has left before
    have hkeep : grants.filter (· ∉ withdrawn d d') = grants := by
      have hnodup := h.arrivals_nodup.filter (decide <| · ∉ withdrawals)
      rw [← h.order] at hnodup
      refine List.filter_eq_self.2 fun t ht => decide_eq_true fun hw => ?_
      exact List.disjoint_of_nodup_append hnodup ht (hwaited t hw)
    have hcome : (arrived d d').filter (· ∉ withdrawals) = arrived d d' :=
      List.filter_eq_self.2 fun t ht => decide_eq_true fun hw =>
        h.withdrawals_ended t hw (hdelayed t (harrived t ht))
    calc grants ++ granted d d' ++ d'.queue
        = grants ++ (d.queue ++ arrived d d').filter (· ∉ withdrawn d d') := by
          rw [List.append_assoc, hpassing.order hstaged]
      _ = (grants ++ d.queue).filter (· ∉ withdrawn d d') ++ (arrived d d').filter (· ∉ withdrawn d d') := by
          rw [List.filter_append, List.filter_append, hkeep, List.append_assoc]
      _ = (arrivals.filter (· ∉ withdrawals)).filter (· ∉ withdrawn d d') ++
            ((arrived d d').filter (· ∉ withdrawals)).filter (· ∉ withdrawn d d') := by
          rw [h.order, hcome]
      _ = (arrivals ++ arrived d d').filter (· ∉ withdrawals ++ withdrawn d d') := by
          rw [← List.filter_append, ← List.filter_append, List.filter_filter]
          exact List.filter_congr fun t _ => by simp [Bool.and_comm]
  · have hnodup : (arrived d d').Nodup :=
      (List.nodup_append.2 ⟨hstaged'.queue, hstaged'.running,
        fun t ht a ha hta => hstaged'.waiting t ht (hta ▸ ha)⟩).filter _
    exact h.arrivals_nodup.append hnodup fun t ht ha => h.arrivals_past t ht (harrived t ha)
  · intro t ht
    refine Nat.lt_of_lt_of_le ?_ hle
    exact (List.mem_append.1 ht).elim (h.arrivals_lt t) fun ht => hlt t (hdelayed t (harrived t ht))
  · intro t ht hdelay
    rcases List.mem_append.1 ht with ht | ht
    · rcases turn.mem_delayed hdelay with hdelay | rfl
      · exact h.arrivals_past t ht hdelay
      · exact Nat.lt_irrefl _ (h.arrivals_lt t ht)
    · obtain ⟨hq, hr⟩ := hstaged'.delayed t hdelay
      exact (List.mem_append.1 (mem_lacking.1 ht).1).elim hq hr
  · intro t ht
    refine Nat.lt_of_lt_of_le ?_ hle
    exact (List.mem_append.1 ht).elim (h.withdrawals_lt t) fun ht => hlt t (hqueue t (hwaited t ht))
  · intro t ht htask
    rcases List.mem_append.1 ht with ht | ht
    · rcases hold t htask with hin | rfl
      · exact h.withdrawals_ended t ht hin
      · exact Nat.lt_irrefl _ (h.withdrawals_lt t ht)
    · obtain ⟨hin, hout⟩ := mem_lacking.1 ht
      rw [tasks_eq, List.mem_append] at htask
      rcases htask with htask | htask
      · rcases turn.mem_delayed htask with hdelay | rfl
        · exact (hstaged.delayed t hdelay).1 hin
        · exact hnext (hqueue t hin)
      · exact hout htask

end Dispatcher

namespace Relay
open Dispatcher (arrived granted withdrawn)
variable {κ ρ : Type} [DecidableEq κ] {r : Relay κ ρ}

/-- An event changes the stages at most once. -/
theorem turn_step (r : Relay κ ρ) (event : Event κ ρ) :
    Dispatcher.Turn r.pool.nextTask r.pool.dispatcher (r.step event).pool.dispatcher ∧
      r.pool.nextTask ≤ (r.step event).pool.nextTask := by
  cases event with
  | begin e delay =>
    simp only [step, begin]
    split
    · exact ⟨.spawn delay, Nat.le_succ _⟩
    · exact ⟨.still, Nat.le_refl _⟩
  | record t =>
    simp only [step, record]
    split
    · split <;> exact ⟨.still, Nat.le_refl _⟩
    · exact ⟨.still, Nat.le_refl _⟩
  | deliver t =>
    simp only [step, deliver]
    split <;> exact ⟨.still, Nat.le_refl _⟩
  | drop e =>
    simp only [step, drop]
    split <;> exact ⟨.still, Nat.le_refl _⟩
  | schedule delay => exact ⟨.spawn delay, Nat.le_succ _⟩
  | poll t =>
    refine ⟨?_, Nat.le_of_eq (r.pool.tasks_poll t).2.symm⟩
    show Dispatcher.Turn _ _ (r.pool.poll t).dispatcher
    rcases r.pool.dispatcher_poll t with hd | ⟨ht, delay, skip, hd⟩ | hd <;> rw [hd]
    · exact .still
    · exact .start ht delay skip
    · exact .wake t
  | expire t => exact ⟨.wake t, Nat.le_refl _⟩
  | complete t result =>
    simp only [step, complete]
    split
    · split <;> exact ⟨.still, Nat.le_refl _⟩
    · exact ⟨.still, Nat.le_refl _⟩
  | stop t =>
    simp only [step, stop]
    split <;> exact ⟨.stop t, Nat.le_refl _⟩
  | _ => exact ⟨.still, Nat.le_refl _⟩

/-- What a view of each change of the stages shows in a run. -/
def shown (view : Dispatcher → Dispatcher → List Nat) (r : Relay κ ρ) : List (Event κ ρ) → List Nat
  | [] => []
  | event :: rest => view r.pool.dispatcher (r.step event).pool.dispatcher ++ shown view (r.step event) rest

/-- The tasks in the order in which they finished their delay. -/
def arrivals (r : Relay κ ρ) (events : List (Event κ ρ)) : List Nat :=
  r.shown arrived events

/-- The tasks in the order in which they got a permit. -/
def grants (r : Relay κ ρ) (events : List (Event κ ρ)) : List Nat :=
  r.shown granted events

/-- The tasks that ended while they waited for a permit. -/
def withdrawals (r : Relay κ ρ) (events : List (Event κ ρ)) : List Nat :=
  r.shown withdrawn events

theorem Coherent.lt_of_mem_tasks (h : r.Coherent) {t : Nat} (ht : t ∈ r.pool.dispatcher.tasks) : t < r.pool.nextTask :=
  h.staged.task_lt t (h.staged.stages.mem_iff.1 ht)

theorem fair_run (h : r.Coherent) {permits : Nat} (hfair : r.pool.dispatcher.Fair permits) (events : List (Event κ ρ)) :
    (r.run events).pool.dispatcher.Fair permits := by
  induction events generalizing r with
  | nil => exact hfair
  | cons event rest ih =>
    have hnext : r.pool.nextTask ∉ r.pool.dispatcher.tasks := fun ht => Nat.lt_irrefl _ (h.lt_of_mem_tasks ht)
    exact ih (h.step event) (hfair.turn (r.turn_step event).1 hnext)

theorem orderly_run (h : r.Coherent) {permits : Nat} (hfair : r.pool.dispatcher.Fair permits)
    {came got left : List Nat} (horderly : r.pool.dispatcher.Orderly r.pool.nextTask came got left)
    (events : List (Event κ ρ)) :
    (r.run events).pool.dispatcher.Orderly (r.run events).pool.nextTask (came ++ r.arrivals events)
      (got ++ r.grants events) (left ++ r.withdrawals events) := by
  induction events generalizing r came got left with
  | nil => simpa [arrivals, grants, withdrawals, shown, run] using horderly
  | cons event rest ih =>
    have hnext : r.pool.nextTask ∉ r.pool.dispatcher.tasks := fun ht => Nat.lt_irrefl _ (h.lt_of_mem_tasks ht)
    obtain ⟨hturn, hle⟩ := r.turn_step event
    have hstep := horderly.turn hfair hturn (fun t => h.lt_of_mem_tasks) hle
    have hrest := ih (h.step event) (hfair.turn hturn hnext) hstep
    simp only [List.append_assoc] at hrest
    exact hrest

/-- In every reachable state the permits in use and the free ones are as many as the dispatcher was built with, at least
one. A task that has not finished its delay neither waits for a permit nor holds one, and nobody waits while one is
free. The tasks that got a permit so far, followed by those that wait, are the tasks that finished their delay, in that
order, without those that ended while they waited. Only tasks that have not ended hold a permit, each one, so a task
that stops, whatever the reason, leaves none behind. -/
theorem permits_run (l : Limits) (events : List (Event κ ρ)) :
    let start : Relay κ ρ := ofLimits l
    let r := start.run events
    let d := r.pool.dispatcher
    d.running.length + d.free = max 1 l.maxConcurrent ∧
    (∀ t ∈ d.delayed, t ∉ d.queue ∧ t ∉ d.running) ∧
    (d.queue ≠ [] → d.free = 0) ∧
    (start.grants events ++ d.queue = (start.arrivals events).filter (· ∉ start.withdrawals events) ∧
      (start.arrivals events).Nodup ∧ ∀ t ∈ start.withdrawals events, t ∉ r.pool.tasks.keys) ∧
    (d.running.Nodup ∧ ∀ t ∈ d.running, t ∈ r.pool.tasks.keys) ∧
    (∀ t, t ∉ (r.step (.stop t)).pool.dispatcher.running) ∧
    (r.pool.tasks = [] → d.free = max 1 l.maxConcurrent) := by
  intro start r d
  have hstart : start.Coherent := .ofLimits l
  have hfair₀ : start.pool.dispatcher.Fair (max 1 l.maxConcurrent) := .ofLimits l
  have hr : r.Coherent := hstart.run events
  have hfair : d.Fair (max 1 l.maxConcurrent) := fair_run hstart hfair₀ events
  have horderly₀ : start.pool.dispatcher.Orderly start.pool.nextTask [] [] [] := by
    constructor <;> simp [start, ofLimits, Pool.ofLimits, Dispatcher.ofLimits]
  have horderly := orderly_run hstart hfair₀ horderly₀ events
  have hkeys : ∀ t, t ∈ d.tasks ↔ t ∈ r.pool.tasks.keys := fun t => hr.staged.stages.mem_iff
  refine ⟨hfair.conserved, hfair.staged.delayed, hfair.working, ⟨horderly.order, horderly.arrivals_nodup, ?_⟩,
    ⟨hfair.staged.running, ?_⟩, ?_, ?_⟩
  · exact fun t ht htask => horderly.withdrawals_ended t ht ((hkeys t).2 htask)
  · exact fun t ht => (hkeys t).1 (Dispatcher.mem_tasks_of_running ht)
  · intro t ht
    have hstop : (r.step (.stop t)).pool.dispatcher = d.stop t := by
      simp only [step, stop]
      split <;> rfl
    rw [hstop] at ht
    have hmem := (Dispatcher.tasks_stop hfair.nodup t).mem_iff.1 (Dispatcher.mem_tasks_of_running ht)
    exact hfair.nodup.not_mem_erase hmem
  · intro hnone
    have hnil : d.running = [] := List.eq_nil_iff_forall_not_mem.2 fun t ht => by
      have hkey := (hkeys t).1 (Dispatcher.mem_tasks_of_running ht)
      rw [hnone] at hkey
      cases hkey
    have hconserved := hfair.conserved
    rw [hnil] at hconserved
    simpa using hconserved

end Relay

end Entitle.Flight
