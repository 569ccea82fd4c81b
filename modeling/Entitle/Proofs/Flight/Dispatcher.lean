import Entitle.Flight.Dispatcher
import Mathlib.Data.List.Nodup
import Mathlib.Data.List.Perm.Basic

/-!
# Stages

The tasks of a dispatcher, over all stages: `Dispatcher.tasks`. Every operation is one statement about this
list up to order, so a task that is in it once is in one stage only, and one that has ended is in none.
-/

namespace Entitle.Flight.Dispatcher
variable {d : Dispatcher} {t : Nat}

/-- The tasks that have not ended, by stage. -/
def tasks (d : Dispatcher) : List Nat :=
  d.fresh.map Prod.fst ++ (d.sleeping ++ (d.queue ++ d.running))

theorem mem_tasks :
    t ∈ d.tasks ↔ t ∈ d.fresh.map Prod.fst ∨ t ∈ d.sleeping ∨ t ∈ d.queue ∨ t ∈ d.running := by
  simp [tasks]

theorem mem_tasks_of_running (h : t ∈ d.running) : t ∈ d.tasks :=
  mem_tasks.2 (.inr (.inr (.inr h)))

theorem count_tasks (d : Dispatcher) (t : Nat) :
    d.tasks.count t =
      (d.fresh.map Prod.fst).count t + d.sleeping.count t + d.queue.count t + d.running.count t := by
  simp only [tasks, List.count_append]
  omega

theorem tasks_spawn (t delay : Nat) : (d.spawn t delay).tasks.Perm (t :: d.tasks) := by
  rw [List.perm_iff_count]
  intro a
  simp only [count_tasks, List.count_cons, spawn, List.map_append, List.count_append, List.map_cons, List.map_nil,
    List.count_nil]
  omega

theorem tasks_ready (t : Nat) : (d.ready t).tasks.Perm (t :: d.tasks) := by
  rw [List.perm_iff_count]
  intro a
  unfold ready
  split <;> simp only [count_tasks, List.count_cons, List.count_append, List.count_nil] <;> omega

theorem tasks_release : d.release.tasks.Perm d.tasks := by
  rw [List.perm_iff_count]
  intro a
  unfold release
  split
  · simp only [count_tasks]
  · next t queue hq =>
    simp only [count_tasks, hq, List.count_cons, List.count_append, List.count_nil]
    omega

theorem count_forget (fresh : List (Nat × Nat)) (t a : Nat) :
    ((fresh.filter (·.1 ≠ t)).map Prod.fst).count a = if a = t then 0 else (fresh.map Prod.fst).count a := by
  induction fresh with
  | nil => simp
  | cons entry rest ih =>
    by_cases he : entry.1 = t
    · rw [List.filter_cons_of_neg (by simpa using he), ih]
      split
      · rfl
      · next ha =>
        have : (entry.1 == a) = false := by simpa [he] using Ne.symm ha
        simp [List.count_cons, this]
    · rw [List.filter_cons_of_pos (by simpa using he), List.map_cons, List.count_cons, ih, List.map_cons,
        List.count_cons]
      split
      · next ha =>
        have : (entry.1 == a) = false := by simpa [ha] using he
        simp [this]
      · rfl

/-- A task in one stage is in no other. -/
theorem count_stage (h : d.tasks.Nodup) (t : Nat) :
    (d.fresh.map Prod.fst).count t + d.sleeping.count t + d.queue.count t + d.running.count t ≤ 1 :=
  count_tasks d t ▸ List.nodup_iff_count.1 h t

theorem tasks_start (h : d.tasks.Nodup) {delay : Nat} {skip : Bool} (ht : t ∈ d.fresh.map Prod.fst) :
    (d.start t delay skip).tasks.Perm d.tasks := by
  have hone := count_stage h t
  have hin := List.one_le_count_iff.2 ht
  have hkeep : (t :: Dispatcher.tasks { d with fresh := d.fresh.filter (·.1 ≠ t) }).Perm d.tasks := by
    rw [List.perm_iff_count]
    intro a
    simp only [count_tasks, List.count_cons, count_forget]
    by_cases ha : a = t
    · subst ha
      simp only [if_true, beq_self_eq_true]
      omega
    · simp [ha, Ne.symm ha]
  unfold start
  split
  · exact (tasks_ready t).trans hkeep
  · refine List.Perm.trans ?_ hkeep
    rw [List.perm_iff_count]
    intro a
    simp only [count_tasks, List.count_cons, List.count_append, List.count_nil]
    omega

theorem tasks_wake (d : Dispatcher) (t : Nat) : (d.wake t).tasks.Perm d.tasks := by
  unfold wake
  split
  · next ht =>
    refine (tasks_ready t).trans ?_
    have hin := List.one_le_count_iff.2 ht
    rw [List.perm_iff_count]
    intro a
    simp only [count_tasks, List.count_cons, List.count_erase]
    by_cases ha : t = a
    · subst ha
      simp only [beq_self_eq_true, if_true]
      omega
    · simp [ha]
  · exact .refl _

theorem tasks_stop (h : d.tasks.Nodup) (t : Nat) : (d.stop t).tasks.Perm (d.tasks.erase t) := by
  have hone := count_stage h t
  unfold stop
  split
  · next ht =>
    refine tasks_release.trans ?_
    have hin := List.one_le_count_iff.2 ht
    rw [List.perm_iff_count]
    intro a
    simp only [count_tasks, List.count_erase]
    by_cases ha : t = a
    · subst ha
      simp only [beq_self_eq_true, if_true]
      omega
    · simp [ha]
  · next ht =>
    have hnot := List.count_eq_zero_of_not_mem ht
    rw [List.perm_iff_count]
    intro a
    simp only [count_tasks, List.count_erase, count_forget]
    by_cases ha : t = a
    · subst ha
      simp only [beq_self_eq_true, if_true]
      omega
    · simp [ha, Ne.symm ha]

/-! ### Who runs goes on -/

theorem mem_running_ready (ht : t ∈ d.running) (t' : Nat) : t ∈ (d.ready t').running := by
  unfold ready
  split
  · exact ht
  · exact List.mem_append_left _ ht

theorem mem_running_release (ht : t ∈ d.running) : t ∈ d.release.running := by
  unfold release
  split
  · exact ht
  · exact List.mem_append_left _ ht

theorem mem_running_start (ht : t ∈ d.running) (t' delay : Nat) (skip : Bool) :
    t ∈ (d.start t' delay skip).running := by
  unfold start
  split
  · refine mem_running_ready ?_ t'
    exact ht
  · exact ht

theorem mem_running_wake (ht : t ∈ d.running) (t' : Nat) : t ∈ (d.wake t').running := by
  unfold wake
  split
  · refine mem_running_ready ?_ t'
    exact ht
  · exact ht

theorem mem_running_stop (ht : t ∈ d.running) {t' : Nat} (hne : t' ≠ t) : t ∈ (d.stop t').running := by
  unfold stop
  split
  · refine mem_running_release ?_
    exact (List.mem_erase_of_ne (Ne.symm hne)).2 ht
  · exact ht

end Entitle.Flight.Dispatcher
