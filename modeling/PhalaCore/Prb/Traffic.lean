import PhalaCore.Prb.Flight
import Mathlib.Algebra.Order.Ring.Nat

/-!
# The loop's own traffic

Every event a task posts back into the queue consumes some of the work the producers posted: a
`SyncMessages` of `k` messages spawns at most one refresh carrying at most those `k` messages,
whose `DoSyncMessages` spawns at most one submission per message, and a `Completed` spawns no task
(`work_step`). So in every run of the world, in any interleaving and whatever the node answers,
the events the loop receives from its tasks, together with what the tasks in flight can still
post, are at most `k + 1` per `SyncMessages` posted (`task_events_bounded`): the tasks never feed
each other without end, and once producers stop the loop falls quiet.
-/

namespace PhalaCore.Prb

variable {σ : Type} [DecidableEq σ]

/-- The events a task can still cause: a refresh its `DoSyncMessages` and a `Completed` for each
message it carries, a submission its `Completed`. -/
def Task.work : Task σ → Nat
  | .refresh _ _ _ ms => ms.length + 1
  | .submit .. => 1

/-- The events the tasks in flight can still cause. -/
def World.work (w : World σ) : Nat := (w.tasks.map Task.work).sum

/-- The events from tasks a posted event can cause. -/
def MessagesEvent.work : MessagesEvent σ → Nat
  | .syncMessages _ _ _ ms => ms.length + 1
  | _ => 0

theorem sum_map_eraseIdx {α : Type} (f : α → Nat) {l : List α} {i : Nat} {t : α}
    (h : l[i]? = some t) : (l.map f).sum = ((l.eraseIdx i).map f).sum + f t := by
  induction l generalizing i with
  | nil => cases h
  | cons a l ih =>
    cases i with
    | zero =>
      obtain rfl := Option.some.inj ((List.getElem?_cons_zero).symm.trans h)
      simp only [List.map_cons, List.sum_cons, List.eraseIdx_cons_zero]
      omega
    | succ i =>
      simp only [List.map_cons, List.sum_cons, List.eraseIdx_cons_succ,
        ih ((List.getElem?_cons_succ).symm.trans h)]
      omega

namespace SenderContext

theorem syncBatch_length_le (c : SenderContext) (h : Nat) (ms : List SignedMessage) :
    (c.syncBatch h ms).2.length ≤ ms.length := by
  induction ms generalizing c with
  | nil => exact le_rfl
  | cons m ms ih =>
    have := ih (c.syncOne h m).1
    simp only [syncBatch, List.length_cons]
    split
    · simp only [List.length_cons]
      omega
    · omega

end SenderContext

namespace Dispatcher

omit [DecidableEq σ] in
/-- Submissions are one task each. -/
theorem work_submissions (w : String) (p : Nat) (s : σ) (ms : List SignedMessage) :
    (((ms.map (Effect.syncMessage w p s)).filterMap Effect.task).map Task.work).sum =
      ms.length := by
  induction ms with
  | nil => rfl
  | cons m ms ih =>
    simp only [List.map_cons, List.filterMap_cons, Effect.task, List.sum_cons, ih, Task.work,
      List.length_cons]
    omega

/-- The work of the tasks a turn spawns. -/
def spawnedWork (d : Dispatcher σ) (e : MessagesEvent σ) : Nat :=
  (((d.handle e).2.filterMap Effect.task).map Task.work).sum

/-- A posted event spawns at most its own work; a `DoSyncMessages` of `k` messages spawns at
most `k` submissions, and a `Completed` nothing. -/
theorem spawnedWork_le (d : Dispatcher σ) (e : MessagesEvent σ) :
    d.spawnedWork e ≤ e.work + match e with
      | .doSyncMessages _ _ _ ms _ => ms.length
      | _ => 0 := by
  unfold spawnedWork
  cases e with
  | syncMessages w p s ms =>
    simp only [handle, syncMessages, MessagesEvent.work]
    split_ifs
    · simp
    · simp only [List.filterMap_cons, Effect.task, List.filterMap_nil, List.map_cons, Task.work,
        List.map_nil, List.sum_cons, List.sum_nil]
      split <;> simp [List.length_filter_le]
  | doSyncMessages w p s ms n =>
    simp only [handle, doSyncMessages, MessagesEvent.work]
    split
    · simp
    · rw [work_submissions, Nat.zero_add]
      exact SenderContext.syncBatch_length_le _ _ _
  | completed w s q r =>
    simp only [handle, completed]
    split
    · simp
    · split
      · simp
      · cases r <;> simp [Effect.task]
  | removeSender s => simp [handle]
  | currentHeight h => simp [handle]

end Dispatcher

namespace World

/-- A posted event adds at most its work; an event from a task uses up at least one. -/
theorem work_step {w w' : World σ} {a : Arrival σ} {e : MessagesEvent σ}
    (h : w.step a = some (w', e)) :
    w'.work + (if e.external then 0 else 1) ≤ w.work + e.work := by
  obtain ⟨rest, ha, rfl⟩ := step_eq h
  have hsp := w.dispatcher.spawnedWork_le e
  simp only [work, List.map_append, List.sum_append]
  change (rest.map Task.work).sum + w.dispatcher.spawnedWork e + _ ≤ _
  cases a with
  | post e' =>
    simp only [arrive] at ha
    split_ifs at ha with hext
    obtain ⟨rfl, rfl⟩ := Prod.mk.inj (Option.some.inj ha)
    -- a posted event is no `DoSyncMessages`, so it spawns at most its own work
    have hbatch : (match e' with | .doSyncMessages _ _ _ ms _ => ms.length | _ => 0) = 0 := by
      cases e' <;> first | rfl | cases hext
    simp only [hext, if_true]
    omega
  | refreshed i _ | submitted i _ =>
    -- the task that reported leaves, and what it spawns is less than it carried
    simp only [arrive] at ha
    split at ha
    next _ _ _ _ hi =>
      obtain ⟨rfl, rfl⟩ := Prod.mk.inj (Option.some.inj ha)
      have := sum_map_eraseIdx Task.work hi
      simp only [Task.work, MessagesEvent.work, MessagesEvent.external, Bool.false_eq_true,
        if_false] at hsp this ⊢
      omega
    next => cases ha

/-- Over a run: the events from tasks plus the work left in flight are at most the work there
was plus the work posted. -/
theorem work_run {w w' : World σ} {as : List (Arrival σ)} {evs : List (MessagesEvent σ)}
    (h : w.run as = some (w', evs)) :
    w'.work + (evs.filter fun e => !e.external).length ≤ w.work + (evs.map MessagesEvent.work).sum := by
  induction as generalizing w evs with
  | nil =>
    simp only [run, Option.some.injEq, Prod.mk.injEq] at h
    obtain ⟨rfl, rfl⟩ := h
    simp
  | cons a as ih =>
    obtain ⟨w₁, e, evs', hstep, hrun, rfl⟩ := run_cons h
    have h₁ := work_step hstep
    have h₂ := ih hrun
    cases he : e.external <;> simp only [he, List.filter_cons, List.map_cons, List.sum_cons,
      Bool.not_false, Bool.not_true, Bool.false_eq_true, if_true, if_false,
      List.length_cons] at h₁ h₂ ⊢ <;> omega

end World

/-- In every run of the world, in any order in which the tasks finish and whatever the node
answers: the events the loop receives from its own tasks, plus the events the tasks still in
flight can post, number at most `k + 1` for each `SyncMessages` of `k` messages posted. -/
theorem task_events_bounded (as : List (Arrival σ)) (w : World σ) (evs : List (MessagesEvent σ))
    (h : World.init.run as = some (w, evs)) :
    (evs.filter fun e => !e.external).length + w.work ≤ (evs.map MessagesEvent.work).sum := by
  have := World.work_run h
  rw [show (World.init : World σ).work = 0 from rfl, Nat.zero_add] at this
  omega

/-- One message posted, refreshed and submitted: its `DoSyncMessages` and `Completed` use up the
two events its `SyncMessages` allows. -/
theorem completed_run_within_bound :
    ∃ w evs, World.init.run World.completedRun = some (w, evs) ∧
      (evs.filter fun e => !e.external).length + w.work ≤ (evs.map MessagesEvent.work).sum :=
  ⟨_, _, rfl, task_events_bounded World.completedRun _ _ rfl⟩

end PhalaCore.Prb
