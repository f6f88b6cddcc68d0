import PhalaCore.Prb.Dispatcher

/-!
# The sequencer among its tasks

`master_loop` does not run alone. Producers post `SyncMessages` and `RemoveSender`, the height
tracker posts `CurrentHeight`, and the tasks the loop spawns post back into its queue:
`do_update_next_sequence_and_sync_messages` a `DoSyncMessages` with what the node answered,
`do_sync_message` a `Completed` with the submission's result. `World` is the loop with the tasks
it has spawned and not yet heard from. The queue is unbounded and drained by the one loop, so
the loop receives events in the order they are posted: a run of the world is a sequence of
events the loop can really receive, and any task may finish first.

* `World.run_dispatcher`: along a run of the world the loop's state is `Dispatcher.run` of the
  events it received, so every law proved of `Dispatcher.run` holds of the world.
-/

namespace PhalaCore.Prb

variable {σ : Type} [DecidableEq σ]

/-- A spawned task that has not posted its event yet. -/
inductive Task (σ : Type)
  /-- A `do_update_next_sequence_and_sync_messages` task. -/
  | refresh (workerId : String) (poolId : Nat) (sender : σ) (messages : List SignedMessage)
  /-- A `do_sync_message` task. -/
  | submit (workerId : String) (poolId : Nat) (sender : σ) (message : SignedMessage)
  deriving DecidableEq, Repr

/-- The task an effect spawns, if any. -/
def Effect.task : Effect σ → Option (Task σ)
  | .updateNextSequence w p s ms => some (.refresh w p s ms)
  | .syncMessage w p s m => some (.submit w p s m)
  | .workerUpdate _ _ => none

/-- How the next event reaches the loop. -/
inductive Arrival (σ : Type)
  /-- A producer or the height tracker posts an event. -/
  | post (e : MessagesEvent σ)
  /-- The `i`-th pending task, a refresh, got `next_sequence` from the node (`none` when the
  RPC failed or no node was available). -/
  | refreshed (i : Nat) (nextSequence : Option Nat)
  /-- The `i`-th pending task, a submission, got its result. -/
  | submitted (i : Nat) (result : SyncResult)
  deriving DecidableEq, Repr

/-- The events producers and the height tracker post. -/
def MessagesEvent.external : MessagesEvent σ → Bool
  | .syncMessages .. | .removeSender _ | .currentHeight _ => true
  | _ => false

/-- The loop with the tasks it is waiting for. -/
structure World (σ : Type) where
  dispatcher : Dispatcher σ
  tasks : List (Task σ)

namespace World

def init : World σ := ⟨.init, []⟩

/-- The event that arrives and the tasks left waiting; `none` if the arrival is impossible. -/
def arrive (w : World σ) : Arrival σ → Option (MessagesEvent σ × List (Task σ))
  | .post e => if e.external then some (e, w.tasks) else none
  | .refreshed i n =>
    match w.tasks[i]? with
    | some (.refresh wid p s ms) => some (.doSyncMessages wid p s ms n, w.tasks.eraseIdx i)
    | _ => none
  | .submitted i r =>
    match w.tasks[i]? with
    | some (.submit wid _ s m) => some (.completed wid s m.sequence r, w.tasks.eraseIdx i)
    | _ => none

/-- The loop handles the event that arrived; the tasks it spawns join the waiting ones. -/
def step (w : World σ) (a : Arrival σ) : Option (World σ × MessagesEvent σ) :=
  (w.arrive a).map fun et =>
    (⟨(w.dispatcher.handle et.1).1, et.2 ++ (w.dispatcher.handle et.1).2.filterMap Effect.task⟩,
      et.1)

/-- A run of the world: its last state and the events the loop received. -/
def run (w : World σ) : List (Arrival σ) → Option (World σ × List (MessagesEvent σ))
  | [] => some (w, [])
  | a :: as =>
    (w.step a).bind fun we => (we.1.run as).map fun r => (r.1, we.2 :: r.2)

theorem step_dispatcher {w w' : World σ} {a : Arrival σ} {e : MessagesEvent σ}
    (h : w.step a = some (w', e)) : w'.dispatcher = (w.dispatcher.handle e).1 := by
  unfold step at h
  cases ha : w.arrive a with
  | none => simp [ha] at h
  | some et =>
    simp only [ha, Option.map_some', Option.some.injEq, Prod.mk.injEq] at h
    obtain ⟨rfl, rfl⟩ := h
    rfl

/-- The loop's state at the end of a run of the world is `Dispatcher.run` of its events. -/
theorem run_dispatcher {w w' : World σ} {as : List (Arrival σ)} {evs : List (MessagesEvent σ)}
    (h : w.run as = some (w', evs)) : w'.dispatcher = w.dispatcher.run evs := by
  induction as generalizing w evs with
  | nil =>
    simp only [run, Option.some.injEq, Prod.mk.injEq] at h
    obtain ⟨rfl, rfl⟩ := h
    rfl
  | cons a as ih =>
    simp only [run] at h
    cases hs : w.step a with
    | none => simp [hs] at h
    | some we =>
      cases hr : we.1.run as with
      | none => simp [hs, hr] at h
      | some r =>
        simp only [hs, hr, Option.some_bind, Option.map_some', Option.some.injEq,
          Prod.mk.injEq] at h
        obtain ⟨rfl, rfl⟩ := h
        rw [ih hr, step_dispatcher hs]
        rfl

end World

end PhalaCore.Prb
