import PhalaCore.Prb.Flight

/-!
# Senders do not interfere

`master_loop` keeps one `SenderContext` per sender in one map, and every turn works on the
context of the event's sender. What it keeps and spawns for a sender `s` therefore depends only
on the events of `s` and the height updates:

* `handle_of_not_concerns`: a turn on another sender's event leaves the context of `s` and the
  height as they were, and spawns nothing for `s`;
* `handle_congr`: a turn on an event of `s` or a height update, in two states that agree on `s`
  and the height, leaves them agreeing and starts the same things;
* `senders_independent`: so over every run, the context of `s` at the end and the refreshes and
  submissions spawned for `s`, in order, are those of the run on the events of `s` and the height
  updates alone, whatever events of other senders are interleaved;
* `no_context_until_refreshed`: a sender without a context, after `RemoveSender` or before its
  first refresh, gets one only from a refresh that brought a node sequence; until then none of
  its messages is submitted.
-/

namespace PhalaCore.Prb

variable {σ : Type} [DecidableEq σ]

/-- Whether the loop's turn on an event works on the context of `s`: an event of `s`, or a
height update, which every sender sees. -/
def MessagesEvent.concerns (s : σ) : MessagesEvent σ → Bool
  | .syncMessages _ _ s' _ | .doSyncMessages _ _ s' _ _ | .completed _ s' _ _ | .removeSender s' =>
    s' = s
  | .currentHeight _ => true

/-- Whether an effect spawns a task for `s`: a refresh of its `next_sequence` or a submission. -/
def Effect.spawnsFor (s : σ) : Effect σ → Bool
  | .updateNextSequence _ _ s' _ | .syncMessage _ _ s' _ => s' = s
  | .workerUpdate _ _ => false

namespace Dispatcher

/-- Two states agree on `s`: the same context of `s` and the same height. -/
def AgreeOn (s : σ) (d₁ d₂ : Dispatcher σ) : Prop :=
  d₁.senderContexts.lookup s = d₂.senderContexts.lookup s ∧ d₁.currentHeight = d₂.currentHeight

theorem AgreeOn.trans {s : σ} {d₁ d₂ d₃ : Dispatcher σ} (h₁ : AgreeOn s d₁ d₂)
    (h₂ : AgreeOn s d₂ d₃) : AgreeOn s d₁ d₃ :=
  ⟨h₁.1.trans h₂.1, h₁.2.trans h₂.2⟩

/-- A turn on another sender's event keeps the context of `s` and the height, and spawns nothing
for `s`. -/
theorem handle_of_not_concerns (d : Dispatcher σ) {e : MessagesEvent σ} {s : σ}
    (he : e.concerns s = false) :
    AgreeOn s (d.handle e).1 d ∧ (d.handle e).2.filter (Effect.spawnsFor s) = [] := by
  cases e with
  | syncMessages w p s' ms =>
    have hs : s' ≠ s := by simpa [MessagesEvent.concerns] using he
    refine ⟨⟨rfl, rfl⟩, ?_⟩
    simp only [handle, syncMessages]
    split_ifs <;> simp [Effect.spawnsFor, hs]
  | doSyncMessages w p s' ms n =>
    have hs : s' ≠ s := by simpa [MessagesEvent.concerns] using he
    simp only [handle, doSyncMessages]
    split
    · exact ⟨⟨rfl, rfl⟩, rfl⟩
    · exact ⟨⟨AList.lookup_insert_ne (Ne.symm hs), rfl⟩, by simp [Effect.spawnsFor, hs]⟩
  | completed w s' q r =>
    have hs : s' ≠ s := by simpa [MessagesEvent.concerns] using he
    simp only [handle, completed]
    split
    · exact ⟨⟨rfl, rfl⟩, rfl⟩
    · split
      · exact ⟨⟨rfl, rfl⟩, rfl⟩
      · refine ⟨⟨AList.lookup_insert_ne (Ne.symm hs), rfl⟩, ?_⟩
        split <;> rfl
  | removeSender s' =>
    have hs : s' ≠ s := by simpa [MessagesEvent.concerns] using he
    exact ⟨⟨AList.lookup_erase_ne (Ne.symm hs), rfl⟩, rfl⟩
  | currentHeight h => cases he

/-- A turn on an event of `s` or a height update depends on the state only through the context
of `s` and the height. -/
theorem handle_congr {d₁ d₂ : Dispatcher σ} {s : σ} (hag : AgreeOn s d₁ d₂) (e : MessagesEvent σ)
    (he : e.concerns s = true) :
    AgreeOn s (d₁.handle e).1 (d₂.handle e).1 ∧ (d₁.handle e).2 = (d₂.handle e).2 := by
  obtain ⟨hl, hh⟩ := hag
  cases e with
  | syncMessages w p s' ms =>
    obtain rfl : s' = s := by simpa [MessagesEvent.concerns] using he
    exact ⟨⟨hl, hh⟩, by simp only [handle, syncMessages, hl, hh]⟩
  | doSyncMessages w p s' ms n =>
    obtain rfl : s' = s := by simpa [MessagesEvent.concerns] using he
    have hc : d₁.contextFor s' n = d₂.contextFor s' n := by simp only [contextFor, hl]
    simp only [handle, doSyncMessages, hc, hh]
    split
    · exact ⟨⟨hl, hh⟩, rfl⟩
    · exact ⟨⟨by simp only [AList.lookup_insert], rfl⟩, rfl⟩
  | completed w s' q r =>
    obtain rfl : s' = s := by simpa [MessagesEvent.concerns] using he
    simp only [handle, completed, hl]
    split
    · exact ⟨⟨hl, hh⟩, rfl⟩
    · split
      · exact ⟨⟨hl, hh⟩, rfl⟩
      · exact ⟨⟨by simp only [AList.lookup_insert], hh⟩, rfl⟩
  | removeSender s' =>
    obtain rfl : s' = s := by simpa [MessagesEvent.concerns] using he
    exact ⟨⟨by simp only [handle, AList.lookup_erase], hh⟩, rfl⟩
  | currentHeight h => exact ⟨⟨hl, rfl⟩, rfl⟩

/-- Runs from states that agree on `s`, one on any events and one on those that concern `s`,
end agreeing on `s` and spawn the same tasks for `s`, in order. -/
theorem run_agreeOn {d₁ d₂ : Dispatcher σ} {s : σ} (hag : AgreeOn s d₁ d₂)
    (evs : List (MessagesEvent σ)) :
    AgreeOn s (d₁.run evs) (d₂.run (evs.filter (·.concerns s))) ∧
      (d₁.runEffects evs).filter (Effect.spawnsFor s) =
        (d₂.runEffects (evs.filter (·.concerns s))).filter (Effect.spawnsFor s) := by
  induction evs generalizing d₁ d₂ with
  | nil => exact ⟨hag, rfl⟩
  | cons e evs ih =>
    by_cases he : e.concerns s = true
    · obtain ⟨hag', heff⟩ := handle_congr hag e he
      obtain ⟨hrun, hspawn⟩ := ih hag'
      rw [List.filter_cons_of_pos he]
      exact ⟨hrun, by simp only [runEffects, List.filter_append, heff, hspawn]⟩
    · have he' : e.concerns s = false := by simpa using he
      obtain ⟨hag', hnone⟩ := handle_of_not_concerns d₁ he'
      obtain ⟨hrun, hspawn⟩ := ih (hag'.trans hag)
      rw [List.filter_cons_of_neg he]
      exact ⟨hrun, by simp only [runEffects, List.filter_append, hnone, hspawn, List.nil_append]⟩

end Dispatcher

/-- Over every run of `master_loop`, whatever events of other senders are interleaved: the
context the loop keeps for `s` at the end, and the refreshes and submissions it spawns for `s`,
in order, are those of the run on the events of `s` and the height updates alone. -/
theorem senders_independent (d : Dispatcher σ) (evs : List (MessagesEvent σ)) (s : σ) :
    (d.run evs).senderContexts.lookup s =
        (d.run (evs.filter (·.concerns s))).senderContexts.lookup s ∧
      (d.runEffects evs).filter (Effect.spawnsFor s) =
        (d.runEffects (evs.filter (·.concerns s))).filter (Effect.spawnsFor s) := by
  obtain ⟨⟨hl, -⟩, hspawn⟩ :=
    Dispatcher.run_agreeOn (show Dispatcher.AgreeOn s d d from ⟨rfl, rfl⟩) evs
  exact ⟨hl, hspawn⟩

/-! ## A sender without a context -/

namespace Dispatcher

/-- A turn that spawns nothing for `s` submits no message of `s`. -/
theorem submissions_eq_zero_of_filter {effects : List (Effect σ)} {s : σ}
    (h : effects.filter (Effect.spawnsFor s) = []) (q : Nat) : submissions s q effects = 0 := by
  refine List.countP_eq_zero.2 fun e he hsend => ?_
  have hspawn : Effect.spawnsFor s e = true := by
    cases e <;> simp_all [Effect.sends, Effect.spawnsFor]
  exact List.filter_eq_nil_iff.1 h e he hspawn

/-- Without a context, a turn other than a refresh of `s` that brought a node sequence leaves `s`
without one and submits nothing of it. -/
theorem handle_of_no_context (d : Dispatcher σ) {e : MessagesEvent σ} {s : σ}
    (hd : d.senderContexts.lookup s = none)
    (he : ∀ w p ms n, e ≠ .doSyncMessages w p s ms (some n)) :
    (d.handle e).1.senderContexts.lookup s = none ∧ ∀ q, submissions s q (d.handle e).2 = 0 := by
  by_cases hc : e.concerns s = true
  · cases e with
    | syncMessages w p s' ms =>
      refine ⟨hd, fun q => ?_⟩
      simp only [handle, syncMessages]
      split_ifs <;> rfl
    | doSyncMessages w p s' ms n =>
      obtain rfl : s' = s := by simpa [MessagesEvent.concerns] using hc
      obtain rfl : n = none := by
        cases n with
        | none => rfl
        | some n => exact absurd rfl (he w p ms n)
      have hctx : d.contextFor s' none = none := by simp [contextFor, hd]
      simp only [handle, doSyncMessages, hctx]
      exact ⟨hd, fun _ => rfl⟩
    | completed w s' q' r =>
      obtain rfl : s' = s := by simpa [MessagesEvent.concerns] using hc
      simp [handle, completed, hd, submissions]
    | removeSender s' =>
      obtain rfl : s' = s := by simpa [MessagesEvent.concerns] using hc
      exact ⟨AList.lookup_erase _ _, fun _ => rfl⟩
    | currentHeight h => exact ⟨hd, fun _ => rfl⟩
  · obtain ⟨⟨hl, -⟩, hnone⟩ := handle_of_not_concerns d (by simpa using hc)
    exact ⟨hl.trans hd, submissions_eq_zero_of_filter hnone⟩

end Dispatcher

/-- A sender without a context, after `RemoveSender` or before its first refresh, gets one back
only from a refresh that brought a node sequence (`DoSyncMessages` with `Some`): over every run
without one, it keeps no context and none of its messages is handed to `do_sync_message`; its
batches are dropped and its `Completed` events ignored. -/
theorem no_context_until_refreshed (d : Dispatcher σ) (evs : List (MessagesEvent σ)) (s : σ)
    (hd : d.senderContexts.lookup s = none)
    (hevs : ∀ w p ms n, MessagesEvent.doSyncMessages w p s ms (some n) ∉ evs) :
    (d.run evs).senderContexts.lookup s = none ∧ ∀ q, submissions s q (d.runEffects evs) = 0 := by
  induction evs generalizing d with
  | nil => exact ⟨hd, fun _ => rfl⟩
  | cons e evs ih =>
    obtain ⟨hl, hsub⟩ := Dispatcher.handle_of_no_context d hd fun w p ms n h =>
      hevs w p ms n (h ▸ List.mem_cons_self _ _)
    obtain ⟨hl', hsub'⟩ := ih _ hl fun w p ms n h => hevs w p ms n (List.mem_cons_of_mem _ h)
    refine ⟨hl', fun q => ?_⟩
    simp only [Dispatcher.runEffects, submissions, List.countP_append] at hsub hsub' ⊢
    rw [hsub, hsub', Nat.add_zero]

/-- A new sender whose refresh found no node: its batch is dropped, and the success reported
for its message is ignored. -/
theorem unknown_sender_stays_unknown :
    (Dispatcher.init : Dispatcher Nat).senderContexts.lookup 0 = none ∧
    (∀ w p ms n, MessagesEvent.doSyncMessages w p 0 ms (some n) ∉
      [.syncMessages "w" 0 0 [⟨0⟩], .doSyncMessages "w" 0 0 [⟨0⟩] none, .completed "w" 0 0 .ok]) ∧
    ((Dispatcher.init : Dispatcher Nat).run [.syncMessages "w" 0 0 [⟨0⟩],
        .doSyncMessages "w" 0 0 [⟨0⟩] none, .completed "w" 0 0 .ok]).senderContexts.lookup 0 =
        none ∧
      ∀ q, submissions 0 q ((Dispatcher.init : Dispatcher Nat).runEffects
        [.syncMessages "w" 0 0 [⟨0⟩], .doSyncMessages "w" 0 0 [⟨0⟩] none,
          .completed "w" 0 0 .ok]) = 0 :=
  have hevs : ∀ w p ms n, MessagesEvent.doSyncMessages w p 0 ms (some n) ∉
      [.syncMessages "w" 0 0 [⟨0⟩], .doSyncMessages "w" 0 0 [⟨0⟩] none, .completed "w" 0 0 .ok] :=
    fun w p ms n h => by simp at h
  ⟨rfl, hevs, no_context_until_refreshed _ _ 0 rfl hevs⟩

end PhalaCore.Prb
