import PhalaCore.Prb.World

/-!
# Resubmissions

What one turn of `master_loop` does to the context of one message `(s, q)`, and the laws of
resubmission that follow. Only a submission changes the `submitted_at` of a context and only a
`Completed` event its state, so:

* `lookupMsg_handle`: a turn either submits `(s, q)` once, from a context that is neither
  pending nor successful, or changes its context as `entryAfter` says;
* `resubmission_after_timeout_or_failure`: a turn submits `(s, q)` at most once, and a later
  submission comes more than `TX_TIMEOUT_IN_BLOCKS` blocks after the first, or after a result
  other than a timeout;
* `no_resubmission_after_success`: after a success is recorded, `(s, q)` is not submitted
  again until its sender is removed or an error result for it comes in.
-/

namespace PhalaCore.Prb

variable {σ : Type} [DecidableEq σ]

namespace SenderContext

@[simp] theorem withNextSequence_pendingMessages (c : SenderContext) (n : Option Nat) :
    (c.withNextSequence n).pendingMessages = c.pendingMessages := by
  cases n <;> rfl

theorem pendingOrSuccessAt_of_pendingMessages {c c' : SenderContext}
    (h : c'.pendingMessages = c.pendingMessages) (height t : Nat) :
    c'.pendingOrSuccessAt height t = c.pendingOrSuccessAt height t := by
  simp [pendingOrSuccessAt, h]

/-- What the loop of one batch does to the context of one sequence `q`: nothing, or one
submission from a context that was neither pending nor successful. -/
theorem syncBatch_lookup (c : SenderContext) (h : Nat) (ms : List SignedMessage) (q : Nat) :
    (((c.syncBatch h ms).2.map (·.sequence)).count q = 0 ∧
      (c.syncBatch h ms).1.pendingMessages.lookup q = c.pendingMessages.lookup q) ∨
    (((c.syncBatch h ms).2.map (·.sequence)).count q = 1 ∧ c.pendingOrSuccessAt h q = false ∧
      ∃ k, (c.syncBatch h ms).1.pendingMessages.lookup q = some ⟨.pending, h, k⟩) := by
  induction ms generalizing c with
  | nil => simp [syncBatch]
  | cons m ms ih =>
    by_cases hm : m.sequence = c.calculateNextSequence h
    · simp only [syncBatch, syncOne_eq, if_pos hm, ite_true, List.map_cons, List.count_cons]
      have hpos := pendingOrSuccessAt_markSubmitted c m.sequence h q
      have hlook := lookup_markSubmitted c m.sequence h q
      by_cases hq : q = m.sequence
      · subst hq
        simp only [ite_true] at hpos hlook
        rcases ih (c.markSubmitted m.sequence h) with ⟨h0, hl⟩ | ⟨-, hf, -⟩
        · refine .inr ⟨by simp [h0], hm ▸ (c.calculateNextSequence_spec h).2.2, _, hl.trans hlook⟩
        · simp [hpos] at hf
      · simp only [hq, ite_false] at hpos hlook
        have hne : (m.sequence == q) = false := by simpa using Ne.symm hq
        simpa only [hne, Bool.false_eq_true, ite_false, Nat.add_zero, hlook, hpos] using
          ih (c.markSubmitted m.sequence h)
    · simpa only [syncBatch, syncOne_eq, if_neg hm] using ih c

end SenderContext

theorem submissions_syncMessages (w : String) (p : Nat) (s : σ) (q : Nat)
    (ms : List SignedMessage) :
    submissions s q (ms.map (Effect.syncMessage w p s)) = (ms.map (·.sequence)).count q := by
  induction ms with
  | nil => rfl
  | cons m ms ih =>
    simp only [submissions, List.map_cons, List.countP_cons, List.count_cons] at ih ⊢
    simp [ih, Effect.sends, beq_iff_eq]

namespace Dispatcher

/-- The context of the message `q` of `s`, if any. -/
def lookupMsg (d : Dispatcher σ) (s : σ) (q : Nat) : Option MessageContext :=
  (d.senderContexts.lookup s).bind (·.pendingMessages.lookup q)

/-- The context of `(s, q)` after an event that does not submit it. -/
def entryAfter (s : σ) (q : Nat) (old : Option MessageContext) :
    MessagesEvent σ → Option MessageContext
  | .removeSender s' => if s' = s then none else old
  | .completed _ s' q' r =>
    if s' = s ∧ q' = q then old.map ({ · with state := resultState r }) else old
  | _ => old

theorem contextFor_lookup {d : Dispatcher σ} {s : σ} {n : Option Nat} {c : SenderContext}
    (h : d.contextFor s n = some c) (q : Nat) : c.pendingMessages.lookup q = d.lookupMsg s q := by
  unfold contextFor at h
  unfold lookupMsg
  cases hl : d.senderContexts.lookup s <;> cases n <;> simp_all
  all_goals subst h; rfl

theorem lookupMsg_doSyncMessages (d : Dispatcher σ) (w : String) (p : Nat) (s' : σ)
    (ms : List SignedMessage) (n : Option Nat) (s : σ) (q : Nat) :
    (submissions s q (d.doSyncMessages w p s' ms n).2 = 0 ∧
      (d.doSyncMessages w p s' ms n).1.lookupMsg s q = d.lookupMsg s q) ∨
    (submissions s q (d.doSyncMessages w p s' ms n).2 = 1 ∧
      (∀ m, d.lookupMsg s q = some m → m.isPendingOrSuccess d.currentHeight = false) ∧
      ∃ k, (d.doSyncMessages w p s' ms n).1.lookupMsg s q = some ⟨.pending, d.currentHeight, k⟩) := by
  unfold doSyncMessages
  cases hc : d.contextFor s' n with
  | none => exact .inl ⟨rfl, rfl⟩
  | some c =>
    dsimp only
    by_cases hs : s' = s
    · subst hs
      have hold := contextFor_lookup hc q
      simp only [lookupMsg, AList.lookup_insert, Option.some_bind, submissions_syncMessages]
      rcases (c.withNextSequence n).syncBatch_lookup d.currentHeight ms q with
        ⟨h0, hl⟩ | ⟨h1, hf, hl⟩
      · exact .inl ⟨h0, by simpa [hold, lookupMsg] using hl⟩
      · refine .inr ⟨h1, fun m hm => ?_, hl⟩
        have hm' : d.lookupMsg s' q = some m := hm
        rw [SenderContext.pendingOrSuccessAt_of_pendingMessages
          (c.withNextSequence_pendingMessages n), SenderContext.pendingOrSuccessAt,
          hold, hm'] at hf
        simpa using hf
    · refine .inl ⟨?_, by simp [lookupMsg, AList.lookup_insert_ne (Ne.symm hs)]⟩
      simp [submissions, List.countP_eq_zero, Effect.sends, hs]

theorem lookupMsg_completed (d : Dispatcher σ) (w : String) (s' : σ) (q' : Nat) (r : SyncResult)
    (s : σ) (q : Nat) :
    submissions s q (d.completed w s' q' r).2 = 0 ∧
      (d.completed w s' q' r).1.lookupMsg s q =
        entryAfter s q (d.lookupMsg s q) (.completed w s' q' r) := by
  have hfx : ∀ es : List (Effect σ), (∀ e ∈ es, ∃ w t, e = .workerUpdate w t) →
      submissions s q es = 0 := fun es hes => List.countP_eq_zero.2 fun e he => by
    obtain ⟨_, _, rfl⟩ := hes e he
    simp [Effect.sends]
  cases hl : d.senderContexts.lookup s' with
  | none =>
    simp only [completed, entryAfter, hl]
    refine ⟨rfl, ?_⟩
    split_ifs with h
    · obtain ⟨rfl, rfl⟩ := h
      simp [lookupMsg, hl]
    · rfl
  | some c =>
    cases hm : c.pendingMessages.lookup q' with
    | none =>
      simp only [completed, entryAfter, hl, hm]
      refine ⟨rfl, ?_⟩
      split_ifs with h
      · obtain ⟨rfl, rfl⟩ := h
        simp [lookupMsg, hl, hm]
      · rfl
    | some m =>
      simp only [completed, entryAfter, hl, hm]
      refine ⟨hfx _ (by cases r <;> simp), ?_⟩
      by_cases hs : s' = s
      · subst hs
        by_cases hq : q' = q
        · subst hq
          simp [lookupMsg, hl, hm]
        · simp [lookupMsg, hl, hq, AList.lookup_insert_ne (Ne.symm hq)]
      · simp [lookupMsg, hs, AList.lookup_insert_ne (Ne.symm hs)]

/-- One turn either submits `(s, q)` once, from a context that was neither pending nor
successful, marking it pending at the current height, or submits it not at all and changes its
context as `entryAfter` says. -/
theorem lookupMsg_handle (d : Dispatcher σ) (e : MessagesEvent σ) (s : σ) (q : Nat) :
    (submissions s q (d.handle e).2 = 0 ∧
      (d.handle e).1.lookupMsg s q = entryAfter s q (d.lookupMsg s q) e) ∨
    (submissions s q (d.handle e).2 = 1 ∧
      (∀ m, d.lookupMsg s q = some m → m.isPendingOrSuccess d.currentHeight = false) ∧
      ∃ k, (d.handle e).1.lookupMsg s q = some ⟨.pending, d.currentHeight, k⟩) := by
  cases e with
  | syncMessages w p s' ms =>
    refine .inl ⟨?_, rfl⟩
    simp only [handle, syncMessages]
    split_ifs <;> rfl
  | doSyncMessages w p s' ms n => exact lookupMsg_doSyncMessages d w p s' ms n s q
  | completed w s' q' r => exact .inl (lookupMsg_completed d w s' q' r s q)
  | removeSender s' =>
    refine .inl ⟨rfl, ?_⟩
    simp only [handle, entryAfter, lookupMsg]
    split_ifs with hs
    · simp [hs, AList.lookup_erase]
    · simp [AList.lookup_erase_ne (Ne.symm hs)]
  | currentHeight h => exact .inl ⟨rfl, rfl⟩

/-! ## Resubmission after a timeout or a failure -/

/-- What a submission at height `h₁` leaves until a result other than a timeout comes in: a
context that has not failed, last submitted at `h₁` or more than `TX_TIMEOUT_IN_BLOCKS` blocks
after it. -/
def RetryGuard (h₁ : Nat) : Option MessageContext → Prop
  | some m => m.state ≠ .failure ∧ (m.submittedAt = h₁ ∨ h₁ + txTimeoutInBlocks < m.submittedAt)
  | none => False

/-- An event that neither removes `s` nor reports for `(s, q)` an error other than a timeout. -/
def Quiet (s : σ) (q : Nat) : MessagesEvent σ → Prop
  | .removeSender s' => s' ≠ s
  | .completed _ s' q' (.err t) => s' = s → q' = q → isTimedOut t = true
  | _ => True

/-- Under the guard a submission comes more than `TX_TIMEOUT_IN_BLOCKS` blocks after `h₁`. -/
theorem submitted_late_of_guard {d : Dispatcher σ} {e : MessagesEvent σ} {s : σ} {q h₁ : Nat}
    (hg : RetryGuard h₁ (d.lookupMsg s q)) (hsub : 0 < submissions s q (d.handle e).2) :
    h₁ + txTimeoutInBlocks < d.currentHeight := by
  rcases lookupMsg_handle d e s q with ⟨h0, -⟩ | ⟨-, hold, -⟩
  · omega
  · cases hm : d.lookupMsg s q with
    | none => simp [hm, RetryGuard] at hg
    | some m =>
      rw [hm] at hg
      have hnp := hold m hm
      rw [← Bool.not_eq_true, MessageContext.isPendingOrSuccess_iff] at hnp
      obtain ⟨hnf, hlast⟩ := hg
      -- neither successful nor failed: pending or timed out, and out of its window
      have hwin : m.submittedAt + txTimeoutInBlocks < d.currentHeight := by
        cases hst : m.state with
        | successful => exact absurd (.inl hst) hnp
        | failure => exact absurd hst hnf
        | pending | timeout => simpa [hst] using hnp
      omega

theorem guard_handle {d : Dispatcher σ} {e : MessagesEvent σ} {s : σ} {q h₁ : Nat}
    (hg : RetryGuard h₁ (d.lookupMsg s q)) (hq : Quiet s q e) :
    RetryGuard h₁ ((d.handle e).1.lookupMsg s q) := by
  rcases lookupMsg_handle d e s q with ⟨-, hnew⟩ | ⟨h1, -, k, hnew⟩
  · rw [hnew]
    cases e with
    | removeSender s' => simpa [entryAfter, show s' ≠ s from hq] using hg
    | completed w s' q' r =>
      simp only [entryAfter]
      split_ifs with h
      · obtain ⟨rfl, rfl⟩ := h
        cases hm : d.lookupMsg s' q' with
        | none => simp [hm, RetryGuard] at hg
        | some m =>
          rw [hm] at hg
          cases r with
          | ok => exact ⟨by simp [resultState], hg.2⟩
          | err t => exact ⟨by simp [resultState, show isTimedOut t = true from hq rfl rfl], hg.2⟩
      · exact hg
    | syncMessages => exact hg
    | doSyncMessages => exact hg
    | currentHeight => exact hg
  · have hsub : 0 < submissions s q (d.handle e).2 := by omega
    rw [hnew]
    exact ⟨by simp, .inr (submitted_late_of_guard hg hsub)⟩

theorem guard_run {d : Dispatcher σ} {s : σ} {q h₁ : Nat} {mid : List (MessagesEvent σ)}
    (hg : RetryGuard h₁ (d.lookupMsg s q)) (hq : ∀ e ∈ mid, Quiet s q e) :
    RetryGuard h₁ ((d.run mid).lookupMsg s q) := by
  induction mid generalizing d with
  | nil => exact hg
  | cons e mid ih =>
    exact ih (guard_handle hg (hq e (List.mem_cons_self _ _)))
      fun e' he' => hq e' (List.mem_cons_of_mem _ he')

theorem guard_of_submits {d : Dispatcher σ} {e : MessagesEvent σ} {s : σ} {q : Nat}
    (hsub : 0 < submissions s q (d.handle e).2) :
    RetryGuard d.currentHeight ((d.handle e).1.lookupMsg s q) := by
  rcases lookupMsg_handle d e s q with ⟨h0, -⟩ | ⟨-, -, k, hnew⟩
  · omega
  · rw [hnew]
    exact ⟨by simp, .inl rfl⟩

/-- A turn `e₁` that submits `(s, q)` at height `h₁` submits it once. If a later turn `e₂`,
after the events `mid` with no `RemoveSender(s)`, submits it again at `h₂`, then
`h₂ > h₁ + TX_TIMEOUT_IN_BLOCKS` or some event of `mid` reported for `(s, q)` an error whose
text does not contain `"Tx timed out!"`. This holds from any state, for any events. -/
theorem resubmission_after_timeout_or_failure (d : Dispatcher σ) (e₁ : MessagesEvent σ)
    (mid : List (MessagesEvent σ)) (e₂ : MessagesEvent σ) (s : σ) (q : Nat)
    (h₁ : 0 < submissions s q (d.handle e₁).2)
    (h₂ : 0 < submissions s q (((d.handle e₁).1.run mid).handle e₂).2)
    (hkeep : MessagesEvent.removeSender s ∉ mid) :
    submissions s q (d.handle e₁).2 = 1 ∧
    (d.currentHeight + txTimeoutInBlocks < ((d.handle e₁).1.run mid).currentHeight ∨
      ∃ w t, MessagesEvent.completed w s q (.err t) ∈ mid ∧ isTimedOut t = false) := by
  refine ⟨by rcases lookupMsg_handle d e₁ s q with ⟨h0, -⟩ | ⟨h1, -⟩ <;> omega, ?_⟩
  by_cases hbad : ∃ w t, MessagesEvent.completed w s q (.err t) ∈ mid ∧ isTimedOut t = false
  · exact .inr hbad
  · refine .inl (submitted_late_of_guard (guard_run (guard_of_submits h₁) fun e he => ?_) h₂)
    -- every event in between is quiet for `(s, q)`
    cases e with
    | removeSender s' => exact fun h => hkeep (h ▸ he)
    | completed w s' q' r =>
      cases r with
      | ok => trivial
      | err t =>
        rintro rfl rfl
        by_contra ht
        exact hbad ⟨w, t, he, by simpa using ht⟩
    | syncMessages => trivial
    | doSyncMessages => trivial
    | currentHeight => trivial

/-- Message `0` of sender `0` handed to the loop with the node's next sequence `0`. -/
def firstSubmission : MessagesEvent Nat := .doSyncMessages "w" 0 0 [⟨0⟩] (some 0)

theorem retried_after_seven_blocks :
    submissions 0 0 (Dispatcher.init.handle firstSubmission).2 = 1 ∧
    ((Dispatcher.init : Dispatcher Nat).currentHeight + txTimeoutInBlocks <
      ((Dispatcher.init.handle firstSubmission).1.run [.currentHeight 7]).currentHeight ∨
      ∃ w t, MessagesEvent.completed w 0 0 (.err t) ∈
        ([.currentHeight 7] : List (MessagesEvent Nat)) ∧ isTimedOut t = false) :=
  resubmission_after_timeout_or_failure .init firstSubmission [.currentHeight 7]
    firstSubmission 0 0 (by decide) (by decide) (by decide)

/-! ## No resubmission after a success -/

/-- What a recorded success leaves: a successful context. -/
def Succeeded : Option MessageContext → Prop
  | some m => m.state = .successful
  | none => False

theorem no_submission_of_succeeded {d : Dispatcher σ} {e : MessagesEvent σ} {s : σ} {q : Nat}
    (hg : Succeeded (d.lookupMsg s q)) : submissions s q (d.handle e).2 = 0 := by
  rcases lookupMsg_handle d e s q with ⟨h0, -⟩ | ⟨-, hold, -⟩
  · exact h0
  · cases hm : d.lookupMsg s q with
    | none => simp [hm, Succeeded] at hg
    | some m =>
      rw [hm] at hg
      have := hold m hm
      rw [← Bool.not_eq_true, MessageContext.isPendingOrSuccess_iff] at this
      exact absurd (.inl hg) this

theorem succeeded_handle {d : Dispatcher σ} {e : MessagesEvent σ} {s : σ} {q : Nat}
    (hg : Succeeded (d.lookupMsg s q))
    (he : e ≠ .removeSender s ∧ ∀ w t, e ≠ .completed w s q (.err t)) :
    Succeeded ((d.handle e).1.lookupMsg s q) := by
  rcases lookupMsg_handle d e s q with ⟨-, hnew⟩ | ⟨h1, -⟩
  · rw [hnew]
    cases e with
    | removeSender s' =>
      have : s' ≠ s := fun h => he.1 (h ▸ rfl)
      simpa [entryAfter, this] using hg
    | completed w s' q' r =>
      simp only [entryAfter]
      split_ifs with h
      · obtain ⟨rfl, rfl⟩ := h
        cases hm : d.lookupMsg s' q' with
        | none => simp [hm, Succeeded] at hg
        | some m =>
          cases r with
          | ok => simp [Succeeded, resultState]
          | err t => exact absurd rfl (he.2 w t)
      · exact hg
    | syncMessages => exact hg
    | doSyncMessages => exact hg
    | currentHeight => exact hg
  · rw [no_submission_of_succeeded hg] at h1
    omega

theorem succeeded_run {d : Dispatcher σ} {s : σ} {q : Nat} {mid : List (MessagesEvent σ)}
    (hg : Succeeded (d.lookupMsg s q))
    (hmid : ∀ e ∈ mid, e ≠ .removeSender s ∧ ∀ w t, e ≠ .completed w s q (.err t)) :
    Succeeded ((d.run mid).lookupMsg s q) := by
  induction mid generalizing d with
  | nil => exact hg
  | cons e mid ih =>
    exact ih (succeeded_handle hg (hmid e (List.mem_cons_self _ _)))
      fun e' he' => hmid e' (List.mem_cons_of_mem _ he')

/-- Once a `Completed` event with result `Ok` has found the context of `(s, q)`, no later turn
submits `(s, q)` as long as no `RemoveSender(s)` and no `Completed` event with an error for
`(s, q)` comes in between. -/
theorem no_resubmission_after_success (d : Dispatcher σ) (w : String) (s : σ) (q : Nat)
    (mid : List (MessagesEvent σ)) (e₂ : MessagesEvent σ)
    (hknown : d.lookupMsg s q ≠ none)
    (hmid : ∀ e ∈ mid, e ≠ .removeSender s ∧ ∀ w' t, e ≠ .completed w' s q (.err t)) :
    submissions s q (((d.handle (.completed w s q .ok)).1.run mid).handle e₂).2 = 0 := by
  have hok : Succeeded ((d.handle (.completed w s q .ok)).1.lookupMsg s q) := by
    simp only [handle]
    rw [(lookupMsg_completed d w s q .ok s q).2]
    obtain ⟨m, hm⟩ := Option.ne_none_iff_exists'.1 hknown
    simp [entryAfter, hm, Succeeded, resultState]
  exact no_submission_of_succeeded (succeeded_run hok hmid)

theorem success_not_resubmitted :
    submissions 0 0 ((((Dispatcher.init.handle firstSubmission).1.handle
      (.completed "w" 0 0 .ok)).1.run [.currentHeight 20, .syncMessages "w" 0 0 [⟨0⟩]]).handle
        firstSubmission).2 = 0 :=
  no_resubmission_after_success _ "w" 0 0 _ firstSubmission (by decide) (by
    intro e he
    simp only [List.mem_cons, List.mem_singleton, List.not_mem_nil, or_false] at he
    rcases he with rfl | rfl <;> simp)

/-- A run in which a late error overwrites a recorded success. Message `0` is submitted at
height `0` and again at height `7`, after its window passed; the first submission succeeds, the
second fails since the transaction is already in, and the next batch, whose refresh found no
node, submits the message a third time. -/
def staleFailureRun : List (Arrival Nat) :=
  [.post (.syncMessages "w" 0 0 [⟨0⟩]), .refreshed 0 (some 0),
   .post (.currentHeight 7), .post (.syncMessages "w" 0 0 [⟨0⟩]), .refreshed 1 (some 0),
   .submitted 0 .ok, .submitted 0 (.err "Priority is too low"),
   .post (.syncMessages "w" 0 0 [⟨0⟩]), .refreshed 0 none]

theorem success_overwritten_then_resubmitted :
    ∃ pre mid e₂, (World.init.run staleFailureRun).map (·.2) =
        some (pre ++ .completed "w" 0 0 .ok :: mid ++ [e₂]) ∧
      MessagesEvent.removeSender 0 ∉ mid ∧
      0 < submissions 0 0
        ((((Dispatcher.init.run pre).handle (.completed "w" 0 0 .ok)).1.run mid).handle e₂).2 :=
  ⟨[.syncMessages "w" 0 0 [⟨0⟩], .doSyncMessages "w" 0 0 [⟨0⟩] (some 0), .currentHeight 7,
    .syncMessages "w" 0 0 [⟨0⟩], .doSyncMessages "w" 0 0 [⟨0⟩] (some 0)],
   [.completed "w" 0 0 (.err "Priority is too low"), .syncMessages "w" 0 0 [⟨0⟩]],
   .doSyncMessages "w" 0 0 [⟨0⟩] none, by decide, by decide, by decide⟩

end Dispatcher

end PhalaCore.Prb
