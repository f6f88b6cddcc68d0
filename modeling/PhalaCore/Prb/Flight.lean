import PhalaCore.Prb.Retry

/-!
# Submissions over whole runs

What `master_loop` keeps of each message `(s, q)` over a whole run, and what a submission task
finds when it reports back.

* `prevTryCount_counts_submissions`: while `s` is not removed, `prev_try_count + 1` of the context
  of `(s, q)` (`0` without a context) grows by exactly the number of times `(s, q)` is submitted;
  so the count the loop logs on a retry is the number of earlier submissions;
* `tracked_run`: in every run of the world from its start in which `RemoveSender(s)` is never
  received, every submission of a message of `s` still in flight has its context;
* `submission_result_recorded`: so whenever such a submission finishes, in whatever order the
  tasks finish, its `Completed` event finds that context and records the result there
  (`Successful`, `Timeout` or `Failure`), never taking the `sender does not found` or
  `sequence does not found` branch;
* `completions_match_submissions`: the bookkeeping of the world itself. A task is put in flight
  for each submission and taken out when its `Completed` event is delivered, so in every run the
  submissions of `(s, q)` are the `Completed` events of `(s, q)` plus the tasks still in flight;
  the results below rest on this count;
* `pending_has_submission_in_flight`: in every run of the world, a message the loop holds as
  `Pending` has a `do_sync_message` task in flight for it, so a pending message is never left
  without a task that will report it.
-/

namespace PhalaCore.Prb

variable {σ : Type} [DecidableEq σ]

/-! ## Counting tries -/

namespace SenderContext

/-- `prev_try_count + 1` of the context of `q`, `0` without one. -/
def tries (c : SenderContext) (q : Nat) : Nat :=
  ((c.pendingMessages.lookup q).map (·.prevTryCount + 1)).getD 0

theorem tries_markSubmitted (c : SenderContext) (q h t : Nat) :
    (c.markSubmitted q h).tries t = c.tries t + if t = q then 1 else 0 := by
  unfold tries
  rw [lookup_markSubmitted]
  split_ifs with ht
  · subst ht; rfl
  · rfl

/-- The loop of one batch adds to the tries of `q` the number of times it sends `q`. -/
theorem syncBatch_tries (c : SenderContext) (h : Nat) (ms : List SignedMessage) (q : Nat) :
    (c.syncBatch h ms).1.tries q = c.tries q + ((c.syncBatch h ms).2.map (·.sequence)).count q := by
  induction ms generalizing c with
  | nil => rfl
  | cons m ms ih =>
    by_cases hm : m.sequence = c.calculateNextSequence h
    · simp only [syncBatch, syncOne_eq, if_pos hm, ite_true, List.map_cons, List.count_cons, ih,
        tries_markSubmitted, beq_iff_eq]
      split_ifs <;> omega
    · simpa only [syncBatch, syncOne_eq, if_neg hm] using ih c

end SenderContext

namespace Dispatcher

/-- `prev_try_count + 1` of the context of `(s, q)`, `0` without one. -/
def tries (d : Dispatcher σ) (s : σ) (q : Nat) : Nat :=
  ((d.lookupMsg s q).map (·.prevTryCount + 1)).getD 0

/-- The effects of the turns on the events, in order. -/
def runEffects (d : Dispatcher σ) : List (MessagesEvent σ) → List (Effect σ)
  | [] => []
  | e :: es => (d.handle e).2 ++ (d.handle e).1.runEffects es

theorem tries_doSyncMessages (d : Dispatcher σ) (w : String) (p : Nat) (s' : σ)
    (ms : List SignedMessage) (n : Option Nat) (s : σ) (q : Nat) :
    (d.doSyncMessages w p s' ms n).1.tries s q =
      d.tries s q + submissions s q (d.doSyncMessages w p s' ms n).2 := by
  unfold doSyncMessages
  cases hc : d.contextFor s' n with
  | none => rfl
  | some c =>
    dsimp only
    by_cases hs : s' = s
    · subst hs
      have hold : (c.withNextSequence n).tries q = d.tries s' q := by
        simp only [SenderContext.tries, SenderContext.withNextSequence_pendingMessages,
          contextFor_lookup hc q, tries]
      rw [submissions_syncMessages, ← hold, ← SenderContext.syncBatch_tries]
      simp only [tries, lookupMsg, AList.lookup_insert, Option.some_bind]
      rfl
    · have h0 : submissions s q (((c.withNextSequence n).syncBatch d.currentHeight ms).2.map
          (Effect.syncMessage w p s')) = 0 := by
        simp [submissions, List.countP_eq_zero, Effect.sends, hs]
      rw [h0]
      simp [tries, lookupMsg, AList.lookup_insert_ne (Ne.symm hs)]

/-- A turn other than `RemoveSender(s)` adds to the tries of `(s, q)` the submissions it makes. -/
theorem tries_handle (d : Dispatcher σ) (e : MessagesEvent σ) (s : σ) (q : Nat)
    (he : e ≠ .removeSender s) :
    (d.handle e).1.tries s q = d.tries s q + submissions s q (d.handle e).2 := by
  cases e with
  | syncMessages w p s' ms =>
    have h0 : submissions s q (d.syncMessages w p s' ms) = 0 := by
      simp only [syncMessages]; split_ifs <;> rfl
    exact (congrArg (d.tries s q + ·) h0).symm
  | doSyncMessages w p s' ms n => exact tries_doSyncMessages d w p s' ms n s q
  | completed w s' q' r =>
    obtain ⟨h0, hl⟩ := lookupMsg_completed d w s' q' r s q
    simp only [handle, tries, h0, hl, entryAfter, Nat.add_zero]
    split_ifs
    · cases d.lookupMsg s q <;> rfl
    · rfl
  | removeSender s' =>
    have hs : s ≠ s' := fun h => he (h ▸ rfl)
    simp [handle, tries, lookupMsg, AList.lookup_erase_ne hs, submissions]
  | currentHeight h => rfl

/-- While `s` is not removed, `prev_try_count + 1` of the context of `(s, q)`, `0` without one,
grows by exactly the number of times `(s, q)` is submitted. From the initial state it is the
number of submissions of `(s, q)` so far, so `prev_try_count` is the number of submissions before
the last one, which the loop logs when it retries. -/
theorem prevTryCount_counts_submissions (d : Dispatcher σ) (evs : List (MessagesEvent σ)) (s : σ)
    (q : Nat) (hs : MessagesEvent.removeSender s ∉ evs) :
    (d.run evs).tries s q = d.tries s q + submissions s q (d.runEffects evs) := by
  induction evs generalizing d with
  | nil => rfl
  | cons e evs ih =>
    have he : e ≠ .removeSender s := fun h => hs (h ▸ List.mem_cons_self _ _)
    rw [run, runEffects, ih _ fun h => hs (List.mem_cons_of_mem _ h), tries_handle d e s q he]
    simp only [submissions, List.countP_append]
    omega

/-- Message `0` of sender `0` submitted at height `0`, then again at height `7` once its window
has passed: two submissions, and `prev_try_count = 1`. -/
theorem message_submitted_twice :
    ((init : Dispatcher Nat).run [firstSubmission, .currentHeight 7, firstSubmission]).tries 0 0 =
      (init : Dispatcher Nat).tries 0 0 +
        submissions 0 0 ((init : Dispatcher Nat).runEffects
          [firstSubmission, .currentHeight 7, firstSubmission]) :=
  prevTryCount_counts_submissions _ _ 0 0 (by decide)

example : ((init : Dispatcher Nat).run [firstSubmission, .currentHeight 7, firstSubmission]).tries
    0 0 = 2 := by decide

end Dispatcher

/-! ## Submissions in flight -/

namespace World

omit [DecidableEq σ] in
theorem arrive_tasks {w : World σ} {a : Arrival σ} {e : MessagesEvent σ} {rest : List (Task σ)}
    (h : w.arrive a = some (e, rest)) : ∀ t ∈ rest, t ∈ w.tasks := by
  cases a with
  | post e' =>
    simp only [arrive] at h
    split_ifs at h
    cases h
    exact fun t ht => ht
  | refreshed i n =>
    simp only [arrive] at h
    split at h <;> cases h
    exact fun t ht => List.mem_of_mem_eraseIdx ht
  | submitted i r =>
    simp only [arrive] at h
    split at h <;> cases h
    exact fun t ht => List.mem_of_mem_eraseIdx ht

theorem step_eq {w w' : World σ} {a : Arrival σ} {e : MessagesEvent σ}
    (h : w.step a = some (w', e)) : ∃ rest, w.arrive a = some (e, rest) ∧
      w' = ⟨(w.dispatcher.handle e).1,
        rest ++ (w.dispatcher.handle e).2.filterMap Effect.task⟩ := by
  unfold step at h
  cases ha : w.arrive a with
  | none => simp [ha] at h
  | some et =>
    simp only [ha, Option.map_some', Option.some.injEq, Prod.mk.injEq] at h
    obtain ⟨rfl, rfl⟩ := h
    exact ⟨et.2, rfl, rfl⟩

theorem run_cons {w w' : World σ} {a : Arrival σ} {as : List (Arrival σ)}
    {evs : List (MessagesEvent σ)} (h : w.run (a :: as) = some (w', evs)) :
    ∃ w₁ e evs', w.step a = some (w₁, e) ∧ w₁.run as = some (w', evs') ∧ evs = e :: evs' := by
  simp only [run] at h
  cases hs : w.step a with
  | none => simp [hs] at h
  | some we =>
    cases hr : we.1.run as with
    | none => simp [hs, hr] at h
    | some r =>
      simp only [hs, hr, Option.some_bind, Option.map_some', Option.some.injEq, Prod.mk.injEq] at h
      obtain ⟨rfl, rfl⟩ := h
      exact ⟨we.1, we.2, r.2, rfl, hr, rfl⟩

/-- Every submission of a message of `s` in flight has the context of its message. -/
def Tracked (s : σ) (w : World σ) : Prop :=
  ∀ wid p m, Task.submit wid p s m ∈ w.tasks → w.dispatcher.lookupMsg s m.sequence ≠ none

/-- A turn other than `RemoveSender(s)` keeps the context of every message of `s` it had. -/
theorem lookupMsg_handle_ne_none {d : Dispatcher σ} {e : MessagesEvent σ} {s : σ} {q : Nat}
    (he : e ≠ .removeSender s) (hq : d.lookupMsg s q ≠ none) :
    (d.handle e).1.lookupMsg s q ≠ none := by
  rcases Dispatcher.lookupMsg_handle d e s q with ⟨-, hl⟩ | ⟨-, -, k, hl⟩
  · rw [hl]
    obtain ⟨m, hm⟩ := Option.ne_none_iff_exists'.1 hq
    cases e with
    | removeSender s' =>
      have : s' ≠ s := fun h => he (h ▸ rfl)
      simp [Dispatcher.entryAfter, this, hm]
    | completed w s' q' r =>
      simp only [Dispatcher.entryAfter, hm]
      split_ifs <;> simp
    | _ => exact hq
  · simp [hl]

/-- A turn that spawns a submission of `(s, q)` has made the context of `(s, q)`. -/
theorem lookupMsg_of_spawned {d : Dispatcher σ} {e : MessagesEvent σ} {s : σ} {wid : String}
    {p : Nat} {m : SignedMessage}
    (ht : Task.submit wid p s m ∈ (d.handle e).2.filterMap Effect.task) :
    (d.handle e).1.lookupMsg s m.sequence ≠ none := by
  obtain ⟨eff, heff, htask⟩ := List.mem_filterMap.1 ht
  have hsub : 0 < submissions s m.sequence (d.handle e).2 := by
    refine List.countP_pos_iff.2 ⟨eff, heff, ?_⟩
    cases eff <;> simp_all [Effect.task, Effect.sends]
  rcases Dispatcher.lookupMsg_handle d e s m.sequence with ⟨h0, -⟩ | ⟨-, -, k, hl⟩
  · omega
  · simp [hl]

theorem tracked_step {s : σ} {w w' : World σ} {a : Arrival σ} {e : MessagesEvent σ}
    (h : w.step a = some (w', e)) (he : e ≠ .removeSender s) (ht : Tracked s w) : Tracked s w' := by
  obtain ⟨rest, ha, rfl⟩ := step_eq h
  intro wid p m hm
  rcases List.mem_append.1 hm with hold | hnew
  · exact lookupMsg_handle_ne_none he (ht wid p m (arrive_tasks ha _ hold))
  · exact lookupMsg_of_spawned hnew

/-- Over a run that never delivers `RemoveSender(s)`, every submission of `s` in flight keeps the
context of its message. -/
theorem tracked_run {s : σ} {w w' : World σ} {as : List (Arrival σ)} {evs : List (MessagesEvent σ)}
    (h : w.run as = some (w', evs)) (hs : MessagesEvent.removeSender s ∉ evs) (ht : Tracked s w) :
    Tracked s w' := by
  induction as generalizing w evs with
  | nil =>
    simp only [run, Option.some.injEq, Prod.mk.injEq] at h
    obtain ⟨rfl, -⟩ := h
    exact ht
  | cons a as ih =>
    obtain ⟨w₁, e, evs', hstep, hrun, rfl⟩ := run_cons h
    exact ih hrun (fun h' => hs (List.mem_cons_of_mem _ h'))
      (tracked_step hstep (fun h' => hs (h' ▸ List.mem_cons_self _ _)) ht)

/-- In every run of the world from its start in which `RemoveSender(s)` is never received, in
whatever order the tasks finished: a submission of a message `m` of `s` still in flight can
finish with any result, and its `Completed` event finds the context of `m` and records that
result there. -/
theorem submission_result_recorded (as : List (Arrival σ)) (w : World σ)
    (evs : List (MessagesEvent σ)) (h : World.init.run as = some (w, evs)) (s : σ)
    (hs : MessagesEvent.removeSender s ∉ evs) (i : Nat) (wid : String) (p : Nat)
    (m : SignedMessage) (hi : w.tasks[i]? = some (.submit wid p s m)) (r : SyncResult) :
    ∃ w' mc, w.step (.submitted i r) = some (w', .completed wid s m.sequence r) ∧
      w.dispatcher.lookupMsg s m.sequence = some mc ∧
      w'.dispatcher.lookupMsg s m.sequence =
        some { mc with state := Dispatcher.resultState r } := by
  have ht := tracked_run h hs fun _ _ _ hm => by simp [init] at hm
  obtain ⟨mc, hmc⟩ := Option.ne_none_iff_exists'.1 (ht wid p m (List.getElem?_mem hi))
  have hstep : w.step (.submitted i r) =
      some (⟨(w.dispatcher.handle (.completed wid s m.sequence r)).1,
      w.tasks.eraseIdx i ++ (w.dispatcher.handle (.completed wid s m.sequence r)).2.filterMap
        Effect.task⟩, .completed wid s m.sequence r) := by
    simp [step, arrive, hi]
  refine ⟨_, mc, hstep, hmc, ?_⟩
  show (w.dispatcher.completed wid s m.sequence r).1.lookupMsg s m.sequence = _
  rw [(Dispatcher.lookupMsg_completed w.dispatcher wid s m.sequence r s m.sequence).2, hmc]
  simp [Dispatcher.entryAfter]

/-- Message `0` of sender `0`, passed on and submitted: its submission is in flight. -/
def submittedRun : List (Arrival Nat) :=
  [.post (.syncMessages "w" 0 0 [⟨0⟩]), .refreshed 0 (some 0)]

theorem submitted_run_records_success :
    ∃ w evs, World.init.run submittedRun = some (w, evs) ∧
      ∃ w' mc, w.step (.submitted 0 .ok) =
          some (w', .completed "w" 0 (⟨0⟩ : SignedMessage).sequence .ok) ∧
        w.dispatcher.lookupMsg 0 (⟨0⟩ : SignedMessage).sequence = some mc ∧
        w'.dispatcher.lookupMsg 0 (⟨0⟩ : SignedMessage).sequence =
          some { mc with state := Dispatcher.resultState .ok } :=
  ⟨_, _, rfl, submission_result_recorded submittedRun _ _ rfl 0 (by decide) 0 "w" 0 ⟨0⟩ rfl .ok⟩

end World

/-! ## Every submission reported once -/

/-- Whether an event is the `Completed` of a submission of the message `q` of `s`. -/
def MessagesEvent.completes (s : σ) (q : Nat) : MessagesEvent σ → Bool
  | .completed _ s' q' _ => s' = s && q' = q
  | _ => false

/-- Whether a task is a submission of the message `q` of `s`. -/
def Task.submits (s : σ) (q : Nat) : Task σ → Bool
  | .submit _ _ s' m => s' = s && m.sequence = q
  | _ => false

/-- Erasing the `i`-th element of a list takes it out of every count. -/
theorem countP_eraseIdx {α : Type} (p : α → Bool) {l : List α} {i : Nat} {t : α}
    (h : l[i]? = some t) : l.countP p = (l.eraseIdx i).countP p + if p t then 1 else 0 := by
  induction l generalizing i with
  | nil => cases h
  | cons a l ih =>
    cases i with
    | zero =>
      obtain rfl := Option.some.inj ((List.getElem?_cons_zero).symm.trans h)
      simp only [List.countP_cons, List.eraseIdx_cons_zero]
    | succ i =>
      simp only [List.countP_cons, List.eraseIdx_cons_succ,
        ih ((List.getElem?_cons_succ).symm.trans h)]
      omega

namespace World

/-- The tasks a turn spawns are its submissions, one task each. -/
theorem countP_spawned (effects : List (Effect σ)) (s : σ) (q : Nat) :
    (effects.filterMap Effect.task).countP (Task.submits s q) = submissions s q effects := by
  simp only [List.countP_filterMap, submissions]
  congr
  funext eff
  cases eff <;> rfl

/-- An arriving event takes one submission of `(s, q)` out of the tasks exactly when it is its
`Completed`. -/
theorem arrive_countP {w : World σ} {a : Arrival σ} {e : MessagesEvent σ} {rest : List (Task σ)}
    (h : w.arrive a = some (e, rest)) (s : σ) (q : Nat) :
    w.tasks.countP (Task.submits s q) =
      rest.countP (Task.submits s q) + if e.completes s q then 1 else 0 := by
  cases a with
  | post e' =>
    simp only [arrive] at h
    split_ifs at h with hext
    cases h
    cases e <;> first | rfl | cases hext
  | refreshed i _ | submitted i _ =>
    -- the arriving task leaves the list: a refresh, or the submission the event completes
    simp only [arrive] at h
    split at h
    · next hi =>
      cases h
      rw [countP_eraseIdx _ hi]
      rfl
    · cases h

/-- One turn of the world: the submissions it spawns join the tasks, and its event, if a
`Completed`, took one out. -/
theorem step_countP {w w' : World σ} {a : Arrival σ} {e : MessagesEvent σ}
    (h : w.step a = some (w', e)) (s : σ) (q : Nat) :
    submissions s q (w.dispatcher.handle e).2 + w.tasks.countP (Task.submits s q) =
      (if e.completes s q then 1 else 0) + w'.tasks.countP (Task.submits s q) := by
  obtain ⟨rest, ha, rfl⟩ := step_eq h
  rw [arrive_countP ha, List.countP_append, countP_spawned]
  omega

/-- Over a run, the submissions made plus those in flight at its start are the `Completed`
events received plus those in flight at its end. -/
theorem run_countP {w w' : World σ} {as : List (Arrival σ)} {evs : List (MessagesEvent σ)}
    (h : w.run as = some (w', evs)) (s : σ) (q : Nat) :
    submissions s q (w.dispatcher.runEffects evs) + w.tasks.countP (Task.submits s q) =
      evs.countP (MessagesEvent.completes s q) + w'.tasks.countP (Task.submits s q) := by
  induction as generalizing w evs with
  | nil =>
    simp only [run, Option.some.injEq, Prod.mk.injEq] at h
    obtain ⟨rfl, rfl⟩ := h
    simp [Dispatcher.runEffects, submissions]
  | cons a as ih =>
    obtain ⟨w₁, e, evs', hstep, hrun, rfl⟩ := run_cons h
    have h₁ := step_countP hstep s q
    have h₂ := ih hrun
    rw [step_dispatcher hstep] at h₂
    simp only [Dispatcher.runEffects, submissions, List.countP_append, List.countP_cons] at h₁ h₂ ⊢
    omega

/-- In every run of the world from its start, whatever the node answers and in whatever order
the tasks finish, and across `RemoveSender`, which cancels no task: the submissions of `(s, q)`
made so far are the `Completed` events of `(s, q)` the loop received plus the submissions of
`(s, q)` still in flight. No result is lost, none is reported twice, and none arrives for a
message that was not submitted. -/
theorem completions_match_submissions (as : List (Arrival σ)) (w : World σ)
    (evs : List (MessagesEvent σ)) (h : World.init.run as = some (w, evs)) (s : σ) (q : Nat) :
    submissions s q (Dispatcher.init.runEffects evs) =
      evs.countP (MessagesEvent.completes s q) + w.tasks.countP (Task.submits s q) := by
  simpa [World.init] using run_countP h s q

/-- Message `0` of sender `0`, passed on, submitted, and its success reported. -/
def completedRun : List (Arrival Nat) := submittedRun ++ [.submitted 0 .ok]

/-! ## No pending message without a submission in flight -/

/-- A result never leaves a message pending. -/
theorem resultState_ne_pending (r : SyncResult) : Dispatcher.resultState r ≠ .pending := by
  cases r with
  | ok => nofun
  | err text => simp only [Dispatcher.resultState]; split_ifs <;> nofun

/-- A `Completed` turn submits nothing. -/
theorem submissions_of_completes (d : Dispatcher σ) {e : MessagesEvent σ} {s : σ} {q : Nat}
    (he : e.completes s q = true) : submissions s q (d.handle e).2 = 0 := by
  cases e with
  | completed w s' q' r => exact (Dispatcher.lookupMsg_completed d w s' q' r s q).1
  | _ => cases he

/-- Every message the loop holds as pending has a submission in flight. -/
def PendingInFlight (w : World σ) : Prop :=
  ∀ s q mc, w.dispatcher.lookupMsg s q = some mc → mc.state = .pending →
    0 < w.tasks.countP (Task.submits s q)

theorem pendingInFlight_step {w w' : World σ} {a : Arrival σ} {e : MessagesEvent σ}
    (h : w.step a = some (w', e)) (hinv : PendingInFlight w) : PendingInFlight w' := by
  intro s q mc hmc hp
  have hcount := step_countP h s q
  rw [step_dispatcher h] at hmc
  rcases Dispatcher.lookupMsg_handle w.dispatcher e s q with ⟨h0, hl⟩ | ⟨h1, -, -⟩
  · -- not submitted: the context is the one before the event, or a result was recorded
    rw [hl] at hmc
    have hold : ∃ mc', w.dispatcher.lookupMsg s q = some mc' ∧ mc'.state = .pending ∧
        e.completes s q = false := by
      cases e with
      | removeSender s' =>
        simp only [Dispatcher.entryAfter] at hmc
        split_ifs at hmc
        exact ⟨mc, hmc, hp, rfl⟩
      | completed w' s' q' r =>
        simp only [Dispatcher.entryAfter] at hmc
        split_ifs at hmc with hsq
        · obtain ⟨mc', -, rfl⟩ := Option.map_eq_some'.1 hmc
          exact absurd hp (resultState_ne_pending r)
        · exact ⟨mc, hmc, hp, by simpa [MessagesEvent.completes] using hsq⟩
      | _ => exact ⟨mc, hmc, hp, rfl⟩
    obtain ⟨mc', hmc', hp', hc⟩ := hold
    have := hinv s q mc' hmc' hp'
    simp only [hc, h0, Bool.false_eq_true, if_false] at hcount
    omega
  · -- submitted by this turn, which completes nothing
    have hc : e.completes s q = false := by
      cases hce : e.completes s q
      · rfl
      · rw [submissions_of_completes w.dispatcher hce] at h1
        cases h1
    simp only [hc, h1, Bool.false_eq_true, if_false] at hcount
    omega

theorem pendingInFlight_run {w w' : World σ} {as : List (Arrival σ)}
    {evs : List (MessagesEvent σ)} (h : w.run as = some (w', evs)) (hinv : PendingInFlight w) :
    PendingInFlight w' := by
  induction as generalizing w evs with
  | nil =>
    simp only [run, Option.some.injEq, Prod.mk.injEq] at h
    obtain ⟨rfl, -⟩ := h
    exact hinv
  | cons a as ih =>
    obtain ⟨w₁, e, evs', hstep, hrun, rfl⟩ := run_cons h
    exact ih hrun (pendingInFlight_step hstep hinv)

/-- In every run of the world from its start, whatever the node answers and in whatever order
the tasks finish: a message the loop holds as `Pending` has a `do_sync_message` task in flight
for it. The loop never waits on a submission that no task will report. -/
theorem pending_has_submission_in_flight (as : List (Arrival σ)) (w : World σ)
    (evs : List (MessagesEvent σ)) (h : World.init.run as = some (w, evs)) (s : σ) (q : Nat)
    (mc : MessageContext) (hmc : w.dispatcher.lookupMsg s q = some mc)
    (hp : mc.state = .pending) :
    ∃ wid p m, Task.submit wid p s m ∈ w.tasks ∧ m.sequence = q := by
  have hinit : PendingInFlight (World.init : World σ) := fun s q mc hmc => by
    simp [World.init, Dispatcher.init, Dispatcher.lookupMsg] at hmc
  obtain ⟨t, ht, hsub⟩ := List.countP_pos_iff.1 (pendingInFlight_run h hinit s q mc hmc hp)
  cases t with
  | submit wid p s' m =>
    simp only [Task.submits, Bool.and_eq_true, decide_eq_true_eq] at hsub
    obtain ⟨rfl, hq⟩ := hsub
    exact ⟨wid, p, m, ht, hq⟩
  | refresh => cases hsub

/-- Message `0` of sender `0`, passed on and submitted: pending, with its submission in flight. -/
theorem submitted_message_in_flight :
    ∃ w evs, World.init.run submittedRun = some (w, evs) ∧
      w.dispatcher.lookupMsg 0 0 = some ⟨.pending, 0, 0⟩ ∧
      (⟨.pending, 0, 0⟩ : MessageContext).state = .pending ∧
      ∃ wid p m, Task.submit wid p 0 m ∈ w.tasks ∧ m.sequence = 0 :=
  ⟨_, _, rfl, rfl, rfl, pending_has_submission_in_flight submittedRun _ _ rfl 0 0 _ rfl rfl⟩

end World

end PhalaCore.Prb
