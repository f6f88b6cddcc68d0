import PhalaCore.Prb.Retry

/-!
# The window of known sequences

The spec's invariant on a sender: the sequences with a context from `node_next_sequence` on
form an interval `[node_next_sequence, node_next_sequence + k)`. A submission keeps it, since
`calculate_next_sequence` lands inside the interval or just past its end. The overwrite of
`node_next_sequence` by a refresh keeps it when the value does not go down. But the refresh
tasks run concurrently, and one that asked the node earlier may report later.

* `windowed_of_noRewind`: in every run in which no `DoSyncMessages` lowers the
  `node_next_sequence` of a known sender, every reachable state keeps the invariant;
* `stale_refresh_breaks_window`: a run of the world in which two refreshes report out of order
  and the invariant fails.
-/

namespace PhalaCore.Prb

variable {σ : Type} [DecidableEq σ]

namespace SenderContext

/-- The sequences with a context from `node_next_sequence` on are
`[node_next_sequence, node_next_sequence + k)` for some `k`. -/
def Window (c : SenderContext) : Prop :=
  ∃ k, ∀ t, c.nodeNextSequence ≤ t → (t ∈ c.pendingMessages ↔ t < c.nodeNextSequence + k)

theorem mem_markSubmitted (c : SenderContext) (q h t : Nat) :
    t ∈ (c.markSubmitted q h).pendingMessages ↔ t = q ∨ t ∈ c.pendingMessages :=
  AList.mem_insert _

/-- The next sequence lies in the window or right after it, so marking it keeps a window. -/
theorem window_markSubmitted {c : SenderContext} (hw : c.Window) (h : Nat) :
    (c.markSubmitted (c.calculateNextSequence h) h).Window := by
  obtain ⟨k, hk⟩ := hw
  obtain ⟨hle, hall, -⟩ := c.calculateNextSequence_spec h
  have hin : ∀ t, c.nodeNextSequence ≤ t → t < c.calculateNextSequence h →
      t < c.nodeNextSequence + k := fun t h₁ h₂ =>
    (hk t h₁).1 (AList.mem_keys.2 (mem_keys_of_pendingOrSuccessAt (hall t h₁ h₂)))
  have hend : c.calculateNextSequence h ≤ c.nodeNextSequence + k := by
    by_contra hgt
    have := hin (c.nodeNextSequence + k) (by omega) (by omega)
    omega
  refine ⟨if c.calculateNextSequence h < c.nodeNextSequence + k then k else k + 1,
    fun t ht => ?_⟩
  rw [mem_markSubmitted, hk t ht]
  simp only [markSubmitted_nodeNextSequence]
  split_ifs <;> omega

theorem window_syncBatch {c : SenderContext} (hw : c.Window) (h : Nat) (ms : List SignedMessage) :
    (c.syncBatch h ms).1.Window := by
  induction ms generalizing c with
  | nil => exact hw
  | cons m ms ih =>
    simp only [syncBatch, syncOne_eq]
    split_ifs with hm
    · rw [hm]
      exact ih (window_markSubmitted hw h)
    · exact ih hw

/-- Raising `node_next_sequence` keeps a window: the part of the old one above the new value. -/
theorem window_withNextSequence {c : SenderContext} (hw : c.Window) {n : Option Nat}
    (hn : ∀ m ∈ n, c.nodeNextSequence ≤ m) : (c.withNextSequence n).Window := by
  cases n with
  | none => exact hw
  | some m =>
    obtain ⟨k, hk⟩ := hw
    have hm := hn m rfl
    refine ⟨c.nodeNextSequence + k - m, fun t ht => ?_⟩
    change m ≤ t at ht
    change t ∈ c.pendingMessages ↔ t < m + (c.nodeNextSequence + k - m)
    rw [hk t (by omega)]
    omega

end SenderContext

namespace Dispatcher

/-- Every known sender keeps its window. -/
def Windowed (d : Dispatcher σ) : Prop :=
  ∀ s c, d.senderContexts.lookup s = some c → c.Window

/-- The event does not lower the `node_next_sequence` of a known sender. -/
def NoRewind (d : Dispatcher σ) : MessagesEvent σ → Prop
  | .doSyncMessages _ _ s _ (some n) => ∀ c ∈ d.senderContexts.lookup s, c.nodeNextSequence ≤ n
  | _ => True

/-- No event of the run lowers the `node_next_sequence` of a sender known when it arrives. -/
def NoRewindRun : Dispatcher σ → List (MessagesEvent σ) → Prop
  | _, [] => True
  | d, e :: es => d.NoRewind e ∧ (d.handle e).1.NoRewindRun es

theorem windowed_insert {d : Dispatcher σ} (hd : d.Windowed) {s' : σ} {c' : SenderContext}
    (hc' : c'.Window) : Windowed { d with senderContexts := d.senderContexts.insert s' c' } := by
  intro s c hc
  by_cases hs : s = s'
  · subst hs
    rw [AList.lookup_insert, Option.some.injEq] at hc
    exact hc ▸ hc'
  · exact hd s c (by rwa [AList.lookup_insert_ne hs] at hc)

theorem window_contextFor {d : Dispatcher σ} (hd : d.Windowed) {s : σ} {n : Option Nat}
    {c : SenderContext} (h : d.contextFor s n = some c) : c.Window := by
  unfold contextFor at h
  cases hl : d.senderContexts.lookup s with
  | some c₀ =>
    simp only [hl, Option.some.injEq] at h
    exact h ▸ hd s c₀ hl
  | none =>
    cases n with
    | none => simp [hl] at h
    | some m =>
      simp only [hl, Option.some.injEq] at h
      subst h
      exact ⟨0, fun t ht => by simpa [AList.not_mem_empty] using ht⟩

theorem contextFor_noRewind {d : Dispatcher σ} {s : σ} {n : Option Nat} {c : SenderContext}
    (h : d.contextFor s n = some c) (hn : ∀ m ∈ n, ∀ c₀ ∈ d.senderContexts.lookup s,
      c₀.nodeNextSequence ≤ m) : ∀ m ∈ n, c.nodeNextSequence ≤ m := by
  unfold contextFor at h
  cases hl : d.senderContexts.lookup s with
  | some c₀ =>
    simp only [hl, Option.some.injEq] at h
    subst h
    exact fun m hm => hn m hm c₀ hl
  | none =>
    cases n with
    | none => simp [hl] at h
    | some m =>
      simp only [hl, Option.some.injEq] at h
      subst h
      intro m' hm'
      cases hm'
      exact le_rfl

theorem windowed_handle {d : Dispatcher σ} (hd : d.Windowed) {e : MessagesEvent σ}
    (he : d.NoRewind e) : (d.handle e).1.Windowed := by
  cases e with
  | syncMessages => exact hd
  | doSyncMessages w p s ms n =>
    simp only [handle, doSyncMessages]
    cases hc : d.contextFor s n with
    | none => exact hd
    | some c =>
      have hn : ∀ m ∈ n, ∀ c₀ ∈ d.senderContexts.lookup s, c₀.nodeNextSequence ≤ m := by
        intro m hm
        cases hm
        exact he
      exact windowed_insert hd (SenderContext.window_syncBatch
        (SenderContext.window_withNextSequence (window_contextFor hd hc)
          (contextFor_noRewind hc hn)) _ _)
  | completed w s q r =>
    cases hl : d.senderContexts.lookup s with
    | none => simpa [handle, completed, hl] using hd
    | some c =>
      cases hm : c.pendingMessages.lookup q with
      | none => simpa [handle, completed, hl, hm] using hd
      | some m =>
        simp only [handle, completed, hl, hm]
        refine windowed_insert hd ?_
        obtain ⟨k, hk⟩ := hd s c hl
        have hq : q ∈ c.pendingMessages := AList.lookup_isSome.1 (by simp [hm])
        refine ⟨k, fun t ht => ?_⟩
        rw [← hk t ht]
        simp only [AList.mem_insert]
        constructor
        · rintro (rfl | h)
          · exact hq
          · exact h
        · exact .inr
  | removeSender s' =>
    intro s c hc
    by_cases hs : s = s'
    · subst hs
      simp [handle, AList.lookup_erase] at hc
    · exact hd s c (by simpa [handle, AList.lookup_erase_ne hs] using hc)
  | currentHeight => exact hd

theorem windowed_run {d : Dispatcher σ} (hd : d.Windowed) {evs : List (MessagesEvent σ)}
    (h : d.NoRewindRun evs) : (d.run evs).Windowed := by
  induction evs generalizing d with
  | nil => exact hd
  | cons e evs ih => exact ih (windowed_handle hd h.1) h.2

/-- In every run of `master_loop` in which no `DoSyncMessages` lowers the `node_next_sequence`
of a known sender, every reachable state keeps, for every sender, the sequences with a
context from `node_next_sequence` on as an interval `[node_next_sequence,
node_next_sequence + k)`. -/
theorem windowed_of_noRewind (evs : List (MessagesEvent σ))
    (h : (init : Dispatcher σ).NoRewindRun evs) : ((init : Dispatcher σ).run evs).Windowed :=
  windowed_run (fun s c hc => by simp [init] at hc) h

theorem window_after_two_batches :
    ((init : Dispatcher Nat).run [.doSyncMessages "w" 0 0 [⟨0⟩, ⟨1⟩] (some 0),
      .doSyncMessages "w" 0 0 [⟨2⟩] (some 1)]).Windowed :=
  windowed_of_noRewind _ (by simp only [NoRewindRun, NoRewind]; decide)

/-- Two refreshes of the same batch for a new sender report out of order: the one reporting
first found `node_next_sequence = 5` and message `5` is submitted; the one reporting second
had asked the node earlier and brings back `3`. -/
def staleRefreshRun : List (Arrival Nat) :=
  [.post (.syncMessages "w" 0 0 [⟨5⟩]), .post (.syncMessages "w" 0 0 [⟨5⟩]),
   .refreshed 0 (some 5), .refreshed 0 (some 3)]

/-- After that run sender `0` has `node_next_sequence = 3` and a context for `5` only. -/
theorem stale_refresh_breaks_window :
    ∃ w evs, World.init.run staleRefreshRun = some (w, evs) ∧ ¬ w.dispatcher.Windowed := by
  have hrun : (World.init.run staleRefreshRun).map (fun r =>
      (r.1.dispatcher.senderContexts.lookup 0).any fun c =>
        c.nodeNextSequence = 3 ∧ 3 ∉ c.pendingMessages ∧ 5 ∈ c.pendingMessages) = some true := by
    decide
  cases hr : World.init.run staleRefreshRun with
  | none => simp [hr] at hrun
  | some r =>
    refine ⟨r.1, r.2, rfl, fun hw => ?_⟩
    simp only [hr, Option.map_some', Option.some.injEq] at hrun
    cases hl : r.1.dispatcher.senderContexts.lookup 0 with
    | none => simp [hl] at hrun
    | some c =>
      simp only [hl, Option.any_some, decide_eq_true_eq] at hrun
      obtain ⟨hn, h3, h5⟩ := hrun
      obtain ⟨k, hk⟩ := hw 0 c hl
      rw [hn] at hk
      have h3' := (hk 3 le_rfl).not.1 h3
      have h5' := (hk 5 (by omega)).1 h5
      omega

end Dispatcher

end PhalaCore.Prb
