import PhalaCore.Prb.Dispatcher

/-!
# Sequences as `u64`

`calculate_next_sequence` counts with `next_sequence += 1` on a `u64`, which a release build wraps
from `u64::MAX` to `0` and a build with overflow checks stops on. `calculateNextSequence` and the
`DoSyncMessages` arm of `Dispatcher` count in the naturals: they are the code on batches where that
increment stays below `2 ^ 64`. Here the loop and the arm as a release build runs them.

* `calculateNextSequenceU64_eq`, `doSyncMessagesU64_eq`: while `node_next_sequence`, the number of
  contexts and the batch stay below `2 ^ 64`, the `u64` loop and arm compute what the loop and the
  arm in the naturals compute, so what is proved of `Dispatcher` holds of such batches;
* `calculateNextSequenceU64_antitone`: there, as the chain grows, the next sequence never moves
  forward;
* `wrapped_sequence_submits_zero`: past it they part. A new sender whose node reports `u64::MAX`
  as its next sequence, sent messages `u64::MAX` and `0` in one batch, gets both submitted.
-/

namespace PhalaCore.Prb

/-- `next_sequence += 1` on a `u64` in a release build. -/
def u64Succ (s : Nat) : Nat := (s + 1) % 2 ^ 64

theorem u64Succ_of_lt {s : Nat} (hs : s + 1 < 2 ^ 64) : u64Succ s = s + 1 :=
  Nat.mod_eq_of_lt hs

namespace SenderContext

/-- The `while` loop of `calculate_next_sequence` on a `u64`, for at most `fuel` iterations. -/
def advanceU64 (c : SenderContext) (h : Nat) : Nat → Nat → Nat
  | 0, s => s
  | fuel + 1, s => if c.pendingOrSuccessAt h s then c.advanceU64 h fuel (u64Succ s) else s

/-- `calculate_next_sequence` as a release build runs it. With fewer than `2 ^ 64` keys the loop
stops within as many iterations as there are keys: each sequence it passes is a key, and passing
one twice takes a round of all `2 ^ 64`. -/
def calculateNextSequenceU64 (c : SenderContext) (h : Nat) : Nat :=
  c.advanceU64 h c.pendingMessages.keys.length c.nodeNextSequence

/-- Below the wrap each iteration adds one, so the `u64` loop is the loop in the naturals. -/
theorem advanceU64_eq (c : SenderContext) (h : Nat) {fuel s : Nat} (hb : s + fuel < 2 ^ 64) :
    c.advanceU64 h fuel s = c.advance h fuel s := by
  induction fuel generalizing s with
  | zero => rfl
  | succ fuel ih =>
    simp only [advanceU64, advance, u64Succ_of_lt (show s + 1 < 2 ^ 64 by omega),
      ih (show s + 1 + fuel < 2 ^ 64 by omega)]

theorem calculateNextSequenceU64_eq (c : SenderContext) (h : Nat)
    (hb : c.nodeNextSequence + c.pendingMessages.keys.length < 2 ^ 64) :
    c.calculateNextSequenceU64 h = c.calculateNextSequence h :=
  c.advanceU64_eq h hb

/-- Below the wrap, as the chain grows `calculate_next_sequence` never moves forward: messages
whose window passes stop counting as pending, so the next sequence can only fall back to one to
retry. -/
theorem calculateNextSequenceU64_antitone (c : SenderContext) {h h' : Nat} (hle : h ≤ h')
    (hb : c.nodeNextSequence + c.pendingMessages.keys.length < 2 ^ 64) :
    c.calculateNextSequenceU64 h' ≤ c.calculateNextSequenceU64 h := by
  rw [c.calculateNextSequenceU64_eq h' hb, c.calculateNextSequenceU64_eq h hb]
  exact c.calculateNextSequence_antitone hle

/-- At height `7` the window of message `0` of `onePending` has passed, and its next sequence
falls back to it. -/
theorem u64_next_sequence_falls_back :
    onePending.calculateNextSequenceU64 7 ≤ onePending.calculateNextSequenceU64 0 :=
  calculateNextSequenceU64_antitone onePending (by decide) (by decide)

/-! ## The `DoSyncMessages` arm on `u64` sequences -/

/-- One pass of the loop of `DoSyncMessages`, the next sequence counted on a `u64`. -/
def syncOneU64 (c : SenderContext) (h : Nat) (message : SignedMessage) : SenderContext × Bool :=
  if message.sequence ≠ c.calculateNextSequenceU64 h then (c, false) else c.syncEntry h message

/-- The `for message in messages` loop, the next sequence counted on a `u64`. -/
def syncBatchU64 (c : SenderContext) (h : Nat) :
    List SignedMessage → SenderContext × List SignedMessage
  | [] => (c, [])
  | message :: messages =>
    let r := c.syncOneU64 h message
    let r' := r.1.syncBatchU64 h messages
    (r'.1, if r.2 then message :: r'.2 else r'.2)

/-- A pass keeps `node_next_sequence` and adds at most one key. -/
theorem syncOne_keys_le (c : SenderContext) (h : Nat) (m : SignedMessage) :
    (c.syncOne h m).1.nodeNextSequence = c.nodeNextSequence ∧
      (c.syncOne h m).1.pendingMessages.keys.length ≤ c.pendingMessages.keys.length + 1 := by
  rw [syncOne_eq]
  split
  · refine ⟨rfl, ?_⟩
    simp only [markSubmitted, AList.keys_insert, List.length_cons]
    exact Nat.succ_le_succ (List.length_erase_le _ _)
  · exact ⟨rfl, Nat.le_succ _⟩

theorem syncBatchU64_eq (c : SenderContext) (h : Nat) (ms : List SignedMessage)
    (hb : c.nodeNextSequence + c.pendingMessages.keys.length + ms.length < 2 ^ 64) :
    c.syncBatchU64 h ms = c.syncBatch h ms := by
  induction ms generalizing c with
  | nil => rfl
  | cons m ms ih =>
    obtain ⟨hnns, hkeys⟩ := c.syncOne_keys_le h m
    rw [List.length_cons] at hb
    have hone : c.syncOneU64 h m = c.syncOne h m := by
      unfold syncOneU64 syncOne
      rw [c.calculateNextSequenceU64_eq h (by omega)]
    simp only [syncBatchU64, syncBatch, hone, ih (c.syncOne h m).1 (by omega)]

end SenderContext

namespace Dispatcher

variable {σ : Type} [DecidableEq σ]

/-- The `DoSyncMessages` arm as a release build runs it. -/
def doSyncMessagesU64 (d : Dispatcher σ) (workerId : String) (poolId : Nat) (sender : σ)
    (messages : List SignedMessage) (nextSequence : Option Nat) :
    Dispatcher σ × List (Effect σ) :=
  match d.contextFor sender nextSequence with
  | none => (d, [])
  | some c =>
    let r := (c.withNextSequence nextSequence).syncBatchU64 d.currentHeight messages
    ({ d with senderContexts := d.senderContexts.insert sender r.1 },
      r.2.map (.syncMessage workerId poolId sender))

/-- In any state of `master_loop`, a `DoSyncMessages` batch whose sender context, once refreshed,
has `node_next_sequence` plus its number of contexts plus the batch length below `2 ^ 64` leaves
the same state and submits the same messages as a release build would: the arm in the naturals
is the code's arm on every such batch. -/
theorem doSyncMessagesU64_eq (d : Dispatcher σ) (w : String) (p : Nat) (s : σ)
    (ms : List SignedMessage) (n : Option Nat)
    (hb : ∀ c, d.contextFor s n = some c →
      (c.withNextSequence n).nodeNextSequence + (c.withNextSequence n).pendingMessages.keys.length +
        ms.length < 2 ^ 64) :
    d.doSyncMessagesU64 w p s ms n = d.doSyncMessages w p s ms n := by
  unfold doSyncMessagesU64 doSyncMessages
  cases hc : d.contextFor s n with
  | none => rfl
  | some c => simp only [SenderContext.syncBatchU64_eq _ _ _ (hb c hc)]

/-- A new sender, batch `[0, 1]` with the node's next sequence `0`: below the wrap. -/
theorem fresh_sender_batch_below_wrap :
    (Dispatcher.init : Dispatcher Nat).doSyncMessagesU64 "w" 0 0 [⟨0⟩, ⟨1⟩] (some 0) =
      Dispatcher.init.doSyncMessages "w" 0 0 [⟨0⟩, ⟨1⟩] (some 0) :=
  doSyncMessagesU64_eq _ _ _ _ _ _ fun c hc => by
    cases (show some (⟨0, ∅⟩ : SenderContext) = some c from hc)
    decide

/-- A new sender whose node reports `u64::MAX` as its next sequence, sent messages `u64::MAX`
and `0` in one batch: once `u64::MAX` is pending, `calculate_next_sequence` wraps to `0`, and the
release build submits `0` after `u64::MAX`, below `node_next_sequence`. In the naturals only
`u64::MAX` is submitted. -/
theorem wrapped_sequence_submits_zero :
    ((Dispatcher.init : Dispatcher Nat).doSyncMessagesU64 "w" 0 0 [⟨2 ^ 64 - 1⟩, ⟨0⟩]
        (some (2 ^ 64 - 1))).2 =
      [.syncMessage "w" 0 0 ⟨2 ^ 64 - 1⟩, .syncMessage "w" 0 0 ⟨0⟩] ∧
    ((Dispatcher.init : Dispatcher Nat).doSyncMessages "w" 0 0 [⟨2 ^ 64 - 1⟩, ⟨0⟩]
        (some (2 ^ 64 - 1))).2 =
      [.syncMessage "w" 0 0 ⟨2 ^ 64 - 1⟩] :=
  ⟨rfl, rfl⟩

end Dispatcher

end PhalaCore.Prb
