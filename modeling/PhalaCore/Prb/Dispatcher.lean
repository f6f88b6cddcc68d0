import PhalaCore.Prb.Message
import Mathlib.Data.List.Infix

/-!
# The dispatcher loop of the sequencer

`master_loop` of `prb/src/messages.rs` as a state machine. `Dispatcher.handle` is one turn of
the loop on one `MessagesEvent`: it returns the new state and what the turn starts, spawned
tasks and updates sent on the bus. `σ` stands for `MessageOrigin`, which the loop only compares.

* `syncOne_eq`: one pass of the `DoSyncMessages` loop sends the message exactly when its
  sequence is `calculate_next_sequence`, and then marks it pending at the current height;
* `doSyncMessages_submits_in_order`: within one `DoSyncMessages` event, counted in the naturals,
  the submitted sequences strictly increase, each above a run of pending-or-successful contexts
  from `node_next_sequence` (a release build wraps past `u64::MAX`, see `Prb.Wrap`);
* `doSyncMessages_syncCandidates`: the filter of the `SyncMessages` arm only drops messages the
  `DoSyncMessages` arm would skip; in the state it saw, running `DoSyncMessages` on what it
  passes on gives the same state and the same submissions as on the whole batch;
* `doSyncMessages_range'`: a batch of consecutive sequences from `calculate_next_sequence` is
  submitted without a gap, every message of it that is neither pending nor successful, in order.
-/

namespace PhalaCore.Prb

/-- `SignedMessage`: the loop reads its `sequence` only, the rest goes to the submitter. -/
structure SignedMessage where
  sequence : Nat
  deriving DecidableEq, Repr

/-- The `anyhow::Result<()>` of a submission, an error as its rendered text. -/
inductive SyncResult
  | ok
  | err (text : String)
  deriving DecidableEq, Repr

/-- The test `err_str.contains("Tx timed out!")`. -/
def isTimedOut (text : String) : Bool := decide ("Tx timed out!".toList <:+: text.toList)

inductive MessagesEvent (σ : Type)
  | syncMessages (workerId : String) (poolId : Nat) (sender : σ) (messages : List SignedMessage)
  | doSyncMessages (workerId : String) (poolId : Nat) (sender : σ)
      (messages : List SignedMessage) (nextSequence : Option Nat)
  | completed (workerId : String) (sender : σ) (sequence : Nat) (result : SyncResult)
  | removeSender (sender : σ)
  | currentHeight (height : Nat)
  deriving DecidableEq, Repr

/-- What one turn of the loop starts. -/
inductive Effect (σ : Type)
  /-- Spawns `do_update_next_sequence_and_sync_messages`. -/
  | updateNextSequence (workerId : String) (poolId : Nat) (sender : σ)
      (messages : List SignedMessage)
  /-- Spawns `do_sync_message`. -/
  | syncMessage (workerId : String) (poolId : Nat) (sender : σ) (message : SignedMessage)
  /-- Sends `send_worker_update_message` on the bus. -/
  | workerUpdate (workerId : String) (text : String)
  deriving DecidableEq, Repr

/-- Whether an effect submits the message `q` of `s`. -/
def Effect.sends {σ : Type} [DecidableEq σ] (s : σ) (q : Nat) : Effect σ → Bool
  | .syncMessage _ _ s' m => s' = s && m.sequence = q
  | _ => false

/-- How many times a turn submits the message `q` of `s`. -/
def submissions {σ : Type} [DecidableEq σ] (s : σ) (q : Nat) (effects : List (Effect σ)) : Nat :=
  effects.countP (Effect.sends s q)

namespace SenderContext

/-- The context with `q` marked pending at height `h`: a new context, or a retry that counts
one more try. -/
def markSubmitted (c : SenderContext) (q h : Nat) : SenderContext :=
  { c with pendingMessages := (c.pendingMessages.insert q
      ⟨.pending, h, ((c.pendingMessages.lookup q).map (·.prevTryCount + 1)).getD 0⟩) }

/-- The `pending_messages.entry(message.sequence)` match of the loop: a retry of a context that
is neither pending nor successful, or a new one; `true` when the message is sent. -/
def syncEntry (c : SenderContext) (h : Nat) (message : SignedMessage) : SenderContext × Bool :=
  match c.pendingMessages.lookup message.sequence with
  | some m =>
    if m.isPendingOrSuccess h then (c, false)
    else ({ c with pendingMessages := (c.pendingMessages.insert message.sequence
        { m with state := .pending, submittedAt := h, prevTryCount := m.prevTryCount + 1 }) },
      true)
  | none => ({ c with pendingMessages := (c.pendingMessages.insert message.sequence
      ⟨.pending, h, 0⟩) }, true)

/-- One pass of the `for message in messages` loop of `DoSyncMessages`, `true` when the
message is sent. -/
def syncOne (c : SenderContext) (h : Nat) (message : SignedMessage) : SenderContext × Bool :=
  if message.sequence ≠ c.calculateNextSequence h then (c, false) else c.syncEntry h message

/-- The `for message in messages` loop: the final context and the messages sent, in order. -/
def syncBatch (c : SenderContext) (h : Nat) : List SignedMessage → SenderContext × List SignedMessage
  | [] => (c, [])
  | message :: messages =>
    let r := c.syncOne h message
    let r' := r.1.syncBatch h messages
    (r'.1, if r.2 then message :: r'.2 else r'.2)

/-! ### One pass of the loop -/

@[simp] theorem markSubmitted_nodeNextSequence (c : SenderContext) (q h : Nat) :
    (c.markSubmitted q h).nodeNextSequence = c.nodeNextSequence := rfl

theorem lookup_markSubmitted (c : SenderContext) (q h t : Nat) :
    (c.markSubmitted q h).pendingMessages.lookup t =
      if t = q then
        some ⟨.pending, h, ((c.pendingMessages.lookup q).map (·.prevTryCount + 1)).getD 0⟩
      else c.pendingMessages.lookup t := by
  split_ifs with ht
  · subst ht; exact AList.lookup_insert _
  · exact AList.lookup_insert_ne ht

/-- A message just marked at `h` is pending at `h`; the other sequences keep their status. -/
theorem pendingOrSuccessAt_markSubmitted (c : SenderContext) (q h t : Nat) :
    (c.markSubmitted q h).pendingOrSuccessAt h t =
      if t = q then true else c.pendingOrSuccessAt h t := by
  unfold pendingOrSuccessAt
  rw [lookup_markSubmitted]
  split_ifs <;> simp [MessageContext.isPendingOrSuccess, MessageContext.isPending]

/-- A pass sends the message exactly when its sequence is `calculate_next_sequence`: the
context found there, if any, is then neither pending nor successful. -/
theorem syncOne_eq (c : SenderContext) (h : Nat) (m : SignedMessage) :
    c.syncOne h m = if m.sequence = c.calculateNextSequence h
      then (c.markSubmitted m.sequence h, true) else (c, false) := by
  obtain ⟨q⟩ := m
  unfold syncOne syncEntry
  by_cases hm : q = c.calculateNextSequence h
  · subst hm
    have hpos := (c.calculateNextSequence_spec h).2.2
    cases hl : c.pendingMessages.lookup (c.calculateNextSequence h) with
    | none => simp [markSubmitted, hl]
    | some mc =>
      simp only [pendingOrSuccessAt, hl, Option.map_some', Option.getD_some] at hpos
      simp [markSubmitted, hl, hpos]
  · simp [hm]

/-- Marking the next sequence moves `calculate_next_sequence` past it. -/
theorem calculateNextSequence_lt_markSubmitted (c : SenderContext) (h : Nat) :
    c.calculateNextSequence h <
      (c.markSubmitted (c.calculateNextSequence h) h).calculateNextSequence h := by
  obtain ⟨hle, hall, -⟩ := c.calculateNextSequence_spec h
  obtain ⟨hle', -, hend'⟩ := (c.markSubmitted (c.calculateNextSequence h) h).calculateNextSequence_spec h
  rw [pendingOrSuccessAt_markSubmitted] at hend'
  simp only [markSubmitted_nodeNextSequence] at hle'
  by_contra hge
  split_ifs at hend' with heq
  simp [hall _ hle' (by omega)] at hend'

/-! ### The loop -/

@[simp] theorem syncBatch_nodeNextSequence (c : SenderContext) (h : Nat) (ms : List SignedMessage) :
    (c.syncBatch h ms).1.nodeNextSequence = c.nodeNextSequence := by
  induction ms generalizing c with
  | nil => rfl
  | cons m ms ih =>
    simp only [syncBatch, syncOne_eq]
    split_ifs <;> simp [ih]

/-- The loop only moves `calculate_next_sequence` forward, and sends strictly increasing
sequences, each from the first `calculate_next_sequence` on and below the last. -/
theorem syncBatch_sent (c : SenderContext) (h : Nat) (ms : List SignedMessage) :
    c.calculateNextSequence h ≤ (c.syncBatch h ms).1.calculateNextSequence h ∧
    ((c.syncBatch h ms).2.map (·.sequence)).Pairwise (· < ·) ∧
    ∀ q ∈ (c.syncBatch h ms).2.map (·.sequence),
      c.calculateNextSequence h ≤ q ∧ q < (c.syncBatch h ms).1.calculateNextSequence h := by
  induction ms generalizing c with
  | nil => simp [syncBatch]
  | cons m ms ih =>
    by_cases hm : m.sequence = c.calculateNextSequence h
    · obtain ⟨hmono, hpair, hsent⟩ := ih (c.markSubmitted m.sequence h)
      have hlt := calculateNextSequence_lt_markSubmitted c h
      rw [← hm] at hlt
      simp only [syncBatch, syncOne_eq, if_pos hm, ite_true, List.map_cons, List.pairwise_cons,
        List.mem_cons, forall_eq_or_imp]
      refine ⟨by omega, ⟨fun q hq => by have := hsent q hq; omega, hpair⟩, ⟨by omega, by omega⟩,
        fun q hq => by have := hsent q hq; omega⟩
    · simpa only [syncBatch, syncOne_eq, if_neg hm] using ih c

/-- A pass leaves a pending-or-successful sequence pending or successful. -/
theorem pendingOrSuccessAt_syncOne (c : SenderContext) (h : Nat) (m : SignedMessage) {t : Nat}
    (ht : c.pendingOrSuccessAt h t = true) : (c.syncOne h m).1.pendingOrSuccessAt h t = true := by
  rw [syncOne_eq]
  split_ifs
  · rw [pendingOrSuccessAt_markSubmitted]
    split_ifs <;> simp [ht]
  · exact ht

/-- A message whose sequence is pending or successful is skipped. -/
theorem syncOne_of_pendingOrSuccessAt (c : SenderContext) (h : Nat) (m : SignedMessage)
    (hm : c.pendingOrSuccessAt h m.sequence = true) : c.syncOne h m = (c, false) := by
  rw [syncOne_eq, if_neg]
  intro heq
  have hstop := (c.calculateNextSequence_spec h).2.2
  rw [← heq, hm] at hstop
  cases hstop

/-- Dropping from a batch messages whose sequences are pending or successful changes nothing. -/
theorem syncBatch_filter (c : SenderContext) (h : Nat) (keep : SignedMessage → Bool)
    (ms : List SignedMessage)
    (hkeep : ∀ m ∈ ms, keep m = false → c.pendingOrSuccessAt h m.sequence = true) :
    c.syncBatch h (ms.filter keep) = c.syncBatch h ms := by
  induction ms generalizing c with
  | nil => rfl
  | cons m ms ih =>
    have hrest := fun m' hm' => hkeep m' (List.mem_cons_of_mem m hm')
    by_cases hk : keep m = true
    · rw [List.filter_cons_of_pos hk]
      simp only [syncBatch]
      rw [ih _ fun m' hm' hk' => pendingOrSuccessAt_syncOne c h m (hrest m' hm' hk')]
    · rw [List.filter_cons_of_neg hk, ih c hrest]
      simp only [syncBatch, syncOne_of_pendingOrSuccessAt c h m
        (hkeep m (List.mem_cons_self m ms) (by simpa using hk))]
      rfl

/-- The `node_next_sequence` overwrite by a fresh value. -/
def withNextSequence (c : SenderContext) : Option Nat → SenderContext
  | some n => { c with nodeNextSequence := n }
  | none => c

end SenderContext

/-- The state `master_loop` keeps: `sender_contexts` and `current_height`. -/
structure Dispatcher (σ : Type) where
  senderContexts : AList (fun _ : σ => SenderContext)
  currentHeight : Nat

variable {σ : Type} [DecidableEq σ]

namespace Dispatcher

/-- The state before the first event. -/
def init : Dispatcher σ := ⟨∅, 0⟩

/-- The `SyncMessages` arm: keep the messages without a context or whose context timed out or
failed, and if any is left spawn the refresh of `node_next_sequence`. -/
def syncMessages (d : Dispatcher σ) (workerId : String) (poolId : Nat) (sender : σ)
    (messages : List SignedMessage) : List (Effect σ) :=
  let messages := match d.senderContexts.lookup sender with
    | some c => messages.filter fun message =>
        ((c.pendingMessages.lookup message.sequence).map
          (·.isTimeoutOrFailure d.currentHeight)).getD true
    | none => messages
  if messages.isEmpty then [] else [.updateNextSequence workerId poolId sender messages]

/-- The `sender_contexts.entry(..)` match of `DoSyncMessages`: a known sender's context, a new
one if a next sequence came with the event, and none otherwise (the batch is dropped). -/
def contextFor (d : Dispatcher σ) (sender : σ) (nextSequence : Option Nat) :
    Option SenderContext :=
  match d.senderContexts.lookup sender, nextSequence with
  | some c, _ => some c
  | none, some n => some ⟨n, ∅⟩
  | none, none => none

/-- The `DoSyncMessages` arm. -/
def doSyncMessages (d : Dispatcher σ) (workerId : String) (poolId : Nat) (sender : σ)
    (messages : List SignedMessage) (nextSequence : Option Nat) :
    Dispatcher σ × List (Effect σ) :=
  match d.contextFor sender nextSequence with
  | none => (d, [])
  | some c =>
    let r := (c.withNextSequence nextSequence).syncBatch d.currentHeight messages
    ({ d with senderContexts := d.senderContexts.insert sender r.1 },
      r.2.map (.syncMessage workerId poolId sender))

/-- The state a submission result puts its message in. -/
def resultState : SyncResult → MessageState
  | .ok => .successful
  | .err text => if isTimedOut text then .timeout else .failure

/-- The `Completed` arm: record the result; an unknown sender or sequence is dropped. -/
def completed (d : Dispatcher σ) (workerId : String) (sender : σ) (sequence : Nat)
    (result : SyncResult) : Dispatcher σ × List (Effect σ) :=
  match d.senderContexts.lookup sender with
  | none => (d, [])
  | some c =>
    match c.pendingMessages.lookup sequence with
    | none => (d, [])
    | some m =>
      ({ d with senderContexts := (d.senderContexts.insert sender
          { c with pendingMessages := (c.pendingMessages.insert sequence
              { m with state := resultState result }) }) },
        match result with
        | .ok => []
        | .err text =>
          [.workerUpdate workerId ("Sync offchain message met error, will retry. " ++ text)])

/-- One turn of `master_loop`. -/
def handle (d : Dispatcher σ) : MessagesEvent σ → Dispatcher σ × List (Effect σ)
  | .syncMessages w p s ms => (d, d.syncMessages w p s ms)
  | .doSyncMessages w p s ms n => d.doSyncMessages w p s ms n
  | .completed w s q r => d.completed w s q r
  | .removeSender s => ({ d with senderContexts := d.senderContexts.erase s }, [])
  | .currentHeight h => ({ d with currentHeight := h }, [])

/-- The state after a sequence of events. -/
def run (d : Dispatcher σ) : List (MessagesEvent σ) → Dispatcher σ
  | [] => d
  | e :: es => (d.handle e).1.run es

/-- The sequence an effect hands to `do_sync_message`, if it is a submission. -/
def syncedSequence : Effect σ → Option Nat
  | .syncMessage _ _ _ m => some m.sequence
  | _ => none

/-- Within one `DoSyncMessages` event, in any state, the sequences handed to `do_sync_message`
strictly increase, and each `q` lies above a run `[node_next_sequence, q)` of
pending-or-successful contexts at the current height. The statement is about the end of the
turn; for any batch it covers every point of the loop, which is the end of the turn on a
prefix of the batch. -/
theorem doSyncMessages_submits_in_order (d : Dispatcher σ) (w : String) (p : Nat) (s : σ)
    (ms : List SignedMessage) (n : Option Nat) :
    ((d.handle (.doSyncMessages w p s ms n)).2.filterMap syncedSequence).Pairwise (· < ·) ∧
    ∀ q ∈ (d.handle (.doSyncMessages w p s ms n)).2.filterMap syncedSequence,
      ∃ c, (d.handle (.doSyncMessages w p s ms n)).1.senderContexts.lookup s = some c ∧
        c.nodeNextSequence ≤ q ∧
        ∀ t, c.nodeNextSequence ≤ t → t < q → c.pendingOrSuccessAt d.currentHeight t = true := by
  simp only [handle, doSyncMessages]
  cases d.contextFor s n with
  | none => simp
  | some c =>
    dsimp only
    generalize c.withNextSequence n = c₁
    have hsent : (((c₁.syncBatch d.currentHeight ms).2.map (.syncMessage w p s)).filterMap
        syncedSequence) = (c₁.syncBatch d.currentHeight ms).2.map (·.sequence) := by
      rw [List.filterMap_map]
      exact congrFun (List.filterMap_eq_map SignedMessage.sequence) _
    obtain ⟨-, hpair, hbound⟩ := c₁.syncBatch_sent d.currentHeight ms
    obtain ⟨hnns, -, -⟩ := c₁.calculateNextSequence_spec d.currentHeight
    obtain ⟨-, hfinal, -⟩ := (c₁.syncBatch d.currentHeight ms).1.calculateNextSequence_spec
      d.currentHeight
    simp only [SenderContext.syncBatch_nodeNextSequence] at hfinal
    rw [hsent]
    refine ⟨hpair, fun q hq => ⟨_, AList.lookup_insert _, ?_⟩⟩
    obtain ⟨hlo, hhi⟩ := hbound q hq
    simp only [SenderContext.syncBatch_nodeNextSequence]
    exact ⟨by omega, fun t h₁ h₂ => hfinal t h₁ (by omega)⟩

/-! ## The filter of `SyncMessages` -/

/-- The messages the `SyncMessages` arm passes on: all of them for an unknown sender, else those
without a context or whose context timed out or failed. -/
def syncCandidates (d : Dispatcher σ) (sender : σ) (messages : List SignedMessage) :
    List SignedMessage :=
  match d.senderContexts.lookup sender with
  | some c => messages.filter fun message =>
      ((c.pendingMessages.lookup message.sequence).map
        (·.isTimeoutOrFailure d.currentHeight)).getD true
  | none => messages

theorem syncMessages_eq (d : Dispatcher σ) (w : String) (p : Nat) (s : σ)
    (ms : List SignedMessage) :
    d.syncMessages w p s ms = if (d.syncCandidates s ms).isEmpty then []
      else [.updateNextSequence w p s (d.syncCandidates s ms)] := rfl

/-- The filter of `SyncMessages` only drops messages that `DoSyncMessages` would skip: in the
state the filter saw, whatever `next_sequence` the refresh brings back, `DoSyncMessages` on the
messages passed on leaves the same state and submits the same messages as on the whole batch.
When the filter leaves nothing, the whole batch would have submitted nothing. -/
theorem doSyncMessages_syncCandidates (d : Dispatcher σ) (w : String) (p : Nat) (s : σ)
    (ms : List SignedMessage) (n : Option Nat) :
    d.doSyncMessages w p s (d.syncCandidates s ms) n = d.doSyncMessages w p s ms n := by
  unfold syncCandidates
  cases hl : d.senderContexts.lookup s with
  | none => rfl
  | some c =>
    have hc : d.contextFor s n = some c := by simp [contextFor, hl]
    have hpm : (c.withNextSequence n).pendingMessages = c.pendingMessages := by cases n <;> rfl
    simp only [doSyncMessages, hc]
    rw [SenderContext.syncBatch_filter]
    intro m _ hk
    cases hm : c.pendingMessages.lookup m.sequence with
    | none => simp [hm] at hk
    | some mc =>
      simp only [hm, Option.map_some', Option.getD_some, MessageContext.isTimeoutOrFailure,
        Bool.not_eq_false'] at hk
      simp [SenderContext.pendingOrSuccessAt, hpm, hm, hk]

end Dispatcher

/-! ## A batch without gaps -/

namespace SenderContext

/-- Above a run of pending-or-successful sequences from `node_next_sequence`, the first sequence
that is not is `calculate_next_sequence`. -/
theorem calculateNextSequence_eq_of_run (c : SenderContext) {h t : Nat}
    (hle : c.nodeNextSequence ≤ t)
    (hrun : ∀ u, c.nodeNextSequence ≤ u → u < t → c.pendingOrSuccessAt h u = true)
    (ht : c.pendingOrSuccessAt h t = false) : c.calculateNextSequence h = t := by
  obtain ⟨hnns, hall, hend⟩ := c.calculateNextSequence_spec h
  rcases Nat.lt_trichotomy (c.calculateNextSequence h) t with hlt | heq | hgt
  · rw [hrun _ hnns hlt] at hend
    cases hend
  · exact heq
  · rw [hall t hle hgt] at ht
    cases ht

/-- The loop of `DoSyncMessages` on consecutive sequences from `t`, above a run of
pending-or-successful sequences from `node_next_sequence`, sends exactly the messages whose
sequence is neither pending nor successful, in order. -/
theorem syncBatch_range' (c : SenderContext) (h k t : Nat) (hle : c.nodeNextSequence ≤ t)
    (hrun : ∀ u, c.nodeNextSequence ≤ u → u < t → c.pendingOrSuccessAt h u = true) :
    (c.syncBatch h ((List.range' t k).map SignedMessage.mk)).2 =
      ((List.range' t k).filter fun u => !c.pendingOrSuccessAt h u).map SignedMessage.mk := by
  induction k generalizing c t with
  | zero => rfl
  | succ k ih =>
    have hrest : ∀ u ∈ List.range' (t + 1) k, u ≠ t := fun u hu =>
      Nat.ne_of_gt (List.mem_range'_1.1 hu).1
    rw [List.range'_succ, List.map_cons, List.filter_cons]
    by_cases ht : c.pendingOrSuccessAt h t = true
    · -- pending or successful: `calculate_next_sequence` is past it, and it is skipped
      have hne : ¬(t = c.calculateNextSequence h) := fun heq => by
        rw [heq, (c.calculateNextSequence_spec h).2.2] at ht
        cases ht
      simp only [syncBatch, syncOne_eq, if_neg hne, ht, Bool.not_true, Bool.false_eq_true,
        if_false]
      refine ih c (t + 1) (by omega) fun u h₁ h₂ => ?_
      rcases Nat.lt_succ_iff_lt_or_eq.1 h₂ with hlt | rfl
      · exact hrun u h₁ hlt
      · exact ht
    · -- neither: it is `calculate_next_sequence`, sent and marked pending
      have hf : c.pendingOrSuccessAt h t = false := by simpa using ht
      have heq := c.calculateNextSequence_eq_of_run hle hrun hf
      simp only [syncBatch, syncOne_eq, if_pos heq.symm, hf, Bool.not_false, if_true,
        List.map_cons]
      rw [ih (c.markSubmitted t h) (t + 1) (by simp only [markSubmitted_nodeNextSequence]; omega)
        fun u h₁ h₂ => ?_]
      · congr 2
        refine List.filter_congr fun u hu => ?_
        rw [pendingOrSuccessAt_markSubmitted, if_neg (hrest u hu)]
      · rw [pendingOrSuccessAt_markSubmitted]
        split_ifs with hu
        · rfl
        · exact hrun u h₁ (by omega)

end SenderContext

namespace Dispatcher

/-- A `DoSyncMessages` batch of consecutive sequences from `calculate_next_sequence` of the
sender's context is submitted without a gap: exactly the messages whose context is neither
pending nor successful at the current height are handed to `do_sync_message`, in order. Since
nothing is ever submitted past a gap, this is all a turn can do for a batch in order. -/
theorem doSyncMessages_range' (d : Dispatcher σ) (w : String) (p : Nat) (s : σ)
    (n : Option Nat) (c : SenderContext) (hc : d.contextFor s n = some c) (k : Nat) :
    (d.doSyncMessages w p s ((List.range'
        ((c.withNextSequence n).calculateNextSequence d.currentHeight) k).map SignedMessage.mk)
        n).2 =
      ((List.range' ((c.withNextSequence n).calculateNextSequence d.currentHeight) k).filter
        fun t => !(c.withNextSequence n).pendingOrSuccessAt d.currentHeight t).map
        fun t => .syncMessage w p s ⟨t⟩ := by
  obtain ⟨hle, hrun, -⟩ := (c.withNextSequence n).calculateNextSequence_spec d.currentHeight
  simp only [doSyncMessages, hc]
  rw [SenderContext.syncBatch_range' _ _ _ _ hle hrun, List.map_map]
  rfl

/-- A new sender whose node expects sequence `0`: the batch `0, 1` is submitted whole. -/
theorem fresh_sender_batch_submitted :
    (init : Dispatcher Nat).contextFor 0 (some 0) = some ⟨0, ∅⟩ ∧
    ((init : Dispatcher Nat).doSyncMessages "w" 0 0 ((List.range'
        ((SenderContext.withNextSequence ⟨0, ∅⟩ (some 0)).calculateNextSequence
          (init : Dispatcher Nat).currentHeight) 2).map SignedMessage.mk) (some 0)).2 =
      ((List.range' ((SenderContext.withNextSequence ⟨0, ∅⟩ (some 0)).calculateNextSequence
          (init : Dispatcher Nat).currentHeight) 2).filter
        fun t => !(SenderContext.withNextSequence ⟨0, ∅⟩ (some 0)).pendingOrSuccessAt
          (init : Dispatcher Nat).currentHeight t).map
        fun t => .syncMessage "w" 0 0 ⟨t⟩ :=
  ⟨rfl, doSyncMessages_range' init "w" 0 0 (some 0) ⟨0, ∅⟩ rfl 2⟩

end Dispatcher

end PhalaCore.Prb
