import Mathlib.Data.List.AList
import Mathlib.Order.Interval.Finset.Nat

/-!
# Message contexts of the sequencer

`MessageContext` and `SenderContext` of `prb/src/messages.rs`: when a submitted message still
counts as pending, and `calculate_next_sequence`, the sequence the sender must submit next.
Heights are `u32` and sequences `u64` in the code. The code only compares heights and
subtracts them with `saturating_sub`, which is subtraction on `Nat`, so heights are `Nat`.
Sequences are `Nat` too, and `next_sequence += 1` counts in the naturals: this is the code while
that increment stays below `2 ^ 64`. `Prb.Wrap` runs the loop on a `u64` as a release build does,
and shows the two agree below that bound. `prev_try_count` is a `usize` kept as `Nat`: it counts
the submissions of the message, and would wrap only after `2 ^ 64` of them.

* `isPendingOrSuccess_iff`, `isTimeoutOrFailure_closed_form`: the closed form of the pending
  predicates; a message timed out or failed at some height stays so at every later height;
* `calculateNextSequence_spec`: the loop, run for as many iterations as `pending_messages` has
  keys, stops at the least sequence from `node_next_sequence` on without a pending or
  successful context;
* `calculateNextSequence_least`: the unbounded loop stops within that many iterations, more
  iterations change nothing, and the `u64` sequence does not overflow when
  `node_next_sequence` plus the number of keys fits;
* `calculateNextSequence_antitone`: in the naturals, as the height grows the next sequence never
  moves forward, only back to a message whose window has passed.
-/

namespace PhalaCore.Prb

/-- `TX_TIMEOUT_IN_BLOCKS`. -/
def txTimeoutInBlocks : Nat := 6

inductive MessageState
  | pending
  | successful
  | failure
  | timeout
  deriving DecidableEq, Repr

/-- `MessageContext`, without its `sender` and `sequence`, which only feed log lines. -/
structure MessageContext where
  state : MessageState
  submittedAt : Nat
  prevTryCount : Nat
  deriving DecidableEq, Repr

namespace MessageContext

/-- `is_pending`: a message reported as timed out keeps a grace window of
`TX_TIMEOUT_IN_BLOCKS` blocks, like one still pending. -/
def isPending (m : MessageContext) (currentHeight : Nat) : Bool :=
  match m.state with
  | .timeout =>
    if currentHeight ≤ m.submittedAt then true
    else if currentHeight - m.submittedAt ≤ txTimeoutInBlocks then true
    else false
  | .pending =>
    if currentHeight > m.submittedAt ∧ currentHeight - m.submittedAt > txTimeoutInBlocks then false
    else true
  | _ => false

def isPendingOrSuccess (m : MessageContext) (currentHeight : Nat) : Bool :=
  m.isPending currentHeight || m.state == .successful

def isTimeoutOrFailure (m : MessageContext) (currentHeight : Nat) : Bool :=
  !m.isPendingOrSuccess currentHeight

/-- Successful, or pending or timed out at most `TX_TIMEOUT_IN_BLOCKS` blocks after the last
submission. -/
theorem isPendingOrSuccess_iff (m : MessageContext) (h : Nat) :
    m.isPendingOrSuccess h = true ↔ m.state = .successful ∨
      ((m.state = .pending ∨ m.state = .timeout) ∧ h ≤ m.submittedAt + txTimeoutInBlocks) := by
  rcases m with ⟨_ | _ | _ | _, sub, k⟩ <;>
    simp [isPendingOrSuccess, isPending, txTimeoutInBlocks] <;> omega

theorem isTimeoutOrFailure_iff (m : MessageContext) (h : Nat) :
    m.isTimeoutOrFailure h = true ↔ m.state = .failure ∨
      ((m.state = .pending ∨ m.state = .timeout) ∧ m.submittedAt + txTimeoutInBlocks < h) := by
  rw [isTimeoutOrFailure, Bool.not_eq_true', ← Bool.not_eq_true, isPendingOrSuccess_iff]
  cases m.state <;> simp

/-- Failed, or pending or timed out more than `TX_TIMEOUT_IN_BLOCKS` blocks after the last
submission; so once a message counts as timed out or failed it stays so as the chain grows. -/
theorem isTimeoutOrFailure_closed_form (m : MessageContext) (h : Nat) :
    (m.isTimeoutOrFailure h = true ↔ m.state = .failure ∨
      ((m.state = .pending ∨ m.state = .timeout) ∧ m.submittedAt + txTimeoutInBlocks < h)) ∧
    ∀ h', h ≤ h' → m.isTimeoutOrFailure h = true → m.isTimeoutOrFailure h' = true := by
  refine ⟨m.isTimeoutOrFailure_iff h, fun h' hle hh => (m.isTimeoutOrFailure_iff h').2 ?_⟩
  rcases (m.isTimeoutOrFailure_iff h).1 hh with hf | ⟨hs, hlt⟩
  exacts [.inl hf, .inr ⟨hs, by omega⟩]

end MessageContext

/-- `SenderContext`, without its `sender`. -/
structure SenderContext where
  nodeNextSequence : Nat
  pendingMessages : AList (fun _ : Nat => MessageContext)

namespace SenderContext

/-- The condition of the loop of `calculate_next_sequence` at sequence `s`. -/
def pendingOrSuccessAt (c : SenderContext) (h s : Nat) : Bool :=
  ((c.pendingMessages.lookup s).map (·.isPendingOrSuccess h)).getD false

/-- The `while` loop of `calculate_next_sequence`, for at most `fuel` iterations. -/
def advance (c : SenderContext) (h : Nat) : Nat → Nat → Nat
  | 0, s => s
  | fuel + 1, s => if c.pendingOrSuccessAt h s then c.advance h fuel (s + 1) else s

/-- `calculate_next_sequence`. Every iteration passes a key of `pending_messages`, so as many
iterations as the map has keys are enough (`calculateNextSequence_spec`). -/
def calculateNextSequence (c : SenderContext) (h : Nat) : Nat :=
  c.advance h c.pendingMessages.keys.length c.nodeNextSequence

theorem pendingOrSuccessAt_iff (c : SenderContext) (h s : Nat) :
    c.pendingOrSuccessAt h s = true ↔
      ∃ m, c.pendingMessages.lookup s = some m ∧ m.isPendingOrSuccess h = true := by
  unfold pendingOrSuccessAt
  cases c.pendingMessages.lookup s <;> simp

theorem mem_keys_of_pendingOrSuccessAt {c : SenderContext} {h s : Nat}
    (hs : c.pendingOrSuccessAt h s = true) : s ∈ c.pendingMessages.keys := by
  obtain ⟨m, hm, -⟩ := (pendingOrSuccessAt_iff c h s).1 hs
  exact AList.mem_keys.1 (AList.lookup_isSome.1 (by simp [hm]))

/-- Either the loop stopped at a sequence failing the condition, or it ran out of fuel. -/
theorem advance_spec (c : SenderContext) (h fuel s : Nat) :
    s ≤ c.advance h fuel s ∧
    (∀ t, s ≤ t → t < c.advance h fuel s → c.pendingOrSuccessAt h t = true) ∧
    (c.pendingOrSuccessAt h (c.advance h fuel s) = false ∨ c.advance h fuel s = s + fuel) := by
  induction fuel generalizing s with
  | zero => exact ⟨le_rfl, fun t h₁ h₂ => absurd h₂ (by simp [advance]; omega), .inr rfl⟩
  | succ fuel ih =>
    cases hs : c.pendingOrSuccessAt h s with
    | false =>
      simp only [advance, hs, Bool.false_eq_true, ite_false]
      exact ⟨le_rfl, fun t h₁ h₂ => absurd h₂ (by omega), .inl trivial⟩
    | true =>
      obtain ⟨hle, hall, hend⟩ := ih (s + 1)
      simp only [advance, hs, ite_true]
      refine ⟨by omega, fun t h₁ h₂ => ?_, hend.imp id (by omega)⟩
      rcases Nat.eq_or_lt_of_le h₁ with rfl | h₁
      · exact hs
      · exact hall t h₁ h₂

/-- Pigeonhole: if the `n` sequences from `s` on are all keys of a map with `n` keys, then
`s + n` is not a key. -/
theorem not_mem_keys_after_block (c : SenderContext) (s : Nat)
    (hblock : ∀ t, s ≤ t → t < s + c.pendingMessages.keys.length → t ∈ c.pendingMessages.keys) :
    s + c.pendingMessages.keys.length ∉ c.pendingMessages.keys := by
  have hsub : Finset.Ico s (s + c.pendingMessages.keys.length) ⊆ c.pendingMessages.keys.toFinset :=
    fun t ht => by
      rw [Finset.mem_Ico] at ht
      exact List.mem_toFinset.2 (hblock t ht.1 ht.2)
  have hcard : c.pendingMessages.keys.toFinset.card ≤
      (Finset.Ico s (s + c.pendingMessages.keys.length)).card := by
    rw [List.toFinset_card_of_nodup (AList.keys_nodup _), Nat.card_Ico]
    omega
  rw [← List.mem_toFinset, ← Finset.eq_of_subset_of_card_le hsub hcard, Finset.mem_Ico]
  omega

/-- `calculate_next_sequence` returns the least sequence from `node_next_sequence` on whose
context is missing or neither pending nor successful. -/
theorem calculateNextSequence_spec (c : SenderContext) (h : Nat) :
    c.nodeNextSequence ≤ c.calculateNextSequence h ∧
    (∀ t, c.nodeNextSequence ≤ t → t < c.calculateNextSequence h →
      c.pendingOrSuccessAt h t = true) ∧
    c.pendingOrSuccessAt h (c.calculateNextSequence h) = false := by
  obtain ⟨hle, hall, hend⟩ := c.advance_spec h c.pendingMessages.keys.length c.nodeNextSequence
  refine ⟨hle, hall, hend.elim id fun hout => ?_⟩
  -- out of fuel: every key lies below the result, so the result is not a key
  have hnot := c.not_mem_keys_after_block c.nodeNextSequence fun t h₁ h₂ =>
    mem_keys_of_pendingOrSuccessAt (hall t h₁ (by rw [hout]; exact h₂))
  rw [← hout] at hnot
  exact Bool.eq_false_iff.2 fun hpos => hnot (mem_keys_of_pendingOrSuccessAt hpos)

/-- A context pending or successful at a height was so at every lower one. -/
theorem pendingOrSuccessAt_of_le (c : SenderContext) {h h' : Nat} (hle : h ≤ h') (s : Nat)
    (hs : c.pendingOrSuccessAt h' s = true) : c.pendingOrSuccessAt h s = true := by
  obtain ⟨m, hm, hpos⟩ := (pendingOrSuccessAt_iff c h' s).1 hs
  refine (pendingOrSuccessAt_iff c h s).2 ⟨m, hm, (m.isPendingOrSuccess_iff h).2 ?_⟩
  rcases (m.isPendingOrSuccess_iff h').1 hpos with hsucc | ⟨hst, hwin⟩
  exacts [.inl hsucc, .inr ⟨hst, by omega⟩]

/-- As the chain grows, `calculate_next_sequence` never moves forward: messages whose window
passes stop counting as pending, so the next sequence can only fall back to one to retry. -/
theorem calculateNextSequence_antitone (c : SenderContext) {h h' : Nat} (hle : h ≤ h') :
    c.calculateNextSequence h' ≤ c.calculateNextSequence h := by
  obtain ⟨-, hall', -⟩ := c.calculateNextSequence_spec h'
  obtain ⟨hle₀, -, hstop⟩ := c.calculateNextSequence_spec h
  by_contra hgt
  have := c.pendingOrSuccessAt_of_le hle _ (hall' _ hle₀ (Nat.lt_of_not_le hgt))
  rw [hstop] at this
  cases this

/-- A sender whose message `0` was submitted at height `0` and is still pending. -/
def onePending : SenderContext :=
  ⟨0, (∅ : AList fun _ : Nat => MessageContext).insert 0 ⟨.pending, 0, 0⟩⟩

example : onePending.calculateNextSequence 0 = 1 ∧ onePending.calculateNextSequence 7 = 0 := by
  decide

end SenderContext

end PhalaCore.Prb
