import PhalaCore.Replay.Driver

/-!
# Blocks and checkpoints of the replay

Over every run of the block loop, whatever the node replies (`run_progress`):

* `dispatch_block` is called on `b0, b0 + 1, …` in order, each below `stop_at`, where `b0` is
  `start_at + 1` for a fresh factory and `current_block + 1` for a restored one, as `u32` sums;
  each block is applied to the factory its predecessor left (`dispatches_consecutive`). From
  `start_at = u32::MAX` the sum wraps and the loop starts at block `0`
  (`start_at_max_replays_block_zero`);
* a checkpoint is written at each accepted block that the rule
  `block_number >= checkpoint_interval + last_checkpoint_block` picks (`dueCheckpoints`). While
  that `u32` sum does not wrap, these are every `checkpoint_interval`-th block from
  `max(b0, last_checkpoint_block + checkpoint_interval)` on (`checkpoints_every_interval`). A
  large interval makes it wrap, and then the next block gets a checkpoint
  (`wrapped_interval_checkpoints_next_block`).
-/

namespace PhalaCore.Replay

/-- The checkpoints the loop's rule takes over the accepted blocks `bs`, the last one before them
being `last`. -/
def dueCheckpoints (interval : Nat) : Nat → List Nat → List Nat
  | _, [] => []
  | last, b :: bs =>
    if 0 < interval ∧ u32Add interval last ≤ b then b :: dueCheckpoints interval b bs
    else dueCheckpoints interval last bs

/-- Past a checkpoint at `s`, a block is `interval`-th from `s` exactly when it is from
`s + interval`. -/
private theorem on_cadence_shift (s i b : Nat) (hb : s < b) :
    (s ≤ b ∧ (b - s) % i = 0) ↔ (s + i ≤ b ∧ (b - (s + i)) % i = 0) := by
  by_cases h : s + i ≤ b
  · have : b - s = b - (s + i) + i := by omega
    rw [this, Nat.add_mod_right]
    exact ⟨fun ⟨_, hm⟩ => ⟨h, hm⟩, fun ⟨_, hm⟩ => ⟨hb.le, hm⟩⟩
  · have : (b - s) % i = b - s := Nat.mod_eq_of_lt (by omega)
    rw [this]
    omega

/-- Over consecutive blocks from `s`, as long as no sum `c + interval` reaches `2^32`, the rule
takes every `interval`-th block from `max s (last + interval)` on. -/
theorem dueCheckpoints_range' (interval : Nat) (hpos : 0 < interval) (s n last : Nat)
    (hnowrap : ∀ c ∈ last :: dueCheckpoints interval last (List.range' s n),
      c + interval < 2 ^ 32) :
    dueCheckpoints interval last (List.range' s n) = (List.range' s n).filter fun b =>
      max s (last + interval) ≤ b ∧ (b - max s (last + interval)) % interval = 0 := by
  induction n generalizing s last with
  | zero => rfl
  | succ n ih =>
    have hu : u32Add interval last = last + interval := by
      rw [u32Add, Nat.add_comm]
      exact Nat.mod_eq_of_lt (hnowrap last (List.mem_cons_self _ _))
    rw [List.range'_succ, dueCheckpoints, hu] at hnowrap ⊢
    by_cases hdue : last + interval ≤ s
    · have hc : 0 < interval ∧ last + interval ≤ s := ⟨hpos, hdue⟩
      rw [if_pos hc] at hnowrap ⊢
      rw [ih (s + 1) s (fun c hc => hnowrap c (List.mem_cons_of_mem _ hc)),
        max_eq_left hdue, max_eq_right (by omega : s + 1 ≤ s + interval), List.filter_cons_of_pos
          (by simp)]
      congr 1
      refine List.filter_congr fun b hb => ?_
      rw [List.mem_range'_1] at hb
      exact decide_eq_decide.2 (on_cadence_shift s interval b (by omega)).symm
    · have hc : ¬(0 < interval ∧ last + interval ≤ s) := fun h => hdue h.2
      rw [if_neg hc] at hnowrap ⊢
      rw [ih (s + 1) last hnowrap, max_eq_right (by omega : s + 1 ≤ last + interval),
        max_eq_right (by omega : s ≤ last + interval), List.filter_cons_of_neg (by simp; omega)]

variable {P : Phactory}

namespace Driver

variable (args : Args) (eventTx : Bool)

/-- What a stretch of the loop from `d` did to the blocks, ending in `d'` after the events `es`. -/
structure Progress (d d' : Driver P) (es : List (Event P)) : Prop where
  dispatched : (dispatchedBlocks es).map (·.number) =
    List.range' d.blockNumber (dispatchedBlocks es).length
  accepted : acceptedBlocks es = List.range' d.blockNumber (acceptedBlocks es).length
  below_stop : ∀ b ∈ dispatchedBlocks es, b.number < args.stopBlock
  accepted_below_stop : ∀ b ∈ acceptedBlocks es, b < args.stopBlock
  factory : d'.factory = (d.factory.dispatchBlocks eventTx (dispatchedBlocks es)).1
  checkpoints : checkpointBlocks es =
    dueCheckpoints args.checkpointInterval d.lastCheckpointBlock (acceptedBlocks es)

theorem Progress.nil (d : Driver P) : Progress args eventTx d d [] :=
  ⟨rfl, rfl, nofun, nofun, rfl, rfl⟩

/-- Events that only move the loop change nothing of it. -/
theorem Progress.moves {d d' : Driver P} {p : Pc P} {es tail : List (Event P)}
    (hq : ∀ e ∈ es, e.Quiet) (h : Progress args eventTx { d with pc := p } d' tail) :
    Progress args eventTx d d' (es ++ tail) := by
  obtain ⟨h₁, h₂, h₃⟩ := projections_of_quiet hq
  obtain ⟨k₁, k₂, k₃, k₄, k₅, k₆⟩ := h
  refine ⟨?_, ?_, ?_, ?_, ?_, ?_⟩ <;>
    simp only [dispatchedBlocks_append, acceptedBlocks_append, checkpointBlocks_append, h₁, h₂, h₃,
      List.nil_append] <;> assumption

/-- A rejected block ends the run after its `dispatch_block` call. -/
theorem Progress.dispatch_rejected {d : Driver P} (block : Block P)
    (hb : block.number = d.blockNumber) (hlt : d.blockNumber < args.stopBlock) :
    Progress args eventTx d
      { d with factory := (d.factory.dispatchBlock block eventTx).factory, pc := .panicked m }
      [.dispatched block d.factory false] :=
  ⟨by simp [hb], rfl, by simpa [hb] using hlt, nofun, rfl, rfl⟩

/-- An accepted block, with its checkpoint if one is due, then the rest of the run from the next
block. -/
theorem Progress.dispatch_accepted {d d' : Driver P} {block : Block P} {tail : List (Event P)}
    (hb : block.number = d.blockNumber) (hlt : d.blockNumber < args.stopBlock)
    (h : Progress args eventTx (enter args
      { (takeCheckpoint args
          { d with factory := (d.factory.dispatchBlock block eventTx).factory }).1 with
        blockNumber := u32Add d.blockNumber 1 }) d' tail) :
    Progress args eventTx d d' (.dispatched block d.factory true ::
      (takeCheckpoint args
        { d with factory := (d.factory.dispatchBlock block eventTx).factory }).2 ++ tail) := by
  obtain ⟨hlast, hd, ha, hc⟩ :=
    takeCheckpoint_spec args { d with factory := (d.factory.dispatchBlock block eventTx).factory }
  have hsucc : u32Add d.blockNumber 1 = d.blockNumber + 1 :=
    Nat.mod_eq_of_lt (by have := args.stopBlock_lt; omega)
  obtain ⟨h₁, h₂, h₃, h₄, h₅, h₆⟩ := h
  simp only [enter_blockNumber, enter_factory, enter_lastCheckpointBlock,
    takeCheckpoint_blockNumber, takeCheckpoint_factory, hsucc, hlast] at h₁ h₂ h₅ h₆
  have hdue : CheckpointDue args
      { d with factory := (d.factory.dispatchBlock block eventTx).factory } ↔
      CheckpointDue args d := Iff.rfl
  refine ⟨?_, ?_, ?_, ?_, ?_, ?_⟩ <;>
    simp only [List.cons_append, dispatchedBlocks_dispatched, acceptedBlocks_dispatched_true,
      checkpointBlocks_dispatched, dispatchedBlocks_append, acceptedBlocks_append,
      checkpointBlocks_append, hd, ha, hc, hdue, List.nil_append] at h₆ ⊢
  · rw [List.map_cons, h₁, hb, List.length_cons, List.range'_succ]
  · rw [List.length_cons, List.range'_succ, hb, ← h₂]
  · simpa [hb, hlt] using h₃
  · simpa [hb, hlt] using h₄
  · exact h₅
  · rw [h₆, hb, dueCheckpoints]
    by_cases hd : CheckpointDue args d
    · rw [if_pos hd, if_pos hd, if_pos (show 0 < args.checkpointInterval ∧ _ from hd)]
      rfl
    · rw [if_neg hd, if_neg hd, if_neg (show ¬(0 < args.checkpointInterval ∧ _) from hd)]
      rfl

theorem run_progress {d : Driver P} (hinv : Inv args d) (rs : List (Reply P)) :
    Progress args eventTx d (run args eventTx d rs).1 (run args eventTx d rs).2 := by
  induction rs generalizing d with
  | nil => exact .nil args eventTx d
  | cons r rs ih =>
    cases hs : step args eventTx d r with
    | none =>
      rw [run_cons_of_stuck args eventTx rs hs]
      exact .nil args eventTx d
    | some x =>
      obtain ⟨d', es⟩ := x
      have hlt := hinv (step_live args eventTx hs)
      have ih' := ih (step_inv args eventTx hinv hs)
      rw [run_cons_of_step args eventTx rs hs]
      rcases step_moves args eventTx hs with ⟨ch, root, -, -, hx⟩ | ⟨⟨p, hp⟩, hq⟩
      · rcases replayBlock_ok args eventTx d ch root with he | he <;> rw [he] at hx <;> cases hx
        · rw [run_of_final args eventTx rs (.inr (.inr ⟨_, rfl⟩))]
          exact .dispatch_rejected args eventTx _ rfl hlt
        · exact .dispatch_accepted args eventTx rfl hlt ih'
      · cases (show d' = _ from hp)
        exact .moves args eventTx hq ih'

end Driver

/-- Whatever the node replies, `dispatch_block` is called on `b0, b0 + 1, …` in order, each once
and below `stop_at`, so that `block_number += 1` never passes `u32::MAX`; `b0` is `start_at + 1`
for a fresh factory and `current_block + 1` for a restored one, both as `u32` sums. Each block is
applied to the factory its predecessor left. -/
theorem dispatches_consecutive (args : Args) (eventTx : Bool) (f : ReplayFactory P)
    (rs : List (Reply P)) :
    let x := (Driver.start args f).run args eventTx rs
    let b₀ := if f.currentBlock = 0 then u32Add args.startAt 1 else u32Add f.currentBlock 1
    (dispatchedBlocks x.2).map (·.number) = List.range' b₀ (dispatchedBlocks x.2).length ∧
    (∀ b ∈ dispatchedBlocks x.2, b.number < args.stopBlock ∧ b.number + 1 < 2 ^ 32) ∧
    x.1.factory = (f.dispatchBlocks eventTx (dispatchedBlocks x.2)).1 := by
  have h := Driver.run_progress args eventTx (Driver.start_inv args f) rs
  refine ⟨h.dispatched, fun b hb => ?_, h.factory⟩
  have := h.below_stop b hb
  have := args.stopBlock_lt
  exact ⟨by assumption, by omega⟩

example : ((dispatchedBlocks ((Driver.start plainArgs tinyFactory).run plainArgs false
    (blockReplies ++ blockReplies)).2).map (·.number)) = [1, 2] := by decide

/-- A fresh replay from `start_at = u32::MAX`. -/
def maxStartArgs : Args := ⟨2 ^ 32 - 1, none, 0, 0, by decide, by decide, by decide, by decide⟩

/-- From `start_at = u32::MAX`, `start_at + 1` wraps to `0`: the loop starts at block `0` and
dispatches it, on the storage fetched at `start_at`. -/
theorem start_at_max_replays_block_zero :
    (Driver.start maxStartArgs tinyFactory).blockNumber = 0 ∧
      (dispatchedBlocks ((Driver.start maxStartArgs tinyFactory).run maxStartArgs false
        blockReplies).2).map (·.number) = [0] :=
  ⟨rfl, rfl⟩

/-- While `checkpoint_interval + last_checkpoint_block` stays below `2^32`, the checkpoints are the
accepted blocks `c1 = max(b0, last + interval)`, `c1 + interval`, …, all below `stop_at`. -/
theorem checkpoints_every_interval (args : Args) (eventTx : Bool) (f : ReplayFactory P)
    (rs : List (Reply P)) (hpos : 0 < args.checkpointInterval)
    (hnowrap : ∀ c ∈ f.currentBlock ::
      checkpointBlocks ((Driver.start args f).run args eventTx rs).2,
      c + args.checkpointInterval < 2 ^ 32) :
    let x := (Driver.start args f).run args eventTx rs
    let b₀ := if f.currentBlock = 0 then u32Add args.startAt 1 else u32Add f.currentBlock 1
    let c₁ := max b₀ (f.currentBlock + args.checkpointInterval)
    checkpointBlocks x.2 = (acceptedBlocks x.2).filter (fun b =>
      c₁ ≤ b ∧ (b - c₁) % args.checkpointInterval = 0) ∧
    ∀ c ∈ checkpointBlocks x.2, c < args.stopBlock := by
  intro x b₀ c₁
  have h : Driver.Progress args eventTx (Driver.start args f) x.1 x.2 :=
    Driver.run_progress args eventTx (Driver.start_inv args f) rs
  have hacc : acceptedBlocks x.2 = List.range' b₀ (acceptedBlocks x.2).length := h.accepted
  have hcp : checkpointBlocks x.2 = dueCheckpoints args.checkpointInterval f.currentBlock
      (List.range' b₀ (acceptedBlocks x.2).length) := by
    rw [← hacc]
    exact h.checkpoints
  have hdue := dueCheckpoints_range' _ hpos _ _ _ (hcp ▸ hnowrap)
  refine ⟨by rw [hcp, hdue, ← hacc], fun c hc => ?_⟩
  rw [hcp, hdue, ← hacc] at hc
  exact h.accepted_below_stop c (List.mem_filter.1 hc).1

/-- Three blocks from a fresh factory with a checkpoint every second block: one at block `2`. -/
theorem every_second_block_checkpoint :
    checkpointBlocks ((Driver.start everySecondArgs tinyFactory).run everySecondArgs false
      (blockReplies ++ blockReplies ++ blockReplies)).2 = [2] := by
  rw [(checkpoints_every_interval everySecondArgs false tinyFactory
    (blockReplies ++ blockReplies ++ blockReplies) (by decide) (by decide)).1]
  decide

/-- The factory of a checkpoint at block `1`. -/
def restoredAtOne : ReplayFactory tinyPhactory := { tinyFactory with currentBlock := 1 }

/-- Restored at block `1` with a checkpoint every `u32::MAX` blocks: `1 + u32::MAX` wraps to `0`
and block `2`, the first one dispatched, gets a checkpoint. -/
theorem wrapped_interval_checkpoints_next_block :
    checkpointBlocks ((Driver.start widestIntervalArgs restoredAtOne).run widestIntervalArgs false
      blockReplies).2 = [2] ∧
    restoredAtOne.currentBlock + widestIntervalArgs.checkpointInterval = 2 ^ 32 :=
  ⟨by decide, rfl⟩

end PhalaCore.Replay
