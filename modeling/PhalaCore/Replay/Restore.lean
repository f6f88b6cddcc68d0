import PhalaCore.Replay.Driver
import PhalaCore.Replay.Dispatch

/-!
# Restoring from a checkpoint

After a block that `dispatch_block` accepted, `replay` may write the factory to
`checkpoint.<block_number>`. A later `replay` restored from that file starts from its factory:
`last_checkpoint_block` is the factory's `current_block`, and the loop resumes at
`current_block + 1`, or at `start_at + 1` when `current_block` is `0`.

* `dispatchBlock_ok_currentBlock`: an accepted block leaves `current_block` at its number;
* `run_event_split`: each event of a run comes from one reply, between the run on the replies
  before it and the run on the replies after it;
* `step_checkpoint`: the reply that writes a checkpoint at block `c` leaves the loop exactly where
  a replay restored from that checkpoint enters it;
* `checkpoint_restores`: over every run, from any state of the loop, the factory of a checkpoint
  written at block `c` has `current_block = c`; unless `c` is `0`, a replay restored from it and fed
  the replies the first one got after writing it does exactly what the first one did, the same
  events and the same final state.

The checkpoint file is taken to hold the factory the loop wrote (`load` after `dump` gives it
back).
-/

namespace PhalaCore.Replay

variable {P : Phactory}

namespace Driver

variable (args : Args) (eventTx : Bool)

/-- Every event of a run comes from one reply: the run on the replies before it, that reply, and
the run on the replies after it. -/
theorem run_event_split {d : Driver P} {rs : List (Reply P)} {pre post : List (Event P)}
    {e : Event P} (h : (run args eventTx d rs).2 = pre ++ e :: post) :
    ∃ rs₁ r rs₂ d₁ d₂ es₁ es₂, rs = rs₁ ++ r :: rs₂ ∧ (run args eventTx d rs₁).1 = d₁ ∧
      step args eventTx d₁ r = some (d₂, es₁ ++ e :: es₂) ∧
      pre = (run args eventTx d rs₁).2 ++ es₁ ∧ post = es₂ ++ (run args eventTx d₂ rs₂).2 ∧
      (run args eventTx d rs).1 = (run args eventTx d₂ rs₂).1 := by
  induction rs generalizing d pre with
  | nil => cases pre <;> cases h
  | cons r rs ih =>
    cases hs : step args eventTx d r with
    | none =>
      rw [run_cons_of_stuck args eventTx rs hs] at h
      cases pre <;> cases h
    | some x =>
      obtain ⟨d', es⟩ := x
      have hrun := run_cons_of_step args eventTx rs hs
      rw [hrun] at h
      rw [hrun]
      rcases List.append_eq_append_iff.1 h with ⟨a', rfl, htail⟩ | ⟨c', rfl, hpost⟩
      · -- the event comes from a later reply
        obtain ⟨rs₁, r', rs₂, d₁, d₂, es₁, es₂, rfl, hd₁, hstep, rfl, rfl, hfin⟩ := ih htail
        refine ⟨r :: rs₁, r', rs₂, d₁, d₂, es₁, es₂, rfl, ?_, hstep, ?_, rfl, hfin⟩
        · rw [run_cons_of_step args eventTx rs₁ hs, hd₁]
        · rw [run_cons_of_step args eventTx rs₁ hs, List.append_assoc]
      · cases c' with
        | nil =>
          -- the event is the first of the later replies'
          obtain ⟨rs₁, r', rs₂, d₁, d₂, es₁, es₂, rfl, hd₁, hstep, hpre, rfl, hfin⟩ :=
            @ih d' [] hpost.symm
          refine ⟨r :: rs₁, r', rs₂, d₁, d₂, es₁, es₂, rfl, ?_, hstep, ?_, rfl, hfin⟩
          · rw [run_cons_of_step args eventTx rs₁ hs, hd₁]
          · rw [run_cons_of_step args eventTx rs₁ hs, List.append_assoc, ← hpre, List.append_nil,
              List.append_nil]
        | cons e' c' =>
          -- the event is one of this reply's
          obtain ⟨rfl, rfl⟩ := List.cons.inj hpost
          exact ⟨[], r, rs, d, d', pre, c', rfl, rfl, hs, rfl, rfl, rfl⟩

/-- A reply whose events hold a checkpoint at block `c` brought in the header of block `c`, which
`dispatch_block` accepted: the checkpoint's factory has `current_block = c`, it is the reply's
last event, and the loop goes on at block `c + 1` with that factory and `c` as its last
checkpoint. -/
theorem step_checkpoint {d d' : Driver P} {r : Reply P} {es₁ es₂ : List (Event P)} {c : Nat}
    {g : ReplayFactory P} (h : step args eventTx d r = some (d', es₁ ++ .checkpoint c g :: es₂)) :
    g.currentBlock = c ∧ es₂ = [] ∧ d' = enter args ⟨g, u32Add c 1, c, .finalizedHead⟩ := by
  rcases step_moves args eventTx h with ⟨ch, root, -, -, hx⟩ | ⟨-, hq⟩
  · simp only [replayBlock] at hx
    split at hx
    · -- rejected: the only event is the call of `dispatch_block`
      rcases es₁ with _ | ⟨e, _ | ⟨e', es₁⟩⟩ <;> simp at hx
    · -- accepted: the checkpoint, if due, follows the call
      rename_i hok
      unfold takeCheckpoint at hx
      split_ifs at hx <;>
        rcases es₁ with _ | ⟨e, _ | ⟨e', es₁⟩⟩ <;> simp only [Prod.mk.injEq] at hx <;>
        simp at hx
      obtain ⟨rfl, -, ⟨rfl, rfl⟩, rfl⟩ := hx
      exact ⟨ReplayFactory.dispatchBlock_ok_currentBlock _ _ _ hok, rfl, rfl⟩
  · exact absurd (hq _ (List.mem_append_right _ (List.mem_cons_self _ _))) id

end Driver

/-- Over every run of the loop, from any state: the factory of a checkpoint written at block `c`
has `current_block = c`. Unless `c` is `0`, which a restored replay would take for a fresh
factory, a replay restored from that checkpoint and fed the replies the first replay got after
writing it produces the events the first replay produced after it and ends in the same state. -/
theorem checkpoint_restores (args : Args) (eventTx : Bool) (d : Driver P) (rs : List (Reply P))
    (pre post : List (Event P)) (c : Nat) (g : ReplayFactory P)
    (h : (d.run args eventTx rs).2 = pre ++ .checkpoint c g :: post) :
    g.currentBlock = c ∧
    (c ≠ 0 → ∃ rs₁ rs₂, rs = rs₁ ++ rs₂ ∧
      (Driver.start args g).run args eventTx rs₂ = ((d.run args eventTx rs).1, post)) := by
  obtain ⟨rs₁, r, rs₂, d₁, d₂, es₁, es₂, rfl, -, hstep, -, rfl, hfin⟩ :=
    Driver.run_event_split args eventTx h
  obtain ⟨hcur, rfl, rfl⟩ := Driver.step_checkpoint args eventTx hstep
  refine ⟨hcur, fun hc => ⟨rs₁ ++ [r], rs₂, by simp, ?_⟩⟩
  have hstart : Driver.start args g = Driver.enter args ⟨g, u32Add c 1, c, .finalizedHead⟩ := by
    rw [Driver.start, hcur, if_neg hc]
  rw [hstart, hfin, List.nil_append]

/-- The factory a fresh replay on the small phactory holds after block `n`, with no economics
launched. -/
def emptyBlocksFactory (n : Nat) : ReplayFactory tinyPhactory := ⟨1, n, [], [], 0, false⟩

/-- Three blocks with a checkpoint every second block: the checkpoint at block `2` holds
`current_block = 2`, and the replay restored from it replays block `3` as the first one did. -/
theorem checkpoint_two_restores :
    (emptyBlocksFactory 2).currentBlock = 2 ∧
    (2 ≠ 0 → ∃ rs₁ rs₂, blockReplies ++ blockReplies ++ blockReplies = rs₁ ++ rs₂ ∧
      (Driver.start everySecondArgs (emptyBlocksFactory 2)).run everySecondArgs false rs₂ =
        (((Driver.start everySecondArgs tinyFactory).run everySecondArgs false
          (blockReplies ++ blockReplies ++ blockReplies)).1,
          [.polled 3 10 10, .dispatched ⟨3, [], []⟩ (emptyBlocksFactory 2) true])) :=
  checkpoint_restores everySecondArgs false (Driver.start everySecondArgs tinyFactory)
    (blockReplies ++ blockReplies ++ blockReplies)
    [.polled 1 10 10, .dispatched ⟨1, [], []⟩ tinyFactory true,
      .polled 2 10 10, .dispatched ⟨2, [], []⟩ (emptyBlocksFactory 1) true]
    [.polled 3 10 10, .dispatched ⟨3, [], []⟩ (emptyBlocksFactory 2) true] 2
    (emptyBlocksFactory 2) rfl

end PhalaCore.Replay
