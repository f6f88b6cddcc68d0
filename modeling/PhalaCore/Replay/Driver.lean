import PhalaCore.Replay.Factory
import Mathlib.Data.List.Infix
import Mathlib.Algebra.Group.Nat.Basic

/-!
# The block loop of the replay

`replay` (`replay/src/replay_gk.rs`) follows the chain block by block. `wait_for_block` polls the
node until the block is imported and final (or below `assume_finalized`); `fetch_storage_changes`
and `get_header_at` bring the block in; `dispatch_block` applies it to the factory, which is
written to a checkpoint every `checkpoint_interval` blocks. RPC failures are logged and retried
after a sleep, or after a reconnect when the error asks for a restart.

The node is the environment. The loop is a state machine, `Driver`, that waits on one RPC at a
time (`Pc`). A run feeds it a list of replies (`Reply`), each succeeding or failing with any text;
it stops at a final state or at a reply to a call that was not made. What the loop does outside its
own state is recorded as `Event`s: the polls of `wait_for_block`, its failures, the sleeps,
each call of `dispatch_block` and each checkpoint.

Heights are `u32`. `start_at + 1`, `last_checkpoint_block + 1`, `block_number += 1` and
`checkpoint_interval + last_checkpoint_block` are `u32Add`, which wraps as a release build does.
The header `get_header_at` returns for height `b` is taken to have number `b`; the node chooses
its state root. Not modelled: the HTTP server, which reads the factory behind its mutex; the
headers cache; logging; the file system, taken to accept every checkpoint.
-/

namespace PhalaCore.Replay

/-- `u32` addition of a release build. -/
def u32Add (a b : Nat) : Nat := (a + b) % 2 ^ 32

/-- `restart_required`: the error's text mentions a required restart. -/
def restartRequired (text : String) : Bool := decide ("restart required".toList <:+: text.toList)

/-- The arguments of `replay` that the block loop reads, all `u32`. -/
structure Args where
  startAt : Nat
  stopAt : Option Nat
  assumeFinalized : Nat
  checkpointInterval : Nat
  startAt_lt : startAt < 2 ^ 32
  stopAt_lt : ∀ s ∈ stopAt, s < 2 ^ 32
  assumeFinalized_lt : assumeFinalized < 2 ^ 32
  checkpointInterval_lt : checkpointInterval < 2 ^ 32

/-- `stop_at.unwrap_or(u32::MAX)`. -/
def Args.stopBlock (args : Args) : Nat := args.stopAt.getD (2 ^ 32 - 1)

theorem Args.stopBlock_lt (args : Args) : args.stopBlock < 2 ^ 32 := by
  unfold stopBlock
  cases h : args.stopAt with
  | none => decide
  | some s => exact args.stopAt_lt s h

variable {P : Phactory}

/-- The answer of the node to one call of the loop. -/
inductive Reply (P : Phactory)
  /-- `finalized_head`, inside `finalized_number`. -/
  | finalizedHead (result : Except String Unit)
  /-- `header` of the finalized head: its number, or none. -/
  | header (result : Except String (Option Nat))
  /-- `system_sync_state`: its `current_block`, cast to a `BlockNumber`. -/
  | syncState (result : Except String Nat)
  /-- `fetch_storage_changes` from `block_number` to `block_number`. -/
  | storageChanges (result : Except String (List P.StorageChanges))
  /-- `get_header_at(Some(block_number))`: the state root of the header. -/
  | headerAt (result : Except String P.Hash)
  /-- `subxt_connect`. -/
  | connect (result : Except String Unit)

/-- The call the loop waits on, or how it ended. -/
inductive Pc (P : Phactory)
  | finalizedHead
  | header
  /-- `system_sync_state`, with `finalized_number(..).unwrap_or(0)` already read. -/
  | syncState (finalized : Nat)
  | storageChanges
  /-- `get_header_at`, with the storage changes of the fetched block. -/
  | headerAt (changes : P.StorageChanges)
  /-- The reconnect loop. -/
  | connect
  /-- `wait_forever`, once `stop_at` is reached. -/
  | finished
  /-- `replay` returned this error. -/
  | failed (text : String)
  /-- An `expect` failed with this message. -/
  | panicked (message : String)

inductive Event (P : Phactory)
  /-- A poll of `wait_for_block` for `block` read these heights. -/
  | polled (block finalized currentBlock : Nat)
  /-- `wait_for_block` for `block` returned this error. -/
  | waitFailed (block : Nat) (text : String)
  /-- A five-second sleep. -/
  | slept
  /-- `dispatch_block` was called with `block` on `factory`, and accepted it or not. -/
  | dispatched (block : Block P) (factory : ReplayFactory P) (accepted : Bool)
  /-- `checkpoint.<block>` was written with `factory`. -/
  | checkpoint (block : Nat) (factory : ReplayFactory P)

/-- The state of `replay` in its block loop. -/
structure Driver (P : Phactory) where
  factory : ReplayFactory P
  blockNumber : Nat
  lastCheckpointBlock : Nat
  pc : Pc P

namespace Driver

variable (args : Args) (eventTx : Bool)

/-- The top of the inner loop: `wait_forever` once `block_number` reaches `stop_at`, else a first
poll of `wait_for_block`. -/
def enter (d : Driver P) : Driver P :=
  { d with pc := if args.stopBlock ≤ d.blockNumber then .finished else .finalizedHead }

/-- `finalized_head` answered, inside `finalized_number`; an error reads as height `0`. -/
def readFinalizedHead (d : Driver P) : Except String Unit → Driver P × List (Event P)
  | .ok () => ({ d with pc := .header }, [])
  | .error _ => ({ d with pc := .syncState 0 }, [])

/-- `header` of the finalized head answered: `finalized_number(..).unwrap_or(0)`, a missing
header being the error "Header not found". -/
def readFinalizedNumber (d : Driver P) : Except String (Option Nat) → Driver P × List (Event P)
  | .ok (some n) => ({ d with pc := .syncState n }, [])
  | .ok none | .error _ => ({ d with pc := .syncState 0 }, [])

/-- `system_sync_state` answered a poll of `wait_for_block`. An error ends the wait: the loop
reconnects if it asks for a restart, and otherwise goes on to fetch the block. -/
def waitForBlock (d : Driver P) (finalized : Nat) : Except String Nat → Driver P × List (Event P)
  | .error t =>
    ({ d with pc := if restartRequired t then .connect else .storageChanges },
      [.waitFailed d.blockNumber t])
  | .ok current =>
    if d.blockNumber ≤ current ∧ d.blockNumber ≤ max finalized args.assumeFinalized then
      ({ d with pc := .storageChanges }, [.polled d.blockNumber finalized current])
    else ({ d with pc := .finalizedHead }, [.polled d.blockNumber finalized current, .slept])

/-- `fetch_storage_changes` answered: take the last block (`pop`), or give up on the error. -/
def fetched (d : Driver P) : Except String (List P.StorageChanges) → Driver P × List (Event P)
  | .ok blocks =>
    ({ d with pc := match blocks.getLast? with
      | some changes => .headerAt changes
      | none => .panicked "Expected one block" }, [])
  | .error t =>
    if restartRequired t then ({ d with pc := .connect }, []) else (enter args d, [.slept])

/-- The checkpoint condition: `checkpoint_interval > 0` and `block_number` has reached
`checkpoint_interval + last_checkpoint_block`. -/
def CheckpointDue (d : Driver P) : Prop :=
  0 < args.checkpointInterval ∧ u32Add args.checkpointInterval d.lastCheckpointBlock ≤ d.blockNumber

instance (d : Driver P) : Decidable (CheckpointDue args d) := by
  unfold CheckpointDue
  infer_instance

/-- After a dispatched block: write `checkpoint.<block_number>` when one is due. -/
def takeCheckpoint (d : Driver P) : Driver P × List (Event P) :=
  if CheckpointDue args d then
    ({ d with lastCheckpointBlock := d.blockNumber }, [.checkpoint d.blockNumber d.factory])
  else (d, [])

/-- `get_header_at` answered. Its error leaves `replay` through the `?`; otherwise the block is
dispatched, a checkpoint taken when one is due, and the loop moves to the next block. -/
def replayBlock (d : Driver P) (changes : P.StorageChanges) :
    Except String P.Hash → Driver P × List (Event P)
  | .error t => ({ d with pc := .failed t }, [])
  | .ok root =>
    let block : Block P := ⟨d.blockNumber, root, changes⟩
    let o := d.factory.dispatchBlock block eventTx
    match o.result with
    | .error _ =>
      ({ d with factory := o.factory, pc := .panicked "Block is valid" },
        [.dispatched block d.factory false])
    | .ok () =>
      let c := takeCheckpoint args { d with factory := o.factory }
      (enter args { c.1 with blockNumber := u32Add d.blockNumber 1 },
        .dispatched block d.factory true :: c.2)

/-- `subxt_connect` answered in the reconnect loop. -/
def reconnect (d : Driver P) : Except String Unit → Driver P × List (Event P)
  | .ok () => (enter args d, [])
  | .error _ => (d, [.slept])

/-- One reply to the call the loop waits on. -/
def step (d : Driver P) (r : Reply P) : Option (Driver P × List (Event P)) :=
  match d.pc, r with
  | .finalizedHead, .finalizedHead c => some (readFinalizedHead d c)
  | .header, .header c => some (readFinalizedNumber d c)
  | .syncState finalized, .syncState c => some (waitForBlock args d finalized c)
  | .storageChanges, .storageChanges c => some (fetched args d c)
  | .headerAt changes, .headerAt c => some (replayBlock args eventTx d changes c)
  | .connect, .connect c => some (reconnect args d c)
  | _, _ => none

/-- The loop over a list of replies, with everything it did. -/
def run (d : Driver P) : List (Reply P) → Driver P × List (Event P)
  | [] => (d, [])
  | r :: rs =>
    match step args eventTx d r with
    | some (d', es) => let x := run d' rs; (x.1, es ++ x.2)
    | none => (d, [])

/-- Where `replay` enters its block loop with the factory `f`, restored from a checkpoint or
fresh (`current_block = 0`). -/
def start (f : ReplayFactory P) : Driver P :=
  enter args ⟨f, if f.currentBlock = 0 then u32Add args.startAt 1 else u32Add f.currentBlock 1,
    f.currentBlock, .finalizedHead⟩

end Driver

/-! ## What a run shows -/

/-- The blocks handed to `dispatch_block`, in order. -/
def dispatchedBlocks : List (Event P) → List (Block P) :=
  List.filterMap fun
    | .dispatched b _ _ => some b
    | _ => none

/-- The numbers of the blocks `dispatch_block` accepted, in order. -/
def acceptedBlocks : List (Event P) → List Nat :=
  List.filterMap fun
    | .dispatched b _ true => some b.number
    | _ => none

/-- The blocks a checkpoint was written at, in order. -/
def checkpointBlocks : List (Event P) → List Nat :=
  List.filterMap fun
    | .checkpoint c _ => some c
    | _ => none

/-- The blocks `wait_for_block` polled for, one per poll. -/
def polledBlocks : List (Event P) → List Nat :=
  List.filterMap fun
    | .polled b _ _ => some b
    | _ => none

@[simp] theorem dispatchedBlocks_append (xs ys : List (Event P)) :
    dispatchedBlocks (xs ++ ys) = dispatchedBlocks xs ++ dispatchedBlocks ys :=
  List.filterMap_append ..

@[simp] theorem acceptedBlocks_append (xs ys : List (Event P)) :
    acceptedBlocks (xs ++ ys) = acceptedBlocks xs ++ acceptedBlocks ys := List.filterMap_append ..

@[simp] theorem checkpointBlocks_append (xs ys : List (Event P)) :
    checkpointBlocks (xs ++ ys) = checkpointBlocks xs ++ checkpointBlocks ys :=
  List.filterMap_append ..

@[simp] theorem dispatchedBlocks_nil : dispatchedBlocks ([] : List (Event P)) = [] := rfl

@[simp] theorem acceptedBlocks_nil : acceptedBlocks ([] : List (Event P)) = [] := rfl

@[simp] theorem checkpointBlocks_nil : checkpointBlocks ([] : List (Event P)) = [] := rfl

@[simp] theorem dispatchedBlocks_dispatched (b : Block P) (g : ReplayFactory P) (acc : Bool)
    (es : List (Event P)) :
    dispatchedBlocks (.dispatched b g acc :: es) = b :: dispatchedBlocks es := rfl

@[simp] theorem acceptedBlocks_dispatched_true (b : Block P) (g : ReplayFactory P)
    (es : List (Event P)) :
    acceptedBlocks (.dispatched b g true :: es) = b.number :: acceptedBlocks es := rfl

@[simp] theorem checkpointBlocks_dispatched (b : Block P) (g : ReplayFactory P) (acc : Bool)
    (es : List (Event P)) : checkpointBlocks (.dispatched b g acc :: es) = checkpointBlocks es :=
  rfl

/-- Not a call of `dispatch_block` and not a checkpoint. -/
def Event.Quiet : Event P → Prop
  | .dispatched .. | .checkpoint .. => False
  | _ => True

theorem projections_of_quiet {es : List (Event P)} (h : ∀ e ∈ es, e.Quiet) :
    dispatchedBlocks es = [] ∧ acceptedBlocks es = [] ∧ checkpointBlocks es = [] := by
  refine ⟨?_, ?_, ?_⟩ <;> refine List.filterMap_eq_nil_iff.2 fun e he => ?_ <;>
    have := h e he <;> cases e <;> first | rfl | exact this.elim

/-! ## One reply -/

namespace Driver

variable (args : Args) (eventTx : Bool)

@[simp] theorem enter_factory (d : Driver P) : (enter args d).factory = d.factory := rfl

@[simp] theorem enter_blockNumber (d : Driver P) : (enter args d).blockNumber = d.blockNumber := rfl

@[simp] theorem enter_lastCheckpointBlock (d : Driver P) :
    (enter args d).lastCheckpointBlock = d.lastCheckpointBlock := rfl

@[simp] theorem enter_pc_ne_failed (d : Driver P) (t : String) :
    (enter args d).pc ≠ .failed t := by
  unfold enter; split <;> nofun

theorem run_cons_of_step {d d' : Driver P} {r : Reply P} {es : List (Event P)}
    (rs : List (Reply P)) (h : step args eventTx d r = some (d', es)) :
    run args eventTx d (r :: rs) =
      ((run args eventTx d' rs).1, es ++ (run args eventTx d' rs).2) := by
  simp only [run, h]

theorem run_cons_of_stuck {d : Driver P} {r : Reply P} (rs : List (Reply P))
    (h : step args eventTx d r = none) : run args eventTx d (r :: rs) = (d, []) := by
  simp only [run, h]

/-- What one reply can do: hand its result to the helper of the call the loop waits on. -/
theorem step_cases {d d' : Driver P} {r : Reply P} {es : List (Event P)}
    (h : step args eventTx d r = some (d', es)) :
    (∃ c, d.pc = .finalizedHead ∧ r = .finalizedHead c ∧ (d', es) = readFinalizedHead d c) ∨
    (∃ c, d.pc = .header ∧ r = .header c ∧ (d', es) = readFinalizedNumber d c) ∨
    (∃ fin c, d.pc = .syncState fin ∧ r = .syncState c ∧ (d', es) = waitForBlock args d fin c) ∨
    (∃ c, d.pc = .storageChanges ∧ r = .storageChanges c ∧ (d', es) = fetched args d c) ∨
    (∃ ch c, d.pc = .headerAt ch ∧ r = .headerAt c ∧ (d', es) = replayBlock args eventTx d ch c) ∨
    (∃ c, d.pc = .connect ∧ r = .connect c ∧ (d', es) = reconnect args d c) := by
  unfold step at h
  split at h
  · exact .inl ⟨_, ‹_›, rfl, (Option.some.inj h).symm⟩
  · exact .inr (.inl ⟨_, ‹_›, rfl, (Option.some.inj h).symm⟩)
  · exact .inr (.inr (.inl ⟨_, _, ‹_›, rfl, (Option.some.inj h).symm⟩))
  · exact .inr (.inr (.inr (.inl ⟨_, ‹_›, rfl, (Option.some.inj h).symm⟩)))
  · exact .inr (.inr (.inr (.inr (.inl ⟨_, _, ‹_›, rfl, (Option.some.inj h).symm⟩))))
  · exact .inr (.inr (.inr (.inr (.inr ⟨_, ‹_›, rfl, (Option.some.inj h).symm⟩))))
  · cases h

theorem step_live {d d' : Driver P} {r : Reply P} {es : List (Event P)}
    (h : step args eventTx d r = some (d', es)) : d.pc ≠ .finished := by
  rcases step_cases args eventTx h with ⟨_, hpc, -⟩ | ⟨_, hpc, -⟩ | ⟨_, _, hpc, -⟩ |
    ⟨_, hpc, -⟩ | ⟨_, _, hpc, -⟩ | ⟨_, hpc, -⟩ <;> rw [hpc] <;> nofun

/-! ## Replies that only move the loop -/

/-- The loop only waits on another call, with no `dispatch_block` call and no checkpoint. -/
def Moves (d : Driver P) (x : Driver P × List (Event P)) : Prop :=
  (∃ p, x.1 = { d with pc := p }) ∧ ∀ e ∈ x.2, e.Quiet

theorem enter_eq (d : Driver P) : ∃ p, enter args d = { d with pc := p } := ⟨_, rfl⟩

theorem readFinalizedHead_moves (d : Driver P) (c : Except String Unit) :
    Moves d (readFinalizedHead d c) := by
  cases c <;> exact ⟨⟨_, rfl⟩, by simp [readFinalizedHead]⟩

theorem readFinalizedNumber_moves (d : Driver P) (c : Except String (Option Nat)) :
    Moves d (readFinalizedNumber d c) := by
  unfold readFinalizedNumber
  split <;> exact ⟨⟨_, rfl⟩, by simp⟩

theorem waitForBlock_moves (d : Driver P) (finalized : Nat) (c : Except String Nat) :
    Moves d (waitForBlock args d finalized c) := by
  unfold waitForBlock
  split
  · exact ⟨⟨_, rfl⟩, by simp [Event.Quiet]⟩
  · split_ifs <;> exact ⟨⟨_, rfl⟩, by simp [Event.Quiet]⟩

theorem fetched_moves (d : Driver P) (c : Except String (List P.StorageChanges)) :
    Moves d (fetched args d c) := by
  unfold fetched
  split
  · exact ⟨⟨_, rfl⟩, by simp⟩
  · split_ifs
    · exact ⟨⟨_, rfl⟩, by simp⟩
    · exact ⟨enter_eq args d, by simp [Event.Quiet]⟩

theorem reconnect_moves (d : Driver P) (c : Except String Unit) : Moves d (reconnect args d c) := by
  unfold reconnect
  split
  · exact ⟨enter_eq args d, by simp⟩
  · exact ⟨⟨d.pc, rfl⟩, by simp [Event.Quiet]⟩

/-- A reply either brings in the header of a fetched block, which dispatches it, or only moves the
loop. -/
theorem step_moves {d d' : Driver P} {r : Reply P} {es : List (Event P)}
    (h : step args eventTx d r = some (d', es)) :
    (∃ ch root, d.pc = .headerAt ch ∧ r = .headerAt (.ok root) ∧
      (d', es) = replayBlock args eventTx d ch (.ok root)) ∨ Moves d (d', es) := by
  rcases step_cases args eventTx h with ⟨c, -, -, hx⟩ | ⟨c, -, -, hx⟩ | ⟨fin, c, -, -, hx⟩ |
    ⟨c, -, -, hx⟩ | ⟨ch, c | root, hpc, rfl, hx⟩ | ⟨c, -, -, hx⟩
  · exact .inr (hx ▸ readFinalizedHead_moves d c)
  · exact .inr (hx ▸ readFinalizedNumber_moves d c)
  · exact .inr (hx ▸ waitForBlock_moves args d fin c)
  · exact .inr (hx ▸ fetched_moves args d c)
  · exact .inr (hx ▸ ⟨⟨_, rfl⟩, by simp [replayBlock]⟩)
  · exact .inl ⟨ch, root, hpc, rfl, hx⟩
  · exact .inr (hx ▸ reconnect_moves args d c)

/-! ## Dispatching a block -/

@[simp] theorem takeCheckpoint_factory (d : Driver P) :
    (takeCheckpoint args d).1.factory = d.factory := by
  unfold takeCheckpoint; split_ifs <;> rfl

@[simp] theorem takeCheckpoint_blockNumber (d : Driver P) :
    (takeCheckpoint args d).1.blockNumber = d.blockNumber := by
  unfold takeCheckpoint; split_ifs <;> rfl

theorem takeCheckpoint_spec (d : Driver P) :
    (takeCheckpoint args d).1.lastCheckpointBlock =
        (if CheckpointDue args d then d.blockNumber else d.lastCheckpointBlock) ∧
      dispatchedBlocks (takeCheckpoint args d).2 = [] ∧
      acceptedBlocks (takeCheckpoint args d).2 = [] ∧
      checkpointBlocks (takeCheckpoint args d).2 =
        if CheckpointDue args d then [d.blockNumber] else [] := by
  unfold takeCheckpoint; split_ifs <;> exact ⟨rfl, rfl, rfl, rfl⟩

/-- The block of `get_header_at` is dispatched: rejected, the `expect` panics; accepted, a
checkpoint is taken when due and the loop moves to the next block. -/
theorem replayBlock_ok (d : Driver P) (ch : P.StorageChanges) (root : P.Hash) :
    let block : Block P := ⟨d.blockNumber, root, ch⟩
    let o := d.factory.dispatchBlock block eventTx
    replayBlock args eventTx d ch (.ok root) =
        ({ d with factory := o.factory, pc := .panicked "Block is valid" },
          [.dispatched block d.factory false]) ∨
      replayBlock args eventTx d ch (.ok root) =
        (enter args { (takeCheckpoint args { d with factory := o.factory }).1 with
            blockNumber := u32Add d.blockNumber 1 },
          .dispatched block d.factory true ::
            (takeCheckpoint args { d with factory := o.factory }).2) := by
  dsimp only [replayBlock]
  split
  · exact .inl rfl
  · exact .inr rfl

/-! ## Runs -/

theorem step_of_final {d : Driver P} (r : Reply P)
    (h : d.pc = .finished ∨ (∃ t, d.pc = .failed t) ∨ ∃ m, d.pc = .panicked m) :
    step args eventTx d r = none := by
  unfold step
  rcases h with h | ⟨_, h⟩ | ⟨_, h⟩ <;> rw [h]

theorem run_of_final {d : Driver P} (rs : List (Reply P))
    (h : d.pc = .finished ∨ (∃ t, d.pc = .failed t) ∨ ∃ m, d.pc = .panicked m) :
    run args eventTx d rs = (d, []) := by
  cases rs with
  | nil => rfl
  | cons r rs => exact run_cons_of_stuck args eventTx rs (step_of_final args eventTx r h)

/-- Short of `wait_forever`, the loop works on a block below `stop_at`. -/
def Inv (d : Driver P) : Prop := d.pc ≠ .finished → d.blockNumber < args.stopBlock

theorem enter_inv (d : Driver P) : Inv args (enter args d) := by
  unfold Inv enter
  split_ifs with h
  · exact fun hne => absurd rfl hne
  · exact fun _ => Nat.lt_of_not_le h

theorem step_inv {d d' : Driver P} {r : Reply P} {es : List (Event P)} (hinv : Inv args d)
    (h : step args eventTx d r = some (d', es)) : Inv args d' := by
  have hlt := hinv (step_live args eventTx h)
  rcases step_moves args eventTx h with ⟨ch, root, -, -, hx⟩ | ⟨⟨p, hp⟩, -⟩
  · rcases replayBlock_ok args eventTx d ch root with he | he <;> rw [he] at hx <;> cases hx
    · exact fun _ => hlt
    · exact enter_inv args _
  · exact fun _ => (show d' = _ from hp) ▸ hlt

theorem run_inv {d : Driver P} (hinv : Inv args d) (rs : List (Reply P)) :
    Inv args (run args eventTx d rs).1 := by
  induction rs generalizing d with
  | nil => exact hinv
  | cons r rs ih =>
    cases hs : step args eventTx d r with
    | none => rwa [run_cons_of_stuck args eventTx rs hs]
    | some x => rw [run_cons_of_step args eventTx rs hs]; exact ih (step_inv args eventTx hinv hs)

theorem start_inv (f : ReplayFactory P) : Inv args (start args f) := enter_inv args _

end Driver

/-! ## Runs on the small phactory -/

/-- No `stop_at`, no assumed finality and no checkpoints. -/
def plainArgs : Args := ⟨0, none, 0, 0, by decide, by decide, by decide, by decide⟩

/-- A checkpoint every second block. -/
def everySecondArgs : Args := ⟨0, none, 0, 2, by decide, by decide, by decide, by decide⟩

/-- A checkpoint every `u32::MAX` blocks. -/
def widestIntervalArgs : Args :=
  ⟨0, none, 0, 4294967295, by decide, by decide, by decide, by decide⟩

/-- The replies that let a block without changes through and bring it in: the node's head is at
`10` and final. -/
def blockReplies : List (Reply tinyPhactory) :=
  [.finalizedHead (.ok ()), .header (.ok (some 10)), .syncState (.ok 10),
    .storageChanges (.ok [[]]), .headerAt (.ok [])]

end PhalaCore.Replay
