import PhalaCore.Replay.Progress

/-!
# A healthy node drives the replay to `stop_at`

The other modules follow the loop on any replies; here the node behaves. A node that has every
block up to `height` imported and final, and answers each call, is a function from the loop's
state to its answer (`healthyReply`). Whatever the node replied before, once it is healthy:

* `healthy_step`: each answer lowers `answersLeft`, five per block left, or ends the loop at
  `wait_forever` or at the panic of a rejected block;
* `healthy_run`: so within `answersLeft` answers the loop is at one of the two;
* `run_blockNumber`: over every run, `block_number` moves by the blocks `dispatch_block` accepted;
* `healthy_node_replays_to_stop`: from any state a run reaches while it still waits on a call,
  within `5 * (stop_at - block_number) + 3` answers the loop waits forever at `stop_at`, having
  accepted every block from `block_number` up to `stop_at`, or panics on a block `dispatch_block`
  rejected. It never polls, sleeps or reconnects for good.
-/

namespace PhalaCore.Replay

variable {P : Phactory}

/-- The loop waits on a call of the node: it has not reached `wait_forever`, returned or
panicked. -/
def Pc.waiting : Pc P → Bool
  | .finished | .failed _ | .panicked _ => false
  | _ => true

namespace Driver

variable (args : Args) (eventTx : Bool)

/-- The answer to the call the loop waits on of a node whose best and finalized head is at
`height`; `chain b` is the storage changes and the state root of block `b`. -/
def healthyReply (chain : Nat → P.StorageChanges × P.Hash) (height : Nat) (d : Driver P) :
    Reply P :=
  match d.pc with
  | .finalizedHead => .finalizedHead (.ok ())
  | .header => .header (.ok (some height))
  | .syncState _ => .syncState (.ok height)
  | .storageChanges => .storageChanges (.ok [(chain d.blockNumber).1])
  | .headerAt _ => .headerAt (.ok (chain d.blockNumber).2)
  | _ => .connect (.ok ())

/-- The next `n` answers of such a node, each to the call the loop then waits on. -/
def healthyReplies (chain : Nat → P.StorageChanges × P.Hash) (height : Nat) :
    Nat → Driver P → List (Reply P)
  | 0, _ => []
  | n + 1, d =>
    healthyReply chain height d :: match step args eventTx d (healthyReply chain height d) with
      | some (d', _) => healthyReplies chain height n d'
      | none => []

/-- How many answers of a healthy node the loop still needs: five per block left, counted down
along one block, three more when it must poll again and one more when it must reconnect. -/
def answersLeft (d : Driver P) : Nat :=
  match d.pc with
  | .finalizedHead => 5 * (args.stopBlock - d.blockNumber)
  | .header => 5 * (args.stopBlock - d.blockNumber) - 1
  | .syncState finalized =>
    if d.blockNumber ≤ max finalized args.assumeFinalized then
      5 * (args.stopBlock - d.blockNumber) - 2
    else 5 * (args.stopBlock - d.blockNumber) + 3
  | .storageChanges => 5 * (args.stopBlock - d.blockNumber) - 3
  | .headerAt _ => 5 * (args.stopBlock - d.blockNumber) - 4
  | .connect => 5 * (args.stopBlock - d.blockNumber) + 1
  | _ => 0

theorem answersLeft_le (d : Driver P) :
    answersLeft args d ≤ 5 * (args.stopBlock - d.blockNumber) + 3 := by
  unfold answersLeft
  split <;> (try split_ifs) <;> omega

/-- While the loop waits on a call, a healthy node has answers left to give. -/
theorem answersLeft_pos {d : Driver P} (hinv : Inv args d) (hw : d.pc.waiting) :
    0 < answersLeft args d := by
  obtain ⟨f, b, l, pc⟩ := d
  have hlt : b < args.stopBlock := hinv (by rintro rfl; cases hw)
  cases pc <;> simp only [answersLeft] <;> (try split_ifs) <;> first | omega | cases hw

/-- `wait_forever` is entered exactly at `stop_at`. -/
theorem enter_cases (d : Driver P) :
    (enter args d).pc = .finished ∧ args.stopBlock ≤ d.blockNumber ∨
      (enter args d).pc = .finalizedHead ∧ d.blockNumber < args.stopBlock := by
  unfold enter
  split_ifs with h
  · exact .inl ⟨rfl, h⟩
  · exact .inr ⟨rfl, Nat.lt_of_not_le h⟩

theorem answersLeft_enter {d : Driver P} (h : d.blockNumber < args.stopBlock) :
    answersLeft args (enter args d) = 5 * (args.stopBlock - d.blockNumber) := by
  simp only [enter, if_neg (Nat.not_le.2 h), answersLeft]

section Healthy

variable (chain : Nat → P.StorageChanges × P.Hash) {height : Nat}
  (hheight : args.stopBlock ≤ height + 1)

include hheight

/-- One answer of a healthy node: the loop ends at `wait_forever` at `stop_at`, or at the panic of
a rejected block, or still waits on a call with fewer answers left. -/
theorem healthy_step {d : Driver P} (hinv : Inv args d) (hw : d.pc.waiting) :
    ∃ d' es, step args eventTx d (healthyReply chain height d) = some (d', es) ∧
      (d'.pc = .panicked "Block is valid" ∨
        d'.pc = .finished ∧ args.stopBlock ≤ d'.blockNumber ∨
        d'.pc.waiting ∧ answersLeft args d' < answersLeft args d) := by
  obtain ⟨f, b, l, pc⟩ := d
  have hlt : b < args.stopBlock := hinv (by rintro rfl; cases hw)
  cases pc with
  | finalizedHead => exact ⟨_, _, rfl, .inr (.inr ⟨rfl, by simp only [answersLeft]; omega⟩)⟩
  | header =>
    have hmax : b ≤ max height args.assumeFinalized := Nat.le_trans (by omega) (Nat.le_max_left _ _)
    exact ⟨_, _, rfl, .inr (.inr ⟨rfl, by simp only [answersLeft, hmax, if_true]; omega⟩)⟩
  | syncState fin =>
    have hbh : b ≤ height := by omega
    by_cases h : b ≤ max fin args.assumeFinalized
    · exact ⟨_, _, congrArg some (if_pos (And.intro hbh h)),
        .inr (.inr ⟨rfl, by simp only [answersLeft, if_pos h]; omega⟩)⟩
    · exact ⟨_, _, congrArg some (if_neg fun hc : b ≤ height ∧ _ => h hc.2),
        .inr (.inr ⟨rfl, by simp only [answersLeft, if_neg h]; omega⟩)⟩
  | storageChanges =>
    exact ⟨_, _, rfl, .inr (.inr ⟨rfl, by simp only [answersLeft, List.getLast?_singleton]; omega⟩)⟩
  | headerAt ch =>
    have hsucc : u32Add b 1 = b + 1 := Nat.mod_eq_of_lt (by have := args.stopBlock_lt; omega)
    rcases replayBlock_ok args eventTx ⟨f, b, l, .headerAt ch⟩ ch (chain b).2 with he | he
    · exact ⟨_, _, congrArg some he, .inl rfl⟩
    · refine ⟨_, _, congrArg some he, .inr ?_⟩
      rcases enter_cases args { (takeCheckpoint args ⟨(f.dispatchBlock ⟨b, (chain b).2, ch⟩
          eventTx).factory, b, l, .headerAt ch⟩).1 with blockNumber := u32Add b 1 } with
        ⟨hf, hle⟩ | ⟨hf, hgt⟩
      · exact .inl ⟨hf, hle⟩
      · refine .inr ⟨by rw [hf]; rfl, ?_⟩
        rw [answersLeft_enter args hgt]
        simp only [answersLeft, hsucc]
        omega
  | connect =>
    refine ⟨_, _, rfl, ?_⟩
    rcases enter_cases args ⟨f, b, l, .connect⟩ with ⟨hf, hle⟩ | ⟨hf, hgt⟩
    · exact .inr (.inl ⟨hf, hle⟩)
    · refine .inr (.inr ⟨by rw [hf]; rfl, ?_⟩)
      rw [answersLeft_enter args hgt]
      simp only [answersLeft]
      omega
  | finished | failed | panicked => cases hw

/-- Within `answersLeft` answers of a healthy node, the loop waits forever at `stop_at` or has
panicked on a rejected block. -/
theorem healthy_run (n : Nat) {d : Driver P} (hinv : Inv args d) (hw : d.pc.waiting)
    (hn : answersLeft args d ≤ n) :
    let x := run args eventTx d (healthyReplies args eventTx chain height n d)
    x.1.pc = .finished ∧ args.stopBlock ≤ x.1.blockNumber ∨
      x.1.pc = .panicked "Block is valid" := by
  induction n generalizing d with
  | zero => exact absurd hn (Nat.not_le.2 (answersLeft_pos args hinv hw))
  | succ n ih =>
    obtain ⟨d', es, hs, hd'⟩ := healthy_step args eventTx chain hheight hinv hw
    simp only [healthyReplies, hs, run_cons_of_step args eventTx _ hs]
    rcases hd' with hp | ⟨hf, hle⟩ | ⟨hw', hlt⟩
    · rw [run_of_final args eventTx _ (.inr (.inr ⟨_, hp⟩))]
      exact .inr hp
    · rw [run_of_final args eventTx _ (.inl hf)]
      exact .inl ⟨hf, hle⟩
    · exact ih (step_inv args eventTx hinv hs) hw' (by omega)

end Healthy

/-- Over every run, `block_number` moves by one for each block `dispatch_block` accepted. -/
theorem run_blockNumber {d : Driver P} (hinv : Inv args d) (rs : List (Reply P)) :
    (run args eventTx d rs).1.blockNumber =
      d.blockNumber + (acceptedBlocks (run args eventTx d rs).2).length := by
  induction rs generalizing d with
  | nil => rfl
  | cons r rs ih =>
    cases hs : step args eventTx d r with
    | none => rw [run_cons_of_stuck args eventTx rs hs]; rfl
    | some x =>
      obtain ⟨d', es⟩ := x
      have hlt := hinv (step_live args eventTx hs)
      rw [run_cons_of_step args eventTx rs hs, acceptedBlocks_append, List.length_append,
        ih (step_inv args eventTx hinv hs)]
      rcases step_moves args eventTx hs with ⟨ch, root, -, -, hx⟩ | ⟨⟨p, hp⟩, hq⟩
      · rcases replayBlock_ok args eventTx d ch root with he | he <;> rw [he] at hx <;> cases hx
        · show _ = _ + (0 + _)
          rw [Nat.zero_add]
        · have hsucc : u32Add d.blockNumber 1 = d.blockNumber + 1 :=
            Nat.mod_eq_of_lt (by have := args.stopBlock_lt; omega)
          simp only [enter_blockNumber, acceptedBlocks_dispatched_true, List.length_cons, hsucc,
            (takeCheckpoint_spec args _).2.2.1, List.length_nil]
          omega
      · cases (show d' = _ from hp)
        rw [(projections_of_quiet hq).2.1, List.length_nil, Nat.zero_add]

end Driver

/-- Whatever the node replied before, while the loop still waits on a call: once the node has
every block below `stop_at` imported and final and answers each call, within
`5 * (stop_at - block_number) + 3` answers the loop waits forever at `stop_at`, `dispatch_block`
having accepted every block from `block_number` up to it, or an `expect` panicked on a block
`dispatch_block` rejected. -/
theorem healthy_node_replays_to_stop (args : Args) (eventTx : Bool) (f : ReplayFactory P)
    (rs₀ : List (Reply P)) (hw : ((Driver.start args f).run args eventTx rs₀).1.pc.waiting)
    (chain : Nat → P.StorageChanges × P.Hash) (height : Nat)
    (hheight : args.stopBlock ≤ height + 1) (n : Nat)
    (hn : 5 * (args.stopBlock - ((Driver.start args f).run args eventTx rs₀).1.blockNumber) + 3 ≤
      n) :
    let d := ((Driver.start args f).run args eventTx rs₀).1
    let x := d.run args eventTx (Driver.healthyReplies args eventTx chain height n d)
    x.1.pc = .finished ∧
        acceptedBlocks x.2 = List.range' d.blockNumber (args.stopBlock - d.blockNumber) ∨
      x.1.pc = .panicked "Block is valid" := by
  intro d x
  have hinv : Driver.Inv args d := Driver.run_inv args eventTx (Driver.start_inv args f) rs₀
  rcases Driver.healthy_run args eventTx chain hheight n hinv hw
    ((Driver.answersLeft_le args d).trans hn) with ⟨hf, hle⟩ | hp
  · refine .inl ⟨hf, ?_⟩
    have hpr : Driver.Progress args eventTx d x.1 x.2 := Driver.run_progress args eventTx hinv _
    have hbn : x.1.blockNumber = d.blockNumber + (acceptedBlocks x.2).length :=
      Driver.run_blockNumber args eventTx hinv _
    have hle : args.stopBlock ≤ x.1.blockNumber := hle
    clear_value x d
    -- the accepted blocks run from `block_number` to below `stop_at`, and end at `stop_at`
    obtain ⟨-, hacc, -, hbelow, -, -⟩ := hpr
    generalize (acceptedBlocks x.2).length = k at hacc hbn
    rw [hacc] at hbelow ⊢
    congr 1
    rcases Nat.eq_zero_or_pos k with h0 | hpos
    · omega
    · have := hbelow (d.blockNumber + k - 1) (List.mem_range'_1.2 ⟨by omega, by omega⟩)
      omega
  · exact .inr hp

/-- `stop_at` at block `3`, with no assumed finality and no checkpoints. -/
def stopAtThreeArgs : Args := ⟨0, some 3, 0, 0, by decide, fun _ h => by cases h; decide, by decide,
  by decide⟩

/-- A fresh replay stopping at block `3`, on a node at height `10` with empty blocks: thirteen
answers take it to `wait_forever`, blocks `1` and `2` accepted, or to a panic. -/
theorem healthy_node_replays_two_blocks :
    let d := ((Driver.start stopAtThreeArgs tinyFactory).run stopAtThreeArgs false []).1
    let x := d.run stopAtThreeArgs false
      (Driver.healthyReplies stopAtThreeArgs false (fun _ => ([], [])) 10 13 d)
    x.1.pc = .finished ∧
        acceptedBlocks x.2 = List.range' d.blockNumber (stopAtThreeArgs.stopBlock - d.blockNumber) ∨
      x.1.pc = .panicked "Block is valid" :=
  healthy_node_replays_to_stop stopAtThreeArgs false tinyFactory [] rfl (fun _ => ([], [])) 10
    (by decide) 13 (by decide)

example : let d := ((Driver.start stopAtThreeArgs tinyFactory).run stopAtThreeArgs false []).1
    acceptedBlocks (d.run stopAtThreeArgs false
      (Driver.healthyReplies stopAtThreeArgs false (fun _ => ([], [])) 10 13 d)).2 = [1, 2] := by
  decide

end PhalaCore.Replay
