import PhalaCore.Replay.Dispatch

/-!
# The launch gate

Until the economics is launched, `handle_inbound_messages` skips the messages it reads. The first
message that `is_gk_launch` accepts launches it, and from then on every message is dispatched to
`recv_mq` and processed. Over any run of blocks from an unlaunched factory
(`launch_gates_economics`):

* the economics is handed at most one `update_tokenomic_parameters`, and then the messages
  `mq_messages` returned, in block order and then storage order, from the first launch message on;
* `gk_launched` ends true exactly when some block carried a launch message;
* `did_process_block` ran for the blocks from the launch block on.

Each block fails without a trace or reads its messages and runs the loop over them
(`dispatchBlock_cases`), so the gate over the whole run is a `dropWhile` that composes block by
block (`gate_append`, `Gated.append`).
-/

namespace PhalaCore.Replay

/-! ## Gating a list -/

section Gate

variable {α : Type} (p : α → Bool)

/-- The elements of `xs` from the first one satisfying `p` on, or all of them if `p` was met
before. -/
def gate (met : Bool) (xs : List α) : List α :=
  if met then xs else xs.dropWhile fun x => !p x

@[simp] theorem gate_nil (met : Bool) : gate p met [] = [] := by
  cases met <;> rfl

@[simp] theorem gate_true (xs : List α) : gate p true xs = xs := rfl

theorem gate_eq_nil {xs : List α} (h : xs.any p = false) : gate p false xs = [] := by
  simpa [gate, List.dropWhile_eq_nil_iff] using h

theorem gate_append (met : Bool) (xs ys : List α) :
    gate p met (xs ++ ys) = gate p met xs ++ gate p (met || xs.any p) ys := by
  cases met
  · cases hxs : xs.any p
    · have hnil : (xs.dropWhile fun x => !p x) = [] := gate_eq_nil p hxs
      simp [gate, List.dropWhile_append, hnil]
    · have hne : (xs.dropWhile fun x => !p x) ≠ [] := by
        simpa [List.dropWhile_eq_nil_iff] using hxs
      simp [gate, List.dropWhile_append, List.isEmpty_iff, hne]
  · rfl

theorem gate_singleton (met : Bool) (x : α) : gate p met [x] = if met || p x then [x] else [] := by
  cases met <;> cases h : p x <;> simp [gate, h]

end Gate

/-! ## What the run hands the economics -/

variable {P : Phactory}

/-- What `mq_messages` returned, block by block. -/
def reads (trace : List (Interaction P)) : List (Nat × List (Message P.Origin)) :=
  trace.filterMap fun
    | .mqMessages n ms => some (n, ms)
    | _ => none

/-- The messages `mq_messages` returned, in block order and then storage order. -/
def read (trace : List (Interaction P)) : List (Message P.Origin) :=
  (reads trace).flatMap Prod.snd

/-- The calls into the economics that the gate decides: tokenomic-parameter updates, and messages
dispatched to `recv_mq` and processed. -/
def economicsCalls (trace : List (Interaction P)) :
    List (P.TokenomicParameters ⊕ Message P.Origin) :=
  trace.filterMap fun
    | .updateTokenomicParameters params => some (.inl params)
    | .processMessage _ m => some (.inr m)
    | _ => none

/-- The blocks `did_process_block` ran for. -/
def didProcessed (trace : List (Interaction P)) : List Nat :=
  trace.filterMap fun
    | .didProcessBlock n => some n
    | _ => none

@[simp] theorem reads_append (t₁ t₂ : List (Interaction P)) :
    reads (t₁ ++ t₂) = reads t₁ ++ reads t₂ := List.filterMap_append ..

@[simp] theorem read_append (t₁ t₂ : List (Interaction P)) :
    read (t₁ ++ t₂) = read t₁ ++ read t₂ := by
  simp [read]

@[simp] theorem economicsCalls_append (t₁ t₂ : List (Interaction P)) :
    economicsCalls (t₁ ++ t₂) = economicsCalls t₁ ++ economicsCalls t₂ := List.filterMap_append ..

@[simp] theorem didProcessed_append (t₁ t₂ : List (Interaction P)) :
    didProcessed (t₁ ++ t₂) = didProcessed t₁ ++ didProcessed t₂ := List.filterMap_append ..

theorem any_read (trace : List (Interaction P)) :
    (read trace).any (isGkLaunch P) = (reads trace).any fun b => b.2.any (isGkLaunch P) := by
  simp [read]

/-- Of a block's head, the projections see only what `mq_messages` returned. -/
theorem projections_head (n : Nat) (ms : List (Message P.Origin)) (t : List (Interaction P)) :
    let head := Interaction.mqMessages n ms :: Interaction.willProcessBlock n :: t
    reads head = (n, ms) :: reads t ∧ economicsCalls head = economicsCalls t ∧
      didProcessed head = didProcessed t :=
  ⟨rfl, rfl, rfl⟩

/-! ## One block -/

namespace ReplayFactory

theorem launch_projections (f : ReplayFactory P) :
    economicsCalls f.launch.2 =
        (if f.gkLaunched then none else P.tokenomicParameters f.storage).toList.map .inl ∧
      reads f.launch.2 = [] ∧ didProcessed f.launch.2 = [] := by
  rw [launch_trace]
  split_ifs
  · simp [economicsCalls, reads, didProcessed]
  · cases P.tokenomicParameters f.storage <;> simp [economicsCalls, reads, didProcessed]

theorem processMessage_projections (f : ReplayFactory P) (n t : Nat) (m : Message P.Origin) :
    economicsCalls (f.processMessage n t m).2 = [.inr m] ∧
      reads (f.processMessage n t m).2 = [] ∧ didProcessed (f.processMessage n t m).2 = [] := by
  simp [processMessage, economicsCalls, reads, didProcessed, Function.comp_def]

theorem didProcessBlock_projections (f : ReplayFactory P) (n t : Nat) :
    economicsCalls (f.didProcessBlock n t).2 = [] ∧
      reads (f.didProcessBlock n t).2 = [] ∧ didProcessed (f.didProcessBlock n t).2 = [n] := by
  simp [didProcessBlock, economicsCalls, reads, didProcessed, Function.comp_def]

/-- The loop hands the economics the block's messages from the first launch message on, after at
most one parameter update when it launches it. -/
theorem inboundLoop_gated (n t : Nat) (f : ReplayFactory P) (ms : List (Message P.Origin)) :
    let l := inboundLoop n t f ms
    (∃ params : Option P.TokenomicParameters,
      (params.isSome → f.gkLaunched = false ∧ ms.any (isGkLaunch P)) ∧
      economicsCalls l.2 = params.toList.map .inl ++ (gate (isGkLaunch P) f.gkLaunched ms).map .inr) ∧
    reads l.2 = [] ∧ didProcessed l.2 = [] := by
  induction ms generalizing f with
  | nil => exact ⟨⟨none, by simp, by simp [inboundLoop, economicsCalls]⟩, rfl, rfl⟩
  | cons m ms ih =>
    rw [inboundLoop_cons]
    split_ifs with h
    · simp only [Bool.and_eq_true, Bool.not_eq_true'] at h
      obtain ⟨⟨params, hp, hcalls⟩, hreads, hdid⟩ := ih f
      refine ⟨⟨params, fun hs => ⟨(hp hs).1, by simp [(hp hs).2]⟩, ?_⟩, hreads, hdid⟩
      simp [hcalls, gate, h]
    · have hp₁ : (f.launch.1.processMessage n t m).1.gkLaunched = true := by simp
      obtain ⟨⟨params, hp, hcalls⟩, hreads, hdid⟩ := ih (f.launch.1.processMessage n t m).1
      have hnone : params = none := by
        cases params with
        | none => rfl
        | some _ => exact absurd ((hp rfl).1.symm.trans hp₁) Bool.false_ne_true
      have hm : f.gkLaunched = false → isGkLaunch P m = true := fun hf => by simpa [hf] using h
      have hgate : gate (isGkLaunch P) f.gkLaunched (m :: ms) = m :: ms := by
        cases hf : f.gkLaunched
        · simp [gate, hm hf]
        · rfl
      obtain ⟨hlc, hlr, hld⟩ := launch_projections f
      obtain ⟨hpc, hpr, hpd⟩ := processMessage_projections f.launch.1 n t m
      refine ⟨⟨if f.gkLaunched then none else P.tokenomicParameters f.storage, ?_, ?_⟩, ?_, ?_⟩
      · cases hf : f.gkLaunched
        · exact fun _ => ⟨rfl, by simp [hm hf]⟩
        · simp
      · simp [hlc, hpc, hcalls, hnone, hp₁, hgate]
      · simp [hlr, hpr, hreads]
      · simp [hld, hpd, hdid]

/-- `did_process_block` adds no economics call and reads nothing; it ran for this block exactly
when the economics was launched by the block's end. -/
theorem inboundBlock_gated (f : ReplayFactory P) (n t : Nat) (ms : List (Message P.Origin)) :
    let b := f.inboundBlock n t ms
    (∃ params : Option P.TokenomicParameters,
      (params.isSome → f.gkLaunched = false ∧ ms.any (isGkLaunch P)) ∧
      economicsCalls b.2 = params.toList.map .inl ++ (gate (isGkLaunch P) f.gkLaunched ms).map .inr) ∧
    reads b.2 = [] ∧ didProcessed b.2 = if b.1.gkLaunched then [n] else [] := by
  obtain ⟨hcalls, hreads, hdid⟩ := inboundLoop_gated n t f ms
  obtain ⟨hdc, hdr, hdd⟩ := didProcessBlock_projections (inboundLoop n t f ms).1 n t
  dsimp only [inboundBlock]
  by_cases h : (inboundLoop n t f ms).1.gkLaunched = true
  · rw [if_pos h]
    obtain ⟨params, hp, hc⟩ := hcalls
    exact ⟨⟨params, hp, by simp [hc, hdc]⟩, by simp [hreads, hdr], by simp [hdid, hdd, h]⟩
  · rw [if_neg h]
    exact ⟨hcalls, hreads, by simp [hdid, h]⟩

end ReplayFactory

/-! ## The run -/

/-- A stretch of the replay that began with `gk_launched = met` and ended with it `met'`. The
economics was handed the messages read in it from the first launch message on (all of them if it
was launched already), after at most one parameter update at the launch; the flag was set by a
launch message; `did_process_block` ran for the blocks from the launch block on. -/
structure Gated (met : Bool) (trace : List (Interaction P)) (met' : Bool) : Prop where
  calls : ∃ params : Option P.TokenomicParameters,
    (params.isSome → met = false ∧ (read trace).any (isGkLaunch P)) ∧
    economicsCalls trace = params.toList.map .inl ++ (gate (isGkLaunch P) met (read trace)).map .inr
  launched : met' = (met || (read trace).any (isGkLaunch P))
  blocks : didProcessed trace =
    (gate (fun b => b.2.any (isGkLaunch P)) met (reads trace)).map Prod.fst

theorem Gated.nil (met : Bool) : Gated met ([] : List (Interaction P)) met where
  calls := ⟨none, by simp, by simp [economicsCalls, read, reads]⟩
  launched := by simp [read, reads]
  blocks := by simp [reads, didProcessed]

theorem Gated.append {met met₁ met₂ : Bool} {t₁ t₂ : List (Interaction P)}
    (h₁ : Gated met t₁ met₁) (h₂ : Gated met₁ t₂ met₂) : Gated met (t₁ ++ t₂) met₂ where
  launched := by
    rw [h₂.launched, h₁.launched, read_append, List.any_append, Bool.or_assoc]
  blocks := by
    rw [didProcessed_append, h₁.blocks, h₂.blocks, reads_append, gate_append, h₁.launched,
      any_read, List.map_append]
  calls := by
    obtain ⟨o₁, ho₁, hc₁⟩ := h₁.calls
    obtain ⟨o₂, ho₂, hc₂⟩ := h₂.calls
    rw [economicsCalls_append, hc₁, hc₂, read_append, gate_append, ← h₁.launched]
    cases o₂ with
    | none => exact ⟨o₁, fun hs => ⟨(ho₁ hs).1, by simp [(ho₁ hs).2]⟩, by simp⟩
    | some params =>
      obtain ⟨hmet₁, hany₂⟩ := ho₂ rfl
      rw [h₁.launched, Bool.or_eq_false_iff] at hmet₁
      have hnone : o₁ = none := by
        cases o₁ <;> simp_all
      refine ⟨some params, fun _ => ⟨hmet₁.1, by simp [hany₂]⟩, ?_⟩
      simp [hnone, hmet₁.1, gate_eq_nil _ hmet₁.2]

namespace ReplayFactory

theorem dispatchBlock_gated (f : ReplayFactory P) (block : Block P) (eventTx : Bool) :
    Gated f.gkLaunched (f.dispatchBlock block eventTx).trace
      (f.dispatchBlock block eventTx).factory.gkLaunched := by
  rcases dispatchBlock_cases f block eventTx with
    ⟨htrace, -, hf⟩ | ⟨g, t, ms, hl, -, htrace, hlaunched, -, -⟩
  · rw [htrace, congrArg ReplayFactory.gkLaunched hf]
    exact .nil _
  · obtain ⟨⟨params, hp, hcalls⟩, hreads, hdid⟩ := inboundBlock_gated g block.number t ms
    obtain ⟨hr, hc, hd⟩ := projections_head block.number ms (g.inboundBlock block.number t ms).2
    have hread : read (f.dispatchBlock block eventTx).trace = ms := by
      simp [htrace, read, hr, hreads]
    rw [hl] at hp hcalls
    refine ⟨⟨params, ?_, ?_⟩, ?_, ?_⟩
    · rwa [hread]
    · rwa [hread, htrace, hc]
    · rw [hlaunched, inboundBlock_gkLaunched, hread, hl]
    · rw [htrace, hd, hdid, hr, hreads, gate_singleton, inboundBlock_gkLaunched, hl]
      split_ifs <;> rfl

theorem dispatchBlocks_gated (f : ReplayFactory P) (eventTx : Bool) (blocks : List (Block P)) :
    Gated f.gkLaunched (f.dispatchBlocks eventTx blocks).2.1
      (f.dispatchBlocks eventTx blocks).1.gkLaunched := by
  induction blocks generalizing f with
  | nil => exact .nil _
  | cons block blocks ih => exact (dispatchBlock_gated f block eventTx).append (ih _)

/-- From an unlaunched factory, over any blocks: the economics is handed at most one parameter
update, at the launch, and then the messages read from the first launch message on; the factory
ends launched exactly when a launch message was read; `did_process_block` ran for the blocks from
the first one carrying a launch message on. -/
theorem launch_gates_economics (f : ReplayFactory P) (eventTx : Bool) (blocks : List (Block P))
    (hf : f.gkLaunched = false) :
    let trace := (f.dispatchBlocks eventTx blocks).2.1
    (∃ params : Option P.TokenomicParameters,
      (params.isSome → (read trace).any (isGkLaunch P)) ∧
      economicsCalls trace =
        params.toList.map .inl ++ ((read trace).dropWhile fun m => !isGkLaunch P m).map .inr) ∧
    (f.dispatchBlocks eventTx blocks).1.gkLaunched = (read trace).any (isGkLaunch P) ∧
    didProcessed trace =
      ((reads trace).dropWhile fun b => !b.2.any (isGkLaunch P)).map Prod.fst := by
  have h := dispatchBlocks_gated f eventTx blocks
  rw [hf] at h
  obtain ⟨params, hp, hcalls⟩ := h.calls
  exact ⟨⟨params, fun hs => (hp hs).2, hcalls⟩, h.launched, h.blocks⟩

/-- An empty block, then a block carrying the launch message. -/
def launchRun : List (Block tinyPhactory) :=
  [tinyBlock 1 [] [(0, 0)], tinyBlock 2 [(0, 0)] [(0, 1)]]

theorem launch_run_processes_second_block :
    didProcessed (tinyFactory.dispatchBlocks true launchRun).2.1 = [2] := by
  rw [(launch_gates_economics tinyFactory true launchRun rfl).2.2]
  decide

end ReplayFactory

end PhalaCore.Replay
