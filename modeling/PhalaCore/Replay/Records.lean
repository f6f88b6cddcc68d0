import PhalaCore.Replay.Launch

/-!
# Numbering the event records

The event handler of `handle_inbound_messages` numbers each record with `next_event_seq` and then
increments it, across `process_messages` and `did_process_block` and across blocks. Over any
sequence of `dispatch_block` calls on one factory, as long as no increment wraps at `i64::MAX`
(`records_numbered_in_order`):

* the records carry `s0, s0 + 1, …` in the order they were produced, `s0` being `next_event_seq`
  before the first block;
* after each block `next_event_seq` is `s0` plus the number of records so far;
* with `event_tx` present, exactly these records are sent, in this order.

A record exists only once the economics has been launched (`inboundBlock_eq_of_not_launched`),
which is what makes the records of a block the ones sent.
-/

namespace PhalaCore.Replay

variable {P : Phactory}

/-! ## Numbered records -/

/-- The records carry `s, s + 1, …` in order. -/
def NumberedFrom (s : Int) (rs : List (EventRecord P)) : Prop :=
  rs.map (·.sequence) = (List.range rs.length).map fun i : Nat => s + i

theorem NumberedFrom.append {s : Int} {xs ys : List (EventRecord P)} (hx : NumberedFrom s xs)
    (hy : NumberedFrom (s + xs.length) ys) : NumberedFrom s (xs ++ ys) := by
  unfold NumberedFrom at *
  rw [List.map_append, hx, hy, List.length_append, List.range_add, List.map_append, List.map_map]
  congr 2
  funext i
  simp only [Function.comp_apply]
  omega

theorem NumberedFrom.cons {s : Int} {r : EventRecord P} {rs : List (EventRecord P)}
    (hr : r.sequence = s) (hrs : NumberedFrom (s + 1) rs) : NumberedFrom s (r :: rs) := by
  have h₁ : NumberedFrom s [r] := by
    show [r.sequence] = [s + ((0 : Nat) : Int)]
    rw [hr]
    congr 1
    omega
  have h₂ : NumberedFrom (s + ([r] : List (EventRecord P)).length) rs := by simpa using hrs
  exact h₁.append h₂

@[simp] theorem eventHandler_length (n t : Nat) (s : Int)
    (evs : List (P.EconomicEvent × P.WorkerInfo)) :
    (eventHandler n t s evs).2.length = evs.length := by
  induction evs generalizing s <;> simp [eventHandler, *]

/-- The handler numbers the events from `nextSeq` on and leaves `nextSeq` just past the last one,
while no increment wraps. -/
theorem eventHandler_numbered (n t : Nat) (s : Int) (evs : List (P.EconomicEvent × P.WorkerInfo))
    (h : s + evs.length ≤ i64Max) :
    (eventHandler n t s evs).1 = s + evs.length ∧ NumberedFrom s (eventHandler n t s evs).2 := by
  induction evs generalizing s with
  | nil => simp [eventHandler, NumberedFrom]
  | cons ev evs ih =>
    simp only [List.length_cons] at h
    have hs : i64Succ s = s + 1 := if_neg (by omega)
    obtain ⟨h₁, h₂⟩ := ih (s + 1) (by omega)
    simp only [eventHandler, hs, h₁, List.length_cons]
    exact ⟨by omega, h₂.cons rfl⟩

/-! ## Counting along the trace -/

@[simp] theorem records_append (t₁ t₂ : List (Interaction P)) :
    records (t₁ ++ t₂) = records t₁ ++ records t₂ := List.filterMap_append ..

@[simp] theorem records_map_record (rs : List (EventRecord P)) : records (rs.map .record) = rs := by
  simp [records, List.filterMap_map, Function.comp_def, List.filterMap_some]

/-- A stretch of the replay that took `next_event_seq` from `s` to `s'` numbered its records from
`s` on and left `s'` just past them, provided no increment wrapped. -/
def Counted (s : Int) (trace : List (Interaction P)) (s' : Int) : Prop :=
  s + (records trace).length ≤ i64Max →
    s' = s + (records trace).length ∧ NumberedFrom s (records trace)

theorem Counted.of_records_nil {s : Int} {trace : List (Interaction P)} (h : records trace = []) :
    Counted s trace s := fun _ => by
  simp [h, NumberedFrom]

theorem Counted.append {s s₁ s₂ : Int} {t₁ t₂ : List (Interaction P)}
    (h₁ : Counted s t₁ s₁) (h₂ : Counted s₁ t₂ s₂) : Counted s (t₁ ++ t₂) s₂ := by
  intro h
  simp only [records_append, List.length_append] at h ⊢
  obtain ⟨rfl, hn₁⟩ := h₁ (by omega)
  obtain ⟨rfl, hn₂⟩ := h₂ (by omega)
  exact ⟨by omega, hn₁.append hn₂⟩

/-- A call into the economics followed by the records its event handler produced. -/
theorem Counted.handler {i : Interaction P} (hi : records [i] = []) (n t : Nat) (s : Int)
    (evs : List (P.EconomicEvent × P.WorkerInfo)) :
    Counted s (i :: (eventHandler n t s evs).2.map .record) (eventHandler n t s evs).1 := by
  have hrec : records (i :: (eventHandler n t s evs).2.map .record) = (eventHandler n t s evs).2 := by
    rw [← List.singleton_append, records_append, hi, records_map_record, List.nil_append]
  intro h
  rw [hrec, eventHandler_length] at h ⊢
  exact eventHandler_numbered n t s evs h

/-- Reading a block's messages produces no record. -/
theorem Counted.block_head {s s' : Int} {t : List (Interaction P)} (n : Nat)
    (ms : List (Message P.Origin)) (h : Counted s t s') :
    Counted s (.mqMessages n ms :: .willProcessBlock n :: t) s' :=
  h

/-! ## The run -/

namespace ReplayFactory

theorem launch_counted (f : ReplayFactory P) :
    Counted f.nextEventSeq f.launch.2 f.launch.1.nextEventSeq := by
  rw [launch_nextEventSeq]
  apply Counted.of_records_nil
  rw [launch_trace]
  split_ifs <;> simp [records, List.filterMap_map, Function.comp_def]

theorem inboundLoop_counted (n t : Nat) (f : ReplayFactory P) (ms : List (Message P.Origin)) :
    Counted f.nextEventSeq (inboundLoop n t f ms).2 (inboundLoop n t f ms).1.nextEventSeq := by
  induction ms generalizing f with
  | nil => exact .of_records_nil rfl
  | cons m ms ih =>
    rw [inboundLoop_cons]
    split_ifs
    · exact ih f
    · exact ((launch_counted f).append (.handler (by rfl) _ _ _ _)).append
        (ih (f.launch.1.processMessage n t m).1)

theorem inboundBlock_counted (f : ReplayFactory P) (n t : Nat) (ms : List (Message P.Origin)) :
    Counted f.nextEventSeq (f.inboundBlock n t ms).2 (f.inboundBlock n t ms).1.nextEventSeq := by
  dsimp only [inboundBlock]
  split_ifs
  · exact (inboundLoop_counted n t f ms).append (.handler (by rfl) _ _ _ _)
  · exact inboundLoop_counted n t f ms

theorem dispatchBlock_counted (f : ReplayFactory P) (block : Block P) (eventTx : Bool) :
    Counted f.nextEventSeq (f.dispatchBlock block eventTx).trace
      (f.dispatchBlock block eventTx).factory.nextEventSeq := by
  rcases dispatchBlock_cases f block eventTx with
    ⟨htrace, -, hf⟩ | ⟨g, t, ms, -, hs, htrace, -, hseq, -⟩
  · rw [htrace, congrArg ReplayFactory.nextEventSeq hf]
    exact .of_records_nil rfl
  · rw [htrace, hseq, ← hs]
    exact (inboundBlock_counted g block.number t ms).block_head block.number ms

theorem dispatchBlocks_counted (f : ReplayFactory P) (eventTx : Bool) (blocks : List (Block P)) :
    Counted f.nextEventSeq (f.dispatchBlocks eventTx blocks).2.1
      (f.dispatchBlocks eventTx blocks).1.nextEventSeq := by
  induction blocks generalizing f with
  | nil => exact .of_records_nil rfl
  | cons block blocks ih => exact (dispatchBlock_counted f block eventTx).append (ih _)

/-- With `event_tx` present, a block sends the records it produced: there are none before the
economics is launched. -/
theorem dispatchBlock_sent (f : ReplayFactory P) (block : Block P) :
    (f.dispatchBlock block true).sent = records (f.dispatchBlock block true).trace := by
  rcases dispatchBlock_cases f block true with
    ⟨htrace, hsent, -⟩ | ⟨g, t, ms, -, -, htrace, -, -, hsent⟩
  · rw [hsent, htrace]
    rfl
  · rw [hsent, Bool.and_true]
    split_ifs with h
    · rfl
    · rw [htrace, inboundBlock_eq_of_not_launched g _ _ _ (by simpa using h)]
      rfl

theorem dispatchBlocks_sent (f : ReplayFactory P) (blocks : List (Block P)) :
    (f.dispatchBlocks true blocks).2.2 = records (f.dispatchBlocks true blocks).2.1 := by
  induction blocks generalizing f with
  | nil => rfl
  | cons block blocks ih =>
    show _ ++ _ = records (_ ++ _)
    rw [records_append, dispatchBlock_sent, ih]

/-- The blocks before the `k`-th left the beginning of the whole run's trace. -/
theorem dispatchBlocks_take_trace (f : ReplayFactory P) (eventTx : Bool) (blocks : List (Block P))
    (k : Nat) : ∃ rest, (f.dispatchBlocks eventTx blocks).2.1 =
      (f.dispatchBlocks eventTx (blocks.take k)).2.1 ++ rest := by
  induction blocks generalizing f k with
  | nil => exact ⟨[], by simp⟩
  | cons block blocks ih =>
    cases k with
    | zero => exact ⟨_, rfl⟩
    | succ k =>
      obtain ⟨rest, h⟩ := ih (f.dispatchBlock block eventTx).factory k
      exact ⟨rest, by
        show _ ++ _ = (_ ++ _) ++ rest
        rw [h, List.append_assoc]⟩

/-- Over any blocks, while no increment wraps: the records carry `s0, s0 + 1, …` in the order they
were produced; after each block `next_event_seq` is `s0` plus the number of records so far; with
`event_tx` present, exactly these records are sent, in this order. -/
theorem records_numbered_in_order (f : ReplayFactory P) (eventTx : Bool) (blocks : List (Block P))
    (hbound : f.nextEventSeq + (records (f.dispatchBlocks eventTx blocks).2.1).length ≤ i64Max) :
    let trace := (f.dispatchBlocks eventTx blocks).2.1
    (records trace).map (·.sequence) =
        (List.range (records trace).length).map (fun i : Nat => f.nextEventSeq + i) ∧
      (∀ k, let r := f.dispatchBlocks eventTx (blocks.take k)
        r.1.nextEventSeq = f.nextEventSeq + (records r.2.1).length) ∧
      (eventTx = true → (f.dispatchBlocks eventTx blocks).2.2 = records trace) := by
  refine ⟨(dispatchBlocks_counted f eventTx blocks hbound).2, fun k => ?_, ?_⟩
  · obtain ⟨rest, h⟩ := dispatchBlocks_take_trace f eventTx blocks k
    rw [h, records_append, List.length_append] at hbound
    exact (dispatchBlocks_counted f eventTx (blocks.take k) (by omega)).1
  · rintro rfl
    exact dispatchBlocks_sent f blocks

theorem launch_run_sends_record_one :
    (tinyFactory.dispatchBlocks true launchRun).2.2.map (·.sequence) = [1] := by
  rw [(records_numbered_in_order tinyFactory true launchRun (by decide)).2.2 rfl]
  decide

end ReplayFactory

end PhalaCore.Replay
