import PhalaCore.Replay.Restore
import PhalaCore.Replay.Records
import PhalaCore.Replay.Progress

/-!
# The records the persist task receives

`replay` hands `event_tx` to every `dispatch_block` call, and the persist task reads what arrives
on it. Over a whole run of the loop, whatever the node replies, failed calls, sleeps,
reconnects and a rejected block included, the calls of `dispatch_block` form one sequence on
one factory (`run_chained`): each starts from the factory the previous one left. So what was
proved of `dispatch_blocks` holds of the loop's output (`records_sent_consecutively`): the
records sent carry `next_event_seq, next_event_seq + 1, …` of the factory the loop started
with, and the factory's `next_event_seq` ends one past the last of them, while no increment
wraps at `i64::MAX`. The same sequence says what a checkpoint holds
(`checkpoint_holds_replayed_blocks`): the factory written at block `c` is the start factory with
the blocks from the first one up to `c` dispatched on it, in order. Each record carries the block
whose call produced it, and a call that failed sent nothing, so the records arrive in block order,
each from a block `dispatch_block` accepted (`records_in_block_order`). The model reads
`event_tx` only where the event handler sends a record, so a run with it and one without take the
same steps and differ only in what is sent (`event_tx_only_sends`, a fact of how the model is
written, which the code has too: the handler numbers the records before it looks at `event_tx`).
-/

namespace PhalaCore.Replay

variable {P : Phactory}

/-- What the event's call of `dispatch_block`, if it is one, did. -/
def Event.dispatchTrace (eventTx : Bool) : Event P → List (Interaction P)
  | .dispatched b g _ => (g.dispatchBlock b eventTx).trace
  | _ => []

/-- What the event's call of `dispatch_block`, if it is one, sent on `event_tx`. -/
def Event.sent (eventTx : Bool) : Event P → List (EventRecord P)
  | .dispatched b g _ => (g.dispatchBlock b eventTx).sent
  | _ => []

/-- What the calls of `dispatch_block` in the events did, in order. -/
def dispatchTrace (eventTx : Bool) (es : List (Event P)) : List (Interaction P) :=
  es.flatMap (Event.dispatchTrace eventTx)

/-- The records the calls of `dispatch_block` in the events sent on `event_tx`, in order. -/
def sentRecords (eventTx : Bool) (es : List (Event P)) : List (EventRecord P) :=
  es.flatMap (Event.sent eventTx)

@[simp] theorem dispatchTrace_append (eventTx : Bool) (xs ys : List (Event P)) :
    dispatchTrace eventTx (xs ++ ys) = dispatchTrace eventTx xs ++ dispatchTrace eventTx ys :=
  List.flatMap_append ..

@[simp] theorem sentRecords_append (eventTx : Bool) (xs ys : List (Event P)) :
    sentRecords eventTx (xs ++ ys) = sentRecords eventTx xs ++ sentRecords eventTx ys :=
  List.flatMap_append ..

/-- Events other than calls of `dispatch_block` did and sent nothing. -/
theorem dispatchTrace_sent_of_not_dispatched {es : List (Event P)} (eventTx : Bool)
    (h : ∀ e ∈ es, ∀ b g acc, e ≠ .dispatched b g acc) :
    dispatchedBlocks es = [] ∧ dispatchTrace eventTx es = [] ∧ sentRecords eventTx es = [] := by
  refine ⟨List.filterMap_eq_nil_iff.2 fun e he => ?_, List.flatMap_eq_nil_iff.2 fun e he => ?_,
    List.flatMap_eq_nil_iff.2 fun e he => ?_⟩ <;>
    cases e <;> first | rfl | exact absurd rfl (h _ he _ _ _)

namespace ReplayFactory

/-- Dispatching `bs₁ ++ bs₂` dispatches `bs₁`, then `bs₂` on the factory `bs₁` left. -/
theorem dispatchBlocks_append (f : ReplayFactory P) (eventTx : Bool) (bs₁ bs₂ : List (Block P)) :
    f.dispatchBlocks eventTx (bs₁ ++ bs₂) =
      (((f.dispatchBlocks eventTx bs₁).1.dispatchBlocks eventTx bs₂).1,
        (f.dispatchBlocks eventTx bs₁).2.1 ++
          ((f.dispatchBlocks eventTx bs₁).1.dispatchBlocks eventTx bs₂).2.1,
        (f.dispatchBlocks eventTx bs₁).2.2 ++
          ((f.dispatchBlocks eventTx bs₁).1.dispatchBlocks eventTx bs₂).2.2) := by
  induction bs₁ generalizing f with
  | nil => rfl
  | cons b bs₁ ih =>
    simp only [List.cons_append, dispatchBlocks, List.append_eq, ih, List.append_assoc]

end ReplayFactory

/-- The calls of `dispatch_block` in the events `es` are one sequence of calls from `f`, which
left `f'`, did what `dispatchTrace` says and sent what `sentRecords` says. -/
structure Chained (eventTx : Bool) (f : ReplayFactory P) (es : List (Event P))
    (f' : ReplayFactory P) : Prop where
  factory : (f.dispatchBlocks eventTx (dispatchedBlocks es)).1 = f'
  trace : (f.dispatchBlocks eventTx (dispatchedBlocks es)).2.1 = dispatchTrace eventTx es
  sent : (f.dispatchBlocks eventTx (dispatchedBlocks es)).2.2 = sentRecords eventTx es

namespace Chained

variable {eventTx : Bool}

/-- Events without a call of `dispatch_block` are the empty sequence of calls. -/
theorem of_not_dispatched (f : ReplayFactory P) {es : List (Event P)}
    (h : ∀ e ∈ es, ∀ b g acc, e ≠ .dispatched b g acc) : Chained eventTx f es f := by
  obtain ⟨hd, htr, hse⟩ := dispatchTrace_sent_of_not_dispatched eventTx h
  exact ⟨by rw [hd]; rfl, by rw [hd, htr]; rfl, by rw [hd, hse]; rfl⟩

theorem of_quiet (f : ReplayFactory P) {es : List (Event P)} (h : ∀ e ∈ es, e.Quiet) :
    Chained eventTx f es f :=
  of_not_dispatched f fun e he b g acc hb => by subst hb; exact h _ he

theorem append {f f₁ f₂ : ReplayFactory P} {es₁ es₂ : List (Event P)}
    (h₁ : Chained eventTx f es₁ f₁) (h₂ : Chained eventTx f₁ es₂ f₂) :
    Chained eventTx f (es₁ ++ es₂) f₂ where
  factory := by
    rw [dispatchedBlocks_append, ReplayFactory.dispatchBlocks_append, h₁.factory, h₂.factory]
  trace := by
    rw [dispatchedBlocks_append, ReplayFactory.dispatchBlocks_append, dispatchTrace_append,
      ← h₁.trace, h₁.factory, ← h₂.trace]
  sent := by
    rw [dispatchedBlocks_append, ReplayFactory.dispatchBlocks_append, sentRecords_append,
      ← h₁.sent, h₁.factory, ← h₂.sent]

/-- One call of `dispatch_block` on `f`. -/
theorem dispatched (f : ReplayFactory P) (b : Block P) (acc : Bool) :
    Chained eventTx f [.dispatched b f acc] (f.dispatchBlock b eventTx).factory :=
  ⟨rfl, rfl, rfl⟩

theorem of_factory_eq {f g f' : ReplayFactory P} {es : List (Event P)} (h : Chained eventTx f es f')
    (hfg : f = g) : Chained eventTx g es f' :=
  hfg ▸ h

end Chained

namespace Driver

variable (args : Args) (eventTx : Bool)

/-- Over every run, the calls of `dispatch_block` are one sequence of calls on the factory the
run started with, which left the factory the run ends with. -/
theorem run_chained (d : Driver P) (rs : List (Reply P)) :
    Chained eventTx d.factory (run args eventTx d rs).2 (run args eventTx d rs).1.factory := by
  induction rs generalizing d with
  | nil => exact .of_quiet _ nofun
  | cons r rs ih =>
    cases hs : step args eventTx d r with
    | none =>
      rw [run_cons_of_stuck args eventTx rs hs]
      exact .of_quiet _ nofun
    | some x =>
      obtain ⟨d', es⟩ := x
      rw [run_cons_of_step args eventTx rs hs]
      dsimp only
      rcases step_moves args eventTx hs with ⟨ch, root, -, -, hx⟩ | ⟨⟨p, hp⟩, hq⟩
      · rcases replayBlock_ok args eventTx d ch root with he | he <;> rw [he] at hx <;> cases hx
        · -- rejected: the run ends at the panic
          rw [run_of_final args eventTx rs (.inr (.inr ⟨_, rfl⟩))]
          exact .dispatched _ _ _
        · -- accepted: the checkpoint, if any, then the rest of the run
          refine ((Chained.dispatched _ _ _).append
            (.of_not_dispatched _ fun e he b g acc => ?_)).append ((ih _).of_factory_eq (by simp))
          unfold takeCheckpoint at he
          split_ifs at he
          · rw [List.mem_singleton.1 he]; nofun
          · cases he
      · cases (show d' = _ from hp)
        exact (Chained.of_quiet _ hq).append (ih { d with pc := p })

end Driver

/-- Whatever the node replies, the records `replay` sends on `event_tx` over a run carry
`s, s + 1, …`, `s` being the `next_event_seq` of the factory it started from, and the factory's
`next_event_seq` ends one past the last of them, while no increment wraps at `i64::MAX`. -/
theorem records_sent_consecutively (args : Args) (f : ReplayFactory P) (rs : List (Reply P))
    (hbound : f.nextEventSeq +
      (sentRecords true ((Driver.start args f).run args true rs).2).length ≤ i64Max) :
    let x := (Driver.start args f).run args true rs
    (sentRecords true x.2).map (·.sequence) =
        (List.range (sentRecords true x.2).length).map (fun i : Nat => f.nextEventSeq + i) ∧
      x.1.factory.nextEventSeq = f.nextEventSeq + (sentRecords true x.2).length := by
  intro x
  have hc : Chained true f x.2 x.1.factory := Driver.run_chained args true (Driver.start args f) rs
  have hsent :
      sentRecords true x.2 = records (f.dispatchBlocks true (dispatchedBlocks x.2)).2.1 := by
    rw [← hc.sent, ReplayFactory.dispatchBlocks_sent]
  rw [hsent] at hbound ⊢
  obtain ⟨hseq, hnum⟩ := ReplayFactory.dispatchBlocks_counted f true (dispatchedBlocks x.2) hbound
  exact ⟨hnum, hc.factory ▸ hseq⟩

/-- The replies that bring in block `1` carrying the launch message, whose storage change puts it
in the queue. -/
def launchBlockReplies : List (Reply tinyPhactory) :=
  [.finalizedHead (.ok ()), .header (.ok (some 10)), .syncState (.ok 10),
    .storageChanges (.ok [[(0, 1)]]), .headerAt (.ok [(0, 1)])]

/-- A fresh replay that reads the launch message in block `1`: the economics reports one event,
sent as record `1`. -/
theorem launch_block_sends_record :
    let x := (Driver.start plainArgs tinyFactory).run plainArgs true launchBlockReplies
    (sentRecords true x.2).map (·.sequence) =
        (List.range (sentRecords true x.2).length).map
          (fun i : Nat => tinyFactory.nextEventSeq + i) ∧
      x.1.factory.nextEventSeq = tinyFactory.nextEventSeq + (sentRecords true x.2).length :=
  records_sent_consecutively plainArgs tinyFactory launchBlockReplies (by decide)

example : (sentRecords true ((Driver.start plainArgs tinyFactory).run plainArgs true
    launchBlockReplies).2).map (·.sequence) = [1] := by decide

/-! ## What a checkpoint holds -/

namespace Driver

/-- The reply whose events hold a checkpoint at block `c` brought in block `c` and dispatched it,
and its checkpoint holds the factory `dispatch_block` left. -/
theorem step_checkpoint_dispatched (args : Args) (eventTx : Bool) {d d' : Driver P} {r : Reply P}
    {es₁ es₂ : List (Event P)} {c : Nat} {g : ReplayFactory P}
    (h : step args eventTx d r = some (d', es₁ ++ .checkpoint c g :: es₂)) :
    ∃ block : Block P, es₁ = [.dispatched block d.factory true] ∧
      g = (d.factory.dispatchBlock block eventTx).factory ∧ block.number = c := by
  rcases step_moves args eventTx h with ⟨ch, root, -, -, hx⟩ | ⟨-, hq⟩
  · simp only [replayBlock] at hx
    split at hx
    · rcases es₁ with _ | ⟨e, _ | ⟨e', es₁⟩⟩ <;> simp at hx
    · unfold takeCheckpoint at hx
      split_ifs at hx <;>
        rcases es₁ with _ | ⟨e, _ | ⟨e', es₁⟩⟩ <;> simp only [Prod.mk.injEq] at hx <;>
        simp at hx
      obtain ⟨-, rfl, ⟨rfl, rfl⟩, -⟩ := hx
      exact ⟨_, rfl, rfl, rfl⟩
  · exact absurd (hq _ (List.mem_append_right _ (List.mem_cons_self _ _))) id

end Driver

/-- A run of consecutive numbers that ends at `c` has `c + 1 - s` of them. -/
theorem range'_length_of_last {s n c : Nat} {xs : List Nat} (h : List.range' s n = xs ++ [c]) :
    n = c + 1 - s := by
  cases n with
  | zero => exact absurd h.symm (List.append_ne_nil_of_right_ne_nil _ (List.cons_ne_nil _ _))
  | succ n =>
    rw [List.range'_concat] at h
    have := List.singleton_inj.1 (List.append_inj' h rfl).2
    omega

/-- Over every run, the factory a checkpoint at block `c` holds is the start factory with the
blocks from the first one up to `c` dispatched on it, in order. -/
theorem checkpoint_holds_replayed_blocks (args : Args) (eventTx : Bool) (f : ReplayFactory P)
    (rs : List (Reply P)) (pre post : List (Event P)) (c : Nat) (g : ReplayFactory P)
    (h : ((Driver.start args f).run args eventTx rs).2 = pre ++ .checkpoint c g :: post) :
    g = (f.dispatchBlocks eventTx (dispatchedBlocks pre)).1 ∧
      (dispatchedBlocks pre).map (·.number) =
        List.range' (Driver.start args f).blockNumber
          (c + 1 - (Driver.start args f).blockNumber) := by
  obtain ⟨rs₁, r, rs₂, d₁, d₂, es₁, es₂, rfl, hd₁, hstep, hpre, -, -⟩ :=
    Driver.run_event_split args eventTx h
  obtain ⟨block, rfl, rfl, hc⟩ := Driver.step_checkpoint_dispatched args eventTx hstep
  have hch : Chained eventTx f pre (d₁.factory.dispatchBlock block eventTx).factory := by
    rw [hpre, ← hd₁]
    exact (Driver.run_chained args eventTx (Driver.start args f) rs₁).append (.dispatched _ _ _)
  refine ⟨hch.factory.symm, ?_⟩
  -- the blocks of `pre` are the first ones the whole run dispatched, and the last is `c`
  have hall := (Driver.run_progress args eventTx (Driver.start_inv args f)
    (rs₁ ++ r :: rs₂)).dispatched
  rw [h, dispatchedBlocks_append] at hall
  rw [List.length_append, Nat.add_comm, ← List.range'_append_1, List.map_append] at hall
  have hA := (List.append_inj hall (by simp)).1
  have hlast : (dispatchedBlocks pre).map (·.number) =
      (dispatchedBlocks ((Driver.start args f).run args eventTx rs₁).2).map (·.number) ++
        [c] := by
    rw [hpre, dispatchedBlocks_append]
    simp [hc]
  rw [hA, range'_length_of_last (hA.symm.trans hlast)]

/-- Three blocks with a checkpoint every second block: the checkpoint at block `2` holds blocks `1`
and `2` dispatched on the fresh factory. -/
theorem checkpoint_two_holds_blocks_one_two :
    emptyBlocksFactory 2 = (tinyFactory.dispatchBlocks false (dispatchedBlocks
        [.polled 1 10 10, .dispatched ⟨1, [], []⟩ tinyFactory true,
          .polled 2 10 10, .dispatched ⟨2, [], []⟩ (emptyBlocksFactory 1) true])).1 ∧
      (dispatchedBlocks [.polled 1 10 10, .dispatched ⟨1, [], []⟩ tinyFactory true,
          .polled 2 10 10, .dispatched ⟨2, [], []⟩ (emptyBlocksFactory 1) true]).map (·.number) =
        List.range' (Driver.start everySecondArgs tinyFactory).blockNumber
          (2 + 1 - (Driver.start everySecondArgs tinyFactory).blockNumber) :=
  checkpoint_holds_replayed_blocks everySecondArgs false tinyFactory
    (blockReplies ++ blockReplies ++ blockReplies)
    [.polled 1 10 10, .dispatched ⟨1, [], []⟩ tinyFactory true,
      .polled 2 10 10, .dispatched ⟨2, [], []⟩ (emptyBlocksFactory 1) true]
    [.polled 3 10 10, .dispatched ⟨3, [], []⟩ (emptyBlocksFactory 2) true] 2
    (emptyBlocksFactory 2) rfl

/-! ## The block of each record -/

/-- Every record among the interactions carries block number `n`. -/
def Stamped (n : Nat) (trace : List (Interaction P)) : Prop :=
  ∀ r ∈ records trace, r.blockNumber = n

namespace Stamped

variable {n : Nat}

theorem of_records_nil {trace : List (Interaction P)} (h : records trace = []) :
    Stamped n trace := fun r hr => by
  rw [h] at hr
  cases hr

theorem append {t₁ t₂ : List (Interaction P)} (h₁ : Stamped n t₁) (h₂ : Stamped n t₂) :
    Stamped n (t₁ ++ t₂) := fun r hr => by
  rw [records_append, List.mem_append] at hr
  exact hr.elim (h₁ r) (h₂ r)

/-- A call into the economics at block `n`, then the records its handler produced. -/
theorem handler {i : Interaction P} (hi : records [i] = []) (t : Nat) (s : Int)
    (evs : List (P.EconomicEvent × P.WorkerInfo)) :
    Stamped n (i :: (eventHandler n t s evs).2.map .record) := by
  intro r hr
  rw [← List.singleton_append, records_append, hi, records_map_record, List.nil_append] at hr
  induction evs generalizing s with
  | nil => cases hr
  | cons ev evs ih =>
    simp only [eventHandler, List.mem_cons] at hr
    rcases hr with rfl | hr
    · rfl
    · exact ih _ hr

end Stamped

namespace ReplayFactory

theorem launch_stamped (f : ReplayFactory P) (n : Nat) : Stamped n f.launch.2 := by
  apply Stamped.of_records_nil
  rw [launch_trace]
  split_ifs <;> simp [records, List.filterMap_map, Function.comp_def]

theorem inboundLoop_stamped (n t : Nat) (f : ReplayFactory P) (ms : List (Message P.Origin)) :
    Stamped n (inboundLoop n t f ms).2 := by
  induction ms generalizing f with
  | nil => exact .of_records_nil rfl
  | cons m ms ih =>
    rw [inboundLoop_cons]
    split_ifs
    · exact ih f
    · exact ((launch_stamped f n).append (.handler (by rfl) _ _ _)).append (ih _)

theorem inboundBlock_stamped (f : ReplayFactory P) (n t : Nat) (ms : List (Message P.Origin)) :
    Stamped n (f.inboundBlock n t ms).2 := by
  dsimp only [inboundBlock]
  split_ifs
  · exact (inboundLoop_stamped n t f ms).append (.handler (by rfl) _ _ _)
  · exact inboundLoop_stamped n t f ms

/-- Every record a call of `dispatch_block` produces carries the number of its block. -/
theorem dispatchBlock_stamped (f : ReplayFactory P) (block : Block P) (eventTx : Bool) :
    Stamped block.number (f.dispatchBlock block eventTx).trace := by
  rcases dispatchBlock_cases f block eventTx with
    ⟨htrace, -, -⟩ | ⟨g, t, ms, -, -, htrace, -, -, -⟩
  · rw [htrace]
    exact .of_records_nil rfl
  · rw [htrace]
    exact inboundBlock_stamped g block.number t ms

/-- A call of `dispatch_block` that sent a record succeeded. -/
theorem dispatchBlock_ok_of_sent (f : ReplayFactory P) (block : Block P) (eventTx : Bool)
    {r : EventRecord P} (hr : r ∈ (f.dispatchBlock block eventTx).sent) :
    (f.dispatchBlock block eventTx).result = .ok () := by
  dsimp only [dispatchBlock] at hr ⊢
  split_ifs at hr ⊢
  · cases hr
  · split
    next e he =>
      simp only [he] at hr
      rw [(handleInboundMessages_error _ _ _ _ he).1] at hr
      cases hr
    next hok => exact hok

end ReplayFactory

/-- The flag of a call of `dispatch_block` among the events says whether the call succeeded. -/
def Event.Consistent (eventTx : Bool) : Event P → Prop
  | .dispatched b g acc => (acc = true ↔ (g.dispatchBlock b eventTx).result = .ok ())
  | _ => True

namespace Driver

/-- Over every run, each call of `dispatch_block` is flagged accepted exactly when it succeeded. -/
theorem run_consistent (args : Args) (eventTx : Bool) (d : Driver P) (rs : List (Reply P)) :
    ∀ e ∈ (run args eventTx d rs).2, e.Consistent eventTx := by
  induction rs generalizing d with
  | nil => nofun
  | cons r rs ih =>
    cases hs : step args eventTx d r with
    | none =>
      rw [run_cons_of_stuck args eventTx rs hs]
      nofun
    | some x =>
      obtain ⟨d', es⟩ := x
      rw [run_cons_of_step args eventTx rs hs]
      intro e he
      rw [List.mem_append] at he
      rcases he with he | he
      · rcases step_moves args eventTx hs with ⟨ch, root, -, -, hx⟩ | ⟨-, hq⟩
        · simp only [replayBlock] at hx
          split at hx
          · next herr =>
            cases hx
            obtain rfl := List.mem_singleton.1 he
            simp [Event.Consistent, herr]
          · next hok =>
            cases hx
            rcases List.mem_cons.1 he with rfl | he
            · simp [Event.Consistent, hok]
            · unfold takeCheckpoint at he
              split_ifs at he
              · obtain rfl := List.mem_singleton.1 he
                trivial
              · cases he
        · cases e <;> first | trivial | exact (hq _ he).elim
      · exact ih _ e he

end Driver

namespace Driver

/-- Over every run, a record sent by a call of `dispatch_block` comes from a call flagged accepted
and carries the number of its block. -/
theorem run_sent_stamped (args : Args) (d : Driver P) (rs : List (Reply P)) :
    ∀ e ∈ (run args true d rs).2, ∀ r ∈ Event.sent true e,
      ∃ b g, e = .dispatched b g true ∧ r.blockNumber = b.number := by
  intro e he r hr
  cases e with
  | dispatched b g acc =>
    obtain rfl := (run_consistent args true d rs _ he).2
      (ReplayFactory.dispatchBlock_ok_of_sent g b true hr)
    refine ⟨b, g, rfl, ReplayFactory.dispatchBlock_stamped g b true r ?_⟩
    rw [← ReplayFactory.dispatchBlock_sent]
    exact hr
  | _ => cases hr

end Driver

/-- Records stamped with the blocks of their calls, the calls on increasing blocks, come in block
order. -/
theorem sentRecords_sorted {es : List (Event P)}
    (hstamp : ∀ e ∈ es, ∀ r ∈ Event.sent true e,
      ∃ b g, e = .dispatched b g true ∧ r.blockNumber = b.number)
    (hlt : (dispatchedBlocks es).Pairwise fun b b' => b.number < b'.number) :
    ((sentRecords true es).map (·.blockNumber)).Pairwise (· ≤ ·) := by
  rw [sentRecords, List.map_flatMap, List.pairwise_flatMap]
  refine ⟨fun e he => List.pairwise_of_forall_mem_list fun a ha c hc => ?_, ?_⟩
  · -- the records of one call all carry its block
    obtain ⟨r₁, hr₁, rfl⟩ := List.mem_map.1 ha
    obtain ⟨r₂, hr₂, rfl⟩ := List.mem_map.1 hc
    obtain ⟨b, g, rfl, h₁⟩ := hstamp e he r₁ hr₁
    obtain ⟨b', g', he', h₂⟩ := hstamp _ he r₂ hr₂
    cases he'
    omega
  · -- a later call is on a later block
    refine (List.pairwise_filterMap.1 hlt).imp_of_mem fun he₁ he₂ h a ha c hc => ?_
    obtain ⟨r₁, hr₁, rfl⟩ := List.mem_map.1 ha
    obtain ⟨r₂, hr₂, rfl⟩ := List.mem_map.1 hc
    obtain ⟨b₁, g₁, rfl, h₁⟩ := hstamp _ he₁ r₁ hr₁
    obtain ⟨b₂, g₂, rfl, h₂⟩ := hstamp _ he₂ r₂ hr₂
    have := h b₁ rfl b₂ rfl
    omega

/-- Whatever the node replies, the records `replay` sends on `event_tx` over a run come in block
order, and each carries the number of a block `dispatch_block` accepted. -/
theorem records_in_block_order (args : Args) (f : ReplayFactory P) (rs : List (Reply P)) :
    let x := (Driver.start args f).run args true rs
    ((sentRecords true x.2).map (·.blockNumber)).Pairwise (· ≤ ·) ∧
      ∀ r ∈ sentRecords true x.2, r.blockNumber ∈ acceptedBlocks x.2 := by
  intro x
  have hstamp := Driver.run_sent_stamped args (Driver.start args f) rs
  refine ⟨sentRecords_sorted hstamp ?_, fun r hr => ?_⟩
  · -- the calls are on consecutive blocks
    have h := List.pairwise_lt_range' (Driver.start args f).blockNumber
      (dispatchedBlocks x.2).length
    rw [← (Driver.run_progress args true (Driver.start_inv args f) rs).dispatched] at h
    exact List.pairwise_map.1 h
  · obtain ⟨e, he, hre⟩ := List.mem_flatMap.1 hr
    obtain ⟨b, g, rfl, hb⟩ := hstamp e he r hre
    rw [hb]
    exact List.mem_filterMap.2 ⟨_, he, rfl⟩

/-! ## What `event_tx` changes -/

theorem sentRecords_false (es : List (Event P)) : sentRecords false es = [] := by
  induction es with
  | nil => rfl
  | cons e es ih =>
    rw [sentRecords, List.flatMap_cons, ← sentRecords, ih, List.append_nil]
    cases e with
    | dispatched b g _ => exact congrArg Outcome.sent (ReplayFactory.dispatchBlock_eventTx g b).symm
    | _ => rfl

theorem Driver.replayBlock_eventTx (args : Args) (d : Driver P) (changes : P.StorageChanges)
    (c : Except String P.Hash) :
    Driver.replayBlock args true d changes c = Driver.replayBlock args false d changes c := by
  cases c with
  | error t => rfl
  | ok root =>
    simp only [Driver.replayBlock,
      ← ReplayFactory.dispatchBlock_eventTx d.factory ⟨d.blockNumber, root, changes⟩]

theorem Driver.step_eventTx (args : Args) (d : Driver P) (r : Reply P) :
    Driver.step args true d r = Driver.step args false d r := by
  unfold Driver.step
  split <;> simp only [Driver.replayBlock_eventTx]

/-- Persisting the events changes nothing but what is sent: whatever the node replies, the loop
run with `event_tx` and the loop run without it end in the same state having done the same things,
the same factories checkpointed included, and without it nothing is sent. -/
theorem event_tx_only_sends (args : Args) (d : Driver P) (rs : List (Reply P)) :
    d.run args true rs = d.run args false rs ∧ sentRecords false (d.run args false rs).2 = [] := by
  refine ⟨?_, sentRecords_false _⟩
  induction rs generalizing d with
  | nil => rfl
  | cons r rs ih => simp only [Driver.run, Driver.step_eventTx, ih]

end PhalaCore.Replay
