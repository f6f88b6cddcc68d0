import PhalaCore.Replay.Factory

/-!
# What one block can do

`dispatch_block` fails in two places. A state-root mismatch returns before anything changes. A
failing `mq_messages` returns after `apply_changes` has run, so the storage keeps the block's
changes while `current_block` stays behind (`dispatchBlock_error`,
`undecodable_queue_changes_storage`). Every other field is untouched and nothing is sent.

Otherwise the block's messages go through the loop and `did_process_block`
(`dispatchBlock_cases`). The loop sets `gk_launched` at the first launch message and never clears
it (`inboundLoop_gkLaunched`), and a block that ends unlaunched did nothing in the economics
(`inboundBlock_eq_of_not_launched`). The launch gate and the numbering of the records are proved
from these. `event_tx` is read only to send: with it or without, a call leaves the same factory and
does the same things (`dispatchBlock_eventTx`).
-/

namespace PhalaCore.Replay

variable {P : Phactory}

namespace ReplayFactory

/-! ## The steps of the loop -/

@[simp] theorem launch_gkLaunched (f : ReplayFactory P) : f.launch.1.gkLaunched = true := by
  unfold launch
  split_ifs with h
  · exact h
  · split <;> rfl

@[simp] theorem launch_nextEventSeq (f : ReplayFactory P) :
    f.launch.1.nextEventSeq = f.nextEventSeq := by
  unfold launch
  split_ifs
  · rfl
  · split <;> rfl

theorem launch_trace (f : ReplayFactory P) :
    f.launch.2 = if f.gkLaunched then []
      else (P.tokenomicParameters f.storage).toList.map .updateTokenomicParameters := by
  unfold launch
  split_ifs
  · rfl
  · split <;> simp_all

@[simp] theorem processMessage_gkLaunched (f : ReplayFactory P) (n t : Nat) (m : Message P.Origin) :
    (f.processMessage n t m).1.gkLaunched = f.gkLaunched := rfl

@[simp] theorem didProcessBlock_gkLaunched (f : ReplayFactory P) (n t : Nat) :
    (f.didProcessBlock n t).1.gkLaunched = f.gkLaunched := rfl

theorem inboundLoop_cons (n t : Nat) (f : ReplayFactory P) (m : Message P.Origin)
    (ms : List (Message P.Origin)) :
    inboundLoop n t f (m :: ms) =
      if !f.gkLaunched && !isGkLaunch P m then inboundLoop n t f ms
      else
        let p := f.launch.1.processMessage n t m
        ((inboundLoop n t p.1 ms).1, f.launch.2 ++ p.2 ++ (inboundLoop n t p.1 ms).2) := rfl

/-- The loop sets `gk_launched` at the first launch message and never clears it. -/
theorem inboundLoop_gkLaunched (n t : Nat) (f : ReplayFactory P) (ms : List (Message P.Origin)) :
    (inboundLoop n t f ms).1.gkLaunched = (f.gkLaunched || ms.any (isGkLaunch P)) := by
  induction ms generalizing f with
  | nil => simp [inboundLoop]
  | cons m ms ih =>
    rw [inboundLoop_cons]
    cases hf : f.gkLaunched <;> cases hm : isGkLaunch P m <;> simp [ih, hf, hm]

/-- Before the launch the loop skips every message. -/
theorem inboundLoop_of_not_launched (n t : Nat) (f : ReplayFactory P) (ms : List (Message P.Origin))
    (hf : f.gkLaunched = false) (hms : ∀ m ∈ ms, isGkLaunch P m = false) :
    inboundLoop n t f ms = (f, []) := by
  induction ms with
  | nil => rfl
  | cons m ms ih =>
    rw [inboundLoop_cons, if_pos (by simp [hf, hms m (List.mem_cons_self m ms)])]
    exact ih fun m' hm' => hms m' (List.mem_cons_of_mem m hm')

theorem inboundBlock_gkLaunched (f : ReplayFactory P) (n t : Nat) (ms : List (Message P.Origin)) :
    (f.inboundBlock n t ms).1.gkLaunched = (f.gkLaunched || ms.any (isGkLaunch P)) := by
  dsimp only [inboundBlock]
  split_ifs <;> simp [inboundLoop_gkLaunched]

/-- A block that ends with the economics unlaunched did nothing in it. -/
theorem inboundBlock_eq_of_not_launched (f : ReplayFactory P) (n t : Nat)
    (ms : List (Message P.Origin)) (h : (f.inboundBlock n t ms).1.gkLaunched = false) :
    (f.inboundBlock n t ms).2 = [] := by
  rw [inboundBlock_gkLaunched, Bool.or_eq_false_iff, List.any_eq_false] at h
  have hloop := inboundLoop_of_not_launched n t f ms h.1 fun m hm => by simpa using h.2 m hm
  simp [inboundBlock, hloop, h.1]

/-! ## One block -/

theorem handleInboundMessages_error (f : ReplayFactory P) (n : Nat) (eventTx : Bool) (e : String)
    (he : (f.handleInboundMessages n eventTx).result = .error e) :
    f.handleInboundMessages n eventTx = ⟨f, .error e, [], []⟩ ∧
      e = "Can not get mq messages from storage" ∧ P.mqMessages f.storage = none := by
  unfold handleInboundMessages at he ⊢
  cases hmq : P.mqMessages f.storage <;> rw [hmq] at he <;> cases he
  exact ⟨rfl, rfl, rfl⟩

theorem handleInboundMessages_ok (f : ReplayFactory P) (n : Nat) (eventTx : Bool)
    (hok : (f.handleInboundMessages n eventTx).result = .ok ()) :
    ∃ (g : ReplayFactory P) (nowMs : Nat) (messages : List (Message P.Origin)),
      g.gkLaunched = f.gkLaunched ∧ g.nextEventSeq = f.nextEventSeq ∧
      let o := f.handleInboundMessages n eventTx
      let b := g.inboundBlock n nowMs messages
      o.trace = .mqMessages n messages :: .willProcessBlock n :: b.2 ∧
      o.factory.gkLaunched = b.1.gkLaunched ∧ o.factory.nextEventSeq = b.1.nextEventSeq ∧
      o.sent = if b.1.gkLaunched && eventTx then records o.trace else [] := by
  unfold handleInboundMessages at hok ⊢
  cases hmq : P.mqMessages f.storage <;> rw [hmq] at hok
  · cases hok
  · refine ⟨_, _, _, ?_, ?_, rfl, rfl, rfl, rfl⟩ <;> rfl

/-- `dispatch_block` fails having produced nothing and changed at most the storage, or
`mq_messages` returned the block's messages and they went through the loop. -/
theorem dispatchBlock_cases (f : ReplayFactory P) (block : Block P) (eventTx : Bool) :
    let o := f.dispatchBlock block eventTx
    (o.trace = [] ∧ o.sent = [] ∧ o.factory = { f with storage := o.factory.storage }) ∨
    ∃ (g : ReplayFactory P) (nowMs : Nat) (messages : List (Message P.Origin)),
      g.gkLaunched = f.gkLaunched ∧ g.nextEventSeq = f.nextEventSeq ∧
      let b := g.inboundBlock block.number nowMs messages
      o.trace = .mqMessages block.number messages :: .willProcessBlock block.number :: b.2 ∧
      o.factory.gkLaunched = b.1.gkLaunched ∧ o.factory.nextEventSeq = b.1.nextEventSeq ∧
      o.sent = if b.1.gkLaunched && eventTx then records o.trace else [] := by
  dsimp only [dispatchBlock]
  split_ifs
  · exact .inl ⟨rfl, rfl, rfl⟩
  · split
    next e he =>
      rw [(handleInboundMessages_error _ _ _ _ he).1]
      exact .inl ⟨rfl, rfl, rfl⟩
    next hok => exact .inr (handleInboundMessages_ok _ _ _ hok)

/-- `event_tx` is only read to send: with it or without, `dispatch_block` leaves the same factory,
returns the same result and does the same things, and without it nothing is sent. -/
theorem handleInboundMessages_eventTx (f : ReplayFactory P) (n : Nat) :
    { f.handleInboundMessages n true with sent := [] } = f.handleInboundMessages n false := by
  unfold handleInboundMessages
  split <;> simp

/-- The same for `dispatch_block`. -/
theorem dispatchBlock_eventTx (f : ReplayFactory P) (block : Block P) :
    { f.dispatchBlock block true with sent := [] } = f.dispatchBlock block false := by
  dsimp only [dispatchBlock]
  split_ifs
  · rfl
  · rw [← handleInboundMessages_eventTx]
    dsimp only
    split <;> rfl

/-- An accepted block leaves `current_block` at its number. -/
theorem dispatchBlock_ok_currentBlock (f : ReplayFactory P) (block : Block P) (eventTx : Bool)
    (hok : (f.dispatchBlock block eventTx).result = .ok ()) :
    (f.dispatchBlock block eventTx).factory.currentBlock = block.number := by
  dsimp only [dispatchBlock] at hok ⊢
  split_ifs at hok ⊢
  split
  next he => rw [he] at hok; cases hok
  next => rfl

/-- A failed `dispatch_block` sent nothing and changed nothing but the storage. On a state-root
mismatch the storage is unchanged too; when `mq_messages` fails, the block's changes have already
been applied. -/
theorem dispatchBlock_error (f : ReplayFactory P) (block : Block P) (eventTx : Bool) (e : String)
    (he : (f.dispatchBlock block eventTx).result = .error e) :
    let o := f.dispatchBlock block eventTx
    let r := P.calcRootIfChanges f.storage block.storageChanges
    o.trace = [] ∧ o.sent = [] ∧ o.factory = { f with storage := o.factory.storage } ∧
      (block.stateRoot ≠ r.1 ∧ e = "State root mismatch" ∧ o.factory.storage = f.storage ∨
        block.stateRoot = r.1 ∧ e = "Can not get mq messages from storage" ∧
          o.factory.storage = P.applyChanges f.storage r.1 r.2 ∧
          P.mqMessages o.factory.storage = none) := by
  dsimp only [dispatchBlock] at he ⊢
  split_ifs at he ⊢ with hroot
  · cases he
    exact ⟨rfl, rfl, rfl, .inl ⟨hroot, rfl, rfl⟩⟩
  · split
    next e' he' =>
      rw [he'] at he
      cases he
      obtain ⟨ho, rfl, hmq⟩ := handleInboundMessages_error _ _ _ _ he'
      rw [ho]
      exact ⟨rfl, rfl, rfl, .inr ⟨not_not.mp hroot, rfl, rfl, hmq⟩⟩
    next hok =>
      rw [hok] at he
      cases he

/-- A block whose changes leave a message queue that does not decode. -/
def undecodableQueue : Block tinyPhactory := tinyBlock 1 [] [(0, 2)]

theorem undecodable_queue_fails_after_apply :
    let o := tinyFactory.dispatchBlock undecodableQueue true
    o.sent = [] ∧ o.factory = { tinyFactory with storage := [(0, 2)] } :=
  let h := dispatchBlock_error tinyFactory undecodableQueue true _ rfl
  ⟨h.2.1, h.2.2.1⟩

/-- The failed block's changes stay applied to the storage. -/
theorem undecodable_queue_changes_storage :
    (tinyFactory.dispatchBlock undecodableQueue true).result =
        .error "Can not get mq messages from storage" ∧
      (tinyFactory.dispatchBlock undecodableQueue true).factory.storage ≠ tinyFactory.storage :=
  ⟨rfl, by decide⟩

end ReplayFactory

end PhalaCore.Replay
