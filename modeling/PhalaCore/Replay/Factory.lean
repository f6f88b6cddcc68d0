import Mathlib.Data.List.Basic

/-!
# The replay factory

`ReplayFactory` of `replay/src/replay_gk.rs` replays blocks of storage changes on a snapshot of
the chain state. `dispatch_block` checks the block's state root, applies its changes, and
`handle_inbound_messages` feeds the block's message-queue messages to the computing economics
(`gk`) once it has been launched, numbering the economic events it reports as records.

The storage, the message dispatcher and the economics are phactory's. They are taken as
given, as the operations `Phactory` lists. What the replay does through them is recorded in
order as an `Interaction`: what `mq_messages` returned, each call into the economics, and each
record the event handler produced.
-/

namespace PhalaCore.Replay

/-- `i64::MAX`, `2 ^ 63 - 1`. -/
def i64Max : Int := 9223372036854775807

/-- `+= 1` on an `i64`, which wraps at `i64::MAX` to `i64::MIN` in a release build. -/
def i64Succ (x : Int) : Int := if x = i64Max then -9223372036854775808 else x + 1

/-- `phala_mq::Message`. -/
structure Message (Origin : Type) where
  sender : Origin
  destination : List UInt8
  payload : List UInt8

/-- `BaseBlockInfo`, without the `send_mq`, whose output the replay drops. -/
structure BaseBlockInfo (Storage Dispatcher : Type) where
  blockNumber : Nat
  nowMs : Nat
  storage : Storage
  recvMq : Dispatcher

/-- The phactory side of the replay: `ChainStorage`, the `MessageDispatcher` of `recv_mq`,
`gk::ComputingEconomics` and the message types, by the operations the replay uses. -/
structure Phactory where
  Storage : Type
  StorageChanges : Type
  Transaction : Type
  Hash : Type
  [decEqHash : DecidableEq Hash]
  Origin : Type
  GatekeeperLaunch : Type
  Dispatcher : Type
  Economics : Type
  TokenomicParameters : Type
  EconomicEvent : Type
  WorkerInfo : Type
  PublicKey : Type
  FixedPoint : Type
  calcRootIfChanges : Storage → StorageChanges → Hash × Transaction
  applyChanges : Storage → Hash → Transaction → Storage
  mqMessages : Storage → Option (List (Message Origin))
  timestampNow : Storage → Nat
  tokenomicParameters : Storage → Option TokenomicParameters
  isPallet : Origin → Bool
  gatekeeperLaunchTopic : List UInt8
  decodeGatekeeperLaunch : List UInt8 → Option GatekeeperLaunch
  isMasterPubkeyOnChain : GatekeeperLaunch → Bool
  resetLocalIndex : Dispatcher → Dispatcher
  dispatch : Dispatcher → Message Origin → Dispatcher
  clear : Dispatcher → Dispatcher × Nat
  willProcessBlock : Economics → BaseBlockInfo Storage Dispatcher → Economics
  processMessages : Economics → BaseBlockInfo Storage Dispatcher →
    Economics × Dispatcher × List (EconomicEvent × WorkerInfo)
  didProcessBlock : Economics → BaseBlockInfo Storage Dispatcher →
    Economics × Dispatcher × List (EconomicEvent × WorkerInfo)
  updateTokenomicParameters : Economics → TokenomicParameters → Economics
  pubkey : WorkerInfo → PublicKey
  v : WorkerInfo → FixedPoint
  pInstant : WorkerInfo → FixedPoint

attribute [instance] Phactory.decEqHash

variable {P : Phactory}

/-- `is_gk_launch` of `replay/src/helper.rs`: a pallet's message on the `GatekeeperLaunch`
topic that decodes to `MasterPubkeyOnChain`. -/
def isGkLaunch (P : Phactory) (msg : Message P.Origin) : Bool :=
  if !P.isPallet msg.sender then false
  else if msg.destination != P.gatekeeperLaunchTopic then false
  else match P.decodeGatekeeperLaunch msg.payload with
    | some event => P.isMasterPubkeyOnChain event
    | none => false

/-- `EventRecord`. -/
structure EventRecord (P : Phactory) where
  sequence : Int
  pubkey : P.PublicKey
  blockNumber : Nat
  timeMs : Nat
  event : P.EconomicEvent
  v : P.FixedPoint
  p : P.FixedPoint

/-- `BlockHeaderWithChanges`: the header's number and state root, and the storage changes. -/
structure Block (P : Phactory) where
  number : Nat
  stateRoot : P.Hash
  storageChanges : P.StorageChanges

/-- What the replay does that can be observed, in order. -/
inductive Interaction (P : Phactory)
  /-- `storage.mq_messages()` returned these messages while handling this block. -/
  | mqMessages (blockNumber : Nat) (messages : List (Message P.Origin))
  | willProcessBlock (blockNumber : Nat)
  | updateTokenomicParameters (params : P.TokenomicParameters)
  /-- `recv_mq.dispatch(message)` followed by `gk.process_messages`. -/
  | processMessage (blockNumber : Nat) (message : Message P.Origin)
  | didProcessBlock (blockNumber : Nat)
  /-- The event handler produced a record. -/
  | record (r : EventRecord P)

/-- `ReplayFactory`. -/
structure ReplayFactory (P : Phactory) where
  nextEventSeq : Int
  currentBlock : Nat
  storage : P.Storage
  recvMq : P.Dispatcher
  gk : P.Economics
  gkLaunched : Bool

/-- The outcome of one call: the factory after it, its result, what happened in order, and the
records sent on `event_tx`. -/
structure Outcome (P : Phactory) where
  factory : ReplayFactory P
  result : Except String Unit
  trace : List (Interaction P)
  sent : List (EventRecord P)

/-- The records among the interactions, in order. -/
def records (trace : List (Interaction P)) : List (EventRecord P) :=
  trace.filterMap fun | .record r => some r | _ => none

/-- The `event_handler` closure applied to the events phactory reports, in order: each becomes
a record numbered `next_seq`, which is then incremented. -/
def eventHandler (blockNumber nowMs : Nat) :
    Int → List (P.EconomicEvent × P.WorkerInfo) → Int × List (EventRecord P)
  | nextSeq, [] => (nextSeq, [])
  | nextSeq, (event, state) :: rest =>
    let r := eventHandler blockNumber nowMs (i64Succ nextSeq) rest
    (r.1, ⟨nextSeq, P.pubkey state, blockNumber, nowMs, event, P.v state, P.pInstant state⟩ :: r.2)

namespace ReplayFactory

/-- `ReplayFactory::new`: the genesis storage, with `recv_mq` and the economics built on it. -/
def new (storage : P.Storage) (recvMq : P.Dispatcher) (gk : P.Economics) : ReplayFactory P :=
  ⟨1, 0, storage, recvMq, gk, false⟩

/-- The block info `handle_inbound_messages` lends the economics. -/
def blockInfo (f : ReplayFactory P) (blockNumber nowMs : Nat) :
    BaseBlockInfo P.Storage P.Dispatcher :=
  ⟨blockNumber, nowMs, f.storage, f.recvMq⟩

/-- The `if !self.gk_launched` block, reached with a launch message: update the tokenomic
parameters if the storage has them, and set `gk_launched`. -/
def launch (f : ReplayFactory P) : ReplayFactory P × List (Interaction P) :=
  if f.gkLaunched then (f, [])
  else match P.tokenomicParameters f.storage with
    | some params =>
      ({ f with gk := P.updateTokenomicParameters f.gk params, gkLaunched := true },
        [.updateTokenomicParameters params])
    | none => ({ f with gkLaunched := true }, [])

/-- `recv_mq.dispatch(message)` and `gk.process_messages`, with the handler numbering the events. -/
def processMessage (f : ReplayFactory P) (blockNumber nowMs : Nat) (message : Message P.Origin) :
    ReplayFactory P × List (Interaction P) :=
  let f := { f with recvMq := P.dispatch f.recvMq message }
  let r := P.processMessages f.gk (f.blockInfo blockNumber nowMs)
  let e := eventHandler blockNumber nowMs f.nextEventSeq r.2.2
  ({ f with gk := r.1, recvMq := r.2.1, nextEventSeq := e.1 },
    .processMessage blockNumber message :: e.2.map .record)

/-- The `for message in messages` loop of `handle_inbound_messages`. -/
def inboundLoop (blockNumber nowMs : Nat) :
    ReplayFactory P → List (Message P.Origin) → ReplayFactory P × List (Interaction P)
  | f, [] => (f, [])
  | f, message :: messages =>
    if !f.gkLaunched && !isGkLaunch P message then inboundLoop blockNumber nowMs f messages
    else
      let l := f.launch
      let p := l.1.processMessage blockNumber nowMs message
      let r := inboundLoop blockNumber nowMs p.1 messages
      (r.1, l.2 ++ p.2 ++ r.2)

/-- `gk.did_process_block`, with the handler numbering the events. -/
def didProcessBlock (f : ReplayFactory P) (blockNumber nowMs : Nat) :
    ReplayFactory P × List (Interaction P) :=
  let r := P.didProcessBlock f.gk (f.blockInfo blockNumber nowMs)
  let e := eventHandler blockNumber nowMs f.nextEventSeq r.2.2
  ({ f with gk := r.1, recvMq := r.2.1, nextEventSeq := e.1 },
    .didProcessBlock blockNumber :: e.2.map .record)

/-- The loop over a block's messages, then `gk.did_process_block` if the economics has been
launched by then. -/
def inboundBlock (f : ReplayFactory P) (blockNumber nowMs : Nat)
    (messages : List (Message P.Origin)) : ReplayFactory P × List (Interaction P) :=
  let l := inboundLoop blockNumber nowMs f messages
  if l.1.gkLaunched then
    let d := l.1.didProcessBlock blockNumber nowMs
    (d.1, l.2 ++ d.2)
  else l

/-- `handle_inbound_messages`. The records go out on `event_tx`, when it is present, once the
economics has been launched; `recv_mq` is cleared of what no one consumed. -/
def handleInboundMessages (f : ReplayFactory P) (blockNumber : Nat) (eventTx : Bool) :
    Outcome P :=
  match P.mqMessages f.storage with
  | none => ⟨f, .error "Can not get mq messages from storage", [], []⟩
  | some messages =>
    let nowMs := P.timestampNow f.storage
    let f := { f with recvMq := P.resetLocalIndex f.recvMq }
    let f := { f with gk := P.willProcessBlock f.gk (f.blockInfo blockNumber nowMs) }
    let b := f.inboundBlock blockNumber nowMs messages
    let trace := .mqMessages blockNumber messages :: .willProcessBlock blockNumber :: b.2
    ⟨{ b.1 with recvMq := (P.clear b.1.recvMq).1 }, .ok (), trace,
      if b.1.gkLaunched && eventTx then records trace else []⟩

/-- `dispatch_block`. A state-root mismatch fails before anything changes; a failure of
`handle_inbound_messages` is returned by `?` after the changes were applied, without
advancing `current_block`. -/
def dispatchBlock (f : ReplayFactory P) (block : Block P) (eventTx : Bool) : Outcome P :=
  let r := P.calcRootIfChanges f.storage block.storageChanges
  if block.stateRoot ≠ r.1 then ⟨f, .error "State root mismatch", [], []⟩
  else
    let o := { f with storage := P.applyChanges f.storage r.1 r.2 }.handleInboundMessages
      block.number eventTx
    match o.result with
    | .error e => { o with result := .error e }
    | .ok () => { o with factory := { o.factory with currentBlock := block.number } }

/-- A sequence of `dispatch_block` calls on one factory: the last factory, everything that
happened, and everything sent. -/
def dispatchBlocks (f : ReplayFactory P) (eventTx : Bool) :
    List (Block P) → ReplayFactory P × List (Interaction P) × List (EventRecord P)
  | [] => (f, [], [])
  | block :: blocks =>
    let o := f.dispatchBlock block eventTx
    let r := o.factory.dispatchBlocks eventTx blocks
    (r.1, o.trace ++ r.2.1, o.sent ++ r.2.2)

end ReplayFactory

/-! ## A small phactory -/

/-- A phactory to run the replay on. The storage is a list of key-value pairs, newest first, and
is its own root. Key `0` holds the message queue: `0` or nothing is an empty queue, `1` one
`MasterPubkeyOnChain` message from a pallet, anything else does not decode. The economics reports
one event for each message waiting in `recv_mq` and consumes them. -/
abbrev tinyPhactory : Phactory where
  Storage := List (Nat × Nat)
  StorageChanges := List (Nat × Nat)
  Transaction := List (Nat × Nat)
  Hash := List (Nat × Nat)
  Origin := Nat
  GatekeeperLaunch := Bool
  Dispatcher := List (Message Nat)
  Economics := Nat
  TokenomicParameters := Unit
  EconomicEvent := Nat
  WorkerInfo := Unit
  PublicKey := Unit
  FixedPoint := Unit
  calcRootIfChanges storage changes := (changes ++ storage, changes ++ storage)
  applyChanges _ _ transaction := transaction
  mqMessages storage := match storage.lookup 0 with
    | none | some 0 => some []
    | some 1 => some [⟨0, [1], [1]⟩]
    | some _ => none
  timestampNow _ := 0
  tokenomicParameters _ := some ()
  isPallet origin := origin == 0
  gatekeeperLaunchTopic := [1]
  decodeGatekeeperLaunch payload := if payload = [1] then some true else none
  isMasterPubkeyOnChain event := event
  resetLocalIndex queue := queue
  dispatch queue message := queue ++ [message]
  clear queue := ([], queue.length)
  willProcessBlock gk _ := gk
  processMessages gk info := (gk + info.recvMq.length, [], info.recvMq.map fun _ => (gk, ()))
  didProcessBlock gk info := (gk, info.recvMq, [])
  updateTokenomicParameters gk _ := gk
  pubkey _ := ()
  v _ := ()
  pInstant _ := ()

/-- `ReplayFactory::new` on an empty storage. -/
def tinyFactory : ReplayFactory tinyPhactory := .new [] [] 0

/-- The block whose changes set the storage to `changes ++ storage`, with the matching root. -/
def tinyBlock (number : Nat) (storage changes : List (Nat × Nat)) : Block tinyPhactory :=
  ⟨number, changes ++ storage, changes⟩

end PhalaCore.Replay
