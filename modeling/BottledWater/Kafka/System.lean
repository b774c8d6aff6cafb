/-
# BottledWater.Kafka.System — the producer, its Kafka client and everything they can do next.

`bottledwater.c` is a single thread that is called back from two sides: `parse_frame` reports what
Postgres streams (`on_begin_txn`, the row callbacks through `send_kafka_msg`, `on_commit_txn`), and
`rd_kafka_poll` reports what Kafka has stored (`on_deliver_msg`).  Two of the callbacks can block: in
`on_begin_txn` while the ring is full, and in `send_kafka_msg` while the queue of the Kafka client is;
both loops call `backpressure`, which polls Kafka, so acknowledgements arrive inside them too.

`System.step` is that behaviour one callback at a time.  `Control` says where the thread is, `held` and
`queue` are the messages between `send_kafka_msg` and `on_deliver_msg`.  The fields under "history" are
not in the program: they record, from the events alone, which transactions there have been, what
became of their messages, and which transaction each slot was last given to.  The statements about the
program are made against them.

An acknowledgement may happen at any point at which the process has not exited.  That is more than
`rd_kafka_poll` allows (it does not run between two callbacks of one frame), so what holds of every run
here holds of every run of the program.
-/
import BottledWater.Kafka.Producer
import BottledWater.Lib.Trace

namespace BottledWater.Kafka

open Function (update)
open BottledWater.Lib

/-! ## State -/

/-- The arguments of `rd_kafka_produce`: topic name, key and value (`none` for a null pointer). -/
structure KafkaRecord where
  topic : String
  key : Option (List UInt8)
  val : Option (List UInt8)
  deriving DecidableEq, Repr

/-- A message on its way: the envelope, and (history) the number of the transaction it belongs to. -/
structure Message where
  envelope : MsgEnvelope
  txn : Nat
  deriving DecidableEq, Repr

/-- Where the thread is. -/
inductive Control
  /-- In the main loop, between two callbacks from Postgres. -/
  | ready
  /-- In the loop of `on_begin_txn` that waits for a free slot. -/
  | beginTxn (xid : UInt32)
  /-- In the loop of `send_kafka_msg`, about to call `rd_kafka_produce`. -/
  | produce (record : KafkaRecord)
  /-- In the `backpressure` call of that loop. -/
  | produceWait (record : KafkaRecord)
  /-- `exit_nicely` has been called. -/
  | exited (status : Nat)
  deriving DecidableEq, Repr

/-- What happened to one transaction: its commit, if it has been seen, and its messages. -/
structure Txn where
  xid : UInt32
  commitLsn : Option UInt64
  sent : Nat
  acked : Nat
  deriving DecidableEq, Repr

structure System where
  ctx : ProducerContext
  control : Control
  /-- The message `send_kafka_msg` has made an envelope for and Kafka has not accepted. -/
  held : Option Message
  /-- Messages accepted by `rd_kafka_produce` whose delivery has not been reported. -/
  queue : List Message
  /-- History: all messages accepted by `rd_kafka_produce`, oldest first. -/
  produced : List (Message × KafkaRecord)
  /-- History: the transactions in the order of their begin.  Entry 0 is what `xact_list[0]` stands for
  from the start: the snapshot, when there is one, and otherwise no transaction. -/
  txns : List Txn
  /-- History: whether the snapshot has been begun. -/
  snapshot : Bool
  /-- History: the number of the transaction that `on_begin_txn` last gave each slot to. -/
  owner : XactSlot → Nat

def System.init (takingSnapshot : Bool) : System where
  ctx := initProducer takingSnapshot
  control := .ready
  held := none
  queue := []
  produced := []
  txns := [⟨0, none, 0, 0⟩]
  snapshot := false
  owner := fun _ => 0

/-! ## Events -/

/-- How a call of `backpressure` ends. -/
inductive BackpressureResult
  | returned
  | shutdownSignal
  | keepaliveFailed
  deriving DecidableEq, Repr

inductive Event
  | onBeginTxn (xid : UInt32)
  | onCommitTxn (walPos : UInt64) (xid : UInt32)
  /-- A row callback calls `send_kafka_msg`; `none` when the table is not known or the encoding fails. -/
  | sendKafkaMsg (walPos : UInt64) (relid : UInt32) (record : Option KafkaRecord)
  /-- The answer of `rd_kafka_produce`: whether it failed, and whether `errno` then maps to queue-full
  (which it may also do after a success, since `errno` keeps its value). -/
  | rdKafkaProduce (failed : Bool) (queueFull : Bool)
  | backpressure (result : BackpressureResult)
  /-- The delivery report for the message at place `i` of the queue. -/
  | onDeliverMsg (i : Nat) (failed : Bool)
  deriving DecidableEq, Repr

namespace System

/-- The messages counted from `send_kafka_msg` until `on_deliver_msg`. -/
def inFlight (s : System) : List Message := s.held.toList ++ s.queue

/-- The number of the transaction begun last. -/
def current (s : System) : Nat := s.txns.length - 1

/-- `exit_nicely(context, status)`. -/
def exitNicely (s : System) (status : Nat) : System := { s with control := .exited status }

/-- One test of `while (xact_list_full(context))`, and the rest of `on_begin_txn` when it fails. -/
def tryBegin (s : System) (xid : UInt32) : System :=
  if s.ctx.xactListFull then { s with control := .beginTxn xid }
  else
    { s with
      ctx := s.ctx.openXact xid
      control := .ready
      txns := s.txns ++ [⟨xid, none, 0, 0⟩]
      owner := update s.owner (s.ctx.xactHead + 1) s.txns.length }

/-- `on_begin_txn` up to the first test of its loop. -/
def onBeginTxn (s : System) (xid : UInt32) : System :=
  if xid = 0 then
    if s.ctx.snapshotIsFirst then { s with snapshot := true } else s.exitNicely 1
  else s.tryBegin xid

/-- `maybe_checkpoint`. -/
def maybeCheckpoint (s : System) : System := { s with ctx := s.ctx.maybeCheckpoint }

/-- The commit LSN is stored in the slot at the head, and in the history. -/
def noteCommit (s : System) (walPos : UInt64) : System :=
  { s with
    ctx := s.ctx.noteCommit walPos
    txns := s.txns.modify s.current fun t => { t with commitLsn := some walPos } }

/-- `on_commit_txn`. -/
def onCommitTxn (s : System) (walPos : UInt64) (xid : UInt32) : System :=
  if s.ctx.commitsCurrent xid then (s.noteCommit walPos).maybeCheckpoint else s.exitNicely 1

/-- `send_kafka_msg` up to its loop. -/
def sendKafkaMsg (s : System) (walPos : UInt64) (relid : UInt32) (record : Option KafkaRecord) :
    System :=
  { s with
    ctx := s.ctx.countRow
    control := match record with
      | none => .exited 1
      | some record => .produce record
    held := some ⟨⟨walPos, relid, s.ctx.xactHead⟩, s.current⟩
    txns := s.txns.modify s.current fun t => { t with sent := t.sent + 1 } }

/-- One round of the loop of `send_kafka_msg`, for the message `m`. -/
def rdKafkaProduce (s : System) (m : Message) (record : KafkaRecord) (failed queueFull : Bool) :
    System :=
  let s :=
    if failed then s
    else
      { s with
        held := none
        queue := s.queue ++ [m]
        produced := s.produced ++ [(m, record)] }
  if queueFull then { s with control := .produceWait record }
  else if failed then s.exitNicely 1
  else { s with control := .ready }

/-- What follows a call of `backpressure` that returns: the loop it was called from goes on. -/
def afterBackpressure (s : System) : Option System :=
  match s.control with
  | .beginTxn xid => some (s.tryBegin xid)
  | .produceWait record =>
    some { s with control := if s.held.isSome then .produce record else .ready }
  | _ => none

/-- The message at place `i` of the queue is acknowledged. -/
def noteDelivery (s : System) (i : Nat) (m : Message) : System :=
  { s with
    ctx := s.ctx.noteDelivery m.envelope
    queue := s.queue.eraseIdx i
    txns := s.txns.modify m.txn fun t => { t with acked := t.acked + 1 } }

/-- `on_deliver_msg` for the message at place `i` of the queue.  After a failure the code exits, and
the message stays unacknowledged. -/
def onDeliverMsg (s : System) (i : Nat) (m : Message) (failed : Bool) : System :=
  if failed then s.exitNicely 1 else (s.noteDelivery i m).maybeCheckpoint

/-- Whether the process has ended. -/
def hasExited (s : System) : Bool :=
  match s.control with
  | .exited _ => true
  | _ => false

/-- **`step`** — one callback, from start to end or to the next point at which it blocks. -/
def step (s : System) : Event → Option System
  | .onBeginTxn xid => if s.control = .ready then some (s.onBeginTxn xid) else none
  | .onCommitTxn walPos xid => if s.control = .ready then some (s.onCommitTxn walPos xid) else none
  | .sendKafkaMsg walPos relid record =>
    if s.control = .ready then some (s.sendKafkaMsg walPos relid record) else none
  | .rdKafkaProduce failed queueFull =>
    match s.control, s.held with
    | .produce record, some m => some (s.rdKafkaProduce m record failed queueFull)
    | _, _ => none
  | .backpressure result =>
    match result with
    | .returned => s.afterBackpressure
    | .shutdownSignal => s.afterBackpressure.map fun _ => s.exitNicely 0
    | .keepaliveFailed => s.afterBackpressure.map fun _ => s.exitNicely 1
  | .onDeliverMsg i failed =>
    if s.hasExited then none else s.queue[i]?.map fun m => s.onDeliverMsg i m failed

/-- A run of the producer from the state `init_producer` and `db_client_start` leave. -/
def Run (takingSnapshot : Bool) (es : List Event) (s : System) : Prop :=
  run step (init takingSnapshot) es = some s

/-- **`Fires s e s'`** — everything a step can do, one constructor for each way it can go. -/
inductive Fires (s : System) : Event → System → Prop
  | beginTxn (xid : UInt32) (hc : s.control = .ready) : Fires s (.onBeginTxn xid) (s.onBeginTxn xid)
  | commitTxn (walPos : UInt64) (xid : UInt32) (hc : s.control = .ready) :
      Fires s (.onCommitTxn walPos xid) (s.onCommitTxn walPos xid)
  | send (walPos : UInt64) (relid : UInt32) (record : Option KafkaRecord) (hc : s.control = .ready) :
      Fires s (.sendKafkaMsg walPos relid record) (s.sendKafkaMsg walPos relid record)
  | produce {record : KafkaRecord} {m : Message} (failed queueFull : Bool)
      (hc : s.control = .produce record) (hm : s.held = some m) :
      Fires s (.rdKafkaProduce failed queueFull) (s.rdKafkaProduce m record failed queueFull)
  | retryBegin {xid : UInt32} (hc : s.control = .beginTxn xid) :
      Fires s (.backpressure .returned) (s.tryBegin xid)
  | retryProduce {record : KafkaRecord} (hc : s.control = .produceWait record) :
      Fires s (.backpressure .returned)
        { s with control := if s.held.isSome then .produce record else .ready }
  | quit {result : BackpressureResult} (status : Nat) (hr : result ≠ .returned) :
      Fires s (.backpressure result) (s.exitNicely status)
  | deliver {i : Nat} {m : Message} (failed : Bool) (hm : s.queue[i]? = some m) :
      Fires s (.onDeliverMsg i failed) (s.onDeliverMsg i m failed)

theorem fires_of_step {s s' : System} {e : Event} (h : s.step e = some s') : Fires s e s' := by
  cases e with
  | onBeginTxn xid =>
    obtain ⟨hc, hs⟩ := Option.ite_none_right_eq_some.mp h
    obtain rfl := Option.some.inj hs
    exact .beginTxn xid hc
  | onCommitTxn walPos xid =>
    obtain ⟨hc, hs⟩ := Option.ite_none_right_eq_some.mp h
    obtain rfl := Option.some.inj hs
    exact .commitTxn walPos xid hc
  | sendKafkaMsg walPos relid record =>
    obtain ⟨hc, hs⟩ := Option.ite_none_right_eq_some.mp h
    obtain rfl := Option.some.inj hs
    exact .send walPos relid record hc
  | rdKafkaProduce failed queueFull =>
    simp only [step] at h
    split at h
    · next hc hm =>
      obtain rfl := Option.some.inj h
      exact .produce failed queueFull hc hm
    · simp at h
  | backpressure result =>
    cases result with
    | returned =>
      simp only [step, afterBackpressure] at h
      split at h
      · next hc =>
        obtain rfl := Option.some.inj h
        exact .retryBegin hc
      · next hc =>
        obtain rfl := Option.some.inj h
        exact .retryProduce hc
      · simp at h
    | shutdownSignal =>
      obtain ⟨-, -, rfl⟩ := Option.map_eq_some_iff.mp h
      exact .quit 0 (by simp)
    | keepaliveFailed =>
      obtain ⟨-, -, rfl⟩ := Option.map_eq_some_iff.mp h
      exact .quit 1 (by simp)
  | onDeliverMsg i failed =>
    simp only [step] at h
    split at h
    · simp at h
    · obtain ⟨m, hm, rfl⟩ := Option.map_eq_some_iff.mp h
      exact .deliver failed hm

end System

end BottledWater.Kafka
