/-
# BottledWater.Kafka.Producer — the transaction ring of the Kafka producer.

The functions of `kafka/bottledwater.c` that keep account of the transactions received from Postgres:
a circular buffer `xact_list` with one `transaction_info` for each transaction whose messages Kafka
has not all acknowledged, the index `xact_head` of the transaction being received and the index
`xact_tail` of the oldest one.  `maybe_checkpoint` moves the tail and sets `fsync_lsn`, the WAL
position that Postgres is told it may forget.

Of `producer_context` and the `client_context` it points to, this module keeps the five fields that
these functions read or write; `fsyncLsn` is `client->repl.fsync_lsn` and `takingSnapshot` is
`client->taking_snapshot`.  Messages to stderr are left out.  The two `int` counters are integers
without a bound: the number of outstanding messages is limited by the queue of the Kafka client.
-/
import BottledWater.Lib.Window
import Mathlib.Logic.Function.Basic

namespace BottledWater.Kafka

open Function (update)

/-! ## The data -/

/-- `MAX_IN_FLIGHT_TRANSACTIONS`. -/
abbrev maxInFlightTransactions : Nat := 1000

instance : NeZero maxInFlightTransactions := ⟨by decide⟩

/-- An index into `xact_list`. -/
abbrev XactSlot := Fin maxInFlightTransactions

/-- `transaction_info`. -/
structure TransactionInfo where
  /-- Postgres transaction identifier. -/
  xid : UInt32
  /-- Row-level events received so far for this transaction. -/
  recvdEvents : Int
  /-- Row-level events waiting to be acknowledged by Kafka. -/
  pendingEvents : Int
  /-- WAL position of the transaction's commit event, 0 until it arrives. -/
  commitLsn : UInt64
  deriving DecidableEq, Repr

/-- The part of `producer_context` (and of the client it points to) that the transaction ring uses. -/
structure ProducerContext where
  xactList : XactSlot → TransactionInfo
  xactHead : XactSlot
  xactTail : XactSlot
  fsyncLsn : UInt64
  takingSnapshot : Bool

/-- `msg_envelope`, less the pointer back to the context.  `xact` is a pointer into `xact_list`. -/
structure MsgEnvelope where
  walPos : UInt64
  relid : UInt32
  xact : XactSlot
  deriving DecidableEq, Repr

/-- `init_producer`: `xact_head`, `xact_tail` and `xact_list` are set to zero by `memset`. -/
def initProducer (takingSnapshot : Bool) : ProducerContext where
  xactList := fun _ => ⟨0, 0, 0, 0⟩
  xactHead := 0
  xactTail := 0
  fsyncLsn := 0
  takingSnapshot := takingSnapshot

namespace ProducerContext

/-- `xact_list_full`. -/
def xactListFull (c : ProducerContext) : Prop := c.xactHead + 1 = c.xactTail

instance (c : ProducerContext) : Decidable c.xactListFull :=
  inferInstanceAs (Decidable (c.xactHead + 1 = c.xactTail))

/-! ## `maybe_checkpoint` -/

/-- The loop test of `maybe_checkpoint`: every message of the transaction is acknowledged and its
commit has been seen, or it is slot content with xid 0 (the snapshot, or nothing yet). -/
def finished (xact : TransactionInfo) : Prop :=
  xact.pendingEvents = 0 ∧ (xact.commitLsn > 0 ∨ xact.xid = 0)

instance (xact : TransactionInfo) : Decidable (finished xact) :=
  inferInstanceAs (Decidable (xact.pendingEvents = 0 ∧ (xact.commitLsn > 0 ∨ xact.xid = 0)))

/-- The assignments in the body of the loop for the transaction at the tail: `fsync_lsn` becomes its
commit LSN, and the snapshot flag is cleared when it is the committed snapshot. -/
def checkpoint (c : ProducerContext) (xact : TransactionInfo) : ProducerContext :=
  { c with
    fsyncLsn := xact.commitLsn
    takingSnapshot := if xact.xid = 0 ∧ xact.commitLsn > 0 then false else c.takingSnapshot }

/-- The `while` loop of `maybe_checkpoint`, for at most the given number of rounds. -/
def checkpointLoop : Nat → ProducerContext → ProducerContext
  | 0, c => c
  | rounds + 1, c =>
    if finished (c.xactList c.xactTail) then
      let c := c.checkpoint (c.xactList c.xactTail)
      if c.xactTail = c.xactHead then c  -- the `break` that leaves a finished slot at the tail
      else checkpointLoop rounds { c with xactTail := c.xactTail + 1 }
    else c

/-- `maybe_checkpoint`.  One round more than there are slots from the tail to the head is enough: the
round that reaches the head is the last (`checkpointLoop_spec`). -/
def maybeCheckpoint (c : ProducerContext) : ProducerContext :=
  checkpointLoop ((c.xactHead - c.xactTail).val + 1) c

/-! ## The callbacks -/

/-- The test that `on_begin_txn` makes for xid 0: the snapshot has to be the first transaction. -/
def snapshotIsFirst (c : ProducerContext) : Prop := c.xactHead = 0 ∧ c.xactTail = 0

instance (c : ProducerContext) : Decidable c.snapshotIsFirst :=
  inferInstanceAs (Decidable (c.xactHead = 0 ∧ c.xactTail = 0))

/-- `on_begin_txn` after its loop: the next slot is taken for transaction `xid`. -/
def openXact (c : ProducerContext) (xid : UInt32) : ProducerContext :=
  { c with
    xactHead := c.xactHead + 1
    xactList := update c.xactList (c.xactHead + 1) ⟨xid, 0, 0, 0⟩ }

/-- The test of `on_commit_txn`: the transaction committed is the one in flight. -/
def commitsCurrent (c : ProducerContext) (xid : UInt32) : Prop := xid = (c.xactList c.xactHead).xid

instance (c : ProducerContext) (xid : UInt32) : Decidable (c.commitsCurrent xid) :=
  inferInstanceAs (Decidable (xid = (c.xactList c.xactHead).xid))

/-- `xact->commit_lsn = wal_pos` in `on_commit_txn`. -/
def noteCommit (c : ProducerContext) (walPos : UInt64) : ProducerContext :=
  let xact := c.xactList c.xactHead
  { c with xactList := update c.xactList c.xactHead { xact with commitLsn := walPos } }

/-- The two counters that `send_kafka_msg` increments on entry. -/
def countRow (c : ProducerContext) : ProducerContext :=
  let xact := c.xactList c.xactHead
  { c with
    xactList := update c.xactList c.xactHead
      { xact with recvdEvents := xact.recvdEvents + 1, pendingEvents := xact.pendingEvents + 1 } }

/-- `envelope->xact->pending_events--` in `on_deliver_msg`. -/
def noteDelivery (c : ProducerContext) (envelope : MsgEnvelope) : ProducerContext :=
  let xact := c.xactList envelope.xact
  { c with
    xactList := update c.xactList envelope.xact
      { xact with pendingEvents := xact.pendingEvents - 1 } }

end ProducerContext

end BottledWater.Kafka
