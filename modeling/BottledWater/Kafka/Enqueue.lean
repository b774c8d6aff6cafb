/-
# BottledWater.Kafka.Enqueue — every row is handed to Kafka once, in order.

The loop of `send_kafka_msg` calls `rd_kafka_produce` until it succeeds.  It looks at `errno` apart from the
result, so it may also call `backpressure` after a success; then the loop ends without another call.  Inside
`backpressure` acknowledgements arrive, checkpoints are made and the tail of the ring moves.

`rowEvents` says what should be enqueued, from the events alone: the rows in the order in which they arrive,
each with the number of the transaction begun last.  `enqueued_in_order` compares that with what Kafka has
accepted, after every run in which the process has not exited.
-/
import BottledWater.Kafka.Ring
import BottledWater.Kafka.Produce

namespace BottledWater.Kafka

open BottledWater.Lib

/-! ## What should be enqueued -/

/-- The xid of a transaction that is given a slot; the snapshot is in slot 0 from the start. -/
def Event.begunXid : Event → Option UInt32
  | .onBeginTxn xid => if xid = 0 then none else some xid
  | _ => none

/-- The transactions begun by the events, in order. -/
def begunXids (es : List Event) : List UInt32 := es.filterMap Event.begunXid

/-- The message of a row that arrives after `begun` transactions were begun, and what Kafka is given. -/
def Event.row (begun : Nat) : Event → Option (Message × KafkaRecord)
  | .sendKafkaMsg walPos relid (some record) =>
    some (⟨⟨walPos, relid, slotOf maxInFlightTransactions begun⟩, begun⟩, record)
  | _ => none

def rowEventsFrom (begun : Nat) : List Event → List (Message × KafkaRecord)
  | [] => []
  | e :: es => (e.row begun).toList ++ rowEventsFrom (begun + e.begunXid.toList.length) es

/-- **`rowEvents es`** — the rows among the events, each with the transaction that was open. -/
def rowEvents (es : List Event) : List (Message × KafkaRecord) := rowEventsFrom 0 es

theorem rowEventsFrom_snoc (begun : Nat) (es : List Event) (e : Event) :
    rowEventsFrom begun (es ++ [e]) =
      rowEventsFrom begun es ++ (e.row (begun + (begunXids es).length)).toList := by
  induction es generalizing begun with
  | nil => simp [rowEventsFrom, begunXids]
  | cons d es ih =>
    have hlength : (begunXids (d :: es)).length = d.begunXid.toList.length + (begunXids es).length := by
      cases hd : d.begunXid <;> simp [begunXids, hd, Nat.add_comm]
    rw [List.cons_append, rowEventsFrom, ih, rowEventsFrom, hlength, List.append_assoc, Nat.add_assoc]

theorem rowEvents_snoc (es : List Event) (e : Event) :
    rowEvents (es ++ [e]) = rowEvents es ++ (e.row (begunXids es).length).toList := by
  rw [rowEvents, rowEventsFrom_snoc, Nat.zero_add]
  rfl

theorem begunXids_snoc (es : List Event) (e : Event) :
    begunXids (es ++ [e]) = begunXids es ++ e.begunXid.toList := by
  cases he : e.begunXid <;> simp [begunXids, he]

namespace System

variable {s s' : System}

/-! ## What is enqueued -/

/-- The message that the loop of `send_kafka_msg` is still busy with. -/
def pending (s : System) : List (Message × KafkaRecord) :=
  match s.control with
  | .produce record => s.held.toList.map fun m => (m, record)
  | .produceWait record => s.held.toList.map fun m => (m, record)
  | _ => []

/-- The transaction that waits for a slot. -/
def waiting (s : System) : List UInt32 :=
  match s.control with
  | .beginTxn xid => [xid]
  | _ => []

/-- **`s.Enqueued es`** — after the events `es`: what Kafka has accepted, and then what is still to be
accepted, are the rows; and the transactions are those begun. -/
structure Enqueued (s : System) (es : List Event) : Prop where
  rows : s.produced ++ s.pending = rowEvents es
  txns : s.txns.map (·.xid) ++ s.waiting = 0 :: begunXids es

/-- An event that is neither a row nor a begin asks for nothing. -/
theorem Enqueued.of_eq {es : List Event} {e : Event} (h : s.Enqueued es) (hrow : ∀ n, e.row n = none)
    (hbegin : e.begunXid = none) (hrows : s'.produced ++ s'.pending = s.produced ++ s.pending)
    (htxns : s'.txns.map (·.xid) ++ s'.waiting = s.txns.map (·.xid) ++ s.waiting) :
    s'.Enqueued (es ++ [e]) := by
  refine ⟨?_, ?_⟩
  · rw [hrows, h.rows, rowEvents_snoc, hrow, Option.toList_none, List.append_nil]
  · rw [htxns, h.txns, begunXids_snoc, hbegin, Option.toList_none, List.append_nil]

/-- Counters and commits do not matter. -/
theorem Enqueued.of_modify {es : List Event} {e : Event} {k : Nat} {f : Txn → Txn} (h : s.Enqueued es)
    (hrow : ∀ n, e.row n = none) (hbegin : e.begunXid = none) (htxns : s'.txns = s.txns.modify k f)
    (hf : ∀ t, (f t).xid = t.xid) (hproduced : s'.produced = s.produced)
    (hheld : s'.held = s.held) (hcontrol : s'.control = s.control) : s'.Enqueued (es ++ [e]) := by
  refine h.of_eq hrow hbegin ?_ ?_
  · simp only [pending, hproduced, hheld, hcontrol]
  · simp only [waiting, htxns, hcontrol, map_modify_txns hf]

theorem enqueued_init (takingSnapshot : Bool) : (init takingSnapshot).Enqueued [] := ⟨rfl, rfl⟩

/-- While the thread is in the main loop, the number of transactions begun is that of the current one. -/
theorem Enqueued.current_eq {es : List Event} (h : s.Enqueued es) (hc : s.control = .ready) :
    s.current = (begunXids es).length := by
  have hlength := congrArg List.length h.txns
  simp only [waiting, hc, List.append_nil, List.length_map, List.length_cons] at hlength
  rw [current, hlength, Nat.add_sub_cancel]

/-- Whether or not there is a slot, the transaction is counted among those begun. -/
theorem enqueued_tryBegin {es : List Event} {xid : UInt32} (hrows : s.produced = rowEvents es)
    (htxns : s.txns.map (·.xid) ++ [xid] = 0 :: begunXids es) : (s.tryBegin xid).Enqueued es := by
  unfold tryBegin
  split
  · exact ⟨by simpa [pending] using hrows, by simpa [waiting] using htxns⟩
  · exact ⟨by simpa [pending] using hrows, by simpa [waiting] using htxns⟩

theorem enqueued_onBeginTxn {es : List Event} {xid : UInt32} (h : s.Enqueued es)
    (hc : s.control = .ready) (hlive : (s.onBeginTxn xid).hasExited = false) :
    (s.onBeginTxn xid).Enqueued (es ++ [.onBeginTxn xid]) := by
  by_cases hxid : xid = 0
  · -- the snapshot has its slot already
    have hbegin : (Event.onBeginTxn xid).begunXid = none := if_pos hxid
    unfold onBeginTxn at hlive ⊢
    rw [if_pos hxid] at hlive ⊢
    split at hlive
    · rw [if_pos ‹_›]
      exact h.of_eq (fun _ => rfl) hbegin rfl rfl
    · simp [exitNicely, hasExited] at hlive
  · have hbegin : (Event.onBeginTxn xid).begunXid = some xid := if_neg hxid
    have hrows := h.rows
    have htxns := h.txns
    simp only [pending, waiting, hc, List.append_nil] at hrows htxns
    unfold onBeginTxn
    rw [if_neg hxid]
    apply enqueued_tryBegin
    · rw [hrows, rowEvents_snoc]
      exact (List.append_nil _).symm
    · rw [htxns, begunXids_snoc, hbegin]
      rfl

theorem enqueued_sendKafkaMsg {lo : Nat} {es : List Event} {walPos : UInt64} {relid : UInt32}
    {record : Option KafkaRecord} (hcoupled : s.Coupled lo) (h : s.Enqueued es) (hc : s.control = .ready)
    (hlive : (s.sendKafkaMsg walPos relid record).hasExited = false) :
    (s.sendKafkaMsg walPos relid record).Enqueued (es ++ [.sendKafkaMsg walPos relid record]) := by
  cases record with
  | none => simp [sendKafkaMsg, hasExited] at hlive
  | some record =>
    have hrows := h.rows
    have htxns := h.txns
    simp only [pending, waiting, hc, List.append_nil] at hrows htxns
    -- the envelope points to the head of the ring, which is the slot of the transaction begun last
    have hhead := hcoupled.head_eq
    rw [h.current_eq hc] at hhead
    refine ⟨?_, ?_⟩
    · rw [rowEvents_snoc]
      show s.produced ++ [(⟨⟨walPos, relid, s.ctx.xactHead⟩, s.current⟩, record)] = _
      rw [hrows, hhead, h.current_eq hc]
      rfl
    · show (s.txns.modify s.current _).map (·.xid) ++ [] = _
      rw [map_modify_txns (by intro t; rfl), List.append_nil, htxns, begunXids_snoc]
      exact (List.append_nil _).symm

/-- **One round of the loop**: an answer moves the message from pending to produced or leaves it there. -/
theorem enqueued_rdKafkaProduce {es : List Event} {m : Message} {record : KafkaRecord}
    {failed queueFull : Bool} (h : s.Enqueued es) (hc : s.control = .produce record) (hm : s.held = some m)
    (hlive : (s.rdKafkaProduce m record failed queueFull).hasExited = false) :
    (s.rdKafkaProduce m record failed queueFull).Enqueued (es ++ [.rdKafkaProduce failed queueFull]) := by
  refine h.of_eq (fun _ => rfl) rfl ?_ ?_
  · cases failed <;> cases queueFull <;>
      simp_all [rdKafkaProduce, pending, exitNicely, hasExited]
  · cases failed <;> cases queueFull <;>
      simp_all [rdKafkaProduce, waiting, exitNicely, hasExited]

theorem enqueued_step {lo : Nat} {es : List Event} {e : Event} (hf : Fires s e s')
    (hcoupled : s.Coupled lo) (h : s.Enqueued es) (hlive : s'.hasExited = false) :
    s'.Enqueued (es ++ [e]) := by
  cases hf with
  | beginTxn xid hc => exact enqueued_onBeginTxn h hc hlive
  | commitTxn walPos xid hc =>
    unfold onCommitTxn at hlive ⊢
    split at hlive
    · rw [if_pos ‹_›]
      exact h.of_modify (fun _ => rfl) rfl rfl (fun _ => rfl) rfl rfl rfl
    · simp [exitNicely, hasExited] at hlive
  | send walPos relid record hc => exact enqueued_sendKafkaMsg hcoupled h hc hlive
  | produce failed queueFull hc hm => exact enqueued_rdKafkaProduce h hc hm hlive
  | retryBegin hc =>
    have hrows := h.rows
    have htxns := h.txns
    simp only [pending, waiting, hc, List.append_nil] at hrows htxns
    apply enqueued_tryBegin
    · rw [hrows, rowEvents_snoc]
      exact (List.append_nil _).symm
    · rw [htxns, begunXids_snoc]
      exact (List.append_nil _).symm
  | retryProduce hc =>
    refine h.of_eq (fun _ => rfl) rfl ?_ ?_
    · cases hm : s.held <;> simp [pending, hc, hm]
    · cases hm : s.held <;> simp [waiting, hc]
  | quit status hr => simp [exitNicely, hasExited] at hlive
  | deliver failed hm =>
    unfold onDeliverMsg at hlive ⊢
    split at hlive
    · simp [exitNicely, hasExited] at hlive
    · rw [if_neg ‹_›]
      exact h.of_modify (fun _ => rfl) rfl rfl (fun _ => rfl) rfl rfl rfl

/-- A step does not lead out of `exit_nicely`. -/
theorem not_exited_of_fires {e : Event} (hf : Fires s e s') (hlive : s'.hasExited = false) :
    s.hasExited = false := by
  cases hf with
  | beginTxn xid hc => simp [hasExited, hc]
  | commitTxn walPos xid hc => simp [hasExited, hc]
  | send walPos relid record hc => simp [hasExited, hc]
  | produce failed queueFull hc hm => simp [hasExited, hc]
  | retryBegin hc => simp [hasExited, hc]
  | retryProduce hc => simp [hasExited, hc]
  | quit status hr => simp [exitNicely, hasExited] at hlive
  | deliver failed hm =>
    unfold onDeliverMsg at hlive
    split at hlive
    · simp [exitNicely, hasExited] at hlive
    · exact hlive

theorem run_enqueued {takingSnapshot : Bool} {es : List Event} (h : Run takingSnapshot es s)
    (hlive : s.hasExited = false) : s.Enqueued es := by
  refine run_rule (P := fun es s => s.hasExited = false → s.Enqueued es)
    (fun _ => enqueued_init takingSnapshot) ?_ h hlive
  intro es t e u ht ih hstep hlive'
  have hf := fires_of_step hstep
  obtain ⟨-, lo, hcoupled⟩ := run_coupled ht
  exact enqueued_step hf hcoupled (ih (not_exited_of_fires hf hlive')) hlive'

theorem pending_of_ready (hc : s.control = .ready) : s.pending = [] := by
  simp only [pending, hc]

/-! ## The loop ends -/

/-- The answers to one row: queue-full a number of times, each followed by `backpressure`, and then success.
After the success `errno` may still say queue-full, and `backpressure` is called once more. -/
def answers (fulls : Nat) (stale : Bool) : List Event :=
  (List.replicate fulls [Event.rdKafkaProduce true true, .backpressure .returned]).flatten ++
    .rdKafkaProduce false stale :: if stale then [.backpressure .returned] else []

/-- **The loop of `send_kafka_msg` hands its message over once**, however often it is refused. -/
theorem run_answers {m : Message} {record : KafkaRecord} (hc : s.control = .produce record)
    (hm : s.held = some m) (fulls : Nat) (stale : Bool) :
    run step s (answers fulls stale) = some { s with
      control := .ready, held := none, queue := s.queue ++ [m], produced := s.produced ++ [(m, record)] } := by
  obtain ⟨ctx, control, held, queue, produced, txns, snapshot, owner⟩ := s
  obtain rfl : control = .produce record := hc
  obtain rfl : held = some m := hm
  induction fulls with
  | zero => cases stale <;> rfl
  | succ fulls ih =>
    have hanswers : answers (fulls + 1) stale =
        .rdKafkaProduce true true :: .backpressure .returned :: answers fulls stale := by
      simp [answers, List.replicate_succ]
    -- a refusal and a round of `backpressure` lead back to the same state
    rw [hanswers]
    exact ih

/-- From the main loop, a row is the next message that Kafka accepts. -/
theorem run_row (hc : s.control = .ready) (walPos : UInt64) (relid : UInt32) (record : KafkaRecord)
    (fulls : Nat) (stale : Bool) :
    ∃ s', run step s (.sendKafkaMsg walPos relid (some record) :: answers fulls stale) = some s' ∧
      s'.control = .ready ∧
      s'.produced = s.produced ++ [(⟨⟨walPos, relid, s.ctx.xactHead⟩, s.current⟩, record)] := by
  have hsend : s.step (.sendKafkaMsg walPos relid (some record)) =
      some (s.sendKafkaMsg walPos relid (some record)) := if_pos hc
  have hloop := run_answers (s := s.sendKafkaMsg walPos relid (some record)) rfl rfl fulls stale
  rw [run_cons, hsend, Option.bind_some, hloop]
  exact ⟨_, rfl, rfl, rfl⟩

end System

/-! ## The callbacks -/

section

open BottledWater.Client

/-- The position that a callback about a row is given. -/
def rowWalPos : Callback → UInt64
  | .insertRow walPos .. => walPos
  | .updateRow walPos .. => walPos
  | .deleteRow walPos .. => walPos
  | .tableSchema walPos .. => walPos
  | .beginTxn walPos _ => walPos
  | .commitTxn walPos _ => walPos

/-- What `rd_kafka_produce` is given for a row, if the table is known and the row can be encoded. -/
def rowRecord (config : ProducerConfig) (mapper : TableMapper) (msg : RowMsg) : Option KafkaRecord := do
  let table ← tableMapperLookup mapper msg.relid
  let topic ← table.topic
  let (key, val) ← encodeMsg config table msg.key msg.val
  some ⟨topic.name, (passed key).ptr, (passed val).ptr⟩

/-- **The call of `send_kafka_msg`** that `on_insert_row`, `on_update_row` and `on_delete_row` make; a delete
without a key makes none. -/
def rowCall (config : ProducerConfig) (mapper : TableMapper) (call : Callback) : Option Event :=
  (rowMsg call).map fun msg => .sendKafkaMsg (rowWalPos call) msg.relid (rowRecord config mapper msg)

end

namespace System

variable {s : System}

/-- **Rows are enqueued once and in order.**  After every run in which the process has not exited, with any
answers of `rd_kafka_produce` and any acknowledgements in between: what Kafka has accepted, followed by the row
that `send_kafka_msg` is busy with, are the rows that arrived, each with the transaction begun last before it;
between two callbacks nothing is left over; and a row that arrives then is accepted as the next one, whatever
the pattern of refusals. -/
theorem enqueued_in_order {takingSnapshot : Bool} {es : List Event} (h : Run takingSnapshot es s)
    (hlive : s.hasExited = false) :
    s.produced ++ s.pending = rowEvents es ∧
    s.txns.map (·.xid) ++ s.waiting = 0 :: begunXids es ∧
    (s.control = .ready → s.produced = rowEvents es ∧
      ∀ config mapper call msg record, rowMsg call = some msg →
        rowRecord config mapper msg = some record →
        ∀ fulls stale, ∃ e s', rowCall config mapper call = some e ∧
          Run takingSnapshot (es ++ (e :: answers fulls stale)) s' ∧ s'.control = .ready ∧
          s'.produced = rowEvents es ++ [(⟨⟨rowWalPos call, msg.relid, slotOf maxInFlightTransactions
            (begunXids es).length⟩, (begunXids es).length⟩, record)]) := by
  have henq := run_enqueued h hlive
  refine ⟨henq.rows, henq.txns, fun hc => ?_⟩
  have hproduced : s.produced = rowEvents es := by
    have hrows := henq.rows
    rwa [pending_of_ready hc, List.append_nil] at hrows
  refine ⟨hproduced, ?_⟩
  intro config mapper call msg record hmsg hrecord fulls stale
  obtain ⟨-, lo, hcoupled⟩ := run_coupled h
  have hcall : rowCall config mapper call =
      some (.sendKafkaMsg (rowWalPos call) msg.relid (some record)) := by
    rw [rowCall, hmsg, Option.map_some, hrecord]
  obtain ⟨s', hrow, hready, hnext⟩ := run_row hc (rowWalPos call) msg.relid record fulls stale
  refine ⟨_, s', hcall, ?_, hready, ?_⟩
  · rw [Run, run_append, h]
    exact hrow
  · rw [hnext, hproduced, hcoupled.head_eq, henq.current_eq hc]

/-- A row that is refused twice and then accepted, with `errno` as it was. -/
def refusedTwice : List Event :=
  .onBeginTxn 7 :: .sendKafkaMsg 8 16384 (some ⟨"users", none, some [1]⟩) :: answers 2 true

theorem enqueued_in_order_refused :
    ∃ s, Run false refusedTwice s ∧ s.produced = rowEvents refusedTwice ∧
      rowEvents refusedTwice = [(⟨⟨8, 16384, 1⟩, 1⟩, ⟨"users", none, some [1]⟩)] := by
  have hrun : ∃ s, Run false refusedTwice s ∧ s.control = .ready := ⟨_, rfl, rfl⟩
  obtain ⟨s, hs, hc⟩ := hrun
  have hlive : s.hasExited = false := by simp only [hasExited, hc]
  exact ⟨s, hs, ((enqueued_in_order hs hlive).2.2 hc).1, rfl⟩

end System

end BottledWater.Kafka
