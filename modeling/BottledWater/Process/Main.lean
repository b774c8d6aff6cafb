/-
# BottledWater.Process.Main — `db_client_start`, `db_client_poll` and `main`.

Each procedure follows its C function statement by statement.  `check(err, call)` is plain sequencing,
since an error ends the procedure; `ensure(context, call)` is `ensure`.
-/
import BottledWater.Process.World

namespace BottledWater.Process

open BottledWater.Lib BottledWater.Client BottledWater.Kafka

/-! ## Leaving the process -/

/-- `replication_slot_drop`. -/
def replicationSlotDrop : Proc PUnit := do
  let w ← get
  let res ← askResult (.replExec (.dropReplicationSlot w.config.slotName))
  check (resultStatus res = .commandOk) .eio

/-- `exit_nicely`. -/
def exitNicely (status : Nat) : Proc PUnit := do
  let w ← get
  if w.takingSnapshot ∧ status ≠ 0 then
    let _ ← attempt replicationSlotDrop
    throw (.exited status)
  else throw (.exited status)

/-- `ensure(context, call)`. -/
def ensure (call : Proc PUnit) : Proc PUnit := do
  match ← attempt call with
  | none => pure ⟨⟩
  | some _ => exitNicely 1

/-! ## Callbacks -/

/-- What Kafka and the loops of a callback contribute, as opposed to Postgres. -/
def Event.fromKafka : Event → Bool
  | .rdKafkaProduce .. | .backpressure _ | .onDeliverMsg .. => true
  | _ => false

/-- The producer goes through `events`, and is back in the main loop or leaves the process. -/
def advance (events : List Event) (lastCheckpoint : Option Nat) : Proc PUnit := do
  let w ← get
  match run System.step w.producer events with
  | none => throw .blocked
  | some producer =>
    set { w with
      client := { w.client with lastCheckpoint := lastCheckpoint.getD w.client.lastCheckpoint }
      producer := producer
      events := w.events ++ events }
    match producer.control with
    | .ready => pure ⟨⟩
    | .exited status => exitNicely status
    | _ => throw .blocked

/-- One of the callbacks of `bottledwater.c`; they return 0 or do not return. -/
def callback (event : Event) : Proc PUnit := do
  match ← ask (.callback event) with
  | .during events lastCheckpoint =>
    if events.all Event.fromKafka then advance (event :: events) lastCheckpoint else throw .blocked
  | _ => throw .blocked

/-- `rd_kafka_poll(context->kafka, 0)` in the main loop. -/
def rdKafkaPoll : Proc PUnit := do
  match ← ask .kafkaPoll with
  | .during events lastCheckpoint =>
    if events.all Event.fromKafka then advance events lastCheckpoint else throw .blocked
  | _ => throw .blocked

/-- The callback for one message of a frame. -/
def processFrameMessage (walPos : UInt64) : FrameMessage → Proc PUnit
  | .beginTxn xid => callback (.onBeginTxn xid.val)
  | .commitTxn xid => callback (.onCommitTxn walPos xid.val)
  | .tableSchema _ failed => if failed then exitNicely 1 else pure ⟨⟩
  | .row relid record => callback (.sendKafkaMsg walPos relid record)

def processFrameMessages (walPos : UInt64) : List FrameMessage → Proc PUnit
  | [] => pure ⟨⟩
  | message :: messages => do
    processFrameMessage walPos message
    processFrameMessages walPos messages

/-- `parse_frame`. -/
def parseFrame (walPos : UInt64) (buf : List UInt8) : Proc PUnit := do
  match ← ask (.parseFrame walPos buf) with
  | .frame messages err =>
    processFrameMessages walPos messages
    match err with
    | none => pure ⟨⟩
    | some err => throw (.errno err)
  | _ => throw .blocked

/-! ## The replication stream -/

/-- `replication_slot_create`. -/
def replicationSlotCreate : Proc PUnit := do
  let w ← get
  check (w.config.slotName ≠ "") .einval
  check (w.config.outputPlugin ≠ "") .einval
  let res ← askResult
    (.replExec (.createReplicationSlot w.config.slotName w.config.outputPlugin))
  match res with
  | none => throw (.errno .eio)
  | some res =>
    check (res.status = .tuplesOk) .eio
    check (res.ntuples = 1 ∧ res.nfields = 4) .eio
    match res.getvalue 0 1, res.getvalue 0 2 with
    | some lsn, some name =>
      match sscanfLsn lsn with
      | none => throw (.errno .eio)
      | some startLsn =>
        modifyClient fun c => { c with startLsn := startLsn, snapshotName := name }
    | _, _ => throw (.errno .eio)

/-- `replication_stream_check`. -/
def replicationStreamCheck : Proc PUnit := do
  let res ← askResult (.replExec .identifySystem)
  match res with
  | none => throw (.errno .eio)
  | some res =>
    check (res.status = .tuplesOk) .eio
    check (res.ntuples = 1 ∧ 4 ≤ res.nfields) .eio
    check (res.getvalue 0 3).isSome .eio

/-- `replication_stream_start`. -/
def replicationStreamStart : Proc PUnit := do
  let w ← get
  let res ← askResult (.replExec (.startReplication w.config.slotName w.client.startLsn))
  check (resultStatus res = .copyBoth) .eio

/-- `replication_stream_finish`. -/
def replicationStreamFinish : Proc PUnit := do
  let res ← askResult .getCopyResult
  check (resultStatus res = .commandOk) .eio

/-- `send_checkpoint`. -/
def sendCheckpointMessage (now : Nat) : Proc PUnit := do
  let w ← get
  let ok ← askFlag (.putCopyData
    (sendCheckpoint w.client.recvdLsn w.producer.ctx.fsyncLsn (UInt64.ofNat now)))
  check ok .eio
  modifyClient fun c => { c with lastCheckpoint := now }

def askTime : Proc Nat := do
  match ← ask .currentTime with
  | .time now => pure now
  | _ => throw .blocked

/-- `CHECKPOINT_INTERVAL_SEC * USECS_PER_SEC`. -/
def checkpointInterval : Nat := 10 * 1000000

/-- `replication_stream_keepalive`. -/
def replicationStreamKeepalive : Proc PUnit := do
  let w ← get
  if w.client.recvdLsn ≠ 0 then
    let now ← askTime
    if checkpointInterval < now - w.client.lastCheckpoint then sendCheckpointMessage now
    else pure ⟨⟩
  else pure ⟨⟩

/-- `parse_keepalive_message`; `buf` includes the initial `k`. -/
def parseKeepaliveMessage (buf : List UInt8) : Proc PUnit := do
  check (1 + 8 + 8 + 1 ≤ buf.length) .eio
  let walPos := (recvint64 (buf.drop 1)).getD 0
  let replyRequested := buf.getD 17 0 ≠ 0
  modifyClient fun c => { c with recvdLsn := max walPos c.recvdLsn }
  if replyRequested then
    let now ← askTime
    sendCheckpointMessage now
  else pure ⟨⟩

/-- `parse_xlogdata_message`; `recvd_lsn` moves even when the frame cannot be parsed. -/
def parseXlogdataMessage (buf : List UInt8) : Proc PUnit := do
  let hdrlen := 1 + 8 + 8 + 8
  check (hdrlen + 1 ≤ buf.length) .eio
  let walPos := (recvint64 (buf.drop 1)).getD 0
  let err ← attempt (parseFrame walPos (buf.drop hdrlen))
  modifyClient fun c => { c with recvdLsn := max walPos c.recvdLsn }
  match err with
  | none => pure ⟨⟩
  | some err => throw (.errno err)

def setStreamStatus (status : Int) : Proc PUnit :=
  modifyClient fun c => { c with streamStatus := status }

/-- The `switch` of `replication_stream_poll` over the first byte of a message. -/
def parseCopyMessage (kind : UInt8) (rest : List UInt8) : Proc PUnit :=
  if kind = 107 then parseKeepaliveMessage (kind :: rest)  -- 'k'
  else if kind = 119 then parseXlogdataMessage (kind :: rest)  -- 'w'
  else throw (.errno .eio)

/-- `replication_stream_poll`. -/
def replicationStreamPoll : Proc PUnit := do
  match ← ask .getCopyData with
  | .copyData .done =>
    let err ← attempt replicationStreamFinish
    setStreamStatus (-1)
    check err.isNone .eio
  | .copyData .failed =>
    setStreamStatus (-2)
    throw (.errno .eio)
  | .copyData (.message kind rest) =>
    setStreamStatus 1
    parseCopyMessage kind rest
    replicationStreamKeepalive
  | .copyData .wouldBlock =>
    setStreamStatus 0
    replicationStreamKeepalive
  | _ => throw .blocked

/-! ## The client -/

/-- `exec_sql`. -/
def execSql (query : String) : Proc PUnit := do
  let res ← askResult (.sqlExec query)
  check (resultStatus res = .commandOk) .eio

/-- `client_connect`.  `PQconnectdb` returns a connection object even when it fails. -/
def clientConnect : Proc PUnit := do
  let w ← get
  check (w.config.conninfo ≠ "") .einval
  check (w.config.appName ≠ "") .einval
  let connected ← askFlag .connectdb
  modifyClient fun c => { c with sqlConn := true }
  check connected .eio
  let parsed ← askFlag .conninfoParse
  check parsed .eio
  let connected ← askFlag .connectdbParams
  check connected .eio

/-- `replication_slot_exists`: a slot without a restart LSN counts as absent. -/
def replicationSlotExists : Proc Bool := do
  let w ← get
  check (w.config.slotName ≠ "") .einval
  let res ← askResult (.selectRestartLsn w.config.slotName)
  match res with
  | none => throw (.errno .eio)
  | some res =>
    check (res.status = .tuplesOk) .eio
    match res.getvalue 0 0 with
    | none => pure false
    | some restartLsn =>
      match sscanfLsn restartLsn with
      | none => throw (.errno .eio)
      | some startLsn =>
        modifyClient fun c => { c with startLsn := startLsn }
        pure true

/-- `SET TRANSACTION SNAPSHOT 'snapshot_name'`. -/
def setTransactionSnapshot (snapshotName : List UInt8) : String :=
  "SET TRANSACTION SNAPSHOT '" ++ String.ofList (snapshotName.map fun c => Char.ofNat c.toNat) ++ "'"

/-- `snapshot_start`. -/
def snapshotStart : Proc PUnit := do
  let w ← get
  check (w.client.snapshotName ≠ []) .einval
  execSql "BEGIN"
  execSql "SET TRANSACTION ISOLATION LEVEL REPEATABLE READ"
  execSql (setTransactionSnapshot w.client.snapshotName)
  let sent ← askFlag (.sendSnapshotQuery w.config.allowUnkeyed)
  check sent .eio
  let activated ← askFlag .setSingleRowMode
  check activated .eio
  callback (.onBeginTxn 0)

/-- `snapshot_tuple` for the row with the given values. -/
def snapshotTuple (res : PGresult) (row : List (Option (List UInt8))) : Proc PUnit := do
  check (res.nfields = 1) .eio
  match row.head?.join with
  | none => throw (.errno .eio)
  | some value =>
    check (res.fformat = 1) .eio
    parseFrame 0 value

def snapshotTuples (res : PGresult) : List (List (Option (List UInt8))) → Proc PUnit
  | [] => pure ⟨⟩
  | row :: rows => do
    snapshotTuple res row
    snapshotTuples res rows

/-- The end of `snapshot_poll`, when there are no more rows. -/
def snapshotEnd : Proc PUnit := do
  execSql "COMMIT"
  modifyClient fun c => { c with sqlConn := false }
  let w ← get
  callback (.onCommitTxn w.client.startLsn 0)

/-- `snapshot_poll`. -/
def snapshotPoll : Proc PUnit := do
  match ← askResult .getResult with
  | none => snapshotEnd
  | some res =>
    check (res.status = .singleTuple ∨ res.status = .tuplesOk) .eio
    snapshotTuples res res.values

/-- `db_client_start`. -/
def dbClientStart : Proc PUnit := do
  clientConnect
  replicationStreamCheck
  let slotExists ← replicationSlotExists
  if slotExists then
    modifyClient fun c => { c with sqlConn := false }
    setTakingSnapshot false
    replicationStreamStart
  else
    setTakingSnapshot true
    replicationSlotCreate
    snapshotStart

def setStatus (status : Int) : Proc PUnit := modifyClient fun c => { c with status := status }

/-- `db_client_poll`. -/
def dbClientPoll : Proc PUnit := do
  let w ← get
  if w.client.sqlConn then
    let busy ← askFlag .isBusy
    if busy then setStatus 0
    else
      snapshotPoll
      setStatus 1
      let w ← get
      if w.client.sqlConn then pure ⟨⟩ else replicationStreamStart
  else
    replicationStreamPoll
    modifyClient fun c => { c with status := c.streamStatus }

/-- `db_client_wait`. -/
def dbClientWait : Proc PUnit := do
  match ← ask .wait with
  | .waited none => pure ⟨⟩
  | .waited (some err) => throw (.errno err)
  | _ => throw .blocked

/-! ## `main` -/

/-- The body of the `while` loop of `main`. -/
def mainBody : Proc PUnit := do
  ensure dbClientPoll
  let w ← get
  if w.client.status = 0 then
    ensure dbClientWait
    rdKafkaPoll
  else rdKafkaPoll

/-- The `while` loop of `main`, for at most the given number of rounds. -/
def mainLoop : Nat → Proc PUnit
  | 0 => throw .blocked
  | rounds + 1 => do
    let w ← get
    if 0 ≤ w.client.status then
      let signalled ← askFlag .receivedShutdownSignal
      if signalled then pure ⟨⟩
      else
        mainBody
        mainLoop rounds
    else pure ⟨⟩

/-- `main`, after `start_producer`. -/
def main (rounds : Nat) : Proc PUnit := do
  ensure dbClientStart
  mainLoop rounds
  exitNicely 0

end BottledWater.Process
