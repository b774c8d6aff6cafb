/-
# BottledWater.Process.World — the process, the calls it makes and the answers it gets.

The rest of the program: `client/connect.c`, the network part of `client/replication.c` and `main` of
`kafka/bottledwater.c`, as procedures over one state.  Whatever the process asks of Postgres, Kafka, the
clock or the operating system is a `Call`, and the `Reply` is taken from a list that is part of the
state: a run of the process is a list of replies, and what holds for every list holds for every
behaviour of the outside.  `log` keeps calls and replies in order.

What happens inside a callback into the producer is described by `System.step`; its reply is the list of
events up to the return of the callback.

Error texts only go to stderr and are left out; of an `errno` the callers use that it is not 0.
-/
import BottledWater.Kafka.System
import BottledWater.Client.Libpq
import BottledWater.Client.Replication
import BottledWater.Lib.Proc

namespace BottledWater.Process

open BottledWater.Lib BottledWater.Client BottledWater.Kafka

/-! ## Calls and replies -/

/-- The id of a transaction that Postgres streams; 0 is `InvalidTransactionId`. -/
abbrev Xid := { xid : UInt32 // xid ≠ 0 }

/-- A callback that `parse_frame` makes for one message of a frame. -/
inductive FrameMessage
  | beginTxn (xid : Xid)
  | commitTxn (xid : Xid)
  /-- `on_table_schema`; whether `table_mapper_update` fails. -/
  | tableSchema (relid : UInt32) (failed : Bool)
  /-- A row callback that calls `send_kafka_msg`. -/
  | row (relid : UInt32) (record : Option KafkaRecord)
  deriving DecidableEq, Repr

inductive Call
  | connectdb
  | conninfoParse
  | connectdbParams
  | replExec (command : ReplicationCommand)
  /-- `SELECT restart_lsn FROM pg_replication_slots where slot_name = $1` -/
  | selectRestartLsn (slotName : String)
  | sqlExec (query : String)
  /-- `SELECT bottledwater_export(table_pattern := '%', allow_unkeyed := $2)` -/
  | sendSnapshotQuery (allowUnkeyed : Bool)
  | setSingleRowMode
  | isBusy
  | getResult
  | getCopyData
  | getCopyResult
  | currentTime
  | putCopyData (msg : List UInt8)
  | parseFrame (walPos : UInt64) (buf : List UInt8)
  | callback (event : Event)
  | wait
  | kafkaPoll
  | receivedShutdownSignal
  deriving DecidableEq, Repr

/-- What `PQgetCopyData` gives: a message (never empty), no data yet, the end of the data, an error. -/
inductive CopyData
  | message (kind : UInt8) (rest : List UInt8)
  | wouldBlock
  | done
  | failed
  deriving DecidableEq, Repr

/-- The values of `errno` that the client returns itself, and those it passes on. -/
inductive Errno
  | einval
  | eio
  | other (code : Int)
  deriving DecidableEq, Repr

inductive Reply
  /-- Success or failure, or a truth value. -/
  | flag (b : Bool)
  /-- A result; `none` for a null pointer. -/
  | result (res : Option PGresult)
  | copyData (data : CopyData)
  | time (now : Nat)
  /-- The messages of a frame, and the error at which parsing it stops. -/
  | frame (messages : List FrameMessage) (err : Option Errno)
  /-- What happens until a callback or `rd_kafka_poll` returns, and the time of the last status update
  that `backpressure` sends meanwhile. -/
  | during (events : List Event) (lastCheckpoint : Option Nat)
  | waited (err : Option Errno)
  deriving DecidableEq, Repr

/-! ## State -/

/-- The fields of `client_context` and of its `replication_stream` that `init_client` and
`parse_options` set and nothing changes afterwards. -/
structure Config where
  conninfo : String
  appName : String
  allowUnkeyed : Bool
  slotName : String
  outputPlugin : String
  deriving DecidableEq, Repr

/-- The other fields of them that the process uses, less `taking_snapshot` and `fsync_lsn`, which are
part of the producer's state. -/
structure ClientContext where
  snapshotName : List UInt8
  /-- `sql_conn` is not null. -/
  sqlConn : Bool
  startLsn : UInt64
  recvdLsn : UInt64
  lastCheckpoint : Nat
  /-- `repl.status`. -/
  streamStatus : Int
  status : Int
  deriving DecidableEq, Repr

structure World where
  config : Config
  client : ClientContext
  producer : System
  /-- The replies that are still to come. -/
  replies : List Reply
  /-- History: the calls made and the replies to them. -/
  log : List (Call × Reply)
  /-- History: the events of the producer. -/
  events : List Event

/-- `init_client`, with the options that `parse_options` sets. -/
def initClient (conninfo slotName : String) (allowUnkeyed : Bool) : Config where
  conninfo := conninfo
  appName := "bottledwater"
  allowUnkeyed := allowUnkeyed
  slotName := slotName
  outputPlugin := "bottledwater"

/-- The process before `db_client_start`. -/
def World.start (config : Config) (replies : List Reply) : World where
  config := config
  client :=
    { snapshotName := []
      sqlConn := false
      startLsn := 0
      recvdLsn := 0
      lastCheckpoint := 0
      streamStatus := 0
      status := 0 }
  producer := System.init false
  replies := replies
  log := []
  events := []

/-- `taking_snapshot`. -/
def World.takingSnapshot (w : World) : Bool := w.producer.ctx.takingSnapshot

/-- Why a procedure does not return normally. -/
inductive Fault
  /-- It returns this error. -/
  | errno (err : Errno)
  /-- The process has ended with this status. -/
  | exited (status : Nat)
  /-- The reply it waits for has not come, or is not one to this call. -/
  | blocked
  deriving DecidableEq, Repr

abbrev Proc := EStateM Fault World

/-- Why a procedure did not return normally, if it did not. -/
def faultOf {α : Type} : EStateM.Result Fault World α → Option Fault
  | .ok _ _ => none
  | .error fault _ => some fault

/-- The world that a procedure leaves. -/
def finalWorld {α : Type} : EStateM.Result Fault World α → World
  | .ok _ w => w
  | .error _ w => w

theorem eq_error_of_faultOf {α : Type} {result : EStateM.Result Fault World α} {fault : Fault}
    (h : faultOf result = some fault) : result = .error fault (finalWorld result) := by
  cases result with
  | ok a w => simp [faultOf] at h
  | error f w =>
    obtain rfl := Option.some.inj h
    rfl

/-! ## Asking -/

def ask (call : Call) : Proc Reply := fun w =>
  match w.replies with
  | [] => .error .blocked w
  | reply :: replies => .ok reply { w with replies := replies, log := w.log ++ [(call, reply)] }

def askFlag (call : Call) : Proc Bool := do
  match ← ask call with
  | .flag b => pure b
  | _ => throw .blocked

def askResult (call : Call) : Proc (Option PGresult) := do
  match ← ask call with
  | .result res => pure res
  | _ => throw .blocked

/-- `return err` when the test fails. -/
def check (ok : Bool) (err : Errno) : Proc PUnit := if ok then pure ⟨⟩ else throw (.errno err)

/-- The error that a procedure returns, if it does. -/
def attempt (x : Proc PUnit) : Proc (Option Errno) := fun w =>
  match x w with
  | .ok _ w => .ok none w
  | .error (.errno err) w => .ok (some err) w
  | .error fault w => .error fault w

def modifyClient (f : ClientContext → ClientContext) : Proc PUnit :=
  modify fun w => { w with client := f w.client }

def setTakingSnapshot (b : Bool) : Proc PUnit :=
  modify fun w => { w with producer := { w.producer with ctx := { w.producer.ctx with takingSnapshot := b } } }

/-! ## Rules -/

/-- The world after a reply. -/
def World.replied (w : World) (call : Call) (reply : Reply) (replies : List Reply) : World :=
  { w with replies := replies, log := w.log ++ [(call, reply)] }

section Rules

variable {α : Type} {P : World → Prop} {E : Fault → World → Prop} {call : Call}

theorem ask_rule {Q : Reply → World → Prop} (hblocked : ∀ w, P w → E .blocked w)
    (hreply : ∀ w reply replies, P w → Q reply (w.replied call reply replies)) :
    Triple P (ask call) Q E := by
  intro w hw
  unfold ask
  cases w.replies with
  | nil => exact hblocked w hw
  | cons reply replies => exact hreply w reply replies hw

theorem askFlag_rule {Q : Bool → World → Prop} (hblocked : ∀ w, P w → E .blocked w)
    (hother : ∀ w reply replies, P w → (∀ b, reply ≠ .flag b) →
      E .blocked (w.replied call reply replies))
    (hreply : ∀ w b replies, P w → Q b (w.replied call (.flag b) replies)) :
    Triple P (askFlag call) Q E := by
  refine (ask_rule (Q := fun reply w => ∃ w₀ replies, P w₀ ∧ w = w₀.replied call reply replies)
    hblocked (fun w _ replies hw => ⟨w, replies, hw, rfl⟩)).bind ?_
  intro reply
  cases reply with
  | flag b =>
    refine Triple.pure ?_
    rintro _ ⟨w, replies, hw, rfl⟩
    exact hreply w b replies hw
  | _ =>
    refine Triple.throw ?_
    rintro _ ⟨w, replies, hw, rfl⟩
    exact hother w _ replies hw (by simp)

theorem askResult_rule {Q : Option PGresult → World → Prop} (hblocked : ∀ w, P w → E .blocked w)
    (hother : ∀ w reply replies, P w → (∀ res, reply ≠ .result res) →
      E .blocked (w.replied call reply replies))
    (hreply : ∀ w res replies, P w → Q res (w.replied call (.result res) replies)) :
    Triple P (askResult call) Q E := by
  refine (ask_rule (Q := fun reply w => ∃ w₀ replies, P w₀ ∧ w = w₀.replied call reply replies)
    hblocked (fun w _ replies hw => ⟨w, replies, hw, rfl⟩)).bind ?_
  intro reply
  cases reply with
  | result res =>
    refine Triple.pure ?_
    rintro _ ⟨w, replies, hw, rfl⟩
    exact hreply w res replies hw
  | _ =>
    refine Triple.throw ?_
    rintro _ ⟨w, replies, hw, rfl⟩
    exact hother w _ replies hw (by simp)

theorem check_rule {ok : Bool} {err : Errno} (herr : ∀ w, P w → ok = false → E (.errno err) w) :
    Triple P (check ok err) (fun _ w => P w ∧ ok = true) E := by
  unfold check
  cases ok with
  | true => exact Triple.pure fun w hw => ⟨hw, rfl⟩
  | false => exact Triple.throw fun w hw => herr w hw rfl

theorem attempt_rule {x : Proc PUnit} {Q : Option Errno → World → Prop}
    (h : Triple P x (fun _ => Q none) fun
      | .errno err => Q (some err)
      | fault => E fault) :
    Triple P (attempt x) Q E := by
  intro w hw
  have hx := h w hw
  unfold attempt
  cases hrun : x w with
  | ok a w' =>
    rw [hrun] at hx
    exact hx
  | error fault w' =>
    rw [hrun] at hx
    cases fault <;> exact hx

end Rules

end BottledWater.Process
