/-
# BottledWater.Process.Phases — first the snapshot, then the stream.

`db_client_poll` serves two phases with one function: as long as `sql_conn` is set it reads the snapshot
query, afterwards the replication stream.  Which phase the client is in is nowhere written down; it
follows from the calls made so far.  `Phase` writes it down, as an automaton that reads the log of the
process: every procedure of the client is shown to move the automaton along its text, so the log of every
run is a path of it, and what is said about the order is read off the paths.

A `Step` is an entry of the log that matters for the order; all other calls leave the phase as it is.
-/
import BottledWater.Process.Main

namespace BottledWater.Process

open BottledWater.Lib BottledWater.Client BottledWater.Kafka

/-! ## §1 — steps and phases -/

/-- A row of a result; a null value is `none`. -/
abbrev Row := List (Option (List UInt8))

/-- The value that `snapshot_tuple` reads: the first of the row. -/
def Row.frame (row : Row) : Option (List UInt8) := row.head?.join

/-- What the client does, as far as the order of snapshot and stream is concerned. -/
inductive Step
  /-- `replication_slot_exists` has its answer; whether there is a slot with a restart LSN. -/
  | slotExists (found : Bool)
  /-- The begin callback with xid 0. -/
  | beginTxn
  /-- `PQgetResult`; `none` is the end of the query. -/
  | result (res : Option PGresult)
  /-- `parse_frame`, and whether it returns 0. -/
  | parseFrame (buf : List UInt8) (parsed : Bool)
  /-- `COMMIT`, and whether it succeeds. -/
  | commit (ok : Bool)
  /-- The commit callback with xid 0. -/
  | commitTxn
  /-- `replication_stream_start`. -/
  | streamStart
  /-- `PQgetCopyData`, which reads a replication message. -/
  | streamRead
  deriving DecidableEq, Repr

/-- Whether the reply to `replication_slot_exists` shows a slot. -/
def slotFound (res : Option PGresult) : Bool := (res.bind (·.getvalue 0 0)).isSome

/-- The step that an entry of the log is, if it is one. -/
def step? : Call × Reply → Option Step
  | (.selectRestartLsn _, .result res) => some (.slotExists (slotFound res))
  | (.callback (.onBeginTxn xid), _) => if xid = 0 then some .beginTxn else none
  | (.getResult, .result res) => some (.result res)
  | (.parseFrame _ buf, reply) =>
    match reply with
    | .frame _ none => some (.parseFrame buf true)
    | _ => some (.parseFrame buf false)
  | (.sqlExec query, .result res) =>
    if query = "COMMIT" then some (.commit (resultStatus res = .commandOk)) else none
  | (.callback (.onCommitTxn _ xid), _) => if xid = 0 then some .commitTxn else none
  | (.replExec (.startReplication _ _), _) => some .streamStart
  | (.getCopyData, _) => some .streamRead
  | _ => none

/-- The steps of a log. -/
def stepsOf (log : List (Call × Reply)) : List Step := log.filterMap step?

/-- A result with rows, or the end of them, as opposed to an error. -/
def ResultOk (res : PGresult) : Prop := res.status = .singleTuple ∨ res.status = .tuplesOk

instance (res : PGresult) : Decidable (ResultOk res) :=
  inferInstanceAs (Decidable (res.status = .singleTuple ∨ res.status = .tuplesOk))

inductive Phase
  /-- Before the answer of `replication_slot_exists`. -/
  | connecting
  /-- The slot existed: there is no snapshot, and nothing is said about the order. -/
  | resuming
  /-- There is no slot, and the snapshot has not begun. -/
  | absent
  /-- The begin callback has been made; these rows of the last result are still to be parsed. -/
  | reading (pending : List Row)
  /-- A result has an error status, a row cannot be parsed, or `COMMIT` fails. -/
  | failed
  /-- The query has ended. -/
  | readToEnd
  /-- `COMMIT` has succeeded. -/
  | committed
  /-- The commit callback has been made. -/
  | reported
  | streaming
  deriving DecidableEq, Repr

/-- The phase after a step; `none` if the step is not allowed in this phase. -/
def Phase.next : Phase → Step → Option Phase
  | .connecting, .slotExists found => some (if found then .resuming else .absent)
  | .resuming, .slotExists _ => none
  | .resuming, _ => some .resuming
  | .absent, .beginTxn => some (.reading [])
  | .reading [], .result none => some .readToEnd
  | .reading [], .result (some res) =>
    some (if ResultOk res then .reading res.values else .failed)
  | .reading (row :: rows), .parseFrame buf parsed =>
    if Row.frame row = some buf then some (if parsed then .reading rows else .failed) else none
  | .readToEnd, .commit ok => some (if ok then .committed else .failed)
  | .committed, .commitTxn => some .reported
  | .reported, .streamStart => some .streaming
  | .streaming, .streamRead => some .streaming
  | .streaming, .parseFrame _ _ => some .streaming
  | _, _ => none

/-- The phase after an entry of the log. -/
def Phase.entry : Phase → Call × Reply → Option Phase := through step? Phase.next

/-! ## §2 — every procedure follows the phases -/

/-- The log so far is a path to `phase`, and the SQL connection is open or not. -/
structure At (phase : Phase) (conn : Bool) (w : World) : Prop where
  path : run Phase.entry .connecting w.log = some phase
  sqlConn : w.client.sqlConn = conn

/-- The log so far is a path. -/
def Accepted (w : World) : Prop := ∃ phase, run Phase.entry .connecting w.log = some phase

theorem At.accepted {phase : Phase} {conn : Bool} {w : World} (h : At phase conn w) : Accepted w :=
  ⟨phase, h.path⟩

/-- One more entry. -/
theorem At.replied {phase phase' : Phase} {conn : Bool} {w : World} (h : At phase conn w) {call : Call}
    {reply : Reply} (hentry : phase.entry (call, reply) = some phase') (replies : List Reply) :
    At phase' conn (w.replied call reply replies) := by
  refine ⟨?_, h.sqlConn⟩
  rw [World.replied, run_snoc, h.path]
  exact hentry

/-- **`Moves phase conn x Q`** — from `phase`, the log stays a path, and `Q` says where `x` returns. -/
def Moves {α : Type} (phase : Phase) (conn : Bool) (x : Proc α) (Q : α → World → Prop) : Prop :=
  Triple (At phase conn) x Q fun _ => Accepted

/-- **`Stays phase conn x`** — `x` returns in the same phase. -/
def Stays {α : Type} (phase : Phase) (conn : Bool) (x : Proc α) : Prop :=
  Triple (At phase conn) x (fun _ => At phase conn) fun _ => Accepted

/-- The calls that leave the phase as it is, whatever the reply. -/
def Phase.Ignores (phase : Phase) (call : Call) : Prop := ∀ reply, phase.entry (call, reply) = some phase

section Rules

variable {α β : Type} {phase : Phase} {conn : Bool} {call : Call}

theorem stays_pure (a : α) : Stays phase conn (pure a : Proc α) := Triple.pure fun _ h => h

theorem stays_throw (fault : Fault) : Stays phase conn (throw fault : Proc α) :=
  Triple.throw fun _ h => h.accepted

theorem Stays.bind {x : Proc α} {f : α → Proc β} {Q : β → World → Prop} (hx : Stays phase conn x)
    (hf : ∀ a, Moves phase conn (f a) Q) : Moves phase conn (x >>= f) Q := Triple.bind hx hf

theorem moves_get {f : World → Proc β} {Q : β → World → Prop} (hf : ∀ w, Moves phase conn (f w) Q) :
    Moves phase conn (get >>= f) Q :=
  Triple.get fun w hw => (hf w).pre fun _ hw' => hw' ▸ hw

theorem stays_ite {c : Prop} [Decidable c] {x y : Proc α} (hx : Stays phase conn x)
    (hy : Stays phase conn y) : Stays phase conn (if c then x else y) :=
  Triple.ite (fun _ => hx) fun _ => hy

theorem stays_check (ok : Bool) (err : Errno) : Stays phase conn (check ok err) := by
  cases ok with
  | true => exact stays_pure PUnit.unit
  | false => exact stays_throw _

theorem stays_ask (h : phase.Ignores call) : Stays phase conn (ask call) :=
  ask_rule (fun _ hw => hw.accepted) fun _ reply replies hw => hw.replied (h reply) replies

theorem stays_askFlag (h : phase.Ignores call) : Stays phase conn (askFlag call) :=
  askFlag_rule (fun _ hw => hw.accepted)
    (fun _ reply replies hw _ => (hw.replied (h reply) replies).accepted)
    fun _ b replies hw => hw.replied (h (.flag b)) replies

theorem stays_askResult (h : phase.Ignores call) : Stays phase conn (askResult call) :=
  askResult_rule (fun _ hw => hw.accepted)
    (fun _ reply replies hw _ => (hw.replied (h reply) replies).accepted)
    fun _ res replies hw => hw.replied (h (.result res)) replies

/-- A query whose result decides the phase. -/
theorem askResult_moves (next : Option PGresult → Phase)
    (hother : ∀ reply, (∀ res, reply ≠ .result res) → step? (call, reply) = none)
    (hres : ∀ res, phase.entry (call, .result res) = some (next res)) :
    Moves phase conn (askResult call) fun res => At (next res) conn := by
  refine askResult_rule (fun _ hw => hw.accepted) ?_ fun _ res replies hw => hw.replied (hres res) replies
  intro w reply replies hw hne
  have hstays : phase.entry (call, reply) = some phase := by simp [Phase.entry, through, hother reply hne]
  exact (hw.replied hstays replies).accepted

theorem stays_modifyClient {f : ClientContext → ClientContext} (h : ∀ c, (f c).sqlConn = c.sqlConn) :
    Stays phase conn (modifyClient f) :=
  Triple.modify fun w hw => ⟨hw.path, (h w.client).trans hw.sqlConn⟩

theorem accepted_modifyClient (f : ClientContext → ClientContext) :
    Triple Accepted (modifyClient f) (fun _ => Accepted) fun _ => Accepted :=
  Triple.modify fun _ hw => hw

/-- An error that is returned as a value. -/
theorem stays_attempt {x : Proc PUnit} (hx : Stays phase conn x) :
    Moves phase conn (attempt x) fun
      | none => At phase conn
      | some _ => Accepted := by
  refine attempt_rule (hx.conseq (fun _ hw => hw) (fun _ _ hw => hw) ?_)
  intro fault w hw
  cases fault <;> exact hw

end Rules

/-! ### Callbacks -/

section Callbacks

variable {phase : Phase} {conn : Bool}

/-- `exit_nicely` does not return. -/
theorem exitNicely_moves (status : Nat) {Q : PUnit → World → Prop} :
    Moves phase conn (exitNicely status) Q := by
  unfold exitNicely
  have hdrop : Stays phase conn replicationSlotDrop :=
    moves_get fun w => (stays_askResult fun _ => rfl).bind fun _ => stays_check _ _
  refine moves_get fun w => Triple.ite (fun _ => ?_) fun _ => Triple.throw fun _ hw => hw.accepted
  refine Triple.bind (stays_attempt hdrop) fun err => ?_
  cases err with
  | none => exact Triple.throw fun _ hw => hw.accepted
  | some err => exact Triple.throw fun _ hw => hw

theorem stays_advance (events : List Event) (lastCheckpoint : Option Nat) :
    Stays phase conn (advance events lastCheckpoint) := by
  unfold advance
  refine Triple.get fun w hw => ?_
  cases run System.step w.producer events with
  | none => exact (stays_throw _).pre fun _ h => h ▸ hw
  | some producer =>
    refine Triple.bind (Q := fun _ => At phase conn) ?_ fun _ => ?_
    · exact fun _ _ => ⟨hw.path, hw.sqlConn⟩
    · cases producer.control with
      | ready => exact stays_pure PUnit.unit
      | exited status => exact exitNicely_moves status
      | _ => exact stays_throw _

/-- What a callback does after it was entered in the log. -/
theorem stays_during (event : List Event) (reply : Reply) :
    Stays phase conn (match reply with
      | .during events lastCheckpoint =>
        if events.all Event.fromKafka then advance (event ++ events) lastCheckpoint
        else throw .blocked
      | _ => throw .blocked : Proc PUnit) := by
  cases reply with
  | during events lastCheckpoint => exact stays_ite (stays_advance _ _) (stays_throw _)
  | _ => exact stays_throw _

/-- A callback that is a step. -/
theorem callback_moves {event : Event} {phase' : Phase}
    (h : ∀ reply, phase.entry (.callback event, reply) = some phase') :
    Moves phase conn (callback event) fun _ => At phase' conn :=
  (ask_rule (Q := fun _ => At phase' conn) (fun _ hw => hw.accepted)
    fun _ reply replies hw => hw.replied (h reply) replies).bind
      fun reply => stays_during [event] reply

theorem stays_callback {event : Event} (h : phase.Ignores (.callback event)) :
    Stays phase conn (callback event) := callback_moves h

theorem stays_rdKafkaPoll : Stays phase conn rdKafkaPoll :=
  (stays_ask fun _ => rfl).bind fun reply => stays_during [] reply

/-- No transaction of the stream has the xid of the snapshot. -/
theorem stays_processFrameMessages (walPos : UInt64) (messages : List FrameMessage) :
    Stays phase conn (processFrameMessages walPos messages) := by
  induction messages with
  | nil => exact stays_pure PUnit.unit
  | cons message messages ih =>
    unfold processFrameMessages
    refine Stays.bind ?_ fun _ => ih
    cases message with
    | beginTxn xid => exact stays_callback fun _ => by simp [Phase.entry, through, step?, xid.property]
    | commitTxn xid => exact stays_callback fun _ => by simp [Phase.entry, through, step?, xid.property]
    | tableSchema relid failed => exact stays_ite (exitNicely_moves 1) (stays_pure PUnit.unit)
    | row relid record => exact stays_callback fun _ => rfl

end Callbacks

/-! ### The replication stream -/

/-- The phases in which replication messages are read. -/
structure Phase.Streams (phase : Phase) : Prop where
  parseFrame : ∀ walPos buf, phase.Ignores (.parseFrame walPos buf)
  getCopyData : phase.Ignores .getCopyData

theorem step?_parseFrame (walPos : UInt64) (buf : List UInt8) (reply : Reply) :
    ∃ parsed, step? (.parseFrame walPos buf, reply) = some (.parseFrame buf parsed) := by
  simp only [step?]
  split
  · exact ⟨true, rfl⟩
  · exact ⟨false, rfl⟩

theorem streams_streaming : Phase.streaming.Streams where
  parseFrame := by
    intro walPos buf reply
    obtain ⟨parsed, h⟩ := step?_parseFrame walPos buf reply
    simp [Phase.entry, through, h, Phase.next]
  getCopyData := fun _ => rfl

theorem streams_resuming : Phase.resuming.Streams where
  parseFrame := by
    intro walPos buf reply
    obtain ⟨parsed, h⟩ := step?_parseFrame walPos buf reply
    simp [Phase.entry, through, h, Phase.next]
  getCopyData := fun _ => rfl

section Stream

variable {phase : Phase} {conn : Bool}

theorem stays_askTime : Stays phase conn askTime := by
  unfold askTime
  refine (stays_ask fun _ => rfl).bind fun reply => ?_
  cases reply with
  | time now => exact stays_pure now
  | _ => exact stays_throw _

theorem stays_sendCheckpointMessage (now : Nat) : Stays phase conn (sendCheckpointMessage now) :=
  moves_get fun _ => (stays_askFlag fun _ => rfl).bind fun _ =>
    (stays_check _ _).bind fun _ => stays_modifyClient (by exact fun _ => rfl)

theorem stays_replicationStreamKeepalive : Stays phase conn replicationStreamKeepalive :=
  moves_get fun _ => stays_ite
    (stays_askTime.bind fun now => stays_ite (stays_sendCheckpointMessage now)
      (stays_pure PUnit.unit))
    (stays_pure PUnit.unit)

theorem stays_parseKeepaliveMessage (buf : List UInt8) : Stays phase conn (parseKeepaliveMessage buf) :=
  (stays_check _ _).bind fun _ => (stays_modifyClient (by exact fun _ => rfl)).bind fun _ =>
    stays_ite (stays_askTime.bind stays_sendCheckpointMessage) (stays_pure PUnit.unit)

theorem stays_replicationStreamFinish : Stays phase conn replicationStreamFinish :=
  (stays_askResult fun _ => rfl).bind fun _ => stays_check _ _

variable (hphase : phase.Streams)
include hphase

theorem stays_parseFrame (walPos : UInt64) (buf : List UInt8) : Stays phase conn (parseFrame walPos buf) := by
  unfold parseFrame
  refine (stays_ask (hphase.parseFrame walPos buf)).bind fun reply => ?_
  cases reply with
  | frame messages err =>
    refine (stays_processFrameMessages walPos messages).bind fun _ => ?_
    cases err with
    | none => exact stays_pure PUnit.unit
    | some err => exact stays_throw _
  | _ => exact stays_throw _

theorem stays_parseXlogdataMessage (buf : List UInt8) : Stays phase conn (parseXlogdataMessage buf) := by
  unfold parseXlogdataMessage
  refine (stays_check _ _).bind fun _ => (stays_attempt (stays_parseFrame hphase _ _)).bind fun err => ?_
  cases err with
  | none => exact (stays_modifyClient (by exact fun _ => rfl)).bind fun _ => stays_pure PUnit.unit
  | some err =>
    exact (accepted_modifyClient _).bind fun _ => Triple.throw fun _ hw => hw

theorem stays_replicationStreamPoll : Stays phase conn replicationStreamPoll := by
  unfold replicationStreamPoll
  refine (stays_ask hphase.getCopyData).bind fun reply => ?_
  cases reply with
  | copyData data =>
    cases data with
    | message kind rest =>
      refine (stays_modifyClient (by exact fun _ => rfl)).bind fun _ => Stays.bind ?_ fun _ =>
        stays_replicationStreamKeepalive
      exact stays_ite (stays_parseKeepaliveMessage _)
        (stays_ite (stays_parseXlogdataMessage hphase _) (stays_throw _))
    | wouldBlock =>
      exact (stays_modifyClient (by exact fun _ => rfl)).bind fun _ => stays_replicationStreamKeepalive
    | done =>
      refine (stays_attempt stays_replicationStreamFinish).bind fun err => ?_
      cases err with
      | none => exact (stays_modifyClient (by exact fun _ => rfl)).bind fun _ => stays_check _ _
      | some err =>
        exact (accepted_modifyClient _).bind fun _ => Triple.throw fun _ hw => hw
    | failed => exact (stays_modifyClient (by exact fun _ => rfl)).bind fun _ => stays_throw _
  | _ => exact stays_throw _

end Stream

/-! ### The snapshot -/

section Snapshot

variable {conn : Bool}

/-- `parse_frame` on the next row. -/
theorem parseFrame_moves {row : Row} {buf : List UInt8} (hrow : Row.frame row = some buf)
    (rows : List Row) :
    Moves (.reading (row :: rows)) conn (parseFrame 0 buf) fun _ => At (.reading rows) conn := by
  unfold parseFrame
  refine (ask_rule (Q := fun reply w => ∃ parsed, step? (.parseFrame 0 buf, reply) =
      some (.parseFrame buf parsed) ∧ At (if parsed then .reading rows else .failed) conn w)
    (fun _ hw => hw.accepted) ?_).bind fun reply => ?_
  · intro w reply replies hw
    obtain ⟨parsed, h⟩ := step?_parseFrame 0 buf reply
    refine ⟨parsed, h, hw.replied ?_ replies⟩
    simp [Phase.entry, through, h, Phase.next, hrow]
  · -- a frame that is parsed to its end leaves the other rows; every other reply is a failure
    cases reply with
    | frame messages err =>
      cases err with
      | none =>
        refine Triple.pre (P := At (.reading rows) conn) ?_ ?_
        · exact (stays_processFrameMessages 0 messages).bind fun _ => stays_pure PUnit.unit
        · rintro w ⟨parsed, h, hw⟩
          simp only [step?, Option.some.injEq, Step.parseFrame.injEq, true_and] at h
          simpa [← h] using hw
      | some err =>
        refine Triple.pre (P := At .failed conn) ?_ ?_
        · refine Triple.bind (stays_processFrameMessages 0 messages) fun _ => ?_
          exact Triple.throw fun _ hw => hw.accepted
        · rintro w ⟨parsed, h, hw⟩
          simp only [step?, Option.some.injEq, Step.parseFrame.injEq, true_and] at h
          simpa [← h] using hw
    | _ =>
      refine Triple.throw ?_
      rintro w ⟨parsed, h, hw⟩
      exact hw.accepted

theorem snapshotTuple_moves (res : PGresult) (row : Row) (rows : List Row) :
    Moves (.reading (row :: rows)) conn (snapshotTuple res row) fun _ => At (.reading rows) conn := by
  unfold snapshotTuple
  refine (stays_check _ _).bind fun _ => ?_
  cases hrow : Row.frame row with
  | none =>
    rw [Row.frame] at hrow
    rw [hrow]
    exact Triple.throw fun _ hw => hw.accepted
  | some buf =>
    have hmoves : Moves (.reading (row :: rows)) conn (parseFrame 0 buf) fun _ => At (.reading rows) conn :=
      parseFrame_moves hrow rows
    rw [Row.frame] at hrow
    rw [hrow]
    exact (stays_check _ _).bind fun _ => hmoves

theorem snapshotTuples_moves (res : PGresult) (rows : List Row) :
    Moves (.reading rows) conn (snapshotTuples res rows) fun _ => At (.reading []) conn := by
  induction rows with
  | nil => exact stays_pure PUnit.unit
  | cons row rows ih => exact Triple.bind (snapshotTuple_moves res row rows) fun _ => ih

theorem stays_execSql {phase : Phase} {query : String} (h : phase.Ignores (.sqlExec query)) :
    Stays phase conn (execSql query) :=
  (stays_askResult h).bind fun _ => stays_check _ _

theorem commit_moves :
    Moves .readToEnd conn (execSql "COMMIT") fun _ => At .committed conn := by
  unfold execSql
  refine Triple.bind (askResult_moves (fun res =>
    if resultStatus res = .commandOk then .committed else .failed) ?_ ?_) fun res => ?_
  · intro reply hne
    cases reply with
    | result res => exact absurd rfl (hne res)
    | _ => rfl
  · exact fun res => by simp [Phase.entry, through, step?, Phase.next]
  · by_cases hres : resultStatus res = .commandOk
    · rw [if_pos hres]
      exact stays_check _ _
    · rw [if_neg hres, decide_eq_false hres]
      exact Triple.throw fun _ hw => hw.accepted

theorem snapshotEnd_moves : Moves .readToEnd conn snapshotEnd fun _ => At .reported false := by
  unfold snapshotEnd
  refine Triple.bind commit_moves fun _ => ?_
  refine (Triple.modify (Q := fun _ => At .committed false) fun _ hw => ⟨hw.path, rfl⟩).bind fun _ => ?_
  exact moves_get fun w => callback_moves fun _ => rfl

/-- The result of `PQgetResult` decides the phase. -/
def afterResult : Option PGresult → Phase
  | none => .readToEnd
  | some res => if ResultOk res then .reading res.values else .failed

/-- One round of the snapshot: back for the next result, or all of it reported. -/
theorem snapshotPoll_moves :
    Moves (.reading []) conn snapshotPoll fun _ w => At (.reading []) conn w ∨ At .reported false w := by
  unfold snapshotPoll
  refine Triple.bind (askResult_moves afterResult ?_ ?_) fun res => ?_
  · intro reply hne
    cases reply with
    | result res => exact absurd rfl (hne res)
    | _ => rfl
  · exact fun res => by cases res <;> rfl
  · cases res with
    | none => exact Triple.post snapshotEnd_moves fun _ _ hw => Or.inr hw
    | some res =>
      by_cases hok : ResultOk res
      · rw [afterResult, if_pos hok]
        refine (stays_check _ _).bind fun _ => ?_
        exact Triple.post (snapshotTuples_moves res res.values) fun _ _ hw => Or.inl hw
      · rw [afterResult, if_neg hok]
        exact (check_rule fun _ hw _ => hw.accepted).bind fun _ _ hw =>
          absurd (of_decide_eq_true hw.2) hok

end Snapshot

/-! ### Whole runs -/

/-- Where the client is between two calls. -/
inductive Between (w : World) : Prop
  | reading (h : At (.reading []) true w)
  | streaming (h : At .streaming false w)
  | resuming (h : At .resuming false w)

theorem replicationStreamStart_moves {phase phase' : Phase} {conn : Bool}
    (h : ∀ slotName startLsn reply,
      phase.entry (.replExec (.startReplication slotName startLsn), reply) = some phase') :
    Moves phase conn replicationStreamStart fun _ => At phase' conn := by
  unfold replicationStreamStart
  refine moves_get fun w => ?_
  exact (askResult_rule (Q := fun _ => At phase' conn) (fun _ hw => hw.accepted)
    (fun _ reply replies hw _ => (hw.replied (h _ _ reply) replies).accepted)
    fun _ res replies hw => hw.replied (h _ _ (.result res)) replies).bind fun _ => stays_check _ _

theorem dbClientPoll_between : Triple Between dbClientPoll (fun _ => Between) fun _ => Accepted := by
  unfold dbClientPoll
  refine Triple.get fun w hw => ?_
  have hstream : ∀ {phase : Phase}, phase.Streams → At phase false w →
      (∀ w', At phase false w' → Between w') →
      Triple (· = w) (replicationStreamPoll >>= fun _ =>
        modifyClient fun c => { c with status := c.streamStatus }) (fun _ => Between)
        fun _ => Accepted := by
    intro phase hphase hat hbetween
    refine Triple.conseq (P := At phase false) (Q := fun _ => At phase false) (E := fun _ => Accepted)
      ?_ (by rintro _ rfl; exact hat) (fun _ => hbetween) fun _ _ h => h
    exact (stays_replicationStreamPoll hphase).bind fun _ => stays_modifyClient (by exact fun _ => rfl)
  cases hw with
  | streaming h =>
    rw [h.sqlConn]
    exact hstream streams_streaming h fun _ => .streaming
  | resuming h =>
    rw [h.sqlConn]
    exact hstream streams_resuming h fun _ => .resuming
  | reading h =>
    rw [h.sqlConn]
    refine Triple.pre (P := At (.reading []) true) ?_ (by rintro _ rfl; exact h)
    refine (stays_askFlag fun _ => rfl).bind fun busy => Triple.ite (fun _ => ?_) fun _ => ?_
    · exact Triple.post (stays_modifyClient (by exact fun _ => rfl)) fun _ _ hw => .reading hw
    · refine Triple.bind snapshotPoll_moves fun _ => ?_
      refine (Triple.modify (Q := fun _ w => At (.reading []) true w ∨ At .reported false w) ?_).bind
        fun _ => Triple.get fun w hw => ?_
      · exact fun w hw => hw.imp (fun h => ⟨h.path, h.sqlConn⟩) fun h => ⟨h.path, h.sqlConn⟩
      · -- `sql_conn` tells the two outcomes apart
        rcases hw with hw | hw
        · rw [hw.sqlConn]
          refine Triple.pure ?_
          rintro _ rfl
          exact .reading hw
        · rw [hw.sqlConn]
          have hstart : Moves .reported false replicationStreamStart fun _ => At .streaming false :=
            replicationStreamStart_moves fun _ _ _ => rfl
          refine Triple.conseq hstart ?_ (fun _ _ h => .streaming h) fun _ _ h => h
          rintro _ rfl
          exact hw

theorem stays_clientConnect {phase : Phase} {conn : Bool} :
    Moves phase conn clientConnect fun _ => At phase true := by
  unfold clientConnect
  refine moves_get fun w => (stays_check _ _).bind fun _ => (stays_check _ _).bind fun _ => ?_
  refine (stays_askFlag fun _ => rfl).bind fun _ => ?_
  refine (Triple.modify (Q := fun _ => At phase true) fun _ hw => ⟨hw.path, rfl⟩).bind fun _ => ?_
  refine (stays_check _ _).bind fun _ => (stays_askFlag fun _ => rfl).bind fun _ => ?_
  exact (stays_check _ _).bind fun _ => (stays_askFlag fun _ => rfl).bind fun _ => stays_check _ _

theorem stays_replicationStreamCheck {phase : Phase} {conn : Bool} :
    Stays phase conn replicationStreamCheck := by
  unfold replicationStreamCheck
  refine (stays_askResult fun _ => rfl).bind fun res => ?_
  cases res with
  | none => exact stays_throw _
  | some res =>
    exact (stays_check _ _).bind fun _ => (stays_check _ _).bind fun _ => stays_check _ _

/-- The answer about the slot decides between the two ways to start. -/
theorem replicationSlotExists_moves {conn : Bool} :
    Moves .connecting conn replicationSlotExists fun found =>
      At (if found then .resuming else .absent) conn := by
  unfold replicationSlotExists
  refine moves_get fun w => (stays_check _ _).bind fun _ => ?_
  refine Triple.bind (askResult_moves (fun res =>
    if slotFound res then .resuming else .absent) ?_ fun _ => rfl) fun res => ?_
  · intro reply hne
    cases reply with
    | result res => exact absurd rfl (hne res)
    | _ => rfl
  · cases res with
    | none => exact Triple.throw fun _ hw => hw.accepted
    | some res =>
      refine Triple.bind (stays_check _ _) fun _ => ?_
      cases hvalue : res.getvalue 0 0 with
      | none =>
        have hfound : slotFound (some res) = false := by simp [slotFound, hvalue]
        rw [hfound]
        exact stays_pure false
      | some restartLsn =>
        have hfound : slotFound (some res) = true := by simp [slotFound, hvalue]
        simp only [hfound]
        cases sscanfLsn restartLsn with
        | none => exact Triple.throw fun _ hw => hw.accepted
        | some startLsn =>
          exact (stays_modifyClient (by exact fun _ => rfl)).bind fun _ => stays_pure true

theorem stays_replicationSlotCreate {phase : Phase} {conn : Bool} :
    Stays phase conn replicationSlotCreate := by
  unfold replicationSlotCreate
  refine moves_get fun w => (stays_check _ _).bind fun _ => (stays_check _ _).bind fun _ => ?_
  refine (stays_askResult fun _ => rfl).bind fun res => ?_
  cases res with
  | none => exact stays_throw _
  | some res =>
    refine (stays_check _ _).bind fun _ => (stays_check _ _).bind fun _ => ?_
    split
    · split
      · exact stays_throw _
      · exact stays_modifyClient (by exact fun _ => rfl)
    · exact stays_throw _

/-- `SET TRANSACTION SNAPSHOT` is not the `COMMIT` that ends the snapshot. -/
theorem setTransactionSnapshot_ne_commit (snapshotName : List UInt8) :
    setTransactionSnapshot snapshotName ≠ "COMMIT" := by
  have hlong : "SET TRANSACTION SNAPSHOT '".length ≤ (setTransactionSnapshot snapshotName).length := by
    delta setTransactionSnapshot
    simp only [String.length_append, Nat.add_assoc, Nat.le_add_right]
  intro h
  rw [h] at hlong
  exact absurd hlong (by decide)

theorem snapshotStart_moves {conn : Bool} :
    Moves .absent conn snapshotStart fun _ => At (.reading []) conn := by
  unfold snapshotStart
  have hquery : ∀ {query : String}, query ≠ "COMMIT" → Phase.absent.Ignores (.sqlExec query) := by
    intro query hne reply
    cases reply with
    | result res => simp [Phase.entry, through, step?, hne]
    | _ => rfl
  refine moves_get fun w => (stays_check _ _).bind fun _ => ?_
  refine (stays_execSql (hquery (by decide))).bind fun _ => ?_
  refine (stays_execSql (hquery (by decide))).bind fun _ => ?_
  refine (stays_execSql (hquery (setTransactionSnapshot_ne_commit _))).bind fun _ => ?_
  refine (stays_askFlag fun _ => rfl).bind fun _ => (stays_check _ _).bind fun _ => ?_
  refine (stays_askFlag fun _ => rfl).bind fun _ => (stays_check _ _).bind fun _ => ?_
  exact callback_moves fun _ => rfl

theorem dbClientStart_between :
    Triple (At .connecting false) dbClientStart (fun _ => Between) fun _ => Accepted := by
  unfold dbClientStart
  refine Triple.bind stays_clientConnect fun _ => stays_replicationStreamCheck.bind fun _ => ?_
  refine Triple.bind replicationSlotExists_moves fun slotExists => ?_
  cases slotExists with
  | true =>
    refine (Triple.modify (Q := fun _ => At .resuming false) fun _ hw => ⟨hw.path, rfl⟩).bind fun _ => ?_
    refine (Triple.modify (Q := fun _ => At .resuming false) fun _ hw => ⟨hw.path, hw.sqlConn⟩).bind
      fun _ => ?_
    exact (replicationStreamStart_moves fun _ _ _ => rfl).post fun _ _ hw => .resuming hw
  | false =>
    refine (Triple.modify (Q := fun _ => At .absent true) fun _ hw => ⟨hw.path, hw.sqlConn⟩).bind
      fun _ => stays_replicationSlotCreate.bind fun _ => ?_
    exact Triple.post snapshotStart_moves fun _ _ hw => .reading hw

/-- What `main` does with a client that has started. -/
inductive Operation
  | poll
  | wait
  | kafkaPoll
  deriving DecidableEq, Repr

def Operation.exec : Operation → Proc PUnit
  | .poll => dbClientPoll
  | .wait => dbClientWait
  | .kafkaPoll => rdKafkaPoll

def clientLoop : List Operation → Proc PUnit
  | [] => pure ⟨⟩
  | operation :: operations => do
    operation.exec
    clientLoop operations

/-- `db_client_start` followed by the operations of `main`, up to the first error. -/
def clientRun (operations : List Operation) : Proc PUnit := do
  dbClientStart
  clientLoop operations

/-- What keeps every phase keeps the client between two calls. -/
theorem between_of_stays {α : Type} {x : Proc α} (h : ∀ phase conn, Stays phase conn x) :
    Triple Between x (fun _ => Between) fun _ => Accepted := by
  intro w hw
  cases hw with
  | reading hat => exact ((h _ _).post fun _ _ hw => .reading hw) w hat
  | streaming hat => exact ((h _ _).post fun _ _ hw => .streaming hw) w hat
  | resuming hat => exact ((h _ _).post fun _ _ hw => .resuming hw) w hat

theorem stays_dbClientWait {phase : Phase} {conn : Bool} : Stays phase conn dbClientWait := by
  unfold dbClientWait
  refine (stays_ask fun _ => rfl).bind fun reply => ?_
  cases reply with
  | waited err =>
    cases err with
    | none => exact stays_pure PUnit.unit
    | some err => exact stays_throw _
  | _ => exact stays_throw _

theorem clientLoop_between (operations : List Operation) :
    Triple Between (clientLoop operations) (fun _ => Between) fun _ => Accepted := by
  induction operations with
  | nil => exact Triple.pure fun _ hw => hw
  | cons operation operations ih =>
    unfold clientLoop
    refine Triple.bind ?_ fun _ => ih
    cases operation with
    | poll => exact dbClientPoll_between
    | wait => exact between_of_stays fun _ _ => stays_dbClientWait
    | kafkaPoll => exact between_of_stays fun _ _ => stays_rdKafkaPoll

theorem clientRun_between (operations : List Operation) :
    Triple (At .connecting false) (clientRun operations) (fun _ => Between) fun _ => Accepted :=
  dbClientStart_between.bind fun _ => clientLoop_between operations

theorem Between.accepted {w : World} (h : Between w) : Accepted w := by
  cases h with
  | reading h => exact h.accepted
  | streaming h => exact h.accepted
  | resuming h => exact h.accepted

/-! ### `main` -/

theorem ensure_between {x : Proc PUnit} {P : World → Prop}
    (h : Triple P x (fun _ => Between) fun _ => Accepted) :
    Triple P (ensure x) (fun _ => Between) fun _ => Accepted := by
  unfold ensure
  refine Triple.bind (Q := fun
      | none => Between
      | some _ => Accepted) (attempt_rule (h.conseq (fun _ hw => hw) (fun _ _ hw => hw) ?_)) fun err => ?_
  · intro fault w hw
    cases fault <;> exact hw
  · cases err with
    | none => exact Triple.pure fun _ hw => hw
    | some err =>
      rintro w ⟨phase, hpath⟩
      exact exitNicely_moves 1 w ⟨hpath, rfl⟩

theorem mainBody_between : Triple Between mainBody (fun _ => Between) fun _ => Accepted := by
  unfold mainBody
  have hkafka : Triple Between rdKafkaPoll (fun _ => Between) fun _ => Accepted :=
    between_of_stays fun _ _ => stays_rdKafkaPoll
  refine (ensure_between dbClientPoll_between).bind fun _ => Triple.get fun w hw => ?_
  refine Triple.pre (P := Between) (Triple.ite (fun _ => ?_) fun _ => hkafka) (by rintro _ rfl; exact hw)
  exact (ensure_between (between_of_stays fun _ _ => stays_dbClientWait)).bind fun _ => hkafka

theorem mainLoop_between (rounds : Nat) :
    Triple Between (mainLoop rounds) (fun _ => Between) fun _ => Accepted := by
  induction rounds with
  | zero => exact Triple.throw fun _ hw => hw.accepted
  | succ rounds ih =>
    unfold mainLoop
    refine Triple.get fun w hw => Triple.pre (P := Between) ?_ (by rintro _ rfl; exact hw)
    refine Triple.ite (fun _ => ?_) fun _ => Triple.pure fun _ hw => hw
    refine (between_of_stays fun _ _ => stays_askFlag fun _ => rfl).bind fun signalled => ?_
    exact Triple.ite (fun _ => Triple.pure fun _ hw => hw) fun _ => mainBody_between.bind fun _ => ih

theorem main_accepted (rounds : Nat) :
    Triple (At .connecting false) (main rounds) (fun _ => Accepted) fun _ => Accepted := by
  refine (ensure_between dbClientStart_between).bind fun _ => (mainLoop_between rounds).bind fun _ => ?_
  intro w hw
  obtain ⟨phase, hpath⟩ := hw.accepted
  exact exitNicely_moves 0 w ⟨hpath, rfl⟩

end BottledWater.Process
