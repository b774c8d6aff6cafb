/-
# BottledWater.Node.Worker — the consumer of the topic `csvs`.

`lib/worker.js` receives batches of messages from the REST proxy.  For each message `process_message`
opens a database connection, and once it stands takes the first name out of the message and counts the
rows with that name; the callback of `worker_start` logs the outcome.  All of it runs in callbacks, so an
exception is not caught: the handler for `uncaughtException` ends the process.

A message is the JSON form of the Avro value that Bottled Water publishes for a row, or `null` for a row
that was deleted.  Log texts are left out, but the properties read for them are not.
-/
import BottledWater.Ext.Relation
import BottledWater.Lib.Trace
import BottledWater.Lib.Proc

namespace BottledWater.Node

open BottledWater.Lib BottledWater.Lib.Avro BottledWater.Ext BottledWater.Protocol

/-! ## §1 — JavaScript values -/

inductive JsNumber
  | integer (n : Int)
  | float (bits : UInt32)
  | double (bits : UInt64)
  deriving DecidableEq, Repr

/-- A value that `JSON.parse` gives, or `undefined`.  A string is its text in UTF-8. -/
inductive JsValue
  | undefined
  | null
  | boolean (b : Bool)
  | number (n : JsNumber)
  | string (text : Bytes)
  | array (items : List JsValue)
  | object (properties : List (String × JsValue))
  deriving Inhabited, Repr

inductive JsError
  | typeError
  deriving DecidableEq, Repr

/-- `value[property]`, which throws for `undefined` and `null`.  Only objects have the properties that are
read here. -/
def JsValue.get : JsValue → String → Except JsError JsValue
  | .undefined, _ => throw .typeError
  | .null, _ => throw .typeError
  | .object properties, property => pure ((properties.lookup property).getD .undefined)
  | _, _ => pure .undefined

/-- The pieces between the spaces of a text: at least one. -/
def splitSpaces : Bytes → List Bytes
  | [] => [[]]
  | 32 :: rest => [] :: splitSpaces rest
  | c :: rest =>
    match splitSpaces rest with
    | [] => [[c]]
    | piece :: pieces => (c :: piece) :: pieces

/-- `value.split(" ")`, a method of strings only. -/
def JsValue.split : JsValue → Except JsError (List Bytes)
  | .string text => pure (splitSpaces text)
  | _ => throw .typeError

/-! ### The JSON encoding of Avro -/

/-- The name of the branch of a union. -/
def branchName : Schema → String
  | .record name ns _ => ns ++ "." ++ name
  | s => s.name

mutual
/-- A value of a schema as the REST proxy gives it: a union is `null`, or an object with the name of the
branch as its one key. -/
def toJson (link : String → Value → JsValue) : Schema → Value → JsValue
  | .null, _ => .null
  | .boolean, .boolean b => .boolean b
  | .int, .int n => .number (.integer n.toInt)
  | .long, .long n => .number (.integer n.toInt)
  | .float, .float bits => .number (.float bits)
  | .double, .double bits => .number (.double bits)
  | .bytes, .bytes content => .string content
  | .string, .string buffer => .string buffer.dropLast
  | .enum _ symbols, .enum n => .string (symbols.getD n "").toUTF8.data.toList
  | .record _ _ fields, .record vs => .object (fieldsToJson link fields vs)
  | .array s, .array vs => .array (vs.map fun v => toJson link s v)
  | .union branches, .union n v => branchToJson link branches n v
  | .link name, v => link name v
  | _, _ => .undefined

def fieldsToJson (link : String → Value → JsValue) :
    List (String × Schema) → List Value → List (String × JsValue)
  | f :: fs, v :: vs => fieldToJson link f v :: fieldsToJson link fs vs
  | _, _ => []

def fieldToJson (link : String → Value → JsValue) : String × Schema → Value → String × JsValue
  | (name, s), v => (name, toJson link s v)

def branchToJson (link : String → Value → JsValue) : List Schema → Nat → Value → JsValue
  | [], _, _ => .undefined
  | .null :: _, 0, _ => .null
  | s :: _, 0, v => .object [(branchName s, toJson link s v)]
  | _ :: ss, n + 1, v => branchToJson link ss n v
end

/-! ## §2 — the messages of the table `csvs` -/

abbrev VARCHAROID : Oid := 1043

/-- The table of `tables-create.sql`. -/
def csvs (relid relnamespace : Oid) (details : Bytes) : Relation where
  relid := relid
  relname := "csvs"
  relnamespace := relnamespace
  tupdesc :=
    { attrs :=
        [⟨"id", INT8OID, false⟩, ⟨"name", VARCHAROID, false⟩, ⟨"email", VARCHAROID, false⟩,
          ⟨"added", TIMESTAMPOID, false⟩]
      details := details }

/-- What Bottled Water publishes for the table: a value of the schema that it has registered, or no value
for a row that was deleted. -/
def Published (rowSchema : Schema) (m : Option Value) : Prop :=
  ∀ v, m = some v → conforms (fun _ _ => false) rowSchema v = true

/-- The message as the worker receives it. -/
def messageJson (rowSchema : Schema) : Option Value → JsValue
  | none => .null
  | some v => toJson (fun _ _ => .undefined) rowSchema v

/-! ## §3 — the worker -/

/-- What the worker uses of `lib/db.js`: the number of ports, and the addresses that clients are made for. -/
structure Db where
  portsAmount : Nat
  connsUrl : List String

/-- `round_robin_port`. -/
def roundRobinPort (db : Db) (currentPortIndex : Int) : Int :=
  if currentPortIndex < db.portsAmount - 1 then currentPortIndex + 1 else 0

/-- `client_with_index`: the address that the client is made for. -/
def clientWithIndex (db : Db) (portIndex : Int) : Option String :=
  if 0 ≤ portIndex ∧ portIndex < db.connsUrl.length then db.connsUrl[portIndex.toNat]?
  else db.connsUrl[0]?

/-- The callback that a message waits for. -/
inductive JobAwaits
  /-- That of `db_client.connect`. -/
  | connect
  /-- That of `db_client.query`. -/
  | query
  deriving DecidableEq, Repr

/-- The variables of one call of `process_message`. -/
structure Job where
  msg : JsValue
  connUrl : Option String
  fname : Bytes
  awaits : Option JobAwaits
  /-- How often `fn` has been called. -/
  calls : Nat

structure Worker where
  consumed : Nat
  currentPortIndex : Int
  jobs : List Job
  /-- An exception was thrown, and the process has ended. -/
  exited : Bool

inductive WorkerEvent
  /-- `rp_stream` emits `data`. -/
  | data (msgs : List JsValue)
  /-- The callback of `db_client.connect`, with or without an error. -/
  | connect (job : Nat) (err : Bool)
  /-- The callback of `db_client.query`, with an error or with the count of its one row. -/
  | query (job : Nat) (count : Option Nat)

/-- `process_message` up to the call of `db_client.connect`. -/
def processMessage (db : Db) (msg : JsValue) (portIndex : Int) : Job :=
  ⟨msg, clientWithIndex db portIndex, [], some .connect, 0⟩

/-- The body of the loop over a batch. -/
def takeMessage (db : Db) (w : Worker) (msg : JsValue) : Worker :=
  let portIndex := roundRobinPort db w.currentPortIndex
  { w with currentPortIndex := portIndex, jobs := w.jobs ++ [processMessage db msg portIndex] }

/-- The `data` listener. -/
def onData (db : Db) (w : Worker) (msgs : List JsValue) : Worker :=
  msgs.foldl (takeMessage db) { w with consumed := w.consumed + msgs.length }

/-- `msg['name']['string'].split(" ")[0]`. -/
def firstName (msg : JsValue) : Except JsError Bytes := do
  let name ← msg.get "name"
  let text ← name.get "string"
  let names ← text.split
  pure (names.headD [])

/-- What the callback of `worker_start` reads of a message to log it. -/
def loggedFields (msg : JsValue) : Except JsError (JsValue × JsValue) := do
  let name ← msg.get "name"
  let nameText ← name.get "string"
  let email ← msg.get "email"
  let emailText ← email.get "string"
  pure (nameText, emailText)

/-- The callback of `db_client.connect`. -/
def onConnect (w : Worker) (i : Nat) (job : Job) (err : Bool) : Worker :=
  if err then { w with jobs := w.jobs.set i { job with awaits := none, calls := job.calls + 1 } }
  else
    match firstName job.msg with
    | .error _ => { w with jobs := w.jobs.set i { job with awaits := none }, exited := true }
    | .ok fname => { w with jobs := w.jobs.set i { job with awaits := some .query, fname := fname } }

/-- The callback of `db_client.query`, which calls `fn`; with a result, `fn` reads the message. -/
def onQuery (w : Worker) (i : Nat) (job : Job) (count : Option Nat) : Worker :=
  let w := { w with jobs := w.jobs.set i { job with awaits := none, calls := job.calls + 1 } }
  match count with
  | none => w
  | some _ =>
    match loggedFields job.msg with
    | .error _ => { w with exited := true }
    | .ok _ => w

/-- One callback; `none` if it cannot come now. -/
def Worker.step (db : Db) (w : Worker) (e : WorkerEvent) : Option Worker :=
  if w.exited then none
  else
    match e with
    | .data msgs => some (onData db w msgs)
    | .connect i err =>
      match w.jobs[i]? with
      | none => none
      | some job => if job.awaits = some .connect then some (onConnect w i job err) else none
    | .query i count =>
      match w.jobs[i]? with
      | none => none
      | some job => if job.awaits = some .query then some (onQuery w i job count) else none

/-- `worker_start`. -/
def workerStart : Worker := ⟨0, -1, [], false⟩

/-- The batches of a run. -/
def batchesOf (events : List WorkerEvent) : List (List JsValue) :=
  events.filterMap fun
    | .data msgs => some msgs
    | _ => none

/-- No exception was thrown, and when nothing is waited for any more, the callback has been called once
for each message. -/
def Worker.Safe (w : Worker) : Prop :=
  w.exited = false ∧ ((∀ job ∈ w.jobs, job.awaits = none) → ∀ job ∈ w.jobs, job.calls = 1)

/-- The worker survives these batches: it takes up every message, whatever the outcome of connections and
queries and in whatever order they come, and stays safe. -/
def Survives (db : Db) (batches : List (List JsValue)) : Prop :=
  ∀ events w, batchesOf events = batches → run (Worker.step db) workerStart events = some w →
    w.jobs.map Job.msg = batches.flatten ∧ w.Safe

/-! ## §4 — what one callback does -/

/-- The jobs that a batch adds. -/
structure NewJobs (msgs : List JsValue) (jobs : List Job) : Prop where
  msgs : jobs.map Job.msg = msgs
  waiting : ∀ job ∈ jobs, job.awaits = some .connect ∧ job.calls = 0

theorem foldl_takeMessage (db : Db) (msgs : List JsValue) (w : Worker) :
    (msgs.foldl (takeMessage db) w).exited = w.exited ∧
      ∃ new, (msgs.foldl (takeMessage db) w).jobs = w.jobs ++ new ∧ NewJobs msgs new := by
  induction msgs generalizing w with
  | nil => exact ⟨rfl, [], by simp, rfl, by simp⟩
  | cons msg msgs ih =>
    obtain ⟨hexited, new, hjobs, hnew⟩ := ih (takeMessage db w msg)
    refine ⟨hexited, processMessage db msg (roundRobinPort db w.currentPortIndex) :: new, ?_, ?_, ?_⟩
    · rw [List.foldl_cons, hjobs]
      exact List.append_assoc ..
    · rw [List.map_cons, hnew.msgs]
      rfl
    · rintro job hmem
      rcases List.mem_cons.mp hmem with rfl | hmem
      · exact ⟨rfl, rfl⟩
      · exact hnew.waiting job hmem

/-- The callbacks, one constructor for each way they go. -/
inductive Reaction (db : Db) (w : Worker) : WorkerEvent → Worker → Prop
  | data {msgs : List JsValue} {w' : Worker} {new : List Job} (hexited : w'.exited = false)
    (hjobs : w'.jobs = w.jobs ++ new) (hnew : NewJobs msgs new) : Reaction db w (.data msgs) w'
  | refused {i : Nat} {job : Job} (hjob : w.jobs[i]? = some job) (hwait : job.awaits = some .connect) :
    Reaction db w (.connect i true)
      { w with jobs := w.jobs.set i { job with awaits := none, calls := job.calls + 1 } }
  | connected {i : Nat} {job : Job} {fname : Bytes} (hjob : w.jobs[i]? = some job)
    (hwait : job.awaits = some .connect) (hname : firstName job.msg = .ok fname) :
    Reaction db w (.connect i false)
      { w with jobs := w.jobs.set i { job with awaits := some .query, fname := fname } }
  | noName {i : Nat} {job : Job} {e : JsError} (hjob : w.jobs[i]? = some job)
    (hwait : job.awaits = some .connect) (hname : firstName job.msg = .error e) :
    Reaction db w (.connect i false)
      { w with jobs := w.jobs.set i { job with awaits := none }, exited := true }
  | answered {i : Nat} {job : Job} {count : Option Nat} (hjob : w.jobs[i]? = some job)
    (hwait : job.awaits = some .query)
    (hread : count.isSome = true → ∃ fields, loggedFields job.msg = .ok fields) :
    Reaction db w (.query i count)
      { w with jobs := w.jobs.set i { job with awaits := none, calls := job.calls + 1 } }
  | unreadable {i : Nat} {job : Job} {count : Nat} {e : JsError} (hjob : w.jobs[i]? = some job)
    (hwait : job.awaits = some .query) (hread : loggedFields job.msg = .error e) :
    Reaction db w (.query i (some count))
      { w with
        jobs := w.jobs.set i { job with awaits := none, calls := job.calls + 1 }
        exited := true }

theorem reaction_of_step {db : Db} {w w' : Worker} {e : WorkerEvent} (h : w.step db e = some w') :
    w.exited = false ∧ Reaction db w e w' := by
  cases hexited : w.exited with
  | true => simp [Worker.step, hexited] at h
  | false =>
    refine ⟨rfl, ?_⟩
    cases e with
    | data msgs =>
      obtain rfl : onData db w msgs = w' := by simpa [Worker.step, hexited] using h
      obtain ⟨hstill, new, hjobs, hnew⟩ :=
        foldl_takeMessage db msgs { w with consumed := w.consumed + msgs.length }
      exact .data (hstill.trans hexited) hjobs hnew
    | connect i err =>
      cases hjob : w.jobs[i]? with
      | none => simp [Worker.step, hexited, hjob] at h
      | some job =>
        simp only [Worker.step, hexited, hjob, Bool.false_eq_true, if_false,
          Option.ite_none_right_eq_some, Option.some.injEq] at h
        obtain ⟨hwait, rfl⟩ := h
        cases err with
        | true => exact .refused hjob hwait
        | false =>
          cases hname : firstName job.msg with
          | error e =>
            simp only [onConnect, hname]
            exact .noName hjob hwait hname
          | ok fname =>
            simp only [onConnect, hname]
            exact .connected hjob hwait hname
    | query i count =>
      cases hjob : w.jobs[i]? with
      | none => simp [Worker.step, hexited, hjob] at h
      | some job =>
        simp only [Worker.step, hexited, hjob, Bool.false_eq_true, if_false,
          Option.ite_none_right_eq_some, Option.some.injEq] at h
        obtain ⟨hwait, rfl⟩ := h
        cases count with
        | none => exact .answered hjob hwait (by simp)
        | some count =>
          cases hread : loggedFields job.msg with
          | error e =>
            simp only [onQuery, hread]
            exact .unreadable hjob hwait hread
          | ok fields =>
            simp only [onQuery, hread]
            exact .answered hjob hwait fun _ => ⟨fields, hread⟩

/-! ## §5 — readable messages are survived -/

/-- Nothing that is read of the message throws. -/
def Readable (msg : JsValue) : Prop :=
  (∃ fname, firstName msg = .ok fname) ∧ ∃ fields, loggedFields msg = .ok fields

/-- An entry is exchanged for one that looks the same. -/
theorem map_set_same {α β : Type} {f : α → β} {jobs : List α} {i : Nat} {job job' : α}
    (h : jobs[i]? = some job) (hf : f job' = f job) : (jobs.set i job').map f = jobs.map f := by
  obtain ⟨hi, rfl⟩ := List.getElem?_eq_some_iff.mp h
  have hi' : i < (jobs.map f).length := by simpa using hi
  calc (jobs.set i job').map f
      = (jobs.map f).set i (jobs.map f)[i] := by rw [List.map_set, hf, List.getElem_map]
    _ = jobs.map f := List.set_getElem_self hi'

theorem batchesOf_snoc (events : List WorkerEvent) (e : WorkerEvent) :
    batchesOf (events ++ [e]) = batchesOf events ++ batchesOf [e] := by
  simp [batchesOf]

theorem jobs_of_run {db : Db} {events : List WorkerEvent} {w : Worker}
    (h : run (Worker.step db) workerStart events = some w) :
    w.jobs.map Job.msg = (batchesOf events).flatten := by
  refine run_rule (P := fun events w => w.jobs.map Job.msg = (batchesOf events).flatten) rfl ?_ h
  intro events w e w' _ ih hstep
  rw [batchesOf_snoc, List.flatten_append, ← ih]
  cases (reaction_of_step hstep).2 with
  | data _ hjobs hnew => simp [hjobs, hnew.msgs, batchesOf]
  | refused hjob _ => simpa [batchesOf] using map_set_same hjob rfl
  | connected hjob _ _ => simpa [batchesOf] using map_set_same hjob rfl
  | noName hjob _ _ => simpa [batchesOf] using map_set_same hjob rfl
  | answered hjob _ _ => simpa [batchesOf] using map_set_same hjob rfl
  | unreadable hjob _ _ => simpa [batchesOf] using map_set_same hjob rfl

/-- A job of a readable message, which has called back unless it waits. -/
structure Job.Fine (job : Job) : Prop where
  readable : Readable job.msg
  calls : job.calls = if job.awaits = none then 1 else 0

theorem forall_set {jobs : List Job} {P : Job → Prop} (h : ∀ job ∈ jobs, P job) {i : Nat} {job : Job}
    (hjob : P job) : ∀ job' ∈ jobs.set i job, P job' := by
  intro job' hmem
  rcases List.mem_or_eq_of_mem_set hmem with hold | rfl
  · exact h job' hold
  · exact hjob

theorem fine_of_run {db : Db} {events : List WorkerEvent} {w : Worker}
    (h : run (Worker.step db) workerStart events = some w)
    (hreadable : ∀ msg ∈ (batchesOf events).flatten, Readable msg) :
    w.exited = false ∧ ∀ job ∈ w.jobs, job.Fine := by
  refine run_rule (P := fun events w => (∀ msg ∈ (batchesOf events).flatten, Readable msg) →
    w.exited = false ∧ ∀ job ∈ w.jobs, job.Fine) ?_ ?_ h hreadable
  · exact fun _ => ⟨rfl, by simp [workerStart]⟩
  intro events w e w' _ ih hstep hall
  rw [batchesOf_snoc, List.flatten_append] at hall
  obtain ⟨hexited, hfine⟩ := ih fun msg hmem => hall msg (List.mem_append_left _ hmem)
  cases (reaction_of_step hstep).2 with
  | data hstill hjobs hnew =>
    refine ⟨hstill, fun job hmem => ?_⟩
    rw [hjobs] at hmem
    rcases List.mem_append.mp hmem with hold | hadded
    · exact hfine job hold
    · obtain ⟨hwait, hcalls⟩ := hnew.waiting job hadded
      refine ⟨hall job.msg (List.mem_append_right _ ?_), by rw [hcalls, hwait]; simp⟩
      simpa [batchesOf, ← hnew.msgs] using ⟨job, hadded, rfl⟩
  | refused hjob hwait =>
    have hold := hfine _ (List.mem_of_getElem? hjob)
    exact ⟨hexited, forall_set hfine ⟨hold.readable, by simp [hold.calls, hwait]⟩⟩
  | connected hjob hwait _ =>
    have hold := hfine _ (List.mem_of_getElem? hjob)
    exact ⟨hexited, forall_set hfine ⟨hold.readable, by simp [hold.calls, hwait]⟩⟩
  | noName hjob _ hname =>
    obtain ⟨fname, hok⟩ := (hfine _ (List.mem_of_getElem? hjob)).readable.1
    simp [hname] at hok
  | answered hjob hwait _ =>
    have hold := hfine _ (List.mem_of_getElem? hjob)
    exact ⟨hexited, forall_set hfine ⟨hold.readable, by simp [hold.calls, hwait]⟩⟩
  | unreadable hjob _ hread =>
    obtain ⟨fields, hok⟩ := (hfine _ (List.mem_of_getElem? hjob)).readable.2
    simp [hread] at hok

theorem survives_of_readable (db : Db) {batches : List (List JsValue)}
    (h : ∀ msg ∈ batches.flatten, Readable msg) : Survives db batches := by
  rintro events w rfl hrun
  obtain ⟨hexited, hfine⟩ := fine_of_run hrun h
  refine ⟨jobs_of_run hrun, hexited, fun hdone job hmem => ?_⟩
  rw [(hfine job hmem).calls, if_pos (hdone job hmem)]

/-! ## §6 — any other message can end the worker -/

/-- All batches arrive before anything else happens. -/
theorem run_data (db : Db) (batches : List (List JsValue)) {w : Worker} (h : w.exited = false) :
    ∃ w' new, run (Worker.step db) w (batches.map .data) = some w' ∧ w'.exited = false ∧
      w'.jobs = w.jobs ++ new ∧ NewJobs batches.flatten new := by
  induction batches generalizing w with
  | nil => exact ⟨w, [], rfl, h, by simp, rfl, by simp⟩
  | cons batch batches ih =>
    have hstep : w.step db (.data batch) = some (onData db w batch) := by simp [Worker.step, h]
    obtain ⟨hstill, new, hjobs, hnew⟩ :=
      foldl_takeMessage db batch { w with consumed := w.consumed + batch.length }
    obtain ⟨w', new', hrun, hexited, hjobs', hnew'⟩ := ih (w := onData db w batch) (hstill.trans h)
    refine ⟨w', new ++ new', ?_, hexited, ?_, ?_, ?_⟩
    · rw [List.map_cons, run_cons, hstep]
      exact hrun
    · rw [hjobs', onData, hjobs, List.append_assoc]
    · rw [List.map_append, hnew.msgs, hnew'.msgs, List.flatten_cons]
    · intro job hmem
      rcases List.mem_append.mp hmem with hmem | hmem
      · exact hnew.waiting job hmem
      · exact hnew'.waiting job hmem

/-- A connection is made, and with it the first name is read. -/
theorem step_connect (db : Db) {w : Worker} {i : Nat} {job : Job} (hexited : w.exited = false)
    (hjob : w.jobs[i]? = some job) (hwait : job.awaits = some .connect) :
    w.step db (.connect i false) = some (onConnect w i job false) := by
  simp [Worker.step, hexited, hjob, hwait]

theorem step_query (db : Db) {w : Worker} {i : Nat} {job : Job} (hexited : w.exited = false)
    (hjob : w.jobs[i]? = some job) (hwait : job.awaits = some .query) (count : Option Nat) :
    w.step db (.query i count) = some (onQuery w i job count) := by
  simp [Worker.step, hexited, hjob, hwait]

/-- If a message is not readable, its connection and its query only have to succeed. -/
theorem readable_of_survives {db : Db} {batches : List (List JsValue)} (h : Survives db batches) :
    ∀ msg ∈ batches.flatten, Readable msg := by
  intro msg hmsg
  obtain ⟨w, new, hrun, hexited, hjobs, hnew⟩ := run_data db batches (w := workerStart) rfl
  have hmsgs : w.jobs.map Job.msg = batches.flatten := by
    rw [hjobs, ← hnew.msgs]
    rfl
  rw [← hmsgs] at hmsg
  obtain ⟨job, hmem, rfl⟩ := List.mem_map.mp hmsg
  obtain ⟨i, hjob⟩ := List.mem_iff_getElem?.mp hmem
  have hwait : job.awaits = some .connect := by
    refine (hnew.waiting job ?_).1
    rw [hjobs] at hmem
    simpa [workerStart] using hmem
  -- what the run would be if something of the message could not be read
  have hsafe : ∀ events w', batchesOf events = [] →
      run (Worker.step db) w events = some w' → w'.exited = false := by
    intro events w' hnone hrest
    refine (h (batches.map .data ++ events) w' ?_ ?_).2.1
    · have hsplit : batchesOf (batches.map .data ++ events) = batchesOf (batches.map .data) ++ batchesOf events :=
        List.filterMap_append
      rw [hsplit, hnone, List.append_nil]
      simp [batchesOf, List.filterMap_map]
    · rw [run_append, hrun]
      exact hrest
  have hconnect := step_connect db hexited hjob hwait
  have hname : ∃ fname, firstName job.msg = .ok fname := by
    cases hname : firstName job.msg with
    | ok fname => exact ⟨fname, rfl⟩
    | error e =>
      rw [onConnect, hname] at hconnect
      have hcrash := hsafe [.connect i false] _ rfl (by rw [run_cons, hconnect]; rfl)
      simp at hcrash
  refine ⟨hname, ?_⟩
  obtain ⟨fname, hname⟩ := hname
  cases hread : loggedFields job.msg with
  | ok fields => exact ⟨fields, rfl⟩
  | error e =>
    have hi := (List.getElem?_eq_some_iff.mp hjob).1
    simp only [onConnect, hname, Bool.false_eq_true, if_false] at hconnect
    have hquery := step_query db (w := { w with
        jobs := w.jobs.set i { job with awaits := some .query, fname := fname } }) hexited
      (List.getElem?_set_self hi) rfl (some 0)
    simp only [onQuery, hread] at hquery
    have hcrash := hsafe [.connect i false, .query i (some 0)] _ rfl (by
      rw [run_cons, hconnect, Option.bind_some, run_cons, hquery]
      rfl)
    simp at hcrash

/-! ## §7 — which messages are readable -/

/-- A message for a row, not a deletion, with a name and an email. -/
def NameAndEmail (m : Option Value) : Prop :=
  ∃ id name email added, m = some (.record [id, .union 1 name, .union 1 email, added])

/-- A text column is null or a string. -/
theorem conforms_nullOr_string {link : String → Value → Bool} {v : Value}
    (h : conforms link (.union [.null, .string]) v = true) :
    v = .union 0 .null ∨ ∃ buffer, v = .union 1 (.string buffer) := by
  cases v with
  | union n v =>
    -- there are two branches, and each takes the values of one constructor
    cases n with
    | zero => cases v <;> simp_all [conforms, conformsBranch]
    | succ n =>
      cases n with
      | zero => cases v <;> simp_all [conforms, conformsBranch]
      | succ n => simp [conforms, conformsBranch] at h
  | _ => simp [conforms] at h

section Csvs

variable {namespaces : Namespaces} {relid relnamespace : Oid} {details : Bytes}

/-- The Avro library takes the names of the table. -/
theorem csvs_avroNames : (csvs relid relnamespace details).AvroNames where
  relname := show isAvroId "csvs" by decide
  attnames := show ∀ column ∈ [("id", INT8OID), ("name", VARCHAROID), ("email", VARCHAROID),
    ("added", TIMESTAMPOID)], isAvroId column.1 by decide

/-- The schema that is generated for the table. -/
theorem schema_csvs :
    (csvs relid relnamespace details).schema namespaces =
      .record "csvs" (generatedSchemaNamespace ++ "." ++ namespaces relnamespace)
        [("id", .union [.null, .long]), ("name", .union [.null, .string]),
          ("email", .union [.null, .string]), ("added", (schemaForTimestamp .none false).1)] := rfl

/-- A published row has the four columns, with name and email null or a string. -/
theorem published_row {v : Value}
    (h : conforms (fun _ _ => false) ((csvs relid relnamespace details).schema namespaces) v = true) :
    ∃ id name email added, v = .record [id, name, email, added] ∧
      (name = .union 0 .null ∨ ∃ buffer, name = .union 1 (.string buffer)) ∧
      (email = .union 0 .null ∨ ∃ buffer, email = .union 1 (.string buffer)) := by
  rw [schema_csvs] at h
  cases v with
  | record vs =>
    match vs with
    | [id, name, email, added] =>
      rw [conforms] at h
      simp only [conformsFields, conformsField, Bool.and_eq_true] at h
      obtain ⟨-, hname, hemail, -⟩ := h
      exact ⟨id, name, email, added, rfl, conforms_nullOr_string hname, conforms_nullOr_string hemail⟩
    | [] => simp [conforms, conformsFields] at h
    | [_] => simp [conforms, conformsFields] at h
    | [_, _] => simp [conforms, conformsFields] at h
    | [_, _, _] => simp [conforms, conformsFields] at h
    | _ :: _ :: _ :: _ :: _ :: _ => simp [conforms, conformsFields] at h
  | _ => simp [conforms] at h

/-- The JSON form of a row. -/
def rowJson (id name email added : JsValue) : JsValue :=
  .object [("id", id), ("name", name), ("email", email), ("added", added)]

/-- The JSON form of a text column that is null or not. -/
def textJson : Value → JsValue
  | .union 1 (.string buffer) => .object [("string", .string buffer.dropLast)]
  | _ => .null

theorem messageJson_row (id added : Value) {name email : Value}
    (hname : name = .union 0 .null ∨ ∃ buffer, name = .union 1 (.string buffer))
    (hemail : email = .union 0 .null ∨ ∃ buffer, email = .union 1 (.string buffer)) :
    ∃ idJson addedJson,
      messageJson ((csvs relid relnamespace details).schema namespaces)
          (some (.record [id, name, email, added])) =
        rowJson idJson (textJson name) (textJson email) addedJson := by
  rw [schema_csvs]
  simp only [messageJson, toJson, fieldsToJson, fieldToJson, rowJson]
  rcases hname with rfl | ⟨buffer, rfl⟩ <;> rcases hemail with rfl | ⟨buffer', rfl⟩ <;>
    exact ⟨_, _, rfl⟩

/-- **Which messages the worker can read.**  Of what is published for the table, those with a row, a name
and an email. -/
theorem readable_iff {m : Option Value}
    (h : Published ((csvs relid relnamespace details).schema namespaces) m) :
    Readable (messageJson ((csvs relid relnamespace details).schema namespaces) m) ↔
      NameAndEmail m := by
  cases m with
  | none =>
    have hthrows : firstName .null = .error .typeError := rfl
    simp [Readable, NameAndEmail, messageJson, hthrows]
  | some v =>
    obtain ⟨id, name, email, added, rfl, hname, hemail⟩ := published_row (h v rfl)
    obtain ⟨idJson, addedJson, hjson⟩ := messageJson_row id added hname hemail
    rw [hjson]
    rcases hname with rfl | ⟨name, rfl⟩
    · -- `msg['name']` is null
      have hthrows : firstName (rowJson idJson (textJson (.union 0 .null)) (textJson email) addedJson) =
          .error .typeError := rfl
      refine iff_of_false ?_ ?_
      · rintro ⟨⟨fname, hok⟩, -⟩
        simp [hthrows] at hok
      · rintro ⟨_, _, _, _, hrow⟩
        simp at hrow
    · rcases hemail with rfl | ⟨email, rfl⟩
      · -- the first name can be read, but not the email that is logged
        have hthrows : loggedFields (rowJson idJson (textJson (.union 1 (.string name)))
            (textJson (.union 0 .null)) addedJson) = .error .typeError := rfl
        refine iff_of_false ?_ ?_
        · rintro ⟨-, fields, hok⟩
          simp [hthrows] at hok
        · rintro ⟨_, _, _, _, hrow⟩
          simp at hrow
      · exact ⟨fun _ => ⟨_, _, _, _, rfl⟩, fun _ => ⟨⟨_, rfl⟩, ⟨_, rfl⟩⟩⟩

/-- **The worker survives exactly the messages with a name and an email.**  Whatever the number of
batches, the outcome of connections and queries, and their order. -/
theorem worker_survives_iff (db : Db) {schema : Schema}
    (hschema : schemaForTableRow namespaces (csvs relid relnamespace details) = .ok (some schema))
    (batches : List (List (Option Value))) (h : ∀ m ∈ batches.flatten, Published schema m) :
    Survives db (batches.map (·.map (messageJson schema))) ↔ ∀ m ∈ batches.flatten, NameAndEmail m := by
  obtain rfl : schema = (csvs relid relnamespace details).schema namespaces := by
    rw [csvs_avroNames.schemaForTableRow_eq] at hschema
    exact (Option.some.inj (Except.ok.inj hschema)).symm
  set json := messageJson ((csvs relid relnamespace details).schema namespaces)
  have hflatten : (batches.map (·.map json)).flatten = batches.flatten.map json := by
    rw [List.map_flatten]
  constructor
  · intro hsurvives m hm
    refine (readable_iff (h m hm)).mp (readable_of_survives hsurvives _ ?_)
    rw [hflatten]
    exact List.mem_map_of_mem hm
  · intro hrows
    refine survives_of_readable db fun msg hmsg => ?_
    rw [hflatten] at hmsg
    obtain ⟨m, hm, rfl⟩ := List.mem_map.mp hmsg
    exact (readable_iff (h m hm)).mpr (hrows m hm)

end Csvs

/-- A row with name and email. -/
def ada : Value :=
  .record [.union 1 (.long 1), .union 1 (.string [65, 100, 97, 0]), .union 1 (.string [97, 64, 98, 0]),
    .union 2 (.enum 0)]

/-- A row whose name is null, as COPY makes it of an empty field. -/
def nameless : Value :=
  .record [.union 1 (.long 2), .union 0 .null, .union 1 (.string [97, 64, 98, 0]), .union 2 (.enum 0)]

theorem worker_survives_ada :
    Survives ⟨1, ["postgres://localhost:6432/test"]⟩
      [[messageJson ((csvs 16384 2200 []).schema fun _ => "public") (some ada)]] := by
  refine (worker_survives_iff ⟨1, ["postgres://localhost:6432/test"]⟩ (csvs_avroNames.schemaForTableRow_eq _)
    [[some ada]] ?_).mpr ?_
  · intro m hm v hv
    obtain rfl : m = some ada := by simpa using hm
    obtain rfl := Option.some.inj hv
    decide
  · intro m hm
    obtain rfl : m = some ada := by simpa using hm
    exact ⟨_, _, _, _, rfl⟩

/-- A row without a name ends the worker, and so does the message for a deleted row. -/
theorem worker_ends :
    schemaForTableRow (fun _ => "public") (csvs 16384 2200 []) =
      .ok (some ((csvs 16384 2200 []).schema fun _ => "public")) ∧
    Published ((csvs 16384 2200 []).schema fun _ => "public") (some nameless) ∧
    Published ((csvs 16384 2200 []).schema fun _ => "public") none ∧
    ∀ m ∈ [some nameless, none],
      (run (Worker.step ⟨1, ["postgres://localhost:6432/test"]⟩) workerStart
        [.data [messageJson ((csvs 16384 2200 []).schema fun _ => "public") m],
          .connect 0 false]).map Worker.exited = some true := by
  refine ⟨csvs_avroNames.schemaForTableRow_eq _, ?_, fun v hv => by simp at hv, ?_⟩
  · intro v hv
    obtain rfl := Option.some.inj hv
    decide
  · intro m hm
    simp only [List.mem_cons, List.not_mem_nil, or_false] at hm
    rcases hm with rfl | rfl
    · rfl
    · rfl

end BottledWater.Node
