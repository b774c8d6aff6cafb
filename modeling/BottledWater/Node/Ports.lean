/-
# BottledWater.Node.Ports — how the worker spreads its connections over the ports.

`lib/db.js` makes one connection URL for each port in the environment variable `DB_PORT`, and for each
message the worker takes the next of them, starting again after the last.  So the message with number
`k` is processed over entry `k mod p` of the `p` entries (`connections_spread`), and every entry gets its
share.  An entry that is written twice gets two shares: the ports then have different numbers of
connections (`port_listed_twice`).
-/
import BottledWater.Node.Worker
import Mathlib.Data.Int.CardIntervalMod

namespace BottledWater.Node

open BottledWater.Lib BottledWater.Lib.Avro

/-! ## §1 — `lib/db.js` -/

/-- The parameters of the database, from the environment or the configuration. -/
structure DbConfig where
  database : String
  user : String
  password : String
  host : String
  /-- `config.db.port`. -/
  port : String

/-- The address of the database at a port. -/
def DbConfig.connUrl (config : DbConfig) (port : String) : String :=
  "postgres://" ++ config.user ++ ":" ++ config.password ++ "@" ++ config.host ++ ":" ++ port ++ "/" ++
    config.database

/-- The fields `ports` and `conns_url` of `db_params`. -/
structure DbParams where
  ports : List String
  connsUrl : List String

/-- Both fields get an entry. -/
def DbParams.push (config : DbConfig) (params : DbParams) (port : String) : DbParams :=
  ⟨params.ports ++ [port], params.connsUrl ++ [config.connUrl port]⟩

/-- `String(text).split(',')`. -/
def splitCommas (text : String) : List String := (text.toList.splitOn ',').map String.ofList

/-- The body of the loop over the pieces: empty ones are skipped. -/
def takePort (config : DbConfig) (params : DbParams) (port : String) : DbParams :=
  if port = "" then params else params.push config port

/-- `db_params` for the value of `DB_PORT`, if there is one. -/
def dbParams (config : DbConfig) (dbPort : Option String) : DbParams :=
  match dbPort with
  | some text =>
    if text = "" then (DbParams.mk [] []).push config config.port
    else (splitCommas text).foldl (takePort config) ⟨[], []⟩
  | none => (DbParams.mk [] []).push config config.port

/-- What the worker uses of the module. -/
def DbParams.db (params : DbParams) : Db := ⟨params.ports.length, params.connsUrl⟩

/-- **`portEntries text`** — the entries of a list of ports with commas between them, without the empty
ones. -/
def portEntries (text : String) : List String := (splitCommas text).filter (· ≠ "")

theorem foldl_takePort (config : DbConfig) (pieces : List String) (params : DbParams) :
    pieces.foldl (takePort config) params =
      ⟨params.ports ++ pieces.filter (· ≠ ""),
        params.connsUrl ++ (pieces.filter (· ≠ "")).map config.connUrl⟩ := by
  induction pieces generalizing params with
  | nil => simp
  | cons piece pieces ih =>
    rw [List.foldl_cons, ih, takePort]
    by_cases hempty : piece = ""
    · simp [hempty]
    · simp [hempty, DbParams.push]

/-- There is one URL for each entry, in their order. -/
theorem dbParams_of_entries (config : DbConfig) {text : String} (h : portEntries text ≠ []) :
    dbParams config (some text) = ⟨portEntries text, (portEntries text).map config.connUrl⟩ := by
  have hne : text ≠ "" := by
    rintro rfl
    exact h (by decide)
  rw [dbParams, if_neg hne, foldl_takePort]
  rfl

/-- `ports_amount` is the number of URLs, whatever `DB_PORT` is. -/
theorem length_ports (config : DbConfig) (dbPort : Option String) :
    (dbParams config dbPort).ports.length = (dbParams config dbPort).connsUrl.length := by
  cases dbPort with
  | none => rfl
  | some text =>
    simp only [dbParams]
    split
    · rfl
    · rw [foldl_takePort]
      simp

theorem connUrl_injective (config : DbConfig) {x y : String} (h : config.connUrl x = config.connUrl y) :
    x = y := by
  have hbehind := (String.append_left_inj _).mp ((String.append_left_inj _).mp h)
  exact (String.append_right_inj _).mp hbehind

/-! ## §2 — taking turns -/

/-- The value of `current_port_index` after the given number of messages. -/
def portIndexAfter (p : Nat) : Nat → Int
  | 0 => -1
  | n + 1 => (n % p : Nat)

section

variable {db : Db} (hports : db.portsAmount = db.connsUrl.length) (hpos : 0 < db.connsUrl.length)

include hports hpos

/-- The next index is that of the message with the number of messages before it. -/
theorem roundRobinPort_eq (n : Nat) :
    roundRobinPort db (portIndexAfter db.connsUrl.length n) = (n % db.connsUrl.length : Nat) := by
  cases n with
  | zero =>
    have hfirst : (-1 : Int) < (db.connsUrl.length : Int) - 1 := by omega
    rw [portIndexAfter, roundRobinPort, hports, if_pos hfirst, Nat.zero_mod]
    rfl
  | succ n =>
    have hlt := Nat.mod_lt n hpos
    have hdiv := Nat.div_add_mod n db.connsUrl.length
    rw [portIndexAfter, roundRobinPort, hports]
    split
    · case isTrue hnext =>
      have hsucc : n % db.connsUrl.length + 1 < db.connsUrl.length := by omega
      rw [← Nat.mod_add_mod, Nat.mod_eq_of_lt hsucc]
      rfl
    · case isFalse hlast =>
      -- the last index is followed by the first
      have hsucc : n % db.connsUrl.length + 1 = db.connsUrl.length := by omega
      rw [← Nat.mod_add_mod, hsucc, Nat.mod_self]
      rfl

omit hports in
theorem clientWithIndex_eq (n : Nat) :
    clientWithIndex db (n % db.connsUrl.length : Nat) = db.connsUrl[n % db.connsUrl.length]? := by
  have hlt := Nat.mod_lt n hpos
  rw [clientWithIndex, if_pos ⟨by omega, by omega⟩, Int.toNat_natCast]

/-- **`Worker.Turns db w`** — each message so far had its turn, and the index is that of the last. -/
structure Worker.Turns (db : Db) (w : Worker) : Prop where
  urls : w.jobs.map Job.connUrl =
    (List.range w.jobs.length).map fun k => db.connsUrl[k % db.connsUrl.length]?
  index : w.currentPortIndex = portIndexAfter db.connsUrl.length w.jobs.length

theorem turns_of_takeMessage {w : Worker} (h : w.Turns db) (msg : JsValue) : (takeMessage db w msg).Turns db := by
  have hport := roundRobinPort_eq hports hpos w.jobs.length
  rw [← h.index] at hport
  refine ⟨?_, ?_⟩
  · simp only [takeMessage, processMessage, hport, clientWithIndex_eq hpos, List.map_append,
      List.length_append, List.length_singleton, List.range_succ, h.urls, List.map_singleton]
  · simp only [takeMessage, hport, List.length_append, List.length_singleton, portIndexAfter]

theorem turns_of_onData {w : Worker} (h : w.Turns db) (msgs : List JsValue) : (onData db w msgs).Turns db := by
  have hfold (w : Worker) (h : w.Turns db) : (msgs.foldl (takeMessage db) w).Turns db := by
    induction msgs generalizing w with
    | nil => exact h
    | cons msg msgs ih => exact ih _ (turns_of_takeMessage hports hpos h msg)
  exact hfold _ ⟨h.urls, h.index⟩

omit hports hpos in
/-- What a callback does to a job leaves the turns as they are. -/
theorem Worker.Turns.set {w w' : Worker} (h : w.Turns db) {i : Nat} {job job' : Job}
    (hjob : w.jobs[i]? = some job) (hjobs : w'.jobs = w.jobs.set i job')
    (hurl : job'.connUrl = job.connUrl) (hindex : w'.currentPortIndex = w.currentPortIndex) :
    w'.Turns db := by
  refine ⟨?_, ?_⟩
  · rw [hjobs, map_set_same hjob hurl, List.length_set]
    exact h.urls
  · rw [hindex, hjobs, List.length_set]
    exact h.index

/-- **Every run of the worker takes the ports in turn.** -/
theorem turns_of_run {events : List WorkerEvent} {w : Worker}
    (hrun : run (Worker.step db) workerStart events = some w) : w.Turns db := by
  apply run_rule (P := fun _ w => w.Turns db) ⟨rfl, rfl⟩ ?_ hrun
  intro events w e w' _ ih hstep
  obtain ⟨hexited, hreaction⟩ := reaction_of_step hstep
  cases hreaction with
  | @data msgs =>
    obtain rfl : onData db w msgs = w' := by simpa [Worker.step, hexited] using hstep
    exact turns_of_onData hports hpos ih msgs
  | refused hjob _ => exact ih.set hjob rfl rfl rfl
  | connected hjob _ _ => exact ih.set hjob rfl rfl rfl
  | noName hjob _ _ => exact ih.set hjob rfl rfl rfl
  | answered hjob _ _ => exact ih.set hjob rfl rfl rfl
  | unreadable hjob _ _ => exact ih.set hjob rfl rfl rfl

end

/-! ## §3 — connections and ports -/

/-- The number of connections that were made to a port. -/
def Worker.connectionsTo (config : DbConfig) (w : Worker) (port : String) : Nat :=
  (w.jobs.map Job.connUrl).count (some (config.connUrl port))

section

variable {config : DbConfig} {text : String} {w : Worker}

/-- The turns of the worker, in terms of the entries. -/
theorem connUrl_of_turns (h : w.Turns ⟨(portEntries text).length, (portEntries text).map config.connUrl⟩) {k : Nat} {job : Job}
    (hne : portEntries text ≠ []) (hjob : w.jobs[k]? = some job) :
    ∃ port, (portEntries text)[k % (portEntries text).length]? = some port ∧
      job.connUrl = some (config.connUrl port) := by
  have hk : k < w.jobs.length := (List.getElem?_eq_some_iff.mp hjob).1
  have hlt := Nat.mod_lt k (List.length_pos_iff.mpr hne)
  have hurl := congrArg (·[k]?) h.urls
  simp only [List.getElem?_map, hjob, Option.map_some, List.getElem?_range hk, List.length_map] at hurl
  refine ⟨(portEntries text)[k % (portEntries text).length], List.getElem?_eq_getElem hlt, ?_⟩
  rw [List.getElem?_eq_getElem hlt] at hurl
  exact Option.some.inj hurl

/-- An entry gets every round of turns once, and the last if it comes before the end. -/
theorem connectionsTo_eq (h : w.Turns ⟨(portEntries text).length, (portEntries text).map config.connUrl⟩)
    (hnodup : (portEntries text).Nodup) {j : Nat} {port : String}
    (hport : (portEntries text)[j]? = some port) :
    w.connectionsTo config port = w.jobs.length / (portEntries text).length +
      if j < w.jobs.length % (portEntries text).length then 1 else 0 := by
  obtain ⟨hj, rfl⟩ := List.getElem?_eq_some_iff.mp hport
  have hpos : 0 < (portEntries text).length := Nat.lt_of_le_of_lt (Nat.zero_le j) hj
  -- a message goes to this entry exactly if its number leaves this remainder
  have hturn (k : Nat) : ((portEntries text).map config.connUrl)[k % (portEntries text).length]? =
        some (config.connUrl (portEntries text)[j]) ↔ k ≡ j [MOD (portEntries text).length] := by
    have hlt := Nat.mod_lt k hpos
    rw [List.getElem?_map, List.getElem?_eq_getElem hlt, Option.map_some, Option.some.injEq, Nat.ModEq,
      Nat.mod_eq_of_lt hj]
    constructor
    · intro hurl
      exact (List.Nodup.getElem_inj_iff hnodup).mp (connUrl_injective config hurl)
    · rintro hmod
      simp only [hmod]
  have hcount : w.connectionsTo config (portEntries text)[j] =
      w.jobs.length.count (· ≡ j [MOD (portEntries text).length]) := by
    rw [Worker.connectionsTo, h.urls, List.count, List.countP_map]
    apply List.countP_congr
    intro k _
    simp only [List.length_map, Function.comp_apply, beq_iff_eq, hturn, decide_eq_true_eq]
  rw [hcount, Nat.count_modEq_card _ hpos, Nat.mod_eq_of_lt hj]

/-- **The ports take turns.**  For every `DB_PORT` with at least one entry, every message consumed and
every outcome of connections and queries: the message with number `k`, from 0, is processed over the
entry with number `k` modulo the number of entries.  So if no port is listed twice, the numbers of
connections to any two ports differ by at most one, and no connection uses a port outside the list. -/
theorem connections_spread (hne : portEntries text ≠ []) {events : List WorkerEvent}
    (hrun : run (Worker.step (dbParams config (some text)).db) workerStart events = some w) :
    w.jobs.map Job.msg = (batchesOf events).flatten ∧
      (∀ k job, w.jobs[k]? = some job →
        ∃ port, (portEntries text)[k % (portEntries text).length]? = some port ∧
          job.connUrl = some (config.connUrl port)) ∧
      ((portEntries text).Nodup → ∀ x ∈ portEntries text, ∀ y ∈ portEntries text,
        w.connectionsTo config x ≤ w.connectionsTo config y + 1) ∧
      ∀ job ∈ w.jobs, ∃ port ∈ portEntries text, job.connUrl = some (config.connUrl port) := by
  have hdb : (dbParams config (some text)).db =
      ⟨(portEntries text).length, (portEntries text).map config.connUrl⟩ := by
    rw [dbParams_of_entries config hne]
    rfl
  have hpos : 0 < (dbParams config (some text)).db.connsUrl.length := by
    rw [hdb, List.length_map]
    exact List.length_pos_iff.mpr hne
  have hturns := turns_of_run (length_ports config (some text)) hpos hrun
  rw [hdb] at hturns
  refine ⟨jobs_of_run hrun, fun k job => connUrl_of_turns hturns hne, ?_, ?_⟩
  · intro hnodup x hx y hy
    obtain ⟨i, hi⟩ := List.mem_iff_getElem?.mp hx
    obtain ⟨j, hj⟩ := List.mem_iff_getElem?.mp hy
    rw [connectionsTo_eq hturns hnodup hi, connectionsTo_eq hturns hnodup hj]
    split <;> split <;> omega
  · intro job hmem
    obtain ⟨k, hjob⟩ := List.mem_iff_getElem?.mp hmem
    obtain ⟨port, hport, hurl⟩ := connUrl_of_turns hturns hne hjob
    exact ⟨port, List.mem_of_getElem? hport, hurl⟩

end

/-! Two batches, over two ports and over three entries of two ports. -/

def appDb : DbConfig := ⟨"app", "app", "secret", "localhost", "5432"⟩

def fiveMessages : List WorkerEvent := [.data [.null, .null], .data [.null, .null, .null]]

theorem connections_spread_twoPorts :
    ∃ w, (portEntries ",5432,,5433" ≠ [] ∧
        run (Worker.step (dbParams appDb (some ",5432,,5433")).db) workerStart fiveMessages = some w ∧
        (portEntries ",5432,,5433").Nodup) ∧
      w.connectionsTo appDb "5432" ≤ w.connectionsTo appDb "5433" + 1 ∧
      ∀ job ∈ w.jobs, ∃ port ∈ portEntries ",5432,,5433", job.connUrl = some (appDb.connUrl port) := by
  have hne : portEntries ",5432,,5433" ≠ [] := by decide +kernel
  have hnodup : (portEntries ",5432,,5433").Nodup := by decide +kernel
  have hruns : (run (Worker.step (dbParams appDb (some ",5432,,5433")).db) workerStart
      fiveMessages).isSome := rfl
  obtain ⟨w, hrun⟩ := Option.isSome_iff_exists.mp hruns
  obtain ⟨-, -, hspread, hlisted⟩ := connections_spread hne hrun
  exact ⟨w, ⟨hne, hrun, hnodup⟩, hspread hnodup _ (by decide +kernel) _ (by decide +kernel), hlisted⟩

/-- **A port that is listed twice.**  With `DB_PORT=5432,5432,5433`, five messages make four connections
to port 5432 and one to port 5433. -/
theorem port_listed_twice :
    ∃ w, run (Worker.step (dbParams appDb (some "5432,5432,5433")).db) workerStart fiveMessages = some w ∧
      "5432" ∈ portEntries "5432,5432,5433" ∧ "5433" ∈ portEntries "5432,5432,5433" ∧
      w.connectionsTo appDb "5432" = 4 ∧ w.connectionsTo appDb "5433" = 1 := by
  have hruns : (run (Worker.step (dbParams appDb (some "5432,5432,5433")).db) workerStart
      fiveMessages).any fun w =>
        w.connectionsTo appDb "5432" = 4 ∧ w.connectionsTo appDb "5433" = 1 := by
    decide +kernel
  rw [Option.any_eq_true] at hruns
  obtain ⟨w, hrun, hcounts⟩ := hruns
  exact ⟨w, hrun, by decide +kernel, by decide +kernel, of_decide_eq_true hcounts⟩

end BottledWater.Node
