/-
# BottledWater.Node.Web — the upload handler of the web service.

`lib/web.js` answers a POST to `/upload` from callbacks: busboy emits `file` for each file part of the
form and then `finish`; for a part with a file name a database client connects, and on success the file
is piped into a COPY stream that ends with `finish` or `error`.  Each callback is a transition on the
variables that the closures share, and a run is any order in which the callbacks can come.

A variable that holds an object or `null` is a truth value here.  What is logged is left out.  Starting
an answer is `res.writeHead` with `res.end`, which `display_form` and `display_msg` do; `responses` keeps
the answers that were started on the one response object of the request.
-/
import BottledWater.Lib.Trace
import Mathlib.Data.List.Count

namespace BottledWater.Node

open BottledWater.Lib

/-! ## §1 — answers -/

inductive Body
  | form
  /-- The object with the keys `msg` and `fname`; a `fname` that is undefined is not serialized. -/
  | json (msg : Nat) (fname : Option String)
  deriving DecidableEq, Repr

structure Response where
  statusCode : Nat
  body : Body
  deriving DecidableEq, Repr

/-- `display_form`. -/
def displayForm : Response := ⟨200, .form⟩

/-- `display_msg`. -/
def displayMsg (msg : Nat) (fname : Option String) : Response :=
  ⟨if msg = 1 ∨ msg = 2 then 404 else 200, .json msg fname⟩

/-! ## §2 — the handler -/

/-- The callback that a file part waits for. -/
inductive Awaits
  /-- That of `db_client.connect`. -/
  | connect
  /-- `error` or `finish` of `stream_db`. -/
  | copy
  deriving DecidableEq, Repr

/-- The variables of one call of the `file` listener. -/
structure Part where
  /-- `undefined` if the part gives none. -/
  filename : Option String
  file : Bool
  dbClient : Bool
  streamDb : Bool
  awaits : Option Awaits
  deriving DecidableEq, Repr

/-- The variables of one request. -/
structure Upload where
  /-- `bboy` is set to `null` at the end of the form. -/
  bboy : Bool
  parts : List Part
  responses : List Response
  deriving DecidableEq, Repr

inductive UploadEvent
  /-- busboy emits `file`. -/
  | file (filename : Option String)
  /-- The callback of `db_client.connect` for this part, with or without an error. -/
  | connect (part : Nat) (err : Bool)
  /-- `db_client` emits `drain`: its one query is over. -/
  | drain (part : Nat)
  /-- `stream_db` emits `error`. -/
  | streamError (part : Nat)
  /-- `stream_db` emits `finish`. -/
  | streamFinish (part : Nat)
  /-- busboy emits `error`. -/
  | error
  /-- busboy emits `finish`. -/
  | finish
  deriving DecidableEq, Repr

namespace Upload

/-- The `file` listener.  A file name is given unless it is `''`; an undefined one is not `''`. -/
def onFile (u : Upload) (filename : Option String) : Upload :=
  if filename ≠ some "" then
    { u with parts := u.parts ++ [⟨filename, true, true, false, some .connect⟩] }
  else
    { u with
      parts := u.parts ++ [⟨filename, false, false, false, none⟩]
      responses := u.responses ++ [displayMsg 5 (some "")] }

/-- The callback of `db_client.connect`. -/
def onConnect (u : Upload) (i : Nat) (p : Part) (err : Bool) : Upload :=
  if err then
    { u with
      parts := u.parts.set i { p with dbClient := false, file := false, awaits := none }
      responses := u.responses ++ [displayMsg 3 p.filename] }
  else { u with parts := u.parts.set i { p with streamDb := true, awaits := some .copy } }

def onDrain (u : Upload) (i : Nat) (p : Part) : Upload :=
  { u with parts := u.parts.set i { p with dbClient := false } }

/-- The `error` listener of `stream_db`, which only logs. -/
def onStreamError (u : Upload) (i : Nat) (p : Part) : Upload :=
  { u with parts := u.parts.set i { p with awaits := none } }

/-- The `finish` listener of `stream_db`. -/
def onStreamFinish (u : Upload) (i : Nat) (p : Part) : Upload :=
  { u with
    parts := u.parts.set i { p with file := false, streamDb := false, awaits := none }
    responses := u.responses ++ [displayMsg 4 p.filename] }

/-- One callback; `none` if it cannot come now.  busboy emits nothing after `finish`; a connection calls
back once, a COPY stream emits one of `error` and `finish`, and `drain` comes once after the query. -/
def step (u : Upload) : UploadEvent → Option Upload
  | .file filename => if u.bboy then some (u.onFile filename) else none
  | .connect i err =>
    match u.parts[i]? with
    | none => none
    | some p => if p.awaits = some .connect then some (u.onConnect i p err) else none
  | .drain i =>
    match u.parts[i]? with
    | none => none
    | some p => if p.dbClient ∧ p.awaits ≠ some .connect then some (u.onDrain i p) else none
  | .streamError i =>
    match u.parts[i]? with
    | none => none
    | some p => if p.awaits = some .copy then some (u.onStreamError i p) else none
  | .streamFinish i =>
    match u.parts[i]? with
    | none => none
    | some p => if p.awaits = some .copy then some (u.onStreamFinish i p) else none
  | .error => if u.bboy then some u else none
  | .finish => if u.bboy then some { u with bboy := false } else none

/-- `upload_file`, before the first event. -/
def uploadFile : Upload := ⟨true, [], []⟩

/-- A request that is answered at once. -/
def answered (response : Response) : Upload := ⟨false, [], [response]⟩

/-- Everything that is waited for has come. -/
def Complete (u : Upload) : Prop := u.bboy = false ∧ ∀ p ∈ u.parts, p.awaits = none

instance (u : Upload) : Decidable u.Complete :=
  inferInstanceAs (Decidable (u.bboy = false ∧ ∀ p ∈ u.parts, p.awaits = none))

end Upload

/-- The router of `create_server`. -/
def createServer (url method : String) : Upload :=
  if url = "/upload" then
    if method = "GET" then .answered displayForm
    else if method = "POST" then .uploadFile
    else .answered (displayMsg 1 (some ""))
  else .answered (displayMsg 2 (some ""))

/-! ## §3 — what one callback does -/

/-- The callbacks, one constructor for each way they go. -/
inductive Callback : Upload → UploadEvent → Upload → Prop
  | named {u : Upload} {filename : Option String} (hbboy : u.bboy = true) (hname : filename ≠ some "") :
    Callback u (.file filename)
      { u with parts := u.parts ++ [⟨filename, true, true, false, some .connect⟩] }
  | unnamed {u : Upload} (hbboy : u.bboy = true) :
    Callback u (.file (some ""))
      { u with
        parts := u.parts ++ [⟨some "", false, false, false, none⟩]
        responses := u.responses ++ [displayMsg 5 (some "")] }
  | refused {u : Upload} {i : Nat} {p : Part} (hp : u.parts[i]? = some p) (hwait : p.awaits = some .connect) :
    Callback u (.connect i true) (u.onConnect i p true)
  | connected {u : Upload} {i : Nat} {p : Part} (hp : u.parts[i]? = some p)
    (hwait : p.awaits = some .connect) : Callback u (.connect i false) (u.onConnect i p false)
  | drain {u : Upload} {i : Nat} {p : Part} (hp : u.parts[i]? = some p) :
    Callback u (.drain i) (u.onDrain i p)
  | copyFailed {u : Upload} {i : Nat} {p : Part} (hp : u.parts[i]? = some p)
    (hwait : p.awaits = some .copy) : Callback u (.streamError i) (u.onStreamError i p)
  | copied {u : Upload} {i : Nat} {p : Part} (hp : u.parts[i]? = some p) (hwait : p.awaits = some .copy) :
    Callback u (.streamFinish i) (u.onStreamFinish i p)
  | error {u : Upload} : Callback u .error u
  | finish {u : Upload} : Callback u .finish { u with bboy := false }

theorem callback_of_step {u u' : Upload} {e : UploadEvent} (h : u.step e = some u') : Callback u e u' := by
  cases e with
  | file filename =>
    simp only [Upload.step, Option.ite_none_right_eq_some, Option.some.injEq] at h
    obtain ⟨hbboy, rfl⟩ := h
    unfold Upload.onFile
    by_cases hname : filename = some ""
    · subst hname
      exact .unnamed hbboy
    · rw [if_pos hname]
      exact .named hbboy hname
  | connect i err =>
    cases hp : u.parts[i]? with
    | none => simp [Upload.step, hp] at h
    | some p =>
      simp only [Upload.step, hp, Option.ite_none_right_eq_some, Option.some.injEq] at h
      obtain ⟨hwait, rfl⟩ := h
      cases err with
      | true => exact .refused hp hwait
      | false => exact .connected hp hwait
  | drain i =>
    cases hp : u.parts[i]? with
    | none => simp [Upload.step, hp] at h
    | some p =>
      simp only [Upload.step, hp, Option.ite_none_right_eq_some, Option.some.injEq] at h
      obtain ⟨-, rfl⟩ := h
      exact .drain hp
  | streamError i =>
    cases hp : u.parts[i]? with
    | none => simp [Upload.step, hp] at h
    | some p =>
      simp only [Upload.step, hp, Option.ite_none_right_eq_some, Option.some.injEq] at h
      obtain ⟨hwait, rfl⟩ := h
      exact .copyFailed hp hwait
  | streamFinish i =>
    cases hp : u.parts[i]? with
    | none => simp [Upload.step, hp] at h
    | some p =>
      simp only [Upload.step, hp, Option.ite_none_right_eq_some, Option.some.injEq] at h
      obtain ⟨hwait, rfl⟩ := h
      exact .copied hp hwait
  | error =>
    simp only [Upload.step, Option.ite_none_right_eq_some, Option.some.injEq] at h
    obtain ⟨-, rfl⟩ := h
    exact .error
  | finish =>
    simp only [Upload.step, Option.ite_none_right_eq_some, Option.some.injEq] at h
    obtain ⟨-, rfl⟩ := h
    exact .finish

/-- Answers are not taken back. -/
theorem Callback.responses {u u' : Upload} {e : UploadEvent} (h : Callback u e u') :
    u.responses <+: u'.responses := by
  cases h with
  | unnamed _ => exact List.prefix_append _ _
  | refused _ _ => exact List.prefix_append _ _
  | copied _ _ => exact List.prefix_append _ _
  | _ => exact List.prefix_refl _

theorem responses_of_run {u v : Upload} {events : List UploadEvent} (h : run Upload.step u events = some v) :
    u.responses <+: v.responses := by
  refine run_rule (P := fun _ v => u.responses <+: v.responses) (List.prefix_refl _) ?_ h
  intro _ v e w _ ih hstep
  exact ih.trans (callback_of_step hstep).responses

/-! ## §4 — the account of a request -/

/-- The number of file parts. -/
def fileParts (events : List UploadEvent) : Nat :=
  events.countP fun
    | .file _ => true
    | _ => false

/-- The number of COPY streams that failed. -/
def copyErrors (events : List UploadEvent) : Nat :=
  events.countP fun
    | .streamError _ => true
    | _ => false

def Part.waiting (p : Part) : Bool := p.awaits.isSome

/-- The number of parts that still wait for a callback. -/
def Upload.pending (u : Upload) : Nat := u.parts.countP Part.waiting

/-- Replacing a part changes the count by that part. -/
theorem countP_set_add {parts : List Part} {i : Nat} {p : Part} (h : parts[i]? = some p) (p' : Part) :
    (parts.set i p').countP Part.waiting + (if p.waiting then 1 else 0) =
      parts.countP Part.waiting + if p'.waiting then 1 else 0 := by
  obtain ⟨hi, rfl⟩ := List.getElem?_eq_some_iff.mp h
  have hpos : parts[i].waiting = true → 0 < parts.countP Part.waiting := fun hwait =>
    List.countP_pos_iff.mpr ⟨parts[i], List.getElem_mem hi, hwait⟩
  rw [List.countP_set hi]
  cases hwait : parts[i].waiting with
  | false => simp
  | true =>
    have := hpos hwait
    simp only [if_true]
    omega

/-- **The account.**  Every file part is answered, still waiting, or its COPY has failed. -/
theorem account_of_run {events : List UploadEvent} {u : Upload}
    (h : run Upload.step .uploadFile events = some u) :
    u.responses.length + u.pending + copyErrors events = fileParts events := by
  refine run_rule (P := fun events u =>
    u.responses.length + u.pending + copyErrors events = fileParts events) rfl ?_ h
  intro events u e u' _ ih hstep
  have hfiles : fileParts (events ++ [e]) = fileParts events + fileParts [e] := by simp [fileParts]
  have herrors : copyErrors (events ++ [e]) = copyErrors events + copyErrors [e] := by simp [copyErrors]
  rw [hfiles, herrors]
  cases callback_of_step hstep with
  | named _ _ =>
    simp [Upload.pending, Part.waiting, fileParts, copyErrors] at ih ⊢
    omega
  | unnamed _ =>
    simp [Upload.pending, Part.waiting, fileParts, copyErrors] at ih ⊢
    omega
  | @refused i p hp hwait =>
    have hset := countP_set_add hp { p with dbClient := false, file := false, awaits := none }
    simp [Upload.pending, Upload.onConnect, Part.waiting, fileParts, copyErrors, hwait] at ih hset ⊢
    omega
  | @connected i p hp hwait =>
    have hset := countP_set_add hp { p with streamDb := true, awaits := some .copy }
    simp [Upload.pending, Upload.onConnect, Part.waiting, fileParts, copyErrors, hwait] at ih hset ⊢
    omega
  | @drain i p hp =>
    have hset : (u.parts.set i { p with dbClient := false }).countP Part.waiting = u.pending :=
      Nat.add_right_cancel (countP_set_add hp { p with dbClient := false })
    simp only [Upload.onDrain, Upload.pending] at hset ⊢
    rw [hset]
    exact ih
  | @copyFailed i p hp hwait =>
    have hset := countP_set_add hp { p with awaits := none }
    simp [Upload.pending, Upload.onStreamError, Part.waiting, fileParts, copyErrors, hwait] at ih hset ⊢
    omega
  | @copied i p hp hwait =>
    have hset := countP_set_add hp { p with file := false, streamDb := false, awaits := none }
    simp [Upload.pending, Upload.onStreamFinish, Part.waiting, fileParts, copyErrors, hwait] at ih hset ⊢
    omega
  | error => simpa [fileParts, copyErrors] using ih
  | finish => simpa [Upload.pending, fileParts, copyErrors] using ih

theorem Upload.Complete.pending {u : Upload} (h : u.Complete) : u.pending = 0 := by
  rw [Upload.pending, List.countP_eq_zero]
  intro p hp
  simp [Part.waiting, h.2 p hp]

/-- **One upload, one answer — exactly when** one of the file parts does not end in a COPY error, and only
one: then no second answer is started at any point, and there is one at the end. -/
theorem one_answer_iff {events : List UploadEvent} {u : Upload}
    (hrun : run Upload.step (createServer "/upload" "POST") events = some u) (hdone : u.Complete) :
    ((∀ before after v, events = before ++ after →
        run Upload.step (createServer "/upload" "POST") before = some v → v.responses.length ≤ 1) ∧
      u.responses.length = 1) ↔
    fileParts events = copyErrors events + 1 := by
  have haccount : u.responses.length + u.pending + copyErrors events = fileParts events :=
    account_of_run hrun
  rw [hdone.pending] at haccount
  constructor
  · rintro ⟨-, hone⟩
    omega
  · intro hparts
    have hone : u.responses.length = 1 := by omega
    refine ⟨?_, hone⟩
    rintro before after v rfl hbefore
    rw [run_append, hbefore] at hrun
    exact hone ▸ (responses_of_run hrun).length_le

/-- A form with one file, which is copied. -/
def oneFile : List UploadEvent :=
  [.file (some "a.csv"), .connect 0 false, .finish, .streamFinish 0, .drain 0]

theorem one_answer_iff_one_file :
    ∃ u, run Upload.step (createServer "/upload" "POST") oneFile = some u ∧ u.Complete ∧
      (∀ before after v, oneFile = before ++ after →
        run Upload.step (createServer "/upload" "POST") before = some v → v.responses.length ≤ 1) ∧
      u.responses.length = 1 := by
  have hrun : run Upload.step (createServer "/upload" "POST") oneFile =
      some ⟨false, [⟨some "a.csv", false, false, false, none⟩], [displayMsg 4 (some "a.csv")]⟩ := by decide
  have hdone : Upload.Complete
      ⟨false, [⟨some "a.csv", false, false, false, none⟩], [displayMsg 4 (some "a.csv")]⟩ := by decide
  exact ⟨_, hrun, hdone, (one_answer_iff hrun hdone).mpr (by decide)⟩

/-- A form without a file is never answered, nor is one whose COPY fails; two files get two answers. -/
theorem upload_answers_differ :
    (∃ u, run Upload.step (createServer "/upload" "POST") [.finish] = some u ∧ u.Complete ∧
      u.responses = []) ∧
    (∃ u, run Upload.step (createServer "/upload" "POST")
        [.file (some "a.csv"), .finish, .connect 0 false, .streamError 0] = some u ∧ u.Complete ∧
      u.responses = []) ∧
    (∃ u, run Upload.step (createServer "/upload" "POST")
        [.file (some "a.csv"), .file (some "b.csv"), .finish, .connect 0 false, .connect 1 false,
          .streamFinish 0, .streamFinish 1] = some u ∧ u.Complete ∧
      u.responses = [displayMsg 4 (some "a.csv"), displayMsg 4 (some "b.csv")]) :=
  ⟨⟨_, rfl, by decide, rfl⟩, ⟨_, rfl, by decide, rfl⟩, ⟨_, rfl, by decide, rfl⟩⟩

end BottledWater.Node
