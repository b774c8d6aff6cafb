/-
# BottledWater.Process.Slot — when the replication slot is dropped, and when it is kept.

`db_client_start` creates the slot and starts the snapshot; `exit_nicely` drops the slot if the snapshot
is not complete and the process ends with an error.  In between, the decision rests on
`taking_snapshot`, which is set before the slot is created and cleared by an acknowledgement.

The last acknowledgement may come after `START_REPLICATION`, and an error before it then finds the
connection in COPY BOTH mode, in which libpq refuses the command that drops the slot.
`snapshot_dropped_or_complete` is about the errors before that.

`Good` is what holds whenever the process is between two calls, and `Ended` what holds when a procedure
does not return.  Each procedure is shown to keep them along its text, with the rules of `Lib.Proc`.
-/
import BottledWater.Process.Main
import BottledWater.Kafka.Snapshot

namespace BottledWater.Process

open BottledWater.Lib BottledWater.Client BottledWater.Kafka

/-! ## §1 — reading the log -/

/-- The replies to `CREATE_REPLICATION_SLOT` for the slot `slot`. -/
def creates (slot : String) (log : List (Call × Reply)) : List (Option PGresult) :=
  log.filterMap fun
    | (.replExec (.createReplicationSlot slotName _), .result res) =>
      if slotName = slot then some res else none
    | _ => none

/-- The replies to `DROP_REPLICATION_SLOT` for the slot `slot`. -/
def drops (slot : String) (log : List (Call × Reply)) : List (Option PGresult) :=
  log.filterMap fun
    | (.replExec (.dropReplicationSlot slotName), .result res) =>
      if slotName = slot then some res else none
    | _ => none

/-- The slot has been created by this process. -/
def Created (slot : String) (log : List (Call × Reply)) : Prop :=
  ∃ res ∈ creates slot log, resultStatus res = .tuplesOk

/-- The slot has been dropped by this process. -/
def Dropped (slot : String) (log : List (Call × Reply)) : Prop :=
  ∃ res ∈ drops slot log, resultStatus res = .commandOk

/-- The replies to `START_REPLICATION`. -/
def starts (log : List (Call × Reply)) : List (Option PGresult) :=
  log.filterMap fun
    | (.replExec (.startReplication ..), .result res) => some res
    | _ => none

/-- The replication connection has been put into COPY BOTH mode. -/
def CopyBoth (log : List (Call × Reply)) : Prop := ∃ res ∈ starts log, resultStatus res = .copyBoth

/-- What is assumed of libpq and the server: `DROP_REPLICATION_SLOT` is carried out when it is sent outside
COPY BOTH mode. -/
def DropsCarriedOut (slot : String) (log : List (Call × Reply)) : Prop :=
  ∀ (n : Nat) (res : Option PGresult), log[n]? = some (.replExec (.dropReplicationSlot slot), .result res) →
    ¬ CopyBoth (log.take n) → resultStatus res = .commandOk

/-- No result of the snapshot query so far reports an error. -/
def ResultsOk (log : List (Call × Reply)) : Prop :=
  ∀ res, (Call.getResult, Reply.result (some res)) ∈ log →
    res.status = .singleTuple ∨ res.status = .tuplesOk

/-- The snapshot query was read to its end without an error, and the transaction then committed. -/
def SnapshotRead (log : List (Call × Reply)) : Prop :=
  ∃ before after, log = before ++ (.getResult, .result none) :: after ∧ ResultsOk before ∧
    ∃ res, (Call.sqlExec "COMMIT", Reply.result res) ∈ after ∧ resultStatus res = .commandOk

/-- The two commands about the slot. -/
def Call.isSlotCommand : Call → Bool
  | .replExec (.createReplicationSlot ..) | .replExec (.dropReplicationSlot _) => true
  | _ => false

theorem mem_drops {slot : String} {log : List (Call × Reply)} {res : Option PGresult} :
    res ∈ drops slot log ↔ (.replExec (.dropReplicationSlot slot), .result res) ∈ log := by
  rw [drops, List.mem_filterMap]
  constructor
  · rintro ⟨⟨call, reply⟩, hmem, hres⟩
    split at hres
    · next slotName _ heq =>
      obtain ⟨rfl, rfl⟩ := Prod.mk.inj heq
      obtain ⟨rfl, hsome⟩ := Option.ite_none_right_eq_some.mp hres
      obtain rfl := Option.some.inj hsome
      exact hmem
    · cases hres
  · exact fun hmem => ⟨_, hmem, by simp⟩

theorem CopyBoth.of_take {log : List (Call × Reply)} {n : Nat} (h : CopyBoth (log.take n)) : CopyBoth log := by
  obtain ⟨res, hmem, hres⟩ := h
  exact ⟨res, ((List.take_sublist n log).filterMap _).subset hmem, hres⟩

/-- Before COPY BOTH mode, an attempt to drop the slot succeeds. -/
theorem DropsCarriedOut.dropped {slot : String} {log : List (Call × Reply)} (h : DropsCarriedOut slot log)
    (hmode : ¬ CopyBoth log) (htried : drops slot log ≠ []) : Dropped slot log := by
  obtain ⟨res, hres⟩ := List.exists_mem_of_ne_nil _ htried
  obtain ⟨n, hn⟩ := List.mem_iff_getElem?.mp (mem_drops.mp hres)
  exact ⟨res, hres, h n res hn fun hcopy => hmode hcopy.of_take⟩

theorem creates_snoc {slot : String} {call : Call} (h : call.isSlotCommand = false) (log : List (Call × Reply))
    (reply : Reply) : creates slot (log ++ [(call, reply)]) = creates slot log := by
  have hone : creates slot [(call, reply)] = [] := by
    cases call with
    | replExec command => cases command <;> simp_all [creates, Call.isSlotCommand]
    | _ => rfl
  rw [creates, List.filterMap_append]
  exact (congrArg _ hone).trans (List.append_nil _)

theorem drops_snoc {slot : String} {call : Call} (h : call.isSlotCommand = false) (log : List (Call × Reply))
    (reply : Reply) : drops slot (log ++ [(call, reply)]) = drops slot log := by
  have hone : drops slot [(call, reply)] = [] := by
    cases call with
    | replExec command => cases command <;> simp_all [drops, Call.isSlotCommand]
    | _ => rfl
  rw [drops, List.filterMap_append]
  exact (congrArg _ hone).trans (List.append_nil _)

theorem SnapshotRead.snoc {log : List (Call × Reply)} (h : SnapshotRead log)
    (entry : Call × Reply) : SnapshotRead (log ++ [entry]) := by
  obtain ⟨before, after, rfl, hok, res, hmem, hres⟩ := h
  exact ⟨before, after ++ [entry], by simp, hok, res, List.mem_append_left _ hmem, hres⟩

/-! ## §2 — the invariant -/

/-- The end of the snapshot is only reported to the producer after it has been read. -/
def Committed (w : World) : Prop := ∀ lsn, .onCommitTxn lsn 0 ∈ w.events → SnapshotRead w.log

/-- **`Sound slot w`** — the producer has run from its start state; this process has not touched the
slot, or it has created it and is taking the snapshot. -/
inductive Sound (slot : String) (w : World) : Prop
  | streaming (hslot : w.config.slotName = slot) (run : System.Run false w.events w.producer)
      (hc : creates slot w.log = []) (hd : drops slot w.log = [])
  | snapshot (res : Option PGresult) (hres : resultStatus res = .tuplesOk)
      (hslot : w.config.slotName = slot) (run : System.Run true w.events w.producer)
      (hc : creates slot w.log = [res]) (hd : drops slot w.log = []) (committed : Committed w)

/-- Between two calls. -/
def Good (slot : String) (w : World) : Prop := Sound slot w ∧ ResultsOk w.log

/-- The process has left through `exit_nicely`. -/
inductive Left (slot : String) (status : Nat) (w : World) : Prop
  | untouched (hc : creates slot w.log = []) (hd : drops slot w.log = [])
  | refused (res : Option PGresult) (hc : creates slot w.log = [res])
      (hres : resultStatus res ≠ .tuplesOk) (hd : drops slot w.log ≠ [])
  | created (res : Option PGresult) (hc : creates slot w.log = [res])
      (hres : resultStatus res = .tuplesOk) (run : System.Run true w.events w.producer)
      (committed : Committed w)
      (hdrop : w.takingSnapshot = true → status ≠ 0 → drops slot w.log ≠ [])
      (hkeep : status = 0 → drops slot w.log = [])

/-- What holds where a procedure does not return. -/
def Ended (slot : String) : Fault → World → Prop
  | .errno _, w => Sound slot w
  | .exited status, w => Left slot status w
  | .blocked, w =>
    creates slot w.log = [] ∧ drops slot w.log = [] ∨ ∃ res, creates slot w.log = [res]

variable {slot : String}

theorem Sound.blocked {w : World} (h : Sound slot w) : Ended slot .blocked w := by
  cases h with
  | streaming _ _ hc hd => exact Or.inl ⟨hc, hd⟩
  | snapshot res _ _ _ hc _ _ => exact Or.inr ⟨res, hc⟩

/-- Nothing that the invariant speaks about has changed. -/
theorem Sound.of_eq {w w' : World} (h : Sound slot w) (hconfig : w'.config = w.config)
    (hproducer : w'.producer = w.producer) (hevents : w'.events = w.events)
    (hlog : w'.log = w.log) : Sound slot w' := by
  cases h with
  | streaming hslot run hc hd =>
    exact .streaming (hconfig ▸ hslot) (by rw [hproducer, hevents]; exact run) (hlog ▸ hc)
      (hlog ▸ hd)
  | snapshot res hres hslot run hc hd committed =>
    refine .snapshot res hres (hconfig ▸ hslot) (by rw [hproducer, hevents]; exact run) (hlog ▸ hc)
      (hlog ▸ hd) ?_
    unfold Committed
    rw [hevents, hlog]
    exact committed

/-- A call that is not about the slot. -/
theorem Sound.snoc {w w' : World} (h : Sound slot w) {call : Call} {reply : Reply}
    (hcall : call.isSlotCommand = false) (hconfig : w'.config = w.config)
    (hproducer : w'.producer = w.producer) (hevents : w'.events = w.events)
    (hlog : w'.log = w.log ++ [(call, reply)]) : Sound slot w' := by
  have hcreates : creates slot w'.log = creates slot w.log := by rw [hlog, creates_snoc hcall]
  have hdrops : drops slot w'.log = drops slot w.log := by rw [hlog, drops_snoc hcall]
  cases h with
  | streaming hslot run hc hd =>
    exact .streaming (hconfig ▸ hslot) (by rw [hproducer, hevents]; exact run) (hcreates.trans hc)
      (hdrops.trans hd)
  | snapshot res hres hslot run hc hd committed =>
    refine .snapshot res hres (hconfig ▸ hslot) (by rw [hproducer, hevents]; exact run)
      (hcreates.trans hc) (hdrops.trans hd) ?_
    intro lsn hlsn
    rw [hlog]
    exact (committed lsn (hevents ▸ hlsn)).snoc _

/-! ## §3 — leaving the process -/

theorem snoc_create (slot : String) (log : List (Call × Reply)) (outputPlugin : String) (res : Option PGresult) :
    creates slot (log ++ [(.replExec (.createReplicationSlot slot outputPlugin), .result res)]) =
        creates slot log ++ [res] ∧
      drops slot (log ++ [(.replExec (.createReplicationSlot slot outputPlugin), .result res)]) =
        drops slot log := by
  simp [creates, drops]

theorem snoc_drop (slot : String) (log : List (Call × Reply)) (res : Option PGresult) :
    creates slot (log ++ [(.replExec (.dropReplicationSlot slot), .result res)]) =
        creates slot log ∧
      drops slot (log ++ [(.replExec (.dropReplicationSlot slot), .result res)]) =
        drops slot log ++ [res] := by
  simp [creates, drops]

/-- A reply of the wrong kind to a command about the slot changes nothing that counts. -/
theorem snoc_other (slot : String) (log : List (Call × Reply)) (command : ReplicationCommand) {reply : Reply}
    (h : ∀ res, reply ≠ .result res) :
    creates slot (log ++ [(.replExec command, reply)]) = creates slot log ∧
      drops slot (log ++ [(.replExec command, reply)]) = drops slot log := by
  cases reply with
  | result res => exact absurd rfl (h res)
  | _ => simp [creates, drops]

theorem exitNicely_rule {P : World → Prop} {Q : PUnit → World → Prop} {E : Fault → World → Prop}
    {status : Nat}
    (hkeep : ∀ w, P w → ¬ (w.takingSnapshot = true ∧ status ≠ 0) → E (.exited status) w)
    (hdrop : ∀ w res replies, P w → w.takingSnapshot = true → status ≠ 0 →
      E (.exited status)
        (w.replied (.replExec (.dropReplicationSlot w.config.slotName)) (.result res) replies))
    (hblocked : ∀ w, P w → E .blocked w)
    (hother : ∀ w reply replies, P w → (∀ res, reply ≠ .result res) →
      E .blocked (w.replied (.replExec (.dropReplicationSlot w.config.slotName)) reply replies)) :
    Triple P (exitNicely status) Q E := by
  unfold exitNicely
  refine Triple.get fun w hw => Triple.ite (fun hc => ?_) fun hc => Triple.throw ?_
  · refine (attempt_rule (Q := fun _ => E (.exited status)) ?_).bind
      fun _ => Triple.throw fun _ h => h
    unfold replicationSlotDrop
    refine Triple.get ?_
    rintro _ rfl
    refine (askResult_rule (Q := fun _ => E (.exited status)) ?_ ?_ ?_).bind fun res => ?_
    · rintro _ rfl
      exact hblocked _ hw
    · rintro _ reply replies rfl
      exact hother _ reply replies hw
    · rintro _ res replies rfl
      exact hdrop _ res replies hw hc.1 hc.2
    · unfold check
      exact Triple.ite (fun _ => Triple.pure fun _ h => h) fun _ => Triple.throw fun _ h => h
  · rintro _ rfl
    exact hkeep _ hw hc

/-- `exit_nicely` from a state that satisfies the invariant. -/
theorem exitNicely_sound (status : Nat) {Q : PUnit → World → Prop} :
    Triple (Sound slot) (exitNicely status) Q (Ended slot) := by
  refine exitNicely_rule ?_ ?_ (fun _ => Sound.blocked) ?_
  · intro w hw hn
    cases hw with
    | streaming hslot run hc hd => exact .untouched hc hd
    | snapshot res hres hslot run hc hd committed =>
      exact .created res hc hres run committed (fun hflag hstatus => absurd ⟨hflag, hstatus⟩ hn)
        fun _ => hd
  · intro w res replies hw hflag hstatus
    cases hw with
    | streaming hslot run hc hd =>
      -- nothing was created, so the flag is down
      have hdown := System.run_takingSnapshot_false run
      rw [World.takingSnapshot, hdown] at hflag
      simp at hflag
    | snapshot res' hres hslot run hc hd committed =>
      subst hslot
      obtain ⟨hcreates, hdrops⟩ := snoc_drop w.config.slotName w.log res
      refine .created res' (hcreates.trans hc) hres run ?_ ?_ fun h0 => absurd h0 hstatus
      · exact fun lsn hlsn => (committed lsn hlsn).snoc _
      · intro _ _ hnil
        rw [World.replied, hdrops] at hnil
        simp at hnil
  · intro w reply replies hw hne
    obtain ⟨hcreates, hdrops⟩ :=
      snoc_other slot w.log (.dropReplicationSlot w.config.slotName) hne
    cases hw with
    | streaming hslot run hc hd => exact Or.inl ⟨hcreates.trans hc, hdrops.trans hd⟩
    | snapshot res' hres hslot run hc hd committed => exact Or.inr ⟨res', hcreates.trans hc⟩

/-! ## §4 — every procedure keeps the invariant -/

/-- An invariant that implies `Sound` and survives calls that are not about the slot. -/
structure Invariant (slot : String) (I : World → Prop) : Prop where
  sound : ∀ {w : World}, I w → Sound slot w
  replied : ∀ {w : World} {call : Call}, I w → call.isSlotCommand = false → call ≠ .getResult →
    ∀ reply replies, I (w.replied call reply replies)

/-- **`Keeps slot I x`** — `x` keeps the invariant, and does not return only as it should. -/
def Keeps {α : Type} (slot : String) (I : World → Prop) (x : Proc α) : Prop := Triple I x (fun _ => I) (Ended slot)

section Keeps

variable {α β : Type} {I : World → Prop}

theorem keeps_pure (a : α) : Keeps slot I (pure a : Proc α) := Triple.pure fun _ hw => hw

theorem Keeps.bind {x : Proc α} {f : α → Proc β} (hx : Keeps slot I x) (hf : ∀ a, Keeps slot I (f a)) :
    Keeps slot I (x >>= f) := Triple.bind hx hf

theorem keeps_get {f : World → Proc β} (hf : ∀ w, Keeps slot I (f w)) : Keeps slot I (get >>= f) :=
  Triple.get fun w hw => (hf w).pre fun _ hw' => hw' ▸ hw

theorem keeps_ite {c : Prop} [Decidable c] {x y : Proc α} (hx : Keeps slot I x) (hy : Keeps slot I y) :
    Keeps slot I (if c then x else y) := Triple.ite (fun _ => hx) fun _ => hy

namespace Invariant

variable {call : Call} (hI : Invariant slot I)
include hI

theorem errno (err : Errno) : Keeps slot I (throw (.errno err) : Proc α) :=
  Triple.throw fun _ hw => hI.sound hw

theorem blocked : Keeps slot I (throw .blocked : Proc α) :=
  Triple.throw fun _ hw => (hI.sound hw).blocked

theorem check (ok : Bool) (err : Errno) : Keeps slot I (check ok err) := by
  cases ok with
  | true => exact keeps_pure PUnit.unit
  | false => exact hI.errno err

theorem exitNicely (status : Nat) : Keeps slot I (exitNicely status) :=
  (exitNicely_sound status).pre fun _ hw => hI.sound hw

theorem ask (hcall : call.isSlotCommand = false) (hres : call ≠ .getResult) : Keeps slot I (ask call) :=
  ask_rule (fun _ hw => (hI.sound hw).blocked)
    fun _ reply replies hw => hI.replied hw hcall hres reply replies

theorem askFlag (hcall : call.isSlotCommand = false) (hres : call ≠ .getResult) :
    Keeps slot I (askFlag call) :=
  askFlag_rule (fun _ hw => (hI.sound hw).blocked)
    (fun _ reply replies hw _ => (hI.sound (hI.replied hw hcall hres reply replies)).blocked)
    fun _ _ replies hw => hI.replied hw hcall hres _ replies

theorem askResult (hcall : call.isSlotCommand = false) (hres : call ≠ .getResult) :
    Keeps slot I (askResult call) :=
  askResult_rule (fun _ hw => (hI.sound hw).blocked)
    (fun _ reply replies hw _ => (hI.sound (hI.replied hw hcall hres reply replies)).blocked)
    fun _ _ replies hw => hI.replied hw hcall hres _ replies

end Invariant

end Keeps

theorem ResultsOk.snoc {log : List (Call × Reply)} (h : ResultsOk log) {call : Call}
    (hres : call ≠ .getResult) (reply : Reply) : ResultsOk (log ++ [(call, reply)]) := by
  intro res hmem
  rcases List.mem_append.mp hmem with hold | hnew
  · exact h res hold
  · obtain ⟨rfl, -⟩ := Prod.mk.inj (List.mem_singleton.mp hnew)
    exact absurd rfl hres

theorem good : Invariant slot (Good slot) where
  sound := And.left
  replied := fun hw hcall hres reply _ =>
    ⟨hw.1.snoc hcall rfl rfl rfl rfl, hw.2.snoc hres reply⟩

theorem Good.blocked {w : World} (h : Good slot w) : Ended slot .blocked w := h.1.blocked

theorem Good.of_eq {w w' : World} (h : Good slot w) (hconfig : w'.config = w.config)
    (hproducer : w'.producer = w.producer) (hevents : w'.events = w.events)
    (hlog : w'.log = w.log) : Good slot w' :=
  ⟨h.1.of_eq hconfig hproducer hevents hlog, hlog ▸ h.2⟩

theorem keeps_modifyClient (f : ClientContext → ClientContext) : Keeps slot (Good slot) (modifyClient f) :=
  Triple.modify fun _ hw => hw.of_eq rfl rfl rfl rfl

/-! ### Callbacks -/

/-- The events of a callback; if one of them reports the end of the snapshot, it has been read. -/
theorem advance_keeps (events : List Event) (lastCheckpoint : Option Nat) :
    Triple (fun w => Good slot w ∧ ∀ lsn, .onCommitTxn lsn 0 ∈ events → SnapshotRead w.log)
      (advance events lastCheckpoint) (fun _ => Good slot) (Ended slot) := by
  unfold advance
  refine Triple.get ?_
  rintro w ⟨hw, hend⟩
  cases hrun : run System.step w.producer events with
  | none => exact Triple.throw fun _ h => h ▸ hw.blocked
  | some producer =>
    set w' : World := { w with
      client := { w.client with lastCheckpoint := lastCheckpoint.getD w.client.lastCheckpoint }
      producer := producer
      events := w.events ++ events } with hw'
    have hgood : Good slot w' := by
      refine ⟨?_, hw.2⟩
      have hextend : ∀ b, System.Run b w.events w.producer →
          System.Run b (w.events ++ events) producer := by
        intro b hb
        rw [System.Run, run_append, hb]
        exact hrun
      cases hw.1 with
      | streaming hslot run hc hd => exact .streaming hslot (hextend _ run) hc hd
      | snapshot res hres hslot run hc hd committed =>
        refine .snapshot res hres hslot (hextend _ run) hc hd ?_
        intro lsn hlsn
        rcases List.mem_append.mp hlsn with hold | hnew
        · exact committed lsn hold
        · exact hend lsn hnew
    have hset : Triple (· = w) (set w' : Proc PUnit) (fun _ => Good slot) (Ended slot) := fun _ _ => hgood
    refine hset.seq ?_
    cases producer.control with
    | ready => exact keeps_pure PUnit.unit
    | exited status => exact good.exitNicely status
    | _ => exact good.blocked

theorem not_mem_of_fromKafka {events : List Event} (h : events.all Event.fromKafka = true)
    (walPos : UInt64) (xid : UInt32) : .onCommitTxn walPos xid ∉ events := by
  intro hmem
  exact absurd (List.all_eq_true.mp h _ hmem) (by simp [Event.fromKafka])

theorem callback_keeps (event : Event) :
    Triple (fun w => Good slot w ∧ ∀ lsn, event = .onCommitTxn lsn 0 → SnapshotRead w.log)
      (callback event) (fun _ => Good slot) (Ended slot) := by
  unfold callback
  refine (ask_rule (Q := fun _ w => Good slot w ∧ ∀ lsn, event = .onCommitTxn lsn 0 → SnapshotRead w.log)
    (fun w hw => hw.1.blocked) ?_).bind fun reply => ?_
  · intro w reply replies hw
    exact ⟨good.replied hw.1 rfl (by simp) reply replies, fun lsn hlsn => (hw.2 lsn hlsn).snoc _⟩
  · cases reply with
    | during events lastCheckpoint =>
      refine Triple.ite (fun hkafka => ?_) fun _ => Triple.throw fun _ hw => hw.1.blocked
      refine (advance_keeps _ _).pre fun w hw => ⟨hw.1, fun lsn hlsn => ?_⟩
      rcases List.mem_cons.mp hlsn with heq | hmem
      · exact hw.2 lsn heq.symm
      · exact absurd hmem (not_mem_of_fromKafka hkafka lsn 0)
    | _ => exact Triple.throw fun _ hw => hw.1.blocked

/-- A callback other than the one for the end of the snapshot. -/
theorem keeps_callback {event : Event} (h : ∀ lsn, event ≠ .onCommitTxn lsn 0) :
    Keeps slot (Good slot) (callback event) :=
  (callback_keeps event).pre fun _ hw => ⟨hw, fun lsn hlsn => absurd hlsn (h lsn)⟩

theorem keeps_rdKafkaPoll : Keeps slot (Good slot) rdKafkaPoll := by
  unfold rdKafkaPoll
  refine (good.ask rfl (by simp)).bind fun reply => ?_
  cases reply with
  | during events lastCheckpoint =>
    refine Triple.ite (fun hkafka => ?_) fun _ => good.blocked
    exact (advance_keeps _ _).pre fun w hw =>
      ⟨hw, fun lsn hlsn => absurd hlsn (not_mem_of_fromKafka hkafka lsn 0)⟩
  | _ => exact good.blocked

theorem keeps_processFrameMessages (walPos : UInt64) (messages : List FrameMessage) :
    Keeps slot (Good slot) (processFrameMessages walPos messages) := by
  induction messages with
  | nil => exact keeps_pure PUnit.unit
  | cons message messages ih =>
    unfold processFrameMessages
    refine Keeps.bind ?_ fun _ => ih
    cases message with
    | beginTxn xid => exact keeps_callback (by simp)
    | commitTxn xid =>
      -- no transaction of the stream has the xid of the snapshot
      refine keeps_callback fun lsn heq => ?_
      exact xid.property (Event.onCommitTxn.inj heq).2
    | tableSchema relid failed => exact keeps_ite (good.exitNicely 1) (keeps_pure PUnit.unit)
    | row relid record => exact keeps_callback (by simp)

theorem keeps_parseFrame (walPos : UInt64) (buf : List UInt8) : Keeps slot (Good slot) (parseFrame walPos buf) := by
  unfold parseFrame
  refine (good.ask rfl (by simp)).bind fun reply => ?_
  cases reply with
  | frame messages err =>
    refine (keeps_processFrameMessages walPos messages).bind fun _ => ?_
    cases err with
    | none => exact keeps_pure PUnit.unit
    | some err => exact good.errno err
  | _ => exact good.blocked

/-! ### The replication stream -/

theorem keeps_replicationStreamStart : Keeps slot (Good slot) replicationStreamStart :=
  keeps_get fun _ => (good.askResult rfl (by simp)).bind fun _ => good.check _ _

theorem keeps_askTime : Keeps slot (Good slot) askTime := by
  unfold askTime
  refine (good.ask rfl (by simp)).bind fun reply => ?_
  cases reply with
  | time now => exact keeps_pure now
  | _ => exact good.blocked

theorem keeps_sendCheckpointMessage (now : Nat) : Keeps slot (Good slot) (sendCheckpointMessage now) :=
  keeps_get fun _ => (good.askFlag rfl (by simp)).bind fun _ =>
    (good.check _ _).bind fun _ => keeps_modifyClient _

theorem keeps_replicationStreamKeepalive : Keeps slot (Good slot) replicationStreamKeepalive :=
  keeps_get fun _ => keeps_ite
    (keeps_askTime.bind fun now => keeps_ite (keeps_sendCheckpointMessage now)
      (keeps_pure PUnit.unit))
    (keeps_pure PUnit.unit)

theorem keeps_parseKeepaliveMessage (buf : List UInt8) : Keeps slot (Good slot) (parseKeepaliveMessage buf) :=
  (good.check _ _).bind fun _ => (keeps_modifyClient _).bind fun _ =>
    keeps_ite (keeps_askTime.bind keeps_sendCheckpointMessage) (keeps_pure PUnit.unit)

/-- `attempt` turns the error into a value; the invariant then holds but for the results. -/
theorem attempt_keeps {x : Proc PUnit} (hx : Keeps slot (Good slot) x) :
    Triple (Good slot) (attempt x)
      (fun
        | none => Good slot
        | some _ => Sound slot) (Ended slot) := by
  refine attempt_rule (hx.conseq (fun _ hw => hw) (fun _ _ hw => hw) ?_)
  intro fault w hw
  cases fault <;> exact hw

theorem keeps_parseXlogdataMessage (buf : List UInt8) : Keeps slot (Good slot) (parseXlogdataMessage buf) := by
  unfold parseXlogdataMessage
  refine (good.check _ _).bind fun _ => ?_
  refine (attempt_keeps (keeps_parseFrame _ _)).bind fun err => ?_
  cases err with
  | none => exact (keeps_modifyClient _).bind fun _ => keeps_pure PUnit.unit
  | some err =>
    exact (Triple.modify (Q := fun _ => Sound slot) fun _ hw => hw.of_eq rfl rfl rfl rfl).bind
      fun _ => Triple.throw fun _ hw => hw

theorem keeps_parseCopyMessage (kind : UInt8) (rest : List UInt8) :
    Keeps slot (Good slot) (parseCopyMessage kind rest) :=
  keeps_ite (keeps_parseKeepaliveMessage _)
    (keeps_ite (keeps_parseXlogdataMessage _) (good.errno _))

theorem keeps_replicationStreamFinish : Keeps slot (Good slot) replicationStreamFinish :=
  (good.askResult rfl (by simp)).bind fun _ => good.check _ _

theorem keeps_replicationStreamPoll : Keeps slot (Good slot) replicationStreamPoll := by
  unfold replicationStreamPoll
  refine (good.ask rfl (by simp)).bind fun reply => ?_
  cases reply with
  | copyData data =>
    cases data with
    | message kind rest =>
      exact (keeps_modifyClient _).bind fun _ => (keeps_parseCopyMessage kind rest).bind
        fun _ => keeps_replicationStreamKeepalive
    | wouldBlock => exact (keeps_modifyClient _).bind fun _ => keeps_replicationStreamKeepalive
    | done =>
      refine (attempt_keeps keeps_replicationStreamFinish).bind fun err => ?_
      cases err with
      | none => exact (keeps_modifyClient _).bind fun _ => good.check _ _
      | some err =>
        exact (Triple.modify (Q := fun _ => Sound slot) fun _ hw => hw.of_eq rfl rfl rfl rfl).bind
          fun _ => Triple.throw fun _ hw => hw
    | failed => exact (keeps_modifyClient _).bind fun _ => good.errno _
  | _ => exact good.blocked

/-! ### The snapshot -/

theorem keeps_snapshotTuples (res : PGresult) (rows : List (List (Option (List UInt8)))) :
    Keeps slot (Good slot) (snapshotTuples res rows) := by
  induction rows with
  | nil => exact keeps_pure PUnit.unit
  | cons row rows ih =>
    unfold snapshotTuples snapshotTuple
    refine Keeps.bind ((good.check _ _).bind fun _ => ?_) fun _ => ih
    cases row.head?.join with
    | none => exact good.errno _
    | some value => exact (good.check _ _).bind fun _ => keeps_parseFrame 0 value

/-- The query has been read to its end; the transaction has not been committed yet. -/
def ReadToEnd (log : List (Call × Reply)) : Prop :=
  ∃ before after, log = before ++ (.getResult, .result none) :: after ∧ ResultsOk before

theorem ReadToEnd.commit {log : List (Call × Reply)} (h : ReadToEnd log) {res : Option PGresult}
    (hres : resultStatus res = .commandOk) :
    SnapshotRead (log ++ [(.sqlExec "COMMIT", .result res)]) := by
  obtain ⟨before, after, rfl, hok⟩ := h
  exact ⟨before, after ++ [(.sqlExec "COMMIT", .result res)], by simp, hok, res, by simp, hres⟩

theorem snapshotEnd_keeps :
    Triple (fun w => Good slot w ∧ ReadToEnd w.log) snapshotEnd (fun _ => Good slot) (Ended slot) := by
  unfold snapshotEnd execSql
  refine Triple.bind (Q := fun _ w => Good slot w ∧ SnapshotRead w.log) ?_ fun _ => ?_
  · refine (askResult_rule
      (Q := fun res w => Good slot w ∧ (resultStatus res = .commandOk → SnapshotRead w.log))
      (fun w hw => hw.1.blocked) ?_ ?_).bind fun res => ?_
    · exact fun w reply replies hw _ => (good.replied hw.1 rfl (by simp) reply replies).blocked
    · exact fun w res replies hw => ⟨good.replied hw.1 rfl (by simp) _ replies, fun hres => hw.2.commit hres⟩
    · refine (check_rule fun w hw _ => hw.1.1).post fun _ w hw => ⟨hw.1.1, hw.1.2 ?_⟩
      exact of_decide_eq_true hw.2
  · refine (Triple.modify (Q := fun _ w => Good slot w ∧ SnapshotRead w.log) ?_).bind fun _ => ?_
    · exact fun w hw => ⟨hw.1.of_eq rfl rfl rfl rfl, hw.2⟩
    · refine Triple.get fun w hw => (callback_keeps _).pre ?_
      rintro _ rfl
      exact ⟨hw.1, fun _ _ => hw.2⟩

/-- After a result of the snapshot query: it is the end of the query, or its status is still to be
checked. -/
def AfterResult (slot : String) (w : World) : Option PGresult → Prop
  | none => Good slot w ∧ ReadToEnd w.log
  | some res => res.status = .singleTuple ∨ res.status = .tuplesOk → Good slot w

theorem keeps_snapshotPoll : Keeps slot (Good slot) snapshotPoll := by
  unfold snapshotPoll
  refine (askResult_rule (Q := fun res w => Sound slot w ∧ AfterResult slot w res)
    (fun w hw => hw.blocked) ?_ ?_).bind fun res => ?_
  · intro w reply replies hw hne
    exact Sound.blocked (hw.1.snoc rfl rfl rfl rfl rfl : Sound slot (w.replied .getResult reply replies))
  · intro w res replies hw
    have hsound : Sound slot (w.replied .getResult (.result res) replies) := hw.1.snoc rfl rfl rfl rfl rfl
    refine ⟨hsound, ?_⟩
    cases res with
    | none =>
      refine ⟨⟨hsound, fun res hmem => ?_⟩, w.log, [], rfl, hw.2⟩
      rcases List.mem_append.mp hmem with hold | hnew
      · exact hw.2 res hold
      · simp at hnew
    | some res =>
      refine fun hok => ⟨hsound, fun res' hmem => ?_⟩
      rcases List.mem_append.mp hmem with hold | hnew
      · exact hw.2 res' hold
      · obtain rfl : res' = res := by simpa using hnew
        exact hok
  · cases res with
    | none => exact snapshotEnd_keeps.pre fun w hw => hw.2
    | some res =>
      refine (check_rule fun w hw _ => hw.1).bind fun _ => ?_
      refine (keeps_snapshotTuples res res.values).pre fun w hw => hw.1.2 ?_
      exact of_decide_eq_true hw.2

theorem keeps_dbClientPoll : Keeps slot (Good slot) dbClientPoll := by
  unfold dbClientPoll
  refine keeps_get fun w => keeps_ite ?_ ?_
  · refine (good.askFlag rfl (by simp)).bind fun busy => keeps_ite (keeps_modifyClient _) ?_
    refine keeps_snapshotPoll.bind fun _ => (keeps_modifyClient _).bind fun _ => ?_
    exact keeps_get fun _ => keeps_ite (keeps_pure PUnit.unit) keeps_replicationStreamStart
  · exact keeps_replicationStreamPoll.bind fun _ => keeps_modifyClient _

/-! ## §5 — starting -/

/-- Nothing has been asked about the slot and the producer has not run; `flag` is `taking_snapshot`. -/
structure Fresh (slot : String) (flag : Bool) (w : World) : Prop where
  slotName : w.config.slotName = slot
  outputPlugin : w.config.outputPlugin ≠ ""
  producer : w.producer = System.init flag
  events : w.events = []
  creates : creates slot w.log = []
  drops : drops slot w.log = []
  results : ResultsOk w.log

theorem Fresh.good {w : World} (h : Fresh slot false w) : Good slot w := by
  refine ⟨.streaming h.slotName ?_ h.creates h.drops, h.results⟩
  rw [h.events, h.producer]
  rfl

theorem fresh : Invariant slot (Fresh slot false) where
  sound := fun h => h.good.1
  replied := fun h hcall hres reply _ =>
    { slotName := h.slotName
      outputPlugin := h.outputPlugin
      producer := h.producer
      events := h.events
      creates := (creates_snoc hcall _ reply).trans h.creates
      drops := (drops_snoc hcall _ reply).trans h.drops
      results := h.results.snoc hres reply }

theorem fresh_modifyClient (f : ClientContext → ClientContext) :
    Keeps slot (Fresh slot false) (modifyClient f) :=
  Triple.modify fun _ h => ⟨h.slotName, h.outputPlugin, h.producer, h.events, h.creates, h.drops,
    h.results⟩

theorem fresh_clientConnect : Keeps slot (Fresh slot false) clientConnect := by
  unfold clientConnect
  refine keeps_get fun w => (fresh.check _ _).bind fun _ => (fresh.check _ _).bind fun _ => ?_
  refine (fresh.askFlag rfl (by simp)).bind fun _ => (fresh_modifyClient _).bind fun _ => ?_
  refine (fresh.check _ _).bind fun _ => (fresh.askFlag rfl (by simp)).bind fun _ => ?_
  exact (fresh.check _ _).bind fun _ => (fresh.askFlag rfl (by simp)).bind
    fun _ => fresh.check _ _

theorem fresh_replicationStreamCheck : Keeps slot (Fresh slot false) replicationStreamCheck := by
  unfold replicationStreamCheck
  refine (fresh.askResult rfl (by simp)).bind fun res => ?_
  cases res with
  | none => exact fresh.errno _
  | some res =>
    exact (fresh.check _ _).bind fun _ => (fresh.check _ _).bind fun _ => fresh.check _ _

/-- The existence check returns only when the slot has a name. -/
theorem replicationSlotExists_fresh :
    Triple (Fresh slot false) replicationSlotExists (fun _ w => Fresh slot false w ∧ slot ≠ "")
      (Ended slot) := by
  unfold replicationSlotExists
  refine Triple.get fun w hw => ?_
  by_cases hname : slot = ""
  · have hfail : decide (w.config.slotName ≠ "") = false := by
      rw [hw.slotName]
      simpa using hname
    rw [hfail]
    refine Triple.bind (Q := fun _ _ => False) ?_ fun _ _ hf => hf.elim
    refine Triple.throw ?_
    rintro _ rfl
    exact fresh.sound hw
  · refine Triple.post (Q := fun _ => Fresh slot false) ?_ fun _ _ h => ⟨h, hname⟩
    refine Triple.pre (P := Fresh slot false) ?_ (by rintro _ rfl; exact hw)
    refine (fresh.check _ _).bind fun _ => (fresh.askResult rfl (by simp)).bind fun res => ?_
    cases res with
    | none => exact fresh.errno _
    | some res =>
      refine (fresh.check _ _).bind fun _ => ?_
      cases res.getvalue 0 0 with
      | none => exact keeps_pure false
      | some restartLsn =>
        simp only
        cases sscanfLsn restartLsn with
        | none => exact fresh.errno _
        | some startLsn => exact (fresh_modifyClient _).bind fun _ => keeps_pure true

/-- `CREATE_REPLICATION_SLOT` was refused, with `taking_snapshot` already set. -/
def Refused (slot : String) (w : World) : Prop :=
  w.config.slotName = slot ∧ w.takingSnapshot = true ∧ drops slot w.log = [] ∧
    ∃ res, creates slot w.log = [res] ∧ resultStatus res ≠ .tuplesOk

/-- What holds where `db_client_start` does not return. -/
def StartEnded (slot : String) : Fault → World → Prop
  | .errno _, w => Sound slot w ∨ Refused slot w
  | fault, w => Ended slot fault w

theorem Ended.start {fault : Fault} {w : World} (h : Ended slot fault w) :
    StartEnded slot fault w := by
  cases fault with
  | errno err => exact Or.inl h
  | exited status => exact h
  | blocked => exact h

/-- The world after a successful `CREATE_REPLICATION_SLOT`. -/
theorem Fresh.created {w : World} (h : Fresh slot true w) {res : Option PGresult}
    (hres : resultStatus res = .tuplesOk) (replies : List Reply) :
    Good slot (w.replied (.replExec (.createReplicationSlot w.config.slotName w.config.outputPlugin))
      (.result res) replies) := by
  obtain ⟨rfl, -, hproducer, hevents, hcreates, hdrops, hresults⟩ := h
  obtain ⟨hc, hd⟩ := snoc_create w.config.slotName w.log w.config.outputPlugin res
  refine ⟨.snapshot res hres rfl ?_ ?_ (hd.trans hdrops) ?_, hresults.snoc (by simp) _⟩
  · change System.Run true w.events w.producer
    rw [hevents, hproducer]
    rfl
  · exact hc.trans (by rw [hcreates]; rfl)
  · intro lsn hlsn
    change _ ∈ w.events at hlsn
    simp [hevents] at hlsn

theorem Fresh.refused {w : World} (h : Fresh slot true w) {res : Option PGresult}
    (hres : resultStatus res ≠ .tuplesOk) (replies : List Reply) :
    Refused slot (w.replied
      (.replExec (.createReplicationSlot w.config.slotName w.config.outputPlugin))
      (.result res) replies) := by
  obtain ⟨rfl, -, hproducer, -, hcreates, hdrops, -⟩ := h
  obtain ⟨hc, hd⟩ := snoc_create w.config.slotName w.log w.config.outputPlugin res
  refine ⟨rfl, ?_, hd.trans hdrops, res, hc.trans (by rw [hcreates]; rfl), hres⟩
  change w.producer.ctx.takingSnapshot = true
  rw [hproducer]
  rfl

/-- `replication_slot_create` returns with the slot created, or fails with the command refused, or fails
over the form of the reply, and then the slot is created all the same. -/
theorem replicationSlotCreate_fresh (hname : slot ≠ "") :
    Triple (Fresh slot true) replicationSlotCreate (fun _ => Good slot) (StartEnded slot) := by
  unfold replicationSlotCreate
  refine Triple.get fun w hw => ?_
  have hslot : decide (w.config.slotName ≠ "") = true := by
    rw [hw.slotName]
    simpa using hname
  have hplugin : decide (w.config.outputPlugin ≠ "") = true := by simpa using hw.outputPlugin
  rw [hslot, hplugin]
  refine Triple.bind (Q := fun _ => (· = w)) (Triple.pure fun _ h => h) fun _ => ?_
  refine Triple.bind (Q := fun _ => (· = w)) (Triple.pure fun _ h => h) fun _ => ?_
  refine (askResult_rule (Q := fun res w =>
      (resultStatus res = .tuplesOk → Good slot w) ∧ (resultStatus res ≠ .tuplesOk → Refused slot w))
    ?_ ?_ ?_).bind fun res => ?_
  · rintro _ rfl
    exact Or.inl ⟨hw.creates, hw.drops⟩
  · rintro v reply replies rfl hne
    obtain ⟨hc, hd⟩ := snoc_other slot v.log
      (.createReplicationSlot v.config.slotName v.config.outputPlugin) hne
    exact Or.inl ⟨hc.trans hw.creates, hd.trans hw.drops⟩
  · rintro _ res replies rfl
    exact ⟨fun hres => hw.created hres replies, fun hres => hw.refused hres replies⟩
  · cases res with
    | none => exact Triple.throw fun _ h => Or.inr (h.2 (by simp [resultStatus]))
    | some res =>
      refine Triple.bind (Q := fun _ => Good slot) ?_ fun _ => ?_
      · by_cases hok : res.status = .tuplesOk
        · rw [decide_eq_true hok]
          exact Triple.pure fun _ h => h.1 hok
        · rw [decide_eq_false hok]
          exact Triple.throw fun _ h => Or.inr (h.2 hok)
      -- from here on the slot exists and a failure is an error like any other
      refine Triple.conseq (P := Good slot) (Q := fun _ => Good slot) (E := Ended slot) ?_
        (fun _ h => h) (fun _ _ h => h) (fun _ _ => Ended.start)
      refine (good.check _ _).bind fun _ => ?_
      split
      · split
        · exact good.errno _
        · exact keeps_modifyClient _
      · exact good.errno _

theorem keeps_execSql {query : String} : Keeps slot (Good slot) (execSql query) :=
  (good.askResult rfl (by simp)).bind fun _ => good.check _ _

theorem keeps_snapshotStart : Keeps slot (Good slot) snapshotStart := by
  unfold snapshotStart
  refine keeps_get fun w => (good.check _ _).bind fun _ => keeps_execSql.bind fun _ => ?_
  refine keeps_execSql.bind fun _ => keeps_execSql.bind fun _ => ?_
  refine (good.askFlag rfl (by simp)).bind fun _ => (good.check _ _).bind fun _ => ?_
  refine (good.askFlag rfl (by simp)).bind fun _ => (good.check _ _).bind fun _ => ?_
  exact keeps_callback (by simp)

theorem dbClientStart_fresh :
    Triple (Fresh slot false) dbClientStart (fun _ => Good slot) (StartEnded slot) := by
  have hweaken : ∀ {α : Type} {P : World → Prop} {Q : α → World → Prop} {x : Proc α},
      Triple P x Q (Ended slot) → Triple P x Q (StartEnded slot) :=
    fun h => h.conseq (fun _ h => h) (fun _ _ h => h) (fun _ _ => Ended.start)
  unfold dbClientStart
  refine (hweaken fresh_clientConnect).bind fun _ => ?_
  refine (hweaken fresh_replicationStreamCheck).bind fun _ => ?_
  refine (hweaken replicationSlotExists_fresh).bind fun slotExists => ?_
  refine Triple.ite (fun _ => hweaken ?_) fun _ => ?_
  · refine (Triple.pre (fresh_modifyClient _) fun _ h => h.1).bind fun _ => ?_
    refine (Triple.modify (Q := fun _ => Good slot) fun w h => Fresh.good ?_).bind fun _ =>
      keeps_replicationStreamStart
    exact ⟨h.slotName, h.outputPlugin, by simp only [h.producer]; rfl, h.events, h.creates,
      h.drops, h.results⟩
  · by_cases hname : slot = ""
    · exact fun _ h => absurd hname h.2
    refine (Triple.modify (Q := fun _ => Fresh slot true) fun w h => ?_).bind fun _ =>
      (replicationSlotCreate_fresh hname).bind fun _ => hweaken keeps_snapshotStart
    exact ⟨h.1.slotName, h.1.outputPlugin, by simp only [h.1.producer]; rfl, h.1.events,
      h.1.creates, h.1.drops, h.1.results⟩

/-! ## §6 — every run of the process -/

/-- `exit_nicely` after a refused `CREATE_REPLICATION_SLOT` drops the slot. -/
theorem exitNicely_refused {Q : PUnit → World → Prop} :
    Triple (Refused slot) (exitNicely 1) Q (Ended slot) := by
  refine exitNicely_rule ?_ ?_ ?_ ?_
  · exact fun w hw hn => absurd ⟨hw.2.1, Nat.one_ne_zero⟩ hn
  · rintro w res replies ⟨rfl, -, hd, res', hc, hres⟩ - -
    obtain ⟨hcreates, hdrops⟩ := snoc_drop w.config.slotName w.log res
    refine .refused res' (hcreates.trans hc) hres ?_
    intro hnil
    rw [World.replied, hdrops] at hnil
    simp at hnil
  · rintro w ⟨-, -, -, res, hc, -⟩
    exact Or.inr ⟨res, hc⟩
  · rintro w reply replies ⟨-, -, -, res, hc, -⟩ hne
    obtain ⟨hcreates, -⟩ :=
      snoc_other slot w.log (.dropReplicationSlot w.config.slotName) hne
    exact Or.inr ⟨res, hcreates.trans hc⟩

theorem keeps_ensure {call : Proc PUnit} (h : Keeps slot (Good slot) call) :
    Keeps slot (Good slot) (ensure call) := by
  unfold ensure
  refine (attempt_keeps h).bind fun err => ?_
  cases err with
  | none => exact keeps_pure PUnit.unit
  | some err => exact exitNicely_sound 1

theorem ensure_dbClientStart :
    Triple (Fresh slot false) (ensure dbClientStart) (fun _ => Good slot) (Ended slot) := by
  unfold ensure
  refine (attempt_rule (Q := fun
      | none => Good slot
      | some _ => fun w => Sound slot w ∨ Refused slot w)
    (dbClientStart_fresh.conseq (fun _ h => h) (fun _ _ h => h) ?_)).bind fun err => ?_
  · intro fault w hw
    cases fault <;> exact hw
  · cases err with
    | none => exact keeps_pure PUnit.unit
    | some err =>
      rintro w (hw | hw)
      · exact exitNicely_sound 1 w hw
      · exact exitNicely_refused w hw

theorem keeps_dbClientWait : Keeps slot (Good slot) dbClientWait := by
  unfold dbClientWait
  refine (good.ask rfl (by simp)).bind fun reply => ?_
  cases reply with
  | waited err =>
    cases err with
    | none => exact keeps_pure PUnit.unit
    | some err => exact good.errno err
  | _ => exact good.blocked

theorem keeps_mainBody : Keeps slot (Good slot) mainBody :=
  (keeps_ensure keeps_dbClientPoll).bind fun _ => keeps_get fun _ =>
    keeps_ite ((keeps_ensure keeps_dbClientWait).bind fun _ => keeps_rdKafkaPoll) keeps_rdKafkaPoll

theorem keeps_mainLoop (rounds : Nat) : Keeps slot (Good slot) (mainLoop rounds) := by
  induction rounds with
  | zero => exact good.blocked
  | succ rounds ih =>
    unfold mainLoop
    refine keeps_get fun w => keeps_ite ?_ (keeps_pure PUnit.unit)
    refine (good.askFlag rfl (by simp)).bind fun signalled => ?_
    exact keeps_ite (keeps_pure PUnit.unit) (keeps_mainBody.bind fun _ => ih)

theorem main_ended (rounds : Nat) :
    Triple (Fresh slot false) (main rounds) (fun _ => Good slot) (Ended slot) :=
  ensure_dbClientStart.bind fun _ => (keeps_mainLoop rounds).bind fun _ => good.exitNicely 0

theorem start_fresh (conninfo slotName : String) (allowUnkeyed : Bool) (replies : List Reply) :
    Fresh slotName false (World.start (initClient conninfo slotName allowUnkeyed) replies) :=
  ⟨rfl, by simp [World.start, initClient], rfl, rfl, rfl, rfl, fun _ h => by simp [World.start] at h⟩

/-! ### Runs used below -/

def commandOk : Reply := .result (some ⟨.commandOk, [], 0, 0⟩)

/-- Both connections are made, and `IDENTIFY_SYSTEM` answers with one row of four fields. -/
def connected : List Reply :=
  [.flag true, .flag true, .flag true,
    .result (some ⟨.tuplesOk, [[some [49], some [49], some [49], some [49]]], 4, 0⟩)]

/-- There is no slot; it is created at LSN 0/16, the snapshot query starts, and its first row is
accepted by Kafka. -/
def snapshotUnderWay : List Reply :=
  connected ++
    [.result (some ⟨.tuplesOk, [], 1, 0⟩),
      .result (some ⟨.tuplesOk, [[some [98], some [48, 47, 49, 54], some [115], some [98]]], 4, 0⟩),
      commandOk, commandOk, commandOk, .flag true, .flag true, .during [] none,
      .flag false, .flag false, .result (some ⟨.singleTuple, [[some [0]]], 1, 1⟩),
      .frame [.row 16384 (some ⟨"users", none, none⟩)] none,
      .during [.rdKafkaProduce false false] none]

/-- The process receives a signal while the row is still unacknowledged. -/
def signalled : List Reply := snapshotUnderWay ++ [.during [] none, .flag true]

/-- Kafka reports that the row could not be delivered, and the server drops the slot. -/
def undelivered : List Reply :=
  snapshotUnderWay ++ [.during [.onDeliverMsg 0 true] none, commandOk]

/-- The slot exists without a restart LSN, so that creating it fails; the server then drops it. -/
def foreignSlot : List Reply :=
  connected ++
    [.result (some ⟨.tuplesOk, [[none]], 1, 0⟩), .result (some ⟨.fatalError, [], 0, 0⟩), commandOk]

def config : Config := initClient "postgres://localhost/test" "bottledwater" false

section Runs

variable {conninfo slotName : String} {allowUnkeyed : Bool} {replies : List Reply} {rounds : Nat}
  {w : World}

/-- **The slot after an error.**  In a run that has created the slot and ends with a non-zero status before
the connection is in COPY BOTH mode, the slot has been dropped, or the snapshot was read to its end and
every message of it is acknowledged.  With status 0 no attempt is made to drop the slot. -/
theorem snapshot_dropped_or_complete {status : Nat}
    (h : main rounds (World.start (initClient conninfo slotName allowUnkeyed) replies) =
      .error (.exited status) w)
    (hpg : FromPostgres w.events) (hcreated : Created slotName w.log)
    (hserver : DropsCarriedOut slotName w.log) :
    (status ≠ 0 → ¬ CopyBoth w.log →
      Dropped slotName w.log ∨ SnapshotRead w.log ∧ w.producer.SnapshotDurable) ∧
    (status = 0 → drops slotName w.log = []) := by
  have hleft : Left slotName status w :=
    (main_ended rounds).of_error (start_fresh conninfo slotName allowUnkeyed replies) h
  obtain ⟨res, hmem, hok⟩ := hcreated
  cases hleft with
  | untouched hc _ => simp [hc] at hmem
  | refused res' hc hres _ =>
    rw [hc, List.mem_singleton] at hmem
    exact absurd (hmem ▸ hok) hres
  | created res' hc hres run committed hdrop hkeep =>
    refine ⟨fun hstatus hmode => ?_, hkeep⟩
    cases hflag : w.takingSnapshot with
    | true => exact Or.inl (hserver.dropped hmode (hdrop hflag hstatus))
    | false =>
      -- the flag is down: the snapshot is durable, so its end has been reported, so it was read
      obtain ⟨t, ht, hd⟩ := System.run_snapshotDurable run hpg hflag
      obtain ⟨lsn, hlsn⟩ := Option.isSome_iff_exists.mp (t.durable_iff.mp hd).1
      have hreported := System.run_commitReported run hpg t lsn ht hlsn
      exact Or.inr ⟨committed lsn hreported, t, ht, hd⟩

theorem snapshot_dropped_undelivered :
    ∃ w, main 1 (World.start config undelivered) = .error (.exited 1) w ∧
      FromPostgres w.events ∧ Created "bottledwater" w.log ∧ DropsCarriedOut "bottledwater" w.log ∧
      ¬ CopyBoth w.log ∧
      (Dropped "bottledwater" w.log ∨ SnapshotRead w.log ∧ w.producer.SnapshotDurable) := by
  have hrun : main 1 (World.start config undelivered) = .error (.exited 1) _ :=
    eq_error_of_faultOf (by decide +kernel)
  have hpg : FromPostgres (finalWorld (main 1 (World.start config undelivered))).events := by
    decide +kernel
  have hcreated : Created "bottledwater" (finalWorld (main 1 (World.start config undelivered))).log := by
    unfold Created
    decide +kernel
  have hdrops : ∀ res ∈ drops "bottledwater" (finalWorld (main 1 (World.start config undelivered))).log,
      resultStatus res = .commandOk := by decide +kernel
  have hserver : DropsCarriedOut "bottledwater" (finalWorld (main 1 (World.start config undelivered))).log :=
    fun n res hn _ => hdrops res (mem_drops.mpr (List.mem_of_getElem? hn))
  have hmode : ¬ CopyBoth (finalWorld (main 1 (World.start config undelivered))).log := by
    unfold CopyBoth
    decide +kernel
  exact ⟨_, hrun, hpg, hcreated, hserver, hmode,
    (snapshot_dropped_or_complete hrun hpg hcreated hserver).1 Nat.one_ne_zero hmode⟩

/-- A signal during the snapshot ends the process with status 0: the slot stays, the query was not read
to its end, and a row of it was never acknowledged. -/
theorem signalled_keeps_slot :
    ∃ w, main 2 (World.start config signalled) = .error (.exited 0) w ∧
      FromPostgres w.events ∧ Created "bottledwater" w.log ∧
      ¬ (Dropped "bottledwater" w.log ∨ SnapshotRead w.log ∧ w.producer.SnapshotDurable) := by
  have hrun : main 2 (World.start config signalled) = .error (.exited 0) _ :=
    eq_error_of_faultOf (by decide +kernel)
  refine ⟨_, hrun, by decide +kernel, ?_, ?_⟩
  · unfold Created
    decide +kernel
  · rintro (hdropped | ⟨-, t, ht, hd⟩)
    · revert hdropped
      unfold Dropped
      decide +kernel
    · have hfirst : ((finalWorld (main 2 (World.start config signalled))).producer.txns[0]?.map
          Txn.durable) = some false := by decide +kernel
      rw [ht] at hfirst
      simp [hd] at hfirst

/-- **Whose slot is dropped.**  If the server never refuses `CREATE_REPLICATION_SLOT`, the slot is only
dropped by a process that has created it; and in a run that ends, that is the exact condition. -/
theorem drops_own_slot_iff {fault : Fault}
    (h : main rounds (World.start (initClient conninfo slotName allowUnkeyed) replies) =
      .error fault w) :
    ((∀ res ∈ creates slotName w.log, resultStatus res = .tuplesOk) →
      drops slotName w.log ≠ [] → Created slotName w.log) ∧
    ((∃ status, fault = .exited status) →
      ((drops slotName w.log ≠ [] → Created slotName w.log) ↔
        ∀ res ∈ creates slotName w.log, resultStatus res = .tuplesOk)) := by
  have hended : Ended slotName fault w :=
    (main_ended rounds).of_error (start_fresh conninfo slotName allowUnkeyed replies) h
  have hnone : creates slotName w.log = [] ∧ drops slotName w.log = [] ∨
      ∃ res, creates slotName w.log = [res] := by
    cases fault with
    | errno err =>
      cases hended with
      | streaming _ _ hc hd => exact Or.inl ⟨hc, hd⟩
      | snapshot res _ _ _ hc _ _ => exact Or.inr ⟨res, hc⟩
    | exited status =>
      cases hended with
      | untouched hc hd => exact Or.inl ⟨hc, hd⟩
      | refused res hc _ _ => exact Or.inr ⟨res, hc⟩
      | created res hc _ _ _ _ _ => exact Or.inr ⟨res, hc⟩
    | blocked => exact hended
  have henough : (∀ res ∈ creates slotName w.log, resultStatus res = .tuplesOk) →
      drops slotName w.log ≠ [] → Created slotName w.log := by
    intro hall hdrops
    rcases hnone with ⟨-, hd⟩ | ⟨res, hc⟩
    · exact absurd hd hdrops
    · have hmem : res ∈ creates slotName w.log := by simp [hc]
      exact ⟨res, hmem, hall res hmem⟩
  refine ⟨henough, ?_⟩
  rintro ⟨status, rfl⟩
  refine ⟨fun hown res hmem => ?_, henough⟩
  cases hended with
  | untouched hc _ => simp [hc] at hmem
  | refused res' hc hres hd =>
    -- the refused process drops the slot all the same
    obtain ⟨res'', hmem'', hok⟩ := hown hd
    rw [hc, List.mem_singleton] at hmem''
    exact absurd (hmem'' ▸ hok) hres
  | created res' hc hres _ _ _ _ =>
    rw [hc, List.mem_singleton] at hmem
    exact hmem ▸ hres

theorem drops_own_slot_undelivered :
    ∃ w, main 1 (World.start config undelivered) = .error (.exited 1) w ∧
      drops "bottledwater" w.log ≠ [] ∧ Created "bottledwater" w.log := by
  have hrun : main 1 (World.start config undelivered) = .error (.exited 1) _ :=
    eq_error_of_faultOf (by decide +kernel)
  have hdrops : drops "bottledwater" (finalWorld (main 1 (World.start config undelivered))).log ≠ [] := by
    decide +kernel
  exact ⟨_, hrun, hdrops, (drops_own_slot_iff hrun).1 (by decide +kernel) hdrops⟩

/-- The slot of another client, which has no restart LSN yet, is dropped. -/
theorem foreignSlot_dropped :
    ∃ w, main 1 (World.start config foreignSlot) = .error (.exited 1) w ∧
      ¬ (drops "bottledwater" w.log ≠ [] → Created "bottledwater" w.log) := by
  have hrun : main 1 (World.start config foreignSlot) = .error (.exited 1) _ :=
    eq_error_of_faultOf (by decide +kernel)
  refine ⟨_, hrun, ?_⟩
  unfold Created
  decide +kernel

end Runs

end BottledWater.Process
