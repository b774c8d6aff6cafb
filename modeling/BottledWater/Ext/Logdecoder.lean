/-
# BottledWater.Ext.Logdecoder — the output plugin, from its start to the end of the stream.

`ext/logdecoder.c` gives logical decoding one callback for the begin of a transaction, one for each changed
row and one for the commit.  All of them build the frame in one value of the plugin's state, which they
reset first, and write it out; the schema cache is the other part of the state, and the only one that a
callback learns from the calls before it (`PluginState.output_eq_ok`).

An error is an `elog(ERROR)`, which ends the decoding.  The position at which a frame is sent comes from
Postgres with each call.
-/
import BottledWater.Ext.IoUtil
import BottledWater.Lib.Proc

namespace BottledWater.Ext.Logdecoder

open BottledWater.Lib BottledWater.Lib.Avro BottledWater.Protocol

/-! ## §1 — State and calls -/

/-- `plugin_state`, less the memory context and the schema of a frame. -/
structure PluginState where
  frameValue : Value
  schemaCache : SchemaCache

/-- `ReorderBufferChange`: the action, and the tuples that came with it. -/
inductive ReorderBufferChange (δ : Type) where
  | insert (newtuple : Option (HeapTuple δ))
  | update (oldtuple newtuple : Option (HeapTuple δ))
  | delete (oldtuple : Option (HeapTuple δ))
  /-- An action that the reorder buffer keeps to itself. -/
  | internal (action : Nat)

/-- The errors, with the callback that reports them. -/
inductive DecoderError
  /-- "output_avro_change: insert action without a tuple" -/
  | insertWithoutTuple
  /-- "output_avro_change: update action without a tuple" -/
  | updateWithoutTuple
  /-- "output_avro_change: unknown change action %d" -/
  | unknownAction (action : Nat)
  /-- "%s: Avro conversion failed: %s" -/
  | avroConversion (callback : String)
  /-- "output_avro_change: row conversion failed: %s" -/
  | rowConversion (error : PluginError)
  /-- "%s: writing Avro binary failed: %s" -/
  | writingAvro (callback : String) (error : PluginError)
  deriving DecidableEq, Repr

/-- A call of one of the three callbacks, with the catalog as it is at that time. -/
inductive DecodingCall (δ : Type) where
  | beginTxn (xid : UInt32)
  | change (namespaces : Namespaces) (rel : Table) (change : ReorderBufferChange δ)
  | commitTxn (xid : UInt32) (commitLsn : UInt64)

/-! ## §2 — The callbacks -/

/-- `output_avro_startup`. -/
def outputAvroStartup : PluginState := ⟨emptyFrame, schemaCacheNew⟩

/-- `reset_frame`. -/
def resetFrame (state : PluginState) : PluginState := { state with frameValue := emptyFrame }

/-- `write_frame`, and the error that the callback makes of its failure. -/
def writeFrame (callback : String) (state : PluginState) : Except DecoderError Bytes :=
  (tryWriting (encode state.frameValue)).mapError (.writingAvro callback)

/-- The end of a callback: the frame it has built, if it could, is kept in the state and written. -/
def writeUpdated (callback : String) (state : PluginState) (failed : DecoderError) :
    Option Value → Except DecoderError (PluginState × Bytes)
  | none => .error failed
  | some frameValue => do
    let state := { state with frameValue }
    let output ← writeFrame callback state
    pure (state, output)

/-- `output_avro_begin_txn`. -/
def outputAvroBeginTxn (state : PluginState) (xid : UInt32) : Except DecoderError (PluginState × Bytes) :=
  let state := resetFrame state
  writeUpdated "output_avro_begin_txn" state (.avroConversion "output_avro_begin_txn")
    (updateFrameWithBeginTxn state.frameValue xid)

/-- `output_avro_commit_txn`. -/
def outputAvroCommitTxn (state : PluginState) (xid : UInt32) (commitLsn : UInt64) :
    Except DecoderError (PluginState × Bytes) :=
  let state := resetFrame state
  writeUpdated "output_avro_commit_txn" state (.avroConversion "output_avro_commit_txn")
    (updateFrameWithCommitTxn state.frameValue xid commitLsn)

section

variable {δ : Type} (conv : Conversions δ)

/-- The `switch` of `output_avro_change`: what is put into the frame, and the cache afterwards. -/
def changeMessages (namespaces : Namespaces) (cache : SchemaCache) (rel : Table) :
    ReorderBufferChange δ → Except DecoderError (SchemaCache × List Message)
  | .insert none => .error .insertWithoutTuple
  | .insert (some newtuple) =>
    (updateFrameWithInsert conv namespaces cache rel rel.tupdesc newtuple).mapError .rowConversion
  | .update _ none => .error .updateWithoutTuple
  | .update oldtuple (some newtuple) =>
    (updateFrameWithUpdate conv namespaces cache rel oldtuple newtuple).mapError .rowConversion
  | .delete oldtuple =>
    (updateFrameWithDelete conv namespaces cache rel oldtuple).mapError .rowConversion
  | .internal action => .error (.unknownAction action)

/-- `output_avro_change`. -/
def outputAvroChange (state : PluginState) (namespaces : Namespaces) (rel : Table)
    (change : ReorderBufferChange δ) : Except DecoderError (PluginState × Bytes) := do
  let state := resetFrame state
  let (schemaCache, msgs) ← changeMessages conv namespaces state.schemaCache rel change
  writeUpdated "output_avro_change" { state with schemaCache } (.rowConversion .avro)
    (msgs.foldlM updateFrameWith state.frameValue)

/-- One call: the state and the frame that is written. -/
def PluginState.output (state : PluginState) : DecodingCall δ → Except DecoderError (PluginState × Bytes)
  | .beginTxn xid => outputAvroBeginTxn state xid
  | .change namespaces rel change => outputAvroChange conv state namespaces rel change
  | .commitTxn xid commitLsn => outputAvroCommitTxn state xid commitLsn

/-- The calls of a stream, each with the position that its frame is sent with. -/
def PluginState.outputs : PluginState → List (UInt64 × DecodingCall δ) →
    Except DecoderError (PluginState × List (UInt64 × Bytes))
  | state, [] => pure (state, [])
  | state, (walPos, call) :: calls => do
    let (state, frame) ← state.output conv call
    let (state, frames) ← state.outputs calls
    pure (state, (walPos, frame) :: frames)

/-! ## §3 — What a call writes -/

/-- The messages of a call, and the cache afterwards. -/
def DecodingCall.messages (cache : SchemaCache) :
    DecodingCall δ → Except DecoderError (SchemaCache × List Message)
  | .beginTxn xid => .ok (cache, [.beginTxn xid])
  | .change namespaces rel row => changeMessages conv namespaces cache rel row
  | .commitTxn xid commitLsn => .ok (cache, [.commitTxn xid commitLsn])

variable {conv}

theorem writeUpdated_eq_ok {callback : String} {state state' : PluginState} {failed : DecoderError}
    {frame : Value} {output : Bytes}
    (h : writeUpdated callback state failed (some frame) = .ok (state', output)) :
    state'.schemaCache = state.schemaCache ∧ tryWriting (encode frame) = .ok output := by
  simp only [writeUpdated, writeFrame] at h
  cases hwrite : tryWriting (encode frame) with
  | error e =>
    rw [hwrite] at h
    cases h
  | ok written =>
    rw [hwrite] at h
    cases h
    exact ⟨rfl, rfl⟩

/-- A frame is written only if it fits in the largest buffer, and then as it is. -/
theorem eq_encode_of_tryWriting {v : Value} {frame : Bytes} (h : tryWriting (encode v) = .ok frame) :
    frame = encode v ∧ (encode v).length < maxSize := by
  refine ⟨eq_of_tryWriting h, ?_⟩
  rw [IoUtil.tryWriting_server_eq] at h
  split at h
  · have hmax : maxBufferLength < maxSize := by decide
    omega
  · cases h

/-- **What a call writes**: the messages of the call, in a frame of their own.  Of the state it uses the
cache, and the frame value is what the last call left. -/
theorem PluginState.output_eq_ok {state state' : PluginState} {call : DecodingCall δ} {frame : Bytes}
    (h : state.output conv call = .ok (state', frame)) :
    ∃ msgs, call.messages conv state.schemaCache = .ok (state'.schemaCache, msgs) ∧
      frame = encode (Protocol.frameValue msgs) ∧ (encode (Protocol.frameValue msgs)).length < maxSize := by
  cases call with
  | beginTxn xid =>
    have hupdated : writeUpdated "output_avro_begin_txn" (resetFrame state)
        (.avroConversion "output_avro_begin_txn") (some (Protocol.frameValue [.beginTxn xid])) =
          .ok (state', frame) := h
    obtain ⟨hcache, hwrite⟩ := writeUpdated_eq_ok hupdated
    refine ⟨[.beginTxn xid], ?_, eq_encode_of_tryWriting hwrite⟩
    rw [hcache]
    rfl
  | commitTxn xid commitLsn =>
    have hupdated : writeUpdated "output_avro_commit_txn" (resetFrame state)
        (.avroConversion "output_avro_commit_txn")
        (some (Protocol.frameValue [.commitTxn xid commitLsn])) = .ok (state', frame) := h
    obtain ⟨hcache, hwrite⟩ := writeUpdated_eq_ok hupdated
    refine ⟨[.commitTxn xid commitLsn], ?_, eq_encode_of_tryWriting hwrite⟩
    rw [hcache]
    rfl
  | change namespaces rel change =>
    simp only [PluginState.output, outputAvroChange, except_bind_eq_ok] at h
    obtain ⟨⟨cache, msgs⟩, hmsgs, h⟩ := h
    have hfold : msgs.foldlM updateFrameWith (resetFrame state).frameValue =
        some (Protocol.frameValue msgs) :=
      foldlM_updateFrameWith [] msgs
    rw [hfold] at h
    obtain ⟨hcache, hwrite⟩ := writeUpdated_eq_ok h
    refine ⟨msgs, ?_, eq_encode_of_tryWriting hwrite⟩
    rw [hcache]
    exact hmsgs

theorem PluginState.outputs_cons_eq_ok {state state' : PluginState} {walPos : UInt64}
    {call : DecodingCall δ} {calls : List (UInt64 × DecodingCall δ)} {frames : List (UInt64 × Bytes)}
    (h : state.outputs conv ((walPos, call) :: calls) = .ok (state', frames)) :
    ∃ state₁ frame rest, state.output conv call = .ok (state₁, frame) ∧
      state₁.outputs conv calls = .ok (state', rest) ∧ frames = (walPos, frame) :: rest := by
  simp only [PluginState.outputs, except_bind_eq_ok] at h
  obtain ⟨⟨state₁, frame⟩, hfirst, ⟨state₂, rest⟩, hrest, hframes⟩ := h
  cases hframes
  exact ⟨state₁, frame, rest, hfirst, hrest, rfl⟩

end

end BottledWater.Ext.Logdecoder
