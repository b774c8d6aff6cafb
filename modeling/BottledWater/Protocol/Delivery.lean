/-
# BottledWater.Protocol.Delivery — what the client does with a frame the server built.

`processMessage_ok_iff` says of each message when the client takes it, which callback it makes and which
schema list it is left with, in terms of the message and not of its Avro value; `processFrame_ok_iff` is
the same for a whole frame.  With the round trip of the encoding this gives the wire protocol from end
to end: a frame goes through `parse_frame` message by message, and one byte too many stops it before the
first callback.
-/
import BottledWater.Client.Protocol
import BottledWater.Lib.Proc

namespace BottledWater.Protocol

open BottledWater.Lib BottledWater.Lib.Avro BottledWater.Client

/-! ## §1 — Messages, callbacks and schemas -/

section

variable (avro : Libavro)

/-- The bytes are a complete value of the schema. -/
def Readable (s : Schema) (bin : Bytes) : Prop := ∃ v, avro.valueRead s bin = some (v, [])

/-- The schema of a nullable text. -/
def schemaOfText : Option Bytes → Option (Option Schema)
  | none => some none
  | some text => (avro.schemaFromJson text).map some

/-- A key that the client can read: none, or one readable under the key schema of the table. -/
def TakesKey (entry : SchemaListEntry) (key : Option Bytes) : Prop :=
  ∀ k ∈ key, ∃ s, entry.keySchema = some s ∧ Readable avro s k

def TakesRow (entry : SchemaListEntry) (row : Bytes) : Prop :=
  Readable avro entry.rowSchema row

/-- The entry of a table. -/
def announced (reader : FrameReader) (relid : Oid) : Option SchemaListEntry :=
  schemaListLookup reader (longOfUInt32 relid)

namespace Message

/-- **`m.Acceptable avro reader`** — a schema message has schema texts; a row message is about a table
that was announced, and its bytes are values of the announced schemas. -/
def Acceptable (reader : FrameReader) : Message → Prop
  | .beginTxn _ => True
  | .commitTxn _ _ => True
  | .tableSchema _ key row => (avro.schemaFromJson row).isSome ∧ (schemaOfText avro key).isSome
  | .insert relid key new => ∃ entry, announced reader relid = some entry ∧
      TakesKey avro entry key ∧ TakesRow avro entry new
  | .update relid key old new => ∃ entry, announced reader relid = some entry ∧
      TakesKey avro entry key ∧ (∀ row ∈ old, TakesRow avro entry row) ∧
      TakesRow avro entry new
  | .delete relid key old => ∃ entry, announced reader relid = some entry ∧
      TakesKey avro entry key ∧ ∀ row ∈ old, TakesRow avro entry row

/-- The schemas that a message announces. -/
def announces : Message → Option SchemaListEntry
  | .tableSchema relid key row => do
    let rowSchema ← avro.schemaFromJson row
    let keySchema ← schemaOfText avro key
    some ⟨relid, keySchema, rowSchema⟩
  | _ => none

/-- The reader after a message. -/
def readerAfter (reader : FrameReader) (m : Message) : FrameReader :=
  match m.announces avro with
  | some entry => schemaListReplace reader entry.key entry
  | none => reader

/-- **`m.callback avro walPos`** — the callback for a message, with the same data. -/
def callback (walPos : UInt64) : Message → Option Callback
  | .beginTxn xid => some (.beginTxn walPos xid)
  | .commitTxn xid _ => some (.commitTxn walPos xid)
  | .tableSchema relid key row => do
    let rowSchema ← avro.schemaFromJson row
    let keySchema ← schemaOfText avro key
    some (.tableSchema walPos relid key keySchema row rowSchema)
  | .insert relid key new => some (.insertRow walPos relid key new)
  | .update relid key old new => some (.updateRow walPos relid key old new)
  | .delete relid key old => some (.deleteRow walPos relid key old)

end Message

/-- Each message is acceptable after those before it. -/
def AllAcceptable : FrameReader → List Message → Prop
  | _, [] => True
  | reader, m :: msgs => m.Acceptable avro reader ∧ AllAcceptable (m.readerAfter avro reader) msgs

/-- The reader after a frame. -/
def readerAfterAll (reader : FrameReader) (msgs : List Message) : FrameReader :=
  msgs.foldl (Message.readerAfter avro) reader

end

/-! The data of a table schema message whose texts are schemas. -/

section

variable {avro : Libavro} {relid : Oid} {key : Option Bytes} {row : Bytes} {keySchema : Option Schema}
  {rowSchema : Schema} (hrow : avro.schemaFromJson row = some rowSchema)
  (hkey : schemaOfText avro key = some keySchema)

include hrow hkey

theorem Message.announces_tableSchema :
    (Message.tableSchema relid key row).announces avro = some ⟨relid, keySchema, rowSchema⟩ := by
  simp [Message.announces, hrow, hkey]

theorem Message.callback_tableSchema {walPos : UInt64} :
    (Message.tableSchema relid key row).callback avro walPos =
      some (.tableSchema walPos relid key keySchema row rowSchema) := by
  simp [Message.callback, hrow, hkey]

theorem Message.readerAfter_tableSchema {reader : FrameReader} :
    (Message.tableSchema relid key row).readerAfter avro reader =
      schemaListReplace reader (longOfUInt32 relid) ⟨relid, keySchema, rowSchema⟩ := by
  unfold Message.readerAfter
  rw [Message.announces_tableSchema hrow hkey]
  rfl

end

/-! ## §2 — The parts of the client -/

section

variable {κ : Type} {s t : Session κ}

theorem check_eq_ok {α : Type} {o : Option α} {a : α} :
    (check o : ProtocolM κ α) s = .ok a t ↔ o = some a ∧ s = t := by
  cases o with
  | none => simp [check, throw_eq_ok]
  | some b => simp [check, pure_eq_ok]

theorem readEntirely_eq_ok {read : Reader Value} {buf : Bytes} {v : Value} :
    (readEntirely read buf : ProtocolM κ Value) s = .ok v t ↔ read buf = some (v, []) ∧ s = t := by
  unfold readEntirely
  rcases read buf with _ | ⟨w, _ | ⟨b, rest⟩⟩
  · simp [throw_eq_ok]
  · simp [pure_eq_ok]
  · simp [throw_eq_ok]

theorem discard_eq_ok {α : Type} {x : ProtocolM κ α} {u : Unit} :
    (discard x : ProtocolM κ Unit) s = .ok u t ↔ ∃ a, x s = .ok a t := by
  show (x >>= fun _ => pure ()) s = .ok u t ↔ _
  simp only [bind_eq_ok, pure_eq_ok, true_and, exists_eq_right]

theorem invoke_eq_ok {on : Callback → κ → Int × κ} {call : Callback} {u : Unit} :
    invoke on call s = .ok u t ↔
      (on call s.context).1 = 0 ∧ ⟨s.reader, (on call s.context).2⟩ = t := by
  show (if (on call s.context).1 ≠ 0 then throw (.callback (on call s.context).1) else pure () :
    ProtocolM κ Unit) ⟨s.reader, (on call s.context).2⟩ = .ok u t ↔ _
  by_cases h : (on call s.context).1 = 0
  · simp [h, pure_eq_ok]
  · simp [h, throw_eq_ok]

theorem lookupOrFail_eq_ok {event : String} {relid : Int64} {entry : SchemaListEntry} :
    lookupOrFail event relid s = .ok entry t ↔
      schemaListLookup s.reader relid = some entry ∧ s = t := by
  show (match schemaListLookup s.reader relid with
    | some entry => pure entry
    | none => throw (.unknownRelid event relid) : ProtocolM κ SchemaListEntry) s = .ok entry t ↔ _
  cases schemaListLookup s.reader relid with
  | none => simp [throw_eq_ok]
  | some e => simp [pure_eq_ok]

theorem setEntry_eq_ok {relid : Oid} {keySchema : Option Schema} {rowSchema : Schema} {u : Unit} :
    setEntry (longOfUInt32 relid) keySchema rowSchema s = .ok u t ↔
      ⟨schemaListReplace s.reader (longOfUInt32 relid) ⟨relid, keySchema, rowSchema⟩, s.context⟩ = t := by
  rw [setEntry, uint32OfLong_longOfUInt32, modify_eq_ok]

variable {avro : Libavro}

theorem readKey_eq_ok {entry : SchemaListEntry} {bin : Bytes} {u : Unit} :
    entry.readKey avro bin s = .ok u t ↔
      (∃ schema, entry.keySchema = some schema ∧ Readable avro schema bin) ∧ s = t := by
  unfold SchemaListEntry.readKey
  cases entry.keySchema with
  | none => simp [throw_eq_ok]
  | some schema => simp [discard_eq_ok, readEntirely_eq_ok, Readable]

theorem readRow_eq_ok {entry : SchemaListEntry} {bin : Bytes} {u : Unit} :
    entry.readRow avro bin s = .ok u t ↔ TakesRow avro entry bin ∧ s = t := by
  unfold SchemaListEntry.readRow
  simp [discard_eq_ok, readEntirely_eq_ok, TakesRow, Readable]

/-- `readNullable`, on the bytes themselves. -/
def readOptional (read : Bytes → ProtocolM κ Unit) : Option Bytes → ProtocolM κ (Option Bytes)
  | none => pure none
  | some bin => do
    read bin
    pure (some bin)

theorem readOptional_eq_ok {read : Bytes → ProtocolM κ Unit} {P : Bytes → Prop}
    (hread : ∀ bin u s t, read bin s = .ok u t ↔ P bin ∧ s = t)
    {b r : Option Bytes} :
    readOptional read b s = .ok r t ↔ b = r ∧ (∀ bin ∈ b, P bin) ∧ s = t := by
  cases b with
  | none => simp [readOptional, pure_eq_ok]
  | some bin =>
    simp only [readOptional, bind_eq_ok, hread, pure_eq_ok, Option.mem_some_iff, forall_eq']
    constructor
    · rintro ⟨_, _, ⟨hP, rfl⟩, rfl, rfl⟩
      exact ⟨rfl, hP, rfl⟩
    · rintro ⟨rfl, hP, rfl⟩
      exact ⟨(), s, ⟨hP, rfl⟩, rfl, rfl⟩

theorem readOptionalKey_eq_ok {entry : SchemaListEntry} {b r : Option Bytes} :
    readOptional (entry.readKey avro) b s = .ok r t ↔
      b = r ∧ TakesKey avro entry b ∧ s = t :=
  readOptional_eq_ok (P := fun bin => ∃ schema, entry.keySchema = some schema ∧
    Readable avro schema bin) fun _ _ _ _ => readKey_eq_ok

theorem readOptionalRow_eq_ok {entry : SchemaListEntry} {b r : Option Bytes} :
    readOptional (entry.readRow avro) b s = .ok r t ↔
      b = r ∧ (∀ bin ∈ b, TakesRow avro entry bin) ∧ s = t :=
  readOptional_eq_ok (P := TakesRow avro entry) fun _ _ _ _ => readRow_eq_ok

/-- The key schema comes out with the text that was put in. -/
theorem parseKeySchema_eq_ok {key : Option Bytes} {r : Option (Bytes × Schema)} :
    parseKeySchema avro (nullable (key.map jsonString)) (if key.isSome then 1 else 0) s = .ok r t ↔
      r.map Prod.fst = key ∧ schemaOfText avro key = some (r.map Prod.snd) ∧ s = t := by
  cases key with
  | none =>
    show (pure none : ProtocolM κ _) s = .ok r t ↔ _
    cases r <;> simp [pure_eq_ok, schemaOfText]
  | some text =>
    show ((check (avro.schemaFromJson (text ++ [0]).dropLast) : ProtocolM κ Schema) >>= fun schema =>
      pure (some ((text ++ [0]).dropLast, schema))) s = .ok r t ↔ _
    rw [List.dropLast_concat]
    simp only [bind_eq_ok, check_eq_ok, pure_eq_ok, schemaOfText]
    constructor
    · rintro ⟨schema, _, ⟨hschema, rfl⟩, rfl, rfl⟩
      simp [hschema]
    · rintro ⟨htext, hschema, rfl⟩
      obtain ⟨⟨_, schema⟩, rfl, rfl⟩ := Option.map_eq_some_iff.mp htext
      obtain ⟨_, hschema, ⟨⟩⟩ := Option.map_eq_some_iff.mp hschema
      exact ⟨schema, s, ⟨hschema, rfl⟩, rfl, rfl⟩

theorem exists_of_schemaOfText {key : Option Bytes} {keySchema : Option Schema}
    (h : schemaOfText avro key = some keySchema) :
    ∃ r : Option (Bytes × Schema), r.map Prod.fst = key ∧ r.map Prod.snd = keySchema := by
  cases key with
  | none =>
    cases h
    exact ⟨none, rfl, rfl⟩
  | some text =>
    obtain ⟨schema, -, rfl⟩ := Option.map_eq_some_iff.mp h
    exact ⟨some (text, schema), rfl, rfl⟩

/-! ## §3 — One message -/

variable {on : Callback → κ → Int × κ} {walPos : UInt64}

/-! The steps of a row message, without the Avro value around its fields. -/

theorem processMessage_insert (relid : Oid) (key : Option Bytes) (new : Bytes) :
    processMessage on avro walPos (Message.insert relid key new).value = (do
      let entry ← lookupOrFail "insert" (longOfUInt32 relid)
      let keyBin ← readOptional (entry.readKey avro) key
      entry.readRow avro new
      invoke on (.insertRow walPos (uint32OfLong (longOfUInt32 relid)) keyBin new)) := by
  cases key <;> rfl

theorem processMessage_update (relid : Oid) (key old : Option Bytes) (new : Bytes) :
    processMessage on avro walPos (Message.update relid key old new).value = (do
      let entry ← lookupOrFail "update" (longOfUInt32 relid)
      let keyBin ← readOptional (entry.readKey avro) key
      let oldBin ← readOptional (entry.readRow avro) old
      entry.readRow avro new
      invoke on (.updateRow walPos (uint32OfLong (longOfUInt32 relid)) keyBin oldBin new)) := by
  cases key <;> cases old <;> rfl

theorem processMessage_delete (relid : Oid) (key old : Option Bytes) :
    processMessage on avro walPos (Message.delete relid key old).value = (do
      let entry ← lookupOrFail "delete" (longOfUInt32 relid)
      let keyBin ← readOptional (entry.readKey avro) key
      let oldBin ← readOptional (entry.readRow avro) old
      invoke on (.deleteRow walPos (uint32OfLong (longOfUInt32 relid)) keyBin oldBin)) := by
  cases key <;> cases old <;> rfl

theorem processMessage_insert_eq_ok {relid : Oid} {key : Option Bytes} {new : Bytes} {u : Unit} :
    processMessage on avro walPos (Message.insert relid key new).value s = .ok u t ↔
      (Message.insert relid key new).Acceptable avro s.reader ∧
        invoke on (.insertRow walPos relid key new) s = .ok u t := by
  simp only [processMessage_insert, uint32OfLong_longOfUInt32, bind_eq_ok, lookupOrFail_eq_ok,
    readOptionalKey_eq_ok, readRow_eq_ok]
  constructor
  · rintro ⟨entry, _, ⟨hentry, rfl⟩, _, _, ⟨rfl, hkey, rfl⟩, _, _, ⟨hnew, rfl⟩, hcall⟩
    exact ⟨⟨entry, hentry, hkey, hnew⟩, hcall⟩
  · rintro ⟨⟨entry, hentry, hkey, hnew⟩, hcall⟩
    exact ⟨entry, s, ⟨hentry, rfl⟩, key, s, ⟨rfl, hkey, rfl⟩, (), s, ⟨hnew, rfl⟩, hcall⟩

theorem processMessage_update_eq_ok {relid : Oid} {key old : Option Bytes} {new : Bytes} {u : Unit} :
    processMessage on avro walPos (Message.update relid key old new).value s = .ok u t ↔
      (Message.update relid key old new).Acceptable avro s.reader ∧
        invoke on (.updateRow walPos relid key old new) s = .ok u t := by
  simp only [processMessage_update, uint32OfLong_longOfUInt32, bind_eq_ok, lookupOrFail_eq_ok,
    readOptionalKey_eq_ok, readOptionalRow_eq_ok, readRow_eq_ok]
  constructor
  · rintro ⟨entry, _, ⟨hentry, rfl⟩, _, _, ⟨rfl, hkey, rfl⟩, _, _, ⟨rfl, hold, rfl⟩, _, _,
      ⟨hnew, rfl⟩, hcall⟩
    exact ⟨⟨entry, hentry, hkey, hold, hnew⟩, hcall⟩
  · rintro ⟨⟨entry, hentry, hkey, hold, hnew⟩, hcall⟩
    exact ⟨entry, s, ⟨hentry, rfl⟩, key, s, ⟨rfl, hkey, rfl⟩, old, s, ⟨rfl, hold, rfl⟩, (), s,
      ⟨hnew, rfl⟩, hcall⟩

theorem processMessage_delete_eq_ok {relid : Oid} {key old : Option Bytes} {u : Unit} :
    processMessage on avro walPos (Message.delete relid key old).value s = .ok u t ↔
      (Message.delete relid key old).Acceptable avro s.reader ∧
        invoke on (.deleteRow walPos relid key old) s = .ok u t := by
  simp only [processMessage_delete, uint32OfLong_longOfUInt32, bind_eq_ok, lookupOrFail_eq_ok,
    readOptionalKey_eq_ok, readOptionalRow_eq_ok]
  constructor
  · rintro ⟨entry, _, ⟨hentry, rfl⟩, _, _, ⟨rfl, hkey, rfl⟩, _, _, ⟨rfl, hold, rfl⟩, hcall⟩
    exact ⟨⟨entry, hentry, hkey, hold⟩, hcall⟩
  · rintro ⟨⟨entry, hentry, hkey, hold⟩, hcall⟩
    exact ⟨entry, s, ⟨hentry, rfl⟩, key, s, ⟨rfl, hkey, rfl⟩, old, s, ⟨rfl, hold, rfl⟩, hcall⟩

/-- The steps of a table schema message. -/
theorem processMessage_tableSchema (relid : Oid) (key : Option Bytes) (row : Bytes) :
    processMessage on avro walPos (Message.tableSchema relid key row).value = (do
      let rowSchema ← check (avro.schemaFromJson (row ++ [0]).dropLast)
      let previous := schemaListLookup (← get).reader (longOfUInt32 relid)
      setEntry (longOfUInt32 relid) (previous.bind SchemaListEntry.keySchema) rowSchema
      let keySchema ← parseKeySchema avro (nullable (key.map jsonString)) (if key.isSome then 1 else 0)
      setEntry (longOfUInt32 relid) (keySchema.map Prod.snd) rowSchema
      invoke on (.tableSchema walPos (uint32OfLong (longOfUInt32 relid)) (keySchema.map Prod.fst)
        (keySchema.map Prod.snd) (row ++ [0]).dropLast rowSchema)) := by
  cases key <;> rfl

/-- The entry without the new key schema is overwritten at once. -/
theorem schemaListReplace_twice (reader : FrameReader) (relid : Oid) (key key' : Option Schema)
    (row row' : Schema) :
    schemaListReplace (schemaListReplace reader (longOfUInt32 relid) ⟨relid, key, row⟩)
      (longOfUInt32 relid) ⟨relid, key', row'⟩ =
      schemaListReplace reader (longOfUInt32 relid) ⟨relid, key', row'⟩ := by
  have hkey : SchemaListEntry.key ⟨relid, key, row⟩ = longOfUInt32 relid := rfl
  exact congrArg FrameReader.mk (Keyed.put_put hkey reader.schemas)

theorem processMessage_tableSchema_eq_ok {relid : Oid} {key : Option Bytes} {row : Bytes} {u : Unit} :
    processMessage on avro walPos (Message.tableSchema relid key row).value s = .ok u t ↔
      ∃ keySchema rowSchema, avro.schemaFromJson row = some rowSchema ∧
        schemaOfText avro key = some keySchema ∧
        invoke on (.tableSchema walPos relid key keySchema row rowSchema)
          ⟨schemaListReplace s.reader (longOfUInt32 relid) ⟨relid, keySchema, rowSchema⟩, s.context⟩ =
          .ok u t := by
  simp only [processMessage_tableSchema, uint32OfLong_longOfUInt32, List.dropLast_concat, bind_eq_ok,
    check_eq_ok, get_eq_ok, setEntry_eq_ok, parseKeySchema_eq_ok]
  constructor
  · rintro ⟨rowSchema, _, ⟨hrow, rfl⟩, _, _, ⟨rfl, rfl⟩, _, _, rfl, keySchema, _, ⟨rfl, hkey, rfl⟩, _, _,
      rfl, hcall⟩
    rw [schemaListReplace_twice] at hcall
    exact ⟨_, _, hrow, hkey, hcall⟩
  · rintro ⟨keySchema, rowSchema, hrow, hkey, hcall⟩
    obtain ⟨r, rfl, rfl⟩ := exists_of_schemaOfText hkey
    refine ⟨rowSchema, s, ⟨hrow, rfl⟩, s, s, ⟨rfl, rfl⟩, (), _, rfl, r, _, ⟨rfl, hkey, rfl⟩, (), _, rfl, ?_⟩
    rwa [schemaListReplace_twice]

/-- **What the client does with one message**: it takes the message exactly if it is acceptable, makes
the corresponding callback and is left with the schemas as announced. -/
theorem processMessage_ok_iff {m : Message} {u : Unit} :
    processMessage on avro walPos m.value s = .ok u t ↔
      m.Acceptable avro s.reader ∧ ∃ call, m.callback avro walPos = some call ∧
        invoke on call ⟨m.readerAfter avro s.reader, s.context⟩ = .ok u t := by
  cases m with
  | beginTxn xid =>
    show invoke on (.beginTxn walPos (uint32OfLong (longOfUInt32 xid))) s = _ ↔ _
    rw [uint32OfLong_longOfUInt32]
    simp [Message.Acceptable, Message.callback, Message.readerAfter, Message.announces]
  | commitTxn xid lsn =>
    show invoke on (.commitTxn walPos (uint32OfLong (longOfUInt32 xid))) s = _ ↔ _
    rw [uint32OfLong_longOfUInt32]
    simp [Message.Acceptable, Message.callback, Message.readerAfter, Message.announces]
  | tableSchema relid key row =>
    rw [processMessage_tableSchema_eq_ok]
    constructor
    · rintro ⟨keySchema, rowSchema, hrow, hkey, hcall⟩
      refine ⟨⟨by simp [hrow], by simp [hkey]⟩, _, Message.callback_tableSchema hrow hkey, ?_⟩
      rwa [Message.readerAfter_tableSchema hrow hkey]
    · rintro ⟨⟨hrow, hkey⟩, call, hcallback, hcall⟩
      obtain ⟨rowSchema, hrow⟩ := Option.isSome_iff_exists.mp hrow
      obtain ⟨keySchema, hkey⟩ := Option.isSome_iff_exists.mp hkey
      rw [Message.callback_tableSchema hrow hkey, Option.some.injEq] at hcallback
      rw [Message.readerAfter_tableSchema hrow hkey, ← hcallback] at hcall
      exact ⟨keySchema, rowSchema, hrow, hkey, hcall⟩
  | insert relid key new =>
    rw [processMessage_insert_eq_ok]
    simp [Message.callback, Message.readerAfter, Message.announces]
  | update relid key old new =>
    rw [processMessage_update_eq_ok]
    simp [Message.callback, Message.readerAfter, Message.announces]
  | delete relid key old =>
    rw [processMessage_delete_eq_ok]
    simp [Message.callback, Message.readerAfter, Message.announces]

/-! ## §4 — A frame -/

/-- The context after some callbacks, if none of them returns an error. -/
def invokeAll (on : Callback → κ → Int × κ) (calls : List Callback) (context : κ) : Option κ :=
  calls.foldlM (fun k call => if (on call k).1 = 0 then some (on call k).2 else none) context

theorem invokeAll_cons (call : Callback) (calls : List Callback) (k : κ) :
    invokeAll on (call :: calls) k =
      if (on call k).1 = 0 then invokeAll on calls (on call k).2 else none := by
  unfold invokeAll
  rw [List.foldlM_cons]
  split <;> rfl

theorem processMessages_ok_iff {msgs : List Message} :
    ∀ {s t : Session κ} {u : Unit},
      processMessages on avro walPos (msgs.map Message.value) s = .ok u t ↔
        AllAcceptable avro s.reader msgs ∧
          ∃ calls, List.Forall₂ (fun m call => m.callback avro walPos = some call) msgs calls ∧
            invokeAll on calls s.context = some t.context ∧
            readerAfterAll avro s.reader msgs = t.reader := by
  -- the induction follows the loop; each round hands on the reader and the context
  induction msgs with
  | nil =>
    intro s t u
    simp only [List.map_nil, processMessages, pure_eq_ok, AllAcceptable, List.forall₂_nil_left_iff,
      true_and, exists_eq_left]
    constructor
    · rintro rfl
      exact ⟨rfl, rfl⟩
    · rintro ⟨hcontext, hreader⟩
      cases s
      cases t
      simp_all [invokeAll, readerAfterAll]
  | cons m msgs ih =>
    intro s t u
    simp only [List.map_cons, processMessages, bind_eq_ok, processMessage_ok_iff, invoke_eq_ok, ih,
      AllAcceptable]
    constructor
    · rintro ⟨_, _, ⟨hm, call, hcall, herr, rfl⟩, hall, calls, hcalls, hcontext, hreader⟩
      refine ⟨⟨hm, hall⟩, call :: calls, .cons hcall hcalls, ?_, hreader⟩
      rw [invokeAll_cons, if_pos herr]
      exact hcontext
    · rintro ⟨⟨hm, hall⟩, _, _ | ⟨hcall, hcalls⟩, hcontext, hreader⟩
      rw [invokeAll_cons] at hcontext
      split at hcontext
      · case isTrue herr =>
        exact ⟨(), _, ⟨hm, _, hcall, herr, rfl⟩, hall, _, hcalls, hcontext, hreader⟩
      · case isFalse => cases hcontext

/-- **What the client does with a frame.** -/
theorem processFrame_ok_iff {msgs : List Message} {u : Unit} :
    processFrame on avro walPos (frameValue msgs) s = .ok u t ↔
      AllAcceptable avro s.reader msgs ∧
        ∃ calls, List.Forall₂ (fun m call => m.callback avro walPos = some call) msgs calls ∧
          invokeAll on calls s.context = some t.context ∧
          readerAfterAll avro s.reader msgs = t.reader :=
  processMessages_ok_iff

/-- Every acceptable message has a callback. -/
theorem Message.exists_callback {reader : FrameReader} {m : Message} (h : m.Acceptable avro reader) :
    ∃ call, m.callback avro walPos = some call := by
  cases m with
  | tableSchema relid key row =>
    obtain ⟨rowSchema, hrow⟩ := Option.isSome_iff_exists.mp h.1
    obtain ⟨keySchema, hkey⟩ := Option.isSome_iff_exists.mp h.2
    exact ⟨_, Message.callback_tableSchema hrow hkey⟩
  | _ => exact ⟨_, rfl⟩

theorem exists_callbacks {msgs : List Message} :
    ∀ {reader : FrameReader}, AllAcceptable avro reader msgs →
      ∃ calls, List.Forall₂ (fun m call => m.callback avro walPos = some call) msgs calls := by
  induction msgs with
  | nil => exact fun _ => ⟨[], .nil⟩
  | cons m msgs ih =>
    rintro reader ⟨hm, hall⟩
    obtain ⟨call, hcall⟩ := Message.exists_callback hm
    obtain ⟨calls, hcalls⟩ := ih hall
    exact ⟨call :: calls, .cons hcall hcalls⟩

/-! ## §5 — From the bytes -/

theorem decode_frame {msgs : List Message} (hsize : (encode (frameValue msgs)).length < maxSize)
    (extra : Bytes) :
    decode (fun _ => failure) schemaForFrame (encode (frameValue msgs) ++ extra) =
      some (frameValue msgs, extra) := by
  have hlink : ∀ name v, noLink name v → Reads failure (encode v) v := fun _ _ h => nomatch h
  exact reads_encode hlink _ _ (conforms_frameValue hsize) extra

theorem parseFrame_encode {msgs : List Message}
    (hsize : (encode (frameValue msgs)).length < maxSize) :
    parseFrame on avro walPos (encode (frameValue msgs)) s =
      processFrame on avro walPos (frameValue msgs) s := by
  have hread : (readEntirely (decode (fun _ => failure) schemaForFrame) (encode (frameValue msgs)) :
      ProtocolM κ Value) = pure (frameValue msgs) := by
    have h := decode_frame hsize []
    rw [List.append_nil] at h
    simp [readEntirely, h]
  unfold parseFrame
  rw [hread]
  rfl

theorem parseFrame_trailing {msgs : List Message} {extra : Bytes}
    (hsize : (encode (frameValue msgs)).length < maxSize) (hextra : extra ≠ []) :
    parseFrame on avro walPos (encode (frameValue msgs) ++ extra) s = .error .trailingBytes s := by
  have hread : (readEntirely (decode (fun _ => failure) schemaForFrame)
      (encode (frameValue msgs) ++ extra) : ProtocolM κ Value) = throw .trailingBytes := by
    obtain ⟨b, rest, rfl⟩ := List.exists_cons_of_ne_nil hextra
    simp [readEntirely, decode_frame hsize (b :: rest)]
  unfold parseFrame
  rw [hread]
  rfl

end

/-! ## §6 — The round trip -/

/-- Callbacks that only keep account of the calls. -/
def recordCall (call : Callback) (calls : List Callback) : Int × List Callback := (0, calls ++ [call])

theorem invokeAll_recordCall (calls earlier : List Callback) :
    invokeAll recordCall calls earlier = some (earlier ++ calls) := by
  induction calls generalizing earlier with
  | nil => simp [invokeAll]
  | cons call calls ih =>
    rw [invokeAll_cons]
    show invokeAll recordCall calls (earlier ++ [call]) = _
    rw [ih, List.append_assoc, List.singleton_append]

/-- **The wire protocol round-trips.**  A frame built from acceptable messages, in the bytes that
`parse_frame` takes with an `int` for their number, is taken as a whole: one callback for each message,
in order and with its data.  With anything behind it, it is refused and no callback is made. -/
theorem parseFrame_roundTrip {avro : Libavro} {walPos : UInt64} {reader : FrameReader}
    {earlier : List Callback} {msgs : List Message} {frame : Value}
    (hframe : buildFrame msgs = some frame) (hsize : (encode frame).length < 2 ^ 31)
    (hmsgs : AllAcceptable avro reader msgs) :
    (∃ calls, List.Forall₂ (fun m call => m.callback avro walPos = some call) msgs calls ∧
      parseFrame recordCall avro walPos (encode frame) ⟨reader, earlier⟩ =
        .ok () ⟨readerAfterAll avro reader msgs, earlier ++ calls⟩) ∧
    ∀ extra ≠ [], parseFrame recordCall avro walPos (encode frame ++ extra) ⟨reader, earlier⟩ =
      .error .trailingBytes ⟨reader, earlier⟩ := by
  obtain rfl : frameValue msgs = frame := Option.some.inj ((buildFrame_eq msgs).symm.trans hframe)
  have hmax : (encode (frameValue msgs)).length < maxSize := Nat.lt_trans hsize (by decide)
  refine ⟨?_, fun extra hextra => parseFrame_trailing hmax hextra⟩
  obtain ⟨calls, hcalls⟩ : ∃ calls, List.Forall₂ (fun m call => m.callback avro walPos = some call)
      msgs calls := exists_callbacks hmsgs
  refine ⟨calls, hcalls, ?_⟩
  rw [parseFrame_encode hmax, processFrame_ok_iff]
  exact ⟨hmsgs, calls, hcalls, invokeAll_recordCall calls earlier, rfl⟩

/-- A library that knows two schema texts, "k" for a `long` and "r" for a string. -/
def twoSchemas : Libavro where
  schemaFromJson
    | [107] => some .long
    | [114] => some .string
    | _ => none
  valueRead := decode fun _ => failure

/-- A transaction on a table with a key: its schemas, a row that comes, changes and goes. -/
def rowLife : List Message :=
  [.beginTxn 7, .tableSchema 16385 (some [107]) [114], .insert 16385 (some [2]) [2, 97],
    .update 16385 (some [2]) (some [2, 97]) [2, 98], .delete 16385 (some [2]) none, .commitTxn 7 99]

theorem takesKey_two (relid : Oid) : TakesKey twoSchemas ⟨relid, some .long, .string⟩
    (some [2]) := by
  rintro k ⟨⟩
  exact ⟨.long, rfl, .long 1, rfl⟩

theorem rowLife_acceptable : AllAcceptable twoSchemas frameReaderNew rowLife := by
  refine ⟨trivial, ⟨rfl, rfl⟩, ?_, ?_, ?_, trivial, trivial⟩
  · exact ⟨⟨16385, some .long, .string⟩, rfl, takesKey_two _, .string [97, 0], rfl⟩
  · refine ⟨⟨16385, some .long, .string⟩, rfl, takesKey_two _, ?_, .string [98, 0], rfl⟩
    rintro row ⟨⟩
    exact ⟨.string [97, 0], rfl⟩
  · exact ⟨⟨16385, some .long, .string⟩, rfl, takesKey_two _, nofun⟩

theorem parseFrame_roundTrip_rowLife :
    (∃ calls, List.Forall₂ (fun m call => m.callback twoSchemas 5 = some call) rowLife calls ∧
      parseFrame recordCall twoSchemas 5 (encode (frameValue rowLife)) ⟨frameReaderNew, []⟩ =
        .ok () ⟨readerAfterAll twoSchemas frameReaderNew rowLife, calls⟩) ∧
    ∀ extra ≠ [], parseFrame recordCall twoSchemas 5 (encode (frameValue rowLife) ++ extra)
      ⟨frameReaderNew, []⟩ = .error .trailingBytes ⟨frameReaderNew, []⟩ := by
  have hsize : (encode (frameValue rowLife)).length < 2 ^ 31 := by decide +kernel
  exact parseFrame_roundTrip (buildFrame_eq rowLife) hsize rowLife_acceptable

end BottledWater.Protocol
