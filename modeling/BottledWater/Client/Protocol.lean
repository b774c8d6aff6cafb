/-
# BottledWater.Client.Protocol — the client side of the wire protocol.

`client/protocol_client.c`: `parse_frame` reads a frame from its bytes and calls one callback for each
message in it.  The reader keeps a list with the schemas last announced for each table; a row is only
passed on if its bytes can be read under them.

The Avro C library is a parameter where it works on the schemas of tables: how a schema is made from its
JSON text, and how a value of a schema is read.  For the schema of a frame, which is fixed, the reading
is `Lib.Avro.decode`.  The decoded keys and rows are passed to the callbacks as well, but no callback of
this program looks at them; they are left out.
-/
import BottledWater.Lib.Keyed
import BottledWater.Protocol.Frame

namespace BottledWater.Client

open BottledWater.Lib BottledWater.Lib.Avro BottledWater.Protocol

/-! ## §1 — The data -/

/-- What the client takes from the Avro library. -/
structure Libavro where
  /-- `avro_schema_from_json_length`. -/
  schemaFromJson : Bytes → Option Schema
  /-- `avro_value_read` into a value of a schema. -/
  valueRead : Schema → Reader Value

/-- `schema_list_entry`, less the values and readers derived from the schemas. -/
structure SchemaListEntry where
  relid : Oid
  /-- `NULL` for a table without a key. -/
  keySchema : Option Schema
  rowSchema : Schema

/-- The key under which `schema_list_lookup` finds an entry: its `relid` in a comparison with an
`int64_t`. -/
def SchemaListEntry.key (entry : SchemaListEntry) : Int64 := longOfUInt32 entry.relid

/-- `frame_reader`: the array of schemas. -/
structure FrameReader where
  schemas : List SchemaListEntry

/-- `frame_reader_new`. -/
def frameReaderNew : FrameReader := ⟨[]⟩

/-- A call of one of the callbacks `on_*`, with its arguments. -/
inductive Callback where
  | beginTxn (walPos : UInt64) (xid : UInt32)
  | commitTxn (walPos : UInt64) (xid : UInt32)
  | tableSchema (walPos : UInt64) (relid : Oid) (keySchemaJson : Option Bytes)
      (keySchema : Option Schema) (rowSchemaJson : Bytes) (rowSchema : Schema)
  | insertRow (walPos : UInt64) (relid : Oid) (keyBin : Option Bytes) (newBin : Bytes)
  | updateRow (walPos : UInt64) (relid : Oid) (keyBin oldBin : Option Bytes) (newBin : Bytes)
  | deleteRow (walPos : UInt64) (relid : Oid) (keyBin oldBin : Option Bytes)

/-- Why `parse_frame` returns an error. -/
inductive ProtocolError
  /-- A call of the Avro library failed. -/
  | avro
  /-- "Unexpected trailing bytes at the end of buffer" -/
  | trailingBytes
  /-- "Received insert for unknown relid %u", and the same for update and delete -/
  | unknownRelid (event : String) (relid : Int64)
  /-- "Unknown message type %d" -/
  | unknownMessageType (msgType : Nat)
  /-- A callback returned an error. -/
  | callback (err : Int)
  /-- No error of the code: a key is read into the `key_value` of an entry without a key schema, which is NULL
  or was given back. -/
  | undefined
  deriving DecidableEq, Repr

/-- The reader, and the context of the callbacks. -/
structure Session (κ : Type) where
  reader : FrameReader
  context : κ

abbrev ProtocolM (κ : Type) := EStateM ProtocolError (Session κ)

section

variable {κ : Type}

/-- `check` around a call of the Avro library. -/
def check {α : Type} : Option α → ProtocolM κ α
  | some a => pure a
  | none => throw .avro

/-- `read_entirely`: after the value, a `avro_skip` of one more byte has to fail. -/
def readEntirely (read : Reader Value) (buf : Bytes) : ProtocolM κ Value :=
  match read buf with
  | none => throw .avro
  | some (v, []) => pure v
  | some (_, _ :: _) => throw .trailingBytes

variable (on : Callback → κ → Int × κ)

/-- `check` around a callback. -/
def invoke (call : Callback) : ProtocolM κ Unit := do
  let s ← get
  let (err, context) := on call s.context
  set { s with context }
  if err ≠ 0 then throw (.callback err)

/-! ## §2 — The schema list -/

/-- `schema_list_lookup`. -/
def schemaListLookup (reader : FrameReader) (relid : Int64) : Option SchemaListEntry :=
  Keyed.find SchemaListEntry.key relid reader.schemas

/-- `schema_list_replace`, and the assignments to the entry that it returns. -/
def schemaListReplace (reader : FrameReader) (relid : Int64) (entry : SchemaListEntry) : FrameReader :=
  { reader with schemas := Keyed.put SchemaListEntry.key relid entry reader.schemas }

def setEntry (relid : Int64) (keySchema : Option Schema) (rowSchema : Schema) : ProtocolM κ Unit :=
  modify fun s =>
    { s with reader := schemaListReplace s.reader relid ⟨uint32OfLong relid, keySchema, rowSchema⟩ }

/-- The entry of a row message, or its error. -/
def lookupOrFail (event : String) (relid : Int64) : ProtocolM κ SchemaListEntry := do
  match schemaListLookup (← get).reader relid with
  | some entry => pure entry
  | none => throw (.unknownRelid event relid)

/-! ## §3 — The messages -/

variable (avro : Libavro) (walPos : UInt64)

def processFrameBeginTxn (record : Value) : ProtocolM κ Unit := do
  let xidVal ← check (record.getByIndex 0)
  let xid ← check xidVal.getLong
  invoke on (.beginTxn walPos (uint32OfLong xid))

def processFrameCommitTxn (record : Value) : ProtocolM κ Unit := do
  let xidVal ← check (record.getByIndex 0)
  let xid ← check xidVal.getLong
  invoke on (.commitTxn walPos (uint32OfLong xid))

/-- `avro_schema_from_json_length` on a string value: its length less the NUL. -/
def parseSchema (buffer : Bytes) : ProtocolM κ Schema := check (avro.schemaFromJson buffer.dropLast)

/-- The key schema of a table schema message, read after the entry has its row schema. -/
def parseKeySchema (keySchemaVal : Value) (present : Nat) : ProtocolM κ (Option (Bytes × Schema)) :=
  if present ≠ 0 then do
    let branch ← check keySchemaVal.getCurrentBranch
    let json ← check branch.getString
    let schema ← parseSchema avro json
    pure (some (json.dropLast, schema))
  else pure none

def processFrameTableSchema (record : Value) : ProtocolM κ Unit := do
  let relidVal ← check (record.getByIndex 0)
  let keySchemaVal ← check (record.getByIndex 1)
  let rowSchemaVal ← check (record.getByIndex 2)
  let relid ← check relidVal.getLong
  let keySchemaPresent ← check keySchemaVal.getDiscriminant
  let rowSchemaJson ← check rowSchemaVal.getString
  let rowSchema ← parseSchema avro rowSchemaJson
  -- until the key schema is read, the entry keeps the one it had
  let previous := schemaListLookup (← get).reader relid
  setEntry relid (previous.bind SchemaListEntry.keySchema) rowSchema
  let keySchema ← parseKeySchema avro keySchemaVal keySchemaPresent
  setEntry relid (keySchema.map Prod.snd) rowSchema
  invoke on (.tableSchema walPos (uint32OfLong relid) (keySchema.map Prod.fst)
    (keySchema.map Prod.snd) rowSchemaJson.dropLast rowSchema)

/-- How the key of a row is read. -/
def SchemaListEntry.readKey (entry : SchemaListEntry) (keyBin : Bytes) : ProtocolM κ Unit :=
  match entry.keySchema with
  | some schema => discard (readEntirely (avro.valueRead schema) keyBin)
  | none => throw .undefined

/-- How an old or a new row is read. -/
def SchemaListEntry.readRow (entry : SchemaListEntry) (rowBin : Bytes) : ProtocolM κ Unit :=
  discard (readEntirely (avro.valueRead entry.rowSchema) rowBin)

/-- `if (key_present) { ... }`, and the same for the old row. -/
def readNullable (read : Bytes → ProtocolM κ Unit) (val : Value) (present : Nat) :
    ProtocolM κ (Option Bytes) :=
  if present ≠ 0 then do
    let branch ← check val.getCurrentBranch
    let bin ← check branch.getBytes
    read bin
    pure (some bin)
  else pure none

def processFrameInsert (record : Value) : ProtocolM κ Unit := do
  let relidVal ← check (record.getByIndex 0)
  let keyVal ← check (record.getByIndex 1)
  let newVal ← check (record.getByIndex 2)
  let relid ← check relidVal.getLong
  let keyPresent ← check keyVal.getDiscriminant
  let newBin ← check newVal.getBytes
  let entry ← lookupOrFail "insert" relid
  let keyBin ← readNullable (entry.readKey avro) keyVal keyPresent
  entry.readRow avro newBin
  invoke on (.insertRow walPos (uint32OfLong relid) keyBin newBin)

def processFrameUpdate (record : Value) : ProtocolM κ Unit := do
  let relidVal ← check (record.getByIndex 0)
  let keyVal ← check (record.getByIndex 1)
  let oldVal ← check (record.getByIndex 2)
  let newVal ← check (record.getByIndex 3)
  let relid ← check relidVal.getLong
  let keyPresent ← check keyVal.getDiscriminant
  let oldPresent ← check oldVal.getDiscriminant
  let newBin ← check newVal.getBytes
  let entry ← lookupOrFail "update" relid
  let keyBin ← readNullable (entry.readKey avro) keyVal keyPresent
  let oldBin ← readNullable (entry.readRow avro) oldVal oldPresent
  entry.readRow avro newBin
  invoke on (.updateRow walPos (uint32OfLong relid) keyBin oldBin newBin)

def processFrameDelete (record : Value) : ProtocolM κ Unit := do
  let relidVal ← check (record.getByIndex 0)
  let keyVal ← check (record.getByIndex 1)
  let oldVal ← check (record.getByIndex 2)
  let relid ← check relidVal.getLong
  let keyPresent ← check keyVal.getDiscriminant
  let oldPresent ← check oldVal.getDiscriminant
  let entry ← lookupOrFail "delete" relid
  let keyBin ← readNullable (entry.readKey avro) keyVal keyPresent
  let oldBin ← readNullable (entry.readRow avro) oldVal oldPresent
  invoke on (.deleteRow walPos (uint32OfLong relid) keyBin oldBin)

/-- One round of the loop of `process_frame`. -/
def processMessage (unionVal : Value) : ProtocolM κ Unit := do
  let msgType ← check unionVal.getDiscriminant
  let record ← check unionVal.getCurrentBranch
  match msgType with
  | protocolMsgBeginTxn => processFrameBeginTxn on walPos record
  | protocolMsgCommitTxn => processFrameCommitTxn on walPos record
  | protocolMsgTableSchema => processFrameTableSchema on avro walPos record
  | protocolMsgInsert => processFrameInsert on avro walPos record
  | protocolMsgUpdate => processFrameUpdate on avro walPos record
  | protocolMsgDelete => processFrameDelete on avro walPos record
  | n => throw (.unknownMessageType n)

/-- The loop of `process_frame`. -/
def processMessages : List Value → ProtocolM κ Unit
  | [] => pure ()
  | unionVal :: rest => do
    processMessage on avro walPos unionVal
    processMessages rest

/-- `process_frame`. -/
def processFrame (frame : Value) : ProtocolM κ Unit := do
  let msgVal ← check (frame.getByIndex 0)
  let msgs ← check msgVal.getItems
  processMessages on avro walPos msgs

/-- `parse_frame`. -/
def parseFrame (buf : Bytes) : ProtocolM κ Unit := do
  let frame ← readEntirely (decode (fun _ => failure) schemaForFrame) buf
  processFrame on avro walPos frame

end

end BottledWater.Client
