/-
# BottledWater.Protocol.Frame — the frames of the wire protocol, as the server builds them.

`ext/protocol.c` fixes the Avro schema of a frame: a record with one array of messages, each a branch of
one union.  The functions `update_frame_with_*` of `ext/protocol_server.c` append messages to a frame
value; those that take a row or a schema cache entry do so through the `_raw` functions and
`update_frame_with_table_schema`, whose arguments are the fields of `Message` here.
-/
import BottledWater.Lib.Avro

namespace BottledWater.Protocol

open BottledWater.Lib.Avro

/-! ## §1 — Messages -/

abbrev Oid := UInt32

/-- One message of a frame.  Schemas are JSON texts, keys and rows are Avro encodings. -/
inductive Message where
  | beginTxn (xid : UInt32)
  | commitTxn (xid : UInt32) (commitLsn : UInt64)
  | tableSchema (relid : Oid) (keySchema : Option Bytes) (rowSchema : Bytes)
  | insert (relid : Oid) (key : Option Bytes) (newRow : Bytes)
  | update (relid : Oid) (key oldRow : Option Bytes) (newRow : Bytes)
  | delete (relid : Oid) (key oldRow : Option Bytes)
  deriving DecidableEq, Repr

/-! ## §2 — The schema of a frame -/

/-- `PROTOCOL_SCHEMA_NAMESPACE`. -/
def protocolSchemaNamespace : String := "com.martinkl.bottledwater.protocol"

/-- `nullable_schema`. -/
def nullableSchema (s : Schema) : Schema := .union [.null, s]

def schemaForBeginTxn : Schema :=
  .record "BeginTxn" protocolSchemaNamespace [("xid", .long)]

def schemaForCommitTxn : Schema :=
  .record "CommitTxn" protocolSchemaNamespace [("xid", .long), ("lsn", .long)]

def schemaForTableSchema : Schema :=
  .record "TableSchema" protocolSchemaNamespace
    [("relid", .long), ("keySchema", nullableSchema .string), ("rowSchema", .string)]

def schemaForInsert : Schema :=
  .record "Insert" protocolSchemaNamespace
    [("relid", .long), ("key", nullableSchema .bytes), ("newRow", .bytes)]

def schemaForUpdate : Schema :=
  .record "Update" protocolSchemaNamespace
    [("relid", .long), ("key", nullableSchema .bytes), ("oldRow", nullableSchema .bytes),
      ("newRow", .bytes)]

def schemaForDelete : Schema :=
  .record "Delete" protocolSchemaNamespace
    [("relid", .long), ("key", nullableSchema .bytes), ("oldRow", nullableSchema .bytes)]

/-- `schema_for_frame`.  The order of the branches is that of the `PROTOCOL_MSG_*` numbers. -/
def schemaForFrame : Schema :=
  .record "Frame" protocolSchemaNamespace
    [("msg", .array (.union [schemaForBeginTxn, schemaForCommitTxn, schemaForTableSchema,
      schemaForInsert, schemaForUpdate, schemaForDelete]))]

@[match_pattern] abbrev protocolMsgBeginTxn : Nat := 0
@[match_pattern] abbrev protocolMsgCommitTxn : Nat := 1
@[match_pattern] abbrev protocolMsgTableSchema : Nat := 2
@[match_pattern] abbrev protocolMsgInsert : Nat := 3
@[match_pattern] abbrev protocolMsgUpdate : Nat := 4
@[match_pattern] abbrev protocolMsgDelete : Nat := 5

/-! ## §3 — Building a frame -/

/-- The conversion of an unsigned 32-bit number to the `int64_t` of `avro_value_set_long`. -/
def longOfUInt32 (n : UInt32) : Int64 := n.toUInt64.toInt64

/-- The conversion back, which keeps the low 32 bits. -/
def uint32OfLong (n : Int64) : UInt32 := n.toUInt64.toUInt32

@[simp]
theorem uint32OfLong_longOfUInt32 (n : UInt32) : uint32OfLong (longOfUInt32 n) = n := by
  simp [uint32OfLong, longOfUInt32]

theorem longOfUInt32_injective : Function.Injective longOfUInt32 :=
  Function.LeftInverse.injective uint32OfLong_longOfUInt32

/-- A frame value after `avro_value_reset`. -/
def emptyFrame : Value := .record [.array []]

/-- The common part of the functions below: `avro_value_append` to the array of messages, set the branch
of the new union value and the fields of its record. -/
def appendMessage (branch : Nat) (fields : List Value) : Value → Option Value
  | .record [.array msgs] => some (.record [.array (msgs ++ [.union branch (.record fields)])])
  | _ => none

/-- A field of a nullable schema: branch 0 for `NULL`, branch 1 otherwise. -/
def nullable : Option Value → Value
  | none => .union 0 .null
  | some v => .union 1 v

/-- A JSON text as `avro_value_set_string_len` is given it: with the NUL behind it, and a length of one
more than `VARSIZE - VARHDRSZ`. -/
def jsonString (text : Bytes) : Value := .string (text ++ [0])

def updateFrameWithBeginTxn (frame : Value) (xid : UInt32) : Option Value :=
  appendMessage protocolMsgBeginTxn [.long (longOfUInt32 xid)] frame

def updateFrameWithCommitTxn (frame : Value) (xid : UInt32) (commitLsn : UInt64) : Option Value :=
  appendMessage protocolMsgCommitTxn [.long (longOfUInt32 xid), .long commitLsn.toInt64] frame

def updateFrameWithTableSchema (frame : Value) (relid : Oid) (keySchemaJson : Option Bytes)
    (rowSchemaJson : Bytes) : Option Value :=
  appendMessage protocolMsgTableSchema
    [.long (longOfUInt32 relid), nullable (keySchemaJson.map jsonString), jsonString rowSchemaJson] frame

def updateFrameWithInsertRaw (frame : Value) (relid : Oid) (keyBin : Option Bytes) (newBin : Bytes) :
    Option Value :=
  appendMessage protocolMsgInsert
    [.long (longOfUInt32 relid), nullable (keyBin.map .bytes), .bytes newBin] frame

def updateFrameWithUpdateRaw (frame : Value) (relid : Oid) (keyBin oldBin : Option Bytes)
    (newBin : Bytes) : Option Value :=
  appendMessage protocolMsgUpdate
    [.long (longOfUInt32 relid), nullable (keyBin.map .bytes), nullable (oldBin.map .bytes),
      .bytes newBin] frame

def updateFrameWithDeleteRaw (frame : Value) (relid : Oid) (keyBin oldBin : Option Bytes) :
    Option Value :=
  appendMessage protocolMsgDelete
    [.long (longOfUInt32 relid), nullable (keyBin.map .bytes), nullable (oldBin.map .bytes)] frame

/-- The function that appends a given message. -/
def updateFrameWith (frame : Value) : Message → Option Value
  | .beginTxn xid => updateFrameWithBeginTxn frame xid
  | .commitTxn xid lsn => updateFrameWithCommitTxn frame xid lsn
  | .tableSchema relid key row => updateFrameWithTableSchema frame relid key row
  | .insert relid key new => updateFrameWithInsertRaw frame relid key new
  | .update relid key old new => updateFrameWithUpdateRaw frame relid key old new
  | .delete relid key old => updateFrameWithDeleteRaw frame relid key old

/-- A frame with the given messages, appended one after the other to an empty frame. -/
def buildFrame (msgs : List Message) : Option Value := msgs.foldlM updateFrameWith emptyFrame

/-! ## §4 — The value of a frame -/

/-- The union value of a message. -/
def Message.value : Message → Value
  | .beginTxn xid => .union protocolMsgBeginTxn (.record [.long (longOfUInt32 xid)])
  | .commitTxn xid lsn =>
    .union protocolMsgCommitTxn (.record [.long (longOfUInt32 xid), .long lsn.toInt64])
  | .tableSchema relid key row =>
    .union protocolMsgTableSchema
      (.record [.long (longOfUInt32 relid), nullable (key.map jsonString), jsonString row])
  | .insert relid key new =>
    .union protocolMsgInsert
      (.record [.long (longOfUInt32 relid), nullable (key.map .bytes), .bytes new])
  | .update relid key old new =>
    .union protocolMsgUpdate
      (.record [.long (longOfUInt32 relid), nullable (key.map .bytes), nullable (old.map .bytes),
        .bytes new])
  | .delete relid key old =>
    .union protocolMsgDelete
      (.record [.long (longOfUInt32 relid), nullable (key.map .bytes), nullable (old.map .bytes)])

/-- **`frameValue msgs`** — the value that holds exactly these messages. -/
def frameValue (msgs : List Message) : Value := .record [.array (msgs.map Message.value)]

theorem updateFrameWith_frameValue (msgs : List Message) (m : Message) :
    updateFrameWith (frameValue msgs) m = some (frameValue (msgs ++ [m])) := by
  unfold frameValue
  rw [List.map_append]
  cases m <;> rfl

theorem foldlM_updateFrameWith (before msgs : List Message) :
    msgs.foldlM updateFrameWith (frameValue before) = some (frameValue (before ++ msgs)) := by
  induction msgs generalizing before with
  | nil => rw [List.append_nil]; rfl
  | cons m msgs ih =>
    rw [List.foldlM_cons, updateFrameWith_frameValue]
    show msgs.foldlM updateFrameWith (frameValue (before ++ [m])) = _
    rw [ih, List.append_assoc, List.singleton_append]

/-- The server's functions build the frame of the messages they are called for. -/
theorem buildFrame_eq (msgs : List Message) : buildFrame msgs = some (frameValue msgs) :=
  foldlM_updateFrameWith [] msgs

/-! ## §5 — A frame that fits in a buffer conforms to the schema -/

/-- The schema of a frame has no links. -/
abbrev noLink : String → Value → Bool := fun _ _ => false

theorem conforms_nullable {s : Schema} {v : Option Value} (h : ∀ x ∈ v, conforms noLink s x) :
    conforms noLink (nullableSchema s) (nullable v) := by
  cases v with
  | none => rfl
  | some x => simpa [nullable, nullableSchema, conforms, conformsBranch] using h x rfl

theorem conforms_nullable_bytes {b : Option Bytes} (h : ∀ x ∈ b, x.length < maxSize) :
    conforms noLink (nullableSchema .bytes) (nullable (b.map .bytes)) := by
  apply conforms_nullable
  intro v hv
  obtain ⟨x, hx, rfl⟩ := Option.map_eq_some_iff.mp hv
  simpa [conforms] using h x hx

theorem conforms_jsonString {text : Bytes} (h : text.length + 1 < maxSize) :
    conforms noLink .string (jsonString text) := by
  simpa [jsonString, conforms] using h

/-- The bytes of a nullable field are part of its encoding. -/
theorem conforms_of_encode_nullable {b : Option Bytes}
    (h : (encode (nullable (b.map .bytes))).length < maxSize) :
    conforms noLink (nullableSchema .bytes) (nullable (b.map .bytes)) := by
  apply conforms_nullable_bytes
  rintro x ⟨⟩
  simp only [Option.map_some, nullable, encode, List.length_append] at h
  omega

theorem conforms_of_encode_jsonString {t : Bytes} (h : (encode (jsonString t)).length < maxSize) :
    conforms noLink .string (jsonString t) := by
  have hpos := length_encodeSize_pos ((t ++ [0]).length - 1)
  simp only [jsonString, encode, List.dropLast_concat, List.length_append] at h hpos
  exact conforms_jsonString (by omega)

theorem conforms_of_encode_nullable_json {t : Option Bytes}
    (h : (encode (nullable (t.map jsonString))).length < maxSize) :
    conforms noLink (nullableSchema .string) (nullable (t.map jsonString)) := by
  apply conforms_nullable
  intro v hv
  obtain ⟨x, rfl, rfl⟩ := Option.map_eq_some_iff.mp hv
  simp only [Option.map_some, nullable, encode, List.length_append] at h
  exact conforms_of_encode_jsonString (by omega)

/-- The schema of one message. -/
abbrev messageSchema : Schema :=
  .union [schemaForBeginTxn, schemaForCommitTxn, schemaForTableSchema, schemaForInsert,
    schemaForUpdate, schemaForDelete]

theorem conforms_value {m : Message} (h : (encode m.value).length < maxSize) :
    conforms noLink messageSchema m.value := by
  cases m with
  | beginTxn xid => rfl
  | commitTxn xid lsn => rfl
  | tableSchema relid key row =>
    simp only [Message.value, encode, encodeAll, List.length_append] at h
    have hkey := conforms_of_encode_nullable_json (t := key) (by omega)
    have hrow := conforms_of_encode_jsonString (t := row) (by omega)
    simp [Message.value, conforms, conformsBranch, schemaForTableSchema, conformsFields,
      conformsField, hkey, hrow]
    decide
  | insert relid key new =>
    simp only [Message.value, encode, encodeAll, List.length_append] at h
    have hkey := conforms_of_encode_nullable (b := key) (by omega)
    have hnew : new.length < maxSize := by omega
    simp [Message.value, conforms, conformsBranch, schemaForInsert, conformsFields, conformsField,
      hkey, hnew]
    decide
  | update relid key old new =>
    simp only [Message.value, encode, encodeAll, List.length_append] at h
    have hkey := conforms_of_encode_nullable (b := key) (by omega)
    have hold := conforms_of_encode_nullable (b := old) (by omega)
    have hnew : new.length < maxSize := by omega
    simp [Message.value, conforms, conformsBranch, schemaForUpdate, conformsFields, conformsField,
      hkey, hold, hnew]
    decide
  | delete relid key old =>
    simp only [Message.value, encode, encodeAll, List.length_append] at h
    have hkey := conforms_of_encode_nullable (b := key) (by omega)
    have hold := conforms_of_encode_nullable (b := old) (by omega)
    simp [Message.value, conforms, conformsBranch, schemaForDelete, conformsFields, conformsField,
      hkey, hold]
    decide

theorem length_encode_value_pos (m : Message) : 0 < (encode m.value).length := by
  have hbranch := length_encodeSize_pos
  cases m <;> simp only [Message.value, encode, List.length_append] <;>
    exact Nat.add_pos_left (hbranch _) _

/-- Neither a message of the frame nor the number of messages exceeds the size of the frame. -/
theorem length_le_encodeAll (msgs : List Message) :
    msgs.length ≤ (encodeAll (msgs.map Message.value)).length ∧
      ∀ m ∈ msgs, (encode m.value).length ≤ (encodeAll (msgs.map Message.value)).length := by
  induction msgs with
  | nil => simp
  | cons m msgs ih =>
    have hpos := length_encode_value_pos m
    simp only [List.map_cons, encodeAll, List.length_append, List.length_cons]
    refine ⟨by omega, ?_⟩
    intro m' hm'
    rcases List.mem_cons.mp hm' with rfl | hm'
    · omega
    · have := ih.2 m' hm'
      omega

/-- **A frame whose encoding fits in a buffer conforms to `schema_for_frame`.** -/
theorem conforms_frameValue {msgs : List Message}
    (h : (encode (frameValue msgs)).length < maxSize) :
    conforms noLink schemaForFrame (frameValue msgs) := by
  have hall : (encodeAll (msgs.map Message.value)).length < maxSize := by
    have hle := length_encodeAll_le_array (msgs.map Message.value)
    simp only [frameValue, encode, encodeAll, List.append_nil] at h
    omega
  obtain ⟨hcount, hmsg⟩ := length_le_encodeAll msgs
  have hlen : msgs.length < maxSize := by omega
  have hvalues : ∀ m ∈ msgs, conforms noLink messageSchema m.value := by
    intro m hm
    have := hmsg m hm
    exact conforms_value (by omega)
  simp only [frameValue, schemaForFrame, conforms, conformsFields, conformsField, Bool.and_eq_true,
    decide_eq_true_eq, List.length_map, List.all_map, List.all_eq_true, and_true]
  exact ⟨hlen, hvalues⟩

end BottledWater.Protocol
