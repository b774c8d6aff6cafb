/-
# BottledWater.Ext.Server — from a changed row to the messages of a frame.

The second half of `ext/oid2avro.c` and `ext/protocol_server.c`.  A row is encoded under the row schema
of its table, and the columns of the key index under the key schema; `update_frame_with_insert`, `_update`
and `_delete` put the result into messages, after a message with the schemas if the schema cache says
that the client does not have them.

Parameters are the conversion of one datum to an Avro value (`update_avro_with_datum`), the JSON text of
a schema and `equalTupleDescs`.  A failure ends the call with an error, and with it the replication
stream or the snapshot query.
-/
import BottledWater.Ext.SchemaCache

namespace BottledWater.Ext

open BottledWater.Lib.Avro BottledWater.Protocol

/-! ## §1 — Tuples and parameters -/

/-- A heap tuple: the values of its attributes, where `none` is null, and the system column `oid` that
the rows of a table WITH OIDS have. -/
structure HeapTuple (δ : Type) where
  values : List (Option δ)
  oid : Option δ
  deriving DecidableEq, Repr

/-- `heap_getattr` for attribute number `i + 1`; attributes past the end of the tuple are null. -/
def heapGetattr {δ : Type} (tuple : HeapTuple δ) (i : Nat) : Option δ := (tuple.values[i]?).join

/-- The functions of Postgres and of the Avro library that the encoding depends on. -/
structure Conversions (δ : Type) where
  equalTupleDescs : TupleDesc → TupleDesc → Bool
  /-- `update_avro_with_datum`, on the field of a record. -/
  updateAvroWithDatum : Oid → δ → Option Value
  /-- `avro_schema_to_json`. -/
  schemaToJson : Schema → Bytes

/-! ## §2 — `try_writing` -/

def initBufferLength : Nat := 16384
def maxBufferLength : Nat := 1048576

/-- `VARHDRSZ`. -/
def varhdrsz : Nat := 4

/-- The loop of `try_writing`: what is written, and one NUL, have to fit in the buffer behind its header;
otherwise the next buffer is four times as large. -/
def tryWritingLoop (written : Bytes) : (rounds size : Nat) → Except PluginError Bytes
  | 0, _ => .error .noSpace
  | rounds + 1, size =>
    if size ≤ maxBufferLength then
      if written.length + 1 ≤ size - varhdrsz then .ok written
      else tryWritingLoop written rounds (size * 4)
    else .error .noSpace

/-- `try_writing`, of a writer that produces the given bytes.  The fifth buffer would be too large. -/
def tryWriting (written : Bytes) : Except PluginError Bytes := tryWritingLoop written 5 initBufferLength

theorem eq_of_tryWritingLoop {b c : Bytes} :
    ∀ {rounds size : Nat}, tryWritingLoop b rounds size = .ok c → c = b
  | 0, _, h => nomatch h
  | rounds + 1, size, h => by
    unfold tryWritingLoop at h
    split at h
    · split at h
      · cases h
        rfl
      · exact eq_of_tryWritingLoop h
    · cases h

/-- Buffers change nothing of what is written. -/
theorem eq_of_tryWriting {b c : Bytes} (h : tryWriting b = .ok c) : c = b := eq_of_tryWritingLoop h

/-! ## §3 — Rows and keys -/

section

variable {δ : Type} (conv : Conversions δ)

/-- The number of fields of a record schema. -/
def numFields : Schema → Nat
  | .record _ _ fields => fields.length
  | _ => 0

/-- The value of one field: branch 0 for null, otherwise what the type makes of the datum. -/
def fieldValue (attr : Attribute) : Option δ → Except PluginError Value
  | none => .ok (.union 0 .null)
  | some datum =>
    match conv.updateAvroWithDatum attr.atttypid datum with
    | some v => .ok v
    | none => .error .avro

/-- The loop of `tuple_to_avro_row`, at attribute `i` of the tuple and `field` of the record. -/
def rowLoop (schema : Schema) (tuple : HeapTuple δ) :
    List Attribute → (i field : Nat) → Except PluginError (List Value)
  | [], _, _ => pure []
  | attr :: attrs, i, field =>
    if attr.attisdropped then rowLoop schema tuple attrs (i + 1) field
    else if field < numFields schema then do
      let v ← fieldValue conv attr (heapGetattr tuple i)
      let vs ← rowLoop schema tuple attrs (i + 1) (field + 1)
      pure (v :: vs)
    else throw .avro

/-- `tuple_to_avro_row`: the fields of the record. -/
def tupleToAvroRow (schema : Schema) (tupdesc : TupleDesc) (tuple : HeapTuple δ) :
    Except PluginError (List Value) :=
  rowLoop conv schema tuple tupdesc.attrs 0 0

/-- The inner loop of `tuple_to_avro_key`, for the given number of rounds: the position in the tuple
that corresponds to position `relI` in the table, where the tuple may or may not have the dropped
columns. -/
def tuplePosition (relAttrs tupAttrs : List Attribute) :
    (rounds relI tupI : Nat) → Except PluginError Nat
  | 0, _, tupI => pure tupI
  | rounds + 1, relI, tupI =>
    match relAttrs[relI]? with
    | none => throw .undefined
    | some relAttr =>
      if !relAttr.attisdropped then tuplePosition relAttrs tupAttrs rounds (relI + 1) (tupI + 1)
      else
        match tupAttrs[tupI]? with
        | none => throw .undefined
        | some tupAttr =>
          tuplePosition relAttrs tupAttrs rounds (relI + 1)
            (if tupAttr.attisdropped then tupI + 1 else tupI)

/-- The loop of `tuple_to_avro_key`, over the columns of the index. -/
def keyLoop (schema : Schema) (tupdesc relTupdesc : TupleDesc) (tuple : HeapTuple δ) :
    List Int → (field : Nat) → Except PluginError (List Value)
  | [], _ => pure []
  | indkey :: indkeys, field => do
    let attnum := indkey - 1
    -- the loop bound is a signed number: below 1 there is no round
    let tupI ← tuplePosition relTupdesc.attrs tupdesc.attrs attnum.toNat 0 0
    match tupdesc.attrs[tupI]? with
    | none => throw (.nonExistentAttribute attnum)
    | some attr =>
      if attr.attisdropped then throw (.nonExistentAttribute attnum)
      else if field < numFields schema then do
        let v ← fieldValue conv attr (heapGetattr tuple tupI)
        let vs ← keyLoop schema tupdesc relTupdesc tuple indkeys (field + 1)
        pure (v :: vs)
      else throw .avro

/-- `tuple_to_avro_key`: the fields of the record. -/
def tupleToAvroKey (schema : Schema) (tupdesc : TupleDesc) (tuple : HeapTuple δ) (rel : Table)
    (keyIndex : Index) : Except PluginError (List Value) :=
  keyLoop conv schema tupdesc rel.tupdesc tuple keyIndex.indkey 0

/-- `try_writing(..., &write_avro_binary, ...)` on a record: a field that was not set cannot be
written. -/
def writeRecord (schema : Schema) (fields : List Value) : Except PluginError Bytes :=
  if fields.length = numFields schema then tryWriting (encode (.record fields)) else .error .avro

/-- The row of a tuple, in the row schema of the entry. -/
def encodeRow (entry : SchemaCacheEntry) (tupdesc : TupleDesc) (tuple : HeapTuple δ) :
    Except PluginError Bytes := do
  let fields ← tupleToAvroRow conv entry.rowSchema tupdesc tuple
  writeRecord entry.rowSchema fields

/-- `extract_tuple_key`. -/
def extractTupleKey (entry : SchemaCacheEntry) (rel : Table) (tupdesc : TupleDesc)
    (tuple : HeapTuple δ) : Except PluginError (Option Bytes) :=
  match entry.keySchema, tableKeyIndex rel with
  | none, _ => pure none
  | some _, none => throw .undefined
  | some schema, some index => do
    let fields ← tupleToAvroKey conv schema tupdesc tuple rel index
    let keyBin ← writeRecord schema fields
    pure (some keyBin)

/-! ## §4 — The frame -/

/-- The JSON text of a schema. -/
def writeSchemaJson (schema : Schema) : Except PluginError Bytes := tryWriting (conv.schemaToJson schema)

def writeKeySchemaJson : Option Schema → Except PluginError (Option Bytes)
  | none => pure none
  | some schema => do
    let json ← writeSchemaJson conv schema
    pure (some json)

/-- `update_frame_with_table_schema`, if the lookup returned something other than 0. -/
def announcement (changed : Nat) (entry : SchemaCacheEntry) : Except PluginError (List Message) :=
  if changed ≠ 0 then do
    let keySchemaJson ← writeKeySchemaJson conv entry.keySchema
    let rowSchemaJson ← writeSchemaJson conv entry.rowSchema
    pure [.tableSchema entry.relid keySchemaJson rowSchemaJson]
  else pure []

/-- The key and the row of a tuple, if there is one. -/
def encodeOld (entry : SchemaCacheEntry) (rel : Table) :
    Option (HeapTuple δ) → Except PluginError (Option Bytes × Option Bytes)
  | none => pure (none, none)
  | some tuple => do
    let keyBin ← extractTupleKey conv entry rel rel.tupdesc tuple
    let oldBin ← encodeRow conv entry rel.tupdesc tuple
    pure (keyBin, some oldBin)

/-- Whether the key of an updated row is a new one: the encodings differ in length or in a byte. -/
def keyDiffers : Option Bytes → Option Bytes → Except PluginError Bool
  | none, _ => pure false
  | some _, none => throw .undefined
  | some oldKey, some newKey => pure (decide (oldKey.length ≠ newKey.length ∨ oldKey ≠ newKey))

/-- What the three functions below have in common: the entry of the table, the announcement of its
schemas if they are new, and then the row. -/
def updateFrame (namespaces : Namespaces) (cache : SchemaCache) (rel : Table)
    (rows : SchemaCacheEntry → Except PluginError (List Message)) :
    Except PluginError (SchemaCache × List Message) := do
  let (changed, entry, cache) ← schemaCacheLookup conv.equalTupleDescs namespaces cache rel
  let schemas ← announcement conv changed entry
  let msgs ← rows entry
  pure (cache, schemas ++ msgs)

def insertRows (rel : Table) (tupdesc : TupleDesc) (newtuple : HeapTuple δ) (entry : SchemaCacheEntry) :
    Except PluginError (List Message) := do
  let keyBin ← extractTupleKey conv entry rel tupdesc newtuple
  let newBin ← encodeRow conv entry tupdesc newtuple
  pure [.insert rel.relid keyBin newBin]

def updateRows (rel : Table) (oldtuple : Option (HeapTuple δ)) (newtuple : HeapTuple δ)
    (entry : SchemaCacheEntry) : Except PluginError (List Message) := do
  let (oldKeyBin, oldBin) ← encodeOld conv entry rel oldtuple
  let newKeyBin ← extractTupleKey conv entry rel rel.tupdesc newtuple
  let newBin ← encodeRow conv entry rel.tupdesc newtuple
  let differs ← keyDiffers oldKeyBin newKeyBin
  if differs then pure [.delete rel.relid oldKeyBin oldBin, .insert rel.relid newKeyBin newBin]
  else pure [.update rel.relid newKeyBin oldBin newBin]

def deleteRows (rel : Table) (oldtuple : Option (HeapTuple δ)) (entry : SchemaCacheEntry) :
    Except PluginError (List Message) := do
  let (keyBin, oldBin) ← encodeOld conv entry rel oldtuple
  pure [.delete rel.relid keyBin oldBin]

variable (namespaces : Namespaces) (cache : SchemaCache) (rel : Table)

/-- `update_frame_with_insert`. -/
def updateFrameWithInsert (tupdesc : TupleDesc) (newtuple : HeapTuple δ) :
    Except PluginError (SchemaCache × List Message) :=
  updateFrame conv namespaces cache rel (insertRows conv rel tupdesc newtuple)

/-- `update_frame_with_update`. -/
def updateFrameWithUpdate (oldtuple : Option (HeapTuple δ)) (newtuple : HeapTuple δ) :
    Except PluginError (SchemaCache × List Message) :=
  updateFrame conv namespaces cache rel (updateRows conv rel oldtuple newtuple)

/-- `update_frame_with_delete`. -/
def updateFrameWithDelete (oldtuple : Option (HeapTuple δ)) :
    Except PluginError (SchemaCache × List Message) :=
  updateFrame conv namespaces cache rel (deleteRows conv rel oldtuple)

end

end BottledWater.Ext
