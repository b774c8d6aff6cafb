/-
# BottledWater.Client.Objects — what the frame reader owns.

`Client.Protocol` keeps the schemas of a table as values.  In `client/protocol_client.c` an entry of the
schema list owns objects of the Avro library that are made from them: the schemas themselves, a class for
each, the values that keys and rows are read into, and a reader.  `schema_list_replace` gives back the objects
of the entry that it returns, and `frame_reader_free` those of all entries.  Here the functions stand with
these objects, each known by the number of the call that made it, and with the blocks of memory of the reader
and its list.

On every frame with messages of the protocol, the functions without the objects are those of `Client.Protocol`
(`projects_processFrame`).  Only the server can send others; what is proved about the objects holds for them too.
The Avro library is taken to make a class and values from every schema that it parses.
-/
import BottledWater.Client.Protocol
import BottledWater.Lib.Ledger
import BottledWater.Lib.Proc

namespace BottledWater.Client.Objects

open BottledWater.Lib BottledWater.Lib.Avro BottledWater.Protocol

/-! ## §1 — The frame reader and its objects -/

/-- An object of the Avro library or a block of memory, by its number. -/
abbrev Ref := Nat

/-- The pointers of a `schema_list_entry` that are always set. -/
structure RowObjects where
  avroReader : Ref
  oldValue : Ref
  rowValue : Ref
  rowIface : Ref
  rowSchema : Ref

/-- The pointers that only count if `key_schema` is not NULL. -/
structure KeyObjects where
  keyValue : Ref
  keyIface : Ref
  keySchema : Ref

/-- `schema_list_entry`, with the block of memory that it is in. -/
structure Entry where
  block : Ref
  schemas : SchemaListEntry
  row : RowObjects
  key : KeyObjects

/-- `frame_reader`, with the block of memory that it is in and that of the array `schemas`. -/
structure FrameReader where
  block : Ref
  array : Ref
  capacity : Nat
  frameSchema : Ref
  frameIface : Ref
  frameValue : Ref
  avroReader : Ref
  entries : List Entry

def RowObjects.refs (row : RowObjects) : List Ref :=
  [row.avroReader, row.oldValue, row.rowValue, row.rowIface, row.rowSchema]

def KeyObjects.refs (key : KeyObjects) : List Ref := [key.keyValue, key.keyIface, key.keySchema]

/-- The objects of the key, if `key_schema` is not NULL. -/
def Entry.keyRefs (entry : Entry) : List Ref :=
  if entry.schemas.keySchema.isSome then entry.key.refs else []

/-- What `schema_list_entry_decrefs` gives back. -/
def Entry.refs (entry : Entry) : List Ref := entry.row.refs ++ entry.keyRefs

/-- What the reader owns apart from the entries. -/
def FrameReader.own (reader : FrameReader) : List Ref :=
  [reader.block, reader.array, reader.frameSchema, reader.frameIface, reader.frameValue, reader.avroReader]

/-- What an entry refers to, and itself. -/
def Entry.held (entry : Entry) : List Ref := entry.block :: entry.refs

/-- All that the reader refers to. -/
def FrameReader.held (reader : FrameReader) : List Ref := reader.own ++ reader.entries.flatMap Entry.held

/-- `frame_reader_new`. -/
def frameReaderNew : AccountM FrameReader := do
  let block ← Account.issue
  let array ← Account.issue
  let frameSchema ← Account.issue
  let frameIface ← Account.issue
  let frameValue ← Account.issue
  let avroReader ← Account.issue
  pure ⟨block, array, 16, frameSchema, frameIface, frameValue, avroReader, []⟩

/-- `schema_list_entry_decrefs`. -/
def schemaListEntryDecrefs (entry : Entry) : AccountM Unit := Account.release entry.refs

/-- The loop of `frame_reader_free` over the entries. -/
def freeEntries : List Entry → AccountM Unit
  | [] => pure ()
  | entry :: entries => do
    schemaListEntryDecrefs entry
    Account.release [entry.block]
    freeEntries entries

/-- `frame_reader_free`. -/
def frameReaderFree (reader : FrameReader) : AccountM Unit := do
  Account.release [reader.avroReader]
  Account.release [reader.frameValue]
  Account.release [reader.frameIface]
  Account.release [reader.frameSchema]
  freeEntries reader.entries
  Account.release [reader.array]
  Account.release [reader.block]

/-! ## §2 — The schema list -/

/-- What `schema_list_lookup` compares. -/
def Entry.relid (entry : Entry) : Int64 := entry.schemas.key

/-- `schema_list_lookup`.  A pointer to an entry is its place in the array, which never changes. -/
def schemaListLookup (reader : FrameReader) (relid : Int64) : Option (Nat × Entry) := do
  let i ← reader.entries.findIdx? (·.relid = relid)
  let entry ← reader.entries[i]?
  some (i, entry)

/-- Assignments to an entry of the list. -/
def FrameReader.store (reader : FrameReader) (i : Nat) (entry : Entry) : FrameReader :=
  { reader with entries := reader.entries.set i entry }

/-- An array that is full becomes four times as large, with `realloc`. -/
def ensureCapacity (reader : FrameReader) : AccountM FrameReader :=
  if reader.entries.length = reader.capacity then do
    Account.release [reader.array]
    let array ← Account.issue
    pure { reader with array, capacity := reader.capacity * 4 }
  else pure reader

/-- An entry after `memset`. -/
def blankEntry (block : Ref) : Entry := ⟨block, ⟨0, none, .null⟩, ⟨0, 0, 0, 0, 0⟩, ⟨0, 0, 0⟩⟩

/-- `schema_list_entry_new`. -/
def schemaListEntryNew (reader : FrameReader) : AccountM (FrameReader × Nat × Entry) := do
  let reader ← ensureCapacity reader
  let block ← Account.issue
  let entry := blankEntry block
  pure ({ reader with entries := reader.entries ++ [entry] }, reader.entries.length, entry)

/-- `schema_list_replace`. -/
def schemaListReplace (reader : FrameReader) (relid : Int64) : AccountM (FrameReader × Nat × Entry) :=
  match schemaListLookup reader relid with
  | some (i, entry) => do
    schemaListEntryDecrefs entry
    pure (reader, i, entry)
  | none => schemaListEntryNew reader

/-- The entry gets its row schema, which has just been parsed.  Its key schema is what it was. -/
def fillEntry (reader : FrameReader) (relid : Int64) (rowSchema : Schema) :
    AccountM (FrameReader × Nat × Entry) := do
  let rowSchemaRef ← Account.issue
  let (reader, i, entry) ← schemaListReplace reader relid
  let rowIface ← Account.issue
  let rowValue ← Account.issue
  let oldValue ← Account.issue
  let avroReader ← Account.issue
  let entry :=
    { entry with
      schemas := ⟨uint32OfLong relid, entry.schemas.keySchema, rowSchema⟩
      row := ⟨avroReader, oldValue, rowValue, rowIface, rowSchemaRef⟩ }
  pure (reader.store i entry, i, entry)

/-- The key schema of the entry, if there is one. -/
def setKey (entry : Entry) : Option Schema → AccountM Entry
  | some keySchema => do
    let keySchemaRef ← Account.issue
    let keyIface ← Account.issue
    let keyValue ← Account.issue
    pure { entry with
      schemas := { entry.schemas with keySchema := some keySchema }
      key := ⟨keyValue, keyIface, keySchemaRef⟩ }
  | none => pure { entry with schemas := { entry.schemas with keySchema := none } }

/-! ## §3 — The messages -/

/-- The reader, the account of objects, and the context of the callbacks. -/
structure Session (κ : Type) where
  reader : FrameReader
  account : Account
  context : κ

abbrev ObjectsM (κ : Type) := EStateM ProtocolError (Session κ)

section

variable {κ α : Type}

/-- The session without the objects. -/
def Session.view (s : Session κ) : Client.Session κ := ⟨⟨s.reader.entries.map Entry.schemas⟩, s.context⟩

/-- A part of the code that does not change the schema list. -/
def onSession (x : ProtocolM κ α) : ObjectsM κ α := fun s =>
  match x s.view with
  | .ok a t => .ok a { s with context := t.context }
  | .error e t => .error e { s with context := t.context }

variable (on : Callback → κ → Int × κ) (avro : Libavro) (walPos : UInt64)

/-- `process_frame_table_schema` after the fields of the message and its row schema are read. -/
def completeEntry (relid : Int64) (keySchemaVal : Value) (keySchemaPresent : Nat) (rowSchemaJson : Bytes)
    (rowSchema : Schema) : ObjectsM κ Unit := do
  let s ← get
  let ((reader, i, entry), account) := (fillEntry s.reader relid rowSchema).run s.account
  set { s with reader, account }
  let keySchema ← onSession (parseKeySchema avro keySchemaVal keySchemaPresent)
  let s ← get
  let (entry, account) := (setKey entry (keySchema.map Prod.snd)).run s.account
  set { s with reader := s.reader.store i entry, account }
  onSession (invoke on (.tableSchema walPos (uint32OfLong relid) (keySchema.map Prod.fst)
    (keySchema.map Prod.snd) rowSchemaJson.dropLast rowSchema))

/-- `process_frame_table_schema`. -/
def processFrameTableSchema (record : Value) : ObjectsM κ Unit := do
  let relidVal ← onSession (check (record.getByIndex 0))
  let keySchemaVal ← onSession (check (record.getByIndex 1))
  let rowSchemaVal ← onSession (check (record.getByIndex 2))
  let relid ← onSession (check relidVal.getLong)
  let keySchemaPresent ← onSession (check keySchemaVal.getDiscriminant)
  let rowSchemaJson ← onSession (check rowSchemaVal.getString)
  let rowSchema ← onSession (parseSchema avro rowSchemaJson)
  completeEntry on avro walPos relid keySchemaVal keySchemaPresent rowSchemaJson rowSchema

/-- One round of the loop of `process_frame`.  Only one of the messages is about the schema list. -/
def processMessage (unionVal : Value) : ObjectsM κ Unit := do
  let msgType ← onSession (check unionVal.getDiscriminant)
  let record ← onSession (check unionVal.getCurrentBranch)
  match msgType with
  | protocolMsgBeginTxn => onSession (processFrameBeginTxn on walPos record)
  | protocolMsgCommitTxn => onSession (processFrameCommitTxn on walPos record)
  | protocolMsgTableSchema => processFrameTableSchema on avro walPos record
  | protocolMsgInsert => onSession (processFrameInsert on avro walPos record)
  | protocolMsgUpdate => onSession (processFrameUpdate on avro walPos record)
  | protocolMsgDelete => onSession (processFrameDelete on avro walPos record)
  | n => throw (.unknownMessageType n)

/-- The loop of `process_frame`. -/
def processMessages : List Value → ObjectsM κ Unit
  | [] => pure ()
  | unionVal :: rest => do
    processMessage on avro walPos unionVal
    processMessages rest

/-- `process_frame`. -/
def processFrame (frame : Value) : ObjectsM κ Unit := do
  let msgVal ← onSession (check (frame.getByIndex 0))
  let msgs ← onSession (check msgVal.getItems)
  processMessages on avro walPos msgs

/-- `parse_frame`. -/
def parseFrame (buf : Bytes) : ObjectsM κ Unit := do
  let frame ← onSession (readEntirely (decode (fun _ => failure) schemaForFrame) buf)
  processFrame on avro walPos frame

/-- Frames one after another, up to the first that fails: then the process ends. -/
def parseFrames : List (UInt64 × Bytes) → ObjectsM κ Unit
  | [] => pure ()
  | (walPos, buf) :: frames => do
    parseFrame on avro walPos buf
    parseFrames frames

/-- A reader that has read nothing. -/
def start (context : κ) : Session κ :=
  let (reader, account) := frameReaderNew.run ⟨0, []⟩
  ⟨reader, account, context⟩

/-- The state in which a procedure returns or fails, if what it does is defined. -/
def ended (x : ObjectsM κ α) (s : Session κ) : Option (Session κ) :=
  match x s with
  | .ok _ t => some t
  | .error .undefined _ => none
  | .error _ t => some t

/-- The account after frames and `frame_reader_free`, if what the code does with the frames is defined. -/
def accountAtEnd (context : κ) (frames : List (UInt64 × Bytes)) : Option Account := do
  let s ← ended (parseFrames on avro frames) (start context)
  some ((frameReaderFree s.reader).run s.account).2

end

/-! ## §4 — Without the objects -/

section

variable {κ α β : Type}

/-- A procedure that leaves the schema list as it is. -/
def KeepsReader (x : ProtocolM κ α) : Prop :=
  ∀ reader, Triple (fun s : Client.Session κ => s.reader = reader) x (fun _ s => s.reader = reader)
    (fun _ s => s.reader = reader)

namespace KeepsReader

theorem pure (a : α) : KeepsReader (pure a : ProtocolM κ α) := fun _ => Triple.pure fun _ h => h

theorem throw (e : ProtocolError) : KeepsReader (throw e : ProtocolM κ α) := fun _ => Triple.throw fun _ h => h

theorem bind {x : ProtocolM κ α} {f : α → ProtocolM κ β} (hx : KeepsReader x) (hf : ∀ a, KeepsReader (f a)) :
    KeepsReader (x >>= f) :=
  fun reader => (hx reader).bind fun a => hf a reader

theorem check (o : Option α) : KeepsReader (check o : ProtocolM κ α) := by
  cases o with
  | none => exact throw _
  | some a => exact pure a

theorem discard {x : ProtocolM κ α} (hx : KeepsReader x) : KeepsReader (discard x) :=
  hx.bind fun _ => pure _

theorem readEntirely (read : Reader Value) (buf : Bytes) :
    KeepsReader (readEntirely read buf : ProtocolM κ Value) := by
  unfold Client.readEntirely
  split
  · exact throw _
  · exact pure _
  · exact throw _

theorem invoke (on : Callback → κ → Int × κ) (call : Callback) : KeepsReader (invoke on call) := by
  intro reader
  apply Triple.get
  intro s hs
  apply Triple.seq (Q := fun _ t => t.reader = reader)
  · exact Triple.set fun _ _ => hs
  · exact Triple.ite (fun _ => throw _ reader) (fun _ => pure _ reader)

theorem lookupOrFail (event : String) (relid : Int64) :
    KeepsReader (lookupOrFail event relid : ProtocolM κ SchemaListEntry) := by
  intro reader
  apply Triple.get
  intro s hs
  refine Triple.pre (P := fun t => t.reader = reader) ?_ (fun t ht => ht ▸ hs)
  split
  · exact pure _ reader
  · exact throw _ reader

theorem readKey (avro : Libavro) (entry : SchemaListEntry) (bin : Bytes) :
    KeepsReader (entry.readKey avro bin : ProtocolM κ Unit) := by
  unfold SchemaListEntry.readKey
  split
  · exact (readEntirely _ bin).discard
  · exact throw _

theorem readRow (avro : Libavro) (entry : SchemaListEntry) (bin : Bytes) :
    KeepsReader (entry.readRow avro bin : ProtocolM κ Unit) :=
  (readEntirely _ bin).discard

theorem readNullable {read : Bytes → ProtocolM κ Unit} (hread : ∀ bin, KeepsReader (read bin)) (val : Value)
    (present : Nat) : KeepsReader (readNullable read val present) := by
  unfold Client.readNullable
  split
  · exact (check _).bind fun _ => (check _).bind fun bin => (hread bin).bind fun _ => pure _
  · exact pure _

end KeepsReader

variable {on : Callback → κ → Int × κ} {avro : Libavro} {walPos : UInt64} {record : Value}

theorem keepsReader_beginTxn : KeepsReader (processFrameBeginTxn on walPos record) :=
  (KeepsReader.check _).bind fun _ => (KeepsReader.check _).bind fun _ => KeepsReader.invoke on _

theorem keepsReader_commitTxn : KeepsReader (processFrameCommitTxn on walPos record) :=
  (KeepsReader.check _).bind fun _ => (KeepsReader.check _).bind fun _ => KeepsReader.invoke on _

theorem keepsReader_insert : KeepsReader (processFrameInsert on avro walPos record) := by
  iterate 6 refine (KeepsReader.check _).bind fun _ => ?_
  refine (KeepsReader.lookupOrFail _ _).bind fun entry => ?_
  refine (KeepsReader.readNullable (KeepsReader.readKey avro entry) _ _).bind fun _ => ?_
  exact (KeepsReader.readRow avro entry _).bind fun _ => KeepsReader.invoke on _

theorem keepsReader_update : KeepsReader (processFrameUpdate on avro walPos record) := by
  iterate 8 refine (KeepsReader.check _).bind fun _ => ?_
  refine (KeepsReader.lookupOrFail _ _).bind fun entry => ?_
  refine (KeepsReader.readNullable (KeepsReader.readKey avro entry) _ _).bind fun _ => ?_
  refine (KeepsReader.readNullable (KeepsReader.readRow avro entry) _ _).bind fun _ => ?_
  exact (KeepsReader.readRow avro entry _).bind fun _ => KeepsReader.invoke on _

theorem keepsReader_delete : KeepsReader (processFrameDelete on avro walPos record) := by
  iterate 6 refine (KeepsReader.check _).bind fun _ => ?_
  refine (KeepsReader.lookupOrFail _ _).bind fun entry => ?_
  refine (KeepsReader.readNullable (KeepsReader.readKey avro entry) _ _).bind fun _ => ?_
  exact (KeepsReader.readNullable (KeepsReader.readRow avro entry) _ _).bind fun _ => KeepsReader.invoke on _

theorem projects_onSession {x : ProtocolM κ α} (h : KeepsReader x) :
    Projects Session.view (onSession x) x := by
  intro s
  have hkeeps := h s.view.reader s.view rfl
  unfold onSession
  cases hrun : x s.view with
  | ok a t =>
    obtain ⟨reader, context⟩ := t
    rw [hrun] at hkeeps
    obtain rfl : reader = s.view.reader := hkeeps
    rfl
  | error e t =>
    obtain ⟨reader, context⟩ := t
    rw [hrun] at hkeeps
    obtain rfl : reader = s.view.reader := hkeeps
    rfl

/-! ### An entry of the list -/

variable {reader : FrameReader} {relid : Int64} {rowSchema : Schema} {account : Account}

theorem find_eq_lookup (reader : FrameReader) (relid : Int64) :
    Keyed.find Entry.relid relid reader.entries = (schemaListLookup reader relid).map Prod.snd := by
  rw [Keyed.find_eq_findIdx?, schemaListLookup]
  cases reader.entries.findIdx? (·.relid = relid) with
  | none => rfl
  | some i =>
    show reader.entries[i]? = (reader.entries[i]?.bind fun entry => some (i, entry)).map Prod.snd
    cases reader.entries[i]? with
    | none => rfl
    | some entry => rfl

theorem findIdx?_of_lookup {i : Nat} {entry : Entry} (h : schemaListLookup reader relid = some (i, entry)) :
    reader.entries.findIdx? (·.relid = relid) = some i := by
  obtain ⟨j, hj, h⟩ := Option.bind_eq_some_iff.mp h
  obtain ⟨_, -, ⟨⟩⟩ := Option.bind_eq_some_iff.mp h
  exact hj

theorem findIdx?_of_lookup_none (h : schemaListLookup reader relid = none) :
    reader.entries.findIdx? (·.relid = relid) = none := by
  cases hidx : reader.entries.findIdx? (·.relid = relid) with
  | none => rfl
  | some i =>
    obtain ⟨hi, -⟩ := List.findIdx?_eq_some_iff_getElem.mp hidx
    simp [schemaListLookup, hidx, List.getElem?_eq_getElem hi] at h

theorem entries_ensureCapacity : ((ensureCapacity reader).run account).1.entries = reader.entries := by
  unfold ensureCapacity
  split <;> rfl

/-- What is assigned to the entry is put in its place. -/
theorem store_schemaListReplace (entry : Entry) :
    (((schemaListReplace reader relid).run account).1.1.store
        ((schemaListReplace reader relid).run account).1.2.1 entry).entries =
      Keyed.put Entry.relid relid entry reader.entries := by
  rw [Keyed.put_eq_findIdx?]
  unfold schemaListReplace
  cases hlookup : schemaListLookup reader relid with
  | some found =>
    rw [findIdx?_of_lookup hlookup]
    rfl
  | none =>
    rw [findIdx?_of_lookup_none hlookup]
    show (((ensureCapacity reader).run account).1.entries ++ [_]).set
      ((ensureCapacity reader).run account).1.entries.length entry = _
    rw [entries_ensureCapacity, List.set_append_right _ _ le_rfl, Nat.sub_self]
    rfl

/-- The key schema of the entry is that of the entry found, if any. -/
theorem keySchema_schemaListReplace :
    ((schemaListReplace reader relid).run account).1.2.2.schemas.keySchema =
      (schemaListLookup reader relid).bind fun found => found.2.schemas.keySchema := by
  unfold schemaListReplace
  cases schemaListLookup reader relid with
  | some entry => rfl
  | none => rfl

theorem entries_fillEntry :
    ((fillEntry reader relid rowSchema).run account).1.1.entries =
      Keyed.put Entry.relid relid ((fillEntry reader relid rowSchema).run account).1.2.2 reader.entries :=
  store_schemaListReplace _

theorem schemas_fillEntry :
    ((fillEntry reader relid rowSchema).run account).1.2.2.schemas =
      ⟨uint32OfLong relid, (schemaListLookup reader relid).bind fun found => found.2.schemas.keySchema,
        rowSchema⟩ :=
  congrArg (SchemaListEntry.mk (uint32OfLong relid) · rowSchema) keySchema_schemaListReplace

theorem store_fillEntry (entry : Entry) :
    (((fillEntry reader relid rowSchema).run account).1.1.store
        ((fillEntry reader relid rowSchema).run account).1.2.1 entry).entries =
      Keyed.put Entry.relid relid entry reader.entries :=
  (List.set_set ..).trans (store_schemaListReplace entry)

theorem schemas_setKey (entry : Entry) (keySchema : Option Schema) :
    ((setKey entry keySchema).run account).1.schemas = { entry.schemas with keySchema } := by
  cases keySchema with
  | none => rfl
  | some schema => rfl

/-- The session after the first assignments to the entry. -/
def Session.filled (s : Session κ) (relid : Int64) (rowSchema : Schema) : Session κ :=
  let filled := (fillEntry s.reader relid rowSchema).run s.account
  ⟨filled.1.1, filled.2, s.context⟩

/-- The entry after them. -/
def Session.filledEntry (s : Session κ) (relid : Int64) (rowSchema : Schema) : Entry :=
  ((fillEntry s.reader relid rowSchema).run s.account).1.2.2

/-- The session after the entry has its key schema. -/
def Session.keyed (s : Session κ) (relid : Int64) (rowSchema : Schema) (keySchema : Option Schema) :
    Session κ :=
  let filled := (fillEntry s.reader relid rowSchema).run s.account
  let keyed := (setKey filled.1.2.2 keySchema).run filled.2
  ⟨filled.1.1.store filled.1.2.1 keyed.1, keyed.2, s.context⟩

theorem lookup_view (s : Session κ) (relid : Int64) :
    Client.schemaListLookup s.view.reader relid =
      (schemaListLookup s.reader relid).map fun found => found.2.schemas := by
  rw [Client.schemaListLookup, Session.view, ← Keyed.map_find]
  show (Keyed.find Entry.relid relid s.reader.entries).map Entry.schemas = _
  rw [find_eq_lookup, Option.map_map]
  rfl

theorem view_put {entries : List Entry} (entry : Entry) :
    (Keyed.put Entry.relid relid entry entries).map Entry.schemas =
      Keyed.put SchemaListEntry.key relid entry.schemas (entries.map Entry.schemas) :=
  Keyed.map_put_of_map Entry.schemas relid entry entries

theorem view_filled (s : Session κ) :
    (s.filled relid rowSchema).view =
      ⟨Client.schemaListReplace s.view.reader relid ⟨uint32OfLong relid,
        (Client.schemaListLookup s.view.reader relid).bind SchemaListEntry.keySchema, rowSchema⟩, s.context⟩ := by
  rw [Session.filled, Session.view, entries_fillEntry, view_put, schemas_fillEntry, lookup_view, Option.bind_map]
  rfl

/-- The table id of a message fits into an `Oid`. -/
def Fits (relid : Int64) : Prop := longOfUInt32 (uint32OfLong relid) = relid

theorem view_keyed (s : Session κ) (keySchema : Option Schema) (hfits : Fits relid) :
    (s.keyed relid rowSchema keySchema).view =
      ⟨Client.schemaListReplace (s.filled relid rowSchema).view.reader relid
        ⟨uint32OfLong relid, keySchema, rowSchema⟩, s.context⟩ := by
  have hkey : SchemaListEntry.key ⟨uint32OfLong relid,
      (Client.schemaListLookup s.view.reader relid).bind SchemaListEntry.keySchema, rowSchema⟩ = relid := hfits
  rw [view_filled, Session.keyed, Session.view, store_fillEntry, view_put, schemas_setKey, schemas_fillEntry]
  exact congrArg (fun schemas => Client.Session.mk ⟨schemas⟩ s.context) (Keyed.put_put hkey _).symm

/-! ### The messages -/

theorem check_bind (o : Option α) (f : α → Option β) :
    (check o >>= fun a => check (f a) : ProtocolM κ β) = check (o.bind f) := by
  cases o with
  | none => rfl
  | some a => rfl

/-- `parseKeySchema` as a function. -/
def keySchemaOf (avro : Libavro) (keySchemaVal : Value) (keySchemaPresent : Nat) :
    Option (Option (Bytes × Schema)) :=
  if keySchemaPresent ≠ 0 then do
    let branch ← keySchemaVal.getCurrentBranch
    let json ← branch.getString
    let schema ← avro.schemaFromJson json.dropLast
    some (some (json.dropLast, schema))
  else some none

variable {keySchemaVal : Value} {keySchemaPresent : Nat} {rowSchemaJson : Bytes}

theorem parseKeySchema_eq : (parseKeySchema avro keySchemaVal keySchemaPresent : ProtocolM κ _) =
    check (keySchemaOf avro keySchemaVal keySchemaPresent) := by
  unfold parseKeySchema keySchemaOf
  split
  · show (check keySchemaVal.getCurrentBranch >>= fun branch => check branch.getString >>= fun json =>
      check (avro.schemaFromJson (List.dropLast json)) >>= fun schema =>
        check (some (some (List.dropLast json, schema)))) = _
    simp only [check_bind]
    rfl
  · rfl

/-- **What `completeEntry` does**: the entry is filled, and if the key schema can be parsed it gets that and
the callback is made. -/
theorem completeEntry_eq (s : Session κ) :
    completeEntry on avro walPos relid keySchemaVal keySchemaPresent rowSchemaJson rowSchema s =
      match keySchemaOf avro keySchemaVal keySchemaPresent with
      | none => .error .avro (s.filled relid rowSchema)
      | some keySchema =>
        onSession (invoke on (.tableSchema walPos (uint32OfLong relid) (keySchema.map Prod.fst)
          (keySchema.map Prod.snd) rowSchemaJson.dropLast rowSchema))
          (s.keyed relid rowSchema (keySchema.map Prod.snd)) := by
  rw [completeEntry, parseKeySchema_eq]
  cases keySchemaOf avro keySchemaVal keySchemaPresent with
  | none => rfl
  | some keySchema => rfl

/-- The end of `Client.processFrameTableSchema`, after the fields of the message and its row schema are read. -/
def assignEntry (on : Callback → κ → Int × κ) (avro : Libavro) (walPos : UInt64) (relid : Int64)
    (keySchemaVal : Value) (keySchemaPresent : Nat) (rowSchemaJson : Bytes) (rowSchema : Schema) :
    ProtocolM κ Unit := do
  let previous := Client.schemaListLookup (← get).reader relid
  setEntry relid (previous.bind SchemaListEntry.keySchema) rowSchema
  let keySchema ← parseKeySchema avro keySchemaVal keySchemaPresent
  setEntry relid (keySchema.map Prod.snd) rowSchema
  invoke on (.tableSchema walPos (uint32OfLong relid) (keySchema.map Prod.fst)
    (keySchema.map Prod.snd) rowSchemaJson.dropLast rowSchema)

theorem assignEntry_view (s : Session κ) (hfits : Fits relid) :
    assignEntry on avro walPos relid keySchemaVal keySchemaPresent rowSchemaJson rowSchema s.view =
      match keySchemaOf avro keySchemaVal keySchemaPresent with
      | none => .error .avro (s.filled relid rowSchema).view
      | some keySchema =>
        invoke on (.tableSchema walPos (uint32OfLong relid) (keySchema.map Prod.fst)
          (keySchema.map Prod.snd) rowSchemaJson.dropLast rowSchema)
          (s.keyed relid rowSchema (keySchema.map Prod.snd)).view := by
  simp only [view_keyed _ _ hfits, view_filled]
  rw [assignEntry, parseKeySchema_eq]
  cases keySchemaOf avro keySchemaVal keySchemaPresent with
  | none => rfl
  | some keySchema => rfl

theorem projects_completeEntry (hfits : Fits relid) :
    Projects Session.view
      (completeEntry on avro walPos relid keySchemaVal keySchemaPresent rowSchemaJson rowSchema)
      (assignEntry on avro walPos relid keySchemaVal keySchemaPresent rowSchemaJson rowSchema) := by
  intro s
  rw [completeEntry_eq, assignEntry_view s hfits]
  cases keySchemaOf avro keySchemaVal keySchemaPresent with
  | none => rfl
  | some keySchema => exact projects_onSession (KeepsReader.invoke on _) _

theorem projects_check_bind {o : Option α} {f : α → ObjectsM κ β} {g : α → ProtocolM κ β}
    (h : ∀ a, o = some a → Projects Session.view (f a) (g a)) :
    Projects Session.view (onSession (check o) >>= f) (check o >>= g) := by
  cases o with
  | none => exact fun _ => rfl
  | some a => exact h a rfl

/-- The table that a message names, if any. -/
def relidOf (record : Value) : Option Int64 := (record.getByIndex 0).bind Value.getLong

theorem projects_tableSchema (hfits : ∀ relid, relidOf record = some relid → Fits relid) :
    Projects Session.view (processFrameTableSchema on avro walPos record)
      (Client.processFrameTableSchema on avro walPos record) := by
  refine projects_check_bind fun relidVal hrelidVal => ?_
  refine projects_check_bind fun _ _ => ?_
  refine projects_check_bind fun _ _ => ?_
  refine projects_check_bind fun relid hrelid => ?_
  iterate 3 refine projects_check_bind fun _ _ => ?_
  exact projects_completeEntry (hfits relid (Option.bind_eq_some_iff.mpr ⟨relidVal, hrelidVal, hrelid⟩))

/-- The message names no table id that is not one. -/
def MessageFits (unionVal : Value) : Prop :=
  ∀ record relid, unionVal.getCurrentBranch = some record → relidOf record = some relid → Fits relid

theorem projects_processMessage {unionVal : Value}
    (hfits : unionVal.getDiscriminant = some protocolMsgTableSchema → MessageFits unionVal) :
    Projects Session.view (processMessage on avro walPos unionVal)
      (Client.processMessage on avro walPos unionVal) := by
  refine projects_check_bind fun msgType hmsgType => projects_check_bind fun record hrecord => ?_
  match msgType with
  | protocolMsgBeginTxn => exact projects_onSession keepsReader_beginTxn
  | protocolMsgCommitTxn => exact projects_onSession keepsReader_commitTxn
  | protocolMsgTableSchema => exact projects_tableSchema fun relid => hfits hmsgType record relid hrecord
  | protocolMsgInsert => exact projects_onSession keepsReader_insert
  | protocolMsgUpdate => exact projects_onSession keepsReader_update
  | protocolMsgDelete => exact projects_onSession keepsReader_delete
  | _ + 6 => exact Projects.throw _

theorem messageFits_value {m : Message} (h : m.value.getDiscriminant = some protocolMsgTableSchema) :
    MessageFits m.value := by
  cases m with
  | tableSchema relid key row =>
    intro record relid' hrecord hrelid
    cases hrecord
    cases hrelid
    exact congrArg longOfUInt32 (uint32OfLong_longOfUInt32 relid)
  | _ => cases h

theorem projects_processMessages {msgs : List Value}
    (hfits : ∀ unionVal ∈ msgs, unionVal.getDiscriminant = some protocolMsgTableSchema → MessageFits unionVal) :
    Projects Session.view (processMessages on avro walPos msgs) (Client.processMessages on avro walPos msgs) := by
  induction msgs with
  | nil => exact Projects.pure ()
  | cons unionVal rest ih =>
    obtain ⟨hfirst, hrest⟩ := List.forall_mem_cons.mp hfits
    exact (projects_processMessage hfirst).bind fun _ => ih hrest

/-- **Without the objects, the code is that of `Client.Protocol`**: the same callbacks, the same errors and
the same schemas, on every frame with messages of the protocol. -/
theorem projects_processFrame (msgs : List Message) :
    Projects Session.view (processFrame on avro walPos (frameValue msgs))
      (Client.processFrame on avro walPos (frameValue msgs)) := by
  refine projects_check_bind fun msgVal hmsgVal => projects_check_bind fun items hitems => ?_
  cases hmsgVal
  cases hitems
  refine projects_processMessages fun unionVal hmem => ?_
  obtain ⟨m, -, rfl⟩ := List.mem_map.mp hmem
  exact messageFits_value

end

end BottledWater.Client.Objects
