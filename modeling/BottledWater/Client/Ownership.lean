/-
# BottledWater.Client.Ownership — every object of the frame reader is given back once.

The account of the objects of `Client.Objects` is balanced as long as every object that was made has been given
back, or is one that the reader refers to, and not both.  A message keeps it balanced, whether it is processed
or fails (`owned_processMessage`), with one exception.  A table that has a key is announced again, and the new
key schema cannot be parsed: `schema_list_replace` has given the old key schema back, the entry still points to
it, and `frame_reader_free` gives it back once more.  A row with a key of a table that was announced without one
has no defined outcome: the key is read into a value that is not there.  So whatever bytes arrive, the code comes
to its end with every object given back exactly once, exactly if neither happens (`given_back_once_iff`).  Neither
happens with frames of the output plugin (`stream_given_back`).
-/
import BottledWater.Client.Objects
import BottledWater.Lib.Ledger
import BottledWater.Lib.Trace
import BottledWater.Protocol.Decoding

namespace BottledWater.Client.Objects

open BottledWater.Lib BottledWater.Lib.Avro BottledWater.Protocol

section

variable {κ α β : Type} {on : Callback → κ → Int × κ} {avro : Libavro} {walPos : UInt64} {reader : FrameReader}
  {relid : Int64} {rowSchema : Schema} {account : Account}

/-! ## §1 — The account of objects -/

theorem trades_ensureCapacity : Trades reader.own (ensureCapacity reader) FrameReader.own := by
  unfold ensureCapacity
  split
  · -- one array is exchanged for another, and the other objects stay
    refine Trades.pre ?_ (List.Perm.swap reader.array reader.block _)
    refine (Trades.release [reader.array] _).bind fun _ => (Trades.issue _).bind fun array => Trades.pure ?_
    exact List.Perm.swap ..
  · exact Trades.pure (.refl _)

theorem trades_schemaListEntryNew :
    Trades reader.own (schemaListEntryNew reader) (fun r => r.1.own ++ [r.2.2.block]) := by
  refine trades_ensureCapacity.bind fun reader' => (Trades.issue reader'.own).bind fun block => ?_
  exact Trades.pure (List.perm_append_singleton block reader'.own).symm

/-- What the entry of a table has, if there is one. -/
def heldFor (reader : FrameReader) (relid : Int64) : List Ref :=
  (Keyed.find Entry.relid relid reader.entries).toList.flatMap Entry.held

/-- The objects of the entry are given back, and its block of memory is kept. -/
theorem trades_schemaListReplace :
    Trades (reader.own ++ heldFor reader relid) (schemaListReplace reader relid)
      (fun r => r.1.own ++ [r.2.2.block]) := by
  unfold schemaListReplace heldFor
  rw [find_eq_lookup]
  cases schemaListLookup reader relid with
  | none =>
    refine trades_schemaListEntryNew.pre ?_
    simp
  | some found =>
    obtain ⟨i, entry⟩ := found
    refine Trades.pre ((Trades.release entry.refs (reader.own ++ [entry.block])).bind fun _ =>
      Trades.pure (.refl _)) ?_
    rw [List.perm_iff_count]
    intro ref
    simp only [Option.map_some, Option.toList_some, List.flatMap_singleton, Entry.held, List.count_append,
      List.count_cons, List.count_nil]
    omega

/-- The entry has new objects for its rows. -/
theorem trades_fillEntry :
    Trades (reader.own ++ heldFor reader relid) (fillEntry reader relid rowSchema)
      (fun r => r.1.own ++ r.2.2.block :: r.2.2.row.refs) := by
  refine (Trades.issue _).bind fun rowSchemaRef => ?_
  have hreplace : Trades (rowSchemaRef :: (reader.own ++ heldFor reader relid))
      (schemaListReplace reader relid) (fun r => (r.1.own ++ [r.2.2.block]) ++ [rowSchemaRef]) :=
    (trades_schemaListReplace.frame [rowSchemaRef]).pre (List.perm_append_singleton _ _).symm
  refine hreplace.bind fun ⟨reader', i, entry⟩ => ?_
  refine (Trades.issue _).bind fun rowIface => ?_
  refine (Trades.issue _).bind fun rowValue => ?_
  refine (Trades.issue _).bind fun oldValue => ?_
  refine (Trades.issue _).bind fun avroReader => Trades.pure ?_
  rw [List.perm_iff_count]
  intro ref
  simp only [FrameReader.own, FrameReader.store, RowObjects.refs, List.count_append, List.count_cons,
    List.count_nil]
  omega

theorem trades_setKey (entry : Entry) (keySchema : Option Schema) (held : List Ref) :
    Trades held (setKey entry keySchema) (fun entry => entry.keyRefs ++ held) := by
  cases keySchema with
  | none => exact Trades.pure (.refl _)
  | some schema =>
    refine (Trades.issue held).bind fun keySchemaRef => ?_
    refine (Trades.issue (keySchemaRef :: held)).bind fun keyIface => ?_
    exact (Trades.issue (keyIface :: keySchemaRef :: held)).bind fun keyValue => Trades.pure (.refl _)

theorem row_setKey (entry : Entry) (keySchema : Option Schema) (account : Account) :
    ((setKey entry keySchema).run account).1.block = entry.block ∧
      ((setKey entry keySchema).run account).1.row = entry.row := by
  cases keySchema with
  | none => exact ⟨rfl, rfl⟩
  | some schema => exact ⟨rfl, rfl⟩

/-- The objects of the other entries, while one is worked on. -/
theorem exists_rest (reader : FrameReader) (relid : Int64) :
    ∃ rest, reader.held.Perm (reader.own ++ heldFor reader relid ++ rest) ∧
      ∀ (reader' : FrameReader) (entry : Entry),
        reader'.entries = Keyed.put Entry.relid relid entry reader.entries →
          reader'.held.Perm (reader'.own ++ entry.held ++ rest) := by
  obtain ⟨rest, hfind, hput⟩ := Keyed.exists_perm_put Entry.relid relid reader.entries
  refine ⟨rest.flatMap Entry.held, ?_, ?_⟩
  · have hperm := (hfind.flatMap_right Entry.held).append_left reader.own
    rwa [List.flatMap_append, ← List.append_assoc] at hperm
  · intro reader' entry hentries
    have hperm := ((hput entry).flatMap_right Entry.held).append_left reader'.own
    rwa [List.flatMap_cons, ← List.append_assoc, ← hentries] at hperm

/-- What was made and not given back is what the reader refers to. -/
def Session.Owned (s : Session κ) : Prop := s.account.Owns s.reader.held

/-- While the entry is filled, the objects of its key do not count. -/
theorem owns_filled {s : Session κ} (h : s.Owned) (relid : Int64) (rowSchema : Schema) :
    ∃ rest, (s.filled relid rowSchema).account.Owns ((s.filled relid rowSchema).reader.own ++
        ((s.filledEntry relid rowSchema).block :: (s.filledEntry relid rowSchema).row.refs) ++ rest) ∧
      ∀ (reader' : FrameReader) (entry : Entry),
        reader'.entries = Keyed.put Entry.relid relid entry s.reader.entries →
          reader'.held.Perm (reader'.own ++ entry.held ++ rest) := by
  obtain ⟨rest, hheld, hput⟩ := exists_rest s.reader relid
  exact ⟨rest, trades_fillEntry s.account rest (h.congr hheld), hput⟩

theorem perm_held (own rest : List Ref) (entry : Entry) :
    (entry.keyRefs ++ (own ++ (entry.block :: entry.row.refs)) ++ rest).Perm (own ++ entry.held ++ rest) := by
  rw [List.perm_iff_count]
  intro ref
  simp only [Entry.held, Entry.refs, List.count_append, List.count_cons]
  omega

/-- **The account stays balanced if the key schema is parsed.** -/
theorem owned_keyed {s : Session κ} (h : s.Owned) (keySchema : Option Schema) :
    (s.keyed relid rowSchema keySchema).Owned := by
  obtain ⟨rest, hfilled, hput⟩ := owns_filled h relid rowSchema
  obtain ⟨hblock, hrow⟩ :=
    row_setKey (s.filledEntry relid rowSchema) keySchema (s.filled relid rowSchema).account
  rw [← hblock, ← hrow] at hfilled
  have hkeyed := trades_setKey (s.filledEntry relid rowSchema) keySchema _ _ rest hfilled
  exact hkeyed.congr ((perm_held _ _ _).trans (hput _ _ (store_fillEntry _)).symm)

/-- It also does if there is no key schema from before. -/
theorem owned_filled {s : Session κ} (h : s.Owned)
    (hkey : ∀ i entry, schemaListLookup s.reader relid = some (i, entry) → entry.schemas.keySchema = none) :
    (s.filled relid rowSchema).Owned := by
  obtain ⟨rest, hfilled, hput⟩ := owns_filled h relid rowSchema
  refine hfilled.congr (List.Perm.trans ?_ (hput _ _ entries_fillEntry).symm)
  have hnone : (s.filledEntry relid rowSchema).keyRefs = [] := by
    rw [Entry.keyRefs, Session.filledEntry, schemas_fillEntry]
    cases hlookup : schemaListLookup s.reader relid with
    | none => rfl
    | some found =>
      have hfound := hkey found.1 found.2 hlookup
      simp [hfound]
  show (_ ++ _ :: _ ++ rest).Perm (_ ++ (s.filledEntry relid rowSchema).held ++ rest)
  rw [Entry.held, Entry.refs, hnone, List.append_nil]
  rfl

/-- What `process_frame_table_schema` has read before it replaces the entry. -/
structure TableSchemaFields where
  relid : Int64
  keySchemaVal : Value
  keySchemaPresent : Nat
  rowSchemaJson : Bytes
  rowSchema : Schema

/-- A table schema message that can be read so far. -/
def readTableSchema (avro : Libavro) (unionVal : Value) : Option TableSchemaFields := do
  let msgType ← unionVal.getDiscriminant
  let record ← unionVal.getCurrentBranch
  if msgType = protocolMsgTableSchema then
    let relidVal ← record.getByIndex 0
    let keySchemaVal ← record.getByIndex 1
    let rowSchemaVal ← record.getByIndex 2
    let relid ← relidVal.getLong
    let keySchemaPresent ← keySchemaVal.getDiscriminant
    let rowSchemaJson ← rowSchemaVal.getString
    let rowSchema ← avro.schemaFromJson rowSchemaJson.dropLast
    some ⟨relid, keySchemaVal, keySchemaPresent, rowSchemaJson, rowSchema⟩
  else none

/-- The objects stay as they are. -/
def KeepsObjects (x : ObjectsM κ α) : Prop :=
  ∀ reader account, Triple (fun s : Session κ => s.reader = reader ∧ s.account = account) x
    (fun _ s => s.reader = reader ∧ s.account = account) (fun _ s => s.reader = reader ∧ s.account = account)

theorem keepsObjects_onSession (x : ProtocolM κ α) : KeepsObjects (onSession x) := by
  intro reader account s hs
  unfold onSession
  cases x s.view with
  | ok a t => exact hs
  | error e t => exact hs

theorem keepsObjects_check_bind {o : Option α} {f : α → ObjectsM κ β}
    (h : ∀ a, o = some a → KeepsObjects (f a)) : KeepsObjects (onSession (check o) >>= f) := by
  cases o with
  | none => exact fun _ _ _ hs => hs
  | some a => exact h a rfl

theorem onSession_check_some (a : α) (f : α → ObjectsM κ β) : (onSession (check (some a)) >>= f) = f a := rfl

variable {unionVal : Value}

/-- A table schema message that is read so far goes on to its entry. -/
theorem processMessage_of_read {fields : TableSchemaFields} (h : readTableSchema avro unionVal = some fields) :
    processMessage on avro walPos unionVal = completeEntry on avro walPos fields.relid fields.keySchemaVal
      fields.keySchemaPresent fields.rowSchemaJson fields.rowSchema := by
  simp only [readTableSchema, Option.bind_eq_bind, Option.bind_eq_some_iff, Option.ite_none_right_eq_some,
    Option.some.injEq] at h
  obtain ⟨_, hmsgType, record, hrecord, rfl, relidVal, hrelidVal, keySchemaVal, hkeySchemaVal, rowSchemaVal,
    hrowSchemaVal, relid, hrelid, keySchemaPresent, hpresent, rowSchemaJson, hjson, rowSchema, hrowSchema,
    rfl⟩ := h
  simp only [processMessage, hmsgType, hrecord, onSession_check_some, processFrameTableSchema, hrelidVal,
    hkeySchemaVal, hrowSchemaVal, hrelid, hpresent, hjson, parseSchema, hrowSchema]

/-- Other messages, and those that are not read so far, change nothing. -/
theorem keepsObjects_of_not_read (h : readTableSchema avro unionVal = none) :
    KeepsObjects (processMessage on avro walPos unionVal) := by
  refine keepsObjects_check_bind fun msgType hmsgType => keepsObjects_check_bind fun record hrecord => ?_
  match msgType with
  | protocolMsgTableSchema =>
    refine keepsObjects_check_bind fun relidVal hrelidVal => ?_
    refine keepsObjects_check_bind fun keySchemaVal hkeySchemaVal => ?_
    refine keepsObjects_check_bind fun rowSchemaVal hrowSchemaVal => ?_
    refine keepsObjects_check_bind fun relid hrelid => ?_
    refine keepsObjects_check_bind fun keySchemaPresent hpresent => ?_
    refine keepsObjects_check_bind fun rowSchemaJson hjson => ?_
    refine keepsObjects_check_bind fun rowSchema hrowSchema => ?_
    simp [readTableSchema, hmsgType, hrecord, hrelidVal, hkeySchemaVal, hrowSchemaVal, hrelid, hpresent, hjson,
      hrowSchema] at h
  | protocolMsgBeginTxn => exact keepsObjects_onSession _
  | protocolMsgCommitTxn => exact keepsObjects_onSession _
  | protocolMsgInsert => exact keepsObjects_onSession _
  | protocolMsgUpdate => exact keepsObjects_onSession _
  | protocolMsgDelete => exact keepsObjects_onSession _
  | _ + 6 => exact fun _ _ _ hs => hs

/-- **`StrandsKey avro reader unionVal`** — the message announces a table whose entry has a key schema, and
its own key schema cannot be parsed. -/
def StrandsKey (avro : Libavro) (reader : FrameReader) (unionVal : Value) : Prop :=
  ∃ fields i entry, readTableSchema avro unionVal = some fields ∧
    keySchemaOf avro fields.keySchemaVal fields.keySchemaPresent = none ∧
    schemaListLookup reader fields.relid = some (i, entry) ∧ entry.schemas.keySchema.isSome

theorem Session.Owned.of_keeps {s : Session κ} (h : s.Owned) {x : ObjectsM κ α} (hx : KeepsObjects x) :
    (endState x s).Owned := by
  obtain ⟨hreader, haccount⟩ := (hx s.reader s.account).of_endState ⟨rfl, rfl⟩
  rw [Session.Owned, hreader, haccount]
  exact h

/-- **A message keeps the account balanced**, whether it is processed or fails. -/
theorem owned_processMessage {s : Session κ} (h : s.Owned) (hkey : ¬ StrandsKey avro s.reader unionVal) :
    (endState (processMessage on avro walPos unionVal) s).Owned := by
  cases hread : readTableSchema avro unionVal with
  | none => exact h.of_keeps (keepsObjects_of_not_read hread)
  | some fields =>
    rw [processMessage_of_read hread, endState, completeEntry_eq]
    cases hparse : keySchemaOf avro fields.keySchemaVal fields.keySchemaPresent with
    | none =>
      refine owned_filled h fun i entry hlookup => ?_
      by_contra hsome
      exact hkey ⟨fields, i, entry, hread, hparse, hlookup, Option.isSome_iff_ne_none.mpr hsome⟩
    | some keySchema => exact (owned_keyed h _).of_keeps (keepsObjects_onSession _)

/-- The bytes that `readNullable` reads, if any. -/
def nullableBytes (val : Value) (present : Nat) : Option Bytes :=
  if present ≠ 0 then val.getCurrentBranch.bind Value.getBytes else none

/-- The table and the key of a row message with a key, if all that `process_frame_insert` and its like check
before they look for the entry is in order. -/
def readRowKey (msgType : Nat) (record : Value) : Option (Int64 × Bytes) := do
  let relidVal ← record.getByIndex 0
  let keyVal ← record.getByIndex 1
  let relid ← relidVal.getLong
  let keyPresent ← keyVal.getDiscriminant
  let key ← nullableBytes keyVal keyPresent
  match msgType with
  | protocolMsgInsert =>
    let newVal ← record.getByIndex 2
    let _ ← newVal.getBytes
    some (relid, key)
  | protocolMsgUpdate =>
    let oldVal ← record.getByIndex 2
    let newVal ← record.getByIndex 3
    let _ ← oldVal.getDiscriminant
    let _ ← newVal.getBytes
    some (relid, key)
  | protocolMsgDelete =>
    let oldVal ← record.getByIndex 2
    let _ ← oldVal.getDiscriminant
    some (relid, key)
  | _ => none

/-- The row has a key, and the entry of its table has no key schema. -/
def RowMissesKey (reader : Client.FrameReader) (msgType : Nat) (record : Value) : Prop :=
  ∃ relid key entry, readRowKey msgType record = some (relid, key) ∧
    Client.schemaListLookup reader relid = some entry ∧ entry.keySchema = none

/-- **`MissesKey reader unionVal`** — the message is about a row with a key, of a table that was announced
without one. -/
def MissesKey (reader : Client.FrameReader) (unionVal : Value) : Prop :=
  ∃ msgType record, unionVal.getDiscriminant = some msgType ∧ unionVal.getCurrentBranch = some record ∧
    RowMissesKey reader msgType record

section

variable {s t : Client.Session κ} {entry : SchemaListEntry} {val : Value} {present : Nat} {record : Value}

theorem check_undefined {o : Option α} : (check o : ProtocolM κ α) s = .error .undefined t ↔ False := by
  cases o with
  | none => simp [check, throw_eq_error]
  | some a => simp [check, pure_eq_error]

theorem readEntirely_undefined {read : Reader Value} {buf : Bytes} :
    (readEntirely read buf : ProtocolM κ Value) s = .error .undefined t ↔ False := by
  unfold readEntirely
  rcases read buf with _ | ⟨w, _ | ⟨b, rest⟩⟩
  · simp [throw_eq_error]
  · simp [pure_eq_error]
  · simp [throw_eq_error]

theorem discard_undefined {x : ProtocolM κ α} :
    discard x s = .error .undefined t ↔ x s = .error .undefined t := by
  show (x >>= fun _ => pure ()) s = _ ↔ _
  simp only [bind_eq_error, pure_eq_error, and_false, exists_false, or_false]

theorem invoke_undefined {call : Callback} : invoke on call s = .error .undefined t ↔ False := by
  show (if (on call s.context).1 ≠ 0 then throw (.callback (on call s.context).1) else pure () :
    ProtocolM κ Unit) ⟨s.reader, (on call s.context).2⟩ = .error .undefined t ↔ _
  split <;> simp [throw_eq_error, pure_eq_error]

theorem lookupOrFail_undefined {event : String} :
    lookupOrFail event relid s = .error .undefined t ↔ False := by
  have hget : (get : ProtocolM κ (Client.Session κ)) s = .ok s s := rfl
  rw [lookupOrFail, bind_of_ok hget]
  cases Client.schemaListLookup s.reader relid with
  | none => simp [throw_eq_error]
  | some entry => simp [pure_eq_error]

theorem readKey_undefined {bin : Bytes} :
    entry.readKey avro bin s = .error .undefined t ↔ entry.keySchema = none ∧ s = t := by
  unfold SchemaListEntry.readKey
  cases entry.keySchema with
  | none => simp [throw_eq_error]
  | some schema => simp [discard_undefined, readEntirely_undefined]

theorem readRow_undefined {bin : Bytes} : entry.readRow avro bin s = .error .undefined t ↔ False := by
  rw [SchemaListEntry.readRow, discard_undefined, readEntirely_undefined]

theorem readNullableKey_undefined :
    readNullable (entry.readKey avro) val present s = .error .undefined t ↔
      (∃ bin, nullableBytes val present = some bin) ∧ entry.keySchema = none ∧ s = t := by
  unfold readNullable nullableBytes
  split
  · simp only [bind_eq_error, check_undefined, check_eq_ok, readKey_undefined, pure_eq_error,
      Option.bind_eq_some_iff]
    grind
  · simp [pure_eq_error]

theorem readNullableRow_undefined :
    readNullable (entry.readRow avro) val present s = .error .undefined t ↔ False := by
  unfold readNullable
  split
  · simp only [bind_eq_error, check_undefined, readRow_undefined, pure_eq_error, and_false, exists_false,
      or_false]
  · simp [pure_eq_error]

theorem check_bind_undefined {o : Option α} {f : α → ProtocolM κ β} :
    (check o >>= f) s = .error .undefined t ↔ ∃ a, o = some a ∧ f a s = .error .undefined t := by
  simp [bind_eq_error, check_undefined, check_eq_ok]

theorem lookupOrFail_bind_undefined {event : String} {f : SchemaListEntry → ProtocolM κ β} :
    (lookupOrFail event relid >>= f) s = .error .undefined t ↔
      ∃ entry, Client.schemaListLookup s.reader relid = some entry ∧ f entry s = .error .undefined t := by
  simp [bind_eq_error, lookupOrFail_undefined, lookupOrFail_eq_ok]

theorem processFrameInsert_undefined :
    processFrameInsert on avro walPos record s = .error .undefined t ↔
      RowMissesKey s.reader protocolMsgInsert record ∧ s = t := by
  simp only [processFrameInsert, check_bind_undefined, lookupOrFail_bind_undefined]
  simp only [bind_eq_error, readNullableKey_undefined, readRow_undefined, invoke_undefined, or_false, and_false,
    exists_false, RowMissesKey, readRowKey, Option.bind_eq_bind, Option.bind_eq_some_iff, Option.some.injEq,
    Prod.mk.injEq]
  constructor
  · rintro ⟨relidVal, hrelidVal, keyVal, hkeyVal, newVal, hnewVal, relid, hrelid, present, hpresent, new, hnew,
      entry, hentry, ⟨key, hkey⟩, hnone, rfl⟩
    exact ⟨⟨relid, key, entry, ⟨relidVal, hrelidVal, keyVal, hkeyVal, relid, hrelid, present, hpresent, key, hkey,
      newVal, hnewVal, new, hnew, rfl, rfl⟩, hentry, hnone⟩, rfl⟩
  · rintro ⟨⟨_, _, entry, ⟨relidVal, hrelidVal, keyVal, hkeyVal, relid, hrelid, present, hpresent, key, hkey,
      newVal, hnewVal, new, hnew, rfl, rfl⟩, hentry, hnone⟩, rfl⟩
    exact ⟨relidVal, hrelidVal, keyVal, hkeyVal, newVal, hnewVal, relid, hrelid, present, hpresent, new, hnew,
      entry, hentry, ⟨key, hkey⟩, hnone, rfl⟩

theorem processFrameUpdate_undefined :
    processFrameUpdate on avro walPos record s = .error .undefined t ↔
      RowMissesKey s.reader protocolMsgUpdate record ∧ s = t := by
  simp only [processFrameUpdate, check_bind_undefined, lookupOrFail_bind_undefined]
  simp only [bind_eq_error, readNullableKey_undefined, readNullableRow_undefined, readRow_undefined,
    invoke_undefined, or_false, and_false, exists_false, RowMissesKey, readRowKey, Option.bind_eq_bind,
    Option.bind_eq_some_iff, Option.some.injEq, Prod.mk.injEq]
  constructor
  · rintro ⟨relidVal, hrelidVal, keyVal, hkeyVal, oldVal, holdVal, newVal, hnewVal, relid, hrelid, present,
      hpresent, old, hold, new, hnew, entry, hentry, ⟨key, hkey⟩, hnone, rfl⟩
    exact ⟨⟨relid, key, entry, ⟨relidVal, hrelidVal, keyVal, hkeyVal, relid, hrelid, present, hpresent, key, hkey,
      oldVal, holdVal, newVal, hnewVal, old, hold, new, hnew, rfl, rfl⟩, hentry, hnone⟩, rfl⟩
  · rintro ⟨⟨_, _, entry, ⟨relidVal, hrelidVal, keyVal, hkeyVal, relid, hrelid, present, hpresent, key, hkey,
      oldVal, holdVal, newVal, hnewVal, old, hold, new, hnew, rfl, rfl⟩, hentry, hnone⟩, rfl⟩
    exact ⟨relidVal, hrelidVal, keyVal, hkeyVal, oldVal, holdVal, newVal, hnewVal, relid, hrelid, present,
      hpresent, old, hold, new, hnew, entry, hentry, ⟨key, hkey⟩, hnone, rfl⟩

theorem processFrameDelete_undefined :
    processFrameDelete on avro walPos record s = .error .undefined t ↔
      RowMissesKey s.reader protocolMsgDelete record ∧ s = t := by
  simp only [processFrameDelete, check_bind_undefined, lookupOrFail_bind_undefined]
  simp only [bind_eq_error, readNullableKey_undefined, readNullableRow_undefined, invoke_undefined, or_false,
    and_false, exists_false, RowMissesKey, readRowKey, Option.bind_eq_bind, Option.bind_eq_some_iff,
    Option.some.injEq, Prod.mk.injEq]
  constructor
  · rintro ⟨relidVal, hrelidVal, keyVal, hkeyVal, oldVal, holdVal, relid, hrelid, present, hpresent, old, hold,
      entry, hentry, ⟨key, hkey⟩, hnone, rfl⟩
    exact ⟨⟨relid, key, entry, ⟨relidVal, hrelidVal, keyVal, hkeyVal, relid, hrelid, present, hpresent, key, hkey,
      oldVal, holdVal, old, hold, rfl, rfl⟩, hentry, hnone⟩, rfl⟩
  · rintro ⟨⟨_, _, entry, ⟨relidVal, hrelidVal, keyVal, hkeyVal, relid, hrelid, present, hpresent, key, hkey,
      oldVal, holdVal, old, hold, rfl, rfl⟩, hentry, hnone⟩, rfl⟩
    exact ⟨relidVal, hrelidVal, keyVal, hkeyVal, oldVal, holdVal, relid, hrelid, present, hpresent, old, hold,
      entry, hentry, ⟨key, hkey⟩, hnone, rfl⟩

end

theorem onSession_undefined {x : ProtocolM κ α} {s : Session κ} :
    (∃ t, onSession x s = .error .undefined t) ↔ ∃ t, x s.view = .error .undefined t := by
  unfold onSession
  cases x s.view with
  | ok a t => simp
  | error e t => simp

theorem onSession_check_bind_undefined {o : Option α} {f : α → ObjectsM κ β} {s : Session κ} :
    (∃ t, (onSession (check o) >>= f) s = .error .undefined t) ↔
      ∃ a, o = some a ∧ ∃ t, f a s = .error .undefined t := by
  cases o with
  | none =>
    show (∃ t, EStateM.Result.error ProtocolError.avro s = .error .undefined t) ↔ _
    simp
  | some a => simp [onSession_check_some]

theorem completeEntry_defined {keySchemaVal : Value} {keySchemaPresent : Nat} {rowSchemaJson : Bytes}
    {s t : Session κ} :
    completeEntry on avro walPos relid keySchemaVal keySchemaPresent rowSchemaJson rowSchema s ≠
      .error .undefined t := by
  rw [completeEntry_eq]
  cases keySchemaOf avro keySchemaVal keySchemaPresent with
  | none => simp
  | some keySchema =>
    intro h
    obtain ⟨_, hinvoke⟩ := onSession_undefined.mp ⟨t, h⟩
    exact invoke_undefined.mp hinvoke

/-- **What the code does with a message is undefined exactly if the message misses a key.** -/
theorem processMessage_undefined_iff {s : Session κ} :
    (∃ t, processMessage on avro walPos unionVal s = .error .undefined t) ↔ MissesKey s.view.reader unionVal := by
  simp only [processMessage, onSession_check_bind_undefined, MissesKey, exists_and_left]
  refine exists_congr fun msgType => and_congr_right fun _ => exists_congr fun record => and_congr_right fun _ => ?_
  match msgType with
  | protocolMsgBeginTxn =>
    refine onSession_undefined.trans ?_
    simp [processFrameBeginTxn, check_bind_undefined, invoke_undefined, RowMissesKey, readRowKey]
  | protocolMsgCommitTxn =>
    refine onSession_undefined.trans ?_
    simp [processFrameCommitTxn, check_bind_undefined, invoke_undefined, RowMissesKey, readRowKey]
  | protocolMsgTableSchema =>
    show (∃ t, processFrameTableSchema on avro walPos record s = .error .undefined t) ↔ _
    simp [processFrameTableSchema, onSession_check_bind_undefined, parseSchema, completeEntry_defined, RowMissesKey,
      readRowKey]
  | protocolMsgInsert =>
    refine onSession_undefined.trans ?_
    simp [processFrameInsert_undefined]
  | protocolMsgUpdate =>
    refine onSession_undefined.trans ?_
    simp [processFrameUpdate_undefined]
  | protocolMsgDelete =>
    refine onSession_undefined.trans ?_
    simp [processFrameDelete_undefined]
  | n + 6 =>
    show (∃ t, EStateM.Result.error (ProtocolError.unknownMessageType (n + 6)) s = .error .undefined t) ↔ _
    simp [RowMissesKey, readRowKey]

/-- **`Clean avro s e`** — the message strands no key and misses none. -/
def Clean (avro : Libavro) (s : Session κ) (e : UInt64 × Value) : Prop :=
  ¬ StrandsKey avro s.reader e.2 ∧ ¬ MissesKey s.view.reader e.2

/-! ## §3 — All frames -/

/-- The messages of a frame, if it can be read. -/
def frameMessages (buf : Bytes) : Option (List Value) :=
  match decode (fun _ => failure) schemaForFrame buf with
  | some (frame, []) => (frame.getByIndex 0).bind Value.getItems
  | _ => none

/-- The messages of frames up to the first that cannot be read, each with the position of its frame. -/
def messagesOf : List (UInt64 × Bytes) → List (UInt64 × Value)
  | [] => []
  | (walPos, buf) :: frames =>
    match frameMessages buf with
    | some msgs => msgs.map (walPos, ·) ++ messagesOf frames
    | none => []

/-- Messages one after another, up to the first that fails. -/
def processAll (on : Callback → κ → Int × κ) (avro : Libavro) : List (UInt64 × Value) → ObjectsM κ Unit
  | [] => pure ()
  | (walPos, unionVal) :: msgs => do
    processMessage on avro walPos unionVal
    processAll on avro msgs

theorem parseFrame_of_messages {buf : Bytes} {msgs : List Value} (h : frameMessages buf = some msgs) :
    parseFrame on avro walPos buf = processMessages on avro walPos msgs := by
  unfold frameMessages at h
  split at h
  · case h_1 frame hdecode =>
    obtain ⟨msgVal, hmsgVal, hitems⟩ := Option.bind_eq_some_iff.mp h
    rw [parseFrame, readEntirely, hdecode]
    show processFrame on avro walPos frame = _
    rw [processFrame, hmsgVal, onSession_check_some, hitems, onSession_check_some]
  · cases h

theorem parseFrame_of_none {buf : Bytes} (h : frameMessages buf = none) (s : Session κ) :
    ∃ e, e ≠ .undefined ∧ parseFrame on avro walPos buf s = .error e s := by
  rw [parseFrame, readEntirely]
  unfold frameMessages at h
  cases hdecode : decode (fun _ => failure) schemaForFrame buf with
  | none => exact ⟨.avro, by simp, rfl⟩
  | some result =>
    obtain ⟨frame, left⟩ := result
    rw [hdecode] at h
    cases left with
    | cons byte left => exact ⟨.trailingBytes, by simp, rfl⟩
    | nil =>
      show ∃ e, e ≠ .undefined ∧ processFrame on avro walPos frame s = .error e s
      rw [processFrame]
      cases hmsgVal : frame.getByIndex 0 with
      | none => exact ⟨.avro, by simp, rfl⟩
      | some msgVal =>
        have hitems : msgVal.getItems = none := by simpa [hmsgVal] using h
        rw [onSession_check_some, hitems]
        exact ⟨.avro, by simp, rfl⟩

theorem processAll_append (msgs : List Value) (rest : List (UInt64 × Value)) :
    processAll on avro (msgs.map (walPos, ·) ++ rest) =
      processMessages on avro walPos msgs >>= fun _ => processAll on avro rest := by
  induction msgs with
  | nil => rfl
  | cons unionVal msgs ih =>
    rw [List.map_cons, List.cons_append, processAll, processMessages, ih, bind_assoc]

theorem ended_of_error {x : ObjectsM κ α} {s t : Session κ} {e : ProtocolError} (h : x s = .error e t)
    (hdefined : e ≠ .undefined) : ended x s = some t := by
  rw [ended, h]
  cases e with
  | undefined => exact absurd rfl hdefined
  | _ => rfl

theorem ended_bind_of_ok {x : ObjectsM κ α} {f : α → ObjectsM κ β} {s t : Session κ} {a : α} (h : x s = .ok a t) :
    ended (x >>= f) s = ended (f a) t := by
  rw [ended, bind_of_ok h, ended]

theorem ended_bind_of_error {x : ObjectsM κ α} {f : α → ObjectsM κ β} {s t : Session κ} {e : ProtocolError}
    (h : x s = .error e t) : ended (x >>= f) s = ended x s := by
  rw [ended, bind_of_error h, ended, h]
  cases e with
  | _ => rfl

/-- Where one frame ends and the next begins does not count. -/
theorem ended_parseFrames (frames : List (UInt64 × Bytes)) (s : Session κ) :
    ended (parseFrames on avro frames) s = ended (processAll on avro (messagesOf frames)) s := by
  induction frames generalizing s with
  | nil => rfl
  | cons frame frames ih =>
    obtain ⟨walPos, buf⟩ := frame
    rw [parseFrames, messagesOf]
    cases hmsgs : frameMessages buf with
    | none =>
      obtain ⟨e, hdefined, hfails⟩ := parseFrame_of_none hmsgs s
      rw [ended_bind_of_error hfails, ended_of_error hfails hdefined]
      rfl
    | some msgs =>
      rw [parseFrame_of_messages hmsgs, processAll_append]
      cases hprocess : processMessages on avro walPos msgs s with
      | ok a t =>
        rw [ended_bind_of_ok hprocess, ended_bind_of_ok hprocess]
        exact ih t
      | error e t => rw [ended_bind_of_error hprocess, ended_bind_of_error hprocess]

/-- A message that is processed. -/
def take (on : Callback → κ → Int × κ) (avro : Libavro) (s : Session κ) (e : UInt64 × Value) :
    Option (Session κ) :=
  match processMessage on avro e.1 e.2 s with
  | .ok _ t => some t
  | .error _ _ => none

theorem take_eq_some {s t : Session κ} {e : UInt64 × Value} :
    take on avro s e = some t ↔ processMessage on avro e.1 e.2 s = .ok () t := by
  unfold take
  cases processMessage on avro e.1 e.2 s with
  | ok a u => simp
  | error err u => simp

theorem trades_frameReaderNew : Trades [] frameReaderNew FrameReader.held := by
  refine (Trades.issue _).bind fun block => (Trades.issue _).bind fun array => ?_
  refine (Trades.issue _).bind fun frameSchema => (Trades.issue _).bind fun frameIface => ?_
  refine (Trades.issue _).bind fun frameValue => (Trades.issue _).bind fun avroReader => Trades.pure ?_
  exact List.reverse_perm [block, array, frameSchema, frameIface, frameValue, avroReader]

theorem owned_start (context : κ) : (start context).Owned := by
  have hnew := trades_frameReaderNew ⟨0, []⟩ [] Balanced.nil
  rwa [List.append_nil] at hnew

/-- **Clean messages come to an end with a balanced account**, whether all are processed or one fails. -/
theorem ended_of_clean {s : Session κ} {msgs : List (UInt64 × Value)} (h : s.Owned)
    (hclean : Along (take on avro) (Clean avro) s msgs) :
    ∃ t, ended (processAll on avro msgs) s = some t ∧ t.Owned := by
  induction msgs generalizing s with
  | nil => exact ⟨s, rfl, h⟩
  | cons e msgs ih =>
    obtain ⟨⟨hstrands, hmisses⟩, hrest⟩ := hclean
    have hfirst : (endState (processMessage on avro e.1 e.2) s).Owned := owned_processMessage h hstrands
    rw [processAll]
    cases hprocess : processMessage on avro e.1 e.2 s with
    | ok a t =>
      rw [endState_of_ok hprocess] at hfirst
      rw [ended_bind_of_ok hprocess]
      exact ih hfirst (hrest t (take_eq_some.mpr hprocess))
    | error err t =>
      rw [endState_of_error hprocess] at hfirst
      rw [ended_bind_of_error hprocess]
      refine ⟨t, ended_of_error hprocess ?_, hfirst⟩
      rintro rfl
      exact hmisses (processMessage_undefined_iff.mp ⟨t, hprocess⟩)

theorem freeEntries_run (entries : List Entry) (c : Account) :
    ((freeEntries entries).run c).2 =
      { c with released := c.released ++ entries.flatMap fun entry => entry.refs ++ [entry.block] } := by
  induction entries generalizing c with
  | nil =>
    rw [List.flatMap_nil, List.append_nil]
    rfl
  | cons entry entries ih =>
    rw [List.flatMap_cons, ← List.append_assoc, ← List.append_assoc]
    exact ih { c with released := c.released ++ entry.refs ++ [entry.block] }

/-- **`frame_reader_free` gives back all that the reader refers to.** -/
theorem frameReaderFree_run (reader : FrameReader) (c : Account) :
    ((frameReaderFree reader).run c).2.issued = c.issued ∧
      ((frameReaderFree reader).run c).2.released.Perm (c.released ++ reader.held) := by
  have hentries : (reader.entries.flatMap fun entry => entry.refs ++ [entry.block]).Perm
      (reader.entries.flatMap Entry.held) :=
    List.Perm.flatMap_left reader.entries fun entry _ => List.perm_append_singleton entry.block entry.refs
  have hfree := freeEntries_run reader.entries
    { c with
      released := c.released ++ [reader.avroReader] ++ [reader.frameValue] ++ [reader.frameIface] ++
        [reader.frameSchema] }
  have hrun : ((frameReaderFree reader).run c).2 =
      { c with
        released := c.released ++ [reader.avroReader] ++ [reader.frameValue] ++ [reader.frameIface] ++
          [reader.frameSchema] ++ (reader.entries.flatMap fun entry => entry.refs ++ [entry.block]) ++
          [reader.array] ++ [reader.block] } :=
    congrArg (fun account : Account =>
      { account with released := account.released ++ [reader.array] ++ [reader.block] }) hfree
  rw [hrun]
  refine ⟨rfl, ?_⟩
  rw [List.perm_iff_count]
  intro ref
  have hcount := hentries.count_eq ref
  simp only [FrameReader.held, FrameReader.own, List.count_append, List.count_cons, List.count_nil] at hcount ⊢
  omega

/-- At the end there has been given back what was before `frame_reader_free`, and all that the reader refers
to. -/
theorem accountAtEnd_eq_some {context : κ} {frames : List (UInt64 × Bytes)} {account : Account} :
    accountAtEnd on avro context frames = some account ↔
      ∃ s, ended (processAll on avro (messagesOf frames)) (start context) = some s ∧
        ((frameReaderFree s.reader).run s.account).2 = account := by
  rw [accountAtEnd, ended_parseFrames]
  simp [Option.bind_eq_some_iff]

theorem count_frameReaderFree (reader : FrameReader) (account : Account) (ref : Ref) :
    ((frameReaderFree reader).run account).2.released.count ref =
      account.released.count ref + reader.held.count ref := by
  rw [← List.count_append]
  exact (frameReaderFree_run reader account).2.count_eq ref

/-- All that was made has been given back, each object and each block of memory once. -/
def GivenBackOnce (account : Account) : Prop := ∀ ref < account.issued, account.released.count ref = 1

theorem given_back_of_clean {context : κ} {frames : List (UInt64 × Bytes)}
    (hclean : Along (take on avro) (Clean avro) (start context) (messagesOf frames)) :
    ∃ account, accountAtEnd on avro context frames = some account ∧ GivenBackOnce account := by
  obtain ⟨s, hended, howned⟩ := ended_of_clean (owned_start context) hclean
  refine ⟨_, accountAtEnd_eq_some.mpr ⟨s, hended, rfl⟩, fun ref hlt => ?_⟩
  rw [(frameReaderFree_run s.reader s.account).1] at hlt
  rw [count_frameReaderFree, ← List.count_append]
  exact howned.count_release_all hlt

/-- A message that the client can take strands no key. -/
theorem not_strandsKey_of_acceptable {m : Message} {known : Client.FrameReader} (h : m.Acceptable avro known) :
    ¬ StrandsKey avro reader m.value := by
  rintro ⟨fields, -, -, hread, hparse, -⟩
  cases m with
  | tableSchema relid key row =>
    obtain ⟨rowSchema, hrow⟩ := Option.isSome_iff_exists.mp h.1
    obtain ⟨keySchema, hkey⟩ := Option.isSome_iff_exists.mp h.2
    cases key with
    | none =>
      have hfields : readTableSchema avro (Message.tableSchema relid none row).value =
          some ⟨longOfUInt32 relid, .union 0 .null, 0, row ++ [0], rowSchema⟩ := by
        simp [readTableSchema, Message.value, nullable, jsonString, Value.getDiscriminant, Value.getCurrentBranch,
          Value.getByIndex, Value.getLong, Value.getString, hrow]
      rw [hfields] at hread
      cases hread
      cases hparse
    | some text =>
      have hfields : readTableSchema avro (Message.tableSchema relid (some text) row).value =
          some ⟨longOfUInt32 relid, .union 1 (jsonString text), 1, row ++ [0], rowSchema⟩ := by
        simp [readTableSchema, Message.value, nullable, jsonString, Value.getDiscriminant, Value.getCurrentBranch,
          Value.getByIndex, Value.getLong, Value.getString, hrow]
      obtain ⟨schema, hschema, -⟩ := Option.map_eq_some_iff.mp hkey
      rw [hfields] at hread
      cases hread
      simp [keySchemaOf, jsonString, Value.getCurrentBranch, Value.getString, hschema] at hparse
  | _ => cases hread

/-- Nor does it miss one: with callbacks that succeed, the client takes it. -/
theorem not_missesKey_of_acceptable {m : Message} {s : Session κ} (h : m.Acceptable avro s.view.reader) :
    ¬ MissesKey s.view.reader m.value := by
  intro hmisses
  have hundefined : ∃ t, processMessage (fun _ k => (0, k)) avro 0 m.value s = .error .undefined t :=
    processMessage_undefined_iff.mpr hmisses
  obtain ⟨t, hundefined⟩ := hundefined
  obtain ⟨call, hcall⟩ := Message.exists_callback h
  have hok : Client.processMessage (fun _ k => (0, k)) avro 0 m.value s.view =
      .ok () ⟨m.readerAfter avro s.view.reader, s.view.context⟩ :=
    processMessage_ok_iff.mpr ⟨h, call, hcall, invoke_eq_ok.mpr ⟨rfl, rfl⟩⟩
  have hview := (projects_processMessage messageFits_value).of_error hundefined
  rw [hok] at hview
  cases hview

/-- The schemas of the reader after a message that is processed. -/
theorem view_of_take {s t : Session κ} {m : Message} (h : take on avro s (walPos, m.value) = some t) :
    t.view.reader = m.readerAfter avro s.view.reader := by
  have hview := (projects_processMessage messageFits_value).of_ok (take_eq_some.mp h)
  obtain ⟨-, call, -, hinvoke⟩ := processMessage_ok_iff.mp hview
  exact congrArg Client.Session.reader (invoke_eq_ok.mp hinvoke).2.symm

/-- Messages that the client can take, each after those before it, are clean. -/
theorem clean_of_acceptable {msgs : List Message} {rest : List (UInt64 × Value)} {s : Session κ}
    (h : AllAcceptable avro s.view.reader msgs)
    (hrest : ∀ t : Session κ, t.view.reader = readerAfterAll avro s.view.reader msgs →
      Along (take on avro) (Clean avro) t rest) :
    Along (take on avro) (Clean avro) s (msgs.map (fun m => (walPos, m.value)) ++ rest) := by
  induction msgs generalizing s with
  | nil => exact hrest s rfl
  | cons m msgs ih =>
    refine ⟨⟨not_strandsKey_of_acceptable h.1, not_missesKey_of_acceptable h.1⟩, fun t htake => ?_⟩
    have hview := view_of_take htake
    exact ih (hview ▸ h.2) fun u hu => hrest u (by rw [hu, hview]; rfl)

end

section

open BottledWater.Ext BottledWater.Ext.Logdecoder

variable {κ : Type} {conv : Conversions Datum} {pg : Postgres} {avro : Libavro}
  (hdesc : ∀ a b, conv.equalTupleDescs a b = true → a.live = b.live)
  (hconv : ∀ column, columnValue conv column = avroValue pg column)
  (hread : avro.valueRead = decode readPredefined)

include hdesc hconv hread

/-- Every message of the plugin is clean. -/
theorem clean_of_outputs {on : Callback → κ → Int × κ} {calls : List (UInt64 × DecodingCall Datum)} :
    ∀ {state state' : PluginState} {frames : List (UInt64 × Bytes)} {s : Session κ},
      Agrees state.schemaCache s.view.reader → (∀ c ∈ calls, Sendable conv avro c.2) →
      state.outputs conv calls = .ok (state', frames) →
      Along (take on avro) (Clean avro) s (messagesOf frames) := by
  induction calls with
  | nil =>
    intro state state' frames s _ _ h
    obtain ⟨-, rfl⟩ := Prod.mk.inj (Except.ok.inj h)
    trivial
  | cons c calls ih =>
    obtain ⟨walPos, call⟩ := c
    intro state state' frames s hagree hcalls h
    obtain ⟨hcall, hcalls⟩ := List.forall_mem_cons.mp hcalls
    obtain ⟨state₁, frame, rest, hfirst, hrest, rfl⟩ := PluginState.outputs_cons_eq_ok h
    obtain ⟨msgs, hmsgs, rfl, hsize⟩ := PluginState.output_eq_ok hfirst
    obtain ⟨hacceptable, hagree₁, -⟩ := told_of_messages hdesc hconv hread walPos hagree hcall hmsgs
    have hdecode := decode_frame hsize []
    rw [List.append_nil] at hdecode
    have hframe : frameMessages (encode (frameValue msgs)) = some (msgs.map Message.value) := by
      rw [frameMessages, hdecode]
      rfl
    rw [messagesOf, hframe]
    show Along _ _ s ((msgs.map Message.value).map (walPos, ·) ++ messagesOf rest)
    rw [List.map_map]
    exact clean_of_acceptable hacceptable fun t ht => ih (ht ▸ hagree₁) hcalls hrest

/-- **What the client makes for a stream it gives back**, each object once, wherever a callback stops it. -/
theorem stream_given_back {calls : List (UInt64 × DecodingCall Datum)} {state : PluginState}
    {frames : List (UInt64 × Bytes)} (hcalls : ∀ c ∈ calls, Sendable conv avro c.2)
    (h : outputAvroStartup.outputs conv calls = .ok (state, frames)) (on : Callback → κ → Int × κ) (context : κ) :
    ∃ account, accountAtEnd on avro context frames = some account ∧ GivenBackOnce account :=
  given_back_of_clean (clean_of_outputs hdesc hconv hread (agrees_schemaCacheNew Client.frameReaderNew) hcalls h)

end

/-! A table with a key is announced twice, the second time with a key schema that is no schema: the three objects
of its first key are given back twice.  A table is announced without a key, and a row of it comes with one. -/

def keyTwice : List (UInt64 × Bytes) :=
  [(5, encode (frameValue [.tableSchema 16384 (some [107]) [114]])),
    (6, encode (frameValue [.tableSchema 16384 (some [120]) [114]]))]

example : ∃ account ∈ accountAtEnd recordCall twoSchemas [] keyTwice,
    account.issued = 20 ∧ (List.range 20).filter (account.released.count · ≠ 1) = [12, 13, 14] := by
  decide +kernel

example : accountAtEnd recordCall twoSchemas []
    [(7, encode (frameValue [.tableSchema 16385 none [114], .insert 16385 (some [2]) [2]]))] = none := by
  decide +kernel

end BottledWater.Client.Objects
