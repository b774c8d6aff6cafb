/-
# BottledWater.Protocol.Decoding — a stream of changes, from the output plugin to the callbacks.

The callbacks of `ext/logdecoder.c` on one side, `parse_frame` on the other, and between them nothing but
the frames, in order.  `stream_delivered` says what arrives: for each call of logical decoding its own
callbacks, with the keys and rows that the columns of the tuples encode to, and ahead of the rows of a
table its schemas, unless they are those the client was last told.  Nothing that the plugin has written is
ever refused.

What is used of the Avro library is that a schema survives its text and that a value is read by the rules
it was written by.  The key index has to be on live columns: an index on the system column `oid` makes a
key that is not one of its schema.  Its names have to be taken by libavro: rows of a table whose index has
another name go without a key.
-/
import BottledWater.Ext.DistinctKeys
import BottledWater.Ext.Logdecoder
import BottledWater.Protocol.TableLog

namespace BottledWater.Protocol

open BottledWater.Lib BottledWater.Lib.Avro BottledWater.Client BottledWater.Ext BottledWater.Ext.Logdecoder

/-! ## §1 — What is encoded can be read -/

section

variable {pg : Postgres} {conv : Conversions Datum} {avro : Libavro} {namespaces : Namespaces} {rel : Table}
  {entry : SchemaCacheEntry} {row tuple : HeapTuple Datum} {tupdesc : TupleDesc}

/-- If there is a key index, its names are taken and it is on columns that the table still has. -/
structure LiveKey (rel : Table) : Prop where
  name : ∀ index, tableKeyIndex rel = some index → isAvroId index.relname
  columns : ∀ index, tableKeyIndex rel = some index → IndexColumns rel index
  live : ∀ index, tableKeyIndex rel = some index → ∀ indkey ∈ index.indkey, LiveColumn rel indkey

/-- The names of the index are taken, so its schema is the whole one. -/
theorem LiveKey.schemaForTableKey_eq {index : Index} (h : LiveKey rel) (hindex : tableKeyIndex rel = some index)
    (namespaces : Namespaces) :
    schemaForTableKey namespaces rel = .ok (some (index.schema namespaces)) := by
  have hnames : index.AvroNames := (h.columns index hindex).avroNames (h.name index hindex)
  rw [schemaForTableKey, hindex]
  exact hnames.schemaForTableRow_eq namespaces

theorem readable_of_conforms (hread : avro.valueRead = decode readPredefined) {s : Schema} {v : Value}
    (h : conforms isPredefined s v) : Readable avro s (encode v) := by
  have hreads := reads_encode reads_predefined s v h []
  rw [List.append_nil] at hreads
  refine ⟨v, ?_⟩
  rw [hread]
  exact hreads

variable (hconv : ∀ column, columnValue conv column = avroValue pg column)
  (hread : avro.valueRead = decode readPredefined)

include hconv hread

/-- The record of some columns is a value of the record schema with their types. -/
theorem readable_of_encodeColumns {name ns : String} {live : List (String × Oid)}
    {columns : List (Column Datum)} {b : Bytes} (htypes : columns.map Prod.fst = live.map Prod.snd)
    (h : encodeColumns conv columns = some b) :
    Readable avro (.record name ns (fieldsFor .none live)) b := by
  rw [encodeColumns, funext hconv] at h
  obtain ⟨vs, hvs, rfl⟩ := Option.map_eq_some_iff.mp h
  apply readable_of_conforms hread
  rw [conforms]
  exact conformsFields_fieldsFor PredefSchema.none_named htypes hvs

theorem readable_of_encodedRow (namespaces : Namespaces) {b : Bytes} (h : encodedRow conv rel row = some b) :
    Readable avro (rel.schema namespaces) b :=
  readable_of_encodeColumns hconv hread (map_fst_rowColumns rel) h

theorem readable_of_encodedKey (namespaces : Namespaces) {index : Index} {k : Bytes} (hcolumns : IndexColumns rel index)
    (h : encodedKey conv rel index row = some k) : Readable avro (index.schema namespaces) k := by
  obtain ⟨columns, hkey, hk⟩ := Option.bind_eq_some_iff.mp h
  exact readable_of_encodeColumns hconv hread (hcolumns.types_eq hkey) hk

end

/-! ## §2 — The callbacks for a change -/

section

variable {δ : Type} (conv : Conversions δ)

/-- The key of a row: none for a table without a key index. -/
def tupleKey (rel : Table) (row : HeapTuple δ) : Option (Option Bytes) :=
  match tableKeyIndex rel with
  | none => some none
  | some index => (encodedKey conv rel index row).map some

/-- The key of a row and its columns. -/
def tupleBins (rel : Table) (row : HeapTuple δ) : Option (Option Bytes × Bytes) := do
  let key ← tupleKey conv rel row
  let bin ← encodedRow conv rel row
  some (key, bin)

/-- **`changeCallbacks conv walPos rel change`** — what the client should be told about a change: the key
and the columns of the tuples, where an update that moves a row to another key is a deletion and an
insertion. -/
def changeCallbacks (walPos : UInt64) (rel : Table) : ReorderBufferChange δ → Option (List Callback)
  | .insert (some newtuple) => do
    let (key, new) ← tupleBins conv rel newtuple
    some [.insertRow walPos rel.relid key new]
  | .update none (some newtuple) => do
    let (key, new) ← tupleBins conv rel newtuple
    some [.updateRow walPos rel.relid key none new]
  | .update (some oldtuple) (some newtuple) => do
    let (oldKey, old) ← tupleBins conv rel oldtuple
    let (key, new) ← tupleBins conv rel newtuple
    if oldKey = key then some [.updateRow walPos rel.relid key (some old) new]
    else some [.deleteRow walPos rel.relid oldKey (some old), .insertRow walPos rel.relid key new]
  | .delete none => some [.deleteRow walPos rel.relid none none]
  | .delete (some oldtuple) => do
    let (oldKey, old) ← tupleBins conv rel oldtuple
    some [.deleteRow walPos rel.relid oldKey (some old)]
  | .insert none | .update _ none | .internal _ => none

/-- The schemas that a client has, table by table. -/
abbrev KnownSchemas : Type := Oid → Option SchemaListEntry

/-- What it has after some callbacks: of each table, the schemas it was told last. -/
def knownAfter (known : KnownSchemas) : List Callback → KnownSchemas
  | [] => known
  | .tableSchema _ relid _ keySchema _ rowSchema :: calls =>
    knownAfter (Function.update known relid (some ⟨relid, keySchema, rowSchema⟩)) calls
  | .beginTxn .. :: calls | .commitTxn .. :: calls | .insertRow .. :: calls | .updateRow .. :: calls
  | .deleteRow .. :: calls => knownAfter known calls

/-- What a client is told about the schemas of a table: nothing if those that the table has now are the ones
it knows, and otherwise these schemas. -/
def TellsSchemas (known : KnownSchemas) (walPos : UInt64) (namespaces : Namespaces) (rel : Table)
    (calls : List Callback) : Prop :=
  ∃ now, SchemasOf namespaces rel now ∧
    (known rel.relid = some now ∧ calls = [] ∨
      ∃ keyJson rowJson, calls = [.tableSchema walPos rel.relid keyJson now.keySchema rowJson now.rowSchema])

/-- **The callbacks for a call of logical decoding**, to a client that knows these schemas. -/
inductive Told (known : KnownSchemas) (walPos : UInt64) : DecodingCall δ → List Callback → Prop
  | beginTxn (xid : UInt32) : Told known walPos (.beginTxn xid) [.beginTxn walPos xid]
  | commitTxn (xid : UInt32) (commitLsn : UInt64) :
      Told known walPos (.commitTxn xid commitLsn) [.commitTxn walPos xid]
  | change {namespaces : Namespaces} {rel : Table} {change : ReorderBufferChange δ}
      {schemas rows : List Callback} (hschemas : TellsSchemas known walPos namespaces rel schemas)
      (hrows : changeCallbacks conv walPos rel change = some rows) :
      Told known walPos (.change namespaces rel change) (schemas ++ rows)

end

/-- **`InTurn told known as made`** — one thing after the other is told, each to a client that knows the
schemas from those before it. -/
inductive InTurn {α : Type} (told : KnownSchemas → α → List Callback → Prop) :
    KnownSchemas → List α → List (List Callback) → Prop
  | nil {known : KnownSchemas} : InTurn told known [] []
  | cons {known : KnownSchemas} {a : α} {calls : List Callback} {as : List α} {made : List (List Callback)}
      (first : told known a calls) (rest : InTurn told (knownAfter known calls) as made) :
      InTurn told known (a :: as) (calls :: made)

/-! ## §3 — The messages for a change -/

section

variable {conv : Conversions Datum} {namespaces : Namespaces} {rel : Table} {entry : SchemaCacheEntry}
  {row tuple : HeapTuple Datum} {tupdesc : TupleDesc} {msgs : List Message}

theorem tupleKey_eq_some {key : Option Bytes} (h : tupleKey conv rel row = some key) :
    (tableKeyIndex rel = none ∧ key = none) ∨ ∃ index k, tableKeyIndex rel = some index ∧
      encodedKey conv rel index row = some k ∧ key = some k := by
  unfold tupleKey at h
  cases hindex : tableKeyIndex rel with
  | none =>
    rw [hindex] at h
    exact .inl ⟨rfl, (Option.some.inj h).symm⟩
  | some index =>
    rw [hindex] at h
    obtain ⟨k, hk, rfl⟩ := Option.map_eq_some_iff.mp h
    exact .inr ⟨index, k, rfl, hk, rfl⟩

theorem tupleKey_of_tupleBins {key : Option Bytes} {bin : Bytes} (h : tupleBins conv rel row = some (key, bin)) :
    tupleKey conv rel row = some key := by
  simp only [tupleBins, Option.bind_eq_bind, Option.bind_eq_some_iff] at h
  obtain ⟨_, hkey, _, -, hbins⟩ := h
  cases hbins
  exact hkey

/-- Two rows of a table either both have a key or both have none. -/
theorem keyDiffers_eq {row row' : HeapTuple Datum} {key key' : Option Bytes} {differs : Bool}
    (h : tupleKey conv rel row = some key) (h' : tupleKey conv rel row' = some key')
    (hdiffers : keyDiffers key key' = .ok differs) : differs = decide (key ≠ key') := by
  rcases tupleKey_eq_some h with ⟨hnone, rfl⟩ | ⟨index, k, hindex, -, rfl⟩
  · rcases tupleKey_eq_some h' with ⟨-, rfl⟩ | ⟨index, _, hindex, -, -⟩
    · exact (Except.ok.inj hdiffers).symm
    · rw [hnone] at hindex
      cases hindex
  · rcases tupleKey_eq_some h' with ⟨hnone, -⟩ | ⟨_, k', -, -, rfl⟩
    · rw [hnone] at hindex
      cases hindex
    · rw [← Except.ok.inj hdiffers]
      -- equal bytes have equal lengths
      by_cases hk : k = k' <;> simp [hk]

/-- The entry of the client's list that an entry of the cache becomes. -/
def listed (rel : Table) (entry : SchemaCacheEntry) : SchemaListEntry :=
  ⟨rel.relid, entry.keySchema, entry.rowSchema⟩

variable (hlive : LiveKey rel) (hentry : SchemasOf namespaces rel (listed rel entry))

include hentry in
theorem avroNames_of_encoded {bin : Bytes} (hrow : Delivers rel row tupdesc tuple)
    (hencode : encodeRow conv entry tupdesc tuple = .ok bin) : rel.AvroNames :=
  avroNames_of_encodeRow hentry.row hrow.length_live hencode

include hlive hentry

theorem tupleKey_of_extractTupleKey {key : Option Bytes} (hrow : Delivers rel row tupdesc tuple)
    (h : extractTupleKey conv entry rel tupdesc tuple = .ok key) : tupleKey conv rel row = some key := by
  have hkey : schemaForTableKey namespaces rel = .ok entry.keySchema := hentry.key
  unfold tupleKey
  cases hindex : tableKeyIndex rel with
  | none =>
    rw [schemaForTableKey, hindex] at hkey
    unfold extractTupleKey at h
    rw [← Except.ok.inj hkey] at h
    exact congrArg some (Except.ok.inj h)
  | some index =>
    rw [hlive.schemaForTableKey_eq hindex] at hkey
    have hschema : entry.keySchema.isSome := by
      rw [← Except.ok.inj hkey]
      rfl
    obtain ⟨k, rfl, hk⟩ := extractTupleKey_eq_ok hindex hschema (hlive.live index hindex) hrow h
    simp [hk]

theorem tupleBins_of_encoded {key : Option Bytes} {bin : Bytes} (hrow : Delivers rel row tupdesc tuple)
    (hextract : extractTupleKey conv entry rel tupdesc tuple = .ok key)
    (hencode : encodeRow conv entry tupdesc tuple = .ok bin) : tupleBins conv rel row = some (key, bin) := by
  simp [tupleBins, tupleKey_of_extractTupleKey hlive hentry hrow hextract, encodeRow_eq_ok hrow hencode]

theorem eq_of_insertRows (hrow : Delivers rel row tupdesc tuple)
    (h : insertRows conv rel tupdesc tuple entry = .ok msgs) :
    rel.AvroNames ∧
      ∃ key new, tupleBins conv rel row = some (key, new) ∧ msgs = [.insert rel.relid key new] := by
  simp only [insertRows, except_bind_eq_ok] at h
  obtain ⟨key, hextract, new, hencode, hmsgs⟩ := h
  exact ⟨avroNames_of_encoded hentry hrow hencode, key, new,
    tupleBins_of_encoded hlive hentry hrow hextract hencode, (Except.ok.inj hmsgs).symm⟩

/-- What is made of the old tuple. -/
theorem eq_of_encodeOld {old : HeapTuple Datum} {key oldBin : Option Bytes}
    (h : encodeOld conv entry rel (some old) = .ok (key, oldBin)) :
    rel.AvroNames ∧ ∃ bin, tupleBins conv rel old = some (key, bin) ∧ oldBin = some bin := by
  simp only [encodeOld, except_bind_eq_ok] at h
  obtain ⟨key', hextract, bin, hencode, hbins⟩ := h
  obtain ⟨rfl, rfl⟩ : key' = key ∧ some bin = oldBin := by simpa using Except.ok.inj hbins
  exact ⟨avroNames_of_encoded hentry .whole hencode, bin,
    tupleBins_of_encoded hlive hentry .whole hextract hencode, rfl⟩

end

section

variable {δ : Type} (conv : Conversions δ) (rel : Table)

theorem pluginCall_eq (namespaces : Namespaces) (cache : SchemaCache) (change : Change δ) :
    pluginCall conv namespaces cache rel change =
      updateFrame conv namespaces cache rel (rowsOf conv rel change) := by
  cases change <;> rfl

/-- The call of the plugin that a change leads to; the descriptor of the tuples is that of the table. -/
def change? : ReorderBufferChange δ → Option (Change δ)
  | .insert (some newtuple) => some (.insert rel.tupdesc newtuple)
  | .update oldtuple (some newtuple) => some (.update oldtuple newtuple)
  | .delete oldtuple => some (.delete oldtuple)
  | .insert none | .update _ none | .internal _ => none

variable {conv rel}

theorem changeMessages_eq_ok {namespaces : Namespaces} {cache : SchemaCache}
    {c : ReorderBufferChange δ} {r : SchemaCache × List Message}
    (h : changeMessages conv namespaces cache rel c = .ok r) :
    ∃ change, change? rel c = some change ∧ pluginCall conv namespaces cache rel change = .ok r := by
  cases c with
  | insert newtuple =>
    cases newtuple with
    | none => cases h
    | some newtuple => exact ⟨_, rfl, except_mapError_eq_ok.mp h⟩
  | update oldtuple newtuple =>
    cases newtuple with
    | none => cases h
    | some newtuple => exact ⟨_, rfl, except_mapError_eq_ok.mp h⟩
  | delete oldtuple => exact ⟨_, rfl, except_mapError_eq_ok.mp h⟩
  | internal action => cases h

end

section

variable {pg : Postgres} {conv : Conversions Datum} {avro : Libavro} {namespaces : Namespaces} {rel : Table}
  {entry : SchemaCacheEntry} {row : HeapTuple Datum} {msgs : List Message}
  (hconv : ∀ column, columnValue conv column = avroValue pg column)
  (hread : avro.valueRead = decode readPredefined) (hlive : LiveKey rel)
  (hentry : SchemasOf namespaces rel (listed rel entry)) (hnames : rel.AvroNames)

include hconv hread hlive hentry hnames

/-- The client can read the key and the columns of a row, once it has the schemas of the table. -/
theorem takes_of_tupleBins {key : Option Bytes} {bin : Bytes} (h : tupleBins conv rel row = some (key, bin)) :
    TakesKey avro (listed rel entry) key ∧ TakesRow avro (listed rel entry) bin := by
  simp only [tupleBins, Option.bind_eq_bind, Option.bind_eq_some_iff] at h
  obtain ⟨_, hkey, _, hrow, hbins⟩ := h
  cases hbins
  constructor
  · rintro k rfl
    rcases tupleKey_eq_some hkey with ⟨-, hnone⟩ | ⟨index, _, hindex, hk, heq⟩
    · cases hnone
    · cases heq
      have hschema := hentry.key
      rw [hlive.schemaForTableKey_eq hindex] at hschema
      exact ⟨index.schema namespaces, (Except.ok.inj hschema).symm,
        readable_of_encodedKey hconv hread namespaces (hlive.columns index hindex) hk⟩
  · have hschema := hentry.row
    rw [hnames.schemaForTableRow_eq] at hschema
    show Readable avro (listed rel entry).rowSchema bin
    rw [← Option.some.inj (Except.ok.inj hschema)]
    exact readable_of_encodedRow hconv hread namespaces hrow

omit hconv hread hlive hentry hnames in
/-- A row message can be taken by every client that has the schemas of the table. -/
def TakenWith (avro : Libavro) (rel : Table) (entry : SchemaCacheEntry) (m : Message) : Prop :=
  ∀ reader, announced reader rel.relid = some (listed rel entry) → m.Acceptable avro reader

theorem takenWith_insert {key : Option Bytes} {new : Bytes} (h : tupleBins conv rel row = some (key, new)) :
    TakenWith avro rel entry (.insert rel.relid key new) :=
  fun _ hreader => ⟨_, hreader, takes_of_tupleBins hconv hread hlive hentry hnames h⟩

/-- The old row, where there is one, is another row of the table. -/
theorem takenWith_update {key old : Option Bytes} {new : Bytes}
    (h : tupleBins conv rel row = some (key, new))
    (hold : ∀ bin ∈ old, ∃ row oldKey, tupleBins conv rel row = some (oldKey, bin)) :
    TakenWith avro rel entry (.update rel.relid key old new) := by
  intro reader hreader
  obtain ⟨hkey, hnew⟩ := takes_of_tupleBins hconv hread hlive hentry hnames h
  refine ⟨_, hreader, hkey, ?_, hnew⟩
  intro bin hbin
  obtain ⟨row, oldKey, hrow⟩ := hold bin hbin
  exact (takes_of_tupleBins hconv hread hlive hentry hnames hrow).2

theorem takenWith_delete {key : Option Bytes} {old : Bytes} (h : tupleBins conv rel row = some (key, old)) :
    TakenWith avro rel entry (.delete rel.relid key (some old)) := by
  intro reader hreader
  obtain ⟨hkey, hold⟩ := takes_of_tupleBins hconv hread hlive hentry hnames h
  refine ⟨_, hreader, hkey, ?_⟩
  rintro _ ⟨⟩
  exact hold

omit hconv hread hlive hentry hnames

/-- The messages make these callbacks, and are never refused. -/
structure Makes (avro : Libavro) (walPos : UInt64) (rel : Table) (entry : SchemaCacheEntry)
    (msgs : List Message) (rows : List Callback) : Prop where
  callbacks : List.Forall₂ (fun m call => m.callback avro walPos = some call) msgs rows
  taken : ∀ m ∈ msgs, TakenWith avro rel entry m

theorem makes_singleton {walPos : UInt64} {m : Message} {call : Callback}
    (hcall : m.callback avro walPos = some call) (htaken : TakenWith avro rel entry m) :
    Makes avro walPos rel entry [m] [call] where
  callbacks := .cons hcall .nil
  taken := List.forall_mem_singleton.mpr htaken

variable (walPos : UInt64)

include hconv hread hlive hentry

theorem makes_updateRows {old : Option (HeapTuple Datum)} {new : HeapTuple Datum}
    (h : updateRows conv rel old new entry = .ok msgs) :
    ∃ rows, changeCallbacks conv walPos rel (.update old (some new)) = some rows ∧
      Makes avro walPos rel entry msgs rows := by
  simp only [updateRows, except_bind_eq_ok] at h
  obtain ⟨⟨oldKey, oldBin⟩, hold, key, hextract, bin, hencode, differs, hdiffers, hmsgs⟩ := h
  have hnames := avroNames_of_encoded hentry .whole hencode
  have hnew := tupleBins_of_encoded hlive hentry .whole hextract hencode
  cases old with
  | none =>
    cases hold
    cases hdiffers
    cases hmsgs
    refine ⟨[.updateRow walPos rel.relid key none bin], ?_, makes_singleton rfl ?_⟩
    · simp [changeCallbacks, hnew]
    · refine takenWith_update hconv hread hlive hentry hnames hnew ?_
      intro bin hbin
      cases hbin
  | some old =>
    obtain ⟨-, oldRow, hbins, rfl⟩ := eq_of_encodeOld hlive hentry hold
    have hsame : differs = decide (oldKey ≠ key) :=
      keyDiffers_eq (tupleKey_of_tupleBins hbins) (tupleKey_of_tupleBins hnew) hdiffers
    by_cases heq : oldKey = key
    · rw [hsame, decide_eq_false (not_not_intro heq)] at hmsgs
      obtain rfl := Except.ok.inj hmsgs
      refine ⟨[.updateRow walPos rel.relid key (some oldRow) bin], ?_, makes_singleton rfl ?_⟩
      · simp [changeCallbacks, hbins, hnew, heq]
      · refine takenWith_update hconv hread hlive hentry hnames hnew ?_
        rintro _ ⟨⟩
        exact ⟨old, oldKey, hbins⟩
    · -- the row moves to another key
      rw [hsame, decide_eq_true heq] at hmsgs
      obtain rfl := Except.ok.inj hmsgs
      refine ⟨[.deleteRow walPos rel.relid oldKey (some oldRow), .insertRow walPos rel.relid key bin], ?_,
        .cons rfl (.cons rfl .nil), ?_⟩
      · simp [changeCallbacks, hbins, hnew, heq]
      · rw [List.forall_mem_cons, List.forall_mem_singleton]
        exact ⟨takenWith_delete hconv hread hlive hentry hnames hbins,
          takenWith_insert hconv hread hlive hentry hnames hnew⟩

theorem makes_deleteRows {old : Option (HeapTuple Datum)} (h : deleteRows conv rel old entry = .ok msgs) :
    ∃ rows, changeCallbacks conv walPos rel (.delete old) = some rows ∧
      Makes avro walPos rel entry msgs rows := by
  simp only [deleteRows, except_bind_eq_ok] at h
  obtain ⟨⟨key, oldBin⟩, hold, hmsgs⟩ := h
  obtain rfl := Except.ok.inj hmsgs
  cases old with
  | none =>
    cases hold
    refine ⟨_, rfl, makes_singleton rfl ?_⟩
    intro reader hreader
    refine ⟨_, hreader, ?_, ?_⟩
    · intro bin hbin
      cases hbin
    · intro bin hbin
      cases hbin
  | some old =>
    obtain ⟨hnames, oldRow, hbins, rfl⟩ := eq_of_encodeOld hlive hentry hold
    refine ⟨[.deleteRow walPos rel.relid key (some oldRow)], ?_, makes_singleton rfl ?_⟩
    · simp [changeCallbacks, hbins]
    · exact takenWith_delete hconv hread hlive hentry hnames hbins

/-- **The row messages of a change** make the callbacks that the change should make. -/
theorem makes_rowsOf {c : ReorderBufferChange Datum} {change : Change Datum}
    (hchange : change? rel c = some change) (h : rowsOf conv rel change entry = .ok msgs) :
    ∃ rows, changeCallbacks conv walPos rel c = some rows ∧ Makes avro walPos rel entry msgs rows := by
  cases c with
  | insert newtuple =>
    cases newtuple with
    | none => cases hchange
    | some newtuple =>
      cases hchange
      obtain ⟨hnames, key, new, hbins, rfl⟩ := eq_of_insertRows hlive hentry .whole h
      refine ⟨[.insertRow walPos rel.relid key new], ?_, makes_singleton rfl ?_⟩
      · simp [changeCallbacks, hbins]
      · exact takenWith_insert hconv hread hlive hentry hnames hbins
  | update oldtuple newtuple =>
    cases newtuple with
    | none => cases hchange
    | some newtuple =>
      cases hchange
      exact makes_updateRows hconv hread hlive hentry walPos h
  | delete oldtuple =>
    cases hchange
    exact makes_deleteRows hconv hread hlive hentry walPos h
  | internal action => cases hchange

end

/-! ## §4 — A frame -/

section

variable {avro : Libavro} {namespaces : Namespaces} {rel : Table}

theorem allAcceptable_append {msgs msgs' : List Message} :
    ∀ {reader : FrameReader}, AllAcceptable avro reader msgs →
      AllAcceptable avro (readerAfterAll avro reader msgs) msgs' → AllAcceptable avro reader (msgs ++ msgs') := by
  induction msgs with
  | nil => exact fun _ h => h
  | cons m msgs ih => exact fun h h' => ⟨h.1, ih h.2 h'⟩

/-- Rows that the client can take one at a time, it can take together: they change no schema. -/
theorem allAcceptable_rows {keySchema : Option Schema} {entry : SchemaCacheEntry} {reader : FrameReader}
    {rows : List Message} (hreader : announced reader rel.relid = some (listed rel entry))
    (hrows : ∀ m ∈ rows, IsRowOf keySchema rel m) (htaken : ∀ m ∈ rows, TakenWith avro rel entry m) :
    AllAcceptable avro reader rows := by
  induction rows with
  | nil => trivial
  | cons m rows ih =>
    obtain ⟨hm, hrest⟩ := List.forall_mem_cons.mp htaken
    obtain ⟨⟨key, hrow, -⟩, hrows⟩ := List.forall_mem_cons.mp hrows
    refine ⟨hm reader hreader, ?_⟩
    rw [Message.readerAfter_row hrow]
    exact ih hrows hrest

/-- A message that announces an entry is acceptable, and is a call with its schemas. -/
theorem callback_of_announces (walPos : UInt64) (reader : FrameReader) {m : Message} {e : SchemaListEntry}
    (h : m.announces avro = some e) :
    m.Acceptable avro reader ∧ ∃ keyJson rowJson, m.callback avro walPos =
      some (.tableSchema walPos e.relid keyJson e.keySchema rowJson e.rowSchema) := by
  cases m with
  | tableSchema relid keyJson rowJson =>
    simp only [Message.announces, Option.bind_eq_bind, Option.bind_eq_some_iff] at h
    obtain ⟨rowSchema, hrow, keySchema, hkey, he⟩ := h
    cases he
    exact ⟨⟨by simp [hrow], by simp [hkey]⟩, keyJson, rowJson, Message.callback_tableSchema hrow hkey⟩
  | _ => cases h

/-- A frame splits in one way only into schemas and rows. -/
theorem append_inj_of_row {schemas schemas' rows rows' : List Message}
    (h : schemas ++ rows = schemas' ++ rows') (hschemas : ∀ m ∈ schemas, m.row? = none)
    (hschemas' : ∀ m ∈ schemas', m.row? = none) (hrows : ∀ m ∈ rows, m.row?.isSome)
    (hrows' : ∀ m ∈ rows', m.row?.isSome) : schemas = schemas' ∧ rows = rows' := by
  have hfilter {front back : List Message} (hfront : ∀ m ∈ front, m.row? = none)
      (hback : ∀ m ∈ back, m.row?.isSome) : (front ++ back).filter (·.row?.isSome) = back := by
    rw [List.filter_append, List.filter_eq_self.mpr hback, List.filter_eq_nil_iff.mpr, List.nil_append]
    intro m hm
    simp [hfront m hm]
  have heq : rows = rows' := by
    rw [← hfilter hschemas hrows, h, hfilter hschemas' hrows']
  subst heq
  exact ⟨List.append_cancel_right h, rfl⟩

variable {δ : Type} {conv : Conversions δ} {entry : SchemaCacheEntry} {msgs : List Message}

theorem row?_of_announcement {changed : Nat} (h : announcement conv changed entry = .ok msgs) :
    ∀ m ∈ msgs, m.row? = none := by
  unfold announcement at h
  split at h
  · simp only [except_bind_eq_ok] at h
    obtain ⟨keyJson, -, rowJson, -, hmsgs⟩ := h
    obtain rfl := Except.ok.inj hmsgs
    exact List.forall_mem_singleton.mpr rfl
  · obtain rfl := Except.ok.inj h
    exact List.forall_mem_nil _

theorem isRowOf_rowsOf {change : Change δ} (h : rowsOf conv rel change entry = .ok msgs) :
    ∀ m ∈ msgs, IsRowOf entry.keySchema rel m := by
  cases change with
  | insert tupdesc newtuple => exact isRowOf_insertRows h
  | update oldtuple newtuple => exact isRowOf_updateRows h
  | delete oldtuple => exact isRowOf_deleteRows h

theorem IsRowOf.isSome {keySchema : Option Schema} {m : Message} (h : IsRowOf keySchema rel m) :
    m.row?.isSome := by
  obtain ⟨key, hrow, -⟩ := h
  rw [hrow]
  rfl

/-- **The frame of a call**: what it says about the schemas, and the rows, made for an entry that has the
schemas of the table. -/
structure FrameOf (conv : Conversions δ) (avro : Libavro) (walPos : UInt64) (namespaces : Namespaces)
    (rel : Table) (change : Change δ) (entry : SchemaCacheEntry) (cache' : SchemaCache) (reader : FrameReader)
    (schemas rows : List Message) (calls : List Callback) : Prop where
  tells : Tells avro namespaces rel (listed rel entry) cache' reader schemas rows
  acceptable : AllAcceptable avro reader schemas
  callbacks : List.Forall₂ (fun m call => m.callback avro walPos = some call) schemas calls
  schemas : TellsSchemas (announced reader) walPos namespaces rel calls
  rows : rowsOf conv rel change entry = .ok rows

theorem frameOf_pluginCall {κ : Type} {s : Replication κ} {change : Change δ} {cache' : SchemaCache}
    (hdesc : ∀ a b, conv.equalTupleDescs a b = true → a.live = b.live) (hs : s.Agree)
    (hprint : SchemasPrintable conv avro namespaces rel) (walPos : UInt64)
    (h : pluginCall conv namespaces s.cache rel change = .ok (cache', msgs)) :
    ∃ entry schemas rows calls, msgs = schemas ++ rows ∧
      FrameOf conv avro walPos namespaces rel change entry cache' s.session.reader schemas rows calls := by
  obtain ⟨now, schemas', rows', hmsgs, htells⟩ := tells_of_pluginCall hdesc hs hprint h
  rw [pluginCall_eq] at h
  obtain ⟨r, schemas, rows, hr, hschemas, hrows, -, rfl⟩ := updateFrame_eq_ok h
  have hlookup : LookedUp namespaces s.cache rel r := schemaCacheLookup_spec hdesc hs.1 hr
  have hentry : SchemasOf namespaces rel (listed rel r.2.1) :=
    ⟨rfl, hlookup.rowSchema, hlookup.keySchema⟩
  obtain rfl := htells.schemasOf.eq hentry
  obtain ⟨rfl, rfl⟩ := append_inj_of_row hmsgs (row?_of_announcement hschemas) htells.noRow
    (fun m hm => (isRowOf_rowsOf hrows m hm).isSome) (fun m hm => (htells.rows m hm).isSome)
  by_cases hchanged : r.1 = 0
  · obtain rfl : schemas = [] := by
      simp only [announcement, hchanged, ne_eq, not_true, if_false] at hschemas
      exact (Except.ok.inj hschemas).symm
    exact ⟨r.2.1, [], rows, [], rfl, htells, trivial, .nil, ⟨_, hentry, .inl ⟨htells.now, rfl⟩⟩, hrows⟩
  · obtain ⟨m, rfl, -, hannounces⟩ := announces_of_announcement avro hschemas hchanged
      (hprint.1 _ hlookup.rowSchema) fun schema hschema => hprint.2 schema (hschema ▸ hlookup.keySchema)
    obtain ⟨hacceptable, keyJson, rowJson, hcall⟩ :=
      callback_of_announces walPos s.session.reader hannounces
    rw [hlookup.relid] at hcall
    exact ⟨r.2.1, [m], rows, _, rfl, htells, ⟨hacceptable, trivial⟩, .cons hcall .nil,
      ⟨_, hentry, .inr ⟨keyJson, rowJson, rfl⟩⟩, hrows⟩

/-- The client takes the whole frame, and agrees with the server again. -/
theorem FrameOf.takes {walPos : UInt64} {change : Change δ} {cache' : SchemaCache} {reader : FrameReader}
    {schemas rows : List Message} {calls rowCalls : List Callback}
    (h : FrameOf conv avro walPos namespaces rel change entry cache' reader schemas rows calls)
    (hmakes : Makes avro walPos rel entry rows rowCalls) :
    AllAcceptable avro reader (schemas ++ rows) ∧
      List.Forall₂ (fun m call => m.callback avro walPos = some call) (schemas ++ rows) (calls ++ rowCalls) ∧
      ∀ relid entry, cache' relid = some entry → announced (readerAfterAll avro reader (schemas ++ rows)) relid =
        some ⟨relid, entry.keySchema, entry.rowSchema⟩ := by
  refine ⟨?_, List.rel_append h.callbacks hmakes.callbacks, ?_⟩
  · exact allAcceptable_append h.acceptable (allAcceptable_rows h.tells.now h.tells.rows hmakes.taken)
  · intro relid entry hentry
    rw [readerAfterAll, List.foldl_append]
    show announced (readerAfterAll avro (readerAfterAll avro reader schemas) rows) relid = _
    rw [readerAfterAll_rows h.tells.rows]
    exact h.tells.agree relid entry hentry

end

/-- What a client has in its schema list after some messages is what the callbacks have told it. -/
theorem knownAfter_announced {avro : Libavro} {walPos : UInt64} {msgs : List Message} {calls : List Callback}
    (h : List.Forall₂ (fun m call => m.callback avro walPos = some call) msgs calls) :
    ∀ reader, knownAfter (announced reader) calls = announced (readerAfterAll avro reader msgs) := by
  induction h with
  | nil => exact fun _ => rfl
  | @cons m call msgs calls hcall _ ih =>
    intro reader
    show _ = announced (readerAfterAll avro (m.readerAfter avro reader) msgs)
    rw [← ih]
    cases m with
    | tableSchema relid key row =>
      simp only [Message.callback, Option.bind_eq_bind, Option.bind_eq_some_iff] at hcall
      obtain ⟨rowSchema, hrow, keySchema, hkey, hcall⟩ := hcall
      cases hcall
      rw [knownAfter]
      congr 1
      funext relid'
      rw [Function.update_apply, announced_readerAfter (Message.announces_tableSchema hrow hkey)]
    | _ =>
      cases hcall
      rfl

/-! ## §5 — The stream -/

/-- Successive calls of `parse_frame`. -/
def parseFrames {κ : Type} (on : Callback → κ → Int × κ) (avro : Libavro) :
    List (UInt64 × Bytes) → ProtocolM κ Unit
  | [] => pure ()
  | (walPos, frame) :: frames => do
    parseFrame on avro walPos frame
    parseFrames on avro frames

theorem invokeAll_append {κ : Type} (on : Callback → κ → Int × κ) (calls calls' : List Callback)
    (context : κ) : invokeAll on (calls ++ calls') context =
      (invokeAll on calls context).bind (invokeAll on calls') := by
  unfold invokeAll
  rw [List.foldlM_append]
  rfl

/-- **`Calls avro frames reader reader' calls`** — the frames are these calls, whatever the callbacks are: they
all go through if the callbacks do, and leave the schema list `reader'`. -/
def Calls (avro : Libavro) (frames : List (UInt64 × Bytes)) (reader reader' : FrameReader)
    (calls : List Callback) : Prop :=
  ∀ {κ : Type} (on : Callback → κ → Int × κ) (context : κ) (t : Session κ),
    parseFrames on avro frames ⟨reader, context⟩ = .ok () t ↔
      invokeAll on calls context = some t.context ∧ reader' = t.reader

theorem calls_nil (avro : Libavro) (reader : FrameReader) : Calls avro [] reader reader [] := by
  intro κ on context t
  simp only [parseFrames, pure_eq_ok, true_and, invokeAll, List.foldlM_nil]
  constructor
  · rintro rfl
    exact ⟨rfl, rfl⟩
  · rintro ⟨hcontext, rfl⟩
    cases Option.some.inj hcontext
    rfl

/-- A frame of acceptable messages, and the frames behind it. -/
theorem Calls.cons {avro : Libavro} {walPos : UInt64} {reader reader' : FrameReader} {msgs : List Message}
    {calls calls' : List Callback} {frames : List (UInt64 × Bytes)}
    (hsize : (encode (frameValue msgs)).length < maxSize) (hmsgs : AllAcceptable avro reader msgs)
    (hcalls : List.Forall₂ (fun m call => m.callback avro walPos = some call) msgs calls)
    (hrest : Calls avro frames (readerAfterAll avro reader msgs) reader' calls') :
    Calls avro ((walPos, encode (frameValue msgs)) :: frames) reader reader' (calls ++ calls') := by
  intro κ on context t
  rw [parseFrames, bind_eq_ok, invokeAll_append]
  simp only [parseFrame_encode hsize, processFrame_ok_iff]
  constructor
  · rintro ⟨_, ⟨reader₁, context₁⟩, ⟨-, calls₁, hcalls₁, hcontext₁, rfl⟩, hparse⟩
    obtain rfl : calls₁ = calls :=
      List.right_unique_forall₂' (fun _ _ _ h h' => Option.some.inj (h.symm.trans h')) hcalls₁ hcalls
    obtain ⟨hcontext, hreader⟩ := (hrest on context₁ t).mp hparse
    rw [hcontext₁]
    exact ⟨hcontext, hreader⟩
  · rintro ⟨hcontext, hreader⟩
    obtain ⟨context₁, hcontext₁, hcontext⟩ := Option.bind_eq_some_iff.mp hcontext
    exact ⟨(), ⟨_, context₁⟩, ⟨hmsgs, calls, hcalls, hcontext₁, rfl⟩,
      (hrest on context₁ t).mpr ⟨hcontext, hreader⟩⟩

section

variable {pg : Postgres} {conv : Conversions Datum} {avro : Libavro}
  (hdesc : ∀ a b, conv.equalTupleDescs a b = true → a.live = b.live)
  (hconv : ∀ column, columnValue conv column = avroValue pg column)
  (hread : avro.valueRead = decode readPredefined)

/-- The client has the schemas that the cache has. -/
def Agrees (cache : SchemaCache) (reader : FrameReader) : Prop :=
  (⟨cache, ⟨reader, ()⟩⟩ : Replication Unit).Agree

theorem agrees_schemaCacheNew (reader : FrameReader) : Agrees schemaCacheNew reader := by
  refine ⟨filled_schemaCacheNew, ?_⟩
  intro relid entry hentry
  cases hentry

/-- What is asked of a call: the schemas of the table survive being printed, and its key index, if there is
one, has names that are taken and is on columns that the table has. -/
def Sendable (conv : Conversions Datum) (avro : Libavro) : DecodingCall Datum → Prop
  | .change namespaces rel _ => SchemasPrintable conv avro namespaces rel ∧ LiveKey rel
  | .beginTxn _ | .commitTxn .. => True

include hdesc hconv hread

/-- **One call.**  The client takes its messages, which make the callbacks of the call, and agrees with the
server afterwards. -/
theorem told_of_messages (walPos : UInt64) {cache cache' : SchemaCache} {call : DecodingCall Datum}
    {reader : FrameReader} {msgs : List Message} (hagree : Agrees cache reader)
    (hcall : Sendable conv avro call) (h : call.messages conv cache = .ok (cache', msgs)) :
    AllAcceptable avro reader msgs ∧ Agrees cache' (readerAfterAll avro reader msgs) ∧
      ∃ calls, Told conv (announced reader) walPos call calls ∧
        List.Forall₂ (fun m call => m.callback avro walPos = some call) msgs calls := by
  cases call with
  | beginTxn xid =>
    obtain ⟨rfl, rfl⟩ := Prod.mk.inj (Except.ok.inj h)
    exact ⟨⟨trivial, trivial⟩, hagree, _, .beginTxn xid, .cons rfl .nil⟩
  | commitTxn xid commitLsn =>
    obtain ⟨rfl, rfl⟩ := Prod.mk.inj (Except.ok.inj h)
    exact ⟨⟨trivial, trivial⟩, hagree, _, .commitTxn xid commitLsn, .cons rfl .nil⟩
  | change namespaces rel c =>
    obtain ⟨hprint, hlive⟩ := hcall
    obtain ⟨change, hchange, hplugin⟩ := changeMessages_eq_ok h
    obtain ⟨entry, schemas, rows, calls, rfl, hframe⟩ := frameOf_pluginCall hdesc hagree hprint walPos hplugin
    obtain ⟨rowCalls, hcallbacks, hmakes⟩ :=
      makes_rowsOf hconv hread hlive hframe.tells.schemasOf walPos hchange hframe.rows
    obtain ⟨hacceptable, hcalls, hagree'⟩ := hframe.takes hmakes
    exact ⟨hacceptable, ⟨hframe.tells.filled, hagree'⟩, _, .change hframe.schemas hcallbacks, hcalls⟩

end

/-! A row that moves to another key, in a table whose schemas are known by one letter. -/

def calendarConversions : Conversions Datum :=
  conversions yearCalendar (fun a b => decide (a = b)) fun s => if s.name = "visits" then [118] else [107]

def calendarSchemas : Libavro where
  schemaFromJson
    | [118] => some (visits.schema publicOnly)
    | [107] => some (visitsKey.schema publicOnly)
    | _ => none
  valueRead := decode readPredefined

def visit (day : Int32) : HeapTuple Datum := ⟨[none, none, some (.date day)], none⟩

theorem visits_liveKey : LiveKey visits := by
  have hkey (index : Index) (hindex : tableKeyIndex visits = some index) : visitsKey = index :=
    Option.some.inj hindex
  constructor
  · intro index hindex
    obtain rfl := hkey index hindex
    decide
  · intro index hindex
    obtain rfl := hkey index hindex
    refine ⟨by decide, by decide, rfl, ?_⟩
    intro j attr indkey hattr hindkey
    rcases j with _ | j
    · cases hattr
      cases hindkey
      exact ⟨rfl, fun _ => rfl⟩
    · cases hattr
  · intro index hindex indkey hmem
    obtain rfl := hkey index hindex
    obtain rfl : indkey = 3 := by simpa [visitsKey] using hmem
    exact ⟨by decide, ⟨"day", DATEOID, false⟩, rfl, rfl⟩

theorem visits_sendable (c : ReorderBufferChange Datum) :
    Sendable calendarConversions calendarSchemas (.change publicOnly visits c) :=
  ⟨⟨by rintro _ ⟨⟩; rfl, by rintro _ ⟨⟩; rfl⟩, visits_liveKey⟩

end BottledWater.Protocol
