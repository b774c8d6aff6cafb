/-
# BottledWater.Protocol.SnapshotDelivery — the snapshot, from the tables to the callbacks.

The calls of `bottledwater_export` return one frame for each row, and `snapshot_tuple` hands each of them to
`parse_frame` with position 0.  The result set that a row is fetched from has no dropped columns, so its
tuples are not those of the table; keys and columns come out the same (`Delivers`).  `snapshot_delivered`
follows the function from call to call, through the cursors and the empty tables between them: what the client
is told is one insertion for each row of each table, in order.
-/
import BottledWater.Ext.Export
import BottledWater.Protocol.Decoding

namespace BottledWater.Protocol

open BottledWater.Lib BottledWater.Lib.Avro BottledWater.Client BottledWater.Ext

/-! ## §1 — A row -/

section

variable {pg : Postgres} {conv : Conversions Datum} {avro : Libavro} {namespaces : Namespaces} {rel : Table}

/-- The callbacks for a row of the snapshot: the insertion, behind the schemas where they are needed. -/
def RowTold (conv : Conversions Datum) (namespaces : Namespaces) (known : KnownSchemas) (rel : Table)
    (row : HeapTuple Datum) (calls : List Callback) : Prop :=
  ∃ schemas key new, TellsSchemas known 0 namespaces rel schemas ∧ tupleBins conv rel row = some (key, new) ∧
    calls = schemas ++ [.insertRow 0 rel.relid key new]

theorem told_of_updateFrameWithInsert (hdesc : ∀ a b, conv.equalTupleDescs a b = true → a.live = b.live)
    (hconv : ∀ column, columnValue conv column = avroValue pg column)
    (hread : avro.valueRead = decode readPredefined) {cache cache' : SchemaCache} {reader : FrameReader}
    {row tuple : HeapTuple Datum} {tupdesc : TupleDesc} {msgs : List Message} (hagree : Agrees cache reader)
    (hprint : SchemasPrintable conv avro namespaces rel) (hlive : LiveKey rel)
    (hrow : Delivers rel row tupdesc tuple)
    (h : updateFrameWithInsert conv namespaces cache rel tupdesc tuple = .ok (cache', msgs)) :
    AllAcceptable avro reader msgs ∧ Agrees cache' (readerAfterAll avro reader msgs) ∧
      ∃ calls, RowTold conv namespaces (announced reader) rel row calls ∧
        List.Forall₂ (fun m call => m.callback avro 0 = some call) msgs calls := by
  have hplugin : pluginCall conv namespaces cache rel (.insert tupdesc tuple) = .ok (cache', msgs) := h
  obtain ⟨entry, schemas, rows, calls, rfl, hframe⟩ := frameOf_pluginCall hdesc hagree hprint 0 hplugin
  have hentry := hframe.tells.schemasOf
  obtain ⟨hnames, key, new, hbins, rfl⟩ := eq_of_insertRows hlive hentry hrow hframe.rows
  have hmakes : Makes avro 0 rel entry [.insert rel.relid key new] [.insertRow 0 rel.relid key new] :=
    makes_singleton rfl (takenWith_insert hconv hread hlive hentry hnames hbins)
  obtain ⟨hacceptable, hcalls, hagree'⟩ := hframe.takes hmakes
  exact ⟨hacceptable, ⟨hframe.tells.filled, hagree'⟩, _, ⟨calls, key, new, hframe.schemas, hbins, rfl⟩, hcalls⟩

end

section

variable {δ : Type} {env : ExportEnv δ} {tablePattern : String} {allowUnkeyed : Bool}
  {before after : List ExportTable} {table : ExportTable} {cache : SchemaCache} {tupdesc : TupleDesc}
  {tuple : HeapTuple δ} {rest : List (HeapTuple δ)} {trace : List ExportEvent}

/-- The round of the loop that fetches a row returns its frame. -/
theorem exportLoop_row_eq_ok {rounds : Nat} {returned : Returned δ}
    (h : exportLoop env (rounds + 1) (placed before table after cache tupdesc (tuple :: rest) trace) =
      .ok returned) :
    ∃ cache' msgs frame,
      updateFrameWithInsert env.conv env.namespaces cache table.rel tupdesc tuple = .ok (cache', msgs) ∧
      tryWriting (encode (frameValue msgs)) = .ok frame ∧
      returned = .next frame (placed before table after cache' tupdesc rest (trace ++ [.returned frame])) := by
  have hlt : before.length < (before ++ table :: after).length := by simp
  simp only [exportLoop, placed, hlt, if_true, formatSnapshotRow, getElem?_placed] at h
  cases hinsert : updateFrameWithInsert env.conv env.namespaces cache table.rel tupdesc tuple with
  | error e =>
    rw [hinsert] at h
    cases h
  | ok r =>
    obtain ⟨cache', msgs⟩ := r
    simp only [hinsert, writeFrame] at h
    cases hwrite : tryWriting (encode (frameValue msgs)) with
    | error e =>
      rw [hwrite] at h
      cases h
    | ok frame =>
      rw [hwrite] at h
      exact ⟨cache', msgs, frame, rfl, hwrite, (Except.ok.inj h).symm⟩

/-- A frame that was returned is followed by those of the next calls. -/
theorem resume_next_eq_ok {calls : Nat} {frame : Bytes} {state : ExportState δ} {frames : List Bytes}
    {tr : List ExportEvent}
    (h : resume env tablePattern allowUnkeyed calls (.ok (.next frame state)) = .ok (frames, some tr)) :
    ∃ calls' frames', calls = calls' + 1 ∧ frames = frame :: frames' ∧
      successiveCalls env tablePattern allowUnkeyed (calls' + 1) (some state) = .ok (frames', some tr) := by
  change (successiveCalls env tablePattern allowUnkeyed calls (some state) >>= fun r =>
    pure (frame :: r.1, r.2)) = .ok (frames, some tr) at h
  obtain ⟨⟨frames', tr'⟩, hcalls, heq⟩ := except_bind_eq_ok.mp h
  obtain ⟨rfl, rfl⟩ := Prod.mk.inj (Except.ok.inj heq)
  cases calls with
  | zero => cases hcalls
  | succ calls' => exact ⟨calls', frames', rfl, rfl, hcalls⟩

end

/-! ## §2 — The calls -/

section

variable {pg : Postgres} {env : ExportEnv Datum} {avro : Libavro} {tablePattern : String} {allowUnkeyed : Bool}
  {contents : ExportTable → List (HeapTuple Datum)} {before after : List ExportTable} {table : ExportTable}
  {tupdesc : TupleDesc} {rest : List (HeapTuple Datum)} {rows : List (HeapTuple Datum)}

/-- A table that can be exported: as for the stream, and the query returns the rows it has. -/
structure Exportable (env : ExportEnv Datum) (avro : Libavro) (contents : ExportTable → List (HeapTuple Datum))
    (table : ExportTable) : Prop where
  printable : SchemasPrintable env.conv avro env.namespaces table.rel
  liveKey : LiveKey table.rel
  rows : List.Forall₂ (fun row tuple => Delivers table.rel row (tableRows env table).tupdesc tuple)
    (contents table) (tableRows env table).rows

/-- The rows of some tables, each with its table. -/
def rowsIn (contents : ExportTable → List (HeapTuple Datum)) (tables : List ExportTable) :
    List (Table × HeapTuple Datum) :=
  tables.flatMap fun table => (contents table).map (table.rel, ·)

/-- **From a place in a table**, with `rest` still to be fetched: if the calls come to their end, the client is
told of the rows of the rest and of the tables behind. -/
def TellsRest (env : ExportEnv Datum) (avro : Libavro) (contents : ExportTable → List (HeapTuple Datum))
    (tablePattern : String) (allowUnkeyed : Bool) (before : List ExportTable) (table : ExportTable)
    (after : List ExportTable) (tupdesc : TupleDesc) (rest rows : List (HeapTuple Datum)) : Prop :=
  ∀ cache trace calls rounds reader frames tr, Agrees cache reader →
    resume env tablePattern allowUnkeyed calls
      (exportLoop env rounds (placed before table after cache tupdesc rest trace)) = .ok (frames, some tr) →
    ∃ made reader', InTurn (fun known r => RowTold env.conv env.namespaces known r.1 r.2) (announced reader)
        (rows.map (table.rel, ·) ++ rowsIn contents after) made ∧
      Calls avro (frames.map (0, ·)) reader reader' made.flatten

variable (hdesc : ∀ a b, env.conv.equalTupleDescs a b = true → a.live = b.live)
  (hconv : ∀ column, columnValue env.conv column = avroValue pg column)
  (hread : avro.valueRead = decode readPredefined)

include hdesc hconv hread

/-- One row more. -/
theorem TellsRest.row {row tuple : HeapTuple Datum}
    (h : TellsRest env avro contents tablePattern allowUnkeyed before table after tupdesc rest rows)
    (hprint : SchemasPrintable env.conv avro env.namespaces table.rel) (hlive : LiveKey table.rel)
    (hrow : Delivers table.rel row tupdesc tuple) :
    TellsRest env avro contents tablePattern allowUnkeyed before table after tupdesc (tuple :: rest)
      (row :: rows) := by
  intro cache trace calls rounds reader frames tr hagree hresume
  obtain ⟨returned, hloop, -⟩ := except_bind_eq_ok.mp hresume
  cases rounds with
  | zero => cases hloop
  | succ rounds =>
    obtain ⟨cache', msgs, frame, hinsert, hwrite, rfl⟩ := exportLoop_row_eq_ok hloop
    rw [hloop] at hresume
    obtain ⟨calls', frames', rfl, rfl, hcalls⟩ := resume_next_eq_ok hresume
    obtain ⟨rfl, hsize⟩ := Logdecoder.eq_encode_of_tryWriting hwrite
    obtain ⟨hacceptable, hagree', told, htold, hcallbacks⟩ :=
      told_of_updateFrameWithInsert hdesc hconv hread hagree hprint hlive hrow hinsert
    rw [successiveCalls_placed] at hcalls
    obtain ⟨made, reader', hmade, hmakes⟩ := h _ _ _ _ _ _ _ hagree' hcalls
    rw [← knownAfter_announced hcallbacks] at hmade
    exact ⟨told :: made, reader', .cons htold hmade, hmakes.cons hsize hacceptable hcallbacks⟩

theorem TellsRest.fetch
    (h : TellsRest env avro contents tablePattern allowUnkeyed before table after tupdesc [] [])
    (hprint : SchemasPrintable env.conv avro env.namespaces table.rel) (hlive : LiveKey table.rel)
    (hrows : List.Forall₂ (fun row tuple => Delivers table.rel row tupdesc tuple) rows rest) :
    TellsRest env avro contents tablePattern allowUnkeyed before table after tupdesc rest rows := by
  induction hrows with
  | nil => exact h
  | cons hrow _ ih => exact ih.row hdesc hconv hread hprint hlive hrow

/-- The end of a table leads into the next one. -/
theorem tellsRest_end (hafter : ∀ table ∈ after, Exportable env avro contents table) :
    TellsRest env avro contents tablePattern allowUnkeyed before table after tupdesc [] [] := by
  induction after generalizing before table tupdesc with
  | nil =>
    intro cache trace calls rounds reader frames tr _ hresume
    obtain ⟨returned, hloop, -⟩ := except_bind_eq_ok.mp hresume
    rcases rounds with _ | _ | rounds
    · cases hloop
    · -- one round closes the table, and the end is found in the next
      rw [exportLoop_end] at hloop
      obtain ⟨state, -, hstate⟩ := except_bind_eq_ok.mp hloop
      cases hstate
    · rw [exportLoop_last] at hresume
      obtain ⟨rfl, -⟩ := Prod.mk.inj (Except.ok.inj hresume)
      exact ⟨[], reader, .nil, calls_nil avro reader⟩
  | cons next after ih =>
    intro cache trace calls rounds reader frames tr hagree hresume
    obtain ⟨hnext, hafter⟩ := List.forall_mem_cons.mp hafter
    cases rounds with
    | zero => cases hresume
    | succ rounds =>
      rw [exportLoop_next] at hresume
      have hrest : TellsRest env avro contents tablePattern allowUnkeyed (before ++ [table]) next after
          (tableRows env next).tupdesc (tableRows env next).rows (contents next) :=
        (ih hafter).fetch hdesc hconv hread hnext.printable hnext.liveKey hnext.rows
      exact hrest _ _ _ _ _ _ _ hagree hresume

/-- **The snapshot arrives as the tables are.**  If the calls of `bottledwater_export` come to their end, what
they returned are these callbacks and no others: for each table that was selected, in order, one insertion for
each of its rows, with the key and the columns of the row, and its schemas before the first of them. -/
theorem snapshot_delivered {tables : List ExportTable}
    (htables : getTableList env.relationOpen env.quoteQualifiedIdentifier env.catalog tablePattern
      allowUnkeyed = .ok tables)
    (hcontents : ∀ table ∈ tables, Exportable env avro contents table) {calls : Nat} {frames : List Bytes}
    {trace : List ExportEvent}
    (h : successiveCalls env tablePattern allowUnkeyed calls none = .ok (frames, some trace))
    (reader : FrameReader) :
    ∃ made reader', InTurn (fun known r => RowTold env.conv env.namespaces known r.1 r.2) (announced reader)
        (rowsIn contents tables) made ∧ Calls avro (frames.map (0, ·)) reader reader' made.flatten := by
  cases calls with
  | zero => cases h
  | succ calls =>
    change resume env tablePattern allowUnkeyed calls (exportInit env tablePattern allowUnkeyed >>= fun state =>
      exportLoop env (state.tables.length - state.currentTable + 1) state) = _ at h
    rw [exportInit, htables] at h
    cases tables with
    | nil =>
      obtain ⟨rfl, -⟩ := Prod.mk.inj (Except.ok.inj h)
      exact ⟨[], reader, .nil, calls_nil avro reader⟩
    | cons table after =>
      obtain ⟨hfirst, hafter⟩ := List.forall_mem_cons.mp hcontents
      have hrest : TellsRest env avro contents tablePattern allowUnkeyed [] table after
          (tableRows env table).tupdesc (tableRows env table).rows (contents table) :=
        (tellsRest_end hdesc hconv hread hafter).fetch hdesc hconv hread hfirst.printable hfirst.liveKey
          hfirst.rows
      exact hrest schemaCacheNew _ _ _ _ _ _ (agrees_schemaCacheNew reader) h

end

/-! ## §3 — An unkeyed table with a dropped column, behind an empty one -/

def diaryTable (relid : Oid) : Table where
  relid := relid
  relname := "diary"
  relnamespace := 1
  tupdesc :=
    { attrs := [⟨"dropped.1", 0, true⟩, ⟨"day", DATEOID, false⟩]
      details := [] }
  relreplident := .default
  replicaIndex := none
  indexes := []

def diaryEnv : ExportEnv Datum where
  conv := conversions yearCalendar (fun a b => decide (a = b)) fun _ => [100]
  namespaces := publicOnly
  catalog := .withoutIndexes publicNamespace
    [⟨5, "blank", 1, .relation, .permanent, .default⟩, ⟨6, "diary", 1, .relation, .permanent, .default⟩]
    nodup_publicNamespace (by decide) (by decide)
  relationOpen := diaryTable
  quoteQualifiedIdentifier := fun relNamespace relName => relNamespace ++ "." ++ relName
  select := fun query => ⟨⟨[⟨"day", DATEOID, false⟩], []⟩,
    if query = "SELECT * FROM public.diary" then [⟨[some (.date 5)], none⟩, ⟨[some (.date 6)], none⟩] else []⟩

def diarySchemas : Libavro where
  schemaFromJson := fun _ => some ((diaryTable 6).schema publicOnly)
  valueRead := decode readPredefined

/-- The rows as the table has them, with the column that the query leaves out. -/
def diaryContents (table : ExportTable) : List (HeapTuple Datum) :=
  if table.relid = 6 then [⟨[none, some (.date 5)], none⟩, ⟨[none, some (.date 6)], none⟩] else []

def diaryTables : List ExportTable :=
  [⟨5, diaryTable 5, "public", "blank", .default, none⟩, ⟨6, diaryTable 6, "public", "diary", .default, none⟩]

theorem diary_exportable : ∀ table ∈ diaryTables, Exportable diaryEnv diarySchemas diaryContents table := by
  have hnames (relid : Oid) : (diaryTable relid).AvroNames :=
    ⟨show isAvroId "diary" by decide, show ∀ column ∈ [("day", DATEOID)], isAvroId column.1 by decide⟩
  have hprint (relid : Oid) : SchemasPrintable diaryEnv.conv diarySchemas publicOnly (diaryTable relid) := by
    refine ⟨fun schema hschema => ?_, by rintro _ ⟨⟩⟩
    rw [(hnames relid).schemaForTableRow_eq] at hschema
    cases hschema
    rfl
  have hlive (relid : Oid) : LiveKey (diaryTable relid) := ⟨nofun, nofun, nofun⟩
  simp only [diaryTables, List.forall_mem_cons]
  refine ⟨⟨hprint 5, hlive 5, .nil⟩, ⟨hprint 6, hlive 6, ?_⟩, List.forall_mem_nil _⟩
  exact .cons (.withoutDropped rfl rfl) (.cons (.withoutDropped rfl rfl) .nil)

theorem snapshot_delivered_diary :
    ∃ frames trace, successiveCalls diaryEnv "%" true 3 none = .ok (frames, some trace) ∧
      ∃ made reader', InTurn (fun known r => RowTold diaryEnv.conv publicOnly known r.1 r.2)
        (announced frameReaderNew) [(diaryTable 6, ⟨[none, some (.date 5)], none⟩), (diaryTable 6, ⟨[none, some (.date 6)], none⟩)] made ∧
        Calls diarySchemas (frames.map (0, ·)) frameReaderNew reader' made.flatten := by
  have hdesc : ∀ a b, diaryEnv.conv.equalTupleDescs a b = true → a.live = b.live := by
    intro a b h
    rw [of_decide_eq_true h]
  have htables : getTableList diaryEnv.relationOpen diaryEnv.quoteQualifiedIdentifier diaryEnv.catalog "%" true =
      .ok diaryTables := by decide +kernel
  obtain ⟨frames, trace, h⟩ : ∃ frames trace,
      successiveCalls diaryEnv "%" true 3 none = .ok (frames, some trace) := ⟨_, _, by rfl⟩
  exact ⟨frames, trace, h, snapshot_delivered hdesc (columnValue_conversions _ _ _) rfl htables diary_exportable
    h frameReaderNew⟩

end BottledWater.Protocol
