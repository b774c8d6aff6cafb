/-
# BottledWater.Ext.Conformance — rows and keys fit the schemas made for them.

`schema_for_table_row` and `tuple_to_avro_row` walk over the columns of a relation independently of each
other, one with the named types it has defined so far, the other with a value at hand.  Here the loops of
`tuple_to_avro_row` and `tuple_to_avro_key` run with their setters: each field has the type that the
schema declares for it, and a setter of another type ends the call with an error.

`Typed.tupleToAvroRow_eq` says that on the schema of the relation no setter ever fails because of its type,
so that the loops are those of `Ext.Server`.  The rest is about their result: the record conforms to the
schema, and a column is in the field that has its name.  A key index on the system column `oid` is where
this ends: `tuple_to_avro_key` then takes the first column of the table.
-/
import BottledWater.Ext.Datum

namespace BottledWater.Ext

open BottledWater.Lib BottledWater.Lib.Avro BottledWater.Protocol

/-! ## §1 — The loops with their setters -/

/-- `avro_value_get_by_index` on a record. -/
def fieldSchema : Schema → Nat → Option Schema
  | .record _ _ fields, i => (fields[i]?).map Prod.snd
  | _, _ => none

/-- `avro_value_get_by_name` on a record. -/
def getByName (schema : Schema) (vs : List Value) (name : String) : Option Value :=
  match schema with
  | .record _ _ fields => vs[(fields.map Prod.fst).idxOf name]?
  | _ => none

/-- The field is taken by its number and set at the type that the schema has there. -/
def setField (pg : Postgres) (schema : Schema) : FieldWriter Datum := fun field column =>
  match fieldSchema schema field with
  | none => .error .avro
  | some s => (setColumn pg column linkTarget s).elim (.error .avro) .ok

namespace Typed

/-- The loop of `tuple_to_avro_row`. -/
def rowLoop (pg : Postgres) (schema : Schema) (tuple : HeapTuple Datum) :
    List Attribute → (i field : Nat) → Except PluginError (List Value)
  | [], _, _ => pure []
  | attr :: attrs, i, field =>
    if attr.attisdropped then rowLoop pg schema tuple attrs (i + 1) field
    else do
      let v ← setField pg schema field (attr.atttypid, heapGetattr tuple i)
      let vs ← rowLoop pg schema tuple attrs (i + 1) (field + 1)
      pure (v :: vs)

/-- `tuple_to_avro_row`. -/
def tupleToAvroRow (pg : Postgres) (schema : Schema) (tupdesc : TupleDesc) (tuple : HeapTuple Datum) :
    Except PluginError (List Value) :=
  rowLoop pg schema tuple tupdesc.attrs 0 0

/-- `tuple_to_avro_key`. -/
def tupleToAvroKey (pg : Postgres) (schema : Schema) (tupdesc : TupleDesc) (tuple : HeapTuple Datum)
    (rel : Table) (keyIndex : Index) : Except PluginError (List Value) :=
  keyLoopWith (setField pg schema) tupdesc rel.tupdesc tuple keyIndex.indkey 0

theorem rowLoop_eq {pg : Postgres} {schema : Schema} {tuple : HeapTuple Datum} {attrs : List Attribute} :
    ∀ {i field : Nat}, rowLoop pg schema tuple attrs i field =
      columnsLoop (setField pg schema) (rowColumnsFrom tuple attrs i) field := by
  induction attrs with
  | nil => exact rfl
  | cons attr attrs ih =>
    intro i field
    unfold rowLoop rowColumnsFrom
    split
    · exact ih
    · simp only [columnsLoop, ih]

end Typed

/-! ## §2 — A record of columns -/

section

variable {pg : Postgres} {conv : Conversions Datum} {name ns : String} {fields : List (String × Schema)}

theorem setField_eq {predef : PredefSchema} {field : Nat} {attname : String} {column : Column Datum}
    (hconv : ∀ column, columnValue conv column = avroValue pg column) (hpredef : predef.Named)
    (hfield : fields[field]? = some (attname, (schemaForOid predef column.1).1)) :
    setField pg (.record name ns fields) field column =
      writeField conv (.record name ns fields) field column := by
  obtain ⟨hlt, -⟩ := List.getElem?_eq_some_iff.mp hfield
  have hnum : field < numFields (.record name ns fields) := hlt
  simp only [setField, fieldSchema, hfield, Option.map_some, writeField, if_pos hnum,
    setColumn_schemaForOid pg hpredef, hconv]

/-- A column for each type. -/
theorem exists_live_of_types {column : Column Datum} {columns : List (Column Datum)}
    {live : List (String × Oid)} (h : (column :: columns).map Prod.fst = live.map Prod.snd) :
    ∃ attname rest, live = (attname, column.1) :: rest ∧ columns.map Prod.fst = rest.map Prod.snd := by
  cases live with
  | nil => cases h
  | cons first rest =>
    obtain ⟨hfirst, hrest⟩ := List.cons.inj h
    exact ⟨first.1, rest, by rw [hfirst], hrest⟩

/-- On fields made for these columns, the loop with the setters is the loop without. -/
theorem columnsLoop_setField (hconv : ∀ column, columnValue conv column = avroValue pg column)
    {columns : List (Column Datum)} :
    ∀ {predef : PredefSchema} {live : List (String × Oid)} {field : Nat}, predef.Named →
      fields.drop field = fieldsFor predef live → columns.map Prod.fst = live.map Prod.snd →
      columnsLoop (setField pg (.record name ns fields)) columns field =
        columnsLoop (writeField conv (.record name ns fields)) columns field := by
  induction columns with
  | nil => exact fun _ _ _ => rfl
  | cons column columns ih =>
    intro predef live field hpredef hfields htypes
    obtain ⟨attname, live, rfl, hcolumns⟩ := exists_live_of_types htypes
    have hfield : fields[field]? = some (attname, (schemaForOid predef column.1).1) := by
      rw [← List.head?_drop, hfields, fieldsFor, List.head?_cons]
    have hrest : fields.drop (field + 1) = fieldsFor (schemaForOid predef column.1).2 live := by
      rw [← List.tail_drop, hfields, fieldsFor, List.tail_cons]
    have hnamed := (declares_schemaForOid hpredef column.1).1
    rw [columnsLoop, columnsLoop, setField_eq hconv hpredef hfield, ih hnamed hrest hcolumns]

/-- The loop succeeds if every column has a value and there is a field for each. -/
theorem columnsLoop_writeField {schema : Schema} {columns : List (Column Datum)} :
    ∀ {vs : List Value} {field : Nat}, columns.mapM (columnValue conv) = some vs →
      field + columns.length ≤ numFields schema →
      columnsLoop (writeField conv schema) columns field = .ok vs := by
  induction columns with
  | nil =>
    intro vs field hvs _
    obtain rfl : [] = vs := by simpa using hvs
    rfl
  | cons column columns ih =>
    intro vs field hvs hlen
    obtain ⟨v, vs, hv, htail, rfl⟩ := mapM_cons_eq_some.mp hvs
    rw [List.length_cons] at hlen
    have hwrite : writeField conv schema field column = .ok v := by
      simp only [writeField, if_pos (show field < numFields schema by omega), hv, Option.elim_some]
    rw [columnsLoop, hwrite, ih htail (by omega)]
    rfl

theorem conforms_avroValue {predef : PredefSchema} {column : Column Datum} {v : Value}
    (hpredef : predef.Named) (h : avroValue pg column = some v) :
    conforms isPredefined (schemaForOid predef column.1).1 v := by
  rw [← setColumn_schemaForOid pg hpredef] at h
  exact (oneBranch_column pg column).sound follows_linkTarget (fun _ h => h) _ _ h

theorem conformsFields_fieldsFor {columns : List (Column Datum)} :
    ∀ {predef : PredefSchema} {live : List (String × Oid)} {vs : List Value}, predef.Named →
      columns.map Prod.fst = live.map Prod.snd → columns.mapM (avroValue pg) = some vs →
      conformsFields isPredefined (fieldsFor predef live) vs := by
  induction columns with
  | nil =>
    intro predef live vs hpredef htypes hvs
    obtain rfl : live = [] := by simpa using htypes.symm
    obtain rfl : [] = vs := by simpa using hvs
    rw [fieldsFor, conformsFields]
  | cons column columns ih =>
    intro predef live vs hpredef htypes hvs
    obtain ⟨attname, live, rfl, hcolumns⟩ := exists_live_of_types htypes
    obtain ⟨v, vs, hv, htail, rfl⟩ := mapM_cons_eq_some.mp hvs
    rw [fieldsFor, conformsFields, conformsField, Bool.and_eq_true]
    exact ⟨conforms_avroValue hpredef hv, ih (declares_schemaForOid hpredef column.1).1 hcolumns htail⟩

theorem map_fst_fieldsFor {live : List (String × Oid)} :
    ∀ {predef : PredefSchema}, (fieldsFor predef live).map Prod.fst = live.map Prod.fst := by
  induction live with
  | nil => exact rfl
  | cons column live ih =>
    intro predef
    rw [fieldsFor, List.map_cons, List.map_cons, ih]

/-- The field with the name of a column is the one at its place. -/
theorem getByName_fieldsFor {live : List (String × Oid)} {vs : List Value} {k : Nat} {attname : String}
    (hnames : (live.map Prod.fst).Nodup) (hk : (live.map Prod.fst)[k]? = some attname) :
    getByName (.record name ns (fieldsFor .none live)) vs attname = vs[k]? := by
  obtain ⟨hlt, rfl⟩ := List.getElem?_eq_some_iff.mp hk
  simp only [getByName, map_fst_fieldsFor, hnames.idxOf_getElem]

end

/-- **A record of columns is written without error and conforms to the schema made for it**, if every
column has a value. -/
theorem exists_columnsLoop {pg : Postgres} (name ns : String) {live : List (String × Oid)}
    {columns : List (Column Datum)} (htypes : columns.map Prod.fst = live.map Prod.snd)
    (hvalues : ∀ column ∈ columns, ∃ v, avroValue pg column = some v) :
    ∃ vs, columns.mapM (avroValue pg) = some vs ∧
      columnsLoop (setField pg (.record name ns (fieldsFor .none live))) columns 0 = .ok vs ∧
      conforms isPredefined (.record name ns (fieldsFor .none live)) (.record vs) := by
  obtain ⟨vs, hvs⟩ := exists_mapM_of_forall hvalues
  have hnamed := PredefSchema.none_named
  refine ⟨vs, hvs, ?_, ?_⟩
  · -- the other two functions play no part in it
    have hconv := columnValue_conversions pg (fun _ _ => true) fun _ => []
    rw [columnsLoop_setField hconv hnamed rfl htypes]
    apply columnsLoop_writeField
    · rwa [funext hconv]
    · have hlen : columns.length = (fieldsFor .none live).length := by
        rw [← List.length_map, htypes, ← List.length_map Prod.fst, map_fst_fieldsFor]
        simp
      simp only [numFields, hlen, Nat.zero_add, Nat.le_refl]
  · rw [conforms]
    exact conformsFields_fieldsFor hnamed htypes hvs

/-! ## §3 — Rows -/

section

variable (pg : Postgres) (namespaces : Namespaces) {rel : Table} {index : Index} {row tuple : HeapTuple Datum}
  {tupdesc : TupleDesc}

/-- The values of a row are of the types of their columns, and timestamps are in range. -/
structure WellTyped (rel : Table) (row : HeapTuple Datum) : Prop where
  column : ∀ (i : Nat) (attr : Attribute), rel.tupdesc.attrs[i]? = some attr → attr.attisdropped = false →
    ∀ datum ∈ heapGetattr row i, HasType attr.atttypid datum ∧ InRange pg (typeCase attr.atttypid) datum
  oid : ∀ datum ∈ row.oid, HasType OIDOID datum

/-- **The row is written as its schema declares it**: without an error, as a value of the schema, each
live column in the field that has its name. -/
def RowConforms (rel : Table) (row : HeapTuple Datum) (tupdesc : TupleDesc) (tuple : HeapTuple Datum) :
    Prop :=
  ∃ schema vs, schemaForTableRow namespaces rel.toRelation = .ok (some schema) ∧
    Typed.tupleToAvroRow pg schema tupdesc tuple = .ok vs ∧
    conforms isPredefined schema (.record vs) ∧
    ∀ (i : Nat) (attr : Attribute), rel.tupdesc.attrs[i]? = some attr → attr.attisdropped = false →
      getByName schema vs attr.attname = avroValue pg (attr.atttypid, heapGetattr row i)

theorem exists_avroValue {pg : Postgres} {typid : Oid} {value : Option Datum}
    (h : ∀ datum ∈ value, HasType typid datum ∧ InRange pg (typeCase typid) datum) :
    ∃ v, avroValue pg (typid, value) = some v := by
  cases value with
  | none =>
    exact ⟨_, (columnValue_conversions pg (fun _ _ => true) (fun _ => []) (typid, none)).symm⟩
  | some datum =>
    obtain ⟨htype, hrange⟩ := h datum rfl
    exact exists_datumValue pg htype hrange

/-- Where a live column comes from. -/
theorem exists_of_mem_rowColumnsFrom {attrs : List Attribute} {column : Column Datum} :
    ∀ {i : Nat}, column ∈ rowColumnsFrom row attrs i →
      ∃ n attr, attrs[n]? = some attr ∧ attr.attisdropped = false ∧
        column = (attr.atttypid, heapGetattr row (i + n)) := by
  induction attrs with
  | nil => intro i h; cases h
  | cons attr attrs ih =>
    intro i h
    unfold rowColumnsFrom at h
    split at h
    · obtain ⟨n, attr', hattr, hlive, rfl⟩ := ih h
      exact ⟨n + 1, attr', by simpa using hattr, hlive, by rw [Nat.add_right_comm, Nat.add_assoc]⟩
    · rename_i hlive
      rcases List.mem_cons.mp h with rfl | h
      · exact ⟨0, attr, rfl, by simpa using hlive, rfl⟩
      · obtain ⟨n, attr', hattr, hlive', rfl⟩ := ih h
        exact ⟨n + 1, attr', by simpa using hattr, hlive', by rw [Nat.add_right_comm, Nat.add_assoc]⟩

theorem map_fst_rowColumnsFrom {attrs : List Attribute} :
    ∀ {i : Nat}, (rowColumnsFrom row attrs i).map Prod.fst =
      (attrs.filter fun attr => !attr.attisdropped).map (·.atttypid) := by
  induction attrs with
  | nil => exact rfl
  | cons attr attrs ih =>
    intro i
    unfold rowColumnsFrom
    by_cases hdropped : attr.attisdropped
    · rw [if_pos hdropped, List.filter_cons_of_neg (by simp [hdropped]), ih]
    · rw [if_neg hdropped, List.filter_cons_of_pos (by simp [hdropped]), List.map_cons, List.map_cons, ih]

theorem map_fst_rowColumns (rel : Table) :
    (rowColumns rel.tupdesc row).map Prod.fst = rel.tupdesc.live.map Prod.snd := by
  rw [rowColumns, map_fst_rowColumnsFrom, TupleDesc.live, List.map_map]
  rfl

theorem Typed.tupleToAvroRow_eq_columns {pg : Postgres} {schema : Schema}
    (htuple : Delivers rel row tupdesc tuple) : Typed.tupleToAvroRow pg schema tupdesc tuple =
      columnsLoop (setField pg schema) (rowColumns rel.tupdesc row) 0 := by
  rw [Typed.tupleToAvroRow, Typed.rowLoop_eq]
  exact congrArg (columnsLoop (setField pg schema) · 0) htuple.rowColumns_eq

/-- **On the schema of the table the setters make no difference**: the row is written as by the loop that
does not look at types. -/
theorem Typed.tupleToAvroRow_eq {pg : Postgres} {conv : Conversions Datum}
    (hconv : ∀ column, columnValue conv column = avroValue pg column)
    (htuple : Delivers rel row tupdesc tuple) :
    Typed.tupleToAvroRow pg (rel.schema namespaces) tupdesc tuple =
      Ext.tupleToAvroRow conv (rel.schema namespaces) tupdesc tuple := by
  rw [Relation.schema, Typed.tupleToAvroRow_eq_columns htuple, Ext.tupleToAvroRow, Ext.rowLoop_eq]
  rw [columnsLoop_setField hconv PredefSchema.none_named rfl (map_fst_rowColumns rel), ← htuple.rowColumns_eq]
  rfl

/-- **Rows conform to the schema of their table**, if its names are all taken. -/
theorem rowConforms (hids : rel.AvroNames) (hnames : (rel.tupdesc.live.map Prod.fst).Nodup)
    (hrow : WellTyped pg rel row) (htuple : Delivers rel row tupdesc tuple) :
    RowConforms pg namespaces rel row tupdesc tuple := by
  have hvalues : ∀ column ∈ rowColumns rel.tupdesc row, ∃ v, avroValue pg column = some v := by
    intro column hmem
    obtain ⟨n, attr, hattr, hlive, rfl⟩ := exists_of_mem_rowColumnsFrom hmem
    rw [Nat.zero_add]
    exact exists_avroValue (hrow.column n attr hattr hlive)
  obtain ⟨vs, hvs, hloop, hconforms⟩ := exists_columnsLoop rel.relname _ (map_fst_rowColumns rel) hvalues
  refine ⟨_, vs, hids.schemaForTableRow_eq namespaces, (Typed.tupleToAvroRow_eq_columns htuple).trans hloop,
    hconforms, ?_⟩
  intro i attr hattr hlive
  obtain ⟨hplace, hvalue⟩ := getElem?_liveBefore row (i := 0) hattr hlive
  have hname : (rel.tupdesc.live.map Prod.fst)[liveBefore rel.tupdesc.attrs i]? = some attr.attname := by
    simp [TupleDesc.live, hplace]
  rw [Relation.schema, getByName_fieldsFor hnames hname, getElem?_of_mapM hvs hvalue, Nat.zero_add]

/-! ## §4 — Keys -/

/-- The columns of an index are not dropped, have names of their own that are Avro identifiers, and each has
the type of the column of the table that it is for. -/
structure IndexColumns (rel : Table) (index : Index) : Prop where
  names : (index.tupdesc.attrs.map (·.attname)).Nodup
  ids : ∀ attr ∈ index.tupdesc.attrs, isAvroId attr.attname
  length : index.tupdesc.attrs.length = index.indkey.length
  column : ∀ (j : Nat) (attr : Attribute) (indkey : Int), index.tupdesc.attrs[j]? = some attr →
    index.indkey[j]? = some indkey → attr.attisdropped = false ∧
      ∀ row : HeapTuple Datum, (keyColumn rel row indkey).map Prod.fst = some attr.atttypid

/-- **The key is written as its schema declares it**: without an error, as a value of the schema, each
column of the index in the field that has its name. -/
def KeyConforms (rel : Table) (index : Index) (row : HeapTuple Datum) (tupdesc : TupleDesc)
    (tuple : HeapTuple Datum) : Prop :=
  ∃ schema vs, schemaForTableKey namespaces rel = .ok (some schema) ∧
    Typed.tupleToAvroKey pg schema tupdesc tuple rel index = .ok vs ∧
    conforms isPredefined schema (.record vs) ∧
    ∀ (j : Nat) (attr : Attribute) (indkey : Int) (column : Column Datum),
      index.tupdesc.attrs[j]? = some attr → index.indkey[j]? = some indkey →
      keyColumn rel row indkey = some column → getByName schema vs attr.attname = avroValue pg column

theorem IndexColumns.live_eq (h : IndexColumns rel index) :
    index.tupdesc.live = index.tupdesc.attrs.map fun attr => (attr.attname, attr.atttypid) := by
  unfold TupleDesc.live
  rw [List.filter_eq_self.mpr]
  intro attr hmem
  obtain ⟨j, hj, hattr⟩ := List.getElem_of_mem hmem
  have hkey : j < index.indkey.length := h.length ▸ hj
  simpa using (h.column j attr _ (hattr ▸ List.getElem?_eq_getElem hj) (List.getElem?_eq_getElem hkey)).1

theorem IndexColumns.getByName_eq (h : IndexColumns rel index) {name ns : String} {vs : List Value} {j : Nat}
    {attr : Attribute} (hattr : index.tupdesc.attrs[j]? = some attr) :
    getByName (.record name ns (fieldsFor .none index.tupdesc.live)) vs attr.attname = vs[j]? := by
  have hnames : index.tupdesc.live.map Prod.fst = index.tupdesc.attrs.map (·.attname) := by
    rw [h.live_eq, List.map_map]
    rfl
  apply getByName_fieldsFor
  · rw [hnames]
    exact h.names
  · rw [hnames, List.getElem?_map, hattr, Option.map_some]

theorem IndexColumns.types_eq (h : IndexColumns rel index) {columns : List (Column Datum)}
    (hcolumns : index.indkey.mapM (keyColumn rel row) = some columns) :
    columns.map Prod.fst = index.tupdesc.live.map Prod.snd := by
  have hlen := length_of_mapM hcolumns
  rw [h.live_eq, List.map_map]
  apply List.ext_getElem
  · simp [hlen, h.length]
  · intro j hj hj'
    rw [List.length_map] at hj hj'
    have hkey : index.indkey[j]? = some index.indkey[j] := List.getElem?_eq_getElem (hlen ▸ hj)
    have hcolumn := getElem?_of_mapM hcolumns hkey
    have htype := (h.column j _ _ (List.getElem?_eq_getElem hj') hkey).2 row
    rw [← hcolumn, List.getElem?_eq_getElem hj, Option.map_some] at htype
    simpa using htype

/-- On the schema of the index the setters make no difference. -/
theorem Typed.tupleToAvroKey_eq {pg : Postgres} {conv : Conversions Datum}
    (hconv : ∀ column, columnValue conv column = avroValue pg column) (hcolumns : IndexColumns rel index)
    (hlive : ∀ indkey ∈ index.indkey, LiveColumn rel indkey) (htuple : Delivers rel row tupdesc tuple) :
    Typed.tupleToAvroKey pg (index.schema namespaces) tupdesc tuple rel index =
      Ext.tupleToAvroKey conv (index.schema namespaces) tupdesc tuple rel index := by
  obtain ⟨columns, hkey, hloop⟩ := keyLoopWith_eq (setField pg (index.schema namespaces)) htuple hlive
  obtain ⟨columns', hkey', hloop'⟩ := keyLoop_eq conv _ htuple hlive
  obtain rfl := Option.some.inj (hkey.symm.trans hkey')
  rw [Typed.tupleToAvroKey, Ext.tupleToAvroKey, hloop, hloop']
  exact columnsLoop_setField hconv PredefSchema.none_named rfl (hcolumns.types_eq hkey)

/-- The columns of a key of live columns have values. -/
theorem exists_avroValue_of_key {pg : Postgres} (hrow : WellTyped pg rel row)
    (hlive : ∀ indkey ∈ index.indkey, LiveColumn rel indkey) {columns : List (Column Datum)}
    (hcolumns : index.indkey.mapM (keyColumn rel row) = some columns) :
    ∀ column ∈ columns, ∃ v, avroValue pg column = some v := by
  intro column hmem
  obtain ⟨j, hj, rfl⟩ := List.getElem_of_mem hmem
  have hlt : j < index.indkey.length := length_of_mapM hcolumns ▸ hj
  have hkey : index.indkey[j]? = some index.indkey[j] := List.getElem?_eq_getElem hlt
  obtain ⟨hpos, attr, hattr, hnot⟩ := hlive _ (List.mem_of_getElem? hkey)
  have hcolumn := getElem?_of_mapM hcolumns hkey
  rw [keyColumn_of_live row hpos hattr hnot, List.getElem?_eq_getElem hj] at hcolumn
  rw [Option.some.inj hcolumn]
  exact exists_avroValue (hrow.column _ attr hattr hnot)

theorem IndexColumns.avroNames (h : IndexColumns rel index) (hname : isAvroId index.relname) :
    index.AvroNames := by
  refine ⟨hname, fun column hmem => ?_⟩
  rw [h.live_eq] at hmem
  obtain ⟨attr, hattr, rfl⟩ := List.mem_map.mp hmem
  exact h.ids attr hattr

/-- **Keys conform to the schema of their index**, if its name is taken and it is on live columns of the
table. -/
theorem keyConforms (hindex : tableKeyIndex rel = some index) (hcolumns : IndexColumns rel index)
    (hname : isAvroId index.relname) (hlive : ∀ indkey ∈ index.indkey, LiveColumn rel indkey)
    (hrow : WellTyped pg rel row) (htuple : Delivers rel row tupdesc tuple) :
    KeyConforms pg namespaces rel index row tupdesc tuple := by
  have hschema : schemaForTableKey namespaces rel = .ok (some (index.schema namespaces)) := by
    simp only [schemaForTableKey, hindex]
    exact (hcolumns.avroNames hname).schemaForTableRow_eq namespaces
  obtain ⟨columns, hkey, hloop⟩ := keyLoopWith_eq (setField pg (index.schema namespaces)) htuple hlive
  obtain ⟨vs, hvs, hok, hconforms⟩ := exists_columnsLoop index.relname
    (generatedSchemaNamespace ++ "." ++ namespaces index.relnamespace) (hcolumns.types_eq hkey)
    (exists_avroValue_of_key hrow hlive hkey)
  refine ⟨_, vs, hschema, (hloop 0).trans hok, hconforms, fun j attr indkey column hattr hj hcolumn => ?_⟩
  rw [Relation.schema, hcolumns.getByName_eq hattr]
  exact getElem?_of_mapM hvs ((getElem?_of_mapM hkey hj).trans hcolumn)

theorem exists_of_columnsLoop {write : FieldWriter Datum} {columns : List (Column Datum)} :
    ∀ {field j : Nat} {vs : List Value} {v : Value}, columnsLoop write columns field = .ok vs →
      vs[j]? = some v → ∃ column ∈ columns, write (field + j) column = .ok v := by
  induction columns with
  | nil =>
    intro field j vs v h hv
    cases h
    cases hv
  | cons column columns ih =>
    intro field j vs v h hv
    simp only [columnsLoop, except_bind_eq_ok] at h
    obtain ⟨first, hfirst, rest, hrest, ⟨⟩⟩ := h
    cases j with
    | zero =>
      obtain rfl : first = v := by simpa using hv
      exact ⟨column, List.mem_cons_self, hfirst⟩
    | succ j =>
      obtain ⟨column', hmem, hwrite⟩ := ih hrest (by simpa using hv)
      exact ⟨column', List.mem_cons_of_mem _ hmem, by rwa [Nat.add_right_comm, Nat.add_assoc] at hwrite⟩

/-- What the loop writes for an entry of the index is written for some column of the tuple. -/
theorem exists_of_keyLoopWith {write : FieldWriter Datum} {indkeys : List Int} {field j : Nat}
    {vs : List Value} {v : Value} (h : keyLoopWith write tupdesc rel.tupdesc tuple indkeys field = .ok vs)
    (hv : vs[j]? = some v) :
    ∃ position typid, write (field + j) (typid, heapGetattr tuple position) = .ok v := by
  obtain ⟨columns, hcolumns⟩ := exists_keyRead_of_keyLoopWith h
  rw [keyLoopWith_of_keyRead write hcolumns] at h
  obtain ⟨column, hmem, hwrite⟩ := exists_of_columnsLoop h hv
  obtain ⟨i, hi, rfl⟩ := List.getElem_of_mem hmem
  have hlt : i < indkeys.length := length_of_mapM hcolumns ▸ hi
  have hread := getElem?_of_mapM hcolumns (List.getElem?_eq_getElem hlt)
  rw [List.getElem?_eq_getElem hi] at hread
  obtain ⟨position, attr, -, -, -, hcolumn⟩ := keyRead_eq_some_iff.mp hread.symm
  exact ⟨position, attr.atttypid, hcolumn ▸ hwrite⟩

theorem oid_or_live_of_keyColumn {indkey : Int} {column : Column Datum}
    (h : keyColumn rel row indkey = some column) :
    indkey = objectIdAttributeNumber ∨ LiveColumn rel indkey := by
  unfold keyColumn at h
  split at h
  · exact .inl ‹_›
  · split at h
    · rename_i hpos
      cases hattr : rel.tupdesc.attrs[(indkey - 1).toNat]? with
      | none =>
        rw [hattr] at h
        cases h
      | some attr =>
        refine .inr ⟨hpos, attr, hattr, ?_⟩
        by_contra hdropped
        simp only [hattr, Bool.not_eq_false] at h hdropped
        rw [if_pos hdropped] at h
        cases h
    · cases h

/-- The field of a column that is null has branch 0. -/
theorem branch_of_setField {schema : Schema} {field : Nat} {typid : Oid} {v : Value}
    (h : setField pg schema field (typid, none) = .ok v) : ∃ u, v = .union 0 u := by
  unfold setField at h
  cases hs : fieldSchema schema field with
  | none => simp [hs] at h
  | some s =>
    cases hv : setColumn pg (typid, none) linkTarget s with
    | none => simp [hs, hv] at h
    | some w =>
      obtain rfl : w = v := by simpa [hs, hv] using h
      obtain ⟨-, u, -, hu⟩ := exists_of_setBranch hv
      exact ⟨u, hu⟩

/-- A key on the system column `oid` does not have the oid in its field: of a row that is null in every
column, the field is null as well. -/
theorem not_keyConforms_of_oid (hindex : tableKeyIndex rel = some index) (hcolumns : IndexColumns rel index)
    {j : Nat} (hj : index.indkey[j]? = some objectIdAttributeNumber) :
    ¬ KeyConforms pg namespaces rel index ⟨[], some (.uint32 1)⟩ rel.tupdesc ⟨[], some (.uint32 1)⟩ := by
  rintro ⟨schema, vs, hschema, hloop, -, hfields⟩
  simp only [schemaForTableKey, hindex] at hschema
  have hname : isAvroId index.relname := (isSome_schemaForTableRow hschema).symm
  rw [(hcolumns.avroNames hname).schemaForTableRow_eq] at hschema
  obtain rfl := Option.some.inj (Except.ok.inj hschema)
  obtain ⟨hlt, -⟩ := List.getElem?_eq_some_iff.mp hj
  have hattr := List.getElem?_eq_getElem (hcolumns.length ▸ hlt)
  have hvalue := hfields j _ _ _ hattr hj rfl
  rw [Relation.schema, hcolumns.getByName_eq hattr] at hvalue
  obtain ⟨position, typid, hwrite⟩ := exists_of_keyLoopWith hloop hvalue
  obtain ⟨u, hu⟩ := branch_of_setField pg hwrite
  cases hu

theorem wellTyped_nulls (rel : Table) : WellTyped pg rel ⟨[], none⟩ := by
  refine ⟨?_, ?_⟩
  · intro i attr _ _ datum hdatum
    cases hdatum
  · rintro datum ⟨⟩

/-- **Rows conform to the schema generated for their table exactly if the name of the table is taken**, and
keys exactly if the name of the key index is taken and the index is on live columns of the table only. -/
theorem rows_conform (rel : Table) (hids : ∀ column ∈ rel.tupdesc.live, isAvroId column.1)
    (hnames : (rel.tupdesc.live.map Prod.fst).Nodup) :
    ((∀ row tupdesc tuple, WellTyped pg rel row → Delivers rel row tupdesc tuple →
        RowConforms pg namespaces rel row tupdesc tuple) ↔ isAvroId rel.relname) ∧
    ∀ index, tableKeyIndex rel = some index → IndexColumns rel index →
      ((∀ row tupdesc tuple, WellTyped pg rel row → Delivers rel row tupdesc tuple →
          KeyConforms pg namespaces rel index row tupdesc tuple) ↔
        isAvroId index.relname ∧ ∀ indkey ∈ index.indkey, LiveColumn rel indkey) := by
  refine ⟨⟨?_, ?_⟩, fun index hindex hcolumns => ⟨?_, ?_⟩⟩
  · intro hrows
    obtain ⟨schema, -, hschema, -⟩ := hrows _ _ _ (wellTyped_nulls pg rel) .whole
    exact (isSome_schemaForTableRow hschema).symm
  · exact fun hname row tupdesc tuple => rowConforms pg namespaces ⟨hname, hids⟩ hnames
  · intro hkeys
    refine ⟨?_, fun indkey hmem => ?_⟩
    · obtain ⟨schema, -, hschema, -⟩ := hkeys _ _ _ (wellTyped_nulls pg rel) .whole
      simp only [schemaForTableKey, hindex] at hschema
      exact (isSome_schemaForTableRow hschema).symm
    obtain ⟨j, hlt, rfl⟩ := List.getElem_of_mem hmem
    have hj := List.getElem?_eq_getElem hlt
    have hattr := List.getElem?_eq_getElem (hcolumns.length ▸ hlt)
    obtain ⟨column, hcolumn, -⟩ := Option.map_eq_some_iff.mp ((hcolumns.column j _ _ hattr hj).2 ⟨[], none⟩)
    refine (oid_or_live_of_keyColumn hcolumn).resolve_left fun hoid => ?_
    apply not_keyConforms_of_oid pg namespaces hindex hcolumns (hoid ▸ hj)
    apply hkeys _ _ _ ⟨?_, ?_⟩ .whole
    · exact (wellTyped_nulls pg rel).column
    · rintro datum ⟨⟩
      exact .oid 1
  · exact fun h row tupdesc tuple => keyConforms pg namespaces hindex hcolumns h.1 h.2

end

/-! A calendar of years and microseconds, and a table of each kind. -/

/-- The upper and the lower half of a number. -/
def halves (n : Int64) : Int32 × Int32 :=
  (.ofBitVec (n.toBitVec.extractLsb' 32 32), .ofBitVec (n.toBitVec.extractLsb' 0 32))

def yearCalendar : Postgres where
  j2date := fun day => (day, 1, 1)
  timestamp2tm := fun micro => some (⟨(halves micro).1, 1, 1, 0, 0, 0⟩, (halves micro).2)
  timestamptz2tm := fun micro => some (⟨(halves micro).1, 1, 1, 0, 0, 0⟩, (halves micro).2, 0)
  interval2tm := fun micro day month => (⟨month, 0, day, (halves micro).1, 0, 0⟩, (halves micro).2)
  outputFunctionCall := fun _ _ => ⟨[], by decide, by decide⟩

def visitsKey : Index where
  relid := 16411
  relname := "visits_pkey"
  relnamespace := 2200
  tupdesc := ⟨[⟨"day", DATEOID, false⟩], []⟩
  indisvalid := true
  indisready := true
  indisprimary := true
  indkey := [3]
  relid_ne_zero := by decide

def visits : Table where
  relid := 16410
  relname := "visits"
  relnamespace := 2200
  tupdesc :=
    { attrs := [⟨"since", DATEOID, false⟩, ⟨"dropped.2", 0, true⟩, ⟨"day", DATEOID, false⟩]
      details := [] }
  relreplident := .default
  replicaIndex := none
  indexes := [visitsKey]

theorem rows_conform_visits :
    RowConforms yearCalendar (fun _ => "public") visits ⟨[none, none, some (.date 5)], none⟩ visits.tupdesc
      ⟨[none, none, some (.date 5)], none⟩ ∧
    KeyConforms yearCalendar (fun _ => "public") visits visitsKey ⟨[none, none, some (.date 5)], none⟩
      visits.tupdesc ⟨[none, none, some (.date 5)], none⟩ := by
  have htyped : WellTyped yearCalendar visits ⟨[none, none, some (.date 5)], none⟩ := by
    refine ⟨fun i attr hattr hlive datum hdatum => ?_, nofun⟩
    match i with
    | 0 => cases hdatum
    | 1 => cases hdatum
    | 2 =>
      cases hdatum
      cases hattr
      exact ⟨.date 5, trivial⟩
    | _ + 3 => cases hattr
  have hcolumns : IndexColumns visits visitsKey := by
    refine ⟨by decide, by decide, rfl, fun j attr indkey hattr hindkey => ?_⟩
    match j with
    | 0 =>
      cases hattr
      cases hindkey
      exact ⟨rfl, fun _ => rfl⟩
    | _ + 1 => cases hattr
  have hlive : ∀ indkey ∈ visitsKey.indkey, LiveColumn visits indkey := by
    intro indkey hmem
    obtain rfl : indkey = 3 := by simpa [visitsKey] using hmem
    exact ⟨by decide, ⟨"day", DATEOID, false⟩, rfl, rfl⟩
  obtain ⟨hrows, hkeys⟩ := rows_conform yearCalendar (fun _ => "public") visits (by decide) (by decide)
  exact ⟨hrows.mpr (by decide) _ _ _ htyped .whole,
    (hkeys visitsKey rfl hcolumns).mpr ⟨by decide, hlive⟩ _ _ _ htyped .whole⟩

/-- The replica identity of this table is a unique index on its oids. -/
def notesOid : Index where
  relid := 16421
  relname := "notes_oid"
  relnamespace := 2200
  tupdesc := ⟨[⟨"oid", OIDOID, false⟩], []⟩
  indisvalid := true
  indisready := true
  indisprimary := false
  indkey := [objectIdAttributeNumber]
  relid_ne_zero := by decide

def notes : Table where
  relid := 16420
  relname := "notes"
  relnamespace := 2200
  tupdesc := ⟨[⟨"note", TEXTOID, false⟩], []⟩
  relreplident := .index
  replicaIndex := some notesOid
  indexes := [notesOid]

def note : HeapTuple Datum := ⟨[some (.text ⟨[104, 105], by decide, by decide⟩)], some (.uint32 7)⟩

/-- The text of the note is written to the field of the oid, which is a number. -/
theorem keys_conform_not_for_oid :
    WellTyped yearCalendar notes note ∧ tableKeyIndex notes = some notesOid ∧ IndexColumns notes notesOid ∧
      ∃ schema, schemaForTableKey (fun _ => "public") notes = .ok (some schema) ∧
        Typed.tupleToAvroKey yearCalendar schema notes.tupdesc note notes notesOid = .error .avro := by
  refine ⟨⟨fun i attr hattr _ datum hdatum => ?_, ?_⟩, rfl, ⟨by decide, by decide, rfl, ?_⟩, _, rfl, rfl⟩
  · match i with
    | 0 =>
      cases hdatum
      cases hattr
      exact ⟨.text _, trivial⟩
    | _ + 1 => cases hattr
  · rintro datum ⟨⟩
    exact .oid 7
  · intro j attr indkey hattr hindkey
    match j with
    | 0 =>
      cases hattr
      cases hindkey
      exact ⟨rfl, fun _ => rfl⟩
    | _ + 1 => cases hattr

end BottledWater.Ext
