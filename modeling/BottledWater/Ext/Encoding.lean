/-
# BottledWater.Ext.Encoding — the encodings of rows and keys, column by column.

What the loops of `tuple_to_avro_row` and `tuple_to_avro_key` come to, in terms of the columns of a row:
the row is the record of its live columns (`encodeRow_eq_ok`), and the key is the record of the columns
that the key index names (`extractTupleKey_eq_ok`) — the latter if these are live user columns of the
table.  Both hold for a tuple with the descriptor of the table and for one of a result set, which does
not have the dropped columns.
-/
import BottledWater.Ext.KeyPosition
import BottledWater.Lib.Proc

namespace BottledWater.Ext

open BottledWater.Lib BottledWater.Lib.Avro BottledWater.Protocol

/-! ## §1 — Columns -/

section

variable {δ : Type}

/-- The type and the value of a column. -/
abbrev Column (δ : Type) := Oid × Option δ

/-- The Avro value of a column. -/
def columnValue (conv : Conversions δ) (column : Column δ) : Option Value :=
  match column.2 with
  | none => some (.union 0 .null)
  | some datum => conv.updateAvroWithDatum column.1 datum

/-- **`encodeColumns conv columns`** — the encoding of a record with these columns. -/
def encodeColumns (conv : Conversions δ) (columns : List (Column δ)) : Option Bytes :=
  (columns.mapM (columnValue conv)).map fun fields => encode (.record fields)

/-- The live columns of a tuple, from attribute `i` on. -/
def rowColumnsFrom (tuple : HeapTuple δ) : List Attribute → Nat → List (Column δ)
  | [], _ => []
  | attr :: attrs, i =>
    if attr.attisdropped then rowColumnsFrom tuple attrs (i + 1)
    else (attr.atttypid, heapGetattr tuple i) :: rowColumnsFrom tuple attrs (i + 1)

def rowColumns (tupdesc : TupleDesc) (tuple : HeapTuple δ) : List (Column δ) :=
  rowColumnsFrom tuple tupdesc.attrs 0

/-- `ObjectIdAttributeNumber`, the number of the system column `oid`. -/
def objectIdAttributeNumber : Int := -2

/-- The column of a row that a number of the index's column list stands for. -/
def keyColumn (rel : Table) (row : HeapTuple δ) (indkey : Int) : Option (Column δ) :=
  if indkey = objectIdAttributeNumber then some (OIDOID, row.oid)
  else if 0 < indkey then
    match rel.tupdesc.attrs[(indkey - 1).toNat]? with
    | some attr =>
      if attr.attisdropped then none else some (attr.atttypid, heapGetattr row (indkey - 1).toNat)
    | none => none
  else none

/-- **`keyColumns rel index row`** — the key of a row. -/
def keyColumns (rel : Table) (index : Index) (row : HeapTuple δ) : Option (List (Column δ)) :=
  index.indkey.mapM (keyColumn rel row)

/-- **`encodedRow conv rel row`** — the encoding of a row of the table. -/
def encodedRow (conv : Conversions δ) (rel : Table) (row : HeapTuple δ) : Option Bytes :=
  encodeColumns conv (rowColumns rel.tupdesc row)

/-- **`encodedKey conv rel index row`** — the encoding of its key. -/
def encodedKey (conv : Conversions δ) (rel : Table) (index : Index) (row : HeapTuple δ) :
    Option Bytes :=
  (keyColumns rel index row).bind (encodeColumns conv)

/-- The number stands for a column of the table that is not dropped. -/
def LiveColumn (rel : Table) (indkey : Int) : Prop :=
  0 < indkey ∧ ∃ attr, rel.tupdesc.attrs[(indkey - 1).toNat]? = some attr ∧ attr.attisdropped = false

theorem keyColumn_of_live {rel : Table} {indkey : Int} {attr : Attribute} (row : HeapTuple δ)
    (hpos : 0 < indkey) (hattr : rel.tupdesc.attrs[(indkey - 1).toNat]? = some attr)
    (hlive : attr.attisdropped = false) :
    keyColumn rel row indkey = some (attr.atttypid, heapGetattr row (indkey - 1).toNat) := by
  have hoid : indkey ≠ objectIdAttributeNumber := by
    unfold objectIdAttributeNumber
    omega
  simp only [keyColumn, if_neg hoid, if_pos hpos, hattr, hlive, Bool.false_eq_true, if_false]

/-- How a row comes in a tuple: as it is, or without the dropped columns. -/
inductive Delivers (rel : Table) (row : HeapTuple δ) : TupleDesc → HeapTuple δ → Prop
  | whole : Delivers rel row rel.tupdesc row
  | withoutDropped {tupdesc : TupleDesc} {tuple : HeapTuple δ}
      (hattrs : tupdesc.attrs = rel.tupdesc.attrs.filter fun attr => !attr.attisdropped)
      (hvalues : tuple.values = (rowColumns rel.tupdesc row).map Prod.snd) :
      Delivers rel row tupdesc tuple

/-! ## §2 — Rows -/

variable {conv : Conversions δ}

/-- What is written at a field of the record for a column, or the error. -/
abbrev FieldWriter (δ : Type) := Nat → Column δ → Except PluginError Value

/-- The fields of a record, written column by column. -/
def columnsLoop (write : FieldWriter δ) :
    List (Column δ) → (field : Nat) → Except PluginError (List Value)
  | [], _ => pure []
  | column :: columns, field => do
    let v ← write field column
    let vs ← columnsLoop write columns (field + 1)
    pure (v :: vs)

/-- The Avro value of the column, if the schema has the field. -/
def writeField (conv : Conversions δ) (schema : Schema) : FieldWriter δ := fun field column =>
  if field < numFields schema then (columnValue conv column).elim (.error .avro) .ok else throw .avro

theorem columnsLoop_eq_ok {schema : Schema} {columns : List (Column δ)} :
    ∀ {field : Nat} {vs : List Value}, columnsLoop (writeField conv schema) columns field = .ok vs →
      columns.mapM (columnValue conv) = some vs := by
  induction columns with
  | nil =>
    intro field vs h
    cases h
    rfl
  | cons column columns ih =>
    intro field vs h
    simp only [columnsLoop, writeField, except_bind_eq_ok] at h
    obtain ⟨v, hv, vs, hvs, ⟨⟩⟩ := h
    split at hv
    · cases hcolumn : columnValue conv column with
      | none => simp [hcolumn] at hv
      | some w =>
        obtain rfl : w = v := by simpa [hcolumn] using hv
        exact mapM_cons_eq_some.mpr ⟨w, vs, hcolumn, ih hvs, rfl⟩
    · cases hv

theorem fieldValue_eq (attr : Attribute) (datum : Option δ) :
    fieldValue conv attr datum = (columnValue conv (attr.atttypid, datum)).elim (.error .avro) .ok := by
  cases datum with
  | none => rfl
  | some d =>
    simp only [fieldValue, columnValue]
    cases conv.updateAvroWithDatum attr.atttypid d <;> rfl

/-- The loop of `tuple_to_avro_row` writes the live columns. -/
theorem rowLoop_eq {schema : Schema} {tuple : HeapTuple δ} {attrs : List Attribute} :
    ∀ {i field : Nat}, rowLoop conv schema tuple attrs i field =
      columnsLoop (writeField conv schema) (rowColumnsFrom tuple attrs i) field := by
  induction attrs with
  | nil => exact rfl
  | cons attr attrs ih =>
    intro i field
    unfold rowLoop rowColumnsFrom
    split
    · exact ih
    · rw [columnsLoop, writeField, ← fieldValue_eq]
      split
      · simp only [ih]
      · rfl

theorem eq_of_writeRecord {schema : Schema} {fields : List Value} {b : Bytes}
    (h : writeRecord schema fields = .ok b) : b = encode (.record fields) := by
  unfold writeRecord at h
  split at h
  · exact eq_of_tryWriting h
  · cases h

/-- The tuple of a result set has the live columns of the row. -/
theorem rowColumnsFrom_filter {row tuple : HeapTuple δ} {attrs : List Attribute} :
    ∀ {i j : Nat},
      (∀ n, heapGetattr tuple (j + n) = (((rowColumnsFrom row attrs i).map Prod.snd)[n]?).join) →
      rowColumnsFrom tuple (attrs.filter fun attr => !attr.attisdropped) j =
        rowColumnsFrom row attrs i := by
  induction attrs with
  | nil => exact fun _ => rfl
  | cons attr attrs ih =>
    intro i j h
    unfold rowColumnsFrom at h
    by_cases hdropped : attr.attisdropped
    · rw [List.filter_cons_of_neg (by simp [hdropped])]
      rw [if_pos hdropped] at h
      rw [ih h]
      conv_rhs => rw [rowColumnsFrom, if_pos hdropped]
    · rw [List.filter_cons_of_pos (by simp [hdropped])]
      rw [if_neg hdropped] at h
      -- the first value is that of this column, the others are those of the columns behind it
      have hfirst : heapGetattr tuple j = heapGetattr row i := by simpa using h 0
      have hrest : ∀ n, heapGetattr tuple (j + 1 + n) =
          (((rowColumnsFrom row attrs (i + 1)).map Prod.snd)[n]?).join := by
        intro n
        have := h (n + 1)
        rwa [List.map_cons, List.getElem?_cons_succ, ← Nat.add_assoc, Nat.add_right_comm] at this
      simp only [rowColumnsFrom, if_neg hdropped, hfirst, ih hrest]

theorem Delivers.rowColumns_eq {rel : Table} {row tuple : HeapTuple δ} {tupdesc : TupleDesc}
    (h : Delivers rel row tupdesc tuple) : rowColumns tupdesc tuple = rowColumns rel.tupdesc row := by
  cases h with
  | whole => rfl
  | withoutDropped hattrs hvalues =>
    unfold rowColumns
    rw [hattrs]
    apply rowColumnsFrom_filter
    intro n
    rw [Nat.zero_add, heapGetattr, hvalues]
    rfl

/-- **A row is encoded as the record of its live columns.** -/
theorem encodeRow_eq_ok {entry : SchemaCacheEntry} {rel : Table} {row tuple : HeapTuple δ}
    {tupdesc : TupleDesc} {b : Bytes} (hrow : Delivers rel row tupdesc tuple)
    (h : encodeRow conv entry tupdesc tuple = .ok b) :
    encodedRow conv rel row = some b := by
  simp only [encodeRow, tupleToAvroRow, except_bind_eq_ok] at h
  obtain ⟨fields, hfields, hwrite⟩ := h
  obtain rfl := eq_of_writeRecord hwrite
  rw [rowLoop_eq] at hfields
  have hcolumns := columnsLoop_eq_ok hfields
  rw [encodedRow, ← hrow.rowColumns_eq]
  simp [encodeColumns, rowColumns, hcolumns]

/-! ## §3 — Keys -/

/-- Where a live column and its value stand when the dropped columns are left out. -/
theorem getElem?_liveBefore (row : HeapTuple δ) {attrs : List Attribute} :
    ∀ {n i : Nat} {attr : Attribute}, attrs[n]? = some attr → attr.attisdropped = false →
      (attrs.filter fun attr => !attr.attisdropped)[liveBefore attrs n]? = some attr ∧
        (rowColumnsFrom row attrs i)[liveBefore attrs n]? =
          some (attr.atttypid, heapGetattr row (i + n)) := by
  induction attrs with
  | nil => intro n i attr h; simp at h
  | cons first attrs ih =>
    intro n i attr h hlive
    cases n with
    | zero =>
      obtain rfl : first = attr := by simpa using h
      simp [liveBefore, rowColumnsFrom, hlive]
    | succ n =>
      have h' : attrs[n]? = some attr := by simpa using h
      obtain ⟨hattr, hvalue⟩ := ih (i := i + 1) h' hlive
      rw [show i + 1 + n = i + (n + 1) by omega] at hvalue
      cases hdropped : first.attisdropped with
      | true =>
        have hcount : liveBefore (first :: attrs) (n + 1) = liveBefore attrs n := by
          simp [liveBefore, hdropped]
        rw [hcount, rowColumnsFrom, if_pos hdropped, List.filter_cons_of_neg (by simp [hdropped])]
        exact ⟨hattr, hvalue⟩
      | false =>
        have hcount : liveBefore (first :: attrs) (n + 1) = liveBefore attrs n + 1 := by
          simp [liveBefore, hdropped]
        rw [hcount, rowColumnsFrom, if_neg (by simp [hdropped]),
          List.filter_cons_of_pos (by simp [hdropped])]
        exact ⟨hattr, hvalue⟩

/-- The live columns from a position on. -/
theorem getElem?_rowColumnsFrom_liveBefore {row : HeapTuple δ} {attrs : List Attribute} :
    ∀ {n i : Nat}, (rowColumnsFrom row attrs i)[liveBefore attrs n]? =
      (rowColumnsFrom row (attrs.drop n) (i + n)).head? := by
  induction attrs with
  | nil =>
    intro n i
    simp [rowColumnsFrom]
  | cons attr attrs ih =>
    intro n i
    cases n with
    | zero => simp [liveBefore, List.head?_eq_getElem?]
    | succ n =>
      rw [List.drop_succ_cons, show i + (n + 1) = i + 1 + n by omega, ← ih, rowColumnsFrom]
      cases hdropped : attr.attisdropped <;> simp [liveBefore, hdropped]

/-- The loop of `tuple_to_avro_key`, with what is done for a column as a parameter. -/
def keyLoopWith (write : FieldWriter δ) (tupdesc relTupdesc : TupleDesc) (tuple : HeapTuple δ) :
    List Int → (field : Nat) → Except PluginError (List Value)
  | [], _ => pure []
  | indkey :: indkeys, field => do
    let attnum := indkey - 1
    let tupI ← tuplePosition relTupdesc.attrs tupdesc.attrs attnum.toNat 0 0
    match tupdesc.attrs[tupI]? with
    | none => throw (.nonExistentAttribute attnum)
    | some attr =>
      if attr.attisdropped then throw (.nonExistentAttribute attnum)
      else do
        let v ← write field (attr.atttypid, heapGetattr tuple tupI)
        let vs ← keyLoopWith write tupdesc relTupdesc tuple indkeys (field + 1)
        pure (v :: vs)

theorem keyLoop_eq_with {schema : Schema} {tupdesc relTupdesc : TupleDesc} {tuple : HeapTuple δ}
    {indkeys : List Int} : ∀ {field : Nat}, keyLoop conv schema tupdesc relTupdesc tuple indkeys field =
      keyLoopWith (writeField conv schema) tupdesc relTupdesc tuple indkeys field := by
  induction indkeys with
  | nil => exact rfl
  | cons indkey indkeys ih =>
    intro field
    unfold keyLoop keyLoopWith
    simp only [writeField, ← fieldValue_eq, ih]
    congr 1
    funext tupI
    cases tupdesc.attrs[tupI]? with
    | none => rfl
    | some attr =>
      by_cases hdropped : attr.attisdropped
      · simp only [if_pos hdropped]
      · by_cases hfield : field < numFields schema
        · simp only [if_neg hdropped, if_pos hfield]
        · simp only [if_neg hdropped, if_neg hfield]
          rfl

/-- The column that the loop takes for an entry of the index. -/
def keyRead (rel : Table) (tupdesc : TupleDesc) (tuple : HeapTuple δ) (indkey : Int) : Option (Column δ) :=
  match tuplePosition rel.tupdesc.attrs tupdesc.attrs (indkey - 1).toNat 0 0 with
  | .error _ => none
  | .ok position =>
    match tupdesc.attrs[position]? with
    | none => none
    | some attr => if attr.attisdropped then none else some (attr.atttypid, heapGetattr tuple position)

theorem keyRead_eq_some_iff {rel : Table} {tupdesc : TupleDesc} {tuple : HeapTuple δ} {indkey : Int}
    {column : Column δ} : keyRead rel tupdesc tuple indkey = some column ↔ ∃ position attr,
      tuplePosition rel.tupdesc.attrs tupdesc.attrs (indkey - 1).toNat 0 0 = .ok position ∧
      tupdesc.attrs[position]? = some attr ∧ attr.attisdropped = false ∧
      column = (attr.atttypid, heapGetattr tuple position) := by
  unfold keyRead
  cases hposition : tuplePosition rel.tupdesc.attrs tupdesc.attrs (indkey - 1).toNat 0 0 with
  | error e => simp
  | ok position =>
    cases hattr : tupdesc.attrs[position]? with
    | none => simp [hattr]
    | some attr =>
      cases hdropped : attr.attisdropped with
      | true => simp [hattr, hdropped]
      | false =>
        simp only [hattr, hdropped, Bool.false_eq_true, if_false, Option.some.injEq, Except.ok.injEq]
        exact ⟨fun h => ⟨position, attr, rfl, hattr, hdropped, h.symm⟩,
          fun ⟨_, _, hsame, hattr', _, h⟩ => by cases hsame; cases hattr.symm.trans hattr'; exact h.symm⟩

/-- An entry for which a column is taken. -/
theorem keyLoopWith_taken {write : FieldWriter δ} {rel : Table} {tuple : HeapTuple δ} {tupdesc : TupleDesc}
    {indkey : Int} {indkeys : List Int} {field position : Nat} {attr : Attribute}
    (hposition : tuplePosition rel.tupdesc.attrs tupdesc.attrs (indkey - 1).toNat 0 0 = .ok position)
    (hattr : tupdesc.attrs[position]? = some attr) (hlive : attr.attisdropped = false) :
    keyLoopWith write tupdesc rel.tupdesc tuple (indkey :: indkeys) field =
      (do
        let v ← write field (attr.atttypid, heapGetattr tuple position)
        let vs ← keyLoopWith write tupdesc rel.tupdesc tuple indkeys (field + 1)
        pure (v :: vs)) := by
  simp only [keyLoopWith, hposition, bind, Except.bind]
  rw [hattr]
  simp only [hlive, Bool.false_eq_true, if_false]

/-- The loop writes the columns that it takes. -/
theorem keyLoopWith_of_keyRead (write : FieldWriter δ) {rel : Table} {tuple : HeapTuple δ}
    {tupdesc : TupleDesc} {indkeys : List Int} :
    ∀ {columns : List (Column δ)} {field : Nat}, indkeys.mapM (keyRead rel tupdesc tuple) = some columns →
      keyLoopWith write tupdesc rel.tupdesc tuple indkeys field = columnsLoop write columns field := by
  induction indkeys with
  | nil =>
    intro columns field h
    obtain rfl : [] = columns := by simpa using h
    rfl
  | cons indkey indkeys ih =>
    intro columns field h
    obtain ⟨column, columns', hcolumn, hcolumns, rfl⟩ := mapM_cons_eq_some.mp h
    obtain ⟨position, attr, hposition, hattr, hlive, rfl⟩ := keyRead_eq_some_iff.mp hcolumn
    rw [columnsLoop, ← ih hcolumns]
    exact keyLoopWith_taken hposition hattr hlive

/-- If it succeeds, there is a column for every entry. -/
theorem exists_keyRead_of_keyLoopWith {write : FieldWriter δ} {rel : Table} {tuple : HeapTuple δ}
    {tupdesc : TupleDesc} {indkeys : List Int} :
    ∀ {field : Nat} {vs : List Value},
      keyLoopWith write tupdesc rel.tupdesc tuple indkeys field = .ok vs →
      ∃ columns, indkeys.mapM (keyRead rel tupdesc tuple) = some columns := by
  induction indkeys with
  | nil => exact fun _ => ⟨[], rfl⟩
  | cons indkey indkeys ih =>
    intro field vs h
    simp only [keyLoopWith, except_bind_eq_ok] at h
    obtain ⟨position, hposition, h⟩ := h
    cases hattr : tupdesc.attrs[position]? with
    | none => simp [hattr, throw, throwThe, MonadExceptOf.throw] at h
    | some attr =>
      simp only [hattr] at h
      split at h
      · cases h
      · rename_i hlive
        simp only [except_bind_eq_ok] at h
        obtain ⟨v, -, rest, hrest, -⟩ := h
        obtain ⟨columns, hcolumns⟩ := ih hrest
        have hread : keyRead rel tupdesc tuple indkey = some (attr.atttypid, heapGetattr tuple position) :=
          keyRead_eq_some_iff.mpr ⟨position, attr, hposition, hattr, by simpa using hlive, rfl⟩
        exact ⟨_, mapM_cons_eq_some.mpr ⟨_, columns, hread, hcolumns, rfl⟩⟩

theorem Delivers.exists_format {rel : Table} {row tuple : HeapTuple δ} {tupdesc : TupleDesc}
    (h : Delivers rel row tupdesc tuple) :
    ∃ format : TupleFormat, tupdesc.attrs = format.attrs rel.tupdesc.attrs := by
  cases h with
  | whole => exact ⟨.whole, rfl⟩
  | withoutDropped hattrs _ => exact ⟨.withoutDropped, hattrs⟩

/-- The first live column of a row from the number of an entry on, where a number below 1 counts as 1. -/
def columnFrom (rel : Table) (row : HeapTuple δ) (indkey : Int) : Option (Column δ) :=
  (rowColumnsFrom row (rel.tupdesc.attrs.drop (attrIndex indkey)) (attrIndex indkey)).head?

/-- For a live column of the table, it is the column itself. -/
theorem columnFrom_of_live {rel : Table} (row : HeapTuple δ) {indkey : Int} (hlive : LiveColumn rel indkey) :
    columnFrom rel row indkey = keyColumn rel row indkey := by
  obtain ⟨hpos, attr, hattr, hnot⟩ := hlive
  obtain ⟨hlt, hget⟩ := List.getElem?_eq_some_iff.mp hattr
  rw [columnFrom, attrIndex, List.drop_eq_getElem_cons hlt, hget, rowColumnsFrom, if_neg (by simp [hnot]),
    List.head?_cons, keyColumn_of_live row hpos hattr hnot]

/-- **What the loop takes for an entry of the index**: the first live column of the row from its number
on. -/
theorem columnFrom_of_keyRead {rel : Table} {row tuple : HeapTuple δ} {tupdesc : TupleDesc} {indkey : Int}
    {column : Column δ} (hrow : Delivers rel row tupdesc tuple)
    (h : keyRead rel tupdesc tuple indkey = some column) : columnFrom rel row indkey = some column := by
  obtain ⟨format, htupdesc⟩ := hrow.exists_format
  obtain ⟨position, attr, hposition, hattr, hlive, rfl⟩ := keyRead_eq_some_iff.mp h
  obtain rfl := eq_place_of_tuplePosition htupdesc hposition
  obtain ⟨-, hcolumn⟩ := getElem?_liveBefore tuple (i := 0) hattr hlive
  -- the tuple has the live columns of the row, as many of them before this one
  have hcolumns : rowColumnsFrom tuple tupdesc.attrs 0 = rowColumnsFrom row rel.tupdesc.attrs 0 :=
    hrow.rowColumns_eq
  rw [Nat.zero_add, hcolumns, htupdesc, liveBefore_place, getElem?_rowColumnsFrom_liveBefore,
    Nat.zero_add] at hcolumn
  exact hcolumn

/-- For a live column of the table, the column taken is the column itself. -/
theorem keyRead_of_live {rel : Table} {row tuple : HeapTuple δ} {tupdesc : TupleDesc} {indkey : Int}
    (hrow : Delivers rel row tupdesc tuple) (hlive : LiveColumn rel indkey) :
    keyRead rel tupdesc tuple indkey = keyColumn rel row indkey := by
  obtain ⟨hpos, attr, hattr, hnot⟩ := hlive
  obtain ⟨format, htupdesc⟩ := hrow.exists_format
  obtain ⟨position, tupAttr, hposition, htup, htupLive⟩ := exists_position_of_live htupdesc hattr hnot
  have hread : keyRead rel tupdesc tuple indkey = some (tupAttr.atttypid, heapGetattr tuple position) :=
    keyRead_eq_some_iff.mpr ⟨position, tupAttr, hposition, htup, htupLive, rfl⟩
  rw [hread, ← columnFrom_of_live row ⟨hpos, attr, hattr, hnot⟩, columnFrom_of_keyRead hrow hread]

/-- So the loop writes the columns of the index, if these are live columns. -/
theorem keyLoopWith_eq (write : FieldWriter δ) {rel : Table} {row tuple : HeapTuple δ} {tupdesc : TupleDesc}
    (hrow : Delivers rel row tupdesc tuple) {indkeys : List Int}
    (hlive : ∀ indkey ∈ indkeys, LiveColumn rel indkey) :
    ∃ columns, indkeys.mapM (keyColumn rel row) = some columns ∧
      ∀ field, keyLoopWith write tupdesc rel.tupdesc tuple indkeys field =
        columnsLoop write columns field := by
  obtain ⟨columns, hcolumns⟩ : ∃ columns, indkeys.mapM (keyColumn rel row) = some columns := by
    apply exists_mapM_of_forall
    intro indkey hmem
    obtain ⟨hpos, attr, hattr, hnot⟩ := hlive indkey hmem
    exact ⟨_, keyColumn_of_live row hpos hattr hnot⟩
  refine ⟨columns, hcolumns, fun field => keyLoopWith_of_keyRead write ?_⟩
  rw [← hcolumns]
  exact mapM_congr fun indkey hmem => keyRead_of_live hrow (hlive indkey hmem)

theorem keyLoop_eq (conv : Conversions δ) (schema : Schema) {rel : Table} {row tuple : HeapTuple δ}
    {tupdesc : TupleDesc} (hrow : Delivers rel row tupdesc tuple) {indkeys : List Int}
    (hlive : ∀ indkey ∈ indkeys, LiveColumn rel indkey) :
    ∃ columns, indkeys.mapM (keyColumn rel row) = some columns ∧
      ∀ field, keyLoop conv schema tupdesc rel.tupdesc tuple indkeys field =
        columnsLoop (writeField conv schema) columns field := by
  obtain ⟨columns, hcolumns, hloop⟩ := keyLoopWith_eq (writeField conv schema) hrow hlive
  exact ⟨columns, hcolumns, fun field => keyLoop_eq_with.trans (hloop field)⟩

/-- **The key of a row is the record of the columns of the index**, if these are live columns. -/
theorem extractTupleKey_eq_ok {entry : SchemaCacheEntry} {rel : Table} {index : Index}
    {row tuple : HeapTuple δ} {tupdesc : TupleDesc} {k : Option Bytes}
    (hindex : tableKeyIndex rel = some index) (hschema : entry.keySchema.isSome)
    (hlive : ∀ indkey ∈ index.indkey, LiveColumn rel indkey) (hrow : Delivers rel row tupdesc tuple)
    (h : extractTupleKey conv entry rel tupdesc tuple = .ok k) :
    ∃ b, k = some b ∧ encodedKey conv rel index row = some b := by
  obtain ⟨schema, hschema⟩ := Option.isSome_iff_exists.mp hschema
  simp only [extractTupleKey, hschema, hindex, tupleToAvroKey, except_bind_eq_ok] at h
  obtain ⟨fields, hfields, b, hwrite, ⟨⟩⟩ := h
  obtain rfl := eq_of_writeRecord hwrite
  obtain ⟨columns, hcolumns, hloop⟩ := keyLoop_eq conv schema hrow hlive
  rw [hloop] at hfields
  exact ⟨_, rfl, by simp [encodedKey, keyColumns, hcolumns, encodeColumns, columnsLoop_eq_ok hfields]⟩

/-! ## §4 — Names

A row is written only if its schema has a field for each of its columns, and then the names of the columns
are all taken. -/

theorem length_rowColumnsFrom (tuple : HeapTuple δ) (attrs : List Attribute) :
    ∀ i, (rowColumnsFrom tuple attrs i).length = (attrs.filter fun attr => !attr.attisdropped).length := by
  induction attrs with
  | nil => exact fun _ => rfl
  | cons attr attrs ih =>
    intro i
    unfold rowColumnsFrom
    by_cases hdropped : attr.attisdropped
    · rw [if_pos hdropped, List.filter_cons_of_neg (by simp [hdropped]), ih]
    · rw [if_neg hdropped, List.filter_cons_of_pos (by simp [hdropped]), List.length_cons, List.length_cons, ih]

theorem length_of_writeRecord {schema : Schema} {fields : List Value} {b : Bytes}
    (h : writeRecord schema fields = .ok b) : fields.length = numFields schema := by
  unfold writeRecord at h
  split at h
  · assumption
  · cases h

theorem Delivers.length_live {rel : Table} {row tuple : HeapTuple δ} {tupdesc : TupleDesc}
    (h : Delivers rel row tupdesc tuple) : tupdesc.live.length = rel.tupdesc.live.length := by
  cases h with
  | whole => rfl
  | withoutDropped hattrs _ => simp [TupleDesc.live, hattrs]

theorem numFields_of_encodeRow {entry : SchemaCacheEntry} {tupdesc : TupleDesc} {tuple : HeapTuple δ} {b : Bytes}
    (h : encodeRow conv entry tupdesc tuple = .ok b) : numFields entry.rowSchema = tupdesc.live.length := by
  simp only [encodeRow, tupleToAvroRow, rowLoop_eq, except_bind_eq_ok] at h
  obtain ⟨vs, hvs, hwrite⟩ := h
  rw [← length_of_writeRecord hwrite, length_of_mapM (columnsLoop_eq_ok hvs), length_rowColumnsFrom,
    TupleDesc.live, List.length_map]

/-- A schema with a field for each column is that of a relation whose names are all taken. -/
theorem avroNames_of_numFields {namespaces : Namespaces} {rel : Relation} {schema : Schema}
    (h : schemaForTableRow namespaces rel = .ok (some schema))
    (hfields : numFields schema = rel.tupdesc.live.length) : rel.AvroNames := by
  have hname : isAvroId rel.relname := (isSome_schemaForTableRow h).symm
  obtain ⟨fields, hlive, hrecord⟩ := schemaForTableRow_eq_ok.mp h
  obtain rfl : .record rel.relname _ fields = schema := by simpa [avroSchemaRecord, hname] using hrecord
  have hcount := (length_of_schemaForLive hlive).symm.trans hfields
  rw [List.countP_eq_length] at hcount
  exact ⟨hname, fun column hmem => (Bool.and_eq_true _ _ ▸ hcount column hmem).2⟩

/-- **A row that was encoded is of a table whose names are taken.** -/
theorem avroNames_of_encodeRow {namespaces : Namespaces} {entry : SchemaCacheEntry} {rel : Table}
    {tupdesc : TupleDesc} {tuple : HeapTuple δ} {b : Bytes}
    (hentry : schemaForTableRow namespaces rel.toRelation = .ok (some entry.rowSchema))
    (hlive : tupdesc.live.length = rel.tupdesc.live.length) (h : encodeRow conv entry tupdesc tuple = .ok b) :
    rel.AvroNames :=
  avroNames_of_numFields hentry ((numFields_of_encodeRow h).trans hlive)

/-! ## §5 — Snapshot and stream -/

theorem Delivers.encodeRow_eq {entry : SchemaCacheEntry} {rel : Table} {row tuple : HeapTuple δ}
    {tupdesc : TupleDesc} (h : Delivers rel row tupdesc tuple) :
    encodeRow conv entry tupdesc tuple = encodeRow conv entry rel.tupdesc row := by
  have hcolumns := h.rowColumns_eq
  unfold rowColumns at hcolumns
  simp only [encodeRow, tupleToAvroRow, rowLoop_eq, hcolumns]

theorem Delivers.tupleToAvroKey_eq {schema : Schema} {rel : Table} {index : Index}
    {row tuple : HeapTuple δ} {tupdesc : TupleDesc} (h : Delivers rel row tupdesc tuple)
    (hlive : ∀ indkey ∈ index.indkey, LiveColumn rel indkey) :
    tupleToAvroKey conv schema tupdesc tuple rel index =
      tupleToAvroKey conv schema rel.tupdesc row rel index := by
  obtain ⟨columns, hcolumns, hloop⟩ := keyLoop_eq conv schema h hlive
  obtain ⟨columns', hcolumns', hloop'⟩ := keyLoop_eq conv schema (.whole : Delivers rel row rel.tupdesc row) hlive
  obtain rfl := Option.some.inj (hcolumns.symm.trans hcolumns')
  rw [tupleToAvroKey, hloop, tupleToAvroKey, hloop']

theorem Delivers.extractTupleKey_eq {entry : SchemaCacheEntry} {rel : Table} {index : Index}
    {row tuple : HeapTuple δ} {tupdesc : TupleDesc} (h : Delivers rel row tupdesc tuple)
    (hindex : tableKeyIndex rel = some index) (hlive : ∀ indkey ∈ index.indkey, LiveColumn rel indkey) :
    extractTupleKey conv entry rel tupdesc tuple = extractTupleKey conv entry rel rel.tupdesc row := by
  cases hschema : entry.keySchema with
  | none => simp only [extractTupleKey, hschema]
  | some schema => simp only [extractTupleKey, hschema, hindex, h.tupleToAvroKey_eq hlive]

/-- **Snapshot and stream encode a row identically**, whatever columns have been dropped: the bytes of the
key and of the row do not depend on whether the tuple has the dropped columns.  In both forms the fields
of the key are the indexed columns in their order, and the search for a column stays within the tuple. -/
theorem snapshot_encodes_as_stream (conv : Conversions δ) (entry : SchemaCacheEntry) {rel : Table}
    {index : Index} {row tuple : HeapTuple δ} {tupdesc : TupleDesc}
    (hindex : tableKeyIndex rel = some index) (hlive : ∀ indkey ∈ index.indkey, LiveColumn rel indkey)
    (hrow : Delivers rel row tupdesc tuple) :
    extractTupleKey conv entry rel tupdesc tuple = extractTupleKey conv entry rel rel.tupdesc row ∧
    encodeRow conv entry tupdesc tuple = encodeRow conv entry rel.tupdesc row ∧
    (∀ schema fields, tupleToAvroKey conv schema tupdesc tuple rel index = .ok fields →
      ∀ (j : Nat) (indkey : Int), index.indkey[j]? = some indkey →
        ∃ attr, rel.tupdesc.attrs[(indkey - 1).toNat]? = some attr ∧
          fields[j]? = columnValue conv (attr.atttypid, heapGetattr row (indkey - 1).toNat)) ∧
    ∀ indkey ∈ index.indkey, ∃ position < tupdesc.attrs.length,
      tuplePosition rel.tupdesc.attrs tupdesc.attrs (indkey - 1).toNat 0 0 = .ok position := by
  refine ⟨hrow.extractTupleKey_eq hindex hlive, hrow.encodeRow_eq, ?_, ?_⟩
  · intro schema fields hfields j indkey hj
    obtain ⟨hpos, attr, hattr, hnot⟩ := hlive indkey (List.mem_of_getElem? hj)
    obtain ⟨columns, hcolumns, hloop⟩ := keyLoop_eq conv schema hrow hlive
    have hcolumn : columns[j]? = some (attr.atttypid, heapGetattr row (indkey - 1).toNat) := by
      rw [getElem?_of_mapM hcolumns hj, keyColumn_of_live row hpos hattr hnot]
    rw [tupleToAvroKey, hloop] at hfields
    exact ⟨attr, hattr, getElem?_of_mapM (columnsLoop_eq_ok hfields) hcolumn⟩
  · intro indkey hmem
    obtain ⟨-, attr, hattr, hnot⟩ := hlive indkey hmem
    obtain ⟨format, htupdesc⟩ := hrow.exists_format
    obtain ⟨position, tupAttr, hposition, htup, -⟩ := exists_position_of_live htupdesc hattr hnot
    exact ⟨position, (List.getElem?_eq_some_iff.mp htup).1, hposition⟩

end

/-! A table with a dropped column before its key and one behind it. -/

def badgesKey : Index where
  relid := 16401
  relname := "badges_pkey"
  relnamespace := 2200
  tupdesc := ⟨[⟨"id", INT8OID, false⟩], []⟩
  indisvalid := true
  indisready := true
  indisprimary := true
  indkey := [2]
  relid_ne_zero := by decide

def badges : Table where
  relid := 16400
  relname := "badges"
  relnamespace := 2200
  tupdesc :=
    { attrs := [⟨"dropped.1", 0, true⟩, ⟨"id", INT8OID, false⟩, ⟨"dropped.3", 0, true⟩, ⟨"level", INT8OID, false⟩]
      details := [] }
  relreplident := .default
  replicaIndex := none
  indexes := [badgesKey]

def badgesEntry : SchemaCacheEntry :=
  schemaCacheEntry (fun _ => "public") badges (some (badgesKey.schema fun _ => "public"))
    (badges.schema fun _ => "public")

/-- Numbers as `long`. -/
def longs : Conversions Int64 where
  equalTupleDescs := fun a b => decide (a = b)
  updateAvroWithDatum := fun _ n => some (.union 1 (.long n))
  schemaToJson := fun _ => []

theorem snapshot_encodes_as_stream_badges :
    extractTupleKey longs badgesEntry badges ⟨[⟨"id", INT8OID, false⟩, ⟨"level", INT8OID, false⟩], []⟩
        ⟨[some 7, some 9], none⟩ =
      extractTupleKey longs badgesEntry badges badges.tupdesc ⟨[none, some 7, none, some 9], none⟩ ∧
    extractTupleKey longs badgesEntry badges badges.tupdesc ⟨[none, some 7, none, some 9], none⟩ =
      .ok (some [2, 14]) := by
  have hlive : ∀ indkey ∈ badgesKey.indkey, LiveColumn badges indkey := by
    intro indkey hmem
    obtain rfl : indkey = 2 := by simpa [badgesKey] using hmem
    exact ⟨by decide, ⟨"id", INT8OID, false⟩, rfl, rfl⟩
  have hrow : Delivers badges (⟨[none, some 7, none, some 9], none⟩ : HeapTuple Int64)
      ⟨[⟨"id", INT8OID, false⟩, ⟨"level", INT8OID, false⟩], []⟩ ⟨[some 7, some 9], none⟩ :=
    .withoutDropped rfl rfl
  exact ⟨(snapshot_encodes_as_stream longs badgesEntry rfl hlive hrow).1, by rfl⟩

end BottledWater.Ext
