/-
# BottledWater.Ext.TableList — which tables a snapshot exports, and the key it reports for them.

`get_table_list` of `ext/snapshot.c`: a query over the system catalog, and the loop over its result that
collects the tables, complains of those without a key and refuses one that comes twice.

The query is the nested loops its joins and its `WHERE` clause stand for; Postgres promises no order of
the result, and nothing below depends on it.  The texts sent with `elog(INFO)` are left out.
-/
import BottledWater.Ext.Relation
import BottledWater.Lib.Query

namespace BottledWater.Ext

open BottledWater.Lib.Query BottledWater.Lib.Avro BottledWater.Protocol

/-! ## §1 — The catalog -/

/-- `relkind`. -/
inductive RelKind
  | relation
  | index
  | sequence
  | toastvalue
  | view
  | matview
  | compositeType
  | foreignTable
  deriving DecidableEq, Repr

/-- `relpersistence`. -/
inductive RelPersistence
  | permanent
  | unlogged
  | temp
  deriving DecidableEq, Repr

/-- A row of `pg_namespace`. -/
structure PgNamespace where
  oid : Oid
  nspname : String
  deriving DecidableEq, Repr

/-- A row of `pg_class`. -/
structure PgClass where
  oid : Oid
  relname : String
  relnamespace : Oid
  relkind : RelKind
  relpersistence : RelPersistence
  relreplident : ReplicaIdentity
  deriving DecidableEq, Repr

/-- A row of `pg_index`. -/
structure PgIndex where
  indexrelid : Oid
  indrelid : Oid
  indisvalid : Bool
  indisready : Bool
  indisprimary : Bool
  indisreplident : Bool
  deriving DecidableEq, Repr

/-- The system catalog, with what Postgres keeps true of it. -/
structure Catalog where
  pgNamespace : List PgNamespace
  pgClass : List PgClass
  pgIndex : List PgIndex
  namespace_oids : (pgNamespace.map (·.oid)).Nodup
  class_oids : (pgClass.map (·.oid)).Nodup
  /-- Every relation is in a namespace. -/
  namespace_mem : ∀ c ∈ pgClass, c.relnamespace ∈ pgNamespace.map (·.oid)
  /-- Every index is a relation. -/
  index_mem : ∀ i ∈ pgIndex, i.indexrelid ∈ pgClass.map (·.oid)
  one_primary : ∀ relid, pgIndex.countP (fun i => i.indrelid = relid ∧ i.indisprimary) ≤ 1
  one_replident : ∀ relid, pgIndex.countP (fun i => i.indrelid = relid ∧ i.indisreplident) ≤ 1

/-! ## §2 — The query -/

/-- The condition of the join with `pg_index`. -/
def joinsIndex (c : PgClass) (i : PgIndex) : Bool :=
  c.oid = i.indrelid ∧ i.indisvalid ∧ i.indisready ∧
    (((c.relreplident = .default ∨ c.relreplident = .full) ∧ i.indisprimary) ∨
      (c.relreplident = .index ∧ i.indisreplident))

/-- The condition of the second join with `pg_class`; a null `indexrelid` is equal to nothing. -/
def namesIndex (i : Option PgIndex) (ic : PgClass) : Bool := i.any fun i => i.indexrelid = ic.oid

/-- The `WHERE` clause. -/
def isExported (pattern : String) (c : PgClass) (n : PgNamespace) : Bool :=
  c.relkind = .relation ∧ like pattern c.relname ∧ ¬ like "pg_%" n.nspname ∧
    n.nspname ≠ "information_schema" ∧ c.relpersistence = .permanent

/-- A row of the result. -/
structure TableListRow where
  oid : Oid
  nspname : String
  relname : String
  relreplident : ReplicaIdentity
  indname : Option String
  deriving DecidableEq, Repr

/-- The query of `get_table_list`. -/
def Catalog.tableList (catalog : Catalog) (pattern : String) : List TableListRow :=
  catalog.pgClass.flatMap fun c =>
    (catalog.pgNamespace.filter fun n => n.oid = c.relnamespace).flatMap fun n =>
      (leftJoin (joinsIndex c) catalog.pgIndex).flatMap fun i =>
        (leftJoin (namesIndex i) catalog.pgClass).flatMap fun ic =>
          if isExported pattern c n then
            [⟨c.oid, n.nspname, c.relname, c.relreplident, ic.map (·.relname)⟩]
          else []

/-! ## §3 — `get_table_list` -/

/-- `export_table`. -/
structure ExportTable where
  relid : Oid
  rel : Table
  relNamespace : String
  relName : String
  replIdent : ReplicaIdentity
  indexName : Option String
  deriving DecidableEq

section

-- `relation_open` and `quote_qualified_identifier` are Postgres's
variable (relationOpen : Oid → Table) (quoteQualifiedIdentifier : String → String → String)

/-- What is appended to the list of errors for a row. -/
def unkeyedLine (row : TableListRow) : Option String :=
  match row.indname, row.relreplident with
  | some _, _ => none
  | none, .nothing =>
    some ("\t" ++ quoteQualifiedIdentifier row.nspname row.relname ++ " is using REPLICA IDENTITY NOTHING.\n")
  | none, _ =>
    some ("\t" ++ quoteQualifiedIdentifier row.nspname row.relname ++ " does not have a primary key.\n")

def exportTable (row : TableListRow) : ExportTable :=
  ⟨row.oid, relationOpen row.oid, row.nspname, row.relname, row.relreplident, row.indname⟩

/-- `%s` of a string that may be null. -/
def formatString (s : Option String) : String := s.getD "(null)"

def ambiguousKeyMessage (table other : ExportTable) : String :=
  "get_table_list: table " ++ table.relName ++ " has ambiguous primary key (" ++
    formatString table.indexName ++ " and " ++ formatString other.indexName ++ ")"

def unkeyedMessage (errors : String) : String :=
  "bottledwater_export: The following tables do not have a replica identity key:\n" ++ errors ++
    "\tPlease give them a primary key or set REPLICA IDENTITY USING INDEX.\n" ++
    "\tTo ignore this issue, and export them anyway, use --allow-unkeyed\n" ++
    "\t(note that export of updates and deletes will then be incomplete)."

/-- The loop of `get_table_list` over the result of the query, with the tables and the errors so far. -/
def tableListLoop : List ExportTable → String → List TableListRow →
    Except String (List ExportTable × String)
  | tables, errors, [] => .ok (tables, errors)
  | tables, errors, row :: rows =>
    let table := exportTable relationOpen row
    let errors := errors ++ (unkeyedLine quoteQualifiedIdentifier row).getD ""
    match tables.find? fun other => table.relid = other.relid with
    | some other => .error (ambiguousKeyMessage table other)
    | none => tableListLoop (tables ++ [table]) errors rows

/-- `get_table_list`. -/
def getTableList (catalog : Catalog) (tablePattern : String) (allowUnkeyed : Bool) :
    Except String (List ExportTable) := do
  let (tables, errors) ← tableListLoop relationOpen quoteQualifiedIdentifier [] ""
    (catalog.tableList tablePattern)
  if errors.length > 0 ∧ !allowUnkeyed then .error (unkeyedMessage errors) else pure tables

end

/-! ## §4 — The result of the query -/

/-- The index that the query joins with a table. -/
def Catalog.joinedIndex (catalog : Catalog) (c : PgClass) : Option PgIndex :=
  catalog.pgIndex.find? (joinsIndex c)

/-- The one row of a table in the result. -/
def Catalog.tableRow (catalog : Catalog) (c : PgClass) (n : PgNamespace) : TableListRow :=
  ⟨c.oid, n.nspname, c.relname, c.relreplident,
    (catalog.pgClass.find? (namesIndex (catalog.joinedIndex c))).map (·.relname)⟩

section

variable (catalog : Catalog)

theorem Catalog.countP_joinsIndex (c : PgClass) : catalog.pgIndex.countP (joinsIndex c) ≤ 1 := by
  -- whatever `relreplident` says, only one flag makes an index join
  by_cases hindex : c.relreplident = .index
  · refine le_trans (List.countP_mono_left fun i _ hi => ?_) (catalog.one_replident c.oid)
    simp only [joinsIndex, hindex, decide_eq_true_eq] at hi ⊢
    obtain ⟨hoid, -, -, ⟨hd | hd, -⟩ | ⟨-, hreplident⟩⟩ := hi
    · cases hd
    · cases hd
    · exact ⟨hoid.symm, hreplident⟩
  · refine le_trans (List.countP_mono_left fun i _ hi => ?_) (catalog.one_primary c.oid)
    simp only [joinsIndex, decide_eq_true_eq] at hi ⊢
    obtain ⟨hoid, -, -, ⟨-, hprimary⟩ | ⟨hi, -⟩⟩ := hi
    · exact ⟨hoid.symm, hprimary⟩
    · exact absurd hi hindex

theorem Catalog.leftJoin_joinsIndex (c : PgClass) :
    leftJoin (joinsIndex c) catalog.pgIndex = [catalog.joinedIndex c] :=
  leftJoin_eq_find? (catalog.countP_joinsIndex c)

theorem Catalog.leftJoin_namesIndex (i : Option PgIndex) :
    leftJoin (namesIndex i) catalog.pgClass = [catalog.pgClass.find? (namesIndex i)] := by
  apply leftJoin_eq_find?
  cases i with
  | none =>
    show catalog.pgClass.countP (fun _ => false) ≤ 1
    simp
  | some i =>
    have hkey : namesIndex (some i) = fun ic => decide (ic.oid = i.indexrelid) := by
      funext ic
      simp [namesIndex, eq_comm]
    rw [hkey]
    exact countP_key_le_one catalog.class_oids i.indexrelid

variable {catalog}

/-- Every table makes one row, if it is wanted. -/
theorem Catalog.exists_rows {c : PgClass} (hc : c ∈ catalog.pgClass) (pattern : String) :
    ∃ n ∈ catalog.pgNamespace, n.oid = c.relnamespace ∧
      ((catalog.pgNamespace.filter fun n => n.oid = c.relnamespace).flatMap fun n =>
        (leftJoin (joinsIndex c) catalog.pgIndex).flatMap fun i =>
          (leftJoin (namesIndex i) catalog.pgClass).flatMap fun ic =>
            if isExported pattern c n then
              [(⟨c.oid, n.nspname, c.relname, c.relreplident, ic.map (·.relname)⟩ : TableListRow)]
            else []) = if isExported pattern c n then [catalog.tableRow c n] else [] := by
  obtain ⟨n, hn, hoid⟩ := List.mem_map.mp (catalog.namespace_mem c hc)
  refine ⟨n, hn, hoid, ?_⟩
  rw [← hoid, filter_key_eq catalog.namespace_oids hn, catalog.leftJoin_joinsIndex]
  simp only [List.flatMap_singleton, catalog.leftJoin_namesIndex]
  rfl

theorem Catalog.nodup_tableList (pattern : String) : ((catalog.tableList pattern).map (·.oid)).Nodup := by
  refine nodup_flatMap_key catalog.class_oids fun c hc => ?_
  obtain ⟨n, -, -, hrows⟩ := Catalog.exists_rows hc pattern
  rw [hrows]
  split
  · exact Or.inr ⟨_, rfl, rfl⟩
  · exact Or.inl rfl

/-- **The result of the query**: a row for each table that the `WHERE` clause leaves. -/
theorem Catalog.mem_tableList {pattern : String} {row : TableListRow} :
    row ∈ catalog.tableList pattern ↔ ∃ c ∈ catalog.pgClass, ∃ n ∈ catalog.pgNamespace,
      n.oid = c.relnamespace ∧ isExported pattern c n ∧ row = catalog.tableRow c n := by
  rw [tableList, List.mem_flatMap]
  refine exists_congr fun c => and_congr_right fun hc => ?_
  obtain ⟨n, hn, hoid, hrows⟩ := Catalog.exists_rows hc pattern
  rw [hrows]
  constructor
  · intro hrow
    split at hrow
    · exact ⟨n, hn, hoid, ‹_›, List.mem_singleton.mp hrow⟩
    · cases hrow
  · rintro ⟨n', hn', hoid', hexported, rfl⟩
    obtain rfl := List.inj_on_of_nodup_map catalog.namespace_oids hn' hn (hoid'.trans hoid.symm)
    rw [if_pos hexported]
    exact List.mem_singleton_self _

end

/-! ## §5 — The tables that are exported -/

section

variable {relationOpen : Oid → Table} {quoteQualifiedIdentifier : String → String → String}

/-- The errors that the loop has collected at its end. -/
def collectErrors (quoteQualifiedIdentifier : String → String → String) (errors : String)
    (rows : List TableListRow) : String :=
  rows.foldl (fun errors row => errors ++ (unkeyedLine quoteQualifiedIdentifier row).getD "") errors

/-- If no table comes twice, the loop takes every row. -/
theorem tableListLoop_eq {tables : List ExportTable} {errors : String} {rows : List TableListRow}
    (h : (tables.map (·.relid) ++ rows.map (·.oid)).Nodup) :
    tableListLoop relationOpen quoteQualifiedIdentifier tables errors rows =
      .ok (tables ++ rows.map (exportTable relationOpen),
        collectErrors quoteQualifiedIdentifier errors rows) := by
  induction rows generalizing tables errors with
  | nil => simp [tableListLoop, collectErrors]
  | cons row rows ih =>
    have hnew : tables.find? (fun other => decide ((exportTable relationOpen row).relid = other.relid))
        = none := by
      rw [List.find?_eq_none]
      intro other hother heq
      have hdisjoint := (List.nodup_append.mp h).2.2 other.relid (List.mem_map_of_mem hother) row.oid
        (by simp)
      exact hdisjoint (of_decide_eq_true heq).symm
    have hnext : ((tables ++ [exportTable relationOpen row]).map (·.relid) ++ rows.map (·.oid)).Nodup := by
      simpa [exportTable] using h
    simp only [tableListLoop, hnew, ih hnext, List.append_assoc, List.singleton_append, List.map_cons,
      collectErrors, List.foldl_cons]

theorem getTableList_eq (catalog : Catalog) (tablePattern : String) (allowUnkeyed : Bool) :
    getTableList relationOpen quoteQualifiedIdentifier catalog tablePattern allowUnkeyed =
      let errors := collectErrors quoteQualifiedIdentifier "" (catalog.tableList tablePattern)
      if errors.length > 0 ∧ !allowUnkeyed then .error (unkeyedMessage errors)
      else .ok ((catalog.tableList tablePattern).map (exportTable relationOpen)) := by
  rw [getTableList, tableListLoop_eq (by simpa using catalog.nodup_tableList tablePattern)]
  rfl

/-- Whenever `get_table_list` returns, it returns the tables of the query. -/
theorem eq_of_getTableList {catalog : Catalog} {tablePattern : String} {allowUnkeyed : Bool}
    {tables : List ExportTable} (h : getTableList relationOpen quoteQualifiedIdentifier catalog tablePattern
      allowUnkeyed = .ok tables) :
    tables = (catalog.tableList tablePattern).map (exportTable relationOpen) := by
  rw [getTableList_eq] at h
  dsimp only at h
  split at h
  · cases h
  · exact (Except.ok.inj h).symm

end

/-- `pg_%` takes any third character. -/
theorem like_pg {nspname : String} :
    like "pg_%" nspname = true ↔ ∃ c rest, nspname.toList = 'p' :: 'g' :: c :: rest := by
  have hitems : items "pg_%".toList = [.char 'p', .char 'g', .one, .any] := by decide +kernel
  rw [like, hitems, matchItems_char]
  simp only [matchItems_char, matchItems_one, matchItems_any, and_true]
  constructor
  · rintro ⟨_, htext, _, rfl, c, rest, rfl⟩
    exact ⟨c, rest, htext⟩
  · rintro ⟨c, rest, htext⟩
    exact ⟨_, htext, _, rfl, c, rest, rfl⟩

theorem like_all (text : String) : like "%" text = true := by
  have hitems : items "%".toList = [.any] := by decide +kernel
  rw [like, hitems]
  exact matchItems_any _

/-- A system namespace has a name that begins with `pg_`. -/
def IsSystem (nspname : String) : Prop := "pg_".toList <+: nspname.toList

/-- A permanent ordinary table. -/
def PgClass.IsTable (c : PgClass) : Prop := c.relkind = .relation ∧ c.relpersistence = .permanent

/-- A table that a snapshot has to cover: permanent and ordinary, and neither in `information_schema` nor in
a system namespace.  The output plugin itself looks at no name. -/
def Catalog.Streamed (catalog : Catalog) (c : PgClass) : Prop :=
  c ∈ catalog.pgClass ∧ c.IsTable ∧ ∃ n ∈ catalog.pgNamespace, n.oid = c.relnamespace ∧
    n.nspname ≠ "information_schema" ∧ ¬ IsSystem n.nspname

/-- The names that `pg_%` takes for system namespaces though they are not. -/
def MistakenForSystem (nspname : String) : Prop := like "pg_%" nspname ∧ ¬ IsSystem nspname

theorem like_pg_of_isSystem {nspname : String} (h : IsSystem nspname) : like "pg_%" nspname = true := by
  obtain ⟨rest, hrest⟩ := h
  exact like_pg.mpr ⟨'_', rest, hrest.symm⟩

theorem mistakenForSystem_iff {nspname : String} : MistakenForSystem nspname ↔
    ∃ c rest, nspname.toList = 'p' :: 'g' :: c :: rest ∧ c ≠ '_' := by
  have hsystem : "pg_".toList = ['p', 'g', '_'] := by decide +kernel
  rw [MistakenForSystem, like_pg, IsSystem, hsystem]
  constructor
  · rintro ⟨⟨c, rest, htext⟩, hnot⟩
    refine ⟨c, rest, htext, ?_⟩
    rintro rfl
    exact hnot ⟨rest, htext.symm⟩
  · rintro ⟨c, rest, htext, hc⟩
    refine ⟨⟨c, rest, htext⟩, ?_⟩
    rintro ⟨rest', hrest'⟩
    rw [htext] at hrest'
    simp only [List.cons_append, List.cons.injEq] at hrest'
    exact hc hrest'.2.2.1.symm

section

variable {catalog : Catalog} (relationOpen : Oid → Table)
  (quoteQualifiedIdentifier : String → String → String)

/-- What is exported, in terms of the catalog. -/
theorem mem_exported {relid : Oid} :
    relid ∈ ((catalog.tableList "%").map (exportTable relationOpen)).map (·.relid) ↔
      ∃ c ∈ catalog.pgClass, ∃ n ∈ catalog.pgNamespace, n.oid = c.relnamespace ∧ c.IsTable ∧
        n.nspname ≠ "information_schema" ∧ ¬ like "pg_%" n.nspname ∧ c.oid = relid := by
  rw [List.map_map, List.mem_map]
  constructor
  · rintro ⟨row, hrow, rfl⟩
    obtain ⟨c, hc, n, hn, hoid, hexported, rfl⟩ := Catalog.mem_tableList.mp hrow
    obtain ⟨hkind, -, hlike, hinformation, hpersistence⟩ := of_decide_eq_true hexported
    exact ⟨c, hc, n, hn, hoid, ⟨hkind, hpersistence⟩, hinformation, hlike, rfl⟩
  · rintro ⟨c, hc, n, hn, hoid, ⟨hkind, hpersistence⟩, hinformation, hlike, rfl⟩
    have hexported : isExported "%" c n = true :=
      decide_eq_true ⟨hkind, like_all _, hlike, hinformation, hpersistence⟩
    exact ⟨_, Catalog.mem_tableList.mpr ⟨c, hc, n, hn, hoid, hexported, rfl⟩, rfl⟩

/-- **The tables of a snapshot** are the streamed tables, each once, exactly when no table is in a
namespace whose name `LIKE 'pg_%'` mistakes for one of a system namespace.  With `allow_unkeyed` the list
is always made; without it, it is the same list or an error. -/
theorem snapshot_selects_streamed_iff :
    (∃ tables, getTableList relationOpen quoteQualifiedIdentifier catalog "%" true = .ok tables ∧
      (∀ keyed, getTableList relationOpen quoteQualifiedIdentifier catalog "%" false = .ok keyed →
        keyed = tables) ∧
      (tables.map (·.relid)).Nodup ∧
      ∀ relid, relid ∈ tables.map (·.relid) ↔ ∃ c, catalog.Streamed c ∧ c.oid = relid) ↔
    ∀ c ∈ catalog.pgClass, c.IsTable → ∀ n ∈ catalog.pgNamespace, n.oid = c.relnamespace →
      ¬ ∃ third rest, n.nspname.toList = 'p' :: 'g' :: third :: rest ∧ third ≠ '_' := by
  simp only [← mistakenForSystem_iff]
  have hall : getTableList relationOpen quoteQualifiedIdentifier catalog "%" true =
      .ok ((catalog.tableList "%").map (exportTable relationOpen)) := by
    rw [getTableList_eq]
    exact if_neg (by simp)
  constructor
  · rintro ⟨tables, htables, -, -, hmem⟩ c hc htable n hn hoid ⟨hlike, hsystem⟩
    obtain rfl := eq_of_getTableList htables
    -- the table is streamed, since its namespace is neither of those left out
    have hinformation : n.nspname ≠ "information_schema" := by
      intro heq
      rw [heq] at hlike
      exact absurd hlike (by decide +kernel)
    have hselected := (hmem c.oid).mpr ⟨c, ⟨hc, htable, n, hn, hoid, hinformation, hsystem⟩, rfl⟩
    -- but a selected table of this id is this table, and its namespace is like `pg_%`
    obtain ⟨c', hc', n', hn', hoid', -, -, hlike', heq⟩ := (mem_exported relationOpen).mp hselected
    obtain rfl := List.inj_on_of_nodup_map catalog.class_oids hc' hc heq
    obtain rfl := List.inj_on_of_nodup_map catalog.namespace_oids hn' hn (hoid'.trans hoid.symm)
    exact hlike' hlike
  · intro hnone
    refine ⟨_, hall, ?_, ?_, ?_⟩
    · exact fun keyed hkeyed => eq_of_getTableList hkeyed
    · rw [List.map_map]
      exact catalog.nodup_tableList "%"
    · intro relid
      rw [mem_exported]
      constructor
      · rintro ⟨c, hc, n, hn, hoid, htable, hinformation, hlike, rfl⟩
        refine ⟨c, ⟨hc, htable, n, hn, hoid, hinformation, fun h => ?_⟩, rfl⟩
        exact hlike (like_pg_of_isSystem h)
      · rintro ⟨c, ⟨hc, htable, n, hn, hoid, hinformation, hsystem⟩, rfl⟩
        refine ⟨c, hc, n, hn, hoid, htable, hinformation, fun hlike => ?_, rfl⟩
        exact hnone c hc htable n hn hoid ⟨hlike, hsystem⟩

end

/-- A catalog without indexes. -/
def Catalog.withoutIndexes (pgNamespace : List PgNamespace) (pgClass : List PgClass)
    (namespace_oids : (pgNamespace.map (·.oid)).Nodup) (class_oids : (pgClass.map (·.oid)).Nodup)
    (namespace_mem : ∀ c ∈ pgClass, c.relnamespace ∈ pgNamespace.map (·.oid)) : Catalog where
  pgNamespace := pgNamespace
  pgClass := pgClass
  pgIndex := []
  namespace_oids := namespace_oids
  class_oids := class_oids
  namespace_mem := namespace_mem
  index_mem := fun _ hi => nomatch hi
  one_primary := fun _ => Nat.zero_le 1
  one_replident := fun _ => Nat.zero_le 1

def publicNamespace : List PgNamespace := [⟨1, "public"⟩]

theorem nodup_publicNamespace : (publicNamespace.map (·.oid)).Nodup := List.nodup_singleton _

/-- A table in a namespace that is called `pgapp`. -/
def pgappCatalog : Catalog :=
  .withoutIndexes [⟨1, "pgapp"⟩] [⟨2, "users", 1, .relation, .permanent, .default⟩] (by decide) (by decide)
    (by decide)

def pgappUsers (relid : Oid) : Table :=
  { relid := relid, relname := "users", relnamespace := 1, tupdesc := ⟨[], []⟩,
    relreplident := .default, replicaIndex := none, indexes := [] }

def quoteWithDot (relNamespace relName : String) : String := relNamespace ++ "." ++ relName

/-- The table is streamed, and the snapshot is empty. -/
theorem snapshot_misses_pgapp :
    pgappCatalog.Streamed ⟨2, "users", 1, .relation, .permanent, .default⟩ ∧
      getTableList pgappUsers quoteWithDot pgappCatalog "%" true = .ok [] := by
  refine ⟨⟨by decide, ⟨rfl, rfl⟩, ⟨1, "pgapp"⟩, by decide, rfl, by decide, ?_⟩, ?_⟩
  · unfold IsSystem
    decide +kernel
  · have hrows : pgappCatalog.tableList "%" = [] := by decide +kernel
    rw [getTableList, hrows]
    rfl

end BottledWater.Ext
