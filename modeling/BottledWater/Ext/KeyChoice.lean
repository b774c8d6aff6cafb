/-
# BottledWater.Ext.KeyChoice — two ways to choose the key of a table.

`get_table_list` looks for the key index of a table with a join, and complains of a table for which it finds
none; `table_key_index` looks for it in the relation cache, and what it finds is the key that rows are encoded
with.  For `REPLICA IDENTITY USING INDEX` the two differ in what they do when the index is not usable: the join
wants it ready as well as valid, and finds nothing otherwise; `table_key_index` takes it when it is valid, and
goes on to the primary key when there is none.

The index alone does not make a key.  Its name and those of its columns go into the key schema, and without
that schema rows are encoded as if the table had no key.
-/
import BottledWater.Ext.NamedTypes
import BottledWater.Ext.TableList

namespace BottledWater.Ext

open BottledWater.Lib.Query BottledWater.Lib.Avro BottledWater.Protocol

/-! ## §1 — The relation cache -/

/-- What `table_key_index` reads of an index. -/
def Index.flags (index : Index) : Oid × Bool × Bool × Bool :=
  (index.relid, index.indisvalid, index.indisready, index.indisprimary)

@[inherit_doc Index.flags]
def PgIndex.flags (i : PgIndex) : Oid × Bool × Bool × Bool :=
  (i.indexrelid, i.indisvalid, i.indisready, i.indisprimary)

/-- The flags that the loop of `table_key_index` looks for. -/
def flagsOfKey (flags : Oid × Bool × Bool × Bool) : Bool := flags.2.1 && flags.2.2.1 && flags.2.2.2

/-- The valid index of a table that is flagged as its replica identity. -/
def isReplica (c : PgClass) (i : PgIndex) : Bool := i.indrelid = c.oid ∧ i.indisvalid ∧ i.indisreplident

/-- The primary key index of a table, if it can be used. -/
def isPrimary (c : PgClass) (i : PgIndex) : Bool :=
  i.indrelid = c.oid ∧ i.indisvalid ∧ i.indisready ∧ i.indisprimary

/-- **`catalog.Describes c rel`** — `rel` is the table `c` as the relation cache has it. -/
structure Catalog.Describes (catalog : Catalog) (c : PgClass) (rel : Table) : Prop where
  relreplident : rel.relreplident = c.relreplident
  /-- `RelationGetIndexList`, in some order. -/
  indexes : (rel.indexes.map Index.flags).Perm
    ((catalog.pgIndex.filter fun i => i.indrelid = c.oid).map PgIndex.flags)
  /-- `RelationGetReplicaIndex`. -/
  replicaIndex : rel.replicaIndex.map (·.relid) =
    (catalog.pgIndex.find? (isReplica c)).map (·.indexrelid)

section

variable {catalog : Catalog} {c : PgClass} {rel : Table}

theorem Catalog.countP_isPrimary : catalog.pgIndex.countP (isPrimary c) ≤ 1 := by
  refine le_trans (List.countP_mono_left fun i _ hi => ?_) (catalog.one_primary c.oid)
  obtain ⟨hoid, -, -, hprimary⟩ := of_decide_eq_true hi
  exact decide_eq_true ⟨hoid, hprimary⟩

theorem Catalog.countP_isReplica : catalog.pgIndex.countP (isReplica c) ≤ 1 := by
  refine le_trans (List.countP_mono_left fun i _ hi => ?_) (catalog.one_replident c.oid)
  obtain ⟨hoid, -, hreplident⟩ := of_decide_eq_true hi
  exact decide_eq_true ⟨hoid, hreplident⟩

theorem isPrimary_eq (i : PgIndex) :
    isPrimary c i = (decide (i.indrelid = c.oid) && flagsOfKey i.flags) := by
  simp [isPrimary, flagsOfKey, PgIndex.flags, Bool.and_assoc]

/-- The loop of `table_key_index` over the indexes finds the primary key of the catalog. -/
theorem Catalog.Describes.find?_isKey (h : catalog.Describes c rel) :
    (rel.indexes.find? tableKeyIndex.isKey).map (·.relid) =
      (catalog.pgIndex.find? (isPrimary c)).map (·.indexrelid) := by
  -- both are searches for the same flags, in lists that differ only in their order
  have hcache : ((rel.indexes.map Index.flags).find? flagsOfKey).map (·.1) =
      (rel.indexes.find? tableKeyIndex.isKey).map (·.relid) := by
    rw [List.find?_map, Option.map_map]
    rfl
  have hrows : (((catalog.pgIndex.filter fun i => i.indrelid = c.oid).map PgIndex.flags).find?
      flagsOfKey).map (·.1) = (catalog.pgIndex.find? (isPrimary c)).map (·.indexrelid) := by
    rw [List.find?_map, Option.map_map, List.find?_filter, funext (isPrimary_eq (c := c))]
    simp [Function.comp_def, PgIndex.flags]
  have hone : ((catalog.pgIndex.filter fun i => i.indrelid = c.oid).map PgIndex.flags).countP
      flagsOfKey ≤ 1 := by
    rw [List.countP_map, List.countP_filter]
    have hprimary := catalog.countP_isPrimary (c := c)
    rw [funext (isPrimary_eq (c := c))] at hprimary
    simpa [Function.comp_def, and_comm, Bool.and_comm] using hprimary
  rw [← hcache, ← hrows, find?_eq_of_perm h.indexes (by rwa [h.indexes.countP_eq])]

/-- **`table_key_index` in terms of the catalog.** -/
theorem Catalog.Describes.tableKeyIndex_eq (h : catalog.Describes c rel) :
    (tableKeyIndex rel).map (·.relid) =
      match c.relreplident with
      | .nothing => none
      | .index => ((catalog.pgIndex.find? (isReplica c)).or (catalog.pgIndex.find? (isPrimary c))).map
          (·.indexrelid)
      | .default | .full => (catalog.pgIndex.find? (isPrimary c)).map (·.indexrelid) := by
  unfold tableKeyIndex
  rw [h.relreplident]
  cases c.relreplident with
  | nothing => rfl
  | default => exact h.find?_isKey
  | full => exact h.find?_isKey
  | index =>
    rw [Option.map_or, Option.map_or, h.replicaIndex, h.find?_isKey]

/-! ## §2 — Where the two agree -/

/-- **The join in terms of the same searches.** -/
theorem Catalog.joinedIndex_eq :
    catalog.joinedIndex c =
      match c.relreplident with
      | .nothing => none
      | .index => catalog.pgIndex.find? fun i => isReplica c i && i.indisready
      | .default | .full => catalog.pgIndex.find? (isPrimary c) := by
  unfold joinedIndex
  cases hreplident : c.relreplident with
  | nothing => simp [joinsIndex, hreplident]
  | default | full | index =>
    congr 1
    funext i
    rw [Bool.eq_iff_iff]
    simp only [joinsIndex, isPrimary, isReplica, hreplident, Bool.and_eq_true, decide_eq_true_eq,
      eq_comm (a := c.oid)]
    tauto

/-- If the identity of a table is an index, then either that index is valid and ready, or the table has
neither a valid one nor a primary key that could be taken in its place. -/
def Catalog.ReplicaIndexUsable (catalog : Catalog) (c : PgClass) : Prop :=
  c.relreplident = .index →
    (∃ i ∈ catalog.pgIndex, i.indrelid = c.oid ∧ i.indisvalid ∧ i.indisready ∧ i.indisreplident) ∨
    ∀ i ∈ catalog.pgIndex, i.indrelid = c.oid → i.indisvalid →
      ¬ i.indisreplident ∧ ¬ (i.indisready ∧ i.indisprimary)

theorem Catalog.usable_of_joined {i : PgIndex} (hi : catalog.joinedIndex c = some i) :
    catalog.ReplicaIndexUsable c := by
  intro hindex
  have hmem := List.mem_of_find?_eq_some hi
  have hjoins : joinsIndex c i = true := List.find?_some hi
  obtain ⟨hoid, hvalid, hready, hflag⟩ := of_decide_eq_true hjoins
  refine Or.inl ⟨i, hmem, hoid.symm, hvalid, hready, ?_⟩
  obtain ⟨hd | hd, -⟩ | ⟨-, hreplident⟩ := hflag
  · rw [hindex] at hd
    cases hd
  · rw [hindex] at hd
    cases hd
  · exact hreplident

/-- What the join finds, `table_key_index` finds. -/
theorem Catalog.Describes.keyIndex_of_joined (h : catalog.Describes c rel) {i : PgIndex}
    (hi : catalog.joinedIndex c = some i) : (tableKeyIndex rel).map (·.relid) = some i.indexrelid := by
  rw [h.tableKeyIndex_eq]
  rw [Catalog.joinedIndex_eq] at hi
  cases hreplident : c.relreplident with
  | nothing =>
    rw [hreplident] at hi
    cases hi
  | default | full =>
    rw [hreplident] at hi
    simp only at hi ⊢
    rw [hi]
    rfl
  | index =>
    rw [hreplident] at hi
    simp only at hi ⊢
    -- the index that the join wants ready is the only one flagged
    have hreplica := (Bool.and_eq_true _ _ ▸ List.find?_some hi).1
    rw [find?_eq_some_of_mem catalog.countP_isReplica (List.mem_of_find?_eq_some hi) hreplica]
    rfl

/-- Where the join finds nothing, `table_key_index` may still find an index. -/
theorem Catalog.Describes.keyIndex_of_not_joined (h : catalog.Describes c rel)
    (hnone : catalog.joinedIndex c = none) :
    (tableKeyIndex rel).map (·.relid) = none ↔ catalog.ReplicaIndexUsable c := by
  rw [h.tableKeyIndex_eq]
  rw [Catalog.joinedIndex_eq] at hnone
  unfold ReplicaIndexUsable
  cases hreplident : c.relreplident with
  | nothing => simp
  | default | full =>
    rw [hreplident] at hnone
    simp only at hnone ⊢
    simp [hnone]
  | index =>
    rw [hreplident] at hnone
    simp only [List.find?_eq_none, isReplica, Bool.and_eq_true, decide_eq_true_eq] at hnone
    simp only [Option.map_eq_none_iff, Option.or_eq_none_iff, List.find?_eq_none, isReplica, isPrimary,
      decide_eq_true_eq, forall_const]
    constructor
    · rintro ⟨hreplica, hprimary⟩
      refine Or.inr fun i hi hoid hvalid => ⟨?_, ?_⟩
      · intro hflag
        exact hreplica i hi ⟨hoid, hvalid, hflag⟩
      · rintro ⟨hready, hflag⟩
        exact hprimary i hi ⟨hoid, hvalid, hready, hflag⟩
    · rintro (⟨i, hi, hoid, hvalid, hready, hflag⟩ | hnothing)
      · exact absurd ⟨⟨hoid, hvalid, hflag⟩, hready⟩ (hnone i hi)
      · refine ⟨fun i hi hreplica => ?_, fun i hi hprimary => ?_⟩
        · exact (hnothing i hi hreplica.1 hreplica.2.1).1 hreplica.2.2
        · exact (hnothing i hi hprimary.1 hprimary.2.1).2 hprimary.2.2

/-- A table is reported without a key when the join found no index. -/
theorem Catalog.isSome_unkeyedLine (quoteQualifiedIdentifier : String → String → String) (n : PgNamespace) :
    (unkeyedLine quoteQualifiedIdentifier (catalog.tableRow c n)).isSome ↔ catalog.joinedIndex c = none := by
  have hindname : (catalog.tableRow c n).indname = none ↔ catalog.joinedIndex c = none := by
    simp only [tableRow, Option.map_eq_none_iff]
    cases hi : catalog.joinedIndex c with
    | none => simp [namesIndex]
    | some i =>
      obtain ⟨ic, hic, hoid⟩ := List.mem_map.mp (catalog.index_mem i (List.mem_of_find?_eq_some hi))
      refine iff_of_false (fun hnone => ?_) (by simp)
      exact List.find?_eq_none.mp hnone ic hic (decide_eq_true hoid.symm)
  rw [← hindname, unkeyedLine.eq_def]
  cases (catalog.tableRow c n).indname with
  | some _ => simp
  | none => cases (catalog.tableRow c n).relreplident <;> simp

/-- The index that is the key of a table: its identity if that is an index, otherwise a primary key that can
be used. -/
def Table.IsKey (rel : Table) (index : Index) : Prop :=
  match rel.relreplident with
  | .nothing => False
  | .index => rel.replicaIndex = some index
  | .default | .full => index ∈ rel.indexes ∧ index.indisvalid ∧ index.indisready ∧ index.indisprimary

/-- Where the two agree, `table_key_index` finds the key. -/
theorem Catalog.Describes.tableKeyIndex_eq_some_iff (h : catalog.Describes c rel)
    (husable : catalog.ReplicaIndexUsable c) {index : Index} :
    tableKeyIndex rel = some index ↔ rel.IsKey index := by
  have hprimary : rel.indexes.find? tableKeyIndex.isKey = some index ↔
      index ∈ rel.indexes ∧ index.indisvalid ∧ index.indisready ∧ index.indisprimary := by
    have hcount : rel.indexes.countP tableKeyIndex.isKey ≤ 1 := by
      have hflags := h.indexes.countP_eq flagsOfKey
      rw [List.countP_map, List.countP_map, List.countP_filter] at hflags
      have hone := catalog.countP_isPrimary (c := c)
      rw [funext (isPrimary_eq (c := c))] at hone
      refine le_trans (le_of_eq hflags) ?_
      simpa [Function.comp_def, Bool.and_comm] using hone
    have hflags : tableKeyIndex.isKey index ↔
        index.indisvalid ∧ index.indisready ∧ index.indisprimary := by
      simp [tableKeyIndex.isKey, and_assoc]
    rw [← hflags]
    exact ⟨fun hfind => ⟨List.mem_of_find?_eq_some hfind, List.find?_some hfind⟩,
      fun ⟨hmem, hkey⟩ => find?_eq_some_of_mem hcount hmem hkey⟩
  have hindex := h.replicaIndex
  unfold tableKeyIndex Table.IsKey
  cases hreplident : rel.relreplident with
  | nothing => simp
  | default | full => exact hprimary
  | index =>
    cases hreplica : rel.replicaIndex with
    | some index' => simp
    | none =>
      -- without an identity there is no primary key that could be taken in its place
      rw [hreplica, Option.map_none, eq_comm, Option.map_eq_none_iff, List.find?_eq_none] at hindex
      have hnone : catalog.joinedIndex c = none := by
        rw [Catalog.joinedIndex_eq, ← h.relreplident, hreplident]
        exact List.find?_eq_none.mpr fun i hi hready => hindex i hi (Bool.and_eq_true _ _ ▸ hready).1
      have hkey := (h.keyIndex_of_not_joined hnone).mpr husable
      rw [Option.map_eq_none_iff, tableKeyIndex, hreplident, hreplica, Option.none_or] at hkey
      simp [hkey]

/-- The schema of the key is made, and is there, exactly if the key index has names for it. -/
theorem exists_schemaForTableKey_iff (namespaces : Namespaces) :
    (∃ keySchema, schemaForTableKey namespaces rel = .ok keySchema ∧
      (keySchema = none ↔ tableKeyIndex rel = none)) ↔
    ∀ index, tableKeyIndex rel = some index → isAvroId index.relname ∧ index.KeepsTypes := by
  unfold schemaForTableKey
  cases hindex : tableKeyIndex rel with
  | none => exact iff_of_true ⟨none, rfl, by simp⟩ nofun
  | some index =>
    simp only [Option.some.injEq, forall_eq', reduceCtorEq, iff_false, ← exists_schemaForTableRow_iff namespaces]
    constructor
    · rintro ⟨keySchema, hschema, hsome⟩
      exact ⟨(isSome_schemaForTableRow hschema) ▸ Option.isSome_iff_ne_none.mpr hsome, keySchema, hschema⟩
    · rintro ⟨hname, keySchema, hschema⟩
      exact ⟨keySchema, hschema,
        Option.isSome_iff_ne_none.mp ((isSome_schemaForTableRow hschema).trans hname)⟩

/-- **The two choices agree** exactly when the index that is the identity of the table can be used, or there
is nothing to take in its place: the index of the join is that of `table_key_index`.  So the table is reported
without a key if and only if its rows are encoded without one, provided that the Avro library makes a schema
under the names of its key index. -/
theorem key_choices_agree_iff (hc : c ∈ catalog.pgClass) (h : catalog.Describes c rel)
    (namespaces : Namespaces) (quoteQualifiedIdentifier : String → String → String) :
    ((leftJoin (joinsIndex c) catalog.pgIndex).map (Option.map (·.indexrelid)) =
      [(tableKeyIndex rel).map (·.relid)] ↔ catalog.ReplicaIndexUsable c) ∧
    ∀ pattern, ∀ row ∈ catalog.tableList pattern, row.oid = c.oid →
      (((leftJoin (joinsIndex c) catalog.pgIndex).map (Option.map (·.indexrelid)) =
          [(tableKeyIndex rel).map (·.relid)] ∧
        ∃ keySchema, schemaForTableKey namespaces rel = .ok keySchema ∧
          ((unkeyedLine quoteQualifiedIdentifier row).isSome ↔ keySchema = none)) ↔
        catalog.ReplicaIndexUsable c ∧
          ∀ index, rel.IsKey index → isAvroId index.relname ∧ index.KeepsTypes) := by
  have hjoin : (leftJoin (joinsIndex c) catalog.pgIndex).map (Option.map (·.indexrelid)) =
      [(tableKeyIndex rel).map (·.relid)] ↔ catalog.ReplicaIndexUsable c := by
    rw [catalog.leftJoin_joinsIndex, List.map_singleton, List.singleton_inj]
    cases hi : catalog.joinedIndex c with
    | none => exact eq_comm.trans (h.keyIndex_of_not_joined hi)
    | some i => exact iff_of_true (h.keyIndex_of_joined hi).symm (catalog.usable_of_joined hi)
  refine ⟨hjoin, fun pattern row hrow hoid => ?_⟩
  obtain ⟨c', hc', n, -, -, -, rfl⟩ := Catalog.mem_tableList.mp hrow
  obtain rfl := List.inj_on_of_nodup_map catalog.class_oids hc' hc hoid
  rw [hjoin]
  refine and_congr_right fun husable => ?_
  -- the table is reported if neither finds an index
  have hreport : (unkeyedLine quoteQualifiedIdentifier (catalog.tableRow c' n)).isSome ↔
      tableKeyIndex rel = none := by
    rw [catalog.isSome_unkeyedLine]
    cases hi : catalog.joinedIndex c' with
    | none => simpa using (h.keyIndex_of_not_joined hi).mpr husable
    | some i =>
      refine iff_of_false nofun fun hnone => ?_
      have hkey := h.keyIndex_of_joined hi
      rw [hnone] at hkey
      cases hkey
  simp only [hreport, ← h.tableKeyIndex_eq_some_iff husable, ← exists_schemaForTableKey_iff namespaces,
    iff_comm (a := tableKeyIndex rel = none)]

end

/-! ## §3 — A table with a primary key -/

/-- A table and its primary key index, and no index that is a replica identity. -/
def accounts (relreplident : ReplicaIdentity) : PgClass :=
  ⟨2, "accounts", 1, .relation, .permanent, relreplident⟩

def accountsCatalog (relreplident : ReplicaIdentity) : Catalog where
  pgNamespace := publicNamespace
  pgClass := [accounts relreplident, ⟨3, "accounts_pkey", 1, .index, .permanent, .nothing⟩]
  pgIndex := [⟨3, 2, true, true, true, false⟩]
  namespace_oids := nodup_publicNamespace
  class_oids := show ([2, 3] : List Oid).Nodup by decide
  namespace_mem := List.forall_mem_cons.mpr
    ⟨List.mem_singleton_self _, List.forall_mem_singleton.mpr (List.mem_singleton_self _)⟩
  index_mem := List.forall_mem_singleton.mpr (List.mem_cons_of_mem _ (List.mem_singleton_self _))
  one_primary := fun _ => List.countP_le_length
  one_replident := fun _ => List.countP_le_length

def accountsPkey : Index :=
  { relid := 3, relname := "accounts_pkey", relnamespace := 1,
    tupdesc := ⟨[⟨"id", INT4OID, false⟩], []⟩,
    indisvalid := true, indisready := true, indisprimary := true, indkey := [1],
    relid_ne_zero := by decide }

def accountsTable (relreplident : ReplicaIdentity) : Table :=
  { relid := 2, relname := "accounts", relnamespace := 1,
    tupdesc := ⟨[⟨"id", INT4OID, false⟩], []⟩,
    relreplident := relreplident, replicaIndex := none, indexes := [accountsPkey] }

theorem describes_accounts (relreplident : ReplicaIdentity) :
    (accountsCatalog relreplident).Describes (accounts relreplident) (accountsTable relreplident) :=
  ⟨rfl, .refl _, rfl⟩

def publicNamespaces : Namespaces := fun _ => "public"

/-- With the default identity, both choose the primary key, and rows are encoded with it. -/
theorem key_choices_agree_iff_accounts :
    tableKeyIndex (accountsTable .default) = some accountsPkey ∧
      (leftJoin (joinsIndex (accounts .default)) (accountsCatalog .default).pgIndex).map
          (Option.map (·.indexrelid)) = [(tableKeyIndex (accountsTable .default)).map (·.relid)] ∧
      ∃ keySchema, schemaForTableKey publicNamespaces (accountsTable .default) = .ok keySchema ∧
        ((unkeyedLine quoteWithDot ⟨2, "public", "accounts", .default, some "accounts_pkey"⟩).isSome ↔
          keySchema = none) := by
  have husable : (accountsCatalog .default).ReplicaIndexUsable (accounts .default) := by
    intro hindex
    cases hindex
  have hkey : ∀ index, (accountsTable .default).IsKey index → isAvroId index.relname ∧ index.KeepsTypes := by
    rintro index ⟨hmem, -⟩
    obtain rfl : index = accountsPkey := by simpa [accountsTable] using hmem
    refine ⟨by decide, (exists_schemaForTableRow_iff publicNamespaces _).mp ⟨_, rfl⟩⟩
  have hrow : (⟨2, "public", "accounts", .default, some "accounts_pkey"⟩ : TableListRow) ∈
      (accountsCatalog .default).tableList "%" := by decide +kernel
  have hagree := key_choices_agree_iff (List.mem_cons_self ..) (describes_accounts .default)
    publicNamespaces quoteWithDot
  exact ⟨rfl, (hagree.2 "%" _ hrow rfl).mpr ⟨husable, hkey⟩⟩

/-- When the index that was the identity of the table is dropped, the table is reported without a key, and
its rows are encoded with the primary key. -/
theorem key_choices_differ_accounts :
    (accountsCatalog .index).Describes (accounts .index) (accountsTable .index) ∧
      leftJoin (joinsIndex (accounts .index)) (accountsCatalog .index).pgIndex = [none] ∧
      tableKeyIndex (accountsTable .index) = some accountsPkey ∧
      (accountsCatalog .index).tableList "%" = [⟨2, "public", "accounts", .index, none⟩] ∧
      unkeyedLine quoteWithDot ⟨2, "public", "accounts", .index, none⟩ =
        some "\tpublic.accounts does not have a primary key.\n" ∧
      ∃ keySchema, schemaForTableKey publicNamespaces (accountsTable .index) = .ok (some keySchema) :=
  ⟨describes_accounts .index, rfl, rfl, by decide +kernel, by decide +kernel, _, rfl⟩

end BottledWater.Ext
