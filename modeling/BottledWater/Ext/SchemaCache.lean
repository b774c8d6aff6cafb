/-
# BottledWater.Ext.SchemaCache — the server's memory of the schemas it has sent.

`ext/schema_cache.c`: a hash table from the id of a relation to an entry with its Avro schemas and a copy
of what they were made from.  A lookup compares the relation with the copy and makes the entry anew if
anything differs.  The comparison is complete: an entry found unchanged has the schemas that the
relation has now (`schemas_of_not_changed`), whatever was altered in between.

`equalTupleDescs` is a function of Postgres and a parameter here.
-/
import BottledWater.Ext.Relation
import Mathlib.Logic.Function.Basic

namespace BottledWater.Ext

open BottledWater.Lib BottledWater.Lib.Avro BottledWater.Protocol

/-- `schema_cache_entry`, less the values used for encoding. -/
structure SchemaCacheEntry where
  relid : Oid
  relname : String
  nsId : Oid
  nsName : String
  /-- `InvalidOid` (0) if there is no key. -/
  keyId : Oid
  keyName : String
  keynsId : Oid
  keynsName : String
  keyTupdesc : Option TupleDesc
  rowTupdesc : TupleDesc
  keySchema : Option Schema
  rowSchema : Schema

abbrev SchemaCache := Oid → Option SchemaCacheEntry

/-- `schema_cache_new`. -/
def schemaCacheNew : SchemaCache := fun _ => none

variable (equalTupleDescs : TupleDesc → TupleDesc → Bool) (namespaces : Namespaces)

/-- The entry of a relation, with the given schemas.  Without a key index the names of the key stay as they
were; nothing reads them then. -/
def schemaCacheEntry (rel : Table) (keySchema : Option Schema) (rowSchema : Schema) : SchemaCacheEntry where
  relid := rel.relid
  nsId := rel.relnamespace
  relname := rel.relname
  nsName := namespaces rel.relnamespace
  keyId := (tableKeyIndex rel).elim 0 fun index => index.relid
  keynsId := (tableKeyIndex rel).elim 0 fun index => index.relnamespace
  keyName := (tableKeyIndex rel).elim "" fun index => index.relname
  keynsName := (tableKeyIndex rel).elim "" fun index => namespaces index.relnamespace
  keyTupdesc := (tableKeyIndex rel).map fun index => index.tupdesc
  rowTupdesc := rel.tupdesc
  keySchema := keySchema
  rowSchema := rowSchema

/-- `schema_cache_entry_update`.  `avro_generic_class_from_schema` reads the row schema. -/
def schemaCacheEntryUpdate (rel : Table) : Except PluginError SchemaCacheEntry := do
  let keySchema ← schemaForTableKey namespaces rel
  match ← schemaForTableRow namespaces rel.toRelation with
  | none => throw .undefined
  | some rowSchema => pure (schemaCacheEntry namespaces rel keySchema rowSchema)

/-- The comparison of `schema_cache_entry_changed` with the key index of the relation. -/
def keyChanged (entry : SchemaCacheEntry) (index : Index) : Bool :=
  entry.keyId != index.relid || entry.keynsId != index.relnamespace ||
    entry.keyName != index.relname || entry.keynsName != namespaces entry.keynsId ||
    !entry.keyTupdesc.any fun tupdesc => equalTupleDescs tupdesc index.tupdesc

/-- `schema_cache_entry_changed`. -/
def schemaCacheEntryChanged (entry : SchemaCacheEntry) (rel : Table) : Bool :=
  if entry.relid ≠ rel.relid then true
  else if entry.nsId ≠ rel.relnamespace then true
  else if entry.relname ≠ rel.relname then true
  else if entry.nsName ≠ namespaces entry.nsId then true
  else
    let changed :=
      match tableKeyIndex rel with
      | some index => if entry.keyId ≠ 0 then keyChanged equalTupleDescs namespaces entry index else true
      | none => decide (entry.keyId ≠ 0)
    if changed then true else !equalTupleDescs entry.rowTupdesc rel.tupdesc

/-- `schema_cache_lookup`: 0 if the entry was there and is unchanged, 1 if it had changed, 2 if it is
new; the entry; and the cache afterwards. -/
def schemaCacheLookup (cache : SchemaCache) (rel : Table) :
    Except PluginError (Nat × SchemaCacheEntry × SchemaCache) :=
  match cache rel.relid with
  | some entry =>
    if !schemaCacheEntryChanged equalTupleDescs namespaces entry rel then pure (0, entry, cache)
    else do
      let entry' ← schemaCacheEntryUpdate namespaces rel
      pure (1, entry', Function.update cache rel.relid (some entry'))
  | none => do
    let entry' ← schemaCacheEntryUpdate namespaces rel
    pure (2, entry', Function.update cache rel.relid (some entry'))

/-! ## Change detection is complete -/

section

variable {equalTupleDescs : TupleDesc → TupleDesc → Bool} {namespaces namespaces' : Namespaces}
  {keySchema : Option Schema} {rowSchema : Schema}
  (hdesc : ∀ a b, equalTupleDescs a b = true → a.live = b.live)

include hdesc

theorem keySchema_of_not_changed {rel : Table} {index index' : Index}
    (hindex' : tableKeyIndex rel = some index')
    (h : keyChanged equalTupleDescs namespaces (schemaCacheEntry namespaces' rel keySchema rowSchema) index
      = false) :
    schemaForTableRow namespaces' index'.toRelation = schemaForTableRow namespaces index.toRelation := by
  simp only [keyChanged, schemaCacheEntry, hindex', Option.elim_some, Option.map_some,
    Option.any_some, Bool.or_eq_false_iff, bne_eq_false_iff_eq, Bool.not_eq_false'] at h
  obtain ⟨⟨⟨⟨-, hns⟩, hname⟩, hnsname⟩, htupdesc⟩ := h
  apply schemaForTableRow_congr
  · rw [hnsname, hns]
  · exact hname
  · exact hdesc _ _ htupdesc

/-- **An entry that is found unchanged has the schemas of the relation as it is now**, however the
relation was altered since the entry was made. -/
theorem schemas_of_not_changed {old rel : Table}
    (h : schemaCacheEntryChanged equalTupleDescs namespaces
      (schemaCacheEntry namespaces' old keySchema rowSchema) rel = false) :
    schemaForTableRow namespaces' old.toRelation = schemaForTableRow namespaces rel.toRelation ∧
      schemaForTableKey namespaces' old = schemaForTableKey namespaces rel := by
  unfold schemaCacheEntryChanged at h
  simp only [Bool.if_true_left, Bool.or_eq_false_iff, decide_eq_false_iff_not, not_not,
    Bool.not_eq_false'] at h
  obtain ⟨-, hns, hname, hnsname, hkey, htupdesc⟩ := h
  refine ⟨?_, ?_⟩
  · apply schemaForTableRow_congr
    · exact hnsname.trans (congrArg namespaces hns)
    · exact hname
    · exact hdesc _ _ htupdesc
  · -- the key: both without an index, or both with one that is the same
    unfold schemaForTableKey
    cases hnew : tableKeyIndex rel with
    | none =>
      cases hold : tableKeyIndex old with
      | none => rfl
      | some index' =>
        have hid : index'.relid = 0 := by simpa [schemaCacheEntry, hnew, hold] using hkey
        exact absurd hid index'.relid_ne_zero
    | some index =>
      cases hold : tableKeyIndex old with
      | none => simp [schemaCacheEntry, hnew, hold] at hkey
      | some index' =>
        have hid : (schemaCacheEntry namespaces' old keySchema rowSchema).keyId ≠ 0 := by
          simpa [schemaCacheEntry, hold] using index'.relid_ne_zero
        simp only [hnew, if_pos hid] at hkey
        exact keySchema_of_not_changed hdesc hold (eq_false_of_ne_true hkey)

end

/-! ## A lookup -/

section

variable {namespaces : Namespaces} {rel : Table} {entry : SchemaCacheEntry}

/-- An entry is made of the two schemas, if they can be made and the one for rows is not null. -/
theorem schemaCacheEntryUpdate_eq_ok :
    schemaCacheEntryUpdate namespaces rel = .ok entry ↔
      ∃ keySchema rowSchema, schemaForTableKey namespaces rel = .ok keySchema ∧
        schemaForTableRow namespaces rel.toRelation = .ok (some rowSchema) ∧
        entry = schemaCacheEntry namespaces rel keySchema rowSchema := by
  simp only [schemaCacheEntryUpdate, except_bind_eq_ok]
  constructor
  · rintro ⟨keySchema, hkey, rowSchema, hrow, h⟩
    cases rowSchema with
    | none => cases h
    | some rowSchema => exact ⟨keySchema, rowSchema, hkey, hrow, (Except.ok.inj h).symm⟩
  · rintro ⟨keySchema, rowSchema, hkey, hrow, rfl⟩
    exact ⟨keySchema, hkey, some rowSchema, hrow, rfl⟩

theorem rowSchema_of_update (h : schemaCacheEntryUpdate namespaces rel = .ok entry) :
    schemaForTableRow namespaces rel.toRelation = .ok (some entry.rowSchema) := by
  obtain ⟨keySchema, rowSchema, -, hrow, rfl⟩ := schemaCacheEntryUpdate_eq_ok.mp h
  exact hrow

theorem keySchema_of_update (h : schemaCacheEntryUpdate namespaces rel = .ok entry) :
    schemaForTableKey namespaces rel = .ok entry.keySchema := by
  obtain ⟨keySchema, rowSchema, hkey, -, rfl⟩ := schemaCacheEntryUpdate_eq_ok.mp h
  exact hkey

theorem relid_of_update (h : schemaCacheEntryUpdate namespaces rel = .ok entry) :
    entry.relid = rel.relid := by
  obtain ⟨keySchema, rowSchema, -, -, rfl⟩ := schemaCacheEntryUpdate_eq_ok.mp h
  rfl

end

/-- Every entry was made by `schema_cache_entry_update` from its relation as it was at some time. -/
def SchemaCache.Filled (cache : SchemaCache) : Prop :=
  ∀ relid entry, cache relid = some entry →
    ∃ namespaces rel, rel.relid = relid ∧ schemaCacheEntryUpdate namespaces rel = .ok entry

theorem filled_schemaCacheNew : schemaCacheNew.Filled := fun _ _ h => nomatch h

/-- What a lookup returns for a table: the schemas of the table as it is now, in an entry that was in the
cache (0) or that is put there (1 and 2). -/
structure LookedUp (namespaces : Namespaces) (cache : SchemaCache) (rel : Table)
    (r : Nat × SchemaCacheEntry × SchemaCache) : Prop where
  rowSchema : schemaForTableRow namespaces rel.toRelation = .ok (some r.2.1.rowSchema)
  keySchema : schemaForTableKey namespaces rel = .ok r.2.1.keySchema
  relid : r.2.1.relid = rel.relid
  unchanged : r.1 = 0 → cache rel.relid = some r.2.1 ∧ r.2.2 = cache
  changed : r.1 ≠ 0 → r.2.2 = Function.update cache rel.relid (some r.2.1)
  filled : r.2.2.Filled

variable {equalTupleDescs : TupleDesc → TupleDesc → Bool} {namespaces : Namespaces} {cache : SchemaCache}
  {rel : Table} {r : Nat × SchemaCacheEntry × SchemaCache}

theorem filled_update (hcache : cache.Filled) {entry : SchemaCacheEntry}
    (hentry : schemaCacheEntryUpdate namespaces rel = .ok entry) :
    SchemaCache.Filled (Function.update cache rel.relid (some entry)) := by
  intro relid entry' h
  by_cases hrelid : relid = rel.relid
  · subst hrelid
    rw [Function.update_self, Option.some.injEq] at h
    exact ⟨namespaces, rel, rfl, h ▸ hentry⟩
  · rw [Function.update_of_ne hrelid] at h
    exact hcache relid entry' h

/-- **A lookup finds an entry that has not changed, or puts a new one into the cache.** -/
theorem schemaCacheLookup_cases (h : schemaCacheLookup equalTupleDescs namespaces cache rel = .ok r) :
    (∃ entry, cache rel.relid = some entry ∧
        schemaCacheEntryChanged equalTupleDescs namespaces entry rel = false ∧ r = (0, entry, cache)) ∨
      ∃ n entry, n ≠ 0 ∧ schemaCacheEntryUpdate namespaces rel = .ok entry ∧
        r = (n, entry, Function.update cache rel.relid (some entry)) := by
  unfold schemaCacheLookup at h
  cases hentry : cache rel.relid with
  | none =>
    simp only [hentry, except_bind_eq_ok] at h
    obtain ⟨entry, hupdate, hr⟩ := h
    exact .inr ⟨2, entry, by decide, hupdate, (Except.ok.inj hr).symm⟩
  | some entry =>
    simp only [hentry] at h
    cases hchanged : schemaCacheEntryChanged equalTupleDescs namespaces entry rel with
    | true =>
      simp only [hchanged, Bool.not_true, Bool.false_eq_true, if_false, except_bind_eq_ok] at h
      obtain ⟨entry', hupdate, hr⟩ := h
      exact .inr ⟨1, entry', by decide, hupdate, (Except.ok.inj hr).symm⟩
    | false =>
      simp only [hchanged, Bool.not_false, if_true] at h
      exact .inl ⟨entry, rfl, hchanged, (Except.ok.inj h).symm⟩

theorem schemaCacheLookup_spec (hdesc : ∀ a b, equalTupleDescs a b = true → a.live = b.live)
    (hcache : cache.Filled) (h : schemaCacheLookup equalTupleDescs namespaces cache rel = .ok r) :
    LookedUp namespaces cache rel r := by
  rcases schemaCacheLookup_cases h with ⟨entry, hentry, hchanged, rfl⟩ | ⟨n, entry, hn, hupdate, rfl⟩
  · obtain ⟨namespaces', old, hrelid, hupdate⟩ := hcache _ _ hentry
    obtain ⟨keySchema, rowSchema, hkey, hrow, rfl⟩ := schemaCacheEntryUpdate_eq_ok.mp hupdate
    have hschemas := schemas_of_not_changed hdesc hchanged
    exact ⟨hschemas.1 ▸ hrow, hschemas.2 ▸ hkey, hrelid, fun _ => ⟨hentry, rfl⟩, fun h => absurd rfl h,
      hcache⟩
  · exact ⟨rowSchema_of_update hupdate, keySchema_of_update hupdate, relid_of_update hupdate,
      fun h => absurd h hn, fun _ => rfl, filled_update hcache hupdate⟩

/-- A lookup for one table leaves the entries of the others. -/
theorem schemaCacheLookup_other (h : schemaCacheLookup equalTupleDescs namespaces cache rel = .ok r)
    {relid : Oid} (hne : relid ≠ rel.relid) : r.2.2 relid = cache relid := by
  rcases schemaCacheLookup_cases h with ⟨entry, -, -, rfl⟩ | ⟨n, entry, -, -, rfl⟩
  · rfl
  · exact Function.update_of_ne hne _ _

/-- With a key index whose name is taken, an entry with a key schema is found if there was no other
kind. -/
theorem isSome_keySchema_lookup (h : schemaCacheLookup equalTupleDescs namespaces cache rel = .ok r)
    {index : Index} (hindex : tableKeyIndex rel = some index) (hname : isAvroId index.relname)
    (hcache : ∀ entry, cache rel.relid = some entry → entry.keySchema.isSome) :
    r.2.1.keySchema.isSome ∧ ∀ entry, r.2.2 rel.relid = some entry → entry.keySchema.isSome := by
  rcases schemaCacheLookup_cases h with ⟨entry, hentry, -, rfl⟩ | ⟨n, entry, -, hupdate, rfl⟩
  · exact ⟨hcache entry hentry, hcache⟩
  · have hkey := keySchema_of_update hupdate
    simp only [schemaForTableKey, hindex] at hkey
    have hnew : entry.keySchema.isSome := (isSome_schemaForTableRow hkey).trans hname
    refine ⟨hnew, ?_⟩
    intro entry' hentry'
    simp only [Function.update_self, Option.some.injEq] at hentry'
    rwa [← hentry']

end BottledWater.Ext
