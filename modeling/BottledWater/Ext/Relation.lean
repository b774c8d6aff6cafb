/-
# BottledWater.Ext.Relation — tables, their key index and the schemas made from them.

The first half of `ext/oid2avro.c`: `table_key_index` picks the index whose columns are the key of a
table, and `schema_for_table_row` makes an Avro record schema out of a relation, with one field for each
column that is not dropped.  The Avro types of dates and times are records that are defined once in a
schema; `predef_schema` remembers them, and a further column of such a type gets a link.

A relation here is what the catalog says of it at the time of one call.  A name in Postgres can be almost
any text, while the Avro library takes identifiers only: it makes no record under another name, and adds no
field under one.  Nothing in `oid2avro.c` looks at these refusals (the source has a TODO there), so that a
schema can be missing, can lack columns, or can link to a type that was freed with its column.
-/
import BottledWater.Lib.Proc
import BottledWater.Protocol.Frame

namespace BottledWater.Ext

open BottledWater.Lib BottledWater.Lib.Avro BottledWater.Protocol

/-! ## §1 — Relations -/

/-- `FormData_pg_attribute`: a column. -/
structure Attribute where
  attname : String
  atttypid : Oid
  attisdropped : Bool
  deriving DecidableEq, Repr

/-- A tuple descriptor. -/
structure TupleDesc where
  attrs : List Attribute
  /-- Lengths, constraints, defaults: what only `equalTupleDescs` looks at. -/
  details : Bytes
  deriving DecidableEq, Repr

/-- What tables and indexes have in common. -/
structure Relation where
  relid : Oid
  relname : String
  relnamespace : Oid
  tupdesc : TupleDesc
  deriving DecidableEq, Repr

/-- An index with its `pg_index` row.  `indkey` has a number for each indexed column: the attribute
number, 0 for an expression, negative for a system column. -/
structure Index extends Relation where
  indisvalid : Bool
  indisready : Bool
  indisprimary : Bool
  indkey : List Int
  /-- The id of a relation is not `InvalidOid`. -/
  relid_ne_zero : relid ≠ 0
  deriving DecidableEq

/-- `relreplident`. -/
inductive ReplicaIdentity
  | default
  | nothing
  | full
  | index
  deriving DecidableEq, Repr

structure Table extends Relation where
  relreplident : ReplicaIdentity
  /-- The index that `RelationGetReplicaIndex` returns the id of, if any. -/
  replicaIndex : Option Index
  /-- `RelationGetIndexList`. -/
  indexes : List Index
  deriving DecidableEq

/-- `get_namespace_name`, for the namespaces there are. -/
abbrev Namespaces := Oid → String

/-- `table_key_index`. -/
def tableKeyIndex (rel : Table) : Option Index :=
  match rel.relreplident with
  | .nothing => none
  | .index => rel.replicaIndex.or (rel.indexes.find? isKey)
  | .default | .full => rel.indexes.find? isKey
where
  isKey (index : Index) : Bool := index.indisvalid && index.indisready && index.indisprimary

/-! ## §2 — Types -/

abbrev BOOLOID : Oid := 16
abbrev BYTEAOID : Oid := 17
abbrev INT8OID : Oid := 20
abbrev INT2OID : Oid := 21
abbrev INT4OID : Oid := 23
abbrev REGPROCOID : Oid := 24
abbrev OIDOID : Oid := 26
abbrev XIDOID : Oid := 28
abbrev CIDOID : Oid := 29
abbrev FLOAT4OID : Oid := 700
abbrev FLOAT8OID : Oid := 701
abbrev CASHOID : Oid := 790
abbrev DATEOID : Oid := 1082
abbrev TIMEOID : Oid := 1083
abbrev TIMESTAMPOID : Oid := 1114
abbrev TIMESTAMPTZOID : Oid := 1184
abbrev INTERVALOID : Oid := 1186
abbrev TIMETZOID : Oid := 1266
abbrev NUMERICOID : Oid := 1700

/-- `GENERATED_SCHEMA_NAMESPACE`. -/
def generatedSchemaNamespace : String := "com.martinkl.bottledwater.dbschema"

/-- `PREDEFINED_SCHEMA_NAMESPACE`. -/
def predefinedSchemaNamespace : String := "com.martinkl.bottledwater.datatypes"

/-- `predef_schema`: the named types defined so far in a schema. -/
structure PredefSchema where
  dateSchema : Option Schema
  timeTzSchema : Option Schema
  datetimeSchema : Option Schema
  datetimeTzSchema : Option Schema
  intervalSchema : Option Schema
  specialTimeSchema : Option Schema

/-- `memset(&predef, 0, sizeof(predef_schema))`. -/
def PredefSchema.none : PredefSchema := ⟨.none, .none, .none, .none, .none, .none⟩

/-- `avro_schema_link`. -/
def schemaLink (target : Schema) : Schema := .link target.name

def schemaForNumeric : Schema := .double

/-- `schema_for_special_times`: null, the record, or an infinity. -/
def schemaForSpecialTimes (predef : PredefSchema) (recordSchema : Schema) : Schema × PredefSchema :=
  match predef.specialTimeSchema with
  | some enumSchema => (.union [.null, recordSchema, schemaLink enumSchema], predef)
  | none =>
    let enumSchema := .enum "SpecialTime" ["POS_INFINITY", "NEG_INFINITY"]
    (.union [.null, recordSchema, enumSchema], { predef with specialTimeSchema := some enumSchema })

def schemaForDateFields : List (String × Schema) := [("year", .int), ("month", .int), ("day", .int)]

def schemaForTimeFields : List (String × Schema) :=
  [("hour", .int), ("minute", .int), ("second", .int), ("micro", .int)]

def schemaForDate (predef : PredefSchema) : Schema × PredefSchema :=
  match predef.dateSchema with
  | some date => schemaForSpecialTimes predef (schemaLink date)
  | none =>
    let date := .record "Date" predefinedSchemaNamespace schemaForDateFields
    schemaForSpecialTimes { predef with dateSchema := some date } date

def schemaForTimeTz (predef : PredefSchema) : Schema × PredefSchema :=
  match predef.timeTzSchema with
  | some timeTz => (schemaLink timeTz, predef)
  | none =>
    let timeTz := .record "TimeTZ" predefinedSchemaNamespace [("micro", .long), ("zoneOffset", .int)]
    (timeTz, { predef with timeTzSchema := some timeTz })

def schemaForTimestamp (predef : PredefSchema) (withTz : Bool) : Schema × PredefSchema :=
  match withTz, predef.datetimeTzSchema, predef.datetimeSchema with
  | true, some datetimeTz, _ => schemaForSpecialTimes predef (schemaLink datetimeTz)
  | false, _, some datetime => schemaForSpecialTimes predef (schemaLink datetime)
  | true, none, _ =>
    let datetimeTz := .record "DateTimeTZ" predefinedSchemaNamespace
      (schemaForDateFields ++ schemaForTimeFields ++ [("zoneOffset", .int)])
    schemaForSpecialTimes { predef with datetimeTzSchema := some datetimeTz } datetimeTz
  | false, _, none =>
    let datetime := .record "DateTime" predefinedSchemaNamespace
      (schemaForDateFields ++ schemaForTimeFields)
    schemaForSpecialTimes { predef with datetimeSchema := some datetime } datetime

def schemaForInterval (predef : PredefSchema) : Schema × PredefSchema :=
  match predef.intervalSchema with
  | some interval => (schemaLink interval, predef)
  | none =>
    let interval := .record "Interval" predefinedSchemaNamespace
      (schemaForDateFields ++ schemaForTimeFields)
    (interval, { predef with intervalSchema := some interval })

/-- The end of `schema_for_oid`: a union of null with the type. -/
def nullOr (s : Schema × PredefSchema) : Schema × PredefSchema := (.union [.null, s.1], s.2)

/-- `schema_for_oid`.  Strings are the default: the character, bit string, network, geometric, JSON and
UUID types of the `switch` all fall through to it. -/
def schemaForOid (predef : PredefSchema) (typid : Oid) : Schema × PredefSchema :=
  if typid = BOOLOID then nullOr (.boolean, predef)
  else if typid = FLOAT4OID then nullOr (.float, predef)
  else if typid = FLOAT8OID then nullOr (.double, predef)
  else if typid = INT2OID ∨ typid = INT4OID then nullOr (.int, predef)
  else if typid = INT8OID ∨ typid = CASHOID ∨ typid = OIDOID ∨ typid = REGPROCOID ∨ typid = XIDOID ∨
      typid = CIDOID then nullOr (.long, predef)
  else if typid = NUMERICOID then nullOr (schemaForNumeric, predef)
  -- these three are unions already
  else if typid = DATEOID then schemaForDate predef
  else if typid = TIMESTAMPOID then schemaForTimestamp predef false
  else if typid = TIMESTAMPTZOID then schemaForTimestamp predef true
  else if typid = TIMEOID then nullOr (.long, predef)
  else if typid = TIMETZOID then nullOr (schemaForTimeTz predef)
  else if typid = INTERVALOID then nullOr (schemaForInterval predef)
  else if typid = BYTEAOID then nullOr (.bytes, predef)
  else nullOr (.string, predef)

/-! ## §3 — The schema of a relation -/

/-- The ways in which a call of the plugin fails. -/
inductive PluginError
  /-- A call of the Avro library returned an error. -/
  | avro
  /-- "index refers to non-existent attribute number %d" -/
  | nonExistentAttribute (attnum : Int)
  /-- The value does not fit in the largest buffer of `try_writing`. -/
  | noSpace
  /-- A read past the end of an array, through a null pointer or in memory that was freed. -/
  | undefined
  deriving DecidableEq, Repr

/-- `is_avro_id` of the Avro library. -/
def isAvroId (name : String) : Bool :=
  match name.toList with
  | [] => false
  | c :: cs => (c.isAlpha || c == '_') && cs.all fun c => c.isAlphanum || c == '_'

/-- The type that a branch of a union links to. -/
def linkedType : Schema → Option String
  | .link name => some name
  | _ => none

/-- The type that a branch of a union defines. -/
def definedType : Schema → Option String
  | .record name _ _ => some name
  | .enum name _ => some name
  | _ => none

/-- The types that the schema of a column, which is a union, links to. -/
def linkedTypes : Schema → List String
  | .union branches => branches.filterMap linkedType
  | _ => []

/-- The types that the schema of a column defines. -/
def definedTypes : Schema → List String
  | .union branches => branches.filterMap definedType
  | _ => []

/-- The loop of `schema_for_table_row`, where `hasRecord` says whether there is a record.  If
`avro_schema_record_field_append` refuses the field, the column's schema is freed, and with it the types
defined there (`freed`), to which `predef` still points.  `avro_schema_link` reads its target. -/
def schemaForColumns (hasRecord : Bool) :
    PredefSchema → (freed : List String) → List Attribute → Except PluginError (List (String × Schema))
  | _, _, [] => pure []
  | predef, freed, attr :: attrs =>
    if attr.attisdropped then schemaForColumns hasRecord predef freed attrs
    else
      let (columnSchema, predef) := schemaForOid predef attr.atttypid
      if ∃ name ∈ linkedTypes columnSchema, name ∈ freed then throw .undefined
      else if hasRecord && isAvroId attr.attname then do
        let fields ← schemaForColumns hasRecord predef freed attrs
        pure ((attr.attname, columnSchema) :: fields)
      else schemaForColumns hasRecord predef (definedTypes columnSchema ++ freed) attrs

/-- `avro_schema_record`, with the fields it is given then. -/
def avroSchemaRecord (name space : String) (fields : List (String × Schema)) : Option Schema :=
  if isAvroId name then some (.record name space fields) else none

/-- `schema_for_table_row`. -/
def schemaForTableRow (namespaces : Namespaces) (rel : Relation) : Except PluginError (Option Schema) :=
  (schemaForColumns (isAvroId rel.relname) .none [] rel.tupdesc.attrs).map
    (avroSchemaRecord rel.relname (generatedSchemaNamespace ++ "." ++ namespaces rel.relnamespace))

/-- `schema_for_table_key`. -/
def schemaForTableKey (namespaces : Namespaces) (rel : Table) : Except PluginError (Option Schema) :=
  match tableKeyIndex rel with
  | none => pure none
  | some index => schemaForTableRow namespaces index.toRelation

/-! ## §4 — What it depends on -/

/-- Name and type of the columns that are not dropped. -/
def TupleDesc.live (tupdesc : TupleDesc) : List (String × Oid) :=
  (tupdesc.attrs.filter fun attr => !attr.attisdropped).map fun attr => (attr.attname, attr.atttypid)

/-- `schemaForColumns` on the columns that are not dropped. -/
def schemaForLive (hasRecord : Bool) :
    PredefSchema → (freed : List String) → List (String × Oid) → Except PluginError (List (String × Schema))
  | _, _, [] => pure []
  | predef, freed, (attname, atttypid) :: columns =>
    let columnSchema := (schemaForOid predef atttypid).1
    if ∃ name ∈ linkedTypes columnSchema, name ∈ freed then throw .undefined
    else if hasRecord && isAvroId attname then do
      let fields ← schemaForLive hasRecord (schemaForOid predef atttypid).2 freed columns
      pure ((attname, columnSchema) :: fields)
    else
      schemaForLive hasRecord (schemaForOid predef atttypid).2 (definedTypes columnSchema ++ freed) columns

/-- The field of a column is appended: there is a record, and the name is taken. -/
def taken (hasRecord : Bool) (column : String × Oid) : Bool := hasRecord && isAvroId column.1

/-- What the loop does with the next column. -/
theorem schemaForLive_cons_eq_ok {hasRecord : Bool} {predef : PredefSchema} {freed : List String}
    {column : String × Oid} {columns : List (String × Oid)} {fields : List (String × Schema)} :
    schemaForLive hasRecord predef freed (column :: columns) = .ok fields ↔
      (∀ name ∈ linkedTypes (schemaForOid predef column.2).1, name ∉ freed) ∧
      if taken hasRecord column then
        ∃ rest, schemaForLive hasRecord (schemaForOid predef column.2).2 freed columns = .ok rest ∧
          fields = (column.1, (schemaForOid predef column.2).1) :: rest
      else
        schemaForLive hasRecord (schemaForOid predef column.2).2
          (definedTypes (schemaForOid predef column.2).1 ++ freed) columns = .ok fields := by
  obtain ⟨attname, atttypid⟩ := column
  rw [schemaForLive, taken]
  by_cases hlinked : ∃ name ∈ linkedTypes (schemaForOid predef atttypid).1, name ∈ freed
  · obtain ⟨name, hmem, hfreed⟩ := hlinked
    refine iff_of_false ?_ fun h => h.1 name hmem hfreed
    rw [if_pos ⟨name, hmem, hfreed⟩]
    exact fun h => nomatch h
  · have hkept : ∀ name ∈ linkedTypes (schemaForOid predef atttypid).1, name ∉ freed :=
      fun name hmem hfreed => hlinked ⟨name, hmem, hfreed⟩
    rw [if_neg hlinked, and_iff_right hkept]
    split
    · rw [except_bind_eq_ok]
      exact exists_congr fun rest => and_congr_right fun _ =>
        ⟨fun h => (Except.ok.inj h).symm, fun h => congrArg Except.ok h.symm⟩
    · rfl

/-- There is a field for each column that is taken. -/
theorem length_of_schemaForLive {hasRecord : Bool} {columns : List (String × Oid)} :
    ∀ {predef : PredefSchema} {freed : List String} {fields : List (String × Schema)},
      schemaForLive hasRecord predef freed columns = .ok fields →
      fields.length = columns.countP (taken hasRecord) := by
  induction columns with
  | nil =>
    intro predef freed fields h
    cases h
    rfl
  | cons column columns ih =>
    intro predef freed fields h
    obtain ⟨-, hrest⟩ := schemaForLive_cons_eq_ok.mp h
    split at hrest
    · obtain ⟨rest, hrest, rfl⟩ := hrest
      rw [List.length_cons, ih hrest, List.countP_cons_of_pos ‹_›]
    · rw [ih hrest, List.countP_cons_of_neg ‹_›]

theorem schemaForColumns_eq_live (hasRecord : Bool) (predef : PredefSchema) (freed : List String)
    (tupdesc : TupleDesc) :
    schemaForColumns hasRecord predef freed tupdesc.attrs = schemaForLive hasRecord predef freed tupdesc.live := by
  unfold TupleDesc.live
  induction tupdesc.attrs generalizing predef freed with
  | nil => rfl
  | cons attr attrs ih =>
    unfold schemaForColumns
    by_cases h : attr.attisdropped
    · rw [if_pos h, List.filter_cons_of_neg (by simp [h])]
      exact ih predef freed
    · rw [if_neg h, List.filter_cons_of_pos (by simp [h])]
      simp only [List.map_cons, schemaForLive, ih]

/-- **All that `schema_for_table_row` reads**: the name of the namespace, the name of the relation and
the live columns. -/
theorem schemaForTableRow_congr {namespaces namespaces' : Namespaces} {rel rel' : Relation}
    (hns : namespaces rel.relnamespace = namespaces' rel'.relnamespace)
    (hname : rel.relname = rel'.relname) (hlive : rel.tupdesc.live = rel'.tupdesc.live) :
    schemaForTableRow namespaces rel = schemaForTableRow namespaces' rel' := by
  unfold schemaForTableRow
  rw [hns, hname, schemaForColumns_eq_live, schemaForColumns_eq_live, hlive]

/-! ## §5 — Names that the library takes -/

/-- What `schema_for_table_row` returns, if it does. -/
theorem schemaForTableRow_eq_ok {namespaces : Namespaces} {rel : Relation} {schema : Option Schema} :
    schemaForTableRow namespaces rel = .ok schema ↔
      ∃ fields, schemaForLive (isAvroId rel.relname) .none [] rel.tupdesc.live = .ok fields ∧
        avroSchemaRecord rel.relname (generatedSchemaNamespace ++ "." ++ namespaces rel.relnamespace) fields =
          schema := by
  rw [schemaForTableRow, schemaForColumns_eq_live]
  cases schemaForLive (isAvroId rel.relname) .none [] rel.tupdesc.live <;> simp [Except.map]

/-- The names of a relation and of its columns are Avro identifiers. -/
structure Relation.AvroNames (rel : Relation) : Prop where
  relname : isAvroId rel.relname
  attnames : ∀ column ∈ rel.tupdesc.live, isAvroId column.1

/-- The fields for columns that are all taken. -/
def fieldsFor : PredefSchema → List (String × Oid) → List (String × Schema)
  | _, [] => []
  | predef, (attname, atttypid) :: columns =>
    (attname, (schemaForOid predef atttypid).1) :: fieldsFor (schemaForOid predef atttypid).2 columns

/-- **`rel.schema namespaces`** — the schema of a relation whose names are all taken. -/
def Relation.schema (namespaces : Namespaces) (rel : Relation) : Schema :=
  .record rel.relname (generatedSchemaNamespace ++ "." ++ namespaces rel.relnamespace)
    (fieldsFor .none rel.tupdesc.live)

theorem schemaForLive_of_ids {columns : List (String × Oid)} (h : ∀ column ∈ columns, isAvroId column.1)
    (predef : PredefSchema) : schemaForLive true predef [] columns = .ok (fieldsFor predef columns) := by
  induction columns generalizing predef with
  | nil => rfl
  | cons column columns ih =>
    obtain ⟨hname, hnames⟩ := List.forall_mem_cons.mp h
    obtain ⟨attname, atttypid⟩ := column
    simp only [schemaForLive, fieldsFor, List.not_mem_nil, and_false, exists_false, if_false, Bool.true_and,
      if_pos hname, ih hnames]
    rfl

theorem Relation.AvroNames.schemaForTableRow_eq {rel : Relation} (h : rel.AvroNames)
    (namespaces : Namespaces) : schemaForTableRow namespaces rel = .ok (some (rel.schema namespaces)) := by
  refine schemaForTableRow_eq_ok.mpr ⟨_, ?_, if_pos h.relname⟩
  rw [h.relname]
  exact schemaForLive_of_ids h.attnames .none

/-- The result is null just if the name of the relation is not taken. -/
theorem isSome_schemaForTableRow {namespaces : Namespaces} {rel : Relation} {schema : Option Schema}
    (h : schemaForTableRow namespaces rel = .ok schema) : schema.isSome = isAvroId rel.relname := by
  obtain ⟨fields, -, rfl⟩ := schemaForTableRow_eq_ok.mp h
  cases hname : isAvroId rel.relname <;> simp [avroSchemaRecord, hname]

/-- The schema has the name of the relation. -/
theorem name_of_schemaForTableRow {namespaces : Namespaces} {rel : Relation} {schema : Schema}
    (h : schemaForTableRow namespaces rel = .ok (some schema)) : schema.name = rel.relname := by
  obtain ⟨fields, -, hrecord⟩ := schemaForTableRow_eq_ok.mp h
  obtain ⟨-, ⟨⟩⟩ := Option.ite_none_right_eq_some.mp hrecord
  rfl

end BottledWater.Ext
