/-
# BottledWater.Ext.Datum — from a Postgres datum to an Avro value.

`update_avro_with_datum` of `ext/oid2avro.c` and the functions it calls.  Where the encoding of rows takes
the conversion of one datum as a parameter, this is that parameter: the code as it is, with every call of
a setter, at a field that has the type `schema_for_oid` declared for the column.

Postgres itself stays a parameter: the calendar functions `j2date`, `timestamp2tm` and `interval2tm`, and
the output function of a type.  A datum is tagged with the kind of value that is stored, which the type of
its column says; reading one as another kind is not modelled further than that it gives no value.
-/
import BottledWater.Ext.Encoding
import BottledWater.Lib.Setter

namespace BottledWater.Ext

open BottledWater.Lib BottledWater.Lib.Avro BottledWater.Protocol

/-! ## §1 — Datums -/

abbrev CHAROID : Oid := 18
abbrev NAMEOID : Oid := 19
abbrev TEXTOID : Oid := 25
abbrev BPCHAROID : Oid := 1042
abbrev VARCHAROID : Oid := 1043

/-- The cases of the `switch` in `update_avro_with_datum`. -/
inductive TypeCase
  | bool | float4 | float8 | int2 | int4 | int8 | cash | oid | xid | cid | numeric
  | date | time | timetz | timestamp | timestamptz | interval
  | bytea | char | name | text | default
  deriving DecidableEq, Repr

/-- The labels of the cases. -/
def caseLabels : List (Oid × TypeCase) :=
  [(BOOLOID, .bool), (FLOAT4OID, .float4), (FLOAT8OID, .float8), (INT2OID, .int2), (INT4OID, .int4),
    (INT8OID, .int8), (CASHOID, .cash), (OIDOID, .oid), (REGPROCOID, .oid), (XIDOID, .xid), (CIDOID, .cid),
    (NUMERICOID, .numeric), (DATEOID, .date), (TIMEOID, .time), (TIMETZOID, .timetz),
    (TIMESTAMPOID, .timestamp), (TIMESTAMPTZOID, .timestamptz), (INTERVALOID, .interval),
    (BYTEAOID, .bytea), (CHAROID, .char), (NAMEOID, .name), (TEXTOID, .text), (BPCHAROID, .text),
    (VARCHAROID, .text)]

/-- `switch (typid)`. -/
def typeCase (typid : Oid) : TypeCase := (caseLabels.lookup typid).getD .default

/-- A type has a label, or it goes to the default. -/
theorem typeCase_mem_or (typid : Oid) :
    (typid, typeCase typid) ∈ caseLabels ∨
      typeCase typid = .default ∧ ∀ label ∈ caseLabels, typid ≠ label.1 := by
  unfold typeCase
  cases h : caseLabels.lookup typid with
  | some c =>
    obtain ⟨before, after, hlabels, -⟩ := List.lookup_eq_some_iff.mp h
    exact .inl (by simp [hlabels])
  | none => exact .inr ⟨rfl, by simpa using List.lookup_eq_none_iff.mp h⟩

/-- A variable-length value is smaller than a gigabyte. -/
abbrev maxVarlena : Nat := 2 ^ 30

/-- The characters of a text: Postgres stores no NUL. -/
structure Text where
  bytes : Bytes
  length_lt : bytes.length < maxVarlena
  no_nul : 0 ∉ bytes
  deriving DecidableEq

structure Bytea where
  bytes : Bytes
  length_lt : bytes.length < maxVarlena
  deriving DecidableEq

/-- A value, by the kind of its representation. -/
inductive Datum
  | bool (b : Bool)
  | float4 (bits : UInt32)
  | float8 (bits : UInt64)
  | int2 (n : Int16)
  | int4 (n : Int32)
  /-- `bigint` and `money`. -/
  | int8 (n : Int64)
  /-- `oid`, `regproc`, `xid` and `cid`. -/
  | uint32 (n : UInt32)
  | numeric (digits : Bytes)
  /-- Days since 2000. -/
  | date (days : Int32)
  | time (micro : Int64)
  | timetz (micro : Int64) (zone : Int32)
  /-- Microseconds since 2000, with or without time zone. -/
  | timestamp (micro : Int64)
  | interval (micro : Int64) (day month : Int32)
  | bytea (b : Bytea)
  | char (c : UInt8)
  /-- `name` and the types stored like `text`. -/
  | text (t : Text)
  /-- A value of any other type. -/
  | other (representation : Bytes)
  deriving DecidableEq

/-- The kind of value that each case reads. -/
inductive IsValue : TypeCase → Datum → Prop
  | bool (b : Bool) : IsValue .bool (.bool b)
  | float4 (bits : UInt32) : IsValue .float4 (.float4 bits)
  | float8 (bits : UInt64) : IsValue .float8 (.float8 bits)
  | int2 (n : Int16) : IsValue .int2 (.int2 n)
  | int4 (n : Int32) : IsValue .int4 (.int4 n)
  | int8 (n : Int64) : IsValue .int8 (.int8 n)
  | cash (n : Int64) : IsValue .cash (.int8 n)
  | oid (n : UInt32) : IsValue .oid (.uint32 n)
  | xid (n : UInt32) : IsValue .xid (.uint32 n)
  | cid (n : UInt32) : IsValue .cid (.uint32 n)
  | numeric (digits : Bytes) : IsValue .numeric (.numeric digits)
  | date (days : Int32) : IsValue .date (.date days)
  | time (micro : Int64) : IsValue .time (.time micro)
  | timetz (micro : Int64) (zone : Int32) : IsValue .timetz (.timetz micro zone)
  | timestamp (micro : Int64) : IsValue .timestamp (.timestamp micro)
  | timestamptz (micro : Int64) : IsValue .timestamptz (.timestamp micro)
  | interval (micro : Int64) (day month : Int32) : IsValue .interval (.interval micro day month)
  | bytea (b : Bytea) : IsValue .bytea (.bytea b)
  | char (c : UInt8) : IsValue .char (.char c)
  | name (t : Text) : IsValue .name (.text t)
  | text (t : Text) : IsValue .text (.text t)
  | default (representation : Bytes) : IsValue .default (.other representation)

/-- A value of a type. -/
def HasType (typid : Oid) (datum : Datum) : Prop := IsValue (typeCase typid) datum

/-! ## §2 — What Postgres provides -/

/-- What the code reads of a `pg_tm`. -/
structure PgTm where
  year : Int32
  mon : Int32
  mday : Int32
  hour : Int32
  min : Int32
  sec : Int32
  deriving DecidableEq, Repr

structure Postgres where
  /-- `j2date`: year, month and day of a Julian day. -/
  j2date : Int32 → Int32 × Int32 × Int32
  /-- `timestamp2tm` without a time zone: the time and the microseconds; `none` out of range. -/
  timestamp2tm : Int64 → Option (PgTm × Int32)
  /-- `timestamp2tm` in the time zone of the server, with its offset. -/
  timestamptz2tm : Int64 → Option (PgTm × Int32 × Int32)
  /-- `interval2tm`. -/
  interval2tm : Int64 → Int32 → Int32 → PgTm × Int32
  /-- `OidOutputFunctionCall`, with the output function of the type. -/
  outputFunctionCall : Oid → Datum → Text

/-- `DATEVAL_NOBEGIN` and `DATEVAL_NOEND`. -/
def datevalNobegin : Int32 := Int32.minValue
def datevalNoend : Int32 := Int32.maxValue

/-- `DT_NOBEGIN` and `DT_NOEND`. -/
def dtNobegin : Int64 := Int64.minValue
def dtNoend : Int64 := Int64.maxValue

/-- `POSTGRES_EPOCH_JDATE`. -/
def postgresEpochJdate : Int32 := 2451545

/-! ## §3 — `update_avro_with_datum` -/

section

variable (pg : Postgres)

/-- An infinity: symbol 1 is the negative one. -/
def updateAvroWithSpecialTime (nobegin : Bool) : Setter := setBranch 2 (setEnum (if nobegin then 1 else 0))

/-- The fields that timestamps and intervals have in common. -/
def timeSetters (decoded : PgTm) (fsec : Int32) : List Setter :=
  [setInt decoded.year, setInt decoded.mon, setInt decoded.mday, setInt decoded.hour, setInt decoded.min,
    setInt decoded.sec, setInt fsec]

/-- `update_avro_with_date`. -/
def updateAvroWithDate (date : Int32) : Setter :=
  if date = datevalNobegin ∨ date = datevalNoend then updateAvroWithSpecialTime (date = datevalNobegin)
  else
    let (year, month, day) := pg.j2date (date + postgresEpochJdate)
    setBranch 1 (setFields [setInt year, setInt month, setInt day])

/-- `update_avro_with_time_tz`.  Postgres counts offsets westward, ISO 8601 eastward. -/
def updateAvroWithTimeTz (micro : Int64) (zone : Int32) : Setter := setFields [setLong micro, setInt (-zone)]

/-- `update_avro_with_timestamp`.  A time that is out of range is an error. -/
def updateAvroWithTimestamp (withTz : Bool) (timestamp : Int64) : Setter :=
  if timestamp = dtNobegin ∨ timestamp = dtNoend then updateAvroWithSpecialTime (timestamp = dtNobegin)
  else if withTz then
    match pg.timestamptz2tm timestamp with
    | some (decoded, fsec, tzOffset) =>
      setBranch 1 (setFields (timeSetters decoded fsec ++ [setInt (-tzOffset)]))
    | none => fun _ _ => none
  else
    match pg.timestamp2tm timestamp with
    | some (decoded, fsec) => setBranch 1 (setFields (timeSetters decoded fsec))
    | none => fun _ _ => none

/-- `update_avro_with_interval`. -/
def updateAvroWithInterval (micro : Int64) (day month : Int32) : Setter :=
  let (decoded, fsec) := pg.interval2tm micro day month
  setFields (timeSetters decoded fsec)

/-- `update_avro_with_datum`.  Dates and timestamps choose the branch themselves. -/
def updateAvroWithDatum (typid : Oid) (datum : Datum) : Setter :=
  match typeCase typid, datum with
  | .bool, .bool b => setBranch 1 (setBoolean b)
  | .float4, .float4 bits => setBranch 1 (setFloat bits)
  | .float8, .float8 bits => setBranch 1 (setDouble bits)
  | .int2, .int2 n => setBranch 1 (setInt n.toInt32)
  | .int4, .int4 n => setBranch 1 (setInt n)
  | .int8, .int8 n => setBranch 1 (setLong n)
  | .cash, .int8 n => setBranch 1 (setLong n)
  | .oid, .uint32 n => setBranch 1 (setLong n.toUInt64.toInt64)
  | .xid, .uint32 n => setBranch 1 (setLong n.toUInt64.toInt64)
  | .cid, .uint32 n => setBranch 1 (setLong n.toUInt64.toInt64)
  -- the number is fetched, but nothing is set
  | .numeric, .numeric _ => setBranch 1 leave
  | .date, .date days => updateAvroWithDate pg days
  | .time, .time micro => setBranch 1 (setLong micro)
  | .timetz, .timetz micro zone => setBranch 1 (updateAvroWithTimeTz micro zone)
  | .timestamp, .timestamp micro => updateAvroWithTimestamp pg false micro
  | .timestamptz, .timestamp micro => updateAvroWithTimestamp pg true micro
  | .interval, .interval micro day month => setBranch 1 (updateAvroWithInterval pg micro day month)
  | .bytea, .bytea b => setBranch 1 (setBytes b.bytes)
  | .char, .char c => setBranch 1 (setString [c])
  | .name, .text t => setBranch 1 (setString t.bytes)
  | .text, .text t => setBranch 1 (setString t.bytes)
  | .default, .other r => setBranch 1 (setString (pg.outputFunctionCall typid (.other r)).bytes)
  | _, _ => fun _ _ => none

/-- A field of a row or of a key: branch 0 for null. -/
def setColumn (column : Column Datum) : Setter :=
  match column.2 with
  | none => setBranch 0 leave
  | some datum => updateAvroWithDatum pg column.1 datum

end

/-! ## §4 — The types of a column -/

def dateType : Schema := .record "Date" predefinedSchemaNamespace schemaForDateFields

def timeTzType : Schema :=
  .record "TimeTZ" predefinedSchemaNamespace [("micro", .long), ("zoneOffset", .int)]

def datetimeType : Schema :=
  .record "DateTime" predefinedSchemaNamespace (schemaForDateFields ++ schemaForTimeFields)

def datetimeTzType : Schema :=
  .record "DateTimeTZ" predefinedSchemaNamespace
    (schemaForDateFields ++ schemaForTimeFields ++ [("zoneOffset", .int)])

def intervalType : Schema :=
  .record "Interval" predefinedSchemaNamespace (schemaForDateFields ++ schemaForTimeFields)

def specialTimeType : Schema := .enum "SpecialTime" ["POS_INFINITY", "NEG_INFINITY"]

/-- The types that get a name. -/
def predefinedTypes : List Schema :=
  [dateType, timeTzType, datetimeType, datetimeTzType, intervalType, specialTimeType]

/-- The type that a link points to: `avro_schema_link` is called with these only. -/
def linkTarget (name : String) : Option Schema := predefinedTypes.find? fun s => s.name == name

/-- The schemas remembered are those of their types. -/
structure PredefSchema.Named (predef : PredefSchema) : Prop where
  date : ∀ s ∈ predef.dateSchema, s = dateType
  timeTz : ∀ s ∈ predef.timeTzSchema, s = timeTzType
  datetime : ∀ s ∈ predef.datetimeSchema, s = datetimeType
  datetimeTz : ∀ s ∈ predef.datetimeTzSchema, s = datetimeTzType
  interval : ∀ s ∈ predef.intervalSchema, s = intervalType
  specialTime : ∀ s ∈ predef.specialTimeSchema, s = specialTimeType

theorem PredefSchema.none_named : PredefSchema.none.Named := ⟨nofun, nofun, nofun, nofun, nofun, nofun⟩

/-- The six types, by name. -/
inductive NamedType
  | date | timeTz | datetime | datetimeTz | interval | specialTime
  deriving DecidableEq, Repr

def NamedType.type : NamedType → Schema
  | date => dateType
  | timeTz => timeTzType
  | datetime => datetimeType
  | datetimeTz => datetimeTzType
  | interval => intervalType
  | specialTime => specialTimeType

/-- The memo of a type. -/
def PredefSchema.get (predef : PredefSchema) : NamedType → Option Schema
  | .date => predef.dateSchema
  | .timeTz => predef.timeTzSchema
  | .datetime => predef.datetimeSchema
  | .datetimeTz => predef.datetimeTzSchema
  | .interval => predef.intervalSchema
  | .specialTime => predef.specialTimeSchema

def PredefSchema.define (predef : PredefSchema) : NamedType → PredefSchema
  | .date => { predef with dateSchema := some dateType }
  | .timeTz => { predef with timeTzSchema := some timeTzType }
  | .datetime => { predef with datetimeSchema := some datetimeType }
  | .datetimeTz => { predef with datetimeTzSchema := some datetimeTzType }
  | .interval => { predef with intervalSchema := some intervalType }
  | .specialTime => { predef with specialTimeSchema := some specialTimeType }

theorem PredefSchema.get_define (predef : PredefSchema) (t t' : NamedType) :
    (predef.define t).get t' = if t' = t then some t.type else predef.get t' := by
  cases t <;> cases t' <;> rfl

theorem PredefSchema.named_iff {predef : PredefSchema} :
    predef.Named ↔ ∀ t, ∀ s ∈ predef.get t, s = t.type := by
  constructor
  · rintro h (_ | _ | _ | _ | _ | _)
    exacts [h.date, h.timeTz, h.datetime, h.datetimeTz, h.interval, h.specialTime]
  · intro h
    exact ⟨h .date, h .timeTz, h .datetime, h .datetimeTz, h .interval, h .specialTime⟩

/-- A link to the type if it is remembered; otherwise its definition, which is then remembered. -/
def linkOrDefine (predef : PredefSchema) (t : NamedType) : Schema × PredefSchema :=
  match predef.get t with
  | some s => (schemaLink s, predef)
  | none => (t.type, predef.define t)

/-! The functions of the source in these terms. -/

section

variable (predef : PredefSchema)

theorem schemaForSpecialTimes_eq (recordSchema : Schema) :
    schemaForSpecialTimes predef recordSchema =
      (.union [.null, recordSchema, (linkOrDefine predef .specialTime).1],
        (linkOrDefine predef .specialTime).2) := by
  simp only [schemaForSpecialTimes, linkOrDefine, PredefSchema.get]
  cases predef.specialTimeSchema <;> rfl

theorem schemaForDate_eq : schemaForDate predef =
    schemaForSpecialTimes (linkOrDefine predef .date).2 (linkOrDefine predef .date).1 := by
  simp only [schemaForDate, linkOrDefine, PredefSchema.get]
  cases predef.dateSchema <;> rfl

theorem schemaForTimestamp_eq (withTz : Bool) : schemaForTimestamp predef withTz =
    let record := linkOrDefine predef (if withTz then .datetimeTz else .datetime)
    schemaForSpecialTimes record.2 record.1 := by
  cases withTz with
  | true =>
    simp only [schemaForTimestamp, linkOrDefine, PredefSchema.get, if_true]
    cases predef.datetimeTzSchema <;> rfl
  | false =>
    simp only [schemaForTimestamp, linkOrDefine, PredefSchema.get, Bool.false_eq_true, if_false]
    cases predef.datetimeSchema <;> rfl

theorem schemaForTimeTz_eq : schemaForTimeTz predef = linkOrDefine predef .timeTz := by
  simp only [schemaForTimeTz, linkOrDefine, PredefSchema.get]
  cases predef.timeTzSchema <;> rfl

theorem schemaForInterval_eq : schemaForInterval predef = linkOrDefine predef .interval := by
  simp only [schemaForInterval, linkOrDefine, PredefSchema.get]
  cases predef.intervalSchema <;> rfl

end

/-- The branches of the field of a column. -/
def branchTypes : TypeCase → List Schema
  | .bool => [.null, .boolean]
  | .float4 => [.null, .float]
  | .float8 | .numeric => [.null, .double]
  | .int2 | .int4 => [.null, .int]
  | .int8 | .cash | .oid | .xid | .cid | .time => [.null, .long]
  | .date => [.null, dateType, specialTimeType]
  | .timetz => [.null, timeTzType]
  | .timestamp => [.null, datetimeType, specialTimeType]
  | .timestamptz => [.null, datetimeTzType, specialTimeType]
  | .interval => [.null, intervalType]
  | .bytea => [.null, .bytes]
  | .char | .name | .text | .default => [.null, .string]

/-- A schema made for a column: a union with these branches, some of them perhaps by a link. -/
def Declares (types : List Schema) (s : Schema × PredefSchema) : Prop :=
  s.2.Named ∧ ∃ branches, s.1 = .union branches ∧ branches.map (resolve linkTarget) = types.map some

section

variable {predef : PredefSchema}

theorem named_linkOrDefine (hpredef : predef.Named) (t : NamedType) : (linkOrDefine predef t).2.Named := by
  unfold linkOrDefine
  cases predef.get t with
  | some s => exact hpredef
  | none =>
    rw [PredefSchema.named_iff] at hpredef ⊢
    intro t' s hs
    rw [PredefSchema.get_define] at hs
    split at hs
    · subst t'
      exact (Option.some.inj hs).symm
    · exact hpredef t' s hs

theorem resolve_linkOrDefine (hpredef : predef.Named) (t : NamedType) :
    resolve linkTarget (linkOrDefine predef t).1 = some t.type := by
  unfold linkOrDefine
  cases hs : predef.get t with
  | some s =>
    obtain rfl := PredefSchema.named_iff.mp hpredef t s hs
    cases t <;> rfl
  | none => cases t <;> rfl

theorem declares_specialTimes (hpredef : predef.Named) (t : NamedType) :
    Declares [.null, t.type, specialTimeType]
      (schemaForSpecialTimes (linkOrDefine predef t).2 (linkOrDefine predef t).1) := by
  have hrecord := named_linkOrDefine hpredef t
  rw [schemaForSpecialTimes_eq]
  refine ⟨named_linkOrDefine hrecord .specialTime, _, rfl, ?_⟩
  rw [List.map_cons, List.map_cons, List.map_singleton, resolve_linkOrDefine hpredef,
    resolve_linkOrDefine hrecord]
  rfl

theorem declares_nullOr {s : Schema × PredefSchema} {type : Schema} (hpredef : s.2.Named)
    (hs : resolve linkTarget s.1 = some type) : Declares [.null, type] (nullOr s) :=
  ⟨hpredef, _, rfl, by rw [List.map_cons, List.map_cons, hs]; rfl⟩

theorem declares_linkOrDefine (hpredef : predef.Named) (t : NamedType) :
    Declares [.null, t.type] (nullOr (linkOrDefine predef t)) :=
  declares_nullOr (named_linkOrDefine hpredef t) (resolve_linkOrDefine hpredef t)

/-- What `schema_for_oid` does in each case: null or a primitive type, or one of the named types. -/
inductive SchemaOf (predef : PredefSchema) : TypeCase → Schema × PredefSchema → Prop
  | primitive {c : TypeCase} {s : Schema} (hs : s.isPrimitive) (htypes : branchTypes c = [.null, s]) :
      SchemaOf predef c (nullOr (s, predef))
  | date : SchemaOf predef .date (schemaForDate predef)
  | timestamp : SchemaOf predef .timestamp (schemaForTimestamp predef false)
  | timestamptz : SchemaOf predef .timestamptz (schemaForTimestamp predef true)
  | timetz : SchemaOf predef .timetz (nullOr (schemaForTimeTz predef))
  | interval : SchemaOf predef .interval (nullOr (schemaForInterval predef))

/-- The cases with a label. -/
theorem schemaOf_caseLabels (predef : PredefSchema) :
    ∀ label ∈ caseLabels, SchemaOf predef label.2 (schemaForOid predef label.1) := by
  simp only [caseLabels, List.forall_mem_cons]
  -- from `bool` to `numeric`, the dates and times, and the strings
  exact ⟨.primitive rfl rfl, .primitive rfl rfl, .primitive rfl rfl, .primitive rfl rfl, .primitive rfl rfl,
    .primitive rfl rfl, .primitive rfl rfl, .primitive rfl rfl, .primitive rfl rfl, .primitive rfl rfl,
    .primitive rfl rfl, .primitive rfl rfl, .date, .primitive rfl rfl, .timetz, .timestamp, .timestamptz,
    .interval, .primitive rfl rfl, .primitive rfl rfl, .primitive rfl rfl, .primitive rfl rfl,
    .primitive rfl rfl, .primitive rfl rfl, by simp⟩

theorem schemaOf_schemaForOid (predef : PredefSchema) (typid : Oid) :
    SchemaOf predef (typeCase typid) (schemaForOid predef typid) := by
  obtain hlabel | ⟨hdefault, hother⟩ := typeCase_mem_or typid
  · exact schemaOf_caseLabels predef _ hlabel
  · rw [hdefault]
    simp only [caseLabels, List.forall_mem_cons] at hother
    simp only [schemaForOid, hother, if_false, or_self]
    exact .primitive rfl rfl

theorem SchemaOf.declares {c : TypeCase} {s : Schema × PredefSchema} (h : SchemaOf predef c s)
    (hpredef : predef.Named) : Declares (branchTypes c) s := by
  cases h with
  | primitive hs htypes =>
    rw [htypes]
    exact declares_nullOr hpredef (resolve_of_isPrimitive hs)
  | date =>
    rw [schemaForDate_eq]
    exact declares_specialTimes hpredef .date
  | timestamp =>
    rw [schemaForTimestamp_eq]
    exact declares_specialTimes hpredef .datetime
  | timestamptz =>
    rw [schemaForTimestamp_eq]
    exact declares_specialTimes hpredef .datetimeTz
  | timetz =>
    rw [schemaForTimeTz_eq]
    exact declares_linkOrDefine hpredef .timeTz
  | interval =>
    rw [schemaForInterval_eq]
    exact declares_linkOrDefine hpredef .interval

/-- **The field of a column has the branches of its type**, whatever columns came before. -/
theorem declares_schemaForOid (hpredef : predef.Named) (typid : Oid) :
    Declares (branchTypes (typeCase typid)) (schemaForOid predef typid) :=
  (schemaOf_schemaForOid predef typid).declares hpredef

/-! ## §5 — The value of a column -/

/-- The branches that are not null: the type of the column, and the infinities. -/
def NotNull (branch : Nat) : Prop := branch = 1 ∨ branch = 2

theorem oneBranch_specialTime (nobegin : Bool) : OneBranch NotNull (updateAvroWithSpecialTime nobegin) :=
  .scalar 2 (by simp [NotNull]) _

theorem oneBranch_date (pg : Postgres) (date : Int32) : OneBranch NotNull (updateAvroWithDate pg date) := by
  unfold updateAvroWithDate
  split
  · exact oneBranch_specialTime _
  · exact .fields 1 (by simp [NotNull]) [.int _, .int _, .int _]

theorem oneBranch_timestamp (pg : Postgres) (withTz : Bool) (timestamp : Int64) :
    OneBranch NotNull (updateAvroWithTimestamp pg withTz timestamp) := by
  unfold updateAvroWithTimestamp
  split
  · exact oneBranch_specialTime _
  · split <;> split
    · exact .fields 1 (by simp [NotNull]) [.int _, .int _, .int _, .int _, .int _, .int _, .int _, .int _]
    · exact .fails
    · exact .fields 1 (by simp [NotNull]) [.int _, .int _, .int _, .int _, .int _, .int _, .int _]
    · exact .fails

theorem oneBranch_datum (pg : Postgres) (typid : Oid) (datum : Datum) :
    OneBranch NotNull (updateAvroWithDatum pg typid datum) := by
  unfold updateAvroWithDatum
  split
  case h_11 => exact .leave 1 (by simp [NotNull])
  case h_12 => exact oneBranch_date pg _
  case h_14 => exact .fields 1 (by simp [NotNull]) [.long _, .int _]
  case h_15 => exact oneBranch_timestamp pg false _
  case h_16 => exact oneBranch_timestamp pg true _
  case h_17 => exact .fields 1 (by simp [NotNull]) [.int _, .int _, .int _, .int _, .int _, .int _, .int _]
  case h_23 => exact .fails
  all_goals exact .scalar 1 (by simp [NotNull]) _

theorem oneBranch_column (pg : Postgres) (column : Column Datum) :
    OneBranch (· < maxSize) (setColumn pg column) := by
  unfold setColumn
  split
  · exact .leave 0 (by decide)
  · apply (oneBranch_datum pg _ _).mono
    rintro branch (rfl | rfl) <;> decide

/-- The Avro value of a datum. -/
def datumValue (pg : Postgres) (typid : Oid) (datum : Datum) : Option Value :=
  updateAvroWithDatum pg typid datum linkTarget (.union (branchTypes (typeCase typid)))

/-- **`avroValue pg column`** — the Avro value of a column, null or not. -/
def avroValue (pg : Postgres) (column : Column Datum) : Option Value :=
  setColumn pg column linkTarget (.union (branchTypes (typeCase column.1)))

/-- The functions that the encoding of rows depends on, with this conversion. -/
def conversions (pg : Postgres) (equalTupleDescs : TupleDesc → TupleDesc → Bool)
    (schemaToJson : Schema → Bytes) : Conversions Datum where
  equalTupleDescs := equalTupleDescs
  updateAvroWithDatum := datumValue pg
  schemaToJson := schemaToJson

theorem columnValue_conversions (pg : Postgres) (equalTupleDescs : TupleDesc → TupleDesc → Bool)
    (schemaToJson : Schema → Bytes) (column : Column Datum) :
    columnValue (conversions pg equalTupleDescs schemaToJson) column = avroValue pg column := by
  unfold columnValue avroValue setColumn
  cases column.2 with
  | none => cases typeCase column.1 <;> rfl
  | some datum => rfl

theorem resolve_branchTypes (c : TypeCase) :
    (branchTypes c).map (resolve linkTarget) = (branchTypes c).map some := by
  cases c <;> rfl

/-- **The value does not depend on the columns before**: where the type has been defined by one of them,
the setters find it behind the link. -/
theorem setColumn_schemaForOid (pg : Postgres) (hpredef : predef.Named) (column : Column Datum) :
    setColumn pg column linkTarget (schemaForOid predef column.1).1 = avroValue pg column := by
  obtain ⟨-, branches, hschema, hbranches⟩ := declares_schemaForOid hpredef column.1
  rw [hschema]
  exact (oneBranch_column pg column).byBranches (hbranches.trans (resolve_branchTypes _).symm)

/-- The values of a link. -/
def isPredefined (name : String) (v : Value) : Bool :=
  (linkTarget name).any fun s => conforms (fun _ _ => false) s v

/-- None of the types with a name has a link inside. -/
theorem follows_linkTarget : Follows linkTarget isPredefined := by
  intro name s v hs hv
  unfold isPredefined
  rw [hs, Option.any_some]
  have hmem := List.mem_of_find?_eq_some hs
  simp only [predefinedTypes, List.mem_cons, List.not_mem_nil, or_false] at hmem
  rcases hmem with rfl | rfl | rfl | rfl | rfl | rfl
  case inr.inr.inr.inr.inr =>
    cases v <;> simp_all [conforms, specialTimeType]
  all_goals
    cases v with
    | record vs => exact conformsFields_of_numbers (by simp [schemaForDateFields, schemaForTimeFields]) hv
    | _ => cases hv

/-- What `timestamp2tm` can decode, if the code calls it. -/
def InRange (pg : Postgres) : TypeCase → Datum → Prop
  | .timestamp, .timestamp micro => micro = dtNobegin ∨ micro = dtNoend ∨ (pg.timestamp2tm micro).isSome
  | .timestamptz, .timestamp micro => micro = dtNobegin ∨ micro = dtNoend ∨ (pg.timestamptz2tm micro).isSome
  | _, _ => True

theorem takes_cString {text : Bytes} (h : text.length < maxVarlena) : takes .string (.string (cString text)) := by
  have hlen : (text.takeWhile (· ≠ 0)).length ≤ text.length := (List.takeWhile_sublist _).length_le
  unfold maxVarlena at h
  simp only [takes, cString, List.length_append, List.length_singleton, List.getLast?_append, maxSize,
    Bool.and_eq_true, decide_eq_true_eq]
  exact ⟨by omega, by simp⟩

theorem takes_bytea (b : Bytea) : takes .bytes (.bytes b.bytes) := by
  have hlen := b.length_lt
  simp only [takes, maxVarlena, maxSize, decide_eq_true_eq] at hlen ⊢
  omega

theorem exists_updateAvroWithTimestamp (pg : Postgres) (withTz : Bool) {micro : Int64}
    (hrange : micro = dtNobegin ∨ micro = dtNoend ∨
      if withTz then (pg.timestamptz2tm micro).isSome else (pg.timestamp2tm micro).isSome) :
    ∃ v, updateAvroWithTimestamp pg withTz micro linkTarget
      (.union (branchTypes (if withTz then .timestamptz else .timestamp))) = some v := by
  by_cases hspecial : micro = dtNobegin ∨ micro = dtNoend
  · unfold updateAvroWithTimestamp
    rw [if_pos hspecial]
    cases withTz <;> cases decide (micro = dtNobegin) <;> exact ⟨_, rfl⟩
  · obtain hrange := (or_assoc.mpr hrange).resolve_left hspecial
    unfold updateAvroWithTimestamp
    rw [if_neg hspecial]
    cases withTz with
    | true =>
      obtain ⟨decoded, hdecoded⟩ := Option.isSome_iff_exists.mp hrange
      simp only [hdecoded]
      exact ⟨_, rfl⟩
    | false =>
      obtain ⟨decoded, hdecoded⟩ := Option.isSome_iff_exists.mp hrange
      simp only [hdecoded]
      exact ⟨_, rfl⟩

/-- **No setter fails** on a value of the type of the column, if it is in the range of the calendar. -/
theorem exists_datumValue (pg : Postgres) {typid : Oid} {datum : Datum} (htype : HasType typid datum)
    (hrange : InRange pg (typeCase typid) datum) : ∃ v, datumValue pg typid datum = some v := by
  unfold HasType at htype
  unfold datumValue updateAvroWithDatum
  generalize typeCase typid = c at htype hrange
  cases htype with
  | date days =>
    show ∃ v, updateAvroWithDate pg days linkTarget (.union (branchTypes .date)) = some v
    unfold updateAvroWithDate
    split
    · cases decide (days = datevalNobegin) <;> exact ⟨_, rfl⟩
    · exact ⟨_, rfl⟩
  | timestamp micro => exact exists_updateAvroWithTimestamp pg false hrange
  | timestamptz micro => exact exists_updateAvroWithTimestamp pg true hrange
  | bytea b => exact ⟨_, setBranch_setScalar rfl rfl (takes_bytea b)⟩
  | char c => exact ⟨_, setBranch_setScalar rfl rfl (takes_cString (by simp [maxVarlena]))⟩
  | name t => exact ⟨_, setBranch_setScalar rfl rfl (takes_cString t.length_lt)⟩
  | text t => exact ⟨_, setBranch_setScalar rfl rfl (takes_cString t.length_lt)⟩
  | default r => exact ⟨_, setBranch_setScalar rfl rfl (takes_cString (Text.length_lt _))⟩
  | _ => exact ⟨_, rfl⟩

end

end BottledWater.Ext
