/-
# BottledWater.Ext.DistinctKeys — when the keys of two rows are different byte strings.

Kafka knows a row by the bytes of its key.  The encoding of a record is injective, so two keys are equal
exactly if the Avro values of their columns are; and the conversion of a datum is injective, given that the
calendar functions of Postgres are, with one exception: `update_avro_with_datum` writes nothing for a
`numeric`, so that all numbers of this type have the same value.
-/
import BottledWater.Ext.Conformance
import Mathlib.Data.List.TakeWhile

namespace BottledWater.Ext

open BottledWater.Lib BottledWater.Lib.Avro BottledWater.Protocol

/-! ## §1 — Datums -/

/-- The calendar functions lose nothing. -/
structure Postgres.Injective (pg : Postgres) : Prop where
  j2date : ∀ {a b : Int32}, pg.j2date a = pg.j2date b → a = b
  timestamp2tm : ∀ {a b : Int64} {decoded : PgTm × Int32},
    pg.timestamp2tm a = some decoded → pg.timestamp2tm b = some decoded → a = b
  timestamptz2tm : ∀ {a b : Int64} {decoded : PgTm × Int32 × Int32},
    pg.timestamptz2tm a = some decoded → pg.timestamptz2tm b = some decoded → a = b
  interval2tm : ∀ {micro micro' : Int64} {day day' month month' : Int32},
    pg.interval2tm micro day month = pg.interval2tm micro' day' month' →
      micro = micro' ∧ day = day' ∧ month = month'

theorem cString_inj {a b : Bytes} (ha : 0 ∉ a) (hb : 0 ∉ b) (h : cString a = cString b) : a = b := by
  have htake : ∀ {text : Bytes}, 0 ∉ text → text.takeWhile (· ≠ 0) = text := by
    intro text htext
    rw [List.takeWhile_eq_self_iff]
    intro c hc
    simpa using ne_of_mem_of_not_mem hc htext
  unfold cString at h
  rw [htake ha, htake hb] at h
  exact List.append_cancel_right h

theorem Text.eq_of_cString {a b : Text} (h : cString a.bytes = cString b.bytes) : a = b := by
  cases a
  cases b
  congr
  exact cString_inj ‹_› ‹_› h

theorem cString_singleton_inj {a b : UInt8} (h : cString [a] = cString [b]) : a = b := by
  by_cases ha : a = 0 <;> by_cases hb : b = 0 <;> simp [cString, ha, hb] at h
  · rw [ha, hb]
  · exact h

/-- The two infinities have different symbols. -/
theorem eq_of_specialTime {α : Type} [DecidableEq α] {nobegin noend a b : α} {target : String → Option Schema}
    {s : Schema} {v : Value} (hspecial : a = nobegin ∨ a = noend) (hspecial' : b = nobegin ∨ b = noend)
    (ha : updateAvroWithSpecialTime (a = nobegin) target s = some v)
    (hb : updateAvroWithSpecialTime (b = nobegin) target s = some v) : a = b := by
  have hsymbol := Value.enum.inj (eq_of_setBranch_setScalar ha hb)
  by_cases hfirst : a = nobegin <;> by_cases hsecond : b = nobegin <;> simp [hfirst, hsecond] at hsymbol
  · rw [hfirst, hsecond]
  · rw [hspecial.resolve_left hfirst, hspecial'.resolve_left hsecond]

/-- The fields of a date. -/
def dateFields (date : Int32 × Int32 × Int32) : List Value := [.int date.1, .int date.2.1, .int date.2.2]

theorem dateFields_inj {a b : Int32 × Int32 × Int32} (h : dateFields a = dateFields b) : a = b := by
  simpa [dateFields, Prod.ext_iff] using h

theorem updateAvroWithDate_of_finite {pg : Postgres} {date : Int32}
    (h : ¬ (date = datevalNobegin ∨ date = datevalNoend)) : updateAvroWithDate pg date =
      setBranch 1 (setFields ((dateFields (pg.j2date (date + postgresEpochJdate))).map setScalar)) := by
  rw [updateAvroWithDate, if_neg h]
  rfl

theorem eq_of_updateAvroWithDate {pg : Postgres} (hpg : pg.Injective) {a b : Int32} {s : Schema} {v : Value}
    (ha : updateAvroWithDate pg a linkTarget s = some v)
    (hb : updateAvroWithDate pg b linkTarget s = some v) : a = b := by
  by_cases hspecial : a = datevalNobegin ∨ a = datevalNoend <;>
    by_cases hspecial' : b = datevalNobegin ∨ b = datevalNoend
  · rw [updateAvroWithDate, if_pos hspecial] at ha
    rw [updateAvroWithDate, if_pos hspecial'] at hb
    exact eq_of_specialTime hspecial hspecial' ha hb
  · rw [updateAvroWithDate, if_pos hspecial] at ha
    rw [updateAvroWithDate_of_finite hspecial'] at hb
    cases branch_eq_of_setBranch ha hb
  · rw [updateAvroWithDate_of_finite hspecial] at ha
    rw [updateAvroWithDate, if_pos hspecial'] at hb
    cases branch_eq_of_setBranch ha hb
  · rw [updateAvroWithDate_of_finite hspecial] at ha
    rw [updateAvroWithDate_of_finite hspecial'] at hb
    have hfields := eq_of_setBranch_setFields (dateFields _) (dateFields _) (by simp [dateFields]) ha hb
    have hdate := hpg.j2date (dateFields_inj hfields)
    simpa using hdate

/-- The fields that timestamps and intervals have in common. -/
def timeFields (time : PgTm × Int32) : List Value :=
  [.int time.1.year, .int time.1.mon, .int time.1.mday, .int time.1.hour, .int time.1.min, .int time.1.sec,
    .int time.2]

theorem timeFields_inj {a b : PgTm × Int32} (h : timeFields a = timeFields b) : a = b := by
  obtain ⟨⟨_, _, _, _, _, _⟩, _⟩ := a
  obtain ⟨⟨_, _, _, _, _, _⟩, _⟩ := b
  simpa [timeFields, and_assoc] using h

/-- A timestamp in a time zone has its offset as well. -/
def zonedFields (time : PgTm × Int32 × Int32) : List Value :=
  timeFields (time.1, time.2.1) ++ [.int (-time.2.2)]

theorem zonedFields_inj {a b : PgTm × Int32 × Int32} (h : zonedFields a = zonedFields b) : a = b := by
  obtain ⟨htime, hzone⟩ := List.append_inj h (by simp [timeFields])
  have htime := Prod.ext_iff.mp (timeFields_inj htime)
  have hzone : -a.2.2 = -b.2.2 := by simpa using hzone
  exact Prod.ext htime.1 (Prod.ext htime.2 (Int32.neg_inj.mp hzone))

theorem exists_of_updateAvroWithTimestamp {pg : Postgres} {withTz : Bool} {micro : Int64} {s : Schema}
    {v : Value} (hfinite : ¬ (micro = dtNobegin ∨ micro = dtNoend))
    (h : updateAvroWithTimestamp pg withTz micro linkTarget s = some v) :
    if withTz then ∃ decoded, pg.timestamptz2tm micro = some decoded ∧
      setBranch 1 (setFields ((zonedFields decoded).map setScalar)) linkTarget s = some v
    else ∃ decoded, pg.timestamp2tm micro = some decoded ∧
      setBranch 1 (setFields ((timeFields decoded).map setScalar)) linkTarget s = some v := by
  unfold updateAvroWithTimestamp at h
  rw [if_neg hfinite] at h
  cases withTz with
  | true =>
    cases hdecoded : pg.timestamptz2tm micro with
    | none => simp [hdecoded] at h
    | some decoded =>
      simp only [hdecoded, if_true] at h
      exact ⟨decoded, rfl, h⟩
  | false =>
    cases hdecoded : pg.timestamp2tm micro with
    | none => simp [hdecoded] at h
    | some decoded =>
      simp only [hdecoded, Bool.false_eq_true, if_false] at h
      exact ⟨decoded, rfl, h⟩

theorem eq_of_updateAvroWithTimestamp {pg : Postgres} (hpg : pg.Injective) {withTz : Bool} {a b : Int64}
    {s : Schema} {v : Value} (ha : updateAvroWithTimestamp pg withTz a linkTarget s = some v)
    (hb : updateAvroWithTimestamp pg withTz b linkTarget s = some v) : a = b := by
  by_cases hspecial : a = dtNobegin ∨ a = dtNoend <;> by_cases hspecial' : b = dtNobegin ∨ b = dtNoend
  · rw [updateAvroWithTimestamp, if_pos hspecial] at ha
    rw [updateAvroWithTimestamp, if_pos hspecial'] at hb
    exact eq_of_specialTime hspecial hspecial' ha hb
  · rw [updateAvroWithTimestamp, if_pos hspecial] at ha
    have hb := exists_of_updateAvroWithTimestamp hspecial' hb
    cases withTz <;> obtain ⟨_, -, hb⟩ := hb <;> cases branch_eq_of_setBranch ha hb
  · rw [updateAvroWithTimestamp, if_pos hspecial'] at hb
    have ha := exists_of_updateAvroWithTimestamp hspecial ha
    cases withTz <;> obtain ⟨_, -, ha⟩ := ha <;> cases branch_eq_of_setBranch ha hb
  · have ha := exists_of_updateAvroWithTimestamp hspecial ha
    have hb := exists_of_updateAvroWithTimestamp hspecial' hb
    cases withTz with
    | true =>
      obtain ⟨decoded, hdecoded, ha⟩ := ha
      obtain ⟨decoded', hdecoded', hb⟩ := hb
      have hfields := eq_of_setBranch_setFields (zonedFields decoded) (zonedFields decoded')
        (by simp [zonedFields, timeFields]) ha hb
      obtain rfl := zonedFields_inj hfields
      exact hpg.timestamptz2tm hdecoded hdecoded'
    | false =>
      obtain ⟨decoded, hdecoded, ha⟩ := ha
      obtain ⟨decoded', hdecoded', hb⟩ := hb
      have hfields := eq_of_setBranch_setFields (timeFields decoded) (timeFields decoded')
        (by simp [timeFields]) ha hb
      obtain rfl := timeFields_inj hfields
      exact hpg.timestamp2tm hdecoded hdecoded'

theorem int16_inj {a b : Int16} (h : a.toInt32 = b.toInt32) : a = b := by
  have hback := congrArg Int32.toInt16 h
  simpa using hback

/-- **The conversion of a datum loses nothing**, except for `numeric`. -/
theorem eq_of_datumValue {pg : Postgres} (hpg : pg.Injective) {typid : Oid} {a b : Datum} {v : Value}
    (hcase : typeCase typid ≠ .default) (hnumeric : typeCase typid ≠ .numeric) (hta : HasType typid a)
    (htb : HasType typid b) (ha : datumValue pg typid a = some v) (hb : datumValue pg typid b = some v) :
    a = b := by
  unfold HasType at hta htb
  unfold datumValue updateAvroWithDatum at ha hb
  generalize typeCase typid = c at *
  cases hta with
  | numeric => exact absurd rfl hnumeric
  | default => exact absurd rfl hcase
  | int2 n =>
    cases htb
    exact congrArg Datum.int2 (int16_inj (Value.int.inj (eq_of_setBranch_setScalar ha hb)))
  | oid n =>
    cases htb
    exact congrArg Datum.uint32 (longOfUInt32_injective (Value.long.inj (eq_of_setBranch_setScalar ha hb)))
  | xid n =>
    cases htb
    exact congrArg Datum.uint32 (longOfUInt32_injective (Value.long.inj (eq_of_setBranch_setScalar ha hb)))
  | cid n =>
    cases htb
    exact congrArg Datum.uint32 (longOfUInt32_injective (Value.long.inj (eq_of_setBranch_setScalar ha hb)))
  | date days =>
    cases htb
    exact congrArg Datum.date (eq_of_updateAvroWithDate hpg ha hb)
  | timetz micro zone =>
    cases htb with
    | timetz micro' zone' =>
      have hfields := eq_of_setBranch_setFields [.long micro, .int (-zone)] [.long micro', .int (-zone')] rfl ha hb
      simp only [List.cons.injEq, Value.long.injEq, Value.int.injEq, Int32.neg_inj, and_true] at hfields
      rw [hfields.1, hfields.2]
  | timestamp micro =>
    cases htb
    exact congrArg Datum.timestamp (eq_of_updateAvroWithTimestamp hpg ha hb)
  | timestamptz micro =>
    cases htb
    exact congrArg Datum.timestamp (eq_of_updateAvroWithTimestamp hpg ha hb)
  | interval micro day month =>
    cases htb with
    | interval micro' day' month' =>
      have hfields := eq_of_setBranch_setFields (timeFields (pg.interval2tm micro day month))
        (timeFields (pg.interval2tm micro' day' month')) (by simp [timeFields]) ha hb
      obtain ⟨rfl, rfl, rfl⟩ := hpg.interval2tm (timeFields_inj hfields)
      rfl
  | bytea b =>
    cases htb with
    | bytea b' =>
      have hbytes := Value.bytes.inj (eq_of_setBranch_setScalar ha hb)
      cases b
      cases b'
      cases hbytes
      rfl
  | char c =>
    cases htb
    exact congrArg Datum.char (cString_singleton_inj (Value.string.inj (eq_of_setBranch_setScalar ha hb)))
  | name t =>
    cases htb
    exact congrArg Datum.text (Text.eq_of_cString (Value.string.inj (eq_of_setBranch_setScalar ha hb)))
  | text t =>
    cases htb
    exact congrArg Datum.text (Text.eq_of_cString (Value.string.inj (eq_of_setBranch_setScalar ha hb)))
  | _ =>
    cases htb
    cases eq_of_setBranch_setScalar ha hb
    rfl

/-- Two values of a column that are told apart: they differ, and are not two numbers of type `numeric`. -/
def ToldApart (a b : Column Datum) : Prop :=
  a.2 ≠ b.2 ∧ ¬ (typeCase a.1 = .numeric ∧ a.2.isSome ∧ b.2.isSome)

theorem null_ne_datumValue {pg : Postgres} {typid : Oid} {datum : Datum} {v w : Value}
    (hv : avroValue pg (typid, none) = some v) (hw : avroValue pg (typid, some datum) = some w) : v ≠ w := by
  have hnull : setBranch 0 leave linkTarget (.union (branchTypes (typeCase typid))) = some v := hv
  obtain ⟨-, u, -, rfl⟩ := exists_of_setBranch hnull
  obtain ⟨branch, u', hbranch, rfl⟩ := (oneBranch_datum pg typid datum).exists_branch hw
  intro heq
  obtain rfl : 0 = branch := (Value.union.inj heq).1
  exact absurd hbranch (by simp [NotNull])

/-- All numbers of type `numeric` have one value. -/
theorem datumValue_numeric {pg : Postgres} {typid : Oid} {a b : Datum} (hcase : typeCase typid = .numeric)
    (hta : HasType typid a) (htb : HasType typid b) : datumValue pg typid a = datumValue pg typid b := by
  unfold HasType at hta htb
  unfold datumValue updateAvroWithDatum
  rw [hcase] at hta htb ⊢
  cases hta
  cases htb
  rfl

/-- **Columns that are told apart, and no others, have different values.** -/
theorem avroValue_ne_iff {pg : Postgres} (hpg : pg.Injective) {a b : Column Datum} {v w : Value}
    (htype : a.1 = b.1) (hcase : typeCase a.1 ≠ .default) (hta : ∀ datum ∈ a.2, HasType a.1 datum)
    (htb : ∀ datum ∈ b.2, HasType b.1 datum) (hv : avroValue pg a = some v) (hw : avroValue pg b = some w) :
    v ≠ w ↔ ToldApart a b := by
  obtain ⟨typid, a⟩ := a
  obtain ⟨typid', b⟩ := b
  obtain rfl : typid = typid' := htype
  cases a with
  | none =>
    cases b with
    | none =>
      obtain rfl := Option.some.inj (hv.symm.trans hw)
      simp [ToldApart]
    | some b => exact iff_of_true (null_ne_datumValue hv hw) (by simp [ToldApart])
  | some a =>
    cases b with
    | none => exact iff_of_true (null_ne_datumValue hw hv).symm (by simp [ToldApart])
    | some b =>
      have hta := hta a rfl
      have htb := htb b rfl
      by_cases hnumeric : typeCase typid = .numeric
      · have hsame : v = w := Option.some.inj (hv.symm.trans ((datumValue_numeric hnumeric hta htb).trans hw))
        exact iff_of_false (not_not_intro hsame) (by simp [ToldApart, hnumeric])
      · have hiff : v = w ↔ a = b := by
          constructor
          · rintro rfl
            exact eq_of_datumValue hpg hcase hnumeric hta htb hv hw
          · rintro rfl
            exact Option.some.inj (hv.symm.trans hw)
        simp [ToldApart, hnumeric, hiff]

/-! ## §2 — Records -/

/-- How a link is read: as the type it points to. -/
def readPredefined (name : String) : Reader Value :=
  match linkTarget name with
  | some s => decode (fun _ => failure) s
  | none => failure

theorem reads_predefined (name : String) (v : Value) (h : isPredefined name v) :
    Reads (readPredefined name) (encode v) v := by
  unfold isPredefined at h
  unfold readPredefined
  cases hs : linkTarget name with
  | none => simp [hs] at h
  | some s =>
    rw [hs, Option.any_some] at h
    apply reads_encode _ s v h
    intro _ _ hfalse
    cases hfalse

/-- The encodings of two records of columns of the same types differ if one of the values does. -/
theorem encode_record_eq_iff {pg : Postgres} {as bs : List (Column Datum)} {vs ws : List Value}
    (htypes : as.map Prod.fst = bs.map Prod.fst) (hvs : as.mapM (avroValue pg) = some vs)
    (hws : bs.mapM (avroValue pg) = some ws) : encode (.record vs) = encode (.record ws) ↔ vs = ws := by
  constructor
  · intro h
    -- both are values of the record that has a field for each column of the first
    have hconforms : ∀ {columns : List (Column Datum)} {us : List Value},
        columns.map Prod.fst = as.map Prod.fst → columns.mapM (avroValue pg) = some us →
        conforms isPredefined (.record "" "" (fieldsFor .none (as.map fun column => ("", column.1))))
          (.record us) := by
      intro columns us hcolumns hus
      rw [conforms]
      apply conformsFields_fieldsFor PredefSchema.none_named _ hus
      rw [hcolumns, List.map_map]
      rfl
    exact Value.record.inj
      (eq_of_encode_eq reads_predefined (hconforms rfl hvs) (hconforms htypes.symm hws) h)
  · rintro rfl
    rfl

/-! ## §3 — Keys -/

section

variable {pg : Postgres} {rel : Table} {index : Index} {row row' tuple tuple' : HeapTuple Datum}
  {tupdesc tupdesc' : TupleDesc}

/-- The columns of two rows for an entry have one type. -/
theorem columnFrom_type {indkey : Int} {a b : Column Datum} (ha : columnFrom rel row indkey = some a)
    (hb : columnFrom rel row' indkey = some b) : a.1 = b.1 := by
  have hhead := congrArg (Option.map Prod.fst) ha
  have hhead' := congrArg (Option.map Prod.fst) hb
  rw [columnFrom, ← List.head?_map, map_fst_rowColumnsFrom, Option.map_some] at hhead hhead'
  exact Option.some.inj (hhead.symm.trans hhead')

/-- The columns of a key are of types with a case of their own, and have values of their types. -/
def OwnCases (rel : Table) (index : Index) (row : HeapTuple Datum) : Prop :=
  ∀ indkey ∈ index.indkey, ∀ column, columnFrom rel row indkey = some column →
    typeCase column.1 ≠ .default ∧ ∀ datum ∈ column.2, HasType column.1 datum

theorem mapM_columnFrom (hrow : Delivers rel row tupdesc tuple) {indkeys : List Int} :
    ∀ {columns : List (Column Datum)}, indkeys.mapM (keyRead rel tupdesc tuple) = some columns →
      indkeys.mapM (columnFrom rel row) = some columns := by
  induction indkeys with
  | nil => exact id
  | cons indkey indkeys ih =>
    intro columns h
    obtain ⟨column, columns, hcolumn, hcolumns, rfl⟩ := mapM_cons_eq_some.mp h
    exact mapM_cons_eq_some.mpr ⟨column, columns, columnFrom_of_keyRead hrow hcolumn, ih hcolumns, rfl⟩

/-- The bytes of a key are the record of the values of its columns. -/
theorem exists_of_extractTupleKey {equalTupleDescs : TupleDesc → TupleDesc → Bool}
    {schemaToJson : Schema → Bytes} {entry : SchemaCacheEntry} {k : Bytes}
    (hindex : tableKeyIndex rel = some index) (hrow : Delivers rel row tupdesc tuple)
    (h : extractTupleKey (conversions pg equalTupleDescs schemaToJson) entry rel tupdesc tuple =
      .ok (some k)) :
    ∃ columns vs, index.indkey.mapM (columnFrom rel row) = some columns ∧
      columns.mapM (avroValue pg) = some vs ∧ k = encode (.record vs) := by
  cases hschema : entry.keySchema with
  | none =>
    simp only [extractTupleKey, hschema] at h
    cases h
  | some schema =>
    simp only [extractTupleKey, hschema, hindex, tupleToAvroKey, except_bind_eq_ok] at h
    obtain ⟨vs, hvs, k', hwrite, ⟨⟩⟩ := h
    rw [keyLoop_eq_with] at hvs
    obtain ⟨columns, hcolumns⟩ := exists_keyRead_of_keyLoopWith hvs
    rw [keyLoopWith_of_keyRead _ hcolumns] at hvs
    have hvalues := columnsLoop_eq_ok hvs
    rw [funext (columnValue_conversions pg equalTupleDescs schemaToJson)] at hvalues
    exact ⟨columns, vs, mapM_columnFrom hrow hcolumns, hvalues, eq_of_writeRecord hwrite⟩

/-- Two lists of values differ where the columns of an entry are told apart. -/
theorem values_ne_iff {f g : Int → Option (Column Datum)} {indkeys : List Int} :
    ∀ {as bs : List (Column Datum)} {vs ws : List Value}, indkeys.mapM f = some as →
      indkeys.mapM g = some bs → as.mapM (avroValue pg) = some vs → bs.mapM (avroValue pg) = some ws →
      (∀ indkey ∈ indkeys, ∀ a b v w, f indkey = some a → g indkey = some b → avroValue pg a = some v →
        avroValue pg b = some w → (v ≠ w ↔ ToldApart a b)) →
      (vs ≠ ws ↔ ∃ indkey ∈ indkeys, ∃ a b, f indkey = some a ∧ g indkey = some b ∧ ToldApart a b) := by
  induction indkeys with
  | nil =>
    intro as bs vs ws has hbs hvs hws _
    obtain rfl : [] = as := by simpa using has
    obtain rfl : [] = bs := by simpa using hbs
    obtain rfl : [] = vs := by simpa using hvs
    obtain rfl : [] = ws := by simpa using hws
    simp
  | cons indkey indkeys ih =>
    intro as bs vs ws has hbs hvs hws hcolumns
    obtain ⟨a, as', ha, has', rfl⟩ := mapM_cons_eq_some.mp has
    obtain ⟨b, bs', hb, hbs', rfl⟩ := mapM_cons_eq_some.mp hbs
    obtain ⟨v, vs', hv, hvs', rfl⟩ := mapM_cons_eq_some.mp hvs
    obtain ⟨w, ws', hw, hws', rfl⟩ := mapM_cons_eq_some.mp hws
    have hfirst := hcolumns indkey List.mem_cons_self a b v w ha hb hv hw
    have hrest := ih has' hbs' hvs' hws' fun indkey hmem => hcolumns indkey (List.mem_cons_of_mem _ hmem)
    have hsplit : v :: vs' ≠ w :: ws' ↔ v ≠ w ∨ vs' ≠ ws' := by
      rw [ne_eq, List.cons.injEq, not_and_or]
    have hhere : (∃ a' b', f indkey = some a' ∧ g indkey = some b' ∧ ToldApart a' b') ↔ ToldApart a b := by
      constructor
      · rintro ⟨a', b', ha', hb', h⟩
        cases ha.symm.trans ha'
        cases hb.symm.trans hb'
        exact h
      · exact fun h => ⟨a, b, ha, hb, h⟩
    rw [hsplit, hfirst, hrest]
    simp only [List.mem_cons, or_and_right, exists_or, exists_eq_left, hhere]

/-- **When keys are distinct.**  The keys of two rows differ exactly if for some entry of the index the first
live columns of the two rows from its number on are told apart: a difference between two numbers of type
`numeric` is lost.  For an entry that is a live column of the table, that is the column itself. -/
theorem distinct_keys_iff (hpg : pg.Injective) (equalTupleDescs : TupleDesc → TupleDesc → Bool)
    (schemaToJson : Schema → Bytes) {entry : SchemaCacheEntry} {k k' : Bytes}
    (hindex : tableKeyIndex rel = some index) (hrow : Delivers rel row tupdesc tuple)
    (hrow' : Delivers rel row' tupdesc' tuple') (hcases : OwnCases rel index row)
    (hcases' : OwnCases rel index row')
    (h : extractTupleKey (conversions pg equalTupleDescs schemaToJson) entry rel tupdesc tuple = .ok (some k))
    (h' : extractTupleKey (conversions pg equalTupleDescs schemaToJson) entry rel tupdesc' tuple' =
      .ok (some k')) :
    (k ≠ k' ↔ ∃ indkey ∈ index.indkey, ∃ a b, columnFrom rel row indkey = some a ∧
      columnFrom rel row' indkey = some b ∧ ToldApart a b) ∧
    ∀ indkey ∈ index.indkey, LiveColumn rel indkey →
      columnFrom rel row indkey = keyColumn rel row indkey ∧
      columnFrom rel row' indkey = keyColumn rel row' indkey := by
  obtain ⟨as, vs, has, hvs, rfl⟩ := exists_of_extractTupleKey hindex hrow h
  obtain ⟨bs, ws, hbs, hws, rfl⟩ := exists_of_extractTupleKey hindex hrow' h'
  have htypes : as.map Prod.fst = bs.map Prod.fst := by
    have hlen := (length_of_mapM has).trans (length_of_mapM hbs).symm
    apply List.ext_getElem
    · simpa using hlen
    · intro j hj hj'
      rw [List.length_map] at hj hj'
      have hlt : j < index.indkey.length := length_of_mapM has ▸ hj
      have ha := getElem?_of_mapM has (List.getElem?_eq_getElem hlt)
      have hb := getElem?_of_mapM hbs (List.getElem?_eq_getElem hlt)
      rw [List.getElem?_eq_getElem hj] at ha
      rw [List.getElem?_eq_getElem hj'] at hb
      simpa using columnFrom_type ha.symm hb.symm
  refine ⟨?_, fun indkey _ hlive => ⟨columnFrom_of_live row hlive, columnFrom_of_live row' hlive⟩⟩
  rw [ne_eq, encode_record_eq_iff htypes hvs hws]
  apply values_ne_iff has hbs hvs hws
  intro indkey hmem a b v w ha hb hv hw
  obtain ⟨hcase, hta⟩ := hcases indkey hmem a ha
  obtain ⟨-, htb⟩ := hcases' indkey hmem b hb
  exact avroValue_ne_iff hpg (columnFrom_type ha hb) hcase hta htb hv hw

end

/-! A table of prices, whose key is a number and a `numeric`. -/

theorem halves_inj {a b : Int64} (h : halves a = halves b) : a = b := by
  have hhigh : a.toBitVec.extractLsb' 32 32 = b.toBitVec.extractLsb' 32 32 :=
    congrArg (fun p => p.1.toBitVec) h
  have hlow : a.toBitVec.extractLsb' 0 32 = b.toBitVec.extractLsb' 0 32 :=
    congrArg (fun p => p.2.toBitVec) h
  apply Int64.toBitVec_inj.mp
  apply BitVec.eq_of_getLsbD_eq
  intro i hi
  by_cases hlt : i < 32
  · have hbit := congrArg (·.getLsbD i) hlow
    simpa [hlt] using hbit
  · have hbit := congrArg (·.getLsbD (i - 32)) hhigh
    simpa [show i - 32 < 32 by omega, show 32 + (i - 32) = i by omega] using hbit

theorem yearCalendar_injective : yearCalendar.Injective where
  j2date := fun h => congrArg Prod.fst h
  timestamp2tm := by
    rintro a b decoded ⟨⟩ hb
    have hb := Option.some.inj hb
    exact halves_inj (Prod.ext (congrArg (·.1.year) hb).symm (congrArg (·.2) hb).symm)
  timestamptz2tm := by
    rintro a b decoded ⟨⟩ hb
    have hb := Option.some.inj hb
    exact halves_inj (Prod.ext (congrArg (·.1.year) hb).symm (congrArg (·.2.1) hb).symm)
  interval2tm := by
    intro micro micro' day day' month month' h
    exact ⟨halves_inj (Prod.ext (congrArg (·.1.hour) h) (congrArg (·.2) h)), congrArg (·.1.mday) h,
      congrArg (·.1.year) h⟩

def pricesKey : Index where
  relid := 16431
  relname := "prices_pkey"
  relnamespace := 2200
  tupdesc := ⟨[⟨"item", INT8OID, false⟩, ⟨"price", NUMERICOID, false⟩], []⟩
  indisvalid := true
  indisready := true
  indisprimary := true
  indkey := [1, 2]
  relid_ne_zero := by decide

def prices : Table where
  relid := 16430
  relname := "prices"
  relnamespace := 2200
  tupdesc := ⟨[⟨"item", INT8OID, false⟩, ⟨"price", NUMERICOID, false⟩], []⟩
  relreplident := .default
  replicaIndex := none
  indexes := [pricesKey]

def pricesEntry : SchemaCacheEntry :=
  schemaCacheEntry (fun _ => "public") prices (some (pricesKey.schema fun _ => "public"))
    (prices.schema fun _ => "public")

def price (item : Int64) (digits : Bytes) : HeapTuple Datum :=
  ⟨[some (.int8 item), some (.numeric digits)], none⟩

/-- The key of a price. -/
def priceKey (row : HeapTuple Datum) : Except PluginError (Option Bytes) :=
  extractTupleKey (conversions yearCalendar (fun a b => decide (a = b)) fun _ => []) pricesEntry prices
    prices.tupdesc row

theorem ownCases_prices (item : Int64) (digits : Bytes) :
    OwnCases prices pricesKey (price item digits) := by
  intro indkey hmem column hcolumn
  obtain rfl | rfl : indkey = 1 ∨ indkey = 2 := by simpa [pricesKey] using hmem
  · cases hcolumn
    exact ⟨(by decide : typeCase INT8OID ≠ .default), by rintro datum ⟨⟩; exact .int8 item⟩
  · cases hcolumn
    exact ⟨(by decide : typeCase NUMERICOID ≠ .default), by rintro datum ⟨⟩; exact .numeric digits⟩

/-- Two items have different keys, although their prices do not show. -/
theorem distinct_keys_iff_prices :
    priceKey (price 7 [1]) = .ok (some [2, 14, 2, 0, 0, 0, 0, 0, 0, 0, 0]) ∧
    priceKey (price 8 [1]) = .ok (some [2, 16, 2, 0, 0, 0, 0, 0, 0, 0, 0]) ∧
    ∃ indkey ∈ pricesKey.indkey, ∃ a b, columnFrom prices (price 7 [1]) indkey = some a ∧
      columnFrom prices (price 8 [1]) indkey = some b ∧ ToldApart a b := by
  have hkey : priceKey (price 7 [1]) = .ok (some [2, 14, 2, 0, 0, 0, 0, 0, 0, 0, 0]) := by rfl
  have hkey' : priceKey (price 8 [1]) = .ok (some [2, 16, 2, 0, 0, 0, 0, 0, 0, 0, 0]) := by rfl
  exact ⟨hkey, hkey', (distinct_keys_iff yearCalendar_injective _ _ rfl .whole .whole (ownCases_prices 7 [1])
    (ownCases_prices 8 [1]) hkey hkey').1.mp (by decide)⟩

/-- Two prices of one item have the same key. -/
theorem distinct_keys_not_for_numeric :
    keyColumns prices pricesKey (price 7 [1]) ≠ keyColumns prices pricesKey (price 7 [2]) ∧
    priceKey (price 7 [1]) = priceKey (price 7 [2]) ∧
    priceKey (price 7 [1]) = .ok (some [2, 14, 2, 0, 0, 0, 0, 0, 0, 0, 0]) :=
  ⟨by decide, by rfl, by rfl⟩

end BottledWater.Ext
