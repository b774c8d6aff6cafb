/-
# BottledWater.Deployment.Workers — the table `csvs`, up to the workers.

The two halves of the application meet in a topic.  Rows of `csvs` go through the pipeline and the cluster into
Kafka; the workers of `lib/worker.js` read the topic through the REST proxy, which looks up the schema under the
id in front of each value.  `workers_survive_iff` says which histories of the table the workers survive: those
without a deletion, without a change of a key, and without a row whose name or email is null.

Each worker gets some batches of records of the topic, of which nothing more is assumed: it may get a record
twice or not at all, and in any order.  Nor is it assumed that the brokers store a message only once, or in
order (`Cluster.Reliable`, `Cluster.StoresCopies`).
-/
import BottledWater.Deployment.Tables
import BottledWater.Node.Worker

namespace BottledWater.Deployment

open BottledWater.Lib BottledWater.Lib.Avro BottledWater.Client BottledWater.Ext BottledWater.Ext.Logdecoder
open BottledWater.Protocol BottledWater.Kafka

/-! ## §1 — Nothing else is stored -/

section

variable {c : Cluster} {origin : UInt64} {es : List ClusterEvent}

/-- **`c.Genuine`** — what is stored and what has still to be stored was committed. -/
def Cluster.Genuine (c : Cluster) : Prop := c.log ++ c.outstanding ⊆ records c.wal

theorem Cluster.Genuine.step {c' : Cluster} {e : ClusterEvent} (h : c.Genuine) (hs : c.Streaming)
    (hw : c.Writes c' e) (hcopies : c.StoresCopies e) : c'.Genuine := by
  obtain ⟨hlogged, hawaited⟩ := List.append_subset.mp h
  unfold Cluster.Genuine
  cases hw with
  | commit hwal hlog hrest =>
    rw [hwal, hlog, hrest, records_append, ← List.append_assoc]
    exact List.append_subset.mpr
      ⟨List.Subset.trans h (List.subset_append_left _ _), List.subset_append_right _ _⟩
  | restart hwal hlog hrest =>
    rw [hwal, hlog, hrest]
    exact List.append_subset.mpr ⟨hlogged, (records_txnsAfter_suffix hs c.confirmed).subset⟩
  | store hp hwal hlog hbefore hrest =>
    rw [hbefore] at hawaited
    rw [hwal, hlog, hrest]
    intro r hr
    simp only [List.mem_append, List.mem_singleton] at hr
    rcases hr with (hr | rfl) | hr | hr
    · exact hlogged hr
    · exact hawaited (List.mem_append_right _ List.mem_cons_self)
    · exact hawaited (List.mem_append_left _ hr)
    · exact hawaited (List.mem_append_right _ (List.mem_cons_of_mem _ hr))
  | stray hwal hlog hrest =>
    rw [hwal, hlog, hrest]
    refine List.append_subset.mpr ⟨List.append_subset.mpr ⟨hlogged, ?_⟩, hawaited⟩
    exact List.cons_subset.mpr ⟨hcopies, List.nil_subset _⟩
  | nothing hwal hlog hrest =>
    rw [hwal, hlog, hrest]
    exact h

theorem genuine_of_run (hrun : Cluster.Run origin es c)
    (hreliable : Along Cluster.step Cluster.Reliable (Cluster.init origin) es)
    (hcopies : Along Cluster.step Cluster.StoresCopies (Cluster.init origin) es) : c.Genuine := by
  have h := (hreliable.and hcopies).rule (P := fun c => c.Sound ∧ c.Genuine) ?_
    ⟨sound_init origin, List.nil_subset _⟩ hrun
  · exact h.2
  · rintro c e c' ⟨hsound, hgenuine⟩ ⟨hreliable, hcopies⟩ hstep
    have hf := Cluster.fires_of_step hstep hreliable
    exact ⟨hsound.step hf,
      hgenuine.step hsound.streaming (hf.writes hsound.streaming hsound.positions) hcopies⟩

/-- Once the slot's position has reached the last commit, the log has what was committed. -/
theorem records_subset_log (h : c.Sound) (hdone : ∀ t ∈ c.wal, t.commitLsn ≤ c.confirmed) :
    records c.wal ⊆ c.log := by
  have hall : txnsUpTo c.wal c.confirmed = c.wal := by
    rw [txnsUpTo, List.filter_eq_self]
    intro t ht
    simpa using hdone t ht
  have hstored := h.confirmed_subperm.subset
  rwa [hall] at hstored

end

/-! ## §2 — What the REST proxy hands out -/

/-- The schema that the registry has under an id. -/
def Naming.schemaOf (n : Naming) (id : UInt32) : Option Schema :=
  (n.registered.find? fun r => r.2.toUInt32 = id).bind fun r => n.avro.schemaFromJson r.1

/-- **`n.restValue val`** — the `value` of a record that the worker gets: the JSON form of what stands behind
the id, read with the schema under the id. -/
def Naming.restValue (n : Naming) : Option Bytes → Node.JsValue
  | none => .null
  | some (0 :: b₀ :: b₁ :: b₂ :: b₃ :: bin) =>
    match n.schemaOf (ntohlBytes b₀ b₁ b₂ b₃) with
    | some schema =>
      match decode readPredefined schema bin with
      | some (v, _) => Node.messageJson schema (some v)
      | none => .undefined
    | none => .undefined
  | some _ => .undefined

section

variable {n : Naming}

theorem Naming.schemaOf_eq (hsame : SameIds n.avro n.registered) {schema : Schema} {text : Bytes} {id : Int32}
    (hmem : (text, id) ∈ n.registered) (hparse : n.avro.schemaFromJson text = some schema) :
    n.schemaOf id.toUInt32 = some schema := by
  unfold Naming.schemaOf
  cases hfind : n.registered.find? fun r => r.2.toUInt32 = id.toUInt32 with
  | none => simpa using List.find?_eq_none.mp hfind _ hmem
  | some r =>
    have hbits : r.2.toUInt32 = id.toUInt32 := by simpa using List.find?_some hfind
    have hid : r.2 = id := Int32.toBitVec_inj.mp (congrArg UInt32.toBitVec hbits)
    exact ((hsame r (List.mem_of_find?_eq_some hfind) _ hmem).mp hid).trans hparse

/-- The schema that a value was sent under is the one it is read with. -/
theorem Naming.Tagged.restValue_eq (hsame : SameIds n.avro n.registered) {schema : Schema} {bin : Bytes}
    {sent : Option Bytes} {v : Value} (h : n.Tagged (some schema) (some bin) sent)
    (hdecode : decode readPredefined schema bin = some (v, [])) :
    n.restValue sent = Node.messageJson schema (some v) := by
  obtain ⟨id, rfl, hid⟩ := h
  obtain ⟨-, text, hmem, hparse⟩ := hid rfl
  have hschema := Naming.schemaOf_eq hsame hmem hparse
  rw [← ntohlBytes_htonlBytes id.toUInt32] at hschema
  simp only [addSchemaPrefix, Option.map_some, htonlBytes, List.cons_append, List.nil_append,
    Naming.restValue, hschema, hdecode]

theorem Naming.Tagged.restValue_none {schema : Option Schema} {sent : Option Bytes}
    (h : n.Tagged schema none sent) : n.restValue sent = .null := by
  obtain ⟨id, rfl, -⟩ := h
  rfl

end

/-! ## §3 — Rows of `csvs` -/

/-- The name and the email of a row are not null. -/
def NamedRow (row : HeapTuple Datum) : Prop := (heapGetattr row 1).isSome ∧ (heapGetattr row 2).isSome

section

variable {pg : Postgres} {conv : Conversions Datum} {namespaces : Namespaces} {relid relnamespace : Oid}
  {details : Bytes}

/-- What a text column is, in the schema of the table. -/
abbrev textSchema : Schema := .union [.null, .string]

/-- A text column has the null value exactly if it is null. -/
theorem avroValue_text {datum : Option Datum} {v : Value} (h : avroValue pg (Node.VARCHAROID, datum) = some v) :
    conforms (fun _ _ => false) textSchema v = true ∧ (v ≠ .union 0 .null ↔ datum.isSome) := by
  have hconforms : conforms isPredefined textSchema v = true := conforms_avroValue PredefSchema.none_named h
  constructor
  · -- there is no link in the schema
    rcases Node.conforms_nullOr_string hconforms with rfl | ⟨buffer, rfl⟩
    · exact hconforms
    · exact hconforms
  · have hnull : avroValue pg (Node.VARCHAROID, none) = some (.union 0 .null) := rfl
    cases datum with
    | none =>
      obtain rfl := Option.some.inj (hnull.symm.trans h)
      simp
    | some datum => exact iff_of_true (null_ne_datumValue hnull h).symm rfl

theorem nameAndEmail_iff (id added : Value) {name email : Value}
    (hname : conforms (fun _ _ => false) textSchema name = true)
    (hemail : conforms (fun _ _ => false) textSchema email = true) :
    Node.NameAndEmail (some (.record [id, name, email, added])) ↔
      name ≠ .union 0 .null ∧ email ≠ .union 0 .null := by
  rcases Node.conforms_nullOr_string hname with rfl | ⟨_, rfl⟩ <;>
    rcases Node.conforms_nullOr_string hemail with rfl | ⟨_, rfl⟩ <;> simp [Node.NameAndEmail]

/-- Of a row the worker reads the name and the email. -/
theorem readable_record_iff (id added : Value) {name email : Value}
    (hname : conforms (fun _ _ => false) textSchema name = true)
    (hemail : conforms (fun _ _ => false) textSchema email = true) :
    Node.Readable (Node.messageJson ((Node.csvs relid relnamespace details).schema namespaces)
        (some (.record [id, name, email, added]))) ↔
      name ≠ .union 0 .null ∧ email ≠ .union 0 .null := by
  have hjson (id added : Value) : ∃ idJson addedJson, Node.messageJson
      ((Node.csvs relid relnamespace details).schema namespaces)
      (some (.record [id, name, email, added])) =
        Node.rowJson idJson (Node.textJson name) (Node.textJson email) addedJson :=
    Node.messageJson_row id added (Node.conforms_nullOr_string hname) (Node.conforms_nullOr_string hemail)
  -- the other two columns may as well be null
  have hpublished : Node.Published ((Node.csvs relid relnamespace details).schema namespaces)
      (some (.record [.union 0 .null, name, email, .union 0 .null])) := by
    intro v hv
    cases hv
    rw [Node.schema_csvs, conforms]
    simp only [conformsFields, conformsField, hname, hemail]
    rfl
  obtain ⟨_, _, hrow⟩ := hjson id added
  obtain ⟨_, _, hnulls⟩ := hjson (.union 0 .null) (.union 0 .null)
  have hreadable := Node.readable_iff hpublished
  rw [hnulls] at hreadable
  rw [hrow, ← nameAndEmail_iff (.union 0 .null) (.union 0 .null) hname hemail]
  exact hreadable

variable {rel : Table} {row : HeapTuple Datum}
  (hconv : ∀ column, columnValue conv column = avroValue pg column)

include hconv

/-- **Which rows the worker can read.**  The encoded columns of a row are a value of the schema; what the worker
reads of its JSON form is there exactly if name and email are not null. -/
theorem exists_decode_readable_iff (hrel : rel.toRelation = Node.csvs relid relnamespace details) {bin : Bytes}
    (h : encodedRow conv rel row = some bin) :
    ∃ v, decode readPredefined (rel.schema namespaces) bin = some (v, []) ∧
      (Node.Readable (Node.messageJson (rel.schema namespaces) (some v)) ↔ NamedRow row) := by
  rw [encodedRow, encodeColumns, funext hconv] at h
  obtain ⟨vs, hvs, rfl⟩ := Option.map_eq_some_iff.mp h
  have hconforms : conforms isPredefined (rel.schema namespaces) (.record vs) = true := by
    rw [Relation.schema, conforms]
    exact conformsFields_fieldsFor PredefSchema.none_named (map_fst_rowColumns rel) hvs
  have hdecode := reads_encode reads_predefined _ _ hconforms []
  rw [List.append_nil] at hdecode
  refine ⟨.record vs, hdecode, ?_⟩
  have hcolumns : rowColumns rel.tupdesc row =
      [(INT8OID, heapGetattr row 0), (Node.VARCHAROID, heapGetattr row 1),
        (Node.VARCHAROID, heapGetattr row 2), (TIMESTAMPOID, heapGetattr row 3)] := by
    rw [show rel.tupdesc = _ from congrArg Relation.tupdesc hrel]
    rfl
  rw [hcolumns] at hvs
  obtain ⟨id, _, -, hrest₁, rfl⟩ := mapM_cons_eq_some.mp hvs
  obtain ⟨name, _, hname, hrest₂, rfl⟩ := mapM_cons_eq_some.mp hrest₁
  obtain ⟨email, _, hemail, hrest₃, rfl⟩ := mapM_cons_eq_some.mp hrest₂
  obtain ⟨added, _, -, hrest₄, rfl⟩ := mapM_cons_eq_some.mp hrest₃
  obtain rfl : [] = _ := by simpa using hrest₄
  rw [hrel, readable_record_iff id added (avroValue_text hname).1 (avroValue_text hemail).1,
    (avroValue_text hname).2, (avroValue_text hemail).2]
  rfl

end

/-! ## §4 — Changes of `csvs` -/

/-- **`Harmless conv rel change`** — what may happen to the table, for its workers to live: a row comes, or
changes without another key, and has a name and an email.  A deletion without the old tuple sends nothing. -/
def Harmless (conv : Conversions Datum) (rel : Table) : ReorderBufferChange Datum → Prop
  | .insert (some newtuple) => NamedRow newtuple
  | .update none (some newtuple) => NamedRow newtuple
  | .update (some oldtuple) (some newtuple) =>
    tupleKey conv rel oldtuple = tupleKey conv rel newtuple ∧ NamedRow newtuple
  | .delete oldtuple => oldtuple = none
  -- these the plugin refuses
  | .insert none | .update _ none | .internal _ => True

section

variable {pg : Postgres} {conv : Conversions Datum} {n : Naming} {namespaces : Namespaces} {rel : Table}
  {relid relnamespace : Oid} {details : Bytes} {walPos : UInt64} {row : Row}
  (hconv : ∀ column, columnValue conv column = avroValue pg column)
  (hrel : rel.toRelation = Node.csvs relid relnamespace details) (hsame : SameIds n.avro n.registered)

/-- The worker can read the record. -/
def Naming.Legible (n : Naming) (record : KafkaRecord) : Prop := Node.Readable (n.restValue record.val)

/-- A row of a table with a key has a key. -/
theorem exists_key_of_tupleBins {tuple : HeapTuple Datum} {key : Option Bytes} {bin : Bytes}
    (hkeyed : (tableKeyIndex rel).isSome) (h : tupleBins conv rel tuple = some (key, bin)) : ∃ k, key = some k := by
  rcases tupleKey_eq_some (tupleKey_of_tupleBins h) with ⟨hnone, -⟩ | ⟨_, k, -, -, hkey⟩
  · rw [hnone] at hkeyed
    cases hkeyed
  · exact ⟨k, hkey⟩

/-- The record of a deletion has no value. -/
theorem not_legible_of_deletion {msgRelid : Oid} {key : Option Bytes} {msgs : List RowMsg} {rows : List Row}
    (h : List.Forall₂ (RowSent n walPos namespaces rel) (⟨msgRelid, key, none⟩ :: msgs) rows) :
    ¬ ∀ row ∈ rows, n.Legible row.record := by
  rcases h with _ | ⟨hrow, _⟩
  intro hall
  obtain ⟨⟨fname, hname⟩, -⟩ := hall _ List.mem_cons_self
  obtain ⟨now, -, -, hval⟩ := hrow.tagged
  rw [hval.restValue_none] at hname
  cases hname

include hrel in
/-- The names of the table are taken, so its schema has all the columns. -/
theorem rowSchema_csvs {now : SchemaListEntry} (hnow : SchemasOf namespaces rel now) :
    now.rowSchema = rel.schema namespaces := by
  have hnames : rel.AvroNames := hrel ▸ Node.csvs_avroNames
  have hschema := hnow.row
  rw [hnames.schemaForTableRow_eq] at hschema
  exact (Option.some.inj (Except.ok.inj hschema)).symm

include hconv hrel hsame

theorem legible_iff_of_tuple {msgRelid : Oid} {key : Option Bytes} {bin : Bytes} {tuple : HeapTuple Datum}
    {rows : List Row} (h : List.Forall₂ (RowSent n walPos namespaces rel) [⟨msgRelid, key, some bin⟩] rows)
    (htuple : tupleBins conv rel tuple = some (key, bin)) :
    (∀ row ∈ rows, n.Legible row.record) ↔ NamedRow tuple := by
  simp only [tupleBins, Option.bind_eq_bind, Option.bind_eq_some_iff] at htuple
  obtain ⟨_, -, _, hrow, hbins⟩ := htuple
  cases hbins
  obtain ⟨v, hdecode, hreadable⟩ := exists_decode_readable_iff hconv hrel hrow
  rcases h with _ | ⟨hsent, hnil⟩
  cases hnil
  obtain ⟨now, hnow, -, hval⟩ := hsent.tagged
  rw [rowSchema_csvs hrel hnow] at hval
  rw [List.forall_mem_singleton, Naming.Legible, hval.restValue_eq hsame hdecode]
  exact hreadable

/-- **A change that is sent is legible exactly if it is harmless.** -/
theorem legible_change_iff {change : ReorderBufferChange Datum} {calls : List Callback} {rows : List Row}
    (hkeyed : (tableKeyIndex rel).isSome) (hcalls : changeCallbacks conv walPos rel change = some calls)
    (hsent : List.Forall₂ (RowSent n walPos namespaces rel) (calls.filterMap rowMsg) rows) :
    (∀ row ∈ rows, n.Legible row.record) ↔ Harmless conv rel change := by
  match change with
  | .insert (some newtuple) =>
    obtain ⟨⟨key, new⟩, hbins, hmade⟩ := Option.bind_eq_some_iff.mp hcalls
    cases hmade
    exact legible_iff_of_tuple hconv hrel hsame hsent hbins
  | .update none (some newtuple) =>
    obtain ⟨⟨key, new⟩, hbins, hmade⟩ := Option.bind_eq_some_iff.mp hcalls
    cases hmade
    exact legible_iff_of_tuple hconv hrel hsame hsent hbins
  | .update (some oldtuple) (some newtuple) =>
    obtain ⟨⟨oldKey, old⟩, hold, hrest⟩ := Option.bind_eq_some_iff.mp hcalls
    obtain ⟨⟨key, new⟩, hbins, hmade⟩ := Option.bind_eq_some_iff.mp hrest
    have hkeys : tupleKey conv rel oldtuple = tupleKey conv rel newtuple ↔ oldKey = key := by
      rw [tupleKey_of_tupleBins hold, tupleKey_of_tupleBins hbins, Option.some.injEq]
    by_cases heq : oldKey = key
    · obtain rfl := Option.some.inj ((if_pos heq).symm.trans hmade)
      rw [legible_iff_of_tuple hconv hrel hsame hsent hbins]
      exact (and_iff_right (hkeys.mpr heq)).symm
    · -- the row moves, and its old key gets a record without a value
      obtain rfl := Option.some.inj ((if_neg heq).symm.trans hmade)
      obtain ⟨k, rfl⟩ := exists_key_of_tupleBins hkeyed hold
      exact iff_of_false (not_legible_of_deletion hsent) fun h => heq (hkeys.mp h.1)
  | .delete none =>
    cases hcalls
    cases hsent
    exact iff_of_true (List.forall_mem_nil _) rfl
  | .delete (some oldtuple) =>
    obtain ⟨⟨oldKey, old⟩, hbins, hmade⟩ := Option.bind_eq_some_iff.mp hcalls
    cases hmade
    obtain ⟨k, rfl⟩ := exists_key_of_tupleBins hkeyed hbins
    refine iff_of_false (not_legible_of_deletion hsent) ?_
    intro h
    cases h

end

/-! ## §5 — Histories of `csvs` -/

/-- Elements and the lists they lead to, taken together. -/
theorem forall_mem_flatten_iff {α β : Type} {P : β → Prop} {Q : α → Prop} {as : List α} {bss : List (List β)}
    (h : List.Forall₂ (fun a bs => (∀ b ∈ bs, P b) ↔ Q a) as bss) :
    (∀ b ∈ bss.flatten, P b) ↔ ∀ a ∈ as, Q a := by
  induction h with
  | nil => simp
  | cons hab _ ih => rw [List.flatten_cons, List.forall_mem_append, List.forall_mem_cons, hab, ih]

theorem topic_of_rowsSent {n : Naming} {walPos : UInt64} {namespaces : Namespaces} {rel : Table}
    {msgs : List RowMsg} {rows : List Row} (h : List.Forall₂ (RowSent n walPos namespaces rel) msgs rows) :
    ∀ row ∈ rows, topicNameFor n.topicPrefix rel.relname = .ok row.record.topic := by
  induction h with
  | nil => exact List.forall_mem_nil _
  | cons hrow _ ih => exact List.forall_mem_cons.mpr ⟨hrow.topic, ih⟩

/-- All that happens to the table is harmless. -/
def HarmlessHistory (conv : Conversions Datum) (rel : Table) (ts : List DecodedTxn) : Prop :=
  ∀ t ∈ ts, ∀ c ∈ t.changes, c.rel.relid = rel.relid → Harmless conv rel c.change

section

variable {pg : Postgres} {conv : Conversions Datum} {n : Naming} {namespaces : Namespaces} {rel : Table}
  {relid relnamespace : Oid} {details : Bytes} {topic : String}
  (hconv : ∀ column, columnValue conv column = avroValue pg column)
  (hrel : rel.toRelation = Node.csvs relid relnamespace details) (hsame : SameIds n.avro n.registered)
  (hkeyed : (tableKeyIndex rel).isSome) (htopic : topicNameFor n.topicPrefix rel.relname = .ok topic)

include hconv hrel hsame hkeyed htopic

theorem legible_changeSent_iff {c : DecodedChange} {rows : List Row}
    (hc : SoleTable n.topicPrefix namespaces rel topic c) (h : ChangeSent conv n c rows) :
    (∀ row ∈ rows, row.record.topic = topic → n.Legible row.record) ↔
      (c.rel.relid = rel.relid → Harmless conv rel c.change) := by
  obtain ⟨calls, hcalls, hsent⟩ := h
  have htopics := topic_of_rowsSent hsent
  rcases hc with ⟨hsole, -⟩ | ⟨hrelid, hother⟩
  · rw [hsole] at hcalls hsent htopics
    rw [hsole, ← legible_change_iff hconv hrel hsame hkeyed hcalls hsent]
    constructor
    · intro hall _ row hrow
      exact hall row hrow (Except.ok.inj ((htopics row hrow).symm.trans htopic))
    · intro hall row hrow _
      exact hall rfl row hrow
  · refine iff_of_true ?_ fun hsole => absurd hsole hrelid
    intro row hrow hsole
    exact absurd (hsole ▸ htopics row hrow) hother

/-- **The records in the topic are legible exactly if the history is harmless.** -/
theorem legible_records_iff {ts : List DecodedTxn} {ws : List WalTxn}
    (hts : ∀ t ∈ ts, ∀ c ∈ t.changes, SoleTable n.topicPrefix namespaces rel topic c)
    (h : List.Forall₂ (TxnSent conv n) ts ws) :
    (∀ r ∈ records ws, r.topic = topic → n.Legible r) ↔ HarmlessHistory conv rel ts := by
  rw [records_eq_map_flatten, List.forall_mem_map]
  refine forall_mem_flatten_iff ?_
  rw [List.forall₂_map_right_iff]
  refine ((List.forall₂_and_left _ _).mpr ⟨hts, h⟩).imp ?_
  rintro t w ⟨ht, hw⟩
  obtain ⟨rowss, hchanges, hrows⟩ := hw.rows
  rw [hrows]
  refine forall_mem_flatten_iff (((List.forall₂_and_left _ _).mpr ⟨ht, hchanges⟩).imp ?_)
  rintro c rows ⟨hc, hsent⟩
  exact legible_changeSent_iff hconv hrel hsame hkeyed htopic hc hsent

end

/-- **`n.Serves topic log`** — the workers survive what they read of a topic: whatever batches a worker gets, made
of records of the log, and whatever happens to its connections and queries. -/
def Naming.Serves (n : Naming) (topic : String) (log : List KafkaRecord) : Prop :=
  ∀ (db : Node.Db) (batches : List (List KafkaRecord)), (∀ r ∈ batches.flatten, r ∈ log ∧ r.topic = topic) →
    Node.Survives db (batches.map (·.map fun r => n.restValue r.val))

theorem Naming.serves_iff {n : Naming} {topic : String} {log : List KafkaRecord} :
    n.Serves topic log ↔ ∀ r ∈ log, r.topic = topic → n.Legible r := by
  constructor
  · intro h r hr htopic
    have hsurvives := h ⟨0, []⟩ [[r]] (by simpa using ⟨hr, htopic⟩)
    exact Node.readable_of_survives hsurvives _ (by simp)
  · intro h db batches hbatches
    apply Node.survives_of_readable
    intro msg hmsg
    rw [← List.map_flatten] at hmsg
    obtain ⟨r, hr, rfl⟩ := List.mem_map.mp hmsg
    obtain ⟨hlog, htopic⟩ := hbatches r hr
    exact h r hlog htopic

section

variable {pg : Postgres} {conv : Conversions Datum} {config : ProducerConfig}
  (hdesc : ∀ a b, conv.equalTupleDescs a b = true → a.live = b.live)
  (hconv : ∀ column, columnValue conv column = avroValue pg column)
  (hread : config.lib.avro.valueRead = decode readPredefined)
  (hempty : config.lib.avro.schemaFromJson [] = none) (hformat : config.outputFormat = .avro)
  {registryUrl topicPrefix : Option String} {h : Handler} {ts : List DecodedTxn}
  (hts : ∀ t ∈ ts, ∀ c ∈ t.changes, SchemasPrintable conv config.lib.avro c.namespaces c.rel ∧ LiveKey c.rel)
  (hrun : pipeline conv config registryUrl topicPrefix (ts.flatMap DecodedTxn.calls) = some h)
  (hsame : SameIds config.lib.avro h.registered)

include hdesc hconv hread hempty hformat hts hrun hsame

/-- **Which histories of `csvs` the workers survive.**  The transactions `ts` go through the pipeline, and the
deployment commits what it makes of them.  If they do nothing to the table but harmless changes, no worker is
ever ended by what it reads of the topic, after no reliable run, however often and in whatever order the messages
were stored.  If they do anything else, then, once the slot's position has reached the last commit, there is
something in the topic that ends a worker. -/
theorem workers_survive_iff {rel : Table} {relid relnamespace : Oid} {details : Bytes}
    (hrel : rel.toRelation = Node.csvs relid relnamespace details) (hkeyed : (tableKeyIndex rel).isSome)
    {namespaces : Namespaces} {topic : String} (htopic : topicNameFor topicPrefix rel.relname = .ok topic)
    (hsole : ∀ t ∈ ts, ∀ c ∈ t.changes, SoleTable topicPrefix namespaces rel topic c)
    {origin : UInt64} {es : List ClusterEvent} {c : Cluster} (hcluster : Cluster.Run origin es c)
    (hreliable : Along Cluster.step Cluster.Reliable (Cluster.init origin) es)
    (hcopies : Along Cluster.step Cluster.StoresCopies (Cluster.init origin) es)
    (hwal : h.events = stream c.wal) :
    let n : Naming := ⟨config.lib.avro, h.registered, topicPrefix⟩
    (HarmlessHistory conv rel ts → n.Serves topic c.log) ∧
      ((∀ t ∈ c.wal, t.commitLsn ≤ c.confirmed) → n.Serves topic c.log → HarmlessHistory conv rel ts) := by
  intro n
  obtain ⟨ess, hevents, hemits⟩ := emits_of_pipeline hdesc hconv hread hempty hformat (sendable_calls hts) hrun
  obtain ⟨ws, hsent, hstream⟩ := emits_txns hemits
  obtain rfl : ws = c.wal := stream_injective (hstream.symm.trans (hevents.symm.trans hwal))
  have hlegible := legible_records_iff (n := n) hconv hrel hsame hkeyed htopic hsole hsent
  rw [Naming.serves_iff, ← hlegible]
  constructor
  · intro hall r hr
    exact hall r (genuine_of_run hcluster hreliable hcopies (List.mem_append_left _ hr))
  · intro hdone hall r hr
    exact hall r (records_subset_log (sound_of_run hcluster hreliable) hdone hr)

end

/-! A row comes, and its email changes. -/

def csvsKey : Index where
  relid := 17731
  relname := "csvs_pkey"
  relnamespace := 2200
  tupdesc := ⟨[⟨"id", INT8OID, false⟩], []⟩
  indisvalid := true
  indisready := true
  indisprimary := true
  indkey := [1]
  relid_ne_zero := by decide

def csvsTable : Table where
  toRelation := Node.csvs 16430 2200 []
  relreplident := .default
  replicaIndex := none
  indexes := [csvsKey]

def csvsConversions : Conversions Datum :=
  conversions yearCalendar (fun a b => decide (a = b)) fun s => if s.name = "csvs" then [118] else [107]

def csvsSchemas : Libavro where
  schemaFromJson
    | [118] => some (csvsTable.schema publicOnly)
    | [107] => some (csvsKey.schema publicOnly)
    | _ => none
  valueRead := decode readPredefined

def csvsConfig : ProducerConfig where
  lib := ⟨csvsSchemas, letterHttp, fun _ _ => true⟩
  outputFormat := .avro
  binToJson := fun _ _ => none

/-- Ada, who is reached at one of two addresses. -/
def adaAt (email : Text) : HeapTuple Datum :=
  ⟨[some (.int8 1), some (.text ⟨[65, 100, 97], by decide, by decide⟩), some (.text email), some (.timestamp 5)],
    none⟩

def csvsTxn : DecodedTxn where
  xid := 751
  beginPos := 390
  changes :=
    [⟨391, publicOnly, csvsTable, .insert (some (adaAt ⟨[97, 64, 98], by decide, by decide⟩))⟩,
      ⟨392, publicOnly, csvsTable, .update none (some (adaAt ⟨[97, 64, 99], by decide, by decide⟩))⟩]
  commitPos := 399
  commitLsn := 398
  xid_ne := by decide
  commitPos_ne := by decide

theorem csvsTable_liveKey : LiveKey csvsTable := by
  have hkey (index : Index) (hindex : tableKeyIndex csvsTable = some index) : csvsKey = index :=
    Option.some.inj hindex
  constructor
  · intro index hindex
    obtain rfl := hkey index hindex
    decide
  · intro index hindex
    obtain rfl := hkey index hindex
    refine ⟨by decide, by decide, rfl, ?_⟩
    intro j attr indkey hattr hindkey
    rcases j with _ | j
    · cases hattr
      cases hindkey
      exact ⟨rfl, fun _ => rfl⟩
    · cases hattr
  · intro index hindex indkey hmem
    obtain rfl := hkey index hindex
    obtain rfl : indkey = 1 := by simpa [csvsKey] using hmem
    exact ⟨by decide, ⟨"id", INT8OID, false⟩, rfl, rfl⟩

theorem csvsTxn_sendable : ∀ c ∈ csvsTxn.changes,
    SchemasPrintable csvsConversions csvsSchemas c.namespaces c.rel ∧ LiveKey c.rel := by
  intro c hc
  rcases List.mem_pair.mp hc with rfl | rfl
  · exact ⟨⟨by rintro _ ⟨⟩; rfl, by rintro _ ⟨⟩; rfl⟩, csvsTable_liveKey⟩
  · exact ⟨⟨by rintro _ ⟨⟩; rfl, by rintro _ ⟨⟩; rfl⟩, csvsTable_liveKey⟩

/-- The record for Ada, with the last letter of the address. -/
def adaRecord (letter : UInt8) : KafkaRecord :=
  ⟨"pg-csvs", some [0, 0, 0, 0, 107, 2, 2], some
    [0, 0, 0, 0, 118, 2, 2, 2, 6, 65, 100, 97, 2, 6, 97, 64, letter, 2, 0, 2, 2, 0, 0, 0, 10]⟩

def csvsWal : WalTxn where
  xid := 751
  rows := [⟨391, 16430, adaRecord 98⟩, ⟨392, 16430, adaRecord 99⟩]
  commitLsn := 399
  xid_ne := csvsTxn.xid_ne
  commitLsn_ne := csvsTxn.commitPos_ne

/-- The first record is stored twice, and the client is stopped. -/
def csvsEvents : List ClusterEvent :=
  [.commit csvsWal, .start 3, .client (.onBeginTxn 751)] ++
    (csvsWal.rows.take 1).flatMap (fun row => [.client row.event, .client (.rdKafkaProduce false false)]) ++
    [.store 0, .stray (adaRecord 98), .stop]

theorem workers_survive_csvs :
    ∃ h c, (pipeline csvsConversions csvsConfig none (some "pg") ([csvsTxn].flatMap DecodedTxn.calls) = some h ∧
        Cluster.Run 3 csvsEvents c ∧ c.log = [adaRecord 98, adaRecord 98]) ∧
      Naming.Serves ⟨csvsSchemas, h.registered, some "pg"⟩ "pg-csvs" c.log := by
  have hpipeline : (pipeline csvsConversions csvsConfig none (some "pg")
      ([csvsTxn].flatMap DecodedTxn.calls)).map (fun h => (h.registered, h.events)) =
        some ([([107], 107), ([118], 118)], stream [csvsWal]) := by decide +kernel
  obtain ⟨h, hrun, hpair⟩ := Option.map_eq_some_iff.mp hpipeline
  obtain ⟨hregistered, hevents⟩ := Prod.mk.inj hpair
  have hsame : SameIds csvsSchemas h.registered := by
    rw [hregistered]
    exact sameIds_letters (by decide) (List.Subset.refl _)
  obtain ⟨c, hcluster, hlog, hwal⟩ : ∃ c, Cluster.Run 3 csvsEvents c ∧
      c.log = [adaRecord 98, adaRecord 98] ∧ c.wal = [csvsWal] := ⟨_, rfl, rfl, rfl⟩
  have hreliable : Along Cluster.step Cluster.Reliable (Cluster.init 3) csvsEvents := by decide +kernel
  have hcopies : Along Cluster.step Cluster.StoresCopies (Cluster.init 3) csvsEvents := by decide +kernel
  have hsole : ∀ t ∈ [csvsTxn], ∀ c ∈ t.changes, SoleTable (some "pg") publicOnly csvsTable "pg-csvs" c := by
    rw [List.forall_mem_singleton]
    intro c hc
    rcases List.mem_pair.mp hc with rfl | rfl
    · exact .inl ⟨rfl, rfl⟩
    · exact .inl ⟨rfl, rfl⟩
  have hharmless : HarmlessHistory csvsConversions csvsTable [csvsTxn] := by
    rw [HarmlessHistory, List.forall_mem_singleton]
    intro c hc _
    rcases List.mem_pair.mp hc with rfl | rfl
    · exact ⟨rfl, rfl⟩
    · exact ⟨rfl, rfl⟩
  have hdesc : ∀ a b, csvsConversions.equalTupleDescs a b = true → a.live = b.live := by
    intro a b h
    rw [of_decide_eq_true h]
  refine ⟨h, c, ⟨hrun, hcluster, hlog⟩, ?_⟩
  exact (workers_survive_iff hdesc (columnValue_conversions _ _ _) rfl rfl rfl
    (List.forall_mem_singleton.mpr csvsTxn_sendable) hrun hsame rfl rfl rfl hsole hcluster hreliable hcopies
    (hevents.trans (by rw [hwal]))).1 hharmless

end BottledWater.Deployment
