/-
# BottledWater.Deployment.Tables — a topic is its table.

The results on the way put together, for one table with a key.  Its changes go through the output plugin, the
frames, the client, the table mapper and the registry (`Pipeline`), the producer, the brokers and the
replication slot, with any number of stops and restarts (`Cluster`).  Someone reads the topic of the table,
keeping the last value of each key.  Once the slot has confirmed the last commit, what they have is the table:
for each row its columns under its key, each behind the id of its schema, and nothing else
(`topic_is_table`).

The table is not altered or renamed meanwhile, and its topic is not that of another table.  It is empty when
the slot is created; a table that is not has its rows copied by the snapshot first.  The runs are orderly
(`Cluster.Orderly`): a retry of librdkafka that is stored behind a later message of its partition would leave
an old row in the topic.
-/
import BottledWater.Deployment.Resend

namespace BottledWater.Deployment

open BottledWater.Lib BottledWater.Lib.Avro BottledWater.Client BottledWater.Ext BottledWater.Ext.Logdecoder
open BottledWater.Protocol BottledWater.Kafka

/-! ## §1 — Decoding calls as changes of tables -/

section

variable (conv : Conversions Datum)

/-- The change of a table that a call is about. -/
def replicationEvent? : UInt64 × DecodingCall Datum → Option (ReplicationEvent Datum)
  | (walPos, .change namespaces rel change) => (change? rel change).map (.change namespaces rel · walPos)
  | (_, .beginTxn _) | (_, .commitTxn ..) => none

/-- The calls of `send_kafka_msg` that a call leads to. -/
def rowMsgs : UInt64 × DecodingCall Datum → List RowMsg
  | (walPos, .change _ rel change) => ((changeCallbacks conv walPos rel change).getD []).filterMap rowMsg
  | (_, .beginTxn _) | (_, .commitTxn ..) => []

variable {conv}

theorem filterMap_rowMsg_tellsSchemas {known : KnownSchemas} {walPos : UInt64} {namespaces : Namespaces}
    {rel : Table} {calls : List Callback} (h : TellsSchemas known walPos namespaces rel calls) :
    calls.filterMap rowMsg = [] := by
  obtain ⟨now, -, ⟨-, rfl⟩ | ⟨_, _, rfl⟩⟩ := h <;> rfl

theorem filterMap_rowMsg_of_told {known : KnownSchemas} {walPos : UInt64} {call : DecodingCall Datum}
    {calls : List Callback} (h : Told conv known walPos call calls) : calls.filterMap rowMsg = rowMsgs conv (walPos, call) := by
  cases h with
  | beginTxn xid => rfl
  | commitTxn xid commitLsn => rfl
  | change hschemas hrows =>
    rw [List.filterMap_append, filterMap_rowMsg_tellsSchemas hschemas, List.nil_append, rowMsgs, hrows]
    rfl

/-- Messages and their callbacks lead to the same calls of `send_kafka_msg`. -/
theorem filterMap_rowMsg_callbacks {avro : Libavro} {walPos : UInt64} {msgs : List Protocol.Message}
    {calls : List Callback}
    (h : List.Forall₂ (fun m call => m.callback avro walPos = some call) msgs calls) :
    msgs.filterMap Message.rowMsg = calls.filterMap rowMsg := by
  induction h with
  | nil => rfl
  | cons hcall _ ih => rw [List.filterMap_cons, List.filterMap_cons, ih, rowMsg_of_callback hcall]

variable {pg : Postgres} {avro : Libavro}
  (hdesc : ∀ a b, conv.equalTupleDescs a b = true → a.live = b.live)
  (hconv : ∀ column, columnValue conv column = avroValue pg column)
  (hread : avro.valueRead = decode readPredefined)

include hdesc hconv hread

/-- **What the plugin writes for calls, the client takes as changes of tables**, if its callbacks only keep what
they would send. -/
theorem run_of_outputs {calls : List (UInt64 × DecodingCall Datum)} :
    ∀ {state state' : PluginState} {frames : List (UInt64 × Bytes)} {reader : FrameReader}
      (sent : List RowMsg), Agrees state.schemaCache reader → (∀ c ∈ calls, Sendable conv avro c.2) →
      state.outputs conv calls = .ok (state', frames) →
      ∃ reader', run (Replication.step conv avro sendRow) ⟨state.schemaCache, ⟨reader, sent⟩⟩
          (calls.filterMap replicationEvent?) =
        some ⟨state'.schemaCache, ⟨reader', sent ++ calls.flatMap (rowMsgs conv)⟩⟩ := by
  induction calls with
  | nil =>
    intro state state' frames reader sent _ _ h
    obtain ⟨rfl, -⟩ := Prod.mk.inj (Except.ok.inj h)
    exact ⟨reader, by rw [List.flatMap_nil, List.append_nil]; rfl⟩
  | cons c calls ih =>
    obtain ⟨walPos, call⟩ := c
    intro state state' frames reader sent hagree hcalls h
    obtain ⟨hcall, hcalls⟩ := List.forall_mem_cons.mp hcalls
    obtain ⟨state₁, frame, rest, hfirst, hrest, -⟩ := PluginState.outputs_cons_eq_ok h
    obtain ⟨msgs, hmsgs, -, -⟩ := PluginState.output_eq_ok hfirst
    obtain ⟨hacceptable, hagree₁, made, htold, hmade⟩ :=
      told_of_messages hdesc hconv hread walPos hagree hcall hmsgs
    obtain ⟨reader', hrun⟩ := ih (sent ++ rowMsgs conv (walPos, call)) hagree₁ hcalls hrest
    refine ⟨reader', ?_⟩
    rw [List.flatMap_cons, ← List.append_assoc, ← hrun]
    cases call with
    | beginTxn xid =>
      obtain ⟨hcache, rfl⟩ := Prod.mk.inj (Except.ok.inj hmsgs)
      rw [hcache, rowMsgs, List.append_nil]
      rfl
    | commitTxn xid commitLsn =>
      obtain ⟨hcache, rfl⟩ := Prod.mk.inj (Except.ok.inj hmsgs)
      rw [hcache, rowMsgs, List.append_nil]
      rfl
    | change namespaces rel c =>
      obtain ⟨change, hchange, hplugin⟩ := changeMessages_eq_ok hmsgs
      have hevent : replicationEvent? (walPos, .change namespaces rel c) =
          some (.change namespaces rel change walPos) := by
        rw [replicationEvent?, hchange]
        rfl
      rw [List.filterMap_cons_some hevent, run_cons]
      have hstep : Replication.step conv avro sendRow ⟨state.schemaCache, ⟨reader, sent⟩⟩
          (.change namespaces rel change walPos) =
          some ⟨state₁.schemaCache, ⟨readerAfterAll avro reader msgs,
            sent ++ rowMsgs conv (walPos, .change namespaces rel c)⟩⟩ := by
        refine Replication.step_change_eq_some.mpr ⟨msgs, hplugin, ?_⟩
        refine processFrame_ok_iff.mpr ⟨hacceptable, made, hmade, ?_, rfl⟩
        rw [invokeAll_sendRow hmade, filterMap_rowMsg_callbacks hmade, filterMap_rowMsg_of_told htold]
      rw [hstep]
      rfl

end

/-! ## §2 — The records of a table -/

theorem records_eq_map_flatten (ws : List WalTxn) :
    records ws = ((ws.map WalTxn.rows).flatten).map Row.record := by
  simp [records, List.flatMap_def, List.map_flatten, Function.comp_def]

/-- The message is one of the table and its record is in the topic, key and value behind these ids; or it is of
another table and its record is elsewhere. -/
def CopiedTo (relid : Oid) (topic : String) (keyId rowId : Int32) (msg : RowMsg) (row : Row) : Prop :=
  (msg.relid = relid ∧ entry row.record =
      ((topic, addSchemaPrefix keyId msg.key), addSchemaPrefix rowId msg.val)) ∨
    (msg.relid ≠ relid ∧ row.record.topic ≠ topic)

/-- The part of the log in the topic is the log of the table. -/
theorem slice_of_copiedTo {relid : Oid} {topic : String} {keyId rowId : Int32} {msgs : List RowMsg}
    {rows : List Row} (h : List.Forall₂ (CopiedTo relid topic keyId rowId) msgs rows) :
    Changelog.slice topic ((rows.map Row.record).map entry) =
      (tableLog relid msgs).map fun e => (addSchemaPrefix keyId e.1, addSchemaPrefix rowId e.2) := by
  induction h with
  | nil => rfl
  | @cons msg row msgs rows hcopied _ ih =>
    rw [← List.singleton_append (l := msgs), tableLog_append, List.map_append, ← ih, List.map_cons, List.map_cons]
    rcases hcopied with ⟨hrelid, hentry⟩ | ⟨hrelid, htopic⟩
    · rw [hentry]
      simp [Changelog.slice, tableLog, hrelid]
    · simp [Changelog.slice, tableLog, entry, hrelid, htopic]

/-! ## §3 — One table -/

section

variable {conv : Conversions Datum} {n : Naming} {rel : Table} {namespaces : Namespaces} {topic : String}

/-- What a change may be, for the topic to be that of one table which stays as it is. -/
def SoleTable (topicPrefix : Option String) (namespaces : Namespaces) (rel : Table) (topic : String)
    (c : DecodedChange) : Prop :=
  (c.rel = rel ∧ c.namespaces = namespaces) ∨
    (c.rel.relid ≠ rel.relid ∧ topicNameFor topicPrefix c.rel.relname ≠ .ok topic)

/-- The id of the key schema of a table. -/
noncomputable def Naming.keyId (n : Naming) (now : SchemaListEntry) : Int32 := n.idOf now.keySchema

/-- The id of the row schema of a table. -/
noncomputable def Naming.rowId (n : Naming) (now : SchemaListEntry) : Int32 := n.idOf (some now.rowSchema)

variable {now : SchemaListEntry} (hsame : SameIds n.avro n.registered)
  (htopic : topicNameFor n.topicPrefix rel.relname = .ok topic) (hnow : SchemasOf namespaces rel now)

include hsame htopic hnow

theorem copiedTo_of_rowSent {c : DecodedChange} {msg : RowMsg} {row : Row}
    (hc : SoleTable n.topicPrefix namespaces rel topic c) (h : RowSent n c.walPos c.namespaces c.rel msg row) :
    CopiedTo rel.relid topic (n.keyId now) (n.rowId now) msg row := by
  rcases hc with ⟨hrel, hnamespaces⟩ | ⟨hrelid, hother⟩
  · rw [hrel, hnamespaces] at h
    refine .inl ⟨h.table, ?_⟩
    rw [entry, ← Except.ok.inj (htopic.symm.trans h.topic), (h.key hnow).eq_idOf hsame,
      (h.val hnow).eq_idOf hsame]
    rfl
  · refine .inr ⟨h.table ▸ hrelid, ?_⟩
    intro hsame
    exact hother (hsame ▸ h.topic)

theorem copiedTo_of_txnSent {t : DecodedTxn} {w : WalTxn}
    (ht : ∀ c ∈ t.changes, SoleTable n.topicPrefix namespaces rel topic c) (h : TxnSent conv n t w) :
    List.Forall₂ (CopiedTo rel.relid topic (n.keyId now) (n.rowId now))
      (t.calls.flatMap (rowMsgs conv)) w.rows := by
  obtain ⟨rowss, hchanges, hrows⟩ := h.rows
  have hmsgs : t.calls.flatMap (rowMsgs conv) = (t.changes.map fun c => rowMsgs conv c.call).flatten := by
    simp [DecodedTxn.calls, rowMsgs, List.flatMap_def, Function.comp_def]
  rw [hmsgs, hrows]
  refine List.rel_flatten ?_
  rw [List.forall₂_map_left_iff]
  refine ((List.forall₂_and_left _ _).mpr ⟨ht, hchanges⟩).imp ?_
  rintro c rows ⟨hc, calls, hcalls, hsent⟩
  rw [DecodedChange.call, rowMsgs, hcalls]
  exact hsent.imp fun _ _ hrow => copiedTo_of_rowSent hsame htopic hnow hc hrow

/-- **The records in the topic are those of the table**, in order. -/
theorem slice_records {ts : List DecodedTxn} {ws : List WalTxn}
    (hts : ∀ t ∈ ts, ∀ c ∈ t.changes, SoleTable n.topicPrefix namespaces rel topic c)
    (h : List.Forall₂ (TxnSent conv n) ts ws) :
    Changelog.slice topic ((records ws).map entry) =
      (tableLog rel.relid ((ts.flatMap DecodedTxn.calls).flatMap (rowMsgs conv))).map fun e =>
        (addSchemaPrefix (n.keyId now) e.1, addSchemaPrefix (n.rowId now) e.2) := by
  have hcopied : List.Forall₂ (CopiedTo rel.relid topic (n.keyId now) (n.rowId now))
      (ts.map fun t => t.calls.flatMap (rowMsgs conv)).flatten (ws.map WalTxn.rows).flatten := by
    refine List.rel_flatten ?_
    rw [List.forall₂_map_left_iff, List.forall₂_map_right_iff]
    refine ((List.forall₂_and_left _ _).mpr ⟨hts, h⟩).imp ?_
    rintro t w ⟨ht, hw⟩
    exact copiedTo_of_txnSent hsame htopic hnow ht hw
  have hmsgs : (ts.flatMap DecodedTxn.calls).flatMap (rowMsgs conv) =
      (ts.map fun t => t.calls.flatMap (rowMsgs conv)).flatten := by
    rw [List.flatMap_assoc, List.flatMap_def]
  rw [records_eq_map_flatten, hmsgs]
  exact slice_of_copiedTo hcopied

end

/-! ## §4 — The table and the topic -/

theorem addSchemaPrefix_injective (id : Int32) : Function.Injective (addSchemaPrefix id) := by
  apply Option.map_injective
  intro bin bin' h
  exact List.append_cancel_left (List.cons.inj h).2

/-- The changes of tables in transactions. -/
def replicationEvents (ts : List DecodedTxn) : List (ReplicationEvent Datum) :=
  (ts.flatMap DecodedTxn.calls).filterMap replicationEvent?

section

variable {pg : Postgres} {conv : Conversions Datum} {config : ProducerConfig}
  (hdesc : ∀ a b, conv.equalTupleDescs a b = true → a.live = b.live)
  (hconv : ∀ column, columnValue conv column = avroValue pg column)
  (hread : config.lib.avro.valueRead = decode readPredefined)
  {registryUrl topicPrefix : Option String} {h : Handler} {ts : List DecodedTxn} {rel : Table} {index : Index}
  {occurred rows : List (HeapTuple Datum)}
  (hts : ∀ t ∈ ts, ∀ c ∈ t.changes, SchemasPrintable conv config.lib.avro c.namespaces c.rel ∧ LiveKey c.rel)
  (hrun : pipeline conv config registryUrl topicPrefix (ts.flatMap DecodedTxn.calls) = some h)
  (hindex : tableKeyIndex rel = some index) (hlive : LiveKey rel)
  (hhistory : TableHistory rel index (replicationEvents ts) occurred rows)
  (hinj : InjectiveKeys conv rel index occurred)

include hdesc hconv hread hts hrun hindex hlive hhistory hinj

/-- The messages for a table stand for its rows. -/
theorem represents_rowMsgs :
    Changelog.Represents (encodedKey conv rel index) (encodedRow conv rel)
      (Changelog.replay (tableLog rel.relid ((ts.flatMap DecodedTxn.calls).flatMap (rowMsgs conv)))) rows := by
  obtain ⟨producer, state, frames, t, -, hplugin, -, -⟩ := pipeline_eq_some hrun
  obtain ⟨reader', hreplication⟩ := run_of_outputs hdesc hconv hread []
    (agrees_schemaCacheNew frameReaderNew) (sendable_calls hts) hplugin
  exact (rebuilt_of_run hindex (hlive.name index hindex) (hlive.live index hindex) hhistory hinj
    hreplication).log

variable (hempty : config.lib.avro.schemaFromJson [] = none) (hformat : config.outputFormat = .avro)
  (hsame : SameIds config.lib.avro h.registered)

include hempty hformat hsame

/-- **A topic is its table.**  The transactions `ts` go through the pipeline, and the deployment commits what it
makes of them.  After every orderly run of the deployment, once the slot's position has reached the last commit,
the topic of a table, read with any order between the partitions, has under each key the row of the table with
that key, and nothing else. -/
theorem topic_is_table {namespaces : Namespaces} {topic : String} {now : SchemaListEntry}
    (hnow : SchemasOf namespaces rel now) (htopic : topicNameFor topicPrefix rel.relname = .ok topic)
    (hsole : ∀ t ∈ ts, ∀ c ∈ t.changes, SoleTable topicPrefix namespaces rel topic c)
    {partition : String → Option (List UInt8) → Nat} {origin : UInt64} {es : List ClusterEvent} {c : Cluster}
    (hcluster : Cluster.Run origin es c)
    (horderly : Along Cluster.step (Cluster.Orderly partition) (Cluster.init origin) es)
    (hwal : h.events = stream c.wal) (hdone : ∀ t ∈ c.wal, t.commitLsn ≤ c.confirmed) {seen : List KafkaRecord}
    (hseen : ∀ dest, inPlace partition dest seen = inPlace partition dest c.log) :
    let n : Naming := ⟨config.lib.avro, h.registered, topicPrefix⟩
    ∀ key val, Changelog.replay (seen.map entry) (topic, key) = some val ↔
      ∃ row ∈ rows, addSchemaPrefix (n.keyId now) (encodedKey conv rel index row) = key ∧
        addSchemaPrefix (n.rowId now) (encodedRow conv rel row) = some val := by
  intro n
  obtain ⟨ess, hevents, hemits⟩ := emits_of_pipeline hdesc hconv hread hempty hformat (sendable_calls hts) hrun
  obtain ⟨ws, hsent, hstream⟩ := emits_txns hemits
  obtain rfl : ws = c.wal := stream_injective (hstream.symm.trans (hevents.symm.trans hwal))
  have hslice := slice_records (n := n) hsame htopic hnow hsole hsent
  have htable := represents_rowMsgs hdesc hconv hread hts hrun hindex hlive hhistory hinj
  have hrenamed := htable.map (addSchemaPrefix_injective (n.keyId now))
    (g := fun bin => 0 :: htonlBytes (n.rowId now).toUInt32 ++ bin)
  obtain ⟨hsound, hreplayed⟩ := replayed_of_run hcluster horderly
  intro key val
  rw [replay_of_seen hsound hreplayed hdone hseen, ← Changelog.replay_slice, hslice]
  exact hrenamed key val

end

/-! The row that comes and moves to another key; a client is stopped after the first message. -/

/-- A record in the topic, key and columns behind the ids of their schemas. -/
def visitsRecord (day : UInt8) (stays : Bool) : KafkaRecord :=
  ⟨"pg-visits", some [0, 0, 0, 0, 107, 2, day, 161, 171, 2, 2, 2],
    if stays then some [0, 0, 0, 0, 118, 0, 2, day, 161, 171, 2, 2, 2] else none⟩

def visitsRows : List Row :=
  [⟨191, 16410, visitsRecord 188 true⟩, ⟨192, 16410, visitsRecord 188 false⟩, ⟨192, 16410, visitsRecord 190 true⟩]

def visitsWal : WalTxn where
  xid := 731
  rows := visitsRows
  commitLsn := 199
  xid_ne := visitsTxn.xid_ne
  commitLsn_ne := visitsTxn.commitPos_ne

/-- The first message is stored twice. -/
def visitsEvents : List ClusterEvent :=
  [.commit visitsWal, .start 3, .client (.onBeginTxn 731)] ++
    (visitsRows.take 1).flatMap (fun row => [.client row.event, .client (.rdKafkaProduce false false)]) ++
    [.store 0, .stop, .start 3, .client (.onBeginTxn 731)] ++
    visitsRows.flatMap (fun row => [.client row.event, .client (.rdKafkaProduce false false)]) ++
    [.client (.onCommitTxn 199 731), .store 0, .store 0, .store 0, .client (.onDeliverMsg 0 false),
      .client (.onDeliverMsg 0 false), .client (.onDeliverMsg 0 false), .sendStatus 199 0, .recvStatus 199]

/-- The schemas of the table, as a client has them. -/
def visitsListed : SchemaListEntry :=
  ⟨visits.relid, some (visitsKey.schema publicOnly), visits.schema publicOnly⟩

theorem visits_schemasOf : SchemasOf publicOnly visits visitsListed where
  relid := rfl
  row := rfl
  key := rfl

theorem visits_history : TableHistory visits visitsKey (replicationEvents [visitsTxn]) [visit 5, visit 6]
    [visit 6] := by
  have h : TableHistory visits visitsKey [.change publicOnly visits (.insert visits.tupdesc (visit 5)) 191]
      [visit 5] [visit 5] := TableHistory.empty.insert publicOnly 191 .whole (by decide)
  exact h.update publicOnly 192 (by simp : visit 5 ∈ _) (by rfl : SuppliesOld _ _ _ (visit 6) (some (visit 5)))
    (by decide)

theorem topic_is_table_visits :
    ∃ h c, (pipeline calendarConversions calendarConfig none (some "pg") ([visitsTxn].flatMap DecodedTxn.calls) =
          some h ∧ Cluster.Run 3 visitsEvents c ∧ c.log.length = 4) ∧
      let n : Naming := ⟨calendarSchemas, h.registered, some "pg"⟩
      ∀ key val, Changelog.replay (c.log.map entry) ("pg-visits", key) = some val ↔
        ∃ row ∈ [visit 6],
          addSchemaPrefix (n.keyId visitsListed) (encodedKey calendarConversions visits visitsKey row) = key ∧
          addSchemaPrefix (n.rowId visitsListed) (encodedRow calendarConversions visits row) = some val := by
  have hpipeline : (pipeline calendarConversions calendarConfig none (some "pg")
      ([visitsTxn].flatMap DecodedTxn.calls)).map (fun h => (h.registered, h.events)) =
        some ([([107], 107), ([118], 118)], stream [visitsWal]) := by decide +kernel
  obtain ⟨h, hrun, hpair⟩ := Option.map_eq_some_iff.mp hpipeline
  obtain ⟨hregistered, hevents⟩ := Prod.mk.inj hpair
  have hsame : SameIds calendarSchemas h.registered := by
    rw [hregistered]
    exact sameIds_calendar (List.Subset.refl _)
  obtain ⟨c, hcluster, hlength, hwal, hconfirmed⟩ : ∃ c, Cluster.Run 3 visitsEvents c ∧
      c.log.length = 4 ∧ c.wal = [visitsWal] ∧ c.confirmed = 199 := ⟨_, rfl, rfl, rfl, rfl⟩
  have horderly : Along Cluster.step (Cluster.Orderly partitionByByte) (Cluster.init 3) visitsEvents := by
    decide +kernel
  have hsole : ∀ t ∈ [visitsTxn], ∀ c ∈ t.changes, SoleTable (some "pg") publicOnly visits "pg-visits" c := by
    intro t ht c hc
    rw [List.mem_singleton.mp ht] at hc
    rcases List.mem_pair.mp hc with rfl | rfl
    · exact .inl ⟨rfl, rfl⟩
    · exact .inl ⟨rfl, rfl⟩
  have hinj : InjectiveKeys calendarConversions visits visitsKey [visit 5, visit 6] := by decide +kernel
  refine ⟨h, c, ⟨hrun, hcluster, hlength⟩, ?_⟩
  exact topic_is_table calendar_desc (columnValue_conversions _ _ _) rfl
    (List.forall_mem_singleton.mpr visitsTxn_sendable) hrun rfl visits_liveKey visits_history hinj
    rfl rfl hsame visits_schemasOf rfl hsole hcluster horderly (hevents.trans (by rw [hwal]))
    (by rw [hwal, hconfirmed]; simp [visitsWal]) fun _ => rfl

end BottledWater.Deployment
