/-
# BottledWater.Deployment.Pipeline — from logical decoding to the producer.

All that lies between the output plugin and the counting of messages, in one run: frames, schema list,
callbacks, table mapper and registry.  Transactions go in as logical decoding hands them out, one after the
other; `decoded_stream` says that the producer gets them as `stream` has them, each row as a record in the topic
of its table whose key and value are, behind the ids of their schemas, the encoded key and columns.  This is
the stream that `Cluster` starts from.
-/
import BottledWater.Deployment.Session
import BottledWater.Kafka.SchemaIds
import BottledWater.Protocol.Decoding

namespace BottledWater.Deployment

open BottledWater.Lib BottledWater.Lib.Avro BottledWater.Client BottledWater.Ext BottledWater.Ext.Logdecoder
open BottledWater.Protocol BottledWater.Kafka

/-! ## §1 — The callbacks of `bottledwater.c` -/

/-- What the callbacks work on: the table mapper, and the events they cause in the producer. -/
structure Handler where
  producer : Producer
  events : List Event

/-- What the registry has been asked, with its answers. -/
def Handler.registered (h : Handler) : List (Bytes × Int32) := h.producer.mapper.outside.registered

/-- The event of a callback; `on_table_schema` causes none. -/
def callbackEvent (config : ProducerConfig) (mapper : TableMapper) : Callback → Option Event
  | .beginTxn _ xid => some (.onBeginTxn xid)
  | .commitTxn walPos xid => some (.onCommitTxn walPos xid)
  | call => rowCall config mapper call

/-- A callback that returns. -/
def Handler.on (config : ProducerConfig) (h : Handler) (call : Callback) : Option Handler :=
  (h.producer.on config call).map fun producer =>
    ⟨producer, h.events ++ (callbackEvent config h.producer.mapper call).toList⟩

/-- The callbacks as `parse_frame` calls them. -/
def Handler.callback (config : ProducerConfig) (call : Callback) (h : Handler) : Int × Handler :=
  match h.on config call with
  | some h => (0, h)
  | none => (1, h)

/-- The callbacks one after the other. -/
def Handler.onAll (config : ProducerConfig) (h : Handler) (calls : List Callback) : Option Handler :=
  calls.foldlM (Handler.on config) h

section

variable {config : ProducerConfig} {h h' : Handler}

theorem invokeAll_callback (calls : List Callback) :
    invokeAll (Handler.callback config) calls h = h.onAll config calls := by
  induction calls generalizing h with
  | nil => rfl
  | cons call calls ih =>
    rw [invokeAll_cons, Handler.onAll, List.foldlM_cons, Handler.callback]
    cases h.on config call with
    | none => rfl
    | some h₁ => exact ih

theorem onAll_cons_eq_some {call : Callback} {calls : List Callback}
    (hon : h.onAll config (call :: calls) = some h') :
    ∃ h₁, h.on config call = some h₁ ∧ h₁.onAll config calls = some h' :=
  Option.bind_eq_some_iff.mp hon

theorem onAll_singleton_eq_some {call : Callback} (hon : h.onAll config [call] = some h') :
    h.on config call = some h' := by
  obtain ⟨h₁, hon₁, hnil⟩ := onAll_cons_eq_some hon
  rwa [← Option.some.inj hnil]

theorem onAll_append_eq_some {calls calls' : List Callback}
    (hon : h.onAll config (calls ++ calls') = some h') :
    ∃ h₁, h.onAll config calls = some h₁ ∧ h₁.onAll config calls' = some h' := by
  rw [Handler.onAll, List.foldlM_append] at hon
  exact Option.bind_eq_some_iff.mp hon

theorem on_eq_some {call : Callback} (hon : h.on config call = some h') :
    h.producer.on config call = some h'.producer ∧
      h'.events = h.events ++ (callbackEvent config h.producer.mapper call).toList := by
  obtain ⟨producer, hproducer, rfl⟩ := Option.map_eq_some_iff.mp hon
  exact ⟨hproducer, rfl⟩

/-! ## §2 — Client and mapper -/

/-- The table mapper has an entry for every table that the client has schemas of, made from them. -/
structure Follows (config : ProducerConfig) (topicPrefix : Option String) (reader : FrameReader)
    (producer : Producer) : Prop where
  tracked : ∃ es, ∀ relid, Tracked config es ⟨reader, producer⟩ relid
  topics : producer.mapper.topicPrefix = topicPrefix
  registry : producer.mapper.registry.isSome

theorem follows_start {registry : Option SchemaRegistry} (hregistry : registry.isSome)
    (topicPrefix : Option String) :
    Follows config topicPrefix frameReaderNew ⟨tableMapperNew registry topicPrefix, []⟩ :=
  ⟨⟨[], fun _ => .unknown rfl rfl rfl⟩, rfl, hregistry⟩

theorem receive_of_on {walPos : UInt64} {m : Protocol.Message} {call : Callback} {reader : FrameReader}
    {producer producer' : Producer} (hm : m.Acceptable config.lib.avro reader)
    (hcall : m.callback config.lib.avro walPos = some call) (hon : producer.on config call = some producer') :
    receive config ⟨reader, producer⟩ (walPos, m) =
      some ⟨m.readerAfter config.lib.avro reader, producer'⟩ := by
  have hreturns : producer.callback config call = (0, producer') := by
    rw [Producer.callback, hon]
  have hprocess : processMessage (Producer.callback config) config.lib.avro walPos m.value ⟨reader, producer⟩ =
      .ok () ⟨m.readerAfter config.lib.avro reader, producer'⟩ := by
    refine processMessage_ok_iff.mpr ⟨hm, call, hcall, invoke_eq_ok.mpr ?_⟩
    rw [hreturns]
    exact ⟨rfl, rfl⟩
  unfold receive
  rw [hprocess]

theorem Follows.step { topicPrefix : Option String} {walPos : UInt64} {m : Protocol.Message} {call : Callback}
    {reader : FrameReader} {producer producer' : Producer} (h : Follows config topicPrefix reader producer)
    (hm : m.Acceptable config.lib.avro reader) (hcall : m.callback config.lib.avro walPos = some call)
    (hon : producer.on config call = some producer') :
    Follows config topicPrefix (m.readerAfter config.lib.avro reader) producer' := by
  obtain ⟨⟨es, htracked⟩, htopics, hregistry⟩ := h
  have hreceive := receive_of_on hm hcall hon
  obtain ⟨hsameRegistry, hsameTopics⟩ := receive_stays hreceive
  refine ⟨⟨_, tracked_step htracked hreceive⟩, hsameTopics.trans htopics, ?_⟩
  exact hsameRegistry ▸ hregistry

/-- Client and mapper follow each other through the messages of a frame. -/
theorem Follows.messages { topicPrefix : Option String} {walPos : UInt64} {msgs : List Protocol.Message}
    {calls : List Callback}
    (hcalls : List.Forall₂ (fun m call => m.callback config.lib.avro walPos = some call) msgs calls) :
    ∀ {reader : FrameReader} {h h' : Handler}, Follows config topicPrefix reader h.producer →
      AllAcceptable config.lib.avro reader msgs → h.onAll config calls = some h' →
      Follows config topicPrefix (readerAfterAll config.lib.avro reader msgs) h'.producer := by
  induction hcalls with
  | nil =>
    intro reader h h' hfollows _ hon
    cases Option.some.inj hon
    exact hfollows
  | cons hcall _ ih =>
    intro reader h h' hfollows hmsgs hon
    obtain ⟨h₁, hon₁, hrest⟩ := onAll_cons_eq_some hon
    exact ih (hfollows.step hmsgs.1 hcall (on_eq_some hon₁).1) hmsgs.2 hrest

/-! ## §3 — A row -/

/-- The registry keeps its answers. -/
theorem registered_of_on {producer producer' : Producer} {call : Callback}
    (hon : producer.on config call = some producer') :
    producer.mapper.outside.registered ⊆ producer'.mapper.outside.registered := by
  cases call with
  | tableSchema walPos relid keySchemaJson keySchema rowSchemaJson rowSchema =>
    simp only [Producer.on, onTableSchema] at hon
    split at hon
    · next mapper hupdate =>
      obtain rfl := Option.some.inj hon
      obtain ⟨u, rfl, hu⟩ := updateTable_of_update hupdate
      exact registered_of_updateTable hu
    · cases hon
  | _ =>
    simp only [Producer.on] at hon
    split at hon
    · rw [mapper_of_sendKafkaMsg hon]
      exact List.Subset.refl _
    · rw [Option.some.inj hon]
      exact List.Subset.refl _

theorem registered_onAll {calls : List Callback} (hon : h.onAll config calls = some h') :
    h.registered ⊆ h'.registered := by
  induction calls generalizing h with
  | nil =>
    rw [Option.some.inj hon]
    exact List.Subset.refl _
  | cons call calls ih =>
    obtain ⟨h₁, hon₁, hrest⟩ := onAll_cons_eq_some hon
    exact List.Subset.trans (registered_of_on (on_eq_some hon₁).1) (ih hrest)

/-- What decides under which names rows are sent: how schema texts are read, what the registry has been asked
and its answers, and the option for the topics. -/
structure Naming where
  avro : Libavro
  registered : List (Bytes × Int32)
  topicPrefix : Option String

/-- **`n.Tagged schema bin sent`** — what is sent for a value: nothing if there is none, and otherwise the value
behind an id that the registry gave its schema. -/
def Naming.Tagged (n : Naming) (schema : Option Schema) (bin sent : Option Bytes) : Prop :=
  ∃ id, sent = addSchemaPrefix id bin ∧
    (bin.isSome → schema.isSome ∧ ∃ text, (text, id) ∈ n.registered ∧ n.avro.schemaFromJson text = schema)

/-- **How a row of a table is sent**: in the topic of the table, key and columns behind the ids of the schemas
that the table has. -/
structure RowSent (n : Naming) (walPos : UInt64) (namespaces : Namespaces) (rel : Table) (msg : RowMsg)
    (row : Row) : Prop where
  walPos : row.walPos = walPos
  table : msg.relid = rel.relid
  relid : row.relid = rel.relid
  topic : topicNameFor n.topicPrefix rel.relname = .ok row.record.topic
  tagged : ∃ now, SchemasOf namespaces rel now ∧ n.Tagged now.keySchema msg.key row.record.key ∧
    n.Tagged (some now.rowSchema) msg.val row.record.val

theorem RowSent.key {n : Naming} {walPos : UInt64} {namespaces : Namespaces} {rel : Table} {msg : RowMsg}
    {row : Row} {now : SchemaListEntry} (h : RowSent n walPos namespaces rel msg row)
    (hnow : SchemasOf namespaces rel now) : n.Tagged now.keySchema msg.key row.record.key := by
  obtain ⟨_, hschemas, hkey, -⟩ := h.tagged
  rwa [hnow.eq hschemas]

theorem RowSent.val {n : Naming} {walPos : UInt64} {namespaces : Namespaces} {rel : Table} {msg : RowMsg}
    {row : Row} {now : SchemaListEntry} (h : RowSent n walPos namespaces rel msg row)
    (hnow : SchemasOf namespaces rel now) : n.Tagged (some now.rowSchema) msg.val row.record.val := by
  obtain ⟨_, hschemas, -, hval⟩ := h.tagged
  rwa [hnow.eq hschemas]

/-- The id that the mapper keeps for a schema is one that the registry gave it. -/
theorem tagged_of_kept {n : Naming} {registry : Option SchemaRegistry} {registered : List (Bytes × Int32)}
    {schemaJson bin : Option Bytes} {id : Int32} {schema kept : Option Schema}
    (havro : n.avro = config.lib.avro) (hempty : config.lib.avro.schemaFromJson [] = none)
    (hregistry : registry.isSome) (hsub : registered ⊆ n.registered)
    (hkept : Kafka.Kept config.lib registry registered schemaJson id kept)
    (hschema : schemaOfText config.lib.avro schemaJson = some schema) (hsome : bin.isSome → schema.isSome) :
    n.Tagged schema bin (addSchemaPrefix id bin) := by
  refine ⟨id, rfl, fun hbin => ⟨hsome hbin, ?_⟩⟩
  have hid := hkept.id hregistry
  cases schemaJson with
  | none =>
    obtain rfl := Option.some.inj hschema
    cases hsome hbin
  | some text =>
    obtain ⟨parsed, hparsed, rfl⟩ := Option.map_eq_some_iff.mp hschema
    cases text with
    | nil =>
      rw [hempty] at hparsed
      cases hparsed
    | cons b text => exact ⟨b :: text, hsub hid, by rw [havro, hparsed]⟩

/-- A row of a table that the client knows has a record. -/
theorem exists_rowSent {n : Naming} {namespaces : Namespaces} {rel : Table} {now : SchemaListEntry}
    {reader : FrameReader} {producer : Producer} {msg : RowMsg} (walPos : UInt64) (hformat : config.outputFormat = .avro)
    (havro : n.avro = config.lib.avro) (hempty : config.lib.avro.schemaFromJson [] = none)
    (hsub : producer.mapper.outside.registered ⊆ n.registered)
    (hfollows : Follows config n.topicPrefix reader producer) (hnow : SchemasOf namespaces rel now)
    (hreader : announced reader rel.relid = some now) (hrelid : msg.relid = rel.relid)
    (hkeyed : msg.key.isSome → now.keySchema.isSome) :
    ∃ row, rowRecord config producer.mapper msg = some row.record ∧
      RowSent n walPos namespaces rel msg row := by
  obtain ⟨⟨es, htracked⟩, htopics, hregistry⟩ := hfollows
  cases htracked rel.relid with
  | unknown _ hclient _ =>
    rw [hclient] at hreader
    cases hreader
  | @known a entry table _ hclient hmapper hname hkey hrow hdescribes =>
    obtain rfl : entry = now := by
      rw [hclient] at hreader
      exact Option.some.inj hreader
    obtain ⟨topic, htopic, htopicName⟩ := hdescribes.topic
    have hrowText : schemaOfText config.lib.avro (some a.rowSchemaJson) = some (some entry.rowSchema) :=
      congrArg (Option.map some) hrow
    refine ⟨⟨walPos, rel.relid, topic.name, addSchemaPrefix table.keySchemaId msg.key,
      addSchemaPrefix table.rowSchemaId msg.val⟩, ?_, rfl, hrelid, rfl, ?_, entry, hnow,
      tagged_of_kept havro hempty hregistry hsub hdescribes.key hkey hkeyed,
      tagged_of_kept havro hempty hregistry hsub hdescribes.row hrowText fun _ => rfl⟩
    · have hlookup : tableMapperLookup producer.mapper msg.relid = some table := by rwa [hrelid]
      simp [rowRecord, hlookup, htopic, encodeMsg, hformat, schemaRegistryEncodeMsg, passed]
    · rw [htopics, hname, name_of_schemaForTableRow hnow.row] at htopicName
      exact htopicName

/-- A row message is a call of `send_kafka_msg`, unless it is a deletion without a key. -/
theorem callbackEvent_of_row (mapper : TableMapper) {walPos : UInt64} {m : Protocol.Message} {call : Callback}
    (hrow : m.row?.isSome) (hcall : m.callback config.lib.avro walPos = some call) :
    callbackEvent config mapper call =
      m.rowMsg.map fun msg => .sendKafkaMsg walPos msg.relid (rowRecord config mapper msg) := by
  cases m with
  | insert relid key new =>
    cases hcall
    rfl
  | update relid key old new =>
    cases hcall
    rfl
  | delete relid key old =>
    cases hcall
    cases key <;> rfl
  | _ => cases hrow

/-- A key is only taken under a key schema. -/
theorem isSome_keySchema_of_acceptable {avro : Libavro} {rel : Table} {now : SchemaListEntry}
    {reader : FrameReader} {m : Protocol.Message} {msg : RowMsg} (hmsg : m.rowMsg = some msg)
    (hrelid : msg.relid = rel.relid) (hreader : announced reader rel.relid = some now)
    (hm : m.Acceptable avro reader) : msg.key.isSome → now.keySchema.isSome := by
  intro hsome
  obtain ⟨key, hkey⟩ := Option.isSome_iff_exists.mp hsome
  obtain ⟨entry, hentry, htakes⟩ := takesKey_of_acceptable hmsg hm
  obtain rfl : now = entry := by
    rw [hrelid, hreader] at hentry
    exact Option.some.inj hentry
  obtain ⟨schema, hschema, -⟩ := htakes key hkey
  rw [hschema]
  rfl

/-- **The rows of a table reach the producer** in the order of the messages. -/
theorem sent_of_rows {n : Naming} {namespaces : Namespaces} {rel : Table} {now : SchemaListEntry}
    {keySchema : Option Schema} {reader : FrameReader} {walPos : UInt64}
    {msgs : List Protocol.Message} {calls : List Callback}
    (hformat : config.outputFormat = .avro) (havro : n.avro = config.lib.avro)
    (hempty : config.lib.avro.schemaFromJson [] = none) (hnow : SchemasOf namespaces rel now)
    (hreader : announced reader rel.relid = some now)
    (hcalls : List.Forall₂ (fun m call => m.callback config.lib.avro walPos = some call) msgs calls) :
    ∀ {h h' : Handler}, Follows config n.topicPrefix reader h.producer →
      (∀ m ∈ msgs, IsRowOf keySchema rel m) → AllAcceptable config.lib.avro reader msgs →
      h.onAll config calls = some h' → h'.registered ⊆ n.registered →
      ∃ rows, h'.events = h.events ++ rows.map Row.event ∧
        List.Forall₂ (RowSent n walPos namespaces rel) (calls.filterMap rowMsg) rows := by
  induction hcalls with
  | nil =>
    intro h h' _ _ _ hon _
    cases Option.some.inj hon
    exact ⟨[], (List.append_nil _).symm, .nil⟩
  | @cons m call msgs calls hcall _ ih =>
    intro h h' hfollows hrows hmsgs hon hsub
    obtain ⟨hrow, hrows⟩ := List.forall_mem_cons.mp hrows
    obtain ⟨key, hrelid, -⟩ := id hrow
    have hregistered := List.Subset.trans (registered_onAll hon) hsub
    obtain ⟨h₁, hon₁, hrest⟩ := onAll_cons_eq_some hon
    obtain ⟨hproducer, hevents⟩ := on_eq_some hon₁
    have hfollows₁ := hfollows.step hmsgs.1 hcall hproducer
    have hmsgs₁ := hmsgs.2
    rw [Message.readerAfter_row hrelid] at hfollows₁ hmsgs₁
    obtain ⟨rows, hevents', hsent⟩ := ih hfollows₁ hrows hmsgs₁ hrest hsub
    rw [callbackEvent_of_row h.producer.mapper hrow.isSome hcall] at hevents
    have hrowMsg := rowMsg_of_callback hcall
    cases hmsg : m.rowMsg with
    | none =>
      rw [hmsg] at hevents hrowMsg
      rw [Option.map_none, Option.toList_none, List.append_nil] at hevents
      rw [List.filterMap_cons_none hrowMsg, hevents', hevents]
      exact ⟨rows, rfl, hsent⟩
    | some msg =>
      rw [hmsg] at hevents hrowMsg
      have hmsgRelid := Message.relid_of_rowMsg hrelid hmsg
      obtain ⟨row, hrecord, hrowSent⟩ :=
        exists_rowSent walPos hformat havro hempty hregistered hfollows hnow hreader hmsgRelid
          (isSome_keySchema_of_acceptable hmsg hmsgRelid hreader hmsgs.1)
      have hevent : row.event = .sendKafkaMsg walPos msg.relid (rowRecord config h.producer.mapper msg) := by
        rw [Row.event, hrowSent.walPos, hrowSent.relid, hmsgRelid, hrecord]
      rw [Option.map_some, Option.toList_some, ← hevent] at hevents
      refine ⟨row :: rows, ?_, ?_⟩
      · rw [hevents', hevents, List.append_assoc]
        rfl
      · rw [List.filterMap_cons_some hrowMsg]
        exact .cons hrowSent hsent

/-! ## §4 — A call -/

/-- **The events for a call of logical decoding.** -/
inductive Emits (conv : Conversions Datum) (n : Naming) (walPos : UInt64) :
    DecodingCall Datum → List Event → Prop
  | beginTxn (xid : UInt32) : Emits conv n walPos (.beginTxn xid) [.onBeginTxn xid]
  | commitTxn (xid : UInt32) (commitLsn : UInt64) :
      Emits conv n walPos (.commitTxn xid commitLsn) [.onCommitTxn walPos xid]
  | change {namespaces : Namespaces} {rel : Table} {c : ReorderBufferChange Datum} {calls : List Callback}
      {rows : List Row} (hcalls : changeCallbacks conv walPos rel c = some calls)
      (hrows : List.Forall₂ (RowSent n walPos namespaces rel) (calls.filterMap rowMsg) rows) :
      Emits conv n walPos (.change namespaces rel c) (rows.map Row.event)

/-- Announcements cause no event. -/
theorem events_of_tellsSchemas {known : KnownSchemas} {walPos : UInt64} {namespaces : Namespaces} {rel : Table}
    {calls : List Callback} (hschemas : TellsSchemas known walPos namespaces rel calls)
    (hon : h.onAll config calls = some h') : h'.events = h.events := by
  obtain ⟨now, -, ⟨-, rfl⟩ | ⟨keyJson, rowJson, rfl⟩⟩ := hschemas
  · rw [Option.some.inj hon]
  · rw [(on_eq_some (onAll_singleton_eq_some hon)).2]
    exact List.append_nil _

variable {pg : Postgres} {conv : Conversions Datum} {n : Naming} {reader : FrameReader}
  (hdesc : ∀ a b, conv.equalTupleDescs a b = true → a.live = b.live)
  (hconv : ∀ column, columnValue conv column = avroValue pg column)
  (hread : config.lib.avro.valueRead = decode readPredefined)
  (hempty : config.lib.avro.schemaFromJson [] = none) (hformat : config.outputFormat = .avro)
  (havro : n.avro = config.lib.avro)

include hdesc hconv hread hempty hformat havro

/-- What a change causes, when its callbacks return. -/
theorem emits_change {walPos : UInt64} {cache cache' : SchemaCache} {namespaces : Namespaces} {rel : Table}
    {c : ReorderBufferChange Datum} {msgs : List Protocol.Message} {calls : List Callback}
    (hagree : Agrees cache reader) (hfollows : Follows config n.topicPrefix reader h.producer)
    (hprint : SchemasPrintable conv config.lib.avro namespaces rel) (hlive : LiveKey rel)
    (hmsgs : changeMessages conv namespaces cache rel c = .ok (cache', msgs))
    (hcalls : List.Forall₂ (fun m call => m.callback config.lib.avro walPos = some call) msgs calls)
    (hon : h.onAll config calls = some h') (hsub : h'.registered ⊆ n.registered) :
    ∃ es, h'.events = h.events ++ es ∧ Emits conv n walPos (.change namespaces rel c) es := by
  obtain ⟨change, hchange, hplugin⟩ := changeMessages_eq_ok hmsgs
  obtain ⟨entry, schemas, rows, schemaCalls, rfl, hframe⟩ :=
    frameOf_pluginCall hdesc hagree hprint walPos hplugin
  have hnow := hframe.tells.schemasOf
  obtain ⟨rowCalls, hcallbacks, hmakes⟩ := makes_rowsOf hconv hread hlive hnow walPos hchange hframe.rows
  obtain rfl : calls = schemaCalls ++ rowCalls :=
    List.right_unique_forall₂' (fun _ _ _ h h' => Option.some.inj (h.symm.trans h')) hcalls
      (hframe.takes hmakes).2.1
  obtain ⟨h₁, hon₁, hon₂⟩ := onAll_append_eq_some hon
  have hfollows₁ := Follows.messages hframe.callbacks hfollows hframe.acceptable hon₁
  obtain ⟨sent, hevents, hsent⟩ := sent_of_rows hformat havro hempty hnow hframe.tells.now
    hmakes.callbacks hfollows₁ hframe.tells.rows (allAcceptable_rows hframe.tells.now hframe.tells.rows hmakes.taken) hon₂ hsub
  rw [events_of_tellsSchemas hframe.schemas hon₁] at hevents
  exact ⟨_, hevents, .change hcallbacks hsent⟩

/-- **One call.** -/
theorem emits_of_messages {walPos : UInt64} {cache cache' : SchemaCache} {call : DecodingCall Datum}
    {msgs : List Protocol.Message} {t : Client.Session Handler} (hagree : Agrees cache reader)
    (hfollows : Follows config n.topicPrefix reader h.producer)
    (hcall : Sendable conv config.lib.avro call)
    (hmsgs : call.messages conv cache = .ok (cache', msgs))
    (hprocess : processFrame (Handler.callback config) config.lib.avro walPos (frameValue msgs) ⟨reader, h⟩ =
      .ok () t) :
    Agrees cache' t.reader ∧ Follows config n.topicPrefix t.reader t.context.producer ∧
      h.registered ⊆ t.context.registered ∧ (t.context.registered ⊆ n.registered →
        ∃ es, t.context.events = h.events ++ es ∧ Emits conv n walPos call es) := by
  obtain ⟨hacceptable, calls, hcalls, hcontext, hreader⟩ := processFrame_ok_iff.mp hprocess
  rw [invokeAll_callback] at hcontext
  have hagree' := (told_of_messages hdesc hconv hread walPos hagree hcall hmsgs).2.1
  have hfollows' := Follows.messages hcalls hfollows hacceptable hcontext
  rw [hreader] at hagree' hfollows'
  refine ⟨hagree', hfollows', registered_onAll hcontext, ?_⟩
  intro hsub
  cases call with
  | beginTxn xid =>
    obtain ⟨-, rfl⟩ := Prod.mk.inj (Except.ok.inj hmsgs)
    rcases hcalls with _ | ⟨hcall, hnil⟩
    cases hcall
    cases hnil
    exact ⟨_, (on_eq_some (onAll_singleton_eq_some hcontext)).2, .beginTxn xid⟩
  | commitTxn xid commitLsn =>
    obtain ⟨-, rfl⟩ := Prod.mk.inj (Except.ok.inj hmsgs)
    rcases hcalls with _ | ⟨hcall, hnil⟩
    cases hcall
    cases hnil
    exact ⟨_, (on_eq_some (onAll_singleton_eq_some hcontext)).2, .commitTxn xid commitLsn⟩
  | change namespaces rel c =>
    exact emits_change hdesc hconv hread hempty hformat havro hagree hfollows hcall.1 hcall.2 hmsgs hcalls
      hcontext hsub

/-- The calls of a stream, one after the other. -/
theorem emits_of_outputs {calls : List (UInt64 × DecodingCall Datum)} :
    ∀ {state state' : PluginState} {frames : List (UInt64 × Bytes)} {s t : Client.Session Handler},
      Agrees state.schemaCache s.reader → Follows config n.topicPrefix s.reader s.context.producer →
      (∀ c ∈ calls, Sendable conv config.lib.avro c.2) → state.outputs conv calls = .ok (state', frames) →
      parseFrames (Handler.callback config) config.lib.avro frames s = .ok () t →
      s.context.registered ⊆ t.context.registered ∧ (t.context.registered ⊆ n.registered →
        ∃ ess, t.context.events = s.context.events ++ ess.flatten ∧
          List.Forall₂ (fun c => Emits conv n c.1 c.2) calls ess) := by
  induction calls with
  | nil =>
    intro state state' frames s t _ _ _ h hparse
    obtain ⟨-, rfl⟩ := Prod.mk.inj (Except.ok.inj h)
    obtain ⟨-, rfl⟩ := pure_eq_ok.mp hparse
    exact ⟨List.Subset.refl _, fun _ => ⟨[], (List.append_nil _).symm, .nil⟩⟩
  | cons c calls ih =>
    obtain ⟨walPos, call⟩ := c
    intro state state' frames s t hagree hfollows hcalls h hparse
    obtain ⟨hcall, hcalls⟩ := List.forall_mem_cons.mp hcalls
    obtain ⟨state₁, frame, rest, hfirst, hrest, rfl⟩ := PluginState.outputs_cons_eq_ok h
    obtain ⟨msgs, hmsgs, rfl, hsize⟩ := PluginState.output_eq_ok hfirst
    rw [parseFrames, bind_eq_ok] at hparse
    obtain ⟨_, s₁, hframe, hparse⟩ := hparse
    rw [parseFrame_encode hsize] at hframe
    obtain ⟨hagree₁, hfollows₁, hsub₁, hfirst⟩ :=
      emits_of_messages hdesc hconv hread hempty hformat havro hagree hfollows hcall hmsgs hframe
    obtain ⟨hsub₂, hlater⟩ := ih hagree₁ hfollows₁ hcalls hrest hparse
    refine ⟨List.Subset.trans hsub₁ hsub₂, ?_⟩
    intro hsub
    obtain ⟨es, hevents, hemits⟩ := hfirst (List.Subset.trans hsub₂ hsub)
    obtain ⟨ess, hevents', hemits'⟩ := hlater hsub
    refine ⟨es :: ess, ?_, .cons hemits hemits'⟩
    rw [hevents', hevents, List.flatten_cons, List.append_assoc]

end

/-! ## §5 — Transactions -/

/-- A row change, with the position its frame is sent with and the catalog as it was. -/
structure DecodedChange where
  walPos : UInt64
  namespaces : Namespaces
  rel : Table
  change : ReorderBufferChange Datum

/-- A transaction as logical decoding hands it out.  `commitPos` is the position sent with its commit. -/
structure DecodedTxn where
  xid : UInt32
  beginPos : UInt64
  changes : List DecodedChange
  commitPos : UInt64
  commitLsn : UInt64
  xid_ne : xid ≠ 0
  commitPos_ne : commitPos ≠ 0

def DecodedChange.call (c : DecodedChange) : UInt64 × DecodingCall Datum :=
  (c.walPos, .change c.namespaces c.rel c.change)

/-- The calls of the plugin for a transaction. -/
def DecodedTxn.calls (t : DecodedTxn) : List (UInt64 × DecodingCall Datum) :=
  (t.beginPos, .beginTxn t.xid) :: (t.changes.map DecodedChange.call ++
    [(t.commitPos, .commitTxn t.xid t.commitLsn)])

/-- How the rows of a change are sent. -/
def ChangeSent (conv : Conversions Datum) (n : Naming) (c : DecodedChange) (rows : List Row) : Prop :=
  ∃ calls, changeCallbacks conv c.walPos c.rel c.change = some calls ∧
    List.Forall₂ (RowSent n c.walPos c.namespaces c.rel) (calls.filterMap rowMsg) rows

/-- **How a transaction is sent**: under its own xid and commit position, the rows of its changes in order. -/
structure TxnSent (conv : Conversions Datum) (n : Naming) (t : DecodedTxn) (w : WalTxn) : Prop where
  xid : w.xid = t.xid
  commitLsn : w.commitLsn = t.commitPos
  rows : ∃ rowss, List.Forall₂ (ChangeSent conv n) t.changes rowss ∧ w.rows = rowss.flatten

section

variable {conv : Conversions Datum} {n : Naming}

/-- The changes of a transaction, with whatever follows them. -/
theorem emits_changes {changes : List DecodedChange} {more : List (UInt64 × DecodingCall Datum)} :
    ∀ {ess : List (List Event)}, List.Forall₂ (fun c => Emits conv n c.1 c.2)
        (changes.map DecodedChange.call ++ more) ess →
      ∃ rowss rest, List.Forall₂ (ChangeSent conv n) changes rowss ∧
        ess.flatten = rowss.flatten.map Row.event ++ rest.flatten ∧
        List.Forall₂ (fun c => Emits conv n c.1 c.2) more rest := by
  induction changes with
  | nil => exact fun h => ⟨[], _, .nil, rfl, h⟩
  | cons c changes ih =>
    intro ess h
    rcases h with _ | ⟨hemits, hrest⟩
    cases hemits with
    | change hcalls hrows =>
      obtain ⟨rowss, rest, hsent, hflatten, hmore⟩ := ih hrest
      refine ⟨_ :: rowss, rest, .cons ⟨_, hcalls, hrows⟩ hsent, ?_, hmore⟩
      rw [List.flatten_cons, List.flatten_cons, hflatten, List.map_append, List.append_assoc]

/-- A transaction, with whatever follows it. -/
theorem emits_txn {t : DecodedTxn} {more : List (UInt64 × DecodingCall Datum)} {ess : List (List Event)}
    (h : List.Forall₂ (fun c => Emits conv n c.1 c.2) (t.calls ++ more) ess) :
    ∃ w rest, TxnSent conv n t w ∧ ess.flatten = w.events ++ rest.flatten ∧
      List.Forall₂ (fun c => Emits conv n c.1 c.2) more rest := by
  rw [DecodedTxn.calls, List.cons_append, List.append_assoc] at h
  rcases h with _ | ⟨hbegin, h⟩
  cases hbegin with
  | beginTxn xid =>
    obtain ⟨rowss, rest, hsent, hflatten, hcommit⟩ := emits_changes h
    rcases hcommit with _ | ⟨hcommit, hmore⟩
    cases hcommit with
    | commitTxn xid commitLsn =>
      refine ⟨⟨t.xid, rowss.flatten, t.commitPos, t.xid_ne, t.commitPos_ne⟩, _,
        ⟨rfl, rfl, rowss, hsent, rfl⟩, ?_, hmore⟩
      rw [List.flatten_cons, hflatten, List.flatten_cons, WalTxn.events]
      simp

theorem emits_txns {ts : List DecodedTxn} :
    ∀ {ess : List (List Event)}, List.Forall₂ (fun c => Emits conv n c.1 c.2)
        (ts.flatMap DecodedTxn.calls) ess →
      ∃ ws, List.Forall₂ (TxnSent conv n) ts ws ∧ ess.flatten = stream ws := by
  induction ts with
  | nil =>
    intro ess h
    cases h
    exact ⟨[], .nil, rfl⟩
  | cons t ts ih =>
    intro ess h
    rw [List.flatMap_cons] at h
    obtain ⟨w, rest, hw, hflatten, hrest⟩ := emits_txn h
    obtain ⟨ws, hws, hstream⟩ := ih hrest
    exact ⟨w :: ws, .cons hw hws, by rw [hflatten, hstream]; rfl⟩

end

/-! ## §6 — The whole pipeline -/

/-- **`pipeline`** — the frames that the plugin writes for the calls of logical decoding, handled by a client
from its start on.  The result is what its callbacks leave, if plugin and callbacks all succeed. -/
def pipeline (conv : Conversions Datum) (config : ProducerConfig) (registryUrl topicPrefix : Option String)
    (calls : List (UInt64 × DecodingCall Datum)) : Option Handler :=
  match startProducer config.outputFormat registryUrl topicPrefix, outputAvroStartup.outputs conv calls with
  | some producer, .ok (_, frames) =>
    match parseFrames (Handler.callback config) config.lib.avro frames ⟨frameReaderNew, producer, []⟩ with
    | .ok _ t => some t.context
    | .error _ _ => none
  | _, _ => none

theorem pipeline_eq_some {conv : Conversions Datum} {config : ProducerConfig}
    {registryUrl topicPrefix : Option String} {calls : List (UInt64 × DecodingCall Datum)} {h : Handler}
    (hrun : pipeline conv config registryUrl topicPrefix calls = some h) :
    ∃ producer state frames t, startProducer config.outputFormat registryUrl topicPrefix = some producer ∧
      outputAvroStartup.outputs conv calls = .ok (state, frames) ∧
      parseFrames (Handler.callback config) config.lib.avro frames ⟨frameReaderNew, producer, []⟩ = .ok () t ∧
      t.context = h := by
  unfold pipeline at hrun
  split at hrun
  · next producer state frames hstart hplugin =>
    split at hrun
    · next u t hparse => exact ⟨producer, state, frames, t, hstart, hplugin, hparse, Option.some.inj hrun⟩
    · cases hrun
  · cases hrun

section

variable {pg : Postgres} {conv : Conversions Datum} {config : ProducerConfig}
  (hdesc : ∀ a b, conv.equalTupleDescs a b = true → a.live = b.live)
  (hconv : ∀ column, columnValue conv column = avroValue pg column)
  (hread : config.lib.avro.valueRead = decode readPredefined)
  (hempty : config.lib.avro.schemaFromJson [] = none) (hformat : config.outputFormat = .avro)
  {registryUrl topicPrefix : Option String} {h : Handler}

include hdesc hconv hread hempty hformat

/-- What a client does with the frames of any calls. -/
theorem emits_of_pipeline {calls : List (UInt64 × DecodingCall Datum)}
    (hcalls : ∀ c ∈ calls, Sendable conv config.lib.avro c.2)
    (hrun : pipeline conv config registryUrl topicPrefix calls = some h) :
    ∃ ess, h.events = ess.flatten ∧ List.Forall₂
      (fun c => Emits conv ⟨config.lib.avro, h.registered, topicPrefix⟩ c.1 c.2) calls ess := by
  obtain ⟨producer, state, frames, t, hstart, hplugin, hparse, rfl⟩ := pipeline_eq_some hrun
  obtain ⟨registry, rfl, hregistry⟩ := exists_registry_of_start hstart
  exact (emits_of_outputs hdesc hconv hread hempty hformat rfl (agrees_schemaCacheNew _)
    (follows_start (hregistry hformat) topicPrefix) hcalls hplugin hparse).2 (List.Subset.refl _)

omit hdesc hconv hread hempty hformat in
/-- The calls of transactions can be sent if their changes can. -/
theorem sendable_calls {avro : Libavro} {ts : List DecodedTxn}
    (hts : ∀ t ∈ ts, ∀ c ∈ t.changes, SchemasPrintable conv avro c.namespaces c.rel ∧ LiveKey c.rel) :
    ∀ c ∈ ts.flatMap DecodedTxn.calls, Sendable conv avro c.2 := by
  intro c hc
  obtain ⟨txn, htxn, hc⟩ := List.mem_flatMap.mp hc
  rcases List.mem_cons.mp hc with rfl | hc
  · trivial
  · rcases List.mem_append.mp hc with hc | hc
    · obtain ⟨change, hchange, rfl⟩ := List.mem_map.mp hc
      exact hts txn htxn change hchange
    · rw [List.mem_singleton.mp hc]
      trivial

/-- **Decoded transactions reach the producer as they are.**  From the start of a client, in Avro format: for
any transactions, with any changes of the catalog between the changes of rows, whatever the plugin writes and
the callbacks return from are the callbacks of the same transactions one after the other, each row as a record
in the topic that the table is called by at the time of the change, key and columns behind the ids that the
registry gave the schemas that the table has at that time. -/
theorem decoded_stream {ts : List DecodedTxn}
    (hts : ∀ t ∈ ts, ∀ c ∈ t.changes, SchemasPrintable conv config.lib.avro c.namespaces c.rel ∧ LiveKey c.rel)
    (hrun : pipeline conv config registryUrl topicPrefix (ts.flatMap DecodedTxn.calls) = some h) :
    ∃ ws, h.events = stream ws ∧
      List.Forall₂ (TxnSent conv ⟨config.lib.avro, h.registered, topicPrefix⟩) ts ws := by
  obtain ⟨ess, hevents, hemits⟩ := emits_of_pipeline hdesc hconv hread hempty hformat (sendable_calls hts) hrun
  obtain ⟨ws, hws, hstream⟩ := emits_txns hemits
  exact ⟨ws, hevents.trans hstream, hws⟩

end

/-! A row that comes and moves to another key, into a topic with a prefix. -/

def calendarConfig : ProducerConfig where
  lib := ⟨calendarSchemas, letterHttp, fun _ _ => true⟩
  outputFormat := .avro
  binToJson := fun _ _ => none

def visitsTxn : DecodedTxn where
  xid := 731
  beginPos := 190
  changes :=
    [⟨191, publicOnly, visits, .insert (some (visit 5))⟩,
      ⟨192, publicOnly, visits, .update (some (visit 5)) (some (visit 6))⟩]
  commitPos := 199
  commitLsn := 198
  xid_ne := by decide
  commitPos_ne := by decide

theorem calendar_desc : ∀ a b, calendarConversions.equalTupleDescs a b = true → a.live = b.live := by
  intro a b h
  rw [of_decide_eq_true h]

theorem visitsTxn_sendable : ∀ c ∈ visitsTxn.changes,
    SchemasPrintable calendarConversions calendarSchemas c.namespaces c.rel ∧ LiveKey c.rel := by
  intro c hc
  rcases List.mem_pair.mp hc with rfl | rfl
  · exact visits_sendable (.delete none)
  · exact visits_sendable (.delete none)

theorem decoded_stream_visits :
    ∃ h, pipeline calendarConversions calendarConfig none (some "pg") ([visitsTxn].flatMap DecodedTxn.calls) =
        some h ∧
      ∃ ws, h.events = stream ws ∧
        List.Forall₂ (TxnSent calendarConversions ⟨calendarSchemas, h.registered, some "pg"⟩) [visitsTxn] ws := by
  have hsome : (pipeline calendarConversions calendarConfig none (some "pg")
      ([visitsTxn].flatMap DecodedTxn.calls)).isSome := by decide +kernel
  obtain ⟨h, hrun⟩ := Option.isSome_iff_exists.mp hsome
  exact ⟨h, hrun, decoded_stream calendar_desc (columnValue_conversions _ _ _) rfl rfl rfl
    (List.forall_mem_singleton.mpr visitsTxn_sendable) hrun⟩

end BottledWater.Deployment
