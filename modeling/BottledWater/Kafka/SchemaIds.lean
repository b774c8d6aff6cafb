/-
# BottledWater.Kafka.SchemaIds — every message in Kafka names the schema it was written with.

The client and the producer together, on any sequence of messages from Postgres: tables are announced,
renamed and announced again, key schemas appear and disappear, and rows come in between.  The invariant
is `Tracked`: for every table, the entry of the table mapper and the schema list of the client are those
of the last announcement.  The bytes that `send_kafka_msg` puts in front of a key or a row are the id
that the registry gave this schema (`messages_name_schema`).

What is assumed of the registry is that it answers with the same id exactly for identical schemas.
-/
import BottledWater.Kafka.Produce
import BottledWater.Lib.Trace
import BottledWater.Protocol.Agreement

namespace BottledWater.Kafka

open BottledWater.Lib BottledWater.Lib.Avro BottledWater.Client BottledWater.Protocol

/-! ## §1 — Receiving messages -/

/-- A message, and the WAL position of its frame. -/
abbrev Received := UInt64 × Protocol.Message

/-- The client processes a message and calls the producer back. -/
def receive (config : ProducerConfig) (s : Session Producer) (e : Received) :
    Option (Session Producer) :=
  match processMessage (Producer.callback config) config.lib.avro e.1 e.2.value s with
  | .ok _ t => some t
  | .error _ _ => none

/-- The announcement of a table that a message makes. -/
def announcementFor (avro : Libavro) (relid : Oid) : Protocol.Message → Option Announcement
  | .tableSchema relid' keySchemaJson rowSchemaJson =>
    if relid' = relid then
      (avro.schemaFromJson rowSchemaJson).map fun rowSchema =>
        ⟨rowSchema.name, keySchemaJson, rowSchemaJson⟩
    else none
  | _ => none

/-- **`lastAnnouncement avro relid es`** — what was most recently announced for a table. -/
def lastAnnouncement (avro : Libavro) (relid : Oid) (es : List Received) : Option Announcement :=
  lastSome (fun e => announcementFor avro relid e.2) es

section

variable {config : ProducerConfig} {s t : Session Producer} {e : Received}

/-- **What a step is**: the client takes the message, and the callback of the producer returns. -/
theorem receive_eq_some (h : receive config s e = some t) :
    e.2.Acceptable config.lib.avro s.reader ∧
      t.reader = e.2.readerAfter config.lib.avro s.reader ∧
      ∃ call, e.2.callback config.lib.avro e.1 = some call ∧
        s.context.on config call = some t.context := by
  unfold receive at h
  split at h
  · case h_1 hprocess =>
    cases h
    obtain ⟨haccept, call, hcall, hinvoke⟩ := processMessage_ok_iff.mp hprocess
    obtain ⟨hzero, ht⟩ := invoke_eq_ok.mp hinvoke
    refine ⟨haccept, ht ▸ rfl, call, hcall, ?_⟩
    subst ht
    show s.context.on config call = some (Producer.callback config call s.context).2
    -- a callback that does not return shows as an error
    simp only [Producer.callback] at hzero ⊢
    cases hon : s.context.on config call with
    | some producer => rfl
    | none => simp [hon] at hzero
  · cases h

theorem mapper_of_sendKafkaMsg {producer producer' : Producer} {msg : RowMsg}
    (h : sendKafkaMsg config producer msg = some producer') : producer'.mapper = producer.mapper := by
  simp only [sendKafkaMsg, Option.bind_eq_bind, Option.bind_eq_some_iff] at h
  obtain ⟨table, -, ⟨key, val⟩, -, ⟨⟩⟩ := h
  rfl

/-- A row leaves the mapper as it is. -/
theorem mapper_of_on {producer producer' : Producer} {call : Callback} {m : Protocol.Message}
    {avro : Libavro} {walPos : UInt64} (hcall : m.callback avro walPos = some call)
    (hm : m.row?.isSome) (h : producer.on config call = some producer') :
    producer'.mapper = producer.mapper := by
  cases m with
  | insert relid key new =>
    cases hcall
    exact mapper_of_sendKafkaMsg h
  | update relid key old new =>
    cases hcall
    exact mapper_of_sendKafkaMsg h
  | delete relid key old =>
    cases hcall
    cases key with
    | none =>
      cases h
      rfl
    | some key => exact mapper_of_sendKafkaMsg h
  | _ => cases hm

/-- **A step announces a table, or it changes neither the client's schemas nor the mapper.** -/
theorem receive_cases (h : receive config s e = some t) :
    (∃ relid keySchemaJson rowSchemaJson keySchema rowSchema,
        e.2 = .tableSchema relid keySchemaJson rowSchemaJson ∧
        config.lib.avro.schemaFromJson rowSchemaJson = some rowSchema ∧
        schemaOfText config.lib.avro keySchemaJson = some keySchema ∧
        t.reader = e.2.readerAfter config.lib.avro s.reader ∧
        tableMapperUpdate config.lib relid rowSchema.name keySchemaJson rowSchemaJson
          s.context.mapper = .ok () t.context.mapper) ∨
      (∀ relid, announcementFor config.lib.avro relid e.2 = none) ∧ t.reader = s.reader ∧
        t.context.mapper = s.context.mapper := by
  obtain ⟨haccept, hreader, call, hcall, hon⟩ := receive_eq_some h
  obtain ⟨walPos, m⟩ := e
  cases m with
  | tableSchema relid keySchemaJson rowSchemaJson =>
    left
    obtain ⟨rowSchema, hrow⟩ := Option.isSome_iff_exists.mp haccept.1
    obtain ⟨keySchema, hkey⟩ := Option.isSome_iff_exists.mp haccept.2
    refine ⟨relid, keySchemaJson, rowSchemaJson, keySchema, rowSchema, rfl, hrow, hkey, hreader, ?_⟩
    rw [Message.callback_tableSchema hrow hkey, Option.some.injEq] at hcall
    subst hcall
    simp only [Producer.on, onTableSchema] at hon
    split at hon
    · case h_1 hupdate =>
      rw [← Option.some.inj hon]
      exact hupdate
    · cases hon
  | beginTxn xid =>
    cases hcall
    exact .inr ⟨fun _ => rfl, hreader, congrArg Producer.mapper (Option.some.inj hon).symm⟩
  | commitTxn xid lsn =>
    cases hcall
    exact .inr ⟨fun _ => rfl, hreader, congrArg Producer.mapper (Option.some.inj hon).symm⟩
  | insert relid key new => exact .inr ⟨fun _ => rfl, hreader, mapper_of_on hcall rfl hon⟩
  | update relid key old new => exact .inr ⟨fun _ => rfl, hreader, mapper_of_on hcall rfl hon⟩
  | delete relid key old => exact .inr ⟨fun _ => rfl, hreader, mapper_of_on hcall rfl hon⟩

/-- How the producer was started stays. -/
theorem receive_stays (h : receive config s e = some t) :
    t.context.mapper.registry = s.context.mapper.registry ∧
      t.context.mapper.topicPrefix = s.context.mapper.topicPrefix := by
  rcases receive_cases h with ⟨_, _, _, _, _, -, -, -, -, hupdate⟩ | ⟨-, -, hmapper⟩
  · obtain ⟨u, hstore, -⟩ := updateTable_of_update hupdate
    rw [hstore]
    exact ⟨rfl, rfl⟩
  · rw [hmapper]
    exact ⟨rfl, rfl⟩

/-! ## §2 — Client and mapper follow the announcements -/

/-- **`Tracked config es s relid`** — what client and mapper have for a table after the messages `es` is
what was last announced for it. -/
inductive Tracked (config : ProducerConfig) (es : List Received) (s : Session Producer) (relid : Oid) :
    Prop
  | unknown (hlast : lastAnnouncement config.lib.avro relid es = none)
      (hclient : announced s.reader relid = none)
      (hmapper : tableMapperLookup s.context.mapper relid = none) : Tracked config es s relid
  | known {a : Announcement} {entry : SchemaListEntry} {table : TableMetadata}
      (hlast : lastAnnouncement config.lib.avro relid es = some a)
      (hclient : announced s.reader relid = some entry)
      (hmapper : tableMapperLookup s.context.mapper relid = some table)
      (hname : a.tableName = entry.rowSchema.name)
      (hkey : schemaOfText config.lib.avro a.keySchemaJson = some entry.keySchema)
      (hrow : config.lib.avro.schemaFromJson a.rowSchemaJson = some entry.rowSchema)
      (hdescribes : s.context.mapper.Describes config.lib table a) : Tracked config es s relid

/-- A step that is not about the table keeps it tracked. -/
theorem Tracked.of_eq {es es' : List Received} {relid : Oid} (h : Tracked config es s relid)
    (hlast : lastAnnouncement config.lib.avro relid es' = lastAnnouncement config.lib.avro relid es)
    (hclient : announced t.reader relid = announced s.reader relid)
    (hmapper : tableMapperLookup t.context.mapper relid = tableMapperLookup s.context.mapper relid)
    (hdescribes : ∀ table a, s.context.mapper.Describes config.lib table a →
      t.context.mapper.Describes config.lib table a) : Tracked config es' t relid := by
  cases h with
  | unknown hlast' hclient' hmapper' =>
    exact .unknown (hlast.trans hlast') (hclient.trans hclient') (hmapper.trans hmapper')
  | known hlast' hclient' hmapper' hname hkey hrow hdescribes' =>
    exact .known (hlast.trans hlast') (hclient.trans hclient') (hmapper.trans hmapper') hname hkey hrow
      (hdescribes _ _ hdescribes')

theorem tracked_step {es : List Received} (hs : ∀ relid, Tracked config es s relid)
    (h : receive config s e = some t) : ∀ relid, Tracked config (es ++ [e]) t relid := by
  intro relid
  rcases receive_cases h with
    ⟨relid', keySchemaJson, rowSchemaJson, keySchema, rowSchema, hm, hrow, hkey, hreader, hupdate⟩ |
    ⟨hnone, hreader, hmapper⟩
  · have hprev : ∀ table, tableMapperLookup s.context.mapper relid' = some table →
        ∃ a', s.context.mapper.Describes config.lib table a' := by
      intro table htable
      cases hs relid' with
      | unknown _ _ hmapper => rw [hmapper] at htable; cases htable
      | known _ _ hmapper _ _ _ hdescribes =>
        rw [hmapper, Option.some.injEq] at htable
        exact ⟨_, htable ▸ hdescribes⟩
    obtain ⟨table, hupdated⟩ :=
      tableMapperUpdate_eq_ok (a := ⟨rowSchema.name, keySchemaJson, rowSchemaJson⟩) hprev hupdate
    have hlast := lastSome_snoc (fun e => announcementFor config.lib.avro relid e.2) es e
    have hclient : announced t.reader relid = if relid = relid' then some ⟨relid', keySchema, rowSchema⟩
        else announced s.reader relid := by
      rw [hreader, hm]
      exact announced_readerAfter (Message.announces_tableSchema hrow hkey) s.reader relid
    have hmapper := hupdated.lookup relid
    by_cases hrelid : relid = relid'
    · -- the table that is announced
      rw [if_pos hrelid] at hclient hmapper
      refine .known ?_ hclient hmapper rfl hkey hrow hupdated.describes
      rw [lastAnnouncement, hlast, hm]
      simp [announcementFor, hrelid, hrow]
    · rw [if_neg hrelid] at hclient hmapper
      refine (hs relid).of_eq ?_ hclient hmapper fun _ _ => hupdated.describes_other
      rw [lastAnnouncement, hlast, hm]
      simp [announcementFor, Ne.symm hrelid, lastAnnouncement]
  · refine (hs relid).of_eq ?_ (by rw [hreader]) (by rw [hmapper]) ?_
    · rw [lastAnnouncement, lastSome_snoc, hnone]
      rfl
    · rw [hmapper]
      exact fun _ _ h => h

/-- **Client and mapper have what was last announced**, after any messages. -/
theorem run_tracked {registry : Option SchemaRegistry} {topicPrefix : Option String}
    {es : List Received}
    (hrun : run (receive config) ⟨frameReaderNew, ⟨tableMapperNew registry topicPrefix, []⟩⟩ es =
      some s) :
    ∀ relid, Tracked config es s relid := by
  apply run_rule (P := fun es s => ∀ relid, Tracked config es s relid)
    (fun relid => .unknown rfl rfl rfl) ?_ hrun
  intro es s e t _ ih hstep
  exact tracked_step ih hstep

theorem run_stays {registry : Option SchemaRegistry} {topicPrefix : Option String}
    {es : List Received}
    (hrun : run (receive config) ⟨frameReaderNew, ⟨tableMapperNew registry topicPrefix, []⟩⟩ es =
      some s) :
    s.context.mapper.registry = registry ∧ s.context.mapper.topicPrefix = topicPrefix := by
  apply run_rule (P := fun _ s => s.context.mapper.registry = registry ∧
    s.context.mapper.topicPrefix = topicPrefix) ⟨rfl, rfl⟩ ?_ hrun
  intro es s e t _ ih hstep
  obtain ⟨hregistry, htopicPrefix⟩ := receive_stays hstep
  exact ⟨hregistry.trans ih.1, htopicPrefix.trans ih.2⟩

/-! ## §3 — The bytes in Kafka -/

/-- With Avro output the producer has a registry. -/
theorem exists_registry_of_start {outputFormat : OutputFormat}
    {registryUrl topicPrefix : Option String} {producer : Producer}
    (h : startProducer outputFormat registryUrl topicPrefix = some producer) :
    ∃ registry, producer = ⟨tableMapperNew registry topicPrefix, []⟩ ∧
      (outputFormat = .avro → registry.isSome) := by
  cases outputFormat with
  | avro =>
    cases h
    exact ⟨_, rfl, fun _ => rfl⟩
  | json =>
    cases registryUrl with
    | some url => cases h
    | none =>
      cases h
      exact ⟨none, rfl, nofun⟩

/-- A row message is sent by `send_kafka_msg`, and nothing else is. -/
theorem sendKafkaMsg_of_receive {msg : RowMsg} (hmsg : e.2.rowMsg = some msg)
    (h : receive config s e = some t) : sendKafkaMsg config s.context msg = some t.context := by
  obtain ⟨-, -, call, hcall, hon⟩ := receive_eq_some h
  have hrow := rowMsg_of_callback hcall
  rw [hmsg] at hrow
  cases call with
  | tableSchema => cases hrow
  | _ => simpa only [Producer.on, hrow] using hon

theorem sent_of_receive (hmsg : e.2.rowMsg = none) (h : receive config s e = some t) :
    t.context.sent = s.context.sent := by
  obtain ⟨-, -, call, hcall, hon⟩ := receive_eq_some h
  have hrow := rowMsg_of_callback hcall
  rw [hmsg] at hrow
  cases call with
  | tableSchema =>
    simp only [Producer.on, onTableSchema] at hon
    split at hon
    · rw [← Option.some.inj hon]
    · cases hon
  | _ =>
    simp only [Producer.on, hrow] at hon
    rw [Option.some.inj hon]

/-- The client only takes a row of a table it knows, and a key only if there is a key schema. -/
theorem takesKey_of_acceptable {avro : Libavro} {reader : FrameReader} {m : Protocol.Message}
    {msg : RowMsg} (hmsg : m.rowMsg = some msg) (h : m.Acceptable avro reader) :
    ∃ entry, announced reader msg.relid = some entry ∧ TakesKey avro entry msg.key := by
  cases m with
  | insert relid key new =>
    cases hmsg
    obtain ⟨entry, hentry, hkey, -⟩ := h
    exact ⟨entry, hentry, hkey⟩
  | update relid key old new =>
    cases hmsg
    obtain ⟨entry, hentry, hkey, -⟩ := h
    exact ⟨entry, hentry, hkey⟩
  | delete relid key old =>
    obtain ⟨entry, hentry, hkey, -⟩ := h
    cases key with
    | none => cases hmsg
    | some key =>
      cases hmsg
      exact ⟨entry, hentry, hkey⟩
  | _ => cases hmsg

/-- **`NamesSchema avro registered schemaJson bin sent`** — what is sent for a value: nothing of length
0 if there is none, and otherwise a zero byte, the id that the registry gave the schema in big-endian
order, and the value. -/
def NamesSchema (avro : Libavro) (registered : List (Bytes × Int32)) (schemaJson bin : Option Bytes)
    (sent : Buffer) : Prop :=
  match bin with
  | none => sent = ⟨none, 0⟩
  | some payload => ∃ text id, schemaJson = some text ∧ (text, id) ∈ registered ∧
      (∀ r ∈ registered, r.2 = id ↔ avro.schemaFromJson r.1 = avro.schemaFromJson text) ∧
      sent = ⟨some (0 :: htonlBytes id.toUInt32 ++ payload), payload.length + messagePrefixLen⟩ ∧
      sent.ptr.map (List.drop messagePrefixLen) = some payload

theorem namesSchema_of_kept {registry : Option SchemaRegistry} {registered : List (Bytes × Int32)}
    {schemaJson bin : Option Bytes} {id : Int32} {schema : Option Schema}
    (hregistry : registry.isSome) (hempty : config.lib.avro.schemaFromJson [] = none)
    (hsame : SameIds config.lib.avro registered)
    (h : Kept config.lib registry registered schemaJson id schema)
    (hschema : bin.isSome → schema.isSome) :
    NamesSchema config.lib.avro registered schemaJson bin
      (passed ⟨addSchemaPrefix id bin, (bin.getD []).length + messagePrefixLen⟩) := by
  cases bin with
  | none => rfl
  | some payload =>
    obtain ⟨parsed, rfl⟩ := Option.isSome_iff_exists.mp (hschema rfl)
    have hid := h.id hregistry
    -- there is a schema text, and it is not empty since it was parsed
    match schemaJson with
    | none => cases h.schema hsame
    | some [] =>
      have hparse := h.schema hsame
      rw [schemaOfText, hempty] at hparse
      cases hparse
    | some (b :: text) =>
      exact ⟨b :: text, id, rfl, hid, fun r hr => hsame r hr (b :: text, id) hid, rfl, rfl⟩

/-- A row of a tracked table is sent with the ids of the schemas last announced. -/
theorem namesSchema_of_receive {es : List Received} {msg : RowMsg}
    (hformat : config.outputFormat = .avro) (hregistry : s.context.mapper.registry.isSome)
    (hempty : config.lib.avro.schemaFromJson [] = none)
    (hsame : SameIds config.lib.avro s.context.mapper.outside.registered)
    (hs : Tracked config es s msg.relid) (hmsg : e.2.rowMsg = some msg)
    (h : receive config s e = some t) :
    ∃ a args, lastAnnouncement config.lib.avro msg.relid es = some a ∧
      t.context.sent = s.context.sent ++ [args] ∧
      NamesSchema config.lib.avro s.context.mapper.outside.registered a.keySchemaJson msg.key args.key ∧
      NamesSchema config.lib.avro s.context.mapper.outside.registered (some a.rowSchemaJson) msg.val
        args.val := by
  obtain ⟨haccept, -⟩ := receive_eq_some h
  obtain ⟨entry, hentry, htakes⟩ := takesKey_of_acceptable hmsg haccept
  have hsend := sendKafkaMsg_of_receive hmsg h
  cases hs with
  | unknown _ hclient _ =>
    rw [hclient] at hentry
    cases hentry
  | @known a entry' table hlast hclient hmapper _ hkey hrow hdescribes =>
    obtain rfl : entry' = entry := by
      rw [hclient] at hentry
      exact Option.some.inj hentry
    simp only [sendKafkaMsg, hmapper, encodeMsg, hformat, Option.bind_eq_bind, Option.bind_some,
      schemaRegistryEncodeMsg, Option.some.injEq] at hsend
    refine ⟨a, _, hlast, by rw [← hsend], ?_, ?_⟩
    · -- a key is only taken under a key schema
      apply namesSchema_of_kept hregistry hempty hsame hdescribes.key
      intro hsome
      obtain ⟨key, hk⟩ := Option.isSome_iff_exists.mp hsome
      obtain ⟨schema, hschema, -⟩ := htakes key hk
      have hkept := hdescribes.key.schema hsame
      rw [hkey, hschema, Option.some.injEq] at hkept
      exact hkept ▸ rfl
    · apply namesSchema_of_kept hregistry hempty hsame hdescribes.row
      intro _
      have hkept := hdescribes.row.schema hsame
      rw [schemaOfText, hrow, Option.map_some, Option.some.injEq] at hkept
      exact hkept ▸ rfl

/-- **Every message in Kafka names its schema.**  After any messages from Postgres that client and
producer have taken, the schemas in the entry of a table are those last announced for it.  In Avro
format, the next row is sent with the ids of these schemas in front of key and value, and a null key or
value as null; other messages send nothing. -/
theorem messages_name_schema {registryUrl topicPrefix : Option String} {producer : Producer}
    (hstart : startProducer config.outputFormat registryUrl topicPrefix = some producer)
    (hempty : config.lib.avro.schemaFromJson [] = none) {es : List Received}
    (hrun : run (receive config) ⟨frameReaderNew, producer⟩ es = some s)
    (hsame : SameIds config.lib.avro s.context.mapper.outside.registered) :
    (∀ relid a, lastAnnouncement config.lib.avro relid es = some a →
        ∃ table, tableMapperLookup s.context.mapper relid = some table ∧
          schemaOfText config.lib.avro a.keySchemaJson = some table.keySchema ∧
          schemaOfText config.lib.avro (some a.rowSchemaJson) = some table.rowSchema) ∧
      (config.outputFormat = .avro → ∀ e t, receive config s e = some t →
        match e.2.rowMsg with
        | none => t.context.sent = s.context.sent
        | some msg => ∃ a args, lastAnnouncement config.lib.avro msg.relid es = some a ∧
            t.context.sent = s.context.sent ++ [args] ∧
            NamesSchema config.lib.avro s.context.mapper.outside.registered a.keySchemaJson msg.key
              args.key ∧
            NamesSchema config.lib.avro s.context.mapper.outside.registered (some a.rowSchemaJson)
              msg.val args.val) := by
  obtain ⟨registry, rfl, hregistry⟩ := exists_registry_of_start hstart
  have htracked := run_tracked hrun
  refine ⟨?_, ?_⟩
  · intro relid a ha
    cases htracked relid with
    | unknown hlast _ _ =>
      rw [hlast] at ha
      cases ha
    | known hlast _ hmapper _ _ _ hdescribes =>
      rw [hlast, Option.some.injEq] at ha
      subst ha
      exact ⟨_, hmapper, hdescribes.key.schema hsame, hdescribes.row.schema hsame⟩
  · intro hformat e t hstep
    split
    · case h_1 hmsg => exact sent_of_receive hmsg hstep
    · case h_2 msg hmsg =>
      have hregistry' : s.context.mapper.registry.isSome := by
        rw [(run_stays hrun).1]
        exact hregistry hformat
      exact namesSchema_of_receive hformat hregistry' hempty hsame (htracked msg.relid) hmsg hstep

end

/-! A table that loses its key, is renamed, and gets its key back. -/

/-- A registry whose ids are the letters by which the schemas are known. -/
def letterHttp : Http where
  requestBody := some
  perform := fun _ _ body =>
    some ⟨200, some (.object [("id", .integer (body.headD 0).toNat)])⟩

def letterConfig : ProducerConfig where
  lib := ⟨letterSchemas, letterHttp, fun _ _ => true⟩
  outputFormat := .avro
  binToJson := fun _ _ => none

/-- The ids are different for different letters, and so are the names of the schemas. -/
theorem sameIds_letters {registered : List (Bytes × Int32)}
    (hletters : registered ⊆ [([107], 107), ([117], 117), ([112], 112)]) :
    SameIds letterSchemas registered := by
  refine SameIds.mono ?_ hletters
  intro a ha b hb
  have htext : a.2 = b.2 → a.1 = b.1 := by
    revert a b
    decide
  have hname : (letterSchemas.schemaFromJson a.1).map Schema.name =
      (letterSchemas.schemaFromJson b.1).map Schema.name → a.2 = b.2 := by
    revert a b
    decide
  exact ⟨fun h => by rw [htext h], fun h => hname (congrArg (Option.map Schema.name) h)⟩

def keyLostAndFound : List Received :=
  [(0, .tableSchema 16385 (some [107]) [117]), (5, .insert 16385 (some [2, 6]) [2, 6]),
    (6, .tableSchema 16385 none [112]), (7, .insert 16385 none [2, 8]),
    (8, .tableSchema 16385 (some [107]) [112])]

theorem messages_name_schema_users :
    ∃ producer s t, (startProducer .avro none none = some producer ∧
        run (receive letterConfig) ⟨frameReaderNew, producer⟩ keyLostAndFound = some s ∧
        SameIds letterSchemas s.context.mapper.outside.registered ∧
        receive letterConfig s (9, .insert 16385 (some [2, 10]) [2, 10]) = some t) ∧
      (∃ table, tableMapperLookup s.context.mapper 16385 = some table ∧
        schemaOfText letterSchemas (some [107]) = some table.keySchema ∧
        schemaOfText letterSchemas (some [112]) = some table.rowSchema) ∧
      ∃ a args, lastAnnouncement letterSchemas 16385 keyLostAndFound = some a ∧
        t.context.sent = s.context.sent ++ [args] ∧
        NamesSchema letterSchemas s.context.mapper.outside.registered a.keySchemaJson
          (some [2, 10]) args.key ∧
        NamesSchema letterSchemas s.context.mapper.outside.registered (some a.rowSchemaJson)
          (some [2, 10]) args.val := by
  obtain ⟨producer, s, t, hstart, hrun, hstep, hregistered⟩ :
      ∃ producer s t, startProducer letterConfig.outputFormat none none = some producer ∧
        run (receive letterConfig) ⟨frameReaderNew, producer⟩ keyLostAndFound = some s ∧
        receive letterConfig s (9, .insert 16385 (some [2, 10]) [2, 10]) = some t ∧
        s.context.mapper.outside.registered =
          [([107], 107), ([117], 117), ([112], 112), ([107], 107), ([112], 112)] :=
    ⟨_, _, _, rfl, rfl, rfl, rfl⟩
  have hsame : SameIds letterConfig.lib.avro s.context.mapper.outside.registered := by
    rw [hregistered]
    exact sameIds_letters (by decide)
  obtain ⟨hentry, hsent⟩ := messages_name_schema hstart rfl hrun hsame
  exact ⟨producer, s, t, ⟨hstart, hrun, hsame, hstep⟩, hentry 16385 _ rfl, hsent rfl _ _ hstep⟩

end BottledWater.Kafka
