/-
# BottledWater.Kafka.TableMapper — what the producer keeps about each table.

`kafka/table_mapper.c`.  For every table that has been announced the mapper keeps the name, the Kafka
topic, the ids that the schema registry gave its schemas, and the schemas themselves.  The array of
pointers is a list of entries in the order in which the tables were first seen, with the number of pointers
that there is room for; an update that fails leaves its entry as it is at that point.

Log messages are left out.  A topic handle is known by its number: `topics` lists the handles that
`rd_kafka_topic_new` has returned and `destroyed` those passed to `rd_kafka_topic_destroy`.  `registered`
is the history of the schema texts that the registry has been sent, with the ids it answered.
-/
import BottledWater.Kafka.Registry
import BottledWater.Lib.Proc
import BottledWater.Protocol.Delivery

namespace BottledWater.Kafka

open BottledWater.Lib BottledWater.Lib.Avro BottledWater.Client BottledWater.Protocol

/-! ## §1 — The data -/

/-- `TABLE_MAPPER_SCHEMA_ID_MISSING`. -/
def schemaIdMissing : Int32 := -1

/-- `TABLE_MAPPER_MAX_TOPIC_LEN`. -/
def maxTopicLen : Nat := 256 + 1

/-- `TABLE_MAPPER_TOPIC_PREFIX_DELIMITER`. -/
def topicPrefixDelimiter : String := "-"

/-- A `rd_kafka_topic_t`. -/
structure Topic where
  handle : Nat
  name : String
  deriving DecidableEq, Repr

/-- `table_metadata`. -/
structure TableMetadata where
  relid : Oid
  tableName : Option String
  topic : Option Topic
  keySchemaId : Int32
  keySchema : Option Schema
  rowSchemaId : Int32
  rowSchema : Option Schema

/-- The world outside the mapper: Kafka and the registry. -/
structure Outside where
  topics : List Topic
  destroyed : List Topic
  registered : List (Bytes × Int32)

/-- `table_mapper`, less the references it passes on. -/
structure TableMapper where
  registry : Option SchemaRegistry
  topicPrefix : Option String
  capacity : Nat
  tables : List TableMetadata
  outside : Outside

/-- The libraries that the mapper calls. -/
structure Libraries where
  avro : Libavro
  http : Http
  /-- `rd_kafka_topic_new`: whether the call with the given number returns a handle to a topic of this
  name. -/
  topicNew : Nat → String → Bool

/-- The texts that `mapper_error` is called with. -/
inductive MapperError
  /-- "prefixed topic name is too long (max %d bytes): prefix %s, table name %s" -/
  | topicNameTooLong (topicPrefix tableName : String)
  /-- "Cannot open Kafka topic %s: %s" -/
  | cannotOpenTopic (topicName : String)
  /-- "Failed to register %s schema: %s" -/
  | register (isKey : Bool) (err : RegistryError)
  /-- "Could not parse %s schema: %s" -/
  | parse (isKey : Bool)
  /-- `rd_kafka_topic_name` of a null pointer. -/
  | undefined
  deriving DecidableEq, Repr

/-- `table_mapper_new`. -/
def tableMapperNew (registry : Option SchemaRegistry) (topicPrefix : Option String) : TableMapper :=
  ⟨registry, topicPrefix, 16, [], ⟨[], [], []⟩⟩

/-- `table_mapper_lookup`. -/
def tableMapperLookup (mapper : TableMapper) (relid : Oid) : Option TableMetadata :=
  Keyed.find TableMetadata.relid relid mapper.tables

/-- The entry that `table_metadata_new` returns. -/
def tableMetadataNew (relid : Oid) : TableMetadata :=
  ⟨relid, none, none, schemaIdMissing, none, schemaIdMissing, none⟩

/-- The room for pointers after `table_metadata_new`, which is called for a table that is not found: four
times as much if the array is full. -/
def capacityFor (mapper : TableMapper) (relid : Oid) : Nat :=
  match tableMapperLookup mapper relid with
  | some _ => mapper.capacity
  | none => if mapper.tables.length = mapper.capacity then mapper.capacity * 4 else mapper.capacity

namespace TableMetadata

def schemaId (table : TableMetadata) (isKey : Bool) : Int32 :=
  if isKey then table.keySchemaId else table.rowSchemaId

def schema (table : TableMetadata) (isKey : Bool) : Option Schema :=
  if isKey then table.keySchema else table.rowSchema

/-- `table_metadata_set_schema_id`. -/
def setSchemaId (table : TableMetadata) (isKey : Bool) (schemaId : Int32) : TableMetadata :=
  if isKey then { table with keySchemaId := schemaId } else { table with rowSchemaId := schemaId }

/-- `table_metadata_set_schema`; its branches differ only in what is logged and released. -/
def setSchema (table : TableMetadata) (isKey : Bool) (schema : Option Schema) : TableMetadata :=
  if isKey then { table with keySchema := schema } else { table with rowSchema := schema }

@[simp]
theorem setSchemaId_schemaId (table : TableMetadata) (isKey : Bool) :
    table.setSchemaId isKey (table.schemaId isKey) = table := by
  cases isKey <;> rfl

@[simp]
theorem setSchema_schema (table : TableMetadata) (isKey : Bool) (id : Int32) :
    (table.setSchemaId isKey id).setSchema isKey (table.schema isKey) = table.setSchemaId isKey id := by
  cases isKey <;> rfl

end TableMetadata

/-! ## §2 — Updating an entry -/

/-- The entry being updated, and the outside. -/
structure Updating where
  table : TableMetadata
  outside : Outside

abbrev UpdateM := EStateM MapperError Updating

def modifyTable (f : TableMetadata → TableMetadata) : UpdateM Unit :=
  modify fun u => { u with table := f u.table }

/-- `rd_kafka_topic_destroy(table->topic)`; the entry keeps the pointer. -/
def rdKafkaTopicDestroy (topic : Topic) : UpdateM Unit :=
  modify fun u => { u with outside := { u.outside with destroyed := u.outside.destroyed ++ [topic] } }

/-- `table->topic = rd_kafka_topic_new(...)`, and the error if that is NULL. -/
def rdKafkaTopicNew (lib : Libraries) (topicName : String) : UpdateM Unit := do
  let u ← get
  let topic : Topic := ⟨u.outside.topics.length, topicName⟩
  if lib.topicNew topic.handle topicName then
    set (Updating.mk { u.table with topic := some topic }
      { u.outside with topics := u.outside.topics ++ [topic] })
  else do
    modifyTable fun table => { table with topic := none }
    throw (.cannotOpenTopic topicName)

/-- The name of the topic for a table: with a prefix, the name has to fit in the buffer. -/
def topicNameFor (topicPrefix : Option String) (tableName : String) : Except MapperError String :=
  match topicPrefix with
  | none => pure tableName
  | some topicPrefix =>
    let name := topicPrefix ++ topicPrefixDelimiter ++ tableName
    if maxTopicLen ≤ name.utf8ByteSize then throw (.topicNameTooLong topicPrefix tableName)
    else pure name

/-- `table_metadata_update_topic` from the assignment of the new table name on. -/
def openTopic (lib : Libraries) (topicPrefix : Option String) (tableName : String) : UpdateM Unit := do
  modifyTable fun table => { table with tableName := some tableName }
  match topicNameFor topicPrefix tableName with
  | .error err => throw err
  | .ok topicName => rdKafkaTopicNew lib topicName

/-- `table_metadata_update_topic`. -/
def tableMetadataUpdateTopic (lib : Libraries) (topicPrefix : Option String) (tableName : String) :
    UpdateM Unit := do
  let table := (← get).table
  match table.topic with
  | none => openTopic lib topicPrefix tableName
  | some topic =>
    if table.tableName ≠ some tableName then do
      rdKafkaTopicDestroy topic
      openTopic lib topicPrefix tableName
    else pure ()

/-- `schema_registry_request` for an entry, and the assignment of the id. -/
def requestSchemaId (lib : Libraries) (registry : SchemaRegistry) (isKey : Bool)
    (schemaJson : Option Bytes) : UpdateM Int32 := do
  let u ← get
  match u.table.topic with
  | none => throw .undefined
  | some topic =>
    match schemaRegistryRequest lib.http registry u.outside.registered.length topic.name isKey
        schemaJson with
    | .error err => throw (.register isKey err)
    | .ok answer => do
      let schemaId := answer.getD schemaIdMissing
      let registered := u.outside.registered ++ answer.toList.map (schemaJson.getD [], ·)
      set (Updating.mk (u.table.setSchemaId isKey schemaId) { u.outside with registered })
      pure schemaId

/-- The id of the new schema, which is missing without a registry. -/
def newSchemaId (lib : Libraries) (registry : Option SchemaRegistry) (isKey : Bool)
    (schemaJson : Option Bytes) : UpdateM Int32 :=
  match registry with
  | some registry => requestSchemaId lib registry isKey schemaJson
  | none => pure schemaIdMissing

/-- `avro_schema_from_json_length`, if there is a schema. -/
def parseSchema (lib : Libraries) (isKey : Bool) : Option Bytes → UpdateM (Option Schema)
  | none => pure none
  | some schemaJson =>
    match lib.avro.schemaFromJson schemaJson with
    | none => throw (.parse isKey)
    | some schema => pure (some schema)

/-- `table_metadata_update_schema`. -/
def tableMetadataUpdateSchema (lib : Libraries) (registry : Option SchemaRegistry) (isKey : Bool)
    (schemaJson : Option Bytes) : UpdateM Unit := do
  let prevSchemaId := (← get).table.schemaId isKey
  let schemaId ← newSchemaId lib registry isKey schemaJson
  if prevSchemaId = schemaIdMissing ∨ prevSchemaId ≠ schemaId then do
    let schema ← parseSchema lib isKey schemaJson
    modifyTable fun table => table.setSchema isKey schema
  else pure ()

/-! ## §3 — `table_mapper_update` -/

/-- The steps of `table_mapper_update` on the entry. -/
def updateTable (lib : Libraries) (registry : Option SchemaRegistry) (topicPrefix : Option String)
    (tableName : String) (keySchemaJson : Option Bytes) (rowSchemaJson : Bytes) : UpdateM Unit := do
  tableMetadataUpdateTopic lib topicPrefix tableName
  tableMetadataUpdateSchema lib registry true keySchemaJson
  tableMetadataUpdateSchema lib registry false (some rowSchemaJson)

/-- The entry is changed in place, or has been appended by `table_metadata_new`. -/
def TableMapper.store (mapper : TableMapper) (u : Updating) : TableMapper :=
  { mapper with
    capacity := capacityFor mapper u.table.relid
    tables := Keyed.put TableMetadata.relid u.table.relid u.table mapper.tables
    outside := u.outside }

/-- `table_mapper_update`. -/
def tableMapperUpdate (lib : Libraries) (relid : Oid) (tableName : String)
    (keySchemaJson : Option Bytes) (rowSchemaJson : Bytes) : EStateM MapperError TableMapper Unit :=
  fun mapper =>
    let table := (tableMapperLookup mapper relid).getD (tableMetadataNew relid)
    match updateTable lib mapper.registry mapper.topicPrefix tableName keySchemaJson rowSchemaJson
        ⟨table, mapper.outside⟩ with
    | .ok _ u => .ok () (mapper.store u)
    | .error err u => .error err (mapper.store u)

/-! ## §4 — What an update leaves behind -/

section

variable {lib : Libraries} {registry : Option SchemaRegistry} {topicPrefix : Option String}
  {u u' : Updating} {isKey : Bool} {schemaJson : Option Bytes}

/-- The id of a schema is one that the registry answered when it was sent this text. -/
def HasId (registered : List (Bytes × Int32)) : Option Bytes → Int32 → Prop
  | none, id => id = schemaIdMissing
  | some [], id => id = schemaIdMissing
  | some text, id => (text, id) ∈ registered

theorem HasId.mono {registered registered' : List (Bytes × Int32)} {id : Int32}
    (h : HasId registered schemaJson id) (hsub : registered ⊆ registered') :
    HasId registered' schemaJson id := by
  match schemaJson with
  | none => exact h
  | some [] => exact h
  | some (b :: text) => exact hsub h

/-- A schema text that is sent is answered with an id, and nothing else is sent. -/
theorem hasId_of_request {http : Http} {registry : SchemaRegistry} {number : Nat} {name : String}
    {answer : Option Int32} (registered : List (Bytes × Int32))
    (h : schemaRegistryRequest http registry number name isKey schemaJson = .ok answer) :
    HasId (registered ++ answer.toList.map (schemaJson.getD [], ·)) schemaJson
      (answer.getD schemaIdMissing) := by
  match schemaJson with
  | none =>
    cases h
    rfl
  | some [] =>
    cases h
    rfl
  | some (b :: text) =>
    simp only [schemaRegistryRequest] at h
    split at h
    · cases h
    · split at h
      · cases h
      · simp only [except_bind_eq_ok] at h
        obtain ⟨id, -, ⟨⟩⟩ := h
        simp [HasId]

/-- A request leaves the entry with the id of the schema. -/
theorem requestSchemaId_eq_ok {registry : SchemaRegistry} {id : Int32}
    (h : requestSchemaId lib registry isKey schemaJson u = .ok id u') :
    ∃ registered, u' = ⟨u.table.setSchemaId isKey id, { u.outside with registered }⟩ ∧
      u.outside.registered ⊆ registered ∧ HasId registered schemaJson id := by
  simp only [requestSchemaId, bind_eq_ok, get_eq_ok] at h
  obtain ⟨_, _, ⟨rfl, rfl⟩, h⟩ := h
  cases htopic : u.table.topic with
  | none => simp [htopic, throw_eq_ok] at h
  | some topic =>
    simp only [htopic] at h
    cases hanswer : schemaRegistryRequest lib.http registry u.outside.registered.length topic.name
        isKey schemaJson with
    | error err => simp [hanswer, throw_eq_ok] at h
    | ok answer =>
      simp only [hanswer, bind_eq_ok, set_eq_ok, pure_eq_ok] at h
      obtain ⟨_, _, rfl, rfl, rfl⟩ := h
      exact ⟨_, rfl, List.subset_append_left _ _, hasId_of_request _ hanswer⟩

theorem parseSchema_eq_ok {schema : Option Schema}
    (h : parseSchema lib isKey schemaJson u = .ok schema u') :
    schemaOfText lib.avro schemaJson = some schema ∧ u = u' := by
  cases schemaJson with
  | none =>
    obtain ⟨rfl, rfl⟩ := pure_eq_ok.mp h
    exact ⟨rfl, rfl⟩
  | some text =>
    simp only [parseSchema] at h
    cases hparse : lib.avro.schemaFromJson text with
    | none => simp [hparse, throw_eq_ok] at h
    | some parsed =>
      simp only [hparse, pure_eq_ok] at h
      obtain ⟨rfl, rfl⟩ := h
      exact ⟨by simp [schemaOfText, hparse], rfl⟩

/-- Without a registry the id stays, and what counts as the new one is missing. -/
theorem newSchemaId_eq_ok {id : Int32} (h : newSchemaId lib registry isKey schemaJson u = .ok id u') :
    ∃ id' registered, u' = ⟨u.table.setSchemaId isKey id', { u.outside with registered }⟩ ∧
      u.outside.registered ⊆ registered ∧
      (registry.isSome → HasId registered schemaJson id' ∧ id = id') ∧
      (registry.isNone → id = schemaIdMissing) := by
  cases registry with
  | some registry =>
    obtain ⟨registered, rfl, hsub, hid⟩ := requestSchemaId_eq_ok h
    exact ⟨id, registered, rfl, hsub, fun _ => ⟨hid, rfl⟩, nofun⟩
  | none =>
    obtain ⟨rfl, rfl⟩ := pure_eq_ok.mp h
    exact ⟨u.table.schemaId isKey, u.outside.registered, by simp, fun _ hmem => hmem, nofun,
      fun _ => rfl⟩

/-- **A schema update**: the id is the new one, and the schema is the new one unless the id is that of
the schema kept so far. -/
theorem tableMetadataUpdateSchema_eq_ok {v : Unit}
    (h : tableMetadataUpdateSchema lib registry isKey schemaJson u = .ok v u') :
    ∃ id schema registered,
      u' = ⟨(u.table.setSchemaId isKey id).setSchema isKey schema, { u.outside with registered }⟩ ∧
      u.outside.registered ⊆ registered ∧ (registry.isSome → HasId registered schemaJson id) ∧
      (schemaOfText lib.avro schemaJson = some schema ∨
        registry.isSome ∧ id ≠ schemaIdMissing ∧ id = u.table.schemaId isKey ∧
          schema = u.table.schema isKey) := by
  simp only [tableMetadataUpdateSchema, bind_eq_ok, get_eq_ok] at h
  obtain ⟨_, _, ⟨rfl, rfl⟩, id, u₁, hid, h⟩ := h
  obtain ⟨id', registered, rfl, hsub, hsome, hnone⟩ := newSchemaId_eq_ok hid
  by_cases hchanged : u.table.schemaId isKey = schemaIdMissing ∨ u.table.schemaId isKey ≠ id
  · simp only [if_pos hchanged, bind_eq_ok, modifyTable, modify_eq_ok] at h
    obtain ⟨schema, _, hparse, rfl⟩ := h
    obtain ⟨hschema, rfl⟩ := parseSchema_eq_ok hparse
    exact ⟨id', schema, registered, rfl, hsub, fun hr => (hsome hr).1, .inl hschema⟩
  · -- the id is the one of the schema that is kept, so there is a registry
    simp only [if_neg hchanged, pure_eq_ok] at h
    obtain ⟨-, rfl⟩ := h
    rw [not_or, not_not] at hchanged
    obtain ⟨hprev, rfl⟩ := hchanged
    have hregistry : registry.isSome := by
      rw [← Option.not_isNone, Bool.not_eq_true']
      exact eq_false_of_ne_true fun hnone' => hprev (hnone hnone')
    obtain ⟨hid', rfl⟩ := hsome hregistry
    exact ⟨_, _, registered, by rw [TableMetadata.setSchema_schema], hsub, fun _ => hid',
      .inr ⟨hregistry, hprev, rfl, rfl⟩⟩

theorem openTopic_eq_ok {tableName : String} {v : Unit}
    (h : openTopic lib topicPrefix tableName u = .ok v u') :
    ∃ topic outside, topicNameFor topicPrefix tableName = .ok topic.name ∧
      u' = ⟨{ u.table with tableName := some tableName, topic := some topic }, outside⟩ ∧
      outside.registered = u.outside.registered := by
  simp only [openTopic, bind_eq_ok, modifyTable, modify_eq_ok] at h
  obtain ⟨_, _, rfl, h⟩ := h
  cases hname : topicNameFor topicPrefix tableName with
  | error err => simp [hname, throw_eq_ok] at h
  | ok name =>
    simp only [hname, rdKafkaTopicNew, bind_eq_ok, get_eq_ok] at h
    obtain ⟨_, _, ⟨rfl, rfl⟩, h⟩ := h
    by_cases hopened : lib.topicNew u.outside.topics.length name
    · simp only [hopened, if_true, set_eq_ok] at h
      exact ⟨⟨u.outside.topics.length, name⟩, _, rfl, h.symm, rfl⟩
    · simp [hopened, bind_eq_ok, throw_eq_ok] at h

/-- A topic update keeps the topic of a table with the same name, and opens a new one otherwise. -/
theorem tableMetadataUpdateTopic_eq_ok {tableName : String} {v : Unit}
    (h : tableMetadataUpdateTopic lib topicPrefix tableName u = .ok v u') :
    (u.table.topic.isSome ∧ u.table.tableName = some tableName ∧ u' = u) ∨
      ∃ topic outside, topicNameFor topicPrefix tableName = .ok topic.name ∧
        u' = ⟨{ u.table with tableName := some tableName, topic := some topic }, outside⟩ ∧
        outside.registered = u.outside.registered := by
  simp only [tableMetadataUpdateTopic, bind_eq_ok, get_eq_ok] at h
  obtain ⟨_, _, ⟨rfl, rfl⟩, h⟩ := h
  cases htopic : u.table.topic with
  | none =>
    simp only [htopic] at h
    exact .inr (openTopic_eq_ok h)
  | some topic =>
    by_cases hname : u.table.tableName = some tableName
    · simp only [htopic, hname, ne_eq, not_true, if_false, pure_eq_ok] at h
      exact .inl ⟨rfl, hname, h.2.symm⟩
    · simp only [htopic, ne_eq, hname, not_false_eq_true, if_true, bind_eq_ok, rdKafkaTopicDestroy,
        modify_eq_ok] at h
      obtain ⟨_, _, rfl, h⟩ := h
      obtain ⟨topic', outside, hname', hu', hregistered⟩ := openTopic_eq_ok h
      exact .inr ⟨topic', outside, hname', hu', hregistered⟩

/-- What the registry has answered stays. -/
theorem registered_of_updateTable {tableName : String} {keySchemaJson : Option Bytes}
    {rowSchemaJson : Bytes} {v : Unit}
    (h : updateTable lib registry topicPrefix tableName keySchemaJson rowSchemaJson u = .ok v u') :
    u.outside.registered ⊆ u'.outside.registered := by
  simp only [updateTable, bind_eq_ok] at h
  obtain ⟨_, u₁, h₁, _, u₂, h₂, h₃⟩ := h
  have htopic : u₁.outside.registered = u.outside.registered := by
    rcases tableMetadataUpdateTopic_eq_ok h₁ with ⟨-, -, rfl⟩ | ⟨_, _, -, rfl, hregistered⟩
    · rfl
    · exact hregistered
  obtain ⟨_, _, _, rfl, hkey, -⟩ := tableMetadataUpdateSchema_eq_ok h₂
  obtain ⟨_, _, _, rfl, hrow, -⟩ := tableMetadataUpdateSchema_eq_ok h₃
  rw [← htopic]
  exact fun _ hmem => hrow (hkey hmem)

/-! ## §5 — An entry follows the announcements -/

/-- The registry answers with the same id exactly for identical schemas. -/
def SameIds (avro : Libavro) (registered : List (Bytes × Int32)) : Prop :=
  ∀ a ∈ registered, ∀ b ∈ registered, a.2 = b.2 ↔ avro.schemaFromJson a.1 = avro.schemaFromJson b.1

theorem SameIds.mono {avro : Libavro} {registered registered' : List (Bytes × Int32)}
    (h : SameIds avro registered') (hsub : registered ⊆ registered') : SameIds avro registered :=
  fun a ha b hb => h a (hsub ha) b (hsub hb)

/-- What is kept for a schema text: the id if there is a registry, and the schema, as far as the registry
tells schemas apart. -/
structure Kept (lib : Libraries) (registry : Option SchemaRegistry)
    (registered : List (Bytes × Int32)) (schemaJson : Option Bytes) (id : Int32)
    (schema : Option Schema) : Prop where
  id : registry.isSome → HasId registered schemaJson id
  schema : SameIds lib.avro registered → schemaOfText lib.avro schemaJson = some schema

theorem Kept.mono {registered registered' : List (Bytes × Int32)} {id : Int32} {schema : Option Schema}
    (h : Kept lib registry registered schemaJson id schema) (hsub : registered ⊆ registered') :
    Kept lib registry registered' schemaJson id schema :=
  ⟨fun hr => (h.id hr).mono hsub, fun hsame => h.schema (hsame.mono hsub)⟩

theorem HasId.exists_mem {registered : List (Bytes × Int32)} {id : Int32}
    (h : HasId registered schemaJson id) (hne : id ≠ schemaIdMissing) :
    ∃ text, schemaJson = some text ∧ (text, id) ∈ registered := by
  match schemaJson with
  | none => exact absurd h hne
  | some [] => exact absurd h hne
  | some (b :: text) => exact ⟨b :: text, rfl, h⟩

/-- One id stands for one schema. -/
theorem schemaOfText_eq_of_hasId {avro : Libavro} {registered : List (Bytes × Int32)}
    {schemaJson' : Option Bytes} {id : Int32} (hsame : SameIds avro registered)
    (h : HasId registered schemaJson id) (h' : HasId registered schemaJson' id)
    (hne : id ≠ schemaIdMissing) : schemaOfText avro schemaJson = schemaOfText avro schemaJson' := by
  obtain ⟨text, rfl, hmem⟩ := h.exists_mem hne
  obtain ⟨text', rfl, hmem'⟩ := h'.exists_mem hne
  show (avro.schemaFromJson text).map some = (avro.schemaFromJson text').map some
  rw [(hsame _ hmem _ hmem').mp rfl]

/-- **After an update the new schema is kept**, whether or not it was parsed. -/
theorem kept_of_updateSchema {v : Unit}
    (h : tableMetadataUpdateSchema lib registry isKey schemaJson u = .ok v u')
    (hprev : u.table.schemaId isKey = schemaIdMissing ∨ ∃ schemaJson', Kept lib registry
      u.outside.registered schemaJson' (u.table.schemaId isKey) (u.table.schema isKey)) :
    ∃ id schema registered,
      u' = ⟨(u.table.setSchemaId isKey id).setSchema isKey schema, { u.outside with registered }⟩ ∧
      u.outside.registered ⊆ registered ∧ Kept lib registry registered schemaJson id schema := by
  obtain ⟨id, schema, registered, rfl, hsub, hid, hschema⟩ := tableMetadataUpdateSchema_eq_ok h
  refine ⟨id, schema, registered, rfl, hsub, hid, ?_⟩
  intro hsame
  rcases hschema with hschema | ⟨hregistry, hne, rfl, rfl⟩
  · exact hschema
  · rcases hprev with hmissing | ⟨schemaJson', hkept⟩
    · exact absurd hmissing hne
    · have hold := (hkept.id hregistry).mono hsub
      rw [schemaOfText_eq_of_hasId hsame (hid hregistry) hold hne]
      exact hkept.schema (hsame.mono hsub)

/-- The arguments of `table_mapper_update`, less the relid. -/
structure Announcement where
  tableName : String
  keySchemaJson : Option Bytes
  rowSchemaJson : Bytes
  deriving DecidableEq, Repr

/-- **`Described lib registry topicPrefix registered table a`** — the entry is what an announcement says
about the table. -/
structure Described (lib : Libraries) (registry : Option SchemaRegistry) (topicPrefix : Option String)
    (registered : List (Bytes × Int32)) (table : TableMetadata) (a : Announcement) : Prop where
  tableName : table.tableName = some a.tableName
  topic : ∃ topic, table.topic = some topic ∧ topicNameFor topicPrefix a.tableName = .ok topic.name
  key : Kept lib registry registered a.keySchemaJson table.keySchemaId table.keySchema
  row : Kept lib registry registered (some a.rowSchemaJson) table.rowSchemaId table.rowSchema

theorem Described.mono {registered registered' : List (Bytes × Int32)} {table : TableMetadata}
    {a : Announcement} (h : Described lib registry topicPrefix registered table a)
    (hsub : registered ⊆ registered') : Described lib registry topicPrefix registered' table a :=
  { h with key := h.key.mono hsub, row := h.row.mono hsub }

/-- An entry as the mapper has them: new, or following an earlier announcement. -/
def Following (lib : Libraries) (registry : Option SchemaRegistry) (topicPrefix : Option String)
    (registered : List (Bytes × Int32)) (table : TableMetadata) : Prop :=
  table = tableMetadataNew table.relid ∨
    ∃ a, Described lib registry topicPrefix registered table a

theorem Following.kept {registered : List (Bytes × Int32)} {table : TableMetadata}
    (h : Following lib registry topicPrefix registered table) (isKey : Bool) :
    table.schemaId isKey = schemaIdMissing ∨ ∃ schemaJson', Kept lib registry registered schemaJson'
      (table.schemaId isKey) (table.schema isKey) := by
  rcases h with hnew | ⟨a, ha⟩
  · left
    rw [hnew]
    cases isKey <;> rfl
  · right
    cases isKey with
    | true => exact ⟨_, ha.key⟩
    | false => exact ⟨_, ha.row⟩

/-- The topic after its update is that of the announced name. -/
theorem topic_of_updateTopic {tableName : String} {v : Unit}
    (hprev : Following lib registry topicPrefix u.outside.registered u.table)
    (h : tableMetadataUpdateTopic lib topicPrefix tableName u = .ok v u') :
    ∃ topic outside, topicNameFor topicPrefix tableName = .ok topic.name ∧
      u' = ⟨{ u.table with tableName := some tableName, topic := some topic }, outside⟩ ∧
      outside.registered = u.outside.registered := by
  rcases tableMetadataUpdateTopic_eq_ok h with ⟨htopic, hname, rfl⟩ | hnew
  · rcases hprev with hnew | ⟨a, ha⟩
    · rw [hnew] at htopic
      cases htopic
    · -- the name is the one announced before, and so is the topic
      obtain ⟨topic, htopic', htopicName⟩ := ha.topic
      have hsame : a.tableName = tableName := by
        rw [ha.tableName, Option.some.injEq] at hname
        exact hname
      refine ⟨topic, u'.outside, hsame ▸ htopicName, ?_, rfl⟩
      rw [← hname, ← htopic']
  · exact hnew

/-- **An update makes the entry what the announcement says.** -/
theorem described_of_updateTable {a : Announcement} {v : Unit}
    (hprev : Following lib registry topicPrefix u.outside.registered u.table)
    (h : updateTable lib registry topicPrefix a.tableName a.keySchemaJson a.rowSchemaJson u =
      .ok v u') :
    Described lib registry topicPrefix u'.outside.registered u'.table a ∧
      u'.table.relid = u.table.relid := by
  simp only [updateTable, bind_eq_ok] at h
  obtain ⟨_, u₁, h₁, _, u₂, h₂, h₃⟩ := h
  obtain ⟨topic, outside, hname, rfl, hregistered⟩ := topic_of_updateTopic hprev h₁
  obtain ⟨keyId, keySchema, registered, rfl, hsub, hkey⟩ :=
    kept_of_updateSchema h₂ (hregistered ▸ hprev.kept true)
  -- what was kept for the rows is still there after the update for the keys
  have hsub : u.outside.registered ⊆ registered := hregistered ▸ hsub
  have hrowPrev : u.table.rowSchemaId = schemaIdMissing ∨ ∃ schemaJson', Kept lib registry registered
      schemaJson' u.table.rowSchemaId u.table.rowSchema := by
    rcases hprev.kept false with hmissing | ⟨schemaJson', hkept⟩
    · exact .inl hmissing
    · exact .inr ⟨schemaJson', hkept.mono hsub⟩
  obtain ⟨rowId, rowSchema, registered', rfl, hsub', hrow⟩ := kept_of_updateSchema h₃ hrowPrev
  exact ⟨⟨rfl, ⟨topic, rfl, hname⟩, hkey.mono hsub', hrow⟩, rfl⟩

end

/-- The entry is what an announcement says, for this mapper. -/
def TableMapper.Describes (mapper : TableMapper) (lib : Libraries) (table : TableMetadata)
    (a : Announcement) : Prop :=
  Described lib mapper.registry mapper.topicPrefix mapper.outside.registered table a

/-- An update that succeeds is that of the entry found, or of a new one. -/
theorem updateTable_of_update {lib : Libraries} {relid : Oid} {tableName : String}
    {keySchemaJson : Option Bytes} {rowSchemaJson : Bytes} {mapper mapper' : TableMapper} {v : Unit}
    (h : tableMapperUpdate lib relid tableName keySchemaJson rowSchemaJson mapper = .ok v mapper') :
    ∃ u, mapper' = mapper.store u ∧
      updateTable lib mapper.registry mapper.topicPrefix tableName keySchemaJson rowSchemaJson
        ⟨(tableMapperLookup mapper relid).getD (tableMetadataNew relid), mapper.outside⟩ = .ok () u := by
  simp only [tableMapperUpdate] at h
  split at h
  · case h_1 u hupdate =>
    cases h
    exact ⟨u, rfl, hupdate⟩
  · cases h

/-- What a successful update does to the mapper: one entry is new, and the others stay. -/
structure MapperUpdated (lib : Libraries) (relid : Oid) (a : Announcement)
    (mapper mapper' : TableMapper) (table : TableMetadata) : Prop where
  registry : mapper'.registry = mapper.registry
  topicPrefix : mapper'.topicPrefix = mapper.topicPrefix
  registered : mapper.outside.registered ⊆ mapper'.outside.registered
  lookup : ∀ r, tableMapperLookup mapper' r = if r = relid then some table else tableMapperLookup mapper r
  describes : mapper'.Describes lib table a

theorem MapperUpdated.describes_other {lib : Libraries} {relid : Oid} {a a' : Announcement}
    {mapper mapper' : TableMapper} {table table' : TableMetadata}
    (h : MapperUpdated lib relid a mapper mapper' table) (h' : mapper.Describes lib table' a') :
    mapper'.Describes lib table' a' := by
  unfold TableMapper.Describes
  rw [h.registry, h.topicPrefix]
  exact Described.mono h' h.registered

/-- **`table_mapper_update` puts the announcement in place of the entry of its table.** -/
theorem tableMapperUpdate_eq_ok {lib : Libraries} {relid : Oid} {a : Announcement}
    {mapper mapper' : TableMapper} {v : Unit}
    (hprev : ∀ table, tableMapperLookup mapper relid = some table → ∃ a', mapper.Describes lib table a')
    (h : tableMapperUpdate lib relid a.tableName a.keySchemaJson a.rowSchemaJson mapper =
      .ok v mapper') :
    ∃ table, MapperUpdated lib relid a mapper mapper' table := by
  -- the entry that is updated is the one found, or a new one for this relid
  obtain ⟨hfollowing, hrelid⟩ : Following lib mapper.registry mapper.topicPrefix
      mapper.outside.registered ((tableMapperLookup mapper relid).getD (tableMetadataNew relid)) ∧
      ((tableMapperLookup mapper relid).getD (tableMetadataNew relid)).relid = relid := by
    cases hlookup : tableMapperLookup mapper relid with
    | none => exact ⟨.inl rfl, rfl⟩
    | some table => exact ⟨.inr (hprev table hlookup), Keyed.key_of_find hlookup⟩
  obtain ⟨u, rfl, hupdate⟩ := updateTable_of_update h
  obtain ⟨hdescribed, hrelid'⟩ := described_of_updateTable hfollowing hupdate
  refine ⟨u.table, rfl, rfl, registered_of_updateTable hupdate, ?_, hdescribed⟩
  intro r
  show Keyed.find _ _ (Keyed.put _ _ _ _) = _
  rw [Keyed.find_put rfl, hrelid'.trans hrelid]
  rfl

end BottledWater.Kafka
