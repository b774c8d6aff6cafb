/-
# BottledWater.Kafka.Updates — the table mapper as a map from relids to metadata.

Sequences of `table_mapper_update`.  Seen through `table_mapper_lookup`, the list of entries is a map:
there is one entry for each relid, it is what the last update of this relid said, and an update of one
table leaves the entries of the others alone.  Repeating the last update of a table asks the registry
again and changes nothing (`mapper_is_map`).

An entry is appended only where there is room for its pointer, through any growths of the array (`fits_of_run`).
-/
import BottledWater.Kafka.SchemaIds

namespace BottledWater.Kafka

open BottledWater.Lib BottledWater.Lib.Avro BottledWater.Client BottledWater.Protocol

/-! ## §1 — Sequences of updates -/

/-- The arguments of a call of `table_mapper_update`. -/
structure UpdateCall where
  relid : Oid
  announcement : Announcement
  deriving DecidableEq, Repr

/-- The call. -/
def UpdateCall.perform (lib : Libraries) (call : UpdateCall) : EStateM MapperError TableMapper Unit :=
  tableMapperUpdate lib call.relid call.announcement.tableName call.announcement.keySchemaJson
    call.announcement.rowSchemaJson

/-- The mapper after a call that succeeds. -/
def updated (lib : Libraries) (mapper : TableMapper) (call : UpdateCall) : Option TableMapper :=
  match call.perform lib mapper with
  | .ok _ mapper' => some mapper'
  | .error _ _ => none

/-- **`lastUpdate relid calls`** — what a table was last updated with. -/
def lastUpdate (relid : Oid) (calls : List UpdateCall) : Option Announcement :=
  lastSome (fun call => if call.relid = relid then some call.announcement else none) calls

theorem lastUpdate_snoc (relid : Oid) (calls : List UpdateCall) (call : UpdateCall) :
    lastUpdate relid (calls ++ [call]) =
      if relid = call.relid then some call.announcement else lastUpdate relid calls := by
  rw [lastUpdate, lastSome_snoc]
  by_cases hrelid : relid = call.relid
  · rw [if_pos hrelid.symm, if_pos hrelid]
    rfl
  · rw [if_neg (Ne.symm hrelid), if_neg hrelid]
    rfl

/-! ## §2 — What an update cannot change -/

section

variable {lib : Libraries} {registry : Option SchemaRegistry} {topicPrefix : Option String}
  {u u' : Updating} {isKey : Bool} {schemaJson : Option Bytes}

/-- Only the ids and schemas of the entry differ, and the registry may have answered more. -/
structure SchemasOnly (u u' : Updating) : Prop where
  relid : u'.table.relid = u.table.relid
  tableName : u'.table.tableName = u.table.tableName
  topic : u'.table.topic = u.table.topic
  topics : u'.outside.topics = u.outside.topics
  destroyed : u'.outside.destroyed = u.outside.destroyed
  registered : u.outside.registered ⊆ u'.outside.registered

theorem SchemasOnly.refl (u : Updating) : SchemasOnly u u :=
  ⟨rfl, rfl, rfl, rfl, rfl, fun _ hmem => hmem⟩

theorem SchemasOnly.trans {u u₁ u₂ : Updating} (h : SchemasOnly u u₁) (h' : SchemasOnly u₁ u₂) :
    SchemasOnly u u₂ :=
  ⟨h'.relid.trans h.relid, h'.tableName.trans h.tableName, h'.topic.trans h.topic,
    h'.topics.trans h.topics, h'.destroyed.trans h.destroyed,
    fun _ hmem => h'.registered (h.registered hmem)⟩

theorem SchemasOnly.set (u : Updating) (isKey : Bool) (id : Int32) {registered : List (Bytes × Int32)}
    (hsub : u.outside.registered ⊆ registered) :
    SchemasOnly u ⟨u.table.setSchemaId isKey id, { u.outside with registered }⟩ := by
  cases isKey with
  | true => exact ⟨rfl, rfl, rfl, rfl, rfl, hsub⟩
  | false => exact ⟨rfl, rfl, rfl, rfl, rfl, hsub⟩

theorem SchemasOnly.setSchema (u : Updating) (isKey : Bool) (schema : Option Schema) :
    SchemasOnly u { u with table := u.table.setSchema isKey schema } := by
  cases isKey with
  | true => exact ⟨rfl, rfl, rfl, rfl, rfl, fun _ hmem => hmem⟩
  | false => exact ⟨rfl, rfl, rfl, rfl, rfl, fun _ hmem => hmem⟩

theorem schemasOnly_of_requestSchemaId {registry : SchemaRegistry} :
    Triple (SchemasOnly u) (requestSchemaId lib registry isKey schemaJson) (fun _ => SchemasOnly u)
      (fun _ => SchemasOnly u) := by
  apply Triple.get
  intro u₁ hu₁
  cases u₁.table.topic with
  | none => exact Triple.throw fun _ h => h ▸ hu₁
  | some topic =>
    dsimp only
    cases schemaRegistryRequest lib.http registry u₁.outside.registered.length topic.name isKey
        schemaJson with
    | error err => exact Triple.throw fun _ h => h ▸ hu₁
    | ok answer =>
      have hset := SchemasOnly.set u₁ isKey (answer.getD schemaIdMissing)
        (List.subset_append_left u₁.outside.registered
          (answer.toList.map (schemaJson.getD [], ·)))
      exact Triple.seq (Q := fun _ => SchemasOnly u) (Triple.set fun _ _ => hu₁.trans hset)
        (Triple.pure fun _ h => h)

/-- Parsing a schema changes nothing. -/
theorem parseSchema_keeps {P : Updating → Prop} :
    Triple P (parseSchema lib isKey schemaJson) (fun _ => P) (fun _ => P) := by
  cases schemaJson with
  | none => exact Triple.pure fun _ h => h
  | some text =>
    simp only [parseSchema]
    cases lib.avro.schemaFromJson text with
    | none => exact Triple.throw fun _ h => h
    | some schema => exact Triple.pure fun _ h => h

/-- **A schema update leaves name, relid and topic alone**, also when it fails. -/
theorem schemasOnly_of_updateSchema :
    Triple (SchemasOnly u) (tableMetadataUpdateSchema lib registry isKey schemaJson)
      (fun _ => SchemasOnly u) (fun _ => SchemasOnly u) := by
  apply Triple.get
  intro u₁ hu₁
  have hid : Triple (· = u₁) (newSchemaId lib registry isKey schemaJson)
      (fun _ => SchemasOnly u) (fun _ => SchemasOnly u) := by
    cases registry with
    | none => exact Triple.pure fun _ h => h ▸ hu₁
    | some registry => exact schemasOnly_of_requestSchemaId.pre fun _ h => h ▸ hu₁
  apply hid.bind
  intro id
  apply Triple.ite
  · intro _
    apply parseSchema_keeps.bind
    intro schema
    exact Triple.modify fun u₂ hu₂ => hu₂.trans (.setSchema u₂ isKey schema)
  · intro _
    exact Triple.pure fun _ h => h

/-- What does not depend on schemas is kept by a schema update. -/
theorem updateSchema_keeps {P : Updating → Prop} (hP : ∀ u u', SchemasOnly u u' → P u → P u') :
    Triple P (tableMetadataUpdateSchema lib registry isKey schemaJson) (fun _ => P) (fun _ => P) := by
  intro u hu
  have hframe : Triple (SchemasOnly u) (tableMetadataUpdateSchema lib registry isKey schemaJson)
      (fun _ => P) (fun _ => P) :=
    schemasOnly_of_updateSchema.conseq (fun _ h => h) (fun _ u' h => hP u u' h hu)
      (fun _ u' h => hP u u' h hu)
  exact hframe u (.refl u)

/-- The topics destroyed when the old topic of the entry has been given back. -/
def Updating.withoutTopic (u : Updating) : List Topic := u.outside.destroyed ++ u.table.topic.toList

/-- The ways in which a topic update ends, with the error if it fails. -/
inductive TopicUpdated (lib : Libraries) (topicPrefix : Option String) (tableName : String)
    (u : Updating) : Option MapperError → Updating → Prop
  /-- The name is the one the topic was opened for. -/
  | same {topic : Topic} (htopic : u.table.topic = some topic)
    (hname : u.table.tableName = some tableName) : TopicUpdated lib topicPrefix tableName u none u
  | opened {topicName : String} (hname : topicNameFor topicPrefix tableName = .ok topicName) :
    TopicUpdated lib topicPrefix tableName u none
      ⟨{ u.table with
          tableName := some tableName, topic := some ⟨u.outside.topics.length, topicName⟩ },
        { u.outside with
          topics := u.outside.topics ++ [⟨u.outside.topics.length, topicName⟩]
          destroyed := u.withoutTopic }⟩
  /-- `rd_kafka_topic_new` returns NULL. -/
  | refused {topicName : String} (hname : topicNameFor topicPrefix tableName = .ok topicName) :
    TopicUpdated lib topicPrefix tableName u (some (.cannotOpenTopic topicName))
      ⟨{ u.table with tableName := some tableName, topic := none },
        { u.outside with destroyed := u.withoutTopic }⟩
  /-- The entry keeps the pointer to the topic that was destroyed. -/
  | tooLong {err : MapperError} (hname : topicNameFor topicPrefix tableName = .error err)
    (hrenamed : u.table.topic.isSome → u.table.tableName ≠ some tableName) :
    TopicUpdated lib topicPrefix tableName u (some err)
      ⟨{ u.table with tableName := some tableName },
        { u.outside with destroyed := u.withoutTopic }⟩

/-- Once the old topic is destroyed, or if there was none. -/
theorem topicUpdated_of_openTopic {tableName : String}
    (hrenamed : u.table.topic.isSome → u.table.tableName ≠ some tableName) :
    Triple (· = { u with outside := { u.outside with destroyed := u.withoutTopic } })
      (openTopic lib topicPrefix tableName)
      (fun _ => TopicUpdated lib topicPrefix tableName u none)
      (fun err => TopicUpdated lib topicPrefix tableName u (some err)) := by
  apply Triple.seq (Q := fun _ => (· = ⟨{ u.table with tableName := some tableName },
    { u.outside with destroyed := u.withoutTopic }⟩)) (Triple.modify fun _ h => h ▸ rfl)
  cases hname : topicNameFor topicPrefix tableName with
  | error err => exact Triple.throw fun _ h => h ▸ .tooLong hname hrenamed
  | ok topicName =>
    apply Triple.get
    rintro _ rfl
    apply Triple.ite
    · intro _
      exact Triple.set fun _ _ => .opened hname
    · intro _
      exact Triple.seq (Q := fun _ => (· = ⟨{ u.table with tableName := some tableName, topic := none },
        { u.outside with destroyed := u.withoutTopic }⟩)) (Triple.modify fun _ h => h ▸ rfl)
        (Triple.throw fun _ h => h ▸ .refused hname)

/-- **What a topic update can do.** -/
theorem topicUpdated_of_updateTopic {tableName : String} :
    Triple (· = u) (tableMetadataUpdateTopic lib topicPrefix tableName)
      (fun _ => TopicUpdated lib topicPrefix tableName u none)
      (fun err => TopicUpdated lib topicPrefix tableName u (some err)) := by
  apply Triple.get
  rintro u rfl
  cases htopic : u.table.topic with
  | none =>
    have hnone : u.table.topic.isSome → u.table.tableName ≠ some tableName := by simp [htopic]
    simp only [htopic]
    refine (topicUpdated_of_openTopic hnone).pre ?_
    rintro _ rfl
    simp [Updating.withoutTopic, htopic]
  | some topic =>
    simp only [htopic]
    apply Triple.ite
    · intro hrenamed
      apply Triple.seq (Q := fun _ =>
        (· = { u with outside := { u.outside with destroyed := u.withoutTopic } }))
      · apply Triple.modify
        rintro _ rfl
        simp [Updating.withoutTopic, htopic]
      · exact topicUpdated_of_openTopic fun _ => hrenamed
    · intro hsame
      apply Triple.pure
      rintro u rfl
      exact .same htopic (not_not.mp hsame)

theorem TopicUpdated.relid_eq {tableName : String} {err : Option MapperError}
    (h : TopicUpdated lib topicPrefix tableName u err u') :
    u'.table.relid = u.table.relid ∧ u'.outside.registered = u.outside.registered := by
  cases h <;> exact ⟨rfl, rfl⟩

/-- An update stays with its entry. -/
theorem relid_of_updateTable {tableName : String} {keySchemaJson : Option Bytes}
    {rowSchemaJson : Bytes} :
    Triple (· = u) (updateTable lib registry topicPrefix tableName keySchemaJson rowSchemaJson)
      (fun _ u' => u'.table.relid = u.table.relid) (fun _ u' => u'.table.relid = u.table.relid) := by
  have hschema (isKey : Bool) (schemaJson : Option Bytes) :
      Triple (fun u' => u'.table.relid = u.table.relid)
        (tableMetadataUpdateSchema lib registry isKey schemaJson)
        (fun _ u' => u'.table.relid = u.table.relid) (fun _ u' => u'.table.relid = u.table.relid) :=
    updateSchema_keeps fun _ _ h hrelid => h.relid.trans hrelid
  apply Triple.seq (Q := fun _ u' => u'.table.relid = u.table.relid)
  · exact topicUpdated_of_updateTopic.conseq (fun _ h => h) (fun _ _ h => h.relid_eq.1)
      (fun _ _ h => h.relid_eq.1)
  · exact Triple.seq (hschema true keySchemaJson) (hschema false (some rowSchemaJson))

end

/-! ## §3 — One entry for each table -/

section

variable {lib : Libraries} {registry : Option SchemaRegistry} {topicPrefix : Option String}
  {mapper mapper' : TableMapper} {call : UpdateCall} {calls : List UpdateCall}

/-- The entry that a call updates: the one found, or a new one. -/
def UpdateCall.start (call : UpdateCall) (mapper : TableMapper) : Updating :=
  ⟨(tableMapperLookup mapper call.relid).getD (tableMetadataNew call.relid), mapper.outside⟩

theorem UpdateCall.start_relid (call : UpdateCall) (mapper : TableMapper) :
    (call.start mapper).table.relid = call.relid := by
  unfold UpdateCall.start
  cases hlookup : tableMapperLookup mapper call.relid with
  | none => rfl
  | some table => exact Keyed.key_of_find hlookup

/-- What the steps on the entry do, `table_mapper_update` does in its place. -/
theorem perform_rule {Q : Unit → TableMapper → Prop} {E : MapperError → TableMapper → Prop}
    (h : Triple (· = call.start mapper)
      (updateTable lib mapper.registry mapper.topicPrefix call.announcement.tableName
        call.announcement.keySchemaJson call.announcement.rowSchemaJson)
      (fun v u => Q v (mapper.store u)) (fun e u => E e (mapper.store u))) :
    Triple (· = mapper) (call.perform lib) Q E := by
  rintro mapper rfl
  have hstart := h (call.start mapper) rfl
  simp only [UpdateCall.perform, tableMapperUpdate]
  cases hrun : updateTable lib mapper.registry mapper.topicPrefix call.announcement.tableName
      call.announcement.keySchemaJson call.announcement.rowSchemaJson (call.start mapper) with
  | ok v u =>
    rw [hrun] at hstart
    simp only [UpdateCall.start] at hrun
    rw [hrun]
    exact hstart
  | error e u =>
    rw [hrun] at hstart
    simp only [UpdateCall.start] at hrun
    rw [hrun]
    exact hstart

/-- The entries of the other tables are as they were. -/
def OthersStay (relid : Oid) (mapper mapper' : TableMapper) : Prop :=
  mapper'.tables.filter (TableMetadata.relid · ≠ relid) =
    mapper.tables.filter (TableMetadata.relid · ≠ relid)

/-- No two entries have the same relid. -/
def TableMapper.Distinct (mapper : TableMapper) : Prop := (mapper.tables.map TableMetadata.relid).Nodup

/-- **An update leaves the other tables alone, and the relids distinct**, also when it fails. -/
theorem othersStay_of_perform (hmapper : mapper.Distinct) :
    Triple (· = mapper) (call.perform lib)
      (fun _ mapper' => OthersStay call.relid mapper mapper' ∧ mapper'.Distinct)
      (fun _ mapper' => OthersStay call.relid mapper mapper' ∧ mapper'.Distinct) := by
  have hstored (u : Updating) (hu : u.table.relid = (call.start mapper).table.relid) :
      OthersStay call.relid mapper (mapper.store u) ∧ (mapper.store u).Distinct := by
    rw [call.start_relid] at hu
    refine ⟨?_, Keyed.nodup_put rfl hmapper⟩
    rw [← hu]
    exact Keyed.filter_put rfl mapper.tables
  apply perform_rule
  exact relid_of_updateTable.conseq (fun _ h => h) (fun _ => hstored) (fun _ => hstored)

/-- There is room in the array for the pointers to all entries. -/
structure TableMapper.Fits (mapper : TableMapper) : Prop where
  pos : 0 < mapper.capacity
  le : mapper.tables.length ≤ mapper.capacity

theorem TableMapper.Fits.store (h : mapper.Fits) (u : Updating) : (mapper.store u).Fits := by
  obtain ⟨hpos, hle⟩ := h
  -- a table that is not found makes the list longer by one
  obtain ⟨rest, hbefore, hafter⟩ := Keyed.exists_perm_put TableMetadata.relid u.table.relid mapper.tables
  have hlength := hbefore.length_eq
  have hlength' := (hafter u.table).length_eq
  rw [List.length_append] at hlength
  rw [List.length_cons] at hlength'
  suffices hroom : 0 < capacityFor mapper u.table.relid ∧
      (Keyed.put TableMetadata.relid u.table.relid u.table mapper.tables).length ≤
        capacityFor mapper u.table.relid from ⟨hroom.1, hroom.2⟩
  rw [capacityFor, tableMapperLookup]
  cases hfind : Keyed.find TableMetadata.relid u.table.relid mapper.tables with
  | some table =>
    rw [hfind, Option.toList_some, List.length_singleton] at hlength
    simp only
    omega
  | none =>
    rw [hfind, Option.toList_none, List.length_nil] at hlength
    simp only
    split
    · omega
    · omega

/-- An update keeps the room, also when it fails. -/
theorem fits_of_perform (h : mapper.Fits) :
    Triple (· = mapper) (call.perform lib) (fun _ => TableMapper.Fits) (fun _ => TableMapper.Fits) := by
  apply perform_rule
  exact relid_of_updateTable.conseq (fun _ h => h) (fun _ u _ => h.store u) (fun _ u _ => h.store u)

theorem updated_eq_some : updated lib mapper call = some mapper' ↔
    call.perform lib mapper = .ok () mapper' := by
  unfold updated
  cases call.perform lib mapper with
  | ok v t => simp
  | error e t => simp

/-- **`Mapped lib calls mapper`** — each table that was updated has the entry its last update asked for. -/
structure Mapped (lib : Libraries) (calls : List UpdateCall) (mapper : TableMapper) : Prop where
  distinct : mapper.Distinct
  unknown : ∀ relid, lastUpdate relid calls = none → tableMapperLookup mapper relid = none
  known : ∀ relid a, lastUpdate relid calls = some a →
    ∃ table, tableMapperLookup mapper relid = some table ∧ mapper.Describes lib table a

theorem Mapped.describes_of_lookup (h : Mapped lib calls mapper) {relid : Oid} {table : TableMetadata}
    (hlookup : tableMapperLookup mapper relid = some table) :
    ∃ a, lastUpdate relid calls = some a ∧ mapper.Describes lib table a := by
  cases hlast : lastUpdate relid calls with
  | none =>
    rw [h.unknown relid hlast] at hlookup
    cases hlookup
  | some a =>
    obtain ⟨table', hlookup', hdescribes⟩ := h.known relid a hlast
    obtain rfl : table' = table := Option.some.inj (hlookup'.symm.trans hlookup)
    exact ⟨a, rfl, hdescribes⟩

theorem Mapped.snoc (h : Mapped lib calls mapper) (hstep : updated lib mapper call = some mapper') :
    Mapped lib (calls ++ [call]) mapper' := by
  have hperform := updated_eq_some.mp hstep
  have hprev (table : TableMetadata) (hlookup : tableMapperLookup mapper call.relid = some table) :
      ∃ a', mapper.Describes lib table a' := by
    obtain ⟨a', -, ha'⟩ := h.describes_of_lookup hlookup
    exact ⟨a', ha'⟩
  obtain ⟨table, hupdated⟩ := tableMapperUpdate_eq_ok hprev hperform
  refine ⟨((othersStay_of_perform h.distinct).of_ok rfl hperform).2, ?_, ?_⟩
  · intro relid hlast
    rw [lastUpdate_snoc] at hlast
    rw [hupdated.lookup]
    split at hlast
    · cases hlast
    · case isFalse hrelid =>
      rw [if_neg hrelid]
      exact h.unknown relid hlast
  · intro relid a hlast
    rw [lastUpdate_snoc] at hlast
    rw [hupdated.lookup]
    split at hlast
    · case isTrue hrelid =>
      cases hlast
      exact ⟨table, if_pos hrelid, hupdated.describes⟩
    · case isFalse hrelid =>
      obtain ⟨other, hlookup, hdescribes⟩ := h.known relid a hlast
      exact ⟨other, (if_neg hrelid).trans hlookup, hupdated.describes_other hdescribes⟩

theorem mapped_of_run
    (hrun : run (updated lib) (tableMapperNew registry topicPrefix) calls = some mapper) :
    Mapped lib calls mapper := by
  apply run_rule (P := Mapped lib) ?_ ?_ hrun
  · exact ⟨List.nodup_nil, fun _ _ => rfl, nofun⟩
  · exact fun _ _ _ _ _ ih hstep => ih.snoc hstep

theorem fits_of_run
    (hrun : run (updated lib) (tableMapperNew registry topicPrefix) calls = some mapper) : mapper.Fits := by
  apply run_rule (P := fun _ mapper => mapper.Fits) ⟨Nat.succ_pos 15, Nat.zero_le 16⟩ ?_ hrun
  exact fun _ _ _ _ _ ih hstep => (fits_of_perform ih).of_ok rfl (updated_eq_some.mp hstep)

end

/-! ## §4 — Repeating an update -/

section

variable {lib : Libraries} {registry : Option SchemaRegistry} {topicPrefix : Option String}
  {u : Updating} {isKey : Bool} {schemaJson : Option Bytes}

/-- A schema text has one id. -/
theorem HasId.unique {avro : Libavro} {registered : List (Bytes × Int32)} {id id' : Int32}
    (hsame : SameIds avro registered) (h : HasId registered schemaJson id)
    (h' : HasId registered schemaJson id') : id = id' := by
  cases schemaJson with
  | none => exact h.trans h'.symm
  | some text =>
    cases text with
    | nil => exact h.trans h'.symm
    | cons b text => exact (hsame _ h _ h').mpr rfl

/-- The entry as it is, after the registry was asked again. -/
def Updating.asked (u : Updating) (registered : List (Bytes × Int32)) : Updating :=
  { u with outside := { u.outside with registered } }

/-- The part of `table_metadata_update_schema` after the registry was asked. -/
def storeSchema (lib : Libraries) (isKey : Bool) (schemaJson : Option Bytes)
    (prevSchemaId schemaId : Int32) : UpdateM Unit :=
  if prevSchemaId = schemaIdMissing ∨ prevSchemaId ≠ schemaId then do
    let schema ← parseSchema lib isKey schemaJson
    modifyTable fun table => table.setSchema isKey schema
  else pure ()

theorem registered_of_storeSchema {prevSchemaId schemaId : Int32} {registered : List (Bytes × Int32)} :
    Triple (fun u => u.outside.registered = registered)
      (storeSchema lib isKey schemaJson prevSchemaId schemaId)
      (fun _ u => u.outside.registered = registered) (fun _ u => u.outside.registered = registered) := by
  apply Triple.ite
  · intro _
    apply parseSchema_keeps.bind
    exact fun _ => Triple.modify fun _ h => h
  · exact fun _ => Triple.pure fun _ h => h

theorem parseSchema_of_schemaOfText {schema : Option Schema}
    (h : schemaOfText lib.avro schemaJson = some schema) :
    parseSchema lib isKey schemaJson u = .ok schema u := by
  cases schemaJson with
  | none =>
    cases h
    rfl
  | some text =>
    obtain ⟨parsed, hparsed, rfl⟩ := Option.map_eq_some_iff.mp h
    rw [parseSchema, hparsed]
    rfl

/-- The schema that is stored already is stored again, or not at all. -/
theorem storeSchema_again {prevSchemaId schemaId : Int32}
    (h : schemaOfText lib.avro schemaJson = some (u.table.schema isKey)) :
    storeSchema lib isKey schemaJson prevSchemaId schemaId u = .ok () u := by
  have hset : { u with table := u.table.setSchema isKey (u.table.schema isKey) } = u := by
    cases isKey <;> rfl
  unfold storeSchema
  split
  · rw [bind_eq_ok]
    refine ⟨u.table.schema isKey, u, parseSchema_of_schemaOfText h, ?_⟩
    rw [modifyTable, modify_eq_ok, hset]
  · rfl

/-- The request, once it is known what comes back. -/
theorem requestSchemaId_of_answer (lib : Libraries) (registry : SchemaRegistry) (isKey : Bool)
    (schemaJson : Option Bytes) {topic : Topic} (htopic : u.table.topic = some topic) :
    requestSchemaId lib registry isKey schemaJson u =
      match schemaRegistryRequest lib.http registry u.outside.registered.length topic.name isKey
          schemaJson with
      | .error err => .error (.register isKey err) u
      | .ok answer => .ok (answer.getD schemaIdMissing)
          ⟨u.table.setSchemaId isKey (answer.getD schemaIdMissing),
            { u.outside with
              registered := u.outside.registered ++ answer.toList.map (schemaJson.getD [], ·) }⟩ := by
  obtain ⟨⟨relid, tableName, topic', keyId, key, rowId, row⟩, outside⟩ := u
  obtain rfl : topic' = some topic := htopic
  dsimp only [requestSchemaId, bind, EStateM.bind, get, getThe, MonadStateOf.get, EStateM.get]
  cases schemaRegistryRequest lib.http registry outside.registered.length topic.name isKey schemaJson with
  | error err => rfl
  | ok answer => rfl

/-- **The registry is asked for the id of a schema that the entry has**: it gives an error, and the entry
is as it was, or it answers. -/
theorem updateSchema_again {topic : Topic} (htopic : u.table.topic = some topic)
    (hkept : Kept lib registry u.outside.registered schemaJson (u.table.schemaId isKey)
      (u.table.schema isKey)) :
    (registry.isSome ∧ ∃ err, tableMetadataUpdateSchema lib registry isKey schemaJson u =
        .error (.register isKey err) u) ∨
      ∃ registered, u.outside.registered ⊆ registered ∧
        (endState (tableMetadataUpdateSchema lib registry isKey schemaJson) u).outside.registered =
          registered ∧
        (SameIds lib.avro registered →
          tableMetadataUpdateSchema lib registry isKey schemaJson u = .ok () (u.asked registered)) := by
  have hsplit (u₁ : Updating) (id : Int32)
      (hid : newSchemaId lib registry isKey schemaJson u = .ok id u₁) :
      tableMetadataUpdateSchema lib registry isKey schemaJson u =
        storeSchema lib isKey schemaJson (u.table.schemaId isKey) id u₁ := by
    show EStateM.bind (newSchemaId lib registry isKey schemaJson) _ u = _
    rw [EStateM.bind, hid]
    rfl
  cases registry with
  | none =>
    right
    have hrun := hsplit u schemaIdMissing rfl
    refine ⟨u.outside.registered, fun _ hmem => hmem, ?_, ?_⟩
    · rw [endState, hrun]
      exact registered_of_storeSchema.of_endState rfl
    · intro hsame
      exact hrun.trans (storeSchema_again (hkept.schema hsame))
  | some registry =>
    have hrequest := requestSchemaId_of_answer lib registry isKey schemaJson htopic
    cases hanswer : schemaRegistryRequest lib.http registry u.outside.registered.length topic.name
        isKey schemaJson with
    | error err =>
      left
      refine ⟨rfl, err, ?_⟩
      show EStateM.bind (requestSchemaId lib registry isKey schemaJson) _ u = _
      rw [hanswer] at hrequest
      rw [EStateM.bind, hrequest]
    | ok answer =>
      right
      rw [hanswer] at hrequest
      have hrun := hsplit _ _ hrequest
      refine ⟨u.outside.registered ++ answer.toList.map (schemaJson.getD [], ·),
        List.subset_append_left _ _, ?_, ?_⟩
      · rw [endState, hrun]
        exact registered_of_storeSchema.of_endState rfl
      · intro hsame
        -- the answer is the id that the entry has
        have hid : answer.getD schemaIdMissing = u.table.schemaId isKey :=
          HasId.unique hsame (hasId_of_request _ hanswer)
            ((hkept.id rfl).mono (List.subset_append_left _ _))
        rw [hrun, hid, TableMetadata.setSchemaId_schemaId]
        exact storeSchema_again (hkept.schema (hsame.mono (List.subset_append_left _ _)))

/-- A topic update with the name that the entry has does nothing. -/
theorem updateTopic_again {tableName : String} {topic : Topic} (htopic : u.table.topic = some topic)
    (hname : u.table.tableName = some tableName) :
    tableMetadataUpdateTopic lib topicPrefix tableName u = .ok () u := by
  obtain ⟨⟨relid, tableName', topic', keyId, key, rowId, row⟩, outside⟩ := u
  obtain rfl : topic' = some topic := htopic
  obtain rfl : tableName' = some tableName := hname
  dsimp only [tableMetadataUpdateTopic, bind, EStateM.bind, get, getThe, MonadStateOf.get, EStateM.get]
  rw [if_neg (not_not.mpr rfl)]
  rfl

theorem registered_subset_endState (u : Updating) :
    u.outside.registered ⊆
      (endState (tableMetadataUpdateSchema lib registry isKey schemaJson) u).outside.registered :=
  (schemasOnly_of_updateSchema.of_endState (SchemasOnly.refl u)).registered

/-- The two schema updates of `table_mapper_update`. -/
def updateSchemas (lib : Libraries) (registry : Option SchemaRegistry) (a : Announcement) : UpdateM Unit := do
  tableMetadataUpdateSchema lib registry true a.keySchemaJson
  tableMetadataUpdateSchema lib registry false (some a.rowSchemaJson)

/-- **The schemas that the entry has are updated with themselves.** -/
theorem updateSchemas_again {a : Announcement}
    (h : Described lib registry topicPrefix u.outside.registered u.table a)
    (hsame : SameIds lib.avro (endState (updateSchemas lib registry a) u).outside.registered) :
    ∃ registered, updateSchemas lib registry a u = .ok () (u.asked registered) ∨
      registry.isSome ∧ ∃ isKey err, updateSchemas lib registry a u =
        .error (.register isKey err) (u.asked registered) := by
  obtain ⟨topic, htopic, -⟩ := h.topic
  have hkeyKept : Kept lib registry u.outside.registered a.keySchemaJson (u.table.schemaId true)
      (u.table.schema true) := h.key
  rcases updateSchema_again htopic hkeyKept with
    ⟨hregistry, err, hkey⟩ | ⟨registered, hsub, hend, hagain⟩
  · exact ⟨u.outside.registered, .inr ⟨hregistry, true, err, bind_of_error hkey⟩⟩
  · -- what the registry has answered for the key, it has answered at the end
    have hsub' : registered ⊆ (endState (updateSchemas lib registry a) u).outside.registered := by
      rw [← hend, updateSchemas, endState_bind]
      cases hkey : tableMetadataUpdateSchema lib registry true a.keySchemaJson u with
      | ok v u₁ =>
        rw [endState_of_ok hkey]
        exact registered_subset_endState u₁
      | error e u₁ =>
        rw [endState_of_error hkey]
        exact fun _ hmem => hmem
    have hkey := hagain (hsame.mono hsub')
    have hrowKept : Kept lib registry (u.asked registered).outside.registered (some a.rowSchemaJson)
        ((u.asked registered).table.schemaId false) ((u.asked registered).table.schema false) :=
      h.row.mono hsub
    rcases updateSchema_again (u := u.asked registered) htopic hrowKept with
      ⟨hregistry, err, hrow⟩ | ⟨registered', -, hend', hagain'⟩
    · exact ⟨registered, .inr ⟨hregistry, false, err, (bind_of_ok hkey).trans hrow⟩⟩
    · rw [updateSchemas, endState_bind, hkey] at hsame
      rw [hend'] at hsame
      exact ⟨registered', .inl ((bind_of_ok hkey).trans (hagain' hsame))⟩

theorem updateTable_again {a : Announcement}
    (h : Described lib registry topicPrefix u.outside.registered u.table a) :
    updateTable lib registry topicPrefix a.tableName a.keySchemaJson a.rowSchemaJson u =
      updateSchemas lib registry a u := by
  obtain ⟨topic, htopic, -⟩ := h.topic
  exact bind_of_ok (updateTopic_again htopic h.tableName)

/-- The mapper as it is, after the registry was asked again. -/
def TableMapper.asked (mapper : TableMapper) (registered : List (Bytes × Int32)) : TableMapper :=
  { mapper with outside := { mapper.outside with registered } }

/-- The update of a table that the mapper has, if the first step changes nothing. -/
theorem perform_of_updateSchemas {mapper : TableMapper} {call : UpdateCall} {table : TableMetadata}
    (hlookup : tableMapperLookup mapper call.relid = some table)
    (hdescribes : mapper.Describes lib table call.announcement) {u : Updating} :
    (updateSchemas lib mapper.registry call.announcement ⟨table, mapper.outside⟩ = .ok () u →
        call.perform lib mapper = .ok () (mapper.store u)) ∧
      ∀ err, updateSchemas lib mapper.registry call.announcement ⟨table, mapper.outside⟩ = .error err u →
        call.perform lib mapper = .error err (mapper.store u) := by
  rw [← updateTable_again (u := ⟨table, mapper.outside⟩) hdescribes]
  constructor
  · intro h
    simp only [UpdateCall.perform, tableMapperUpdate, hlookup, Option.getD_some, h]
  · intro err h
    simp only [UpdateCall.perform, tableMapperUpdate, hlookup, Option.getD_some, h]

/-- **Repeating the last update of a table changes nothing**: no topic is opened or closed, and every
entry stays as it is.  It fails only if the registry does. -/
theorem perform_again {mapper : TableMapper} {call : UpdateCall} {table : TableMetadata}
    (hlookup : tableMapperLookup mapper call.relid = some table)
    (hdescribes : mapper.Describes lib table call.announcement)
    (hsame : SameIds lib.avro (endState (call.perform lib) mapper).outside.registered) :
    ∃ registered, call.perform lib mapper = .ok () (mapper.asked registered) ∨
      mapper.registry.isSome ∧ ∃ isKey err, call.perform lib mapper =
        .error (.register isKey err) (mapper.asked registered) := by
  -- the entry is written over itself
  have hstore (registered : List (Bytes × Int32)) :
      mapper.store (Updating.asked ⟨table, mapper.outside⟩ registered) = mapper.asked registered := by
    have hrelid : table.relid = call.relid := Keyed.key_of_find hlookup
    have hput : Keyed.put TableMetadata.relid table.relid table mapper.tables = mapper.tables := by
      rw [hrelid]
      exact Keyed.put_of_find hlookup
    have hcapacity : capacityFor mapper table.relid = mapper.capacity := by rw [capacityFor, hrelid, hlookup]
    simp only [TableMapper.store, Updating.asked, TableMapper.asked, hput, hcapacity]
  have hend : (endState (call.perform lib) mapper).outside =
      (endState (updateSchemas lib mapper.registry call.announcement)
        ⟨table, mapper.outside⟩).outside := by
    cases hrun : updateSchemas lib mapper.registry call.announcement ⟨table, mapper.outside⟩ with
    | ok v u =>
      rw [endState_of_ok hrun, endState_of_ok ((perform_of_updateSchemas hlookup hdescribes).1 hrun)]
      rfl
    | error err u =>
      rw [endState_of_error hrun,
        endState_of_error ((perform_of_updateSchemas hlookup hdescribes).2 err hrun)]
      rfl
  rw [hend] at hsame
  obtain ⟨registered, hrun | ⟨hregistry, isKey, err, hrun⟩⟩ :=
    updateSchemas_again (u := ⟨table, mapper.outside⟩) hdescribes hsame
  · refine ⟨registered, .inl ?_⟩
    rw [(perform_of_updateSchemas hlookup hdescribes).1 hrun, hstore]
  · refine ⟨registered, .inr ⟨hregistry, isKey, err, ?_⟩⟩
    rw [(perform_of_updateSchemas hlookup hdescribes).2 _ hrun, hstore]

/-! ## §5 — The mapper after any updates -/

/-- How the mapper was made stays. -/
theorem made_of_perform {mapper : TableMapper} {call : UpdateCall} :
    Triple (· = mapper) (call.perform lib)
      (fun _ mapper' => mapper'.registry = mapper.registry ∧ mapper'.topicPrefix = mapper.topicPrefix)
      (fun _ mapper' => mapper'.registry = mapper.registry ∧ mapper'.topicPrefix = mapper.topicPrefix) := by
  apply perform_rule
  exact relid_of_updateTable.conseq (fun _ h => h) (fun _ _ _ => ⟨rfl, rfl⟩) (fun _ _ _ => ⟨rfl, rfl⟩)

/-- Without a registry none answers. -/
theorem registered_of_perform {mapper : TableMapper} {call : UpdateCall} (hregistry : mapper.registry = none)
    (hregistered : mapper.outside.registered = []) :
    Triple (· = mapper) (call.perform lib) (fun _ mapper' => mapper'.outside.registered = [])
      (fun _ mapper' => mapper'.outside.registered = []) := by
  have hschema (isKey : Bool) (schemaJson : Option Bytes) :
      Triple (fun u => u.outside.registered = [])
        (tableMetadataUpdateSchema lib none isKey schemaJson)
        (fun _ u => u.outside.registered = []) (fun _ u => u.outside.registered = []) := by
    apply Triple.get
    intro u hu
    exact registered_of_storeSchema.pre fun _ h => h ▸ hu
  have htopic {tableName : String} {err : Option MapperError} {u : Updating}
      (h : TopicUpdated lib mapper.topicPrefix tableName (call.start mapper) err u) :
      u.outside.registered = [] := h.relid_eq.2.trans hregistered
  apply perform_rule
  rw [hregistry]
  apply Triple.seq (Q := fun _ u => u.outside.registered = [])
  · exact topicUpdated_of_updateTopic.conseq (fun _ h => h) (fun _ _ => htopic) (fun _ _ => htopic)
  · exact Triple.seq (hschema true _) (hschema false _)

theorem run_made {mapper : TableMapper} {calls : List UpdateCall}
    (hrun : run (updated lib) (tableMapperNew registry topicPrefix) calls = some mapper) :
    mapper.registry = registry ∧ mapper.topicPrefix = topicPrefix ∧
      (registry = none → mapper.outside.registered = []) := by
  apply run_rule (P := fun _ mapper => mapper.registry = registry ∧ mapper.topicPrefix = topicPrefix ∧
    (registry = none → mapper.outside.registered = [])) ⟨rfl, rfl, fun _ => rfl⟩ ?_ hrun
  rintro calls mapper call mapper' - ⟨hregistry, htopicPrefix, hregistered⟩ hstep
  have hperform := updated_eq_some.mp hstep
  obtain ⟨hregistry', htopicPrefix'⟩ := made_of_perform.of_ok rfl hperform
  refine ⟨hregistry'.trans hregistry, htopicPrefix'.trans htopicPrefix, ?_⟩
  intro hnone
  exact (registered_of_perform (hregistry.trans hnone) (hregistered hnone)).of_ok rfl hperform

theorem SameIds.nil (avro : Libavro) : SameIds avro [] := nofun

/-- The name of the topic of a table. -/
def prefixedName (topicPrefix : Option String) (tableName : String) : String :=
  match topicPrefix with
  | none => tableName
  | some topicPrefix => topicPrefix ++ "-" ++ tableName

theorem eq_prefixedName {tableName topicName : String}
    (h : topicNameFor topicPrefix tableName = .ok topicName) :
    topicName = prefixedName topicPrefix tableName := by
  cases topicPrefix with
  | none =>
    cases h
    rfl
  | some p =>
    simp only [topicNameFor] at h
    split at h
    · cases h
    · cases h
      rfl

/-- **`Latest lib topicPrefix a table`** — the entry has the name, the topic and the schemas of an
update. -/
structure Latest (lib : Libraries) (topicPrefix : Option String) (a : Announcement)
    (table : TableMetadata) : Prop where
  tableName : table.tableName = some a.tableName
  topic : ∃ topic, table.topic = some topic ∧ topic.name = prefixedName topicPrefix a.tableName
  keySchema : schemaOfText lib.avro a.keySchemaJson = some table.keySchema
  rowSchema : schemaOfText lib.avro (some a.rowSchemaJson) = some table.rowSchema

theorem latest_of_describes {mapper : TableMapper} {table : TableMetadata} {a : Announcement}
    (hsame : SameIds lib.avro mapper.outside.registered) (h : mapper.Describes lib table a) :
    Latest lib mapper.topicPrefix a table := by
  obtain ⟨topic, htopic, hname⟩ := h.topic
  exact ⟨h.tableName, ⟨topic, htopic, eq_prefixedName hname⟩, h.key.schema hsame, h.row.schema hsame⟩

/-- **The table mapper is a map from relids to the latest metadata.**  After any updates that succeed,
each relid has one entry, with name, topic and schemas of its last update; a relid that was never updated
has none.  A further update leaves the entries of all other relids alone, and one that repeats the last
update of its table leaves the whole mapper as it is. -/
theorem mapper_is_map {mapper : TableMapper} {calls : List UpdateCall}
    (hrun : run (updated lib) (tableMapperNew registry topicPrefix) calls = some mapper)
    (hsame : registry.isSome → SameIds lib.avro mapper.outside.registered) :
    mapper.Distinct ∧ mapper.tables.length ≤ mapper.capacity ∧
      (∀ relid, lastUpdate relid calls = none → tableMapperLookup mapper relid = none) ∧
      (∀ relid a, lastUpdate relid calls = some a →
        ∃ table, tableMapperLookup mapper relid = some table ∧ Latest lib topicPrefix a table) ∧
      (∀ call : UpdateCall, OthersStay call.relid mapper (endState (call.perform lib) mapper)) ∧
      ∀ call : UpdateCall, lastUpdate call.relid calls = some call.announcement →
        (registry.isSome → SameIds lib.avro (endState (call.perform lib) mapper).outside.registered) →
        ∃ registered, call.perform lib mapper = .ok () (mapper.asked registered) ∨
          registry.isSome ∧ ∃ isKey err, call.perform lib mapper =
            .error (.register isKey err) (mapper.asked registered) := by
  have hmapped := mapped_of_run hrun
  obtain ⟨hregistry, rfl, hregistered⟩ := run_made hrun
  have hsame₀ : SameIds lib.avro mapper.outside.registered := by
    cases registry with
    | some registry => exact hsame rfl
    | none => exact hregistered rfl ▸ SameIds.nil _
  refine ⟨hmapped.distinct, (fits_of_run hrun).le, hmapped.unknown, ?_, ?_, ?_⟩
  · intro relid a hlast
    obtain ⟨table, hlookup, hdescribes⟩ := hmapped.known relid a hlast
    exact ⟨table, hlookup, latest_of_describes hsame₀ hdescribes⟩
  · intro call
    exact ((othersStay_of_perform hmapped.distinct).of_endState rfl).1
  · intro call hlast hsame'
    obtain ⟨table, hlookup, hdescribes⟩ := hmapped.known call.relid call.announcement hlast
    have hsame₁ : SameIds lib.avro (endState (call.perform lib) mapper).outside.registered := by
      cases registry with
      | some registry => exact hsame' rfl
      | none =>
        rw [(registered_of_perform hregistry (hregistered rfl)).of_endState rfl]
        exact SameIds.nil _
    rw [← hregistry]
    exact perform_again hlookup hdescribes hsame₁

end

/-! Two tables, of which the first is renamed; then its update is repeated. -/

def usersRenamed : UpdateCall := ⟨16385, ⟨"people", some [107], [112]⟩⟩

def twoTableCalls : List UpdateCall :=
  [⟨16385, ⟨"users", some [107], [117]⟩⟩, ⟨16386, ⟨"users", none, [117]⟩⟩, usersRenamed]

theorem mapper_is_map_users :
    ∃ mapper, (run (updated letterConfig.lib)
          (tableMapperNew (some (schemaRegistrySetUrl "http://localhost:8081")) (some "test"))
          twoTableCalls = some mapper ∧
        SameIds letterSchemas mapper.outside.registered) ∧
      (∃ table, tableMapperLookup mapper 16385 = some table ∧
        Latest letterConfig.lib (some "test") usersRenamed.announcement table) ∧
      ∃ registered, usersRenamed.perform letterConfig.lib mapper = .ok () (mapper.asked registered) := by
  obtain ⟨mapper, mapper', hrun, hperform, hregistered, hregistered'⟩ :
      ∃ mapper mapper', run (updated letterConfig.lib)
          (tableMapperNew (some (schemaRegistrySetUrl "http://localhost:8081")) (some "test"))
          twoTableCalls = some mapper ∧
        usersRenamed.perform letterConfig.lib mapper = .ok () mapper' ∧
        mapper.outside.registered =
          [([107], 107), ([117], 117), ([117], 117), ([107], 107), ([112], 112)] ∧
        mapper'.outside.registered = mapper.outside.registered ++ [([107], 107), ([112], 112)] :=
    ⟨_, _, rfl, rfl, rfl, rfl⟩
  have hsame : SameIds letterSchemas mapper.outside.registered := by
    rw [hregistered]
    exact sameIds_letters (by decide)
  have hsame' : SameIds letterSchemas
      (endState (usersRenamed.perform letterConfig.lib) mapper).outside.registered := by
    rw [endState_of_ok hperform, hregistered', hregistered]
    exact sameIds_letters (by decide)
  obtain ⟨-, -, -, hlatest, -, hagain⟩ := mapper_is_map hrun fun _ => hsame
  refine ⟨mapper, ⟨hrun, hsame⟩, hlatest 16385 usersRenamed.announcement rfl, ?_⟩
  obtain ⟨registered, hok | ⟨-, isKey, err, herror⟩⟩ := hagain usersRenamed rfl fun _ => hsame'
  · exact ⟨registered, hok⟩
  · rw [hperform] at herror
    cases herror

end BottledWater.Kafka
