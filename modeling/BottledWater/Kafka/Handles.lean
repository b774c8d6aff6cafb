/-
# BottledWater.Kafka.Handles — the topics that are opened, and how often they are closed.

Every handle that `rd_kafka_topic_new` returns belongs to one entry of the table mapper until it is
passed to `rd_kafka_topic_destroy`: by a rename, or by `table_mapper_free` when the process ends.  The
account of handles is balanced after every update (`Owned`), with one exception.  A rename destroys the
old topic first and then looks at the length of the new name; if the name with its prefix is too long,
the update fails and the entry still has the pointer to the old topic, which `table_mapper_free` destroys
once more (`destroyed_once_iff`, `renamed_topic_destroyed_twice`).
-/
import BottledWater.Kafka.Updates
import BottledWater.Lib.Ledger

namespace BottledWater.Kafka

open BottledWater.Lib BottledWater.Lib.Avro BottledWater.Client BottledWater.Protocol

/-! ## §1 — The end of the process -/

/-- `table_metadata_free`, as far as Kafka is concerned. -/
def tableMetadataFree (outside : Outside) (table : TableMetadata) : Outside :=
  match table.topic with
  | none => outside
  | some topic => { outside with destroyed := outside.destroyed ++ [topic] }

/-- `table_mapper_free`. -/
def tableMapperFree (mapper : TableMapper) : Outside :=
  mapper.tables.foldl tableMetadataFree mapper.outside

/-- The calls one after another, up to the first that fails: then the process ends. -/
def updateAll (lib : Libraries) (mapper : TableMapper) : List UpdateCall → TableMapper
  | [] => mapper
  | call :: calls =>
    match call.perform lib mapper with
    | .ok _ mapper' => updateAll lib mapper' calls
    | .error _ mapper' => mapper'

/-- The topics that the entries refer to. -/
def TableMapper.held (mapper : TableMapper) : List Topic :=
  mapper.tables.filterMap TableMetadata.topic

/-- An entry refers to a topic that was destroyed. -/
def TableMapper.Dangling (mapper : TableMapper) : Prop :=
  ∃ table ∈ mapper.tables, ∃ topic, table.topic = some topic ∧ topic ∈ mapper.outside.destroyed

theorem dangling_iff {mapper : TableMapper} :
    mapper.Dangling ↔ ∃ topic ∈ mapper.held, topic ∈ mapper.outside.destroyed := by
  constructor
  · rintro ⟨table, htable, topic, htopic, hdestroyed⟩
    exact ⟨topic, List.mem_filterMap.mpr ⟨table, htable, htopic⟩, hdestroyed⟩
  · rintro ⟨topic, hheld, hdestroyed⟩
    obtain ⟨table, htable, htopic⟩ := List.mem_filterMap.mp hheld
    exact ⟨table, htable, topic, htopic, hdestroyed⟩

theorem destroyed_of_free (mapper : TableMapper) :
    (tableMapperFree mapper).destroyed = mapper.outside.destroyed ++ mapper.held := by
  have hfold (tables : List TableMetadata) (outside : Outside) :
      (tables.foldl tableMetadataFree outside).destroyed =
        outside.destroyed ++ tables.filterMap TableMetadata.topic := by
    induction tables generalizing outside with
    | nil => simp
    | cons table tables ih =>
      rw [List.foldl_cons, ih, List.filterMap_cons, tableMetadataFree]
      cases table.topic with
      | none => rfl
      | some topic => exact List.append_assoc ..
  exact hfold mapper.tables mapper.outside

section

variable {lib : Libraries} {mapper mapper' : TableMapper} {call : UpdateCall} {calls : List UpdateCall}

/-- Calls that succeed are followed by the others. -/
theorem updateAll_append (h : run (updated lib) mapper calls = some mapper') (rest : List UpdateCall) :
    updateAll lib mapper (calls ++ rest) = updateAll lib mapper' rest := by
  induction calls generalizing mapper with
  | nil =>
    obtain rfl : mapper = mapper' := Option.some.inj h
    rfl
  | cons call calls ih =>
    obtain ⟨mapper₁, hcall, hcalls⟩ := Option.bind_eq_some_iff.mp h
    rw [List.cons_append, updateAll, updated_eq_some.mp hcall]
    exact ih hcalls

theorem updateAll_of_run (h : run (updated lib) mapper calls = some mapper') :
    updateAll lib mapper calls = mapper' := by
  have happend := updateAll_append h []
  rwa [List.append_nil] at happend

/-- After a call that fails there is no other. -/
theorem updateAll_append_of_none (h : run (updated lib) mapper calls = none) (rest : List UpdateCall) :
    updateAll lib mapper (calls ++ rest) = updateAll lib mapper calls := by
  induction calls generalizing mapper with
  | nil => cases h
  | cons call calls ih =>
    rw [run_cons] at h
    rw [List.cons_append, updateAll, updateAll]
    cases hcall : call.perform lib mapper with
    | error err mapper₁ => rfl
    | ok v mapper₁ =>
      rw [updated_eq_some.mpr hcall] at h
      exact ih h

theorem updateAll_singleton : updateAll lib mapper [call] = endState (call.perform lib) mapper := by
  rw [updateAll, endState]
  cases call.perform lib mapper with
  | ok v mapper₁ => rfl
  | error err mapper₁ => rfl

end

/-! ## §2 — The account of one entry -/

section

variable {lib : Libraries} {registry : Option SchemaRegistry} {topicPrefix : Option String}
  {u u' : Updating} {rest : List Topic} {tableName : String}

/-- The account of handles is balanced while an entry is updated and the others hold `rest`; handles are
numbered in the order in which they come. -/
structure OwnedWith (rest : List Topic) (u : Updating) : Prop where
  numbered : ∀ topic ∈ u.outside.topics, topic.handle < u.outside.topics.length
  balanced : Balanced u.outside.topics u.outside.destroyed (u.table.topic.toList ++ rest)

/-- The old topic is given back. -/
theorem OwnedWith.balanced_withoutTopic (h : OwnedWith rest u) :
    Balanced u.outside.topics u.withoutTopic rest := by
  have hbalanced := h.balanced
  unfold Updating.withoutTopic
  cases htopic : u.table.topic with
  | none =>
    rw [htopic] at hbalanced
    simpa using hbalanced
  | some topic =>
    rw [htopic] at hbalanced
    exact hbalanced.release

/-- A rename of an entry with a topic, to a name that is refused. -/
def RenamedTooLong (topicPrefix : Option String) (tableName : String) (u : Updating) : Prop :=
  u.table.topic.isSome ∧ u.table.tableName ≠ some tableName ∧
    ∃ err, topicNameFor topicPrefix tableName = .error err

/-- **A topic update keeps the account balanced**, unless it destroys the topic and keeps it. -/
theorem OwnedWith.topicUpdated {err : Option MapperError} (h : OwnedWith rest u)
    (hfits : ¬ RenamedTooLong topicPrefix tableName u)
    (hupdated : TopicUpdated lib topicPrefix tableName u err u') : OwnedWith rest u' := by
  cases hupdated with
  | same => exact h
  | @opened topicName hname =>
    refine ⟨?_, ?_⟩
    · intro topic hmem
      rw [List.length_append, List.length_singleton]
      rcases List.mem_append.mp hmem with hold | hnew
      · exact Nat.lt_succ_of_lt (h.numbered topic hold)
      · rw [List.mem_singleton.mp hnew]
        exact Nat.lt_succ_self _
    · -- the number of the new handle is larger than all that were given out
      refine h.balanced_withoutTopic.issue ?_
      intro hmem
      exact Nat.lt_irrefl _ (h.numbered _ hmem)
  | refused hname => exact ⟨h.numbered, h.balanced_withoutTopic⟩
  | @tooLong err hname hrenamed =>
    cases htopic : u.table.topic with
    | some topic =>
      have hsome : u.table.topic.isSome := by rw [htopic]; rfl
      exact absurd ⟨hsome, hrenamed hsome, err, hname⟩ hfits
    | none =>
      have hbalanced := h.balanced_withoutTopic
      refine ⟨h.numbered, ?_⟩
      simpa [htopic] using hbalanced

/-- The account stays balanced over all steps of an update. -/
theorem ownedWith_of_updateTable {keySchemaJson : Option Bytes} {rowSchemaJson : Bytes}
    (h : OwnedWith rest u) (hfits : ¬ RenamedTooLong topicPrefix tableName u) :
    Triple (· = u) (updateTable lib registry topicPrefix tableName keySchemaJson rowSchemaJson)
      (fun _ => OwnedWith rest) (fun _ => OwnedWith rest) := by
  have hschema (isKey : Bool) (schemaJson : Option Bytes) :
      Triple (OwnedWith rest) (tableMetadataUpdateSchema lib registry isKey schemaJson)
        (fun _ => OwnedWith rest) (fun _ => OwnedWith rest) := by
    apply updateSchema_keeps
    intro u u' hschemas hu
    refine ⟨?_, ?_⟩
    · rw [hschemas.topics]
      exact hu.numbered
    · rw [hschemas.topics, hschemas.destroyed, hschemas.topic]
      exact hu.balanced
  apply Triple.seq (Q := fun _ => OwnedWith rest)
  · exact topicUpdated_of_updateTopic.conseq (fun _ h => h) (fun _ _ => h.topicUpdated hfits)
      (fun _ _ => h.topicUpdated hfits)
  · exact Triple.seq (hschema true keySchemaJson) (hschema false (some rowSchemaJson))

end

/-! ## §3 — The account of the mapper -/

/-- The account of handles is balanced. -/
structure Owned (mapper : TableMapper) : Prop where
  numbered : ∀ topic ∈ mapper.outside.topics, topic.handle < mapper.outside.topics.length
  balanced : Balanced mapper.outside.topics mapper.outside.destroyed mapper.held

section

variable {lib : Libraries} {registry : Option SchemaRegistry} {topicPrefix : Option String}
  {mapper : TableMapper} {call : UpdateCall} {calls : List UpdateCall}

/-- The topics of the other entries while one is updated. -/
theorem exists_rest (mapper : TableMapper) (relid : Oid) :
    ∃ rest, mapper.held.Perm
        (((tableMapperLookup mapper relid).bind TableMetadata.topic).toList ++ rest) ∧
      ∀ u, u.table.relid = relid → (mapper.store u).held.Perm (u.table.topic.toList ++ rest) := by
  obtain ⟨rest, hfind, hput⟩ := Keyed.exists_perm_put TableMetadata.relid relid mapper.tables
  refine ⟨rest.filterMap TableMetadata.topic, ?_, ?_⟩
  · have hheld := hfind.filterMap TableMetadata.topic
    rw [List.filterMap_append] at hheld
    cases hlookup : tableMapperLookup mapper relid with
    | none =>
      rw [show Keyed.find TableMetadata.relid relid mapper.tables = none from hlookup] at hheld
      exact hheld
    | some table =>
      rw [show Keyed.find TableMetadata.relid relid mapper.tables = some table from hlookup] at hheld
      cases htopic : table.topic with
      | none => simpa [TableMapper.held, htopic] using hheld
      | some topic => simpa [TableMapper.held, htopic] using hheld
  · rintro u rfl
    have hheld := (hput u.table).filterMap TableMetadata.topic
    rw [List.filterMap_cons] at hheld
    cases htopic : u.table.topic with
    | none =>
      rw [htopic] at hheld
      exact hheld
    | some topic =>
      rw [htopic] at hheld
      exact hheld

/-- The account while a call is at work. -/
theorem Owned.start (h : Owned mapper) (call : UpdateCall) {rest : List Topic}
    (hheld : mapper.held.Perm
      (((tableMapperLookup mapper call.relid).bind TableMetadata.topic).toList ++ rest)) :
    OwnedWith rest (call.start mapper) := by
  refine ⟨h.numbered, ?_⟩
  have hbalanced := h.balanced.congr hheld
  unfold UpdateCall.start
  cases hlookup : tableMapperLookup mapper call.relid with
  | none =>
    rw [hlookup] at hbalanced
    exact hbalanced
  | some table =>
    rw [hlookup] at hbalanced
    exact hbalanced

/-- **An update keeps the account balanced**, whether it succeeds or fails. -/
theorem owned_of_perform (h : Owned mapper)
    (hfits : ¬ RenamedTooLong mapper.topicPrefix call.announcement.tableName (call.start mapper)) :
    Owned (endState (call.perform lib) mapper) := by
  obtain ⟨rest, hheld, hstore⟩ := exists_rest mapper call.relid
  have hstart := h.start call hheld
  -- the entry keeps its relid, so it is put back in its own place
  have hstored (u : Updating)
      (hu : OwnedWith rest u ∧ u.table.relid = (call.start mapper).table.relid) :
      Owned (mapper.store u) := by
    have hrelid : u.table.relid = call.relid := hu.2.trans (call.start_relid mapper)
    exact ⟨hu.1.numbered, hu.1.balanced.congr (hstore u hrelid).symm⟩
  have hend : Triple (· = mapper) (call.perform lib) (fun _ => Owned) (fun _ => Owned) := by
    apply perform_rule
    exact ((ownedWith_of_updateTable hstart hfits).and relid_of_updateTable).conseq (fun _ h => h)
      (fun _ => hstored) (fun _ => hstored)
  exact hend.of_endState rfl

/-- **The old topic stays in the entry although it is destroyed**: what a rename to a name that is too
long leaves behind. -/
theorem dangling_of_perform
    (hlong : RenamedTooLong mapper.topicPrefix call.announcement.tableName (call.start mapper)) :
    (endState (call.perform lib) mapper).Dangling := by
  obtain ⟨hsome, hrenamed, err, hname⟩ := hlong
  obtain ⟨topic, htopic⟩ := Option.isSome_iff_exists.mp hsome
  -- the topic update fails, so it is the last step
  have htopicStep : Triple (· = call.start mapper)
      (tableMetadataUpdateTopic lib mapper.topicPrefix call.announcement.tableName)
      (fun _ _ => False)
      (fun _ u => u.table.topic = some topic ∧ topic ∈ u.outside.destroyed) := by
    refine topicUpdated_of_updateTopic.conseq (fun _ h => h) ?_ ?_
    · rintro _ u (⟨-, hsame⟩ | hopened)
      · exact hrenamed hsame
      · rw [hname] at hopened
        cases hopened
    · intro e u hupdated
      cases hupdated with
      | refused hrefused =>
        rw [hname] at hrefused
        cases hrefused
      | tooLong => exact ⟨htopic, by simp [Updating.withoutTopic, htopic]⟩
  have hstored (u : Updating) (hu : u.table.topic = some topic ∧ topic ∈ u.outside.destroyed) :
      (mapper.store u).Dangling := by
    obtain ⟨_, -, hput⟩ := Keyed.exists_perm_put TableMetadata.relid u.table.relid mapper.tables
    exact ⟨u.table, (hput u.table).mem_iff.mpr List.mem_cons_self, topic, hu⟩
  have hend : Triple (· = mapper) (call.perform lib) (fun _ => TableMapper.Dangling)
      (fun _ => TableMapper.Dangling) := by
    apply perform_rule
    apply Triple.seq (Q := fun _ _ => False)
    · exact htopicStep.conseq (fun _ h => h) (fun _ _ h => h) (fun _ => hstored)
    · exact fun _ h => h.elim
  exact hend.of_endState rfl

/-! ## §4 — Whole runs -/

/-- **`RenamesTooLong topicPrefix before call`** — the call renames a table that was updated before, to
a name that does not fit with the prefix in front of it. -/
def RenamesTooLong (topicPrefix : Option String) (before : List UpdateCall) (call : UpdateCall) :
    Prop :=
  ∃ a p, lastUpdate call.relid before = some a ∧ a.tableName ≠ call.announcement.tableName ∧
    topicPrefix = some p ∧
    maxTopicLen ≤ (p ++ topicPrefixDelimiter ++ call.announcement.tableName).utf8ByteSize

theorem topicNameFor_eq_error {tableName : String} :
    (∃ err, topicNameFor topicPrefix tableName = .error err) ↔
      ∃ p, topicPrefix = some p ∧
        maxTopicLen ≤ (p ++ topicPrefixDelimiter ++ tableName).utf8ByteSize := by
  cases topicPrefix with
  | none => simp [topicNameFor, pure, Except.pure]
  | some p =>
    simp only [topicNameFor, Option.some.injEq]
    split
    · case isTrue hlong => exact ⟨fun _ => ⟨p, rfl, hlong⟩, fun _ => ⟨_, rfl⟩⟩
    · case isFalse hfits =>
      constructor
      · rintro ⟨err, ⟨⟩⟩
      · rintro ⟨p, rfl, hlong⟩
        exact absurd hlong hfits

/-- What the entry has is what the calls said. -/
theorem renamedTooLong_start_iff (h : Mapped lib calls mapper) :
    RenamedTooLong mapper.topicPrefix call.announcement.tableName (call.start mapper) ↔
      RenamesTooLong mapper.topicPrefix calls call := by
  constructor
  · rintro ⟨hsome, hrenamed, hlong⟩
    obtain ⟨p, hprefix, hlong⟩ := topicNameFor_eq_error.mp hlong
    cases hlookup : tableMapperLookup mapper call.relid with
    | none => simp [UpdateCall.start, hlookup, tableMetadataNew] at hsome
    | some table =>
      obtain ⟨a, hlast, hdescribes⟩ := h.describes_of_lookup hlookup
      refine ⟨a, p, hlast, ?_, hprefix, hlong⟩
      simpa [UpdateCall.start, hlookup, hdescribes.tableName] using hrenamed
  · rintro ⟨a, p, hlast, hrenamed, hprefix, hlong⟩
    obtain ⟨table, hlookup, hdescribes⟩ := h.known call.relid a hlast
    obtain ⟨topic, htopic, -⟩ := hdescribes.topic
    refine ⟨?_, ?_, topicNameFor_eq_error.mpr ⟨p, hprefix, hlong⟩⟩
    · simp [UpdateCall.start, hlookup, htopic]
    · simpa [UpdateCall.start, hlookup, hdescribes.tableName] using hrenamed

/-- No call of a run is such a rename. -/
def NoneTooLong (lib : Libraries) (registry : Option SchemaRegistry) (topicPrefix : Option String)
    (calls : List UpdateCall) : Prop :=
  ∀ before call after, calls = before ++ call :: after →
    (run (updated lib) (tableMapperNew registry topicPrefix) before).isSome →
    ¬ RenamesTooLong topicPrefix before call

theorem NoneTooLong.of_append {rest : List UpdateCall}
    (h : NoneTooLong lib registry topicPrefix (calls ++ rest)) :
    NoneTooLong lib registry topicPrefix calls := by
  rintro before call after rfl
  exact h before call (after ++ rest) (by rw [List.append_assoc, List.cons_append])

/-- **The account stays balanced over a whole run**, to its end or its first failure. -/
theorem owned_of_updateAll (h : NoneTooLong lib registry topicPrefix calls) :
    Owned (updateAll lib (tableMapperNew registry topicPrefix) calls) := by
  induction calls using List.reverseRecOn with
  | nil => exact ⟨nofun, Balanced.nil⟩
  | append_singleton calls call ih =>
    have hcalls := ih h.of_append
    cases hrun : run (updated lib) (tableMapperNew registry topicPrefix) calls with
    | none =>
      rw [updateAll_append_of_none hrun]
      exact hcalls
    | some mapper =>
      -- the last call is made in the state that the others have led to
      rw [updateAll_of_run hrun] at hcalls
      rw [updateAll_append hrun, updateAll_singleton]
      apply owned_of_perform hcalls
      rw [renamedTooLong_start_iff (mapped_of_run hrun), (run_made hrun).2.1]
      exact h calls call [] rfl (by rw [hrun]; rfl)

theorem Owned.not_dangling (h : Owned mapper) : ¬ mapper.Dangling := by
  rw [dangling_iff]
  rintro ⟨topic, hheld, hdestroyed⟩
  exact h.balanced.not_released hheld hdestroyed

/-- **Handles are destroyed exactly once, unless a table is renamed to a name that is too long.**  Any
calls of `table_mapper_update` up to the first that fails, followed by `table_mapper_free`: every topic
that was opened is destroyed exactly once and no entry refers to a destroyed topic when a call returns,
exactly if no call renames a table that has a topic to a name that does not fit with its prefix. -/
theorem destroyed_once_iff (lib : Libraries) (registry : Option SchemaRegistry)
    (topicPrefix : Option String) (calls : List UpdateCall) :
    ((∀ topic ∈ (updateAll lib (tableMapperNew registry topicPrefix) calls).outside.topics,
        (tableMapperFree (updateAll lib (tableMapperNew registry topicPrefix) calls)).destroyed.count
          topic = 1) ∧
      ∀ before after, calls = before ++ after →
        ¬ (updateAll lib (tableMapperNew registry topicPrefix) before).Dangling) ↔
      NoneTooLong lib registry topicPrefix calls := by
  constructor
  · rintro ⟨-, hentries⟩ before call after rfl hrun hlong
    obtain ⟨mapper, hrun⟩ := Option.isSome_iff_exists.mp hrun
    have hend : updateAll lib (tableMapperNew registry topicPrefix) (before ++ [call]) =
        endState (call.perform lib) mapper := by
      rw [updateAll_append hrun, updateAll_singleton]
    refine hentries (before ++ [call]) after (by rw [List.append_assoc]; rfl) ?_
    rw [hend]
    apply dangling_of_perform
    rw [renamedTooLong_start_iff (mapped_of_run hrun), (run_made hrun).2.1]
    exact hlong
  · intro h
    refine ⟨?_, ?_⟩
    · intro topic hmem
      rw [destroyed_of_free]
      exact (owned_of_updateAll h).balanced.count_release_all hmem
    · rintro before after rfl
      exact (owned_of_updateAll h.of_append).not_dangling

end

/-! A table that is renamed under a long prefix. -/

/-- Kafka takes every topic, and there is no registry. -/
def plainLib : Libraries := ⟨letterSchemas, letterHttp, fun _ _ => true⟩

def longPrefix : String := String.ofList (List.replicate 250 'p')

/-- The topic of the table `users` under this prefix. -/
def usersTopic : Topic := ⟨0, longPrefix ++ "-" ++ "users"⟩

/-- The table `users` is announced, and then announced as `customers`. -/
def renameUsers : List UpdateCall :=
  [⟨16385, ⟨"users", none, [117]⟩⟩, ⟨16385, ⟨"customers", none, [117]⟩⟩]

/-- **A topic that is destroyed twice.**  With a prefix of 250 bytes the topic of `users` is opened, and
the name for `customers` is too long.  The rename has destroyed the topic of `users`, the entry still
refers to it, and `table_mapper_free` destroys it again. -/
theorem renamed_topic_destroyed_twice :
    ∃ mapper topic, updateAll plainLib (tableMapperNew none (some longPrefix)) renameUsers = mapper ∧
      mapper.outside.topics = [topic] ∧ mapper.Dangling ∧
      (tableMapperFree mapper).destroyed = [topic, topic] := by
  have hrun :
      (updateAll plainLib (tableMapperNew none (some longPrefix)) renameUsers).outside.topics =
          [usersTopic] ∧
        (updateAll plainLib (tableMapperNew none (some longPrefix)) renameUsers).outside.destroyed =
          [usersTopic] ∧
        (updateAll plainLib (tableMapperNew none (some longPrefix)) renameUsers).held =
          [usersTopic] := by
    decide +kernel
  obtain ⟨htopics, hdestroyed, hheld⟩ := hrun
  refine ⟨_, usersTopic, rfl, htopics, dangling_iff.mpr ⟨usersTopic, ?_, ?_⟩, ?_⟩
  · rw [hheld]
    exact List.mem_singleton_self _
  · rw [hdestroyed]
    exact List.mem_singleton_self _
  · rw [destroyed_of_free, hdestroyed, hheld]
    rfl

end BottledWater.Kafka
