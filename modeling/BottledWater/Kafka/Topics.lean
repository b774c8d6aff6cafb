/-
# BottledWater.Kafka.Topics — which tables share a topic.

From the table in Postgres to the topic in Kafka: the record schema of the rows has the name of the
table, and its namespace in the namespace of the schema; the client takes the topic name from the name
of the record, and a prefix goes in front of it.  So tables with different names have different topics
and registry subjects, while the namespace of a table does not count (`topicName_eq_iff`): two tables of
one name in two namespaces share a topic (`topicName_shared`).
-/
import BottledWater.Kafka.SchemaIds

namespace BottledWater.Kafka

open BottledWater.Lib BottledWater.Lib.Avro BottledWater.Client BottledWater.Protocol BottledWater.Ext

/-! ## §1 — Frames as sequences of messages -/

section

variable {δ : Type} {conv : Conversions δ} {config : ProducerConfig}

theorem run_receive_of_processMessages {walPos : UInt64} {msgs : List Protocol.Message} {u : Unit} :
    ∀ {s t : Session Producer}, processMessages (Producer.callback config) config.lib.avro walPos
        (msgs.map Message.value) s = .ok u t →
      run (receive config) s (msgs.map (walPos, ·)) = some t := by
  induction msgs with
  | nil =>
    intro s t h
    obtain ⟨-, rfl⟩ := pure_eq_ok.mp h
    rfl
  | cons m msgs ih =>
    intro s t h
    simp only [List.map_cons, processMessages, bind_eq_ok] at h
    obtain ⟨_, s', hm, hmsgs⟩ := h
    have hreceive : receive config s (walPos, m) = some s' := by
      unfold receive
      rw [hm]
    rw [List.map_cons, run_cons, hreceive]
    exact ih hmsgs

/-- A run of server, client and producer is one of client and producer, on the messages of its frames. -/
theorem exists_received {session : Session Producer} {es : List (ReplicationEvent δ)}
    {s : Replication Producer}
    (hrun : run (Replication.step conv config.lib.avro (Producer.callback config))
      ⟨schemaCacheNew, session⟩ es = some s) :
    ∃ received, run (receive config) session received = some s.session := by
  apply run_rule (P := fun _ s => ∃ received, run (receive config) session received = some s.session)
    ⟨[], rfl⟩ ?_ hrun
  rintro es s e t _ ⟨received, hreceived⟩ hstep
  cases e with
  | startStreaming =>
    cases hstep
    exact ⟨received, hreceived⟩
  | change namespaces rel change walPos =>
    obtain ⟨msgs, -, hframe⟩ := Replication.step_change_eq_some.mp hstep
    refine ⟨received ++ msgs.map (walPos, ·), ?_⟩
    rw [run_append, hreceived]
    exact run_receive_of_processMessages hframe

/-! ## §2 — The topic of a table -/

/-- The name of the topic that the rows of a table go to. -/
def topicName (mapper : TableMapper) (relid : Oid) : Option String :=
  ((tableMapperLookup mapper relid).bind TableMetadata.topic).map Topic.name

/-- Different names stay different with a prefix. -/
theorem topicNameFor_injective { topicPrefix : Option String} {name name' topic : String}
    (h : topicNameFor topicPrefix name = .ok topic) (h' : topicNameFor topicPrefix name' = .ok topic) :
    name = name' := by
  cases topicPrefix with
  | none =>
    cases h
    cases h'
    rfl
  | some p =>
    simp only [topicNameFor] at h h'
    split at h
    · cases h
    · split at h'
      · cases h'
      · have heq : p ++ topicPrefixDelimiter ++ name = p ++ topicPrefixDelimiter ++ name' := by
          cases h
          exact (Except.ok.inj h').symm
        exact (String.append_right_inj _).mp heq

/-- **The topic of a table is that of its name when a row of it was last sent.** -/
theorem topicName_of_run (hdesc : ∀ a b, conv.equalTupleDescs a b = true → a.live = b.live)
    {registry : Option SchemaRegistry} {topicPrefix : Option String}
    {es : List (ReplicationEvent δ)} {s : Replication Producer}
    (hprint : ∀ e ∈ es, e.Printable conv config.lib.avro)
    (hrun : run (Replication.step conv config.lib.avro (Producer.callback config))
      ⟨schemaCacheNew, ⟨frameReaderNew, ⟨tableMapperNew registry topicPrefix, []⟩⟩⟩ es = some s)
    {relid : Oid} {namespaces : Namespaces} {rel : Table}
    (hlast : lastSome (tableAt relid) es = some (namespaces, rel)) :
    ∃ topic, topicName s.session.context.mapper relid = some topic ∧
      topicNameFor topicPrefix rel.relname = .ok topic := by
  obtain ⟨now, hnow, hannounced⟩ := run_announced hdesc hprint hrun relid namespaces rel hlast
  obtain ⟨received, hreceived⟩ := exists_received hrun
  cases run_tracked hreceived relid with
  | unknown _ hclient _ =>
    rw [hclient] at hannounced
    cases hannounced
  | @known a entry table _ hclient hmapper hname _ _ hdescribes =>
    rw [hclient, Option.some.injEq] at hannounced
    subst hannounced
    obtain ⟨topic, htopic, htopicName⟩ := hdescribes.topic
    rw [(run_stays hreceived).2, hname, name_of_schemaForTableRow hnow.row] at htopicName
    exact ⟨topic.name, by simp [topicName, hmapper, htopic], htopicName⟩

/-- **Tables share a topic exactly if they share a name.**  After any run, two tables have topics of the
same name, and the same registry subjects, exactly if their names were the same when a row of each was
last sent. -/
theorem topicName_eq_iff (hdesc : ∀ a b, conv.equalTupleDescs a b = true → a.live = b.live)
    {registryUrl topicPrefix : Option String} {producer : Producer}
    (hstart : startProducer config.outputFormat registryUrl topicPrefix = some producer)
    {es : List (ReplicationEvent δ)} {s : Replication Producer}
    (hprint : ∀ e ∈ es, e.Printable conv config.lib.avro)
    (hrun : run (Replication.step conv config.lib.avro (Producer.callback config))
      ⟨schemaCacheNew, ⟨frameReaderNew, producer⟩⟩ es = some s)
    {relid relid' : Oid} {namespaces namespaces' : Namespaces} {rel rel' : Table}
    (hlast : lastSome (tableAt relid) es = some (namespaces, rel))
    (hlast' : lastSome (tableAt relid') es = some (namespaces', rel')) :
    ∃ topic topic', topicName s.session.context.mapper relid = some topic ∧
      topicName s.session.context.mapper relid' = some topic' ∧
      (topic = topic' ↔ rel.relname = rel'.relname) ∧
      ∀ registry isKey, subjectUrl registry topic isKey = subjectUrl registry topic' isKey ↔
        rel.relname = rel'.relname := by
  obtain ⟨registry, rfl, -⟩ := exists_registry_of_start hstart
  obtain ⟨topic, htopic, hname⟩ := topicName_of_run hdesc hprint hrun hlast
  obtain ⟨topic', htopic', hname'⟩ := topicName_of_run hdesc hprint hrun hlast'
  have hiff : topic = topic' ↔ rel.relname = rel'.relname := by
    constructor
    · rintro rfl
      exact topicNameFor_injective hname hname'
    · intro h
      rw [h] at hname
      exact Except.ok.inj (hname.symm.trans hname')
  refine ⟨topic, topic', htopic, htopic', hiff, ?_⟩
  intro registry isKey
  rw [← hiff]
  simp [subjectUrl]

end

/-! Two tables of different names. -/

/-- A new row of a table `people`, whose schemas are those of the renamed table `users`. -/
def newPerson (id : Int64) : ReplicationEvent Int64 :=
  .change publicOnly { users "people" with relid := 16386 } (.insert idColumn ⟨[some id], none⟩) 6

theorem topicName_eq_iff_people :
    ∃ producer s, (startProducer .avro none (some "test") = some producer ∧
        run (Replication.step letters letterSchemas (Producer.callback letterConfig))
          ⟨schemaCacheNew, ⟨frameReaderNew, producer⟩⟩ [newUser "users" 1, newPerson 2] = some s) ∧
      ∃ topic topic', topicName s.session.context.mapper 16385 = some topic ∧
        topicName s.session.context.mapper 16386 = some topic' ∧
        (topic = topic' ↔ "users" = "people") ∧
        ∀ registry isKey, subjectUrl registry topic isKey = subjectUrl registry topic' isKey ↔
          "users" = "people" := by
  have hdesc : ∀ a b, letters.equalTupleDescs a b = true → a.live = b.live := by
    intro a b h
    rw [of_decide_eq_true h]
  have hprint : ∀ e ∈ [newUser "users" 1, newPerson 2], e.Printable letters letterSchemas := by
    simp only [List.forall_mem_cons]
    exact ⟨usersPrintable, peoplePrintable, List.forall_mem_nil _⟩
  obtain ⟨producer, hstart⟩ : ∃ producer,
      startProducer letterConfig.outputFormat none (some "test") = some producer := ⟨_, rfl⟩
  have hruns : (startProducer letterConfig.outputFormat none (some "test")).any (fun producer =>
      (run (Replication.step letters letterConfig.lib.avro (Producer.callback letterConfig))
        ⟨schemaCacheNew, ⟨frameReaderNew, producer⟩⟩ [newUser "users" 1, newPerson 2]).isSome) := by
    decide +kernel
  rw [hstart, Option.any_some, Option.isSome_iff_exists] at hruns
  obtain ⟨s, hrun⟩ := hruns
  have hlast : lastSome (tableAt 16385) [newUser "users" 1, newPerson 2] =
      some (publicOnly, users "users") := rfl
  have hlast' : lastSome (tableAt 16386) [newUser "users" 1, newPerson 2] =
      some (publicOnly, { users "people" with relid := 16386 }) := rfl
  exact ⟨producer, s, ⟨hstart, hrun⟩, topicName_eq_iff hdesc hstart hprint hrun hlast hlast'⟩

/-! Two tables of one name. -/

def twoNamespaces : Namespaces := fun relnamespace => if relnamespace = 2200 then "public" else "archive"

/-- A table `users` without a key, in the given namespace. -/
def usersIn (relid relnamespace : Oid) : Table :=
  { users "users" with relid, relnamespace, indexes := [] }

/-- The schemas of the two tables are known by two letters. -/
def twoUsersLetters : Conversions Int64 :=
  { letters with
    schemaToJson
      | .record _ ns _ => if ns = generatedSchemaNamespace ++ ".public" then [117] else [97]
      | _ => [] }

def twoUsersConfig : ProducerConfig :=
  { letterConfig with
    lib := { letterConfig.lib with
      avro := {
        schemaFromJson
          | [117] => some ((usersIn 16385 2200).schema twoNamespaces)
          | [97] => some ((usersIn 16386 16384).schema twoNamespaces)
          | _ => none
        valueRead := decode fun _ => failure } } }

def newUserIn (relid relnamespace : Oid) : ReplicationEvent Int64 :=
  .change twoNamespaces (usersIn relid relnamespace) (.insert idColumn ⟨[some 1], none⟩) 5

/-- **Two tables in one topic.**  A database with two tables `users`, one in the namespace `public` and
one in `archive`: both are announced with the name of their own namespace, and both go to the topic
`users`. -/
theorem topicName_shared :
    ∃ producer s, startProducer .avro none none = some producer ∧
      run (Replication.step twoUsersLetters twoUsersConfig.lib.avro (Producer.callback twoUsersConfig))
        ⟨schemaCacheNew, ⟨frameReaderNew, producer⟩⟩ [newUserIn 16385 2200, newUserIn 16386 16384] =
          some s ∧
      (∀ e ∈ [newUserIn 16385 2200, newUserIn 16386 16384],
        e.Printable twoUsersLetters twoUsersConfig.lib.avro) ∧
      topicName s.session.context.mapper 16385 = some "users" ∧
      topicName s.session.context.mapper 16386 = some "users" := by
  obtain ⟨producer, hstart⟩ : ∃ producer, startProducer .avro none none = some producer := ⟨_, rfl⟩
  have hruns : (startProducer .avro none none).any (fun producer =>
      (run (Replication.step twoUsersLetters twoUsersConfig.lib.avro (Producer.callback twoUsersConfig))
        ⟨schemaCacheNew, ⟨frameReaderNew, producer⟩⟩
        [newUserIn 16385 2200, newUserIn 16386 16384]).any fun s =>
          topicName s.session.context.mapper 16385 = some "users" ∧
            topicName s.session.context.mapper 16386 = some "users") := by
    decide +kernel
  rw [hstart, Option.any_some, Option.any_eq_true] at hruns
  obtain ⟨s, hrun, htopics⟩ := hruns
  refine ⟨producer, s, hstart, hrun, ?_, of_decide_eq_true htopics⟩
  simp only [List.forall_mem_cons]
  refine ⟨⟨?_, ?_⟩, ⟨?_, ?_⟩, List.forall_mem_nil _⟩
  · rintro _ ⟨⟩
    rfl
  · rintro _ ⟨⟩
  · rintro _ ⟨⟩
    rfl
  · rintro _ ⟨⟩

end BottledWater.Kafka
