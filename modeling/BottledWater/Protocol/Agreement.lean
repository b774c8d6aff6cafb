/-
# BottledWater.Protocol.Agreement — server and client agree on the schemas.

The server's schema cache and the client's schema list, run together: every call of the output plugin
makes a frame, and the client processes it.  Between two calls the catalog may change in any way, since
each call comes with the table and the names of the namespaces as they are then; at the end of the
snapshot the server starts again with an empty cache, while the client keeps its list.

The invariant is `Agree`: what the cache has for a table is what the client was last told.  A lookup
either finds the schemas of the table as it is now, or announces them in the same frame ahead of the row.
-/
import BottledWater.Ext.Server
import BottledWater.Lib.Trace
import BottledWater.Protocol.Delivery

namespace BottledWater.Protocol

open BottledWater.Lib BottledWater.Lib.Avro BottledWater.Client BottledWater.Ext

/-! ## §1 — The two sides together -/

section

variable {δ κ : Type}

/-- The row that a call of the plugin is about.  During the snapshot an insert comes with the descriptor
of the result set. -/
inductive Change (δ : Type) where
  | insert (tupdesc : TupleDesc) (newtuple : HeapTuple δ)
  | update (oldtuple : Option (HeapTuple δ)) (newtuple : HeapTuple δ)
  | delete (oldtuple : Option (HeapTuple δ))

/-- A call of the plugin. -/
def pluginCall (conv : Conversions δ) (namespaces : Namespaces) (cache : SchemaCache) (rel : Table) :
    Change δ → Except PluginError (SchemaCache × List Message)
  | .insert tupdesc newtuple => updateFrameWithInsert conv namespaces cache rel tupdesc newtuple
  | .update oldtuple newtuple => updateFrameWithUpdate conv namespaces cache rel oldtuple newtuple
  | .delete oldtuple => updateFrameWithDelete conv namespaces cache rel oldtuple

/-- The server's cache and the client. -/
structure Replication (κ : Type) where
  cache : SchemaCache
  session : Session κ

inductive ReplicationEvent (δ : Type) where
  /-- A row is changed, with the catalog as it is at that time, and the frame is processed. -/
  | change (namespaces : Namespaces) (rel : Table) (change : Change δ) (walPos : UInt64)
  /-- The snapshot is over: streaming begins with a cache of its own. -/
  | startStreaming

/-- A row reaches the client, or an error ends the run. -/
def Replication.step (conv : Conversions δ) (avro : Libavro) (on : Callback → κ → Int × κ)
    (s : Replication κ) : ReplicationEvent δ → Option (Replication κ)
  | .change namespaces rel change walPos =>
    match pluginCall conv namespaces s.cache rel change with
    | .error _ => none
    | .ok (cache, msgs) =>
      (buildFrame msgs).bind fun frame =>
        match processFrame on avro walPos frame s.session with
        | .ok _ session => some ⟨cache, session⟩
        | .error _ _ => none
  | .startStreaming => some { s with cache := schemaCacheNew }

/-- The schemas of the table survive being written as JSON by the server and read by the client. -/
def SchemasPrintable (conv : Conversions δ) (avro : Libavro) (namespaces : Namespaces) (rel : Table) :
    Prop :=
  (∀ rowSchema, schemaForTableRow namespaces rel.toRelation = .ok (some rowSchema) →
      avro.schemaFromJson (conv.schemaToJson rowSchema) = some rowSchema) ∧
    ∀ keySchema, schemaForTableKey namespaces rel = .ok (some keySchema) →
      avro.schemaFromJson (conv.schemaToJson keySchema) = some keySchema

def ReplicationEvent.Printable (conv : Conversions δ) (avro : Libavro) : ReplicationEvent δ → Prop
  | .change namespaces rel _ _ => SchemasPrintable conv avro namespaces rel
  | .startStreaming => True

/-! ## §2 — The messages of a call -/

/-- The table and the key of a row message. -/
def Message.row? : Message → Option (Oid × Option Bytes)
  | .insert relid key _ => some (relid, key)
  | .update relid key _ _ => some (relid, key)
  | .delete relid key _ => some (relid, key)
  | _ => none

/-- A row message announces no schemas. -/
theorem Message.readerAfter_row {avro : Libavro} {m : Message} {r : Oid × Option Bytes}
    (h : m.row? = some r) (reader : FrameReader) : m.readerAfter avro reader = reader := by
  cases m <;> first | rfl | cases h

/-- A row message of the given table, with a key only if there is a key schema. -/
def IsRowOf (keySchema : Option Schema) (rel : Table) (m : Message) : Prop :=
  ∃ key, m.row? = some (rel.relid, key) ∧ (key.isSome → keySchema.isSome)

variable {conv : Conversions δ} {entry : SchemaCacheEntry} {rel : Table}

theorem keySchema_of_extractTupleKey {tupdesc : TupleDesc} {tuple : HeapTuple δ} {key : Option Bytes}
    (h : extractTupleKey conv entry rel tupdesc tuple = .ok key) (hkey : key.isSome) :
    entry.keySchema.isSome := by
  unfold extractTupleKey at h
  cases hs : entry.keySchema with
  | none =>
    rw [hs] at h
    cases h
    cases hkey
  | some schema => rfl

theorem keySchema_of_encodeOld {tuple : Option (HeapTuple δ)} {key oldBin : Option Bytes}
    (h : encodeOld conv entry rel tuple = .ok (key, oldBin)) (hkey : key.isSome) :
    entry.keySchema.isSome := by
  cases tuple with
  | none =>
    cases h
    cases hkey
  | some tuple =>
    simp only [encodeOld, except_bind_eq_ok] at h
    obtain ⟨keyBin, hextract, _, _, ⟨⟩⟩ := h
    exact keySchema_of_extractTupleKey hextract hkey

theorem isRowOf_insertRows {tupdesc : TupleDesc} {tuple : HeapTuple δ} {msgs : List Message}
    (h : insertRows conv rel tupdesc tuple entry = .ok msgs) : ∀ m ∈ msgs, IsRowOf entry.keySchema rel m := by
  simp only [insertRows, except_bind_eq_ok] at h
  obtain ⟨key, hkey, new, _, ⟨⟩⟩ := h
  intro m hm
  obtain rfl := List.mem_singleton.mp hm
  exact ⟨key, rfl, keySchema_of_extractTupleKey hkey⟩

theorem isRowOf_updateRows {old : Option (HeapTuple δ)} {tuple : HeapTuple δ} {msgs : List Message}
    (h : updateRows conv rel old tuple entry = .ok msgs) : ∀ m ∈ msgs, IsRowOf entry.keySchema rel m := by
  simp only [updateRows, except_bind_eq_ok] at h
  obtain ⟨⟨oldKey, oldBin⟩, hold, newKey, hnew, newBin, _, differs, _, hmsgs⟩ := h
  have hdelete : IsRowOf entry.keySchema rel (.delete rel.relid oldKey oldBin) :=
    ⟨oldKey, rfl, keySchema_of_encodeOld hold⟩
  have hinsert : IsRowOf entry.keySchema rel (.insert rel.relid newKey newBin) :=
    ⟨newKey, rfl, keySchema_of_extractTupleKey hnew⟩
  have hupdate : IsRowOf entry.keySchema rel (.update rel.relid newKey oldBin newBin) :=
    ⟨newKey, rfl, keySchema_of_extractTupleKey hnew⟩
  intro m hm
  split at hmsgs
  · cases hmsgs
    rcases List.mem_cons.mp hm with rfl | hm
    · exact hdelete
    · rwa [List.mem_singleton.mp hm]
  · cases hmsgs
    rwa [List.mem_singleton.mp hm]

theorem isRowOf_deleteRows {old : Option (HeapTuple δ)} {msgs : List Message}
    (h : deleteRows conv rel old entry = .ok msgs) : ∀ m ∈ msgs, IsRowOf entry.keySchema rel m := by
  simp only [deleteRows, except_bind_eq_ok] at h
  obtain ⟨⟨key, oldBin⟩, hold, ⟨⟩⟩ := h
  intro m hm
  obtain rfl := List.mem_singleton.mp hm
  exact ⟨key, rfl, keySchema_of_encodeOld hold⟩

section

variable {namespaces : Namespaces} {cache cache' : SchemaCache} {msgs : List Message}

/-- The result of a call that makes a frame: the announcement its lookup asks for, then the rows. -/
theorem updateFrame_eq_ok {rows : SchemaCacheEntry → Except PluginError (List Message)}
    (h : updateFrame conv namespaces cache rel rows = .ok (cache', msgs)) :
    ∃ r schemas rowMsgs, schemaCacheLookup conv.equalTupleDescs namespaces cache rel = .ok r ∧
      announcement conv r.1 r.2.1 = .ok schemas ∧ rows r.2.1 = .ok rowMsgs ∧ cache' = r.2.2 ∧
        msgs = schemas ++ rowMsgs := by
  simp only [updateFrame, except_bind_eq_ok] at h
  obtain ⟨r, hr, schemas, hschemas, rowMsgs, hrows, ⟨⟩⟩ := h
  exact ⟨r, schemas, rowMsgs, hr, hschemas, hrows, rfl, rfl⟩

theorem pluginCall_eq_ok {change : Change δ}
    (h : pluginCall conv namespaces cache rel change = .ok (cache', msgs)) :
    ∃ r schemas rowMsgs, schemaCacheLookup conv.equalTupleDescs namespaces cache rel = .ok r ∧
      announcement conv r.1 r.2.1 = .ok schemas ∧ (∀ m ∈ rowMsgs, IsRowOf r.2.1.keySchema rel m) ∧
        cache' = r.2.2 ∧ msgs = schemas ++ rowMsgs := by
  cases change with
  | insert tupdesc newtuple =>
    obtain ⟨r, schemas, rowMsgs, hr, hschemas, hrows, hrest⟩ := updateFrame_eq_ok h
    exact ⟨r, schemas, rowMsgs, hr, hschemas, isRowOf_insertRows hrows, hrest⟩
  | update oldtuple newtuple =>
    obtain ⟨r, schemas, rowMsgs, hr, hschemas, hrows, hrest⟩ := updateFrame_eq_ok h
    exact ⟨r, schemas, rowMsgs, hr, hschemas, isRowOf_updateRows hrows, hrest⟩
  | delete oldtuple =>
    obtain ⟨r, schemas, rowMsgs, hr, hschemas, hrows, hrest⟩ := updateFrame_eq_ok h
    exact ⟨r, schemas, rowMsgs, hr, hschemas, isRowOf_deleteRows hrows, hrest⟩

end

/-! ## §3 — What the client is told -/

/-- The texts of an announcement are those of the entry's schemas, so the client ends up with them. -/
theorem announces_of_announcement (avro : Libavro) {changed : Nat} {schemas : List Message}
    (h : announcement conv changed entry = .ok schemas) (hchanged : changed ≠ 0)
    (hrow : avro.schemaFromJson (conv.schemaToJson entry.rowSchema) = some entry.rowSchema)
    (hkey : ∀ s, entry.keySchema = some s → avro.schemaFromJson (conv.schemaToJson s) = some s) :
    ∃ m, schemas = [m] ∧ m.row? = none ∧
      m.announces avro = some ⟨entry.relid, entry.keySchema, entry.rowSchema⟩ := by
  simp only [announcement, if_pos hchanged, except_bind_eq_ok] at h
  obtain ⟨keyJson, hkeyJson, rowJson, hrowJson, ⟨⟩⟩ := h
  obtain rfl := eq_of_tryWriting hrowJson
  refine ⟨_, rfl, rfl, Message.announces_tableSchema hrow ?_⟩
  cases hs : entry.keySchema with
  | none =>
    rw [hs] at hkeyJson
    cases hkeyJson
    rfl
  | some s =>
    rw [hs] at hkeyJson
    simp only [writeKeySchemaJson, except_bind_eq_ok] at hkeyJson
    obtain ⟨json, hjson, ⟨⟩⟩ := hkeyJson
    obtain rfl := eq_of_tryWriting hjson
    simp [schemaOfText, hkey s hs]

/-- The rows of a frame leave the schema list as it is. -/
theorem readerAfterAll_rows {avro : Libavro} {keySchema : Option Schema} {rows : List Message}
    (h : ∀ m ∈ rows, IsRowOf keySchema rel m) (reader : FrameReader) : readerAfterAll avro reader rows = reader := by
  induction rows with
  | nil => rfl
  | cons m rows ih =>
    obtain ⟨key, hrow, -⟩ := h m (List.mem_cons_self ..)
    show readerAfterAll avro (m.readerAfter avro reader) rows = reader
    rw [Message.readerAfter_row hrow]
    exact ih fun m hm => h m (List.mem_cons_of_mem _ hm)

/-- A message that announces an entry makes it the entry of its table, and changes no other. -/
theorem announced_readerAfter {avro : Libavro} {m : Message} {e : SchemaListEntry}
    (h : m.announces avro = some e) (reader : FrameReader) (relid : Oid) :
    announced (m.readerAfter avro reader) relid =
      if relid = e.relid then some e else announced reader relid := by
  unfold announced Message.readerAfter
  rw [h]
  show Keyed.find _ _ (Keyed.put _ _ _ _) = _
  rw [Keyed.find_put rfl]
  simp only [SchemaListEntry.key, longOfUInt32_injective.eq_iff]
  rfl

/-! ## §4 — The invariant -/

/-- **`s.Agree`** — what the cache has for a table is what the client was last told. -/
def Replication.Agree (s : Replication κ) : Prop :=
  s.cache.Filled ∧ ∀ relid entry, s.cache relid = some entry →
    announced s.session.reader relid = some ⟨relid, entry.keySchema, entry.rowSchema⟩

/-- An entry of the client's list with the schemas of a table as it is now. -/
structure SchemasOf (namespaces : Namespaces) (rel : Table) (entry : SchemaListEntry) : Prop where
  relid : entry.relid = rel.relid
  row : schemaForTableRow namespaces rel.toRelation = .ok (some entry.rowSchema)
  key : schemaForTableKey namespaces rel = .ok entry.keySchema

theorem SchemasOf.eq {namespaces : Namespaces} {entry entry' : SchemaListEntry}
    (h : SchemasOf namespaces rel entry) (h' : SchemasOf namespaces rel entry') : entry = entry' := by
  have hrow := Option.some.inj (Except.ok.inj (h.row.symm.trans h'.row))
  have hkey := Except.ok.inj (h.key.symm.trans h'.key)
  have hrelid := h.relid.trans h'.relid.symm
  cases entry
  cases entry'
  exact SchemaListEntry.mk.injEq .. ▸ ⟨hrelid, hkey, hrow⟩

/-- What a frame consists of, for a client that agrees with the cache: schema messages that leave the
client with the schemas of the table as it is now, and then rows of that table. -/
structure Tells (avro : Libavro) (namespaces : Namespaces) (rel : Table) (now : SchemaListEntry)
    (cache' : SchemaCache) (reader : FrameReader) (schemas rows : List Message) : Prop where
  schemasOf : SchemasOf namespaces rel now
  noRow : ∀ m ∈ schemas, m.row? = none
  rows : ∀ m ∈ rows, IsRowOf now.keySchema rel m
  now : announced (readerAfterAll avro reader schemas) rel.relid = some now
  others : ∀ relid, relid ≠ rel.relid →
    announced (readerAfterAll avro reader schemas) relid = announced reader relid
  filled : cache'.Filled
  agree : ∀ relid entry, cache' relid = some entry →
    announced (readerAfterAll avro reader schemas) relid =
      some ⟨relid, entry.keySchema, entry.rowSchema⟩

theorem tells_of_pluginCall {avro : Libavro} {namespaces : Namespaces} {s : Replication κ}
    {change : Change δ} {cache' : SchemaCache} {msgs : List Message}
    (hdesc : ∀ a b, conv.equalTupleDescs a b = true → a.live = b.live) (hs : s.Agree)
    (hprint : SchemasPrintable conv avro namespaces rel)
    (hcall : pluginCall conv namespaces s.cache rel change = .ok (cache', msgs)) :
    ∃ now schemas rows, msgs = schemas ++ rows ∧
      Tells avro namespaces rel now cache' s.session.reader schemas rows := by
  obtain ⟨r, schemas, rows, hr, hschemas, hrows, rfl, rfl⟩ := pluginCall_eq_ok hcall
  have hlookup : LookedUp namespaces s.cache rel r := schemaCacheLookup_spec hdesc hs.1 hr
  have hnow : SchemasOf namespaces rel ⟨rel.relid, r.2.1.keySchema, r.2.1.rowSchema⟩ :=
    ⟨rfl, hlookup.rowSchema, hlookup.keySchema⟩
  refine ⟨⟨rel.relid, r.2.1.keySchema, r.2.1.rowSchema⟩, schemas, rows, rfl, ?_⟩
  by_cases hchanged : r.1 = 0
  · -- nothing to announce: the client has the entry that the lookup found
    obtain ⟨hentry, hcache⟩ := hlookup.unchanged hchanged
    obtain rfl : schemas = [] := by
      simp only [announcement, hchanged, ne_eq, not_true, if_false] at hschemas
      cases hschemas
      rfl
    exact ⟨hnow, nofun, hrows, hs.2 _ _ hentry, fun _ _ => rfl, hlookup.filled, hcache ▸ hs.2⟩
  · -- the announcement overwrites what the client had for this table
    have hcache := hlookup.changed hchanged
    obtain ⟨m, rfl, hnorow, hannounces⟩ := announces_of_announcement avro hschemas hchanged
      (hprint.1 _ hlookup.rowSchema) fun schema hschema => hprint.2 schema (hschema ▸ hlookup.keySchema)
    have hreader := announced_readerAfter hannounces s.session.reader
    refine ⟨hnow, ?_, hrows, ?_, ?_, hlookup.filled, ?_⟩
    · intro m' hm'
      rwa [List.mem_singleton.mp hm']
    · show announced (m.readerAfter avro s.session.reader) rel.relid = _
      rw [hreader, hlookup.relid, if_pos rfl]
    · intro relid hrelid
      show announced (m.readerAfter avro s.session.reader) relid = _
      rw [hreader, hlookup.relid, if_neg hrelid]
    · intro relid entry hentry
      show announced (m.readerAfter avro s.session.reader) relid = _
      rw [hreader, hlookup.relid]
      by_cases hrelid : relid = rel.relid
      · rw [hcache, hrelid, Function.update_self, Option.some.injEq] at hentry
        rw [if_pos hrelid, hrelid, hentry]
      · rw [hcache, Function.update_of_ne hrelid] at hentry
        rw [if_neg hrelid]
        exact hs.2 relid entry hentry

variable {avro : Libavro} {on : Callback → κ → Int × κ}

/-- A frame that is processed leaves the client with its schemas. -/
theorem reader_of_processFrame {walPos : UInt64} {msgs : List Message} {session session' : Session κ}
    {u : Unit} (h : processFrame on avro walPos (frameValue msgs) session = .ok u session') :
    readerAfterAll avro session.reader msgs = session'.reader := by
  obtain ⟨-, _, -, -, hreader⟩ := processFrame_ok_iff.mp h
  exact hreader

/-- **What a step for a row is**: the plugin makes a frame and the client processes it. -/
theorem Replication.step_change_eq_some {s t : Replication κ} {namespaces : Namespaces}
    {change : Change δ} {walPos : UInt64} :
    s.step conv avro on (.change namespaces rel change walPos) = some t ↔
      ∃ msgs, pluginCall conv namespaces s.cache rel change = .ok (t.cache, msgs) ∧
        processFrame on avro walPos (frameValue msgs) s.session = .ok () t.session := by
  simp only [Replication.step]
  cases pluginCall conv namespaces s.cache rel change with
  | error e => simp
  | ok r =>
    obtain ⟨cache', msgs⟩ := r
    simp only [buildFrame_eq, Option.bind_some, Except.ok.injEq, Prod.mk.injEq]
    constructor
    · intro h
      cases hframe : processFrame on avro walPos (frameValue msgs) s.session with
      | error e s' => simp [hframe] at h
      | ok u session =>
        simp only [hframe, Option.some.injEq] at h
        subst h
        exact ⟨msgs, ⟨rfl, rfl⟩, hframe⟩
    · rintro ⟨_, ⟨rfl, rfl⟩, hframe⟩
      simp [hframe]

/-- The frame of a step that succeeds, and the client's schemas after it. -/
theorem tells_of_step (hdesc : ∀ a b, conv.equalTupleDescs a b = true → a.live = b.live)
    {s t : Replication κ} {namespaces : Namespaces} {change : Change δ} {walPos : UInt64}
    (hs : s.Agree) (hprint : SchemasPrintable conv avro namespaces rel)
    (hstep : s.step conv avro on (.change namespaces rel change walPos) = some t) :
    ∃ now schemas rows, Tells avro namespaces rel now t.cache s.session.reader schemas rows ∧
      readerAfterAll avro s.session.reader schemas = t.session.reader := by
  obtain ⟨msgs, hcall, hframe⟩ := Replication.step_change_eq_some.mp hstep
  obtain ⟨now, schemas, rows, rfl, htells⟩ := tells_of_pluginCall hdesc hs hprint hcall
  refine ⟨now, schemas, rows, htells, ?_⟩
  rw [← reader_of_processFrame hframe]
  simp only [readerAfterAll, List.foldl_append]
  exact (readerAfterAll_rows htells.rows _).symm

theorem agree_step (hdesc : ∀ a b, conv.equalTupleDescs a b = true → a.live = b.live)
    {s t : Replication κ} {e : ReplicationEvent δ} (hs : s.Agree) (hprint : e.Printable conv avro)
    (hstep : s.step conv avro on e = some t) : t.Agree := by
  cases e with
  | startStreaming =>
    cases hstep
    exact ⟨filled_schemaCacheNew, nofun⟩
  | change namespaces rel change walPos =>
    obtain ⟨now, schemas, rows, htells, hreader⟩ := tells_of_step hdesc hs hprint hstep
    exact ⟨htells.filled, hreader ▸ htells.agree⟩

theorem run_agree (hdesc : ∀ a b, conv.equalTupleDescs a b = true → a.live = b.live)
    {session : Session κ} {es : List (ReplicationEvent δ)} {s : Replication κ}
    (hprint : ∀ e ∈ es, e.Printable conv avro)
    (hrun : run (Replication.step conv avro on) ⟨schemaCacheNew, session⟩ es = some s) : s.Agree := by
  have h := run_rule (P := fun es s => (∀ e ∈ es, e.Printable conv avro) → s.Agree)
    (fun _ => ⟨filled_schemaCacheNew, nofun⟩) ?_ hrun
  · exact h hprint
  · intro es t e u _ ih hstep hprint
    apply agree_step hdesc (ih fun e he => hprint e (List.mem_append_left _ he))
    · exact hprint e (List.mem_append_right _ (List.mem_singleton_self e))
    · exact hstep

/-- The table with the given id, as it is at an event for one of its rows. -/
def tableAt (relid : Oid) : ReplicationEvent δ → Option (Namespaces × Table)
  | .change namespaces rel _ _ => if rel.relid = relid then some (namespaces, rel) else none
  | .startStreaming => none

/-- **The client keeps what it was last told**: for every table, the schemas that it had when a row of it
was last sent. -/
theorem run_announced (hdesc : ∀ a b, conv.equalTupleDescs a b = true → a.live = b.live)
    {session : Session κ} {es : List (ReplicationEvent δ)} {s : Replication κ}
    (hprint : ∀ e ∈ es, e.Printable conv avro)
    (hrun : run (Replication.step conv avro on) ⟨schemaCacheNew, session⟩ es = some s) :
    ∀ relid namespaces rel, lastSome (tableAt relid) es = some (namespaces, rel) →
      ∃ now, SchemasOf namespaces rel now ∧ announced s.session.reader relid = some now := by
  have h := run_rule (P := fun es s => (∀ e ∈ es, e.Printable conv avro) → ∀ relid namespaces rel,
    lastSome (tableAt relid) es = some (namespaces, rel) →
      ∃ now, SchemasOf namespaces rel now ∧ announced s.session.reader relid = some now)
    (fun _ _ _ _ => nofun) ?_ hrun
  · exact h hprint
  · intro es s e t hs ih hstep hprint relid namespaces rel hlast
    have hbefore : ∀ e ∈ es, e.Printable conv avro := fun e he => hprint e (List.mem_append_left _ he)
    rw [lastSome_snoc] at hlast
    cases e with
    | startStreaming =>
      cases hstep
      exact ih hbefore relid namespaces rel hlast
    | change namespaces' rel' change walPos =>
      have hprint' := hprint _ (List.mem_append_right _ (List.mem_singleton_self _))
      obtain ⟨now, schemas, rows, htells, hreader⟩ :=
        tells_of_step hdesc (run_agree hdesc hbefore hs) hprint' hstep
      rw [← hreader]
      by_cases hrelid : rel'.relid = relid
      · simp only [tableAt, if_pos hrelid, Option.some_or, Option.some.injEq, Prod.mk.injEq] at hlast
        obtain ⟨rfl, rfl⟩ := hlast
        rw [← hrelid]
        exact ⟨now, htells.schemasOf, htells.now⟩
      · simp only [tableAt, if_neg hrelid, Option.none_or] at hlast
        rw [htells.others relid (Ne.symm hrelid)]
        exact ih hbefore relid namespaces rel hlast

/-! ## §5 — Every row is read under the schemas of its table -/

/-- A row message stands behind all schema messages of its frame. -/
theorem split_at_row {schemas rows before after : List Message} {m : Message} {r : Oid × Option Bytes}
    (hschemas : ∀ m ∈ schemas, m.row? = none) (hm : m.row? = some r)
    (h : schemas ++ rows = before ++ m :: after) :
    ∃ rows', before = schemas ++ rows' ∧ rows = rows' ++ m :: after := by
  rcases List.append_eq_append_iff.mp h with ⟨rows', hbefore, hrows⟩ | ⟨rest, hschemas', hrest⟩
  · exact ⟨rows', hbefore, hrows⟩
  · cases rest with
    | nil => exact ⟨[], by simpa using hschemas'.symm, hrest.symm⟩
    | cons m' rest =>
      obtain ⟨rfl, -⟩ := List.cons.inj hrest
      have hmem : m ∈ schemas := by
        rw [hschemas']
        simp
      rw [hschemas m hmem] at hm
      cases hm

/-- **Server and client agree on schemas along any history.**  After any run of row changes, with any
changes of the catalog between them and any switch to streaming, when the client comes to a row message
of the next frame it finds an entry for the table, with the schemas that the table has at the time of
that very call, and the row has a key only if the entry has a key schema. -/
theorem schemas_agree (hdesc : ∀ a b, conv.equalTupleDescs a b = true → a.live = b.live)
    {session : Session κ} {es : List (ReplicationEvent δ)} {s : Replication κ}
    (hrun : run (Replication.step conv avro on) ⟨schemaCacheNew, session⟩ es = some s)
    (hprint : ∀ e ∈ es, e.Printable conv avro)
    {namespaces : Namespaces} {change : Change δ} {cache' : SchemaCache} {msgs : List Message}
    (hcall : pluginCall conv namespaces s.cache rel change = .ok (cache', msgs))
    (hprint' : SchemasPrintable conv avro namespaces rel)
    {before after : List Message} {m : Message} {relid : Oid} {key : Option Bytes}
    (hmsgs : msgs = before ++ m :: after) (hm : m.row? = some (relid, key))
    {walPos : UInt64} {session' : Session κ}
    (hbefore : processMessages on avro walPos (before.map Message.value) s.session = .ok () session') :
    relid = rel.relid ∧ ∃ entry, schemaListLookup session'.reader (longOfUInt32 relid) = some entry ∧
      schemaForTableRow namespaces rel.toRelation = .ok (some entry.rowSchema) ∧
      schemaForTableKey namespaces rel = .ok entry.keySchema ∧
      (key.isSome → entry.keySchema.isSome) := by
  obtain ⟨now, schemas, rows, rfl, htells⟩ :=
    tells_of_pluginCall hdesc (run_agree hdesc hprint hrun) hprint' hcall
  obtain ⟨rows', rfl, rfl⟩ := split_at_row htells.noRow hm hmsgs
  -- the messages before the row leave the client with the schemas of the table as it is now
  have hreader : readerAfterAll avro s.session.reader schemas = session'.reader := by
    obtain ⟨-, _, -, -, hreader⟩ := processMessages_ok_iff.mp hbefore
    rw [← hreader]
    simp only [readerAfterAll, List.foldl_append]
    have hrows' : ∀ m ∈ rows', IsRowOf now.keySchema rel m :=
      fun m hm => htells.rows m (List.mem_append_left _ hm)
    exact (readerAfterAll_rows hrows' _).symm
  obtain ⟨key', hrow, hkey⟩ := htells.rows m (by simp)
  obtain ⟨rfl, rfl⟩ : relid = rel.relid ∧ key = key' := by
    rw [hm] at hrow
    simpa using hrow
  refine ⟨rfl, now, ?_, htells.schemasOf.row, htells.schemasOf.key, hkey⟩
  rw [← hreader]
  exact htells.now

end

/-! A table that is renamed after the switch to streaming. -/

def idColumn : TupleDesc := ⟨[⟨"id", INT8OID, false⟩], []⟩

def usersKey : Index where
  relid := 16390
  relname := "users_pkey"
  relnamespace := 2200
  tupdesc := idColumn
  indisvalid := true
  indisready := true
  indisprimary := true
  indkey := [1]
  relid_ne_zero := by decide

def users (relname : String) : Table where
  relid := 16385
  relname := relname
  relnamespace := 2200
  tupdesc := idColumn
  relreplident := .default
  replicaIndex := none
  indexes := [usersKey]

def publicOnly : Namespaces := fun _ => "public"

/-- Numbers as `long`; a schema is known by one letter. -/
def letters : Conversions Int64 where
  equalTupleDescs := fun a b => decide (a = b)
  updateAvroWithDatum := fun _ n => some (.union 1 (.long n))
  schemaToJson := fun s => if s.name = "users" then [117] else if s.name = "people" then [112] else [107]

def letterSchemas : Libavro where
  schemaFromJson
    | [117] => some ((users "users").schema publicOnly)
    | [112] => some ((users "people").schema publicOnly)
    | [107] => some (usersKey.schema publicOnly)
    | _ => none
  valueRead := decode fun _ => failure

theorem usersPrintable : SchemasPrintable letters letterSchemas publicOnly (users "users") :=
  ⟨by rintro _ ⟨⟩; rfl, by rintro _ ⟨⟩; rfl⟩

theorem peoplePrintable : SchemasPrintable letters letterSchemas publicOnly (users "people") :=
  ⟨by rintro _ ⟨⟩; rfl, by rintro _ ⟨⟩; rfl⟩

/-- A new row of the table, under the name the table has by then. -/
def newUser (relname : String) (id : Int64) : ReplicationEvent Int64 :=
  .change publicOnly (users relname) (.insert idColumn ⟨[some id], none⟩) 5

theorem schemas_agree_renamed :
    ∃ s cache' session' schemaMsg rowMsg,
      (run (Replication.step letters letterSchemas recordCall) ⟨schemaCacheNew, ⟨frameReaderNew, []⟩⟩
          [newUser "users" 1, .startStreaming, newUser "users" 2] = some s ∧
        pluginCall letters publicOnly s.cache (users "people") (.insert idColumn ⟨[some 3], none⟩) =
          .ok (cache', [schemaMsg, rowMsg]) ∧
        rowMsg.row? = some (16385, some [2, 6]) ∧
        processMessages recordCall letterSchemas 7 ([schemaMsg].map Message.value) s.session =
          .ok () session') ∧
      ∃ entry, schemaListLookup session'.reader (longOfUInt32 16385) = some entry ∧
        schemaForTableRow publicOnly (users "people").toRelation = .ok (some entry.rowSchema) ∧
        schemaForTableKey publicOnly (users "people") = .ok entry.keySchema ∧
        ((some [2, 6] : Option Bytes).isSome → entry.keySchema.isSome) := by
  have hdesc : ∀ a b, letters.equalTupleDescs a b = true → a.live = b.live := by
    intro a b h
    rw [of_decide_eq_true h]
  have hprint : ∀ e ∈ [newUser "users" 1, .startStreaming, newUser "users" 2],
      e.Printable letters letterSchemas := by
    simp only [List.forall_mem_cons]
    exact ⟨usersPrintable, trivial, usersPrintable, List.forall_mem_nil _⟩
  obtain ⟨s, cache', session', schemaMsg, rowMsg, hrun, hcall, hrow, hbefore⟩ :
      ∃ s cache' session' schemaMsg rowMsg,
        run (Replication.step letters letterSchemas recordCall) ⟨schemaCacheNew, ⟨frameReaderNew, []⟩⟩
          [newUser "users" 1, .startStreaming, newUser "users" 2] = some s ∧
        pluginCall letters publicOnly s.cache (users "people") (.insert idColumn ⟨[some 3], none⟩) =
          .ok (cache', [schemaMsg, rowMsg]) ∧
        rowMsg.row? = some (16385, some [2, 6]) ∧
        processMessages recordCall letterSchemas 7 ([schemaMsg].map Message.value) s.session =
          .ok () session' := ⟨_, _, _, _, _, rfl, rfl, rfl, rfl⟩
  have hmsgs : [schemaMsg, rowMsg] = [schemaMsg] ++ rowMsg :: [] := rfl
  have hagree := schemas_agree hdesc hrun hprint hcall peoplePrintable hmsgs hrow hbefore
  exact ⟨s, cache', session', schemaMsg, rowMsg, ⟨hrun, hcall, hrow, hbefore⟩, hagree.2⟩

end BottledWater.Protocol
