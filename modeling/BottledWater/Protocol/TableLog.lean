/-
# BottledWater.Protocol.TableLog — the Kafka log of a keyed table is the table.

The rows of a table with a key index go through the plugin, the client and the callbacks of the producer
into messages with a key and a value; a deleted row leaves a message without a value.  Folding these
messages, so that the last value of each key counts, gives back the rows of the table
(`tableLog_rebuilds`), if the columns of the key index are live columns of the table.

They need not be: an index may be on the system column `oid`, and then the key is made from another
column (`tableLog_rebuilds_not_for_oid`).
-/
import BottledWater.Ext.Encoding
import BottledWater.Kafka.Produce
import BottledWater.Lib.Changelog
import BottledWater.Protocol.Agreement

namespace BottledWater.Protocol

open BottledWater.Lib BottledWater.Lib.Avro BottledWater.Client BottledWater.Ext
open BottledWater.Kafka (RowMsg rowMsg)

/-! ## §1 — The messages that are sent -/

/-- Callbacks that keep the calls of `send_kafka_msg`. -/
def sendRow (call : Callback) (sent : List RowMsg) : Int × List RowMsg :=
  (0, sent ++ (rowMsg call).toList)

theorem Message.relid_of_rowMsg {m : Message} {relid : Oid} {key : Option Bytes} {msg : RowMsg}
    (hrow : m.row? = some (relid, key)) (hsent : m.rowMsg = some msg) : msg.relid = relid := by
  cases m with
  | delete relid' key' old =>
    cases hrow
    cases key <;> cases hsent
    rfl
  | _ => cases hrow <;> cases hsent <;> rfl

theorem invokeAll_sendRow {avro : Libavro} {walPos : UInt64} {msgs : List Message}
    {calls : List Callback}
    (h : List.Forall₂ (fun m call => m.callback avro walPos = some call) msgs calls) :
    ∀ sent, invokeAll sendRow calls sent = some (sent ++ msgs.filterMap Message.rowMsg) := by
  induction h with
  | nil =>
    intro sent
    simp [invokeAll]
  | @cons m call msgs calls hcall _ ih =>
    intro sent
    rw [invokeAll_cons]
    show invokeAll sendRow calls (sent ++ (Kafka.rowMsg call).toList) = _
    rw [ih, rowMsg_of_callback hcall, List.append_assoc]
    cases hm : m.rowMsg with
    | none => simp [hm]
    | some msg => simp [hm]

section

variable {δ : Type} {conv : Conversions δ} {avro : Libavro} {rel : Table}

/-- What a step for a row sends. -/
theorem sent_of_step {s t : Replication (List RowMsg)} {namespaces : Namespaces} {change : Change δ}
    {walPos : UInt64} (h : s.step conv avro sendRow (.change namespaces rel change walPos) = some t) :
    ∃ msgs, pluginCall conv namespaces s.cache rel change = .ok (t.cache, msgs) ∧
      t.session.context = s.session.context ++ msgs.filterMap Message.rowMsg := by
  obtain ⟨msgs, hcall, hframe⟩ := Replication.step_change_eq_some.mp h
  obtain ⟨-, calls, hcalls, hcontext, -⟩ := processFrame_ok_iff.mp hframe
  rw [invokeAll_sendRow hcalls, Option.some.injEq] at hcontext
  exact ⟨msgs, hcall, hcontext.symm⟩

/-- **`tableLog relid sent`** — the keys and values of the messages for one table, in order. -/
def tableLog (relid : Oid) (sent : List RowMsg) : List (Option Bytes × Option Bytes) :=
  (sent.filter fun msg => msg.relid = relid).map fun msg => (msg.key, msg.val)

theorem tableLog_append (relid : Oid) (sent sent' : List RowMsg) :
    tableLog relid (sent ++ sent') = tableLog relid sent ++ tableLog relid sent' := by
  simp [tableLog]

theorem tableLog_eq_nil {relid : Oid} {sent : List RowMsg} (h : ∀ msg ∈ sent, msg.relid ≠ relid) :
    tableLog relid sent = [] := by
  simpa [tableLog] using h

/-! ## §2 — The messages for a row -/

/-- An announcement sends nothing. -/
theorem filterMap_rowMsg_announcement {changed : Nat} {entry : SchemaCacheEntry}
    {schemas : List Message} (h : announcement conv changed entry = .ok schemas) :
    schemas.filterMap Message.rowMsg = [] := by
  unfold announcement at h
  split at h
  · simp only [except_bind_eq_ok] at h
    obtain ⟨_, _, _, _, ⟨⟩⟩ := h
    rfl
  · cases h
    rfl

variable {index : Index} {entry : SchemaCacheEntry} {msgs : List Message}

theorem encodedKey_congr {row row' : HeapTuple δ}
    (h : keyColumns rel index row = keyColumns rel index row') :
    encodedKey conv rel index row = encodedKey conv rel index row' := by
  unfold encodedKey
  rw [h]

/-- What logical decoding supplies of the row before an update: nothing only if the key stays, and
otherwise a tuple with at least its key columns. -/
def SuppliesOld (rel : Table) (index : Index) (old row : HeapTuple δ) : Option (HeapTuple δ) → Prop
  | none => keyColumns rel index old = keyColumns rel index row
  | some oldtuple => keyColumns rel index oldtuple = keyColumns rel index old

section

variable (hindex : tableKeyIndex rel = some index) (hschema : entry.keySchema.isSome)
  (hlive : ∀ indkey ∈ index.indkey, LiveColumn rel indkey)

include hindex hschema hlive

theorem insertRows_eq_ok {tupdesc : TupleDesc} {row tuple : HeapTuple δ}
    (hrow : Delivers rel row tupdesc tuple)
    (h : insertRows conv rel tupdesc tuple entry = .ok msgs) :
    ∃ k v, encodedKey conv rel index row = some k ∧ encodedRow conv rel row = some v ∧
      msgs.filterMap Message.rowMsg = [⟨rel.relid, some k, some v⟩] := by
  simp only [insertRows, except_bind_eq_ok] at h
  obtain ⟨key, hkey, v, hv, ⟨⟩⟩ := h
  obtain ⟨k, rfl, hk⟩ := extractTupleKey_eq_ok hindex hschema hlive hrow hkey
  exact ⟨k, v, hk, encodeRow_eq_ok hrow hv, rfl⟩

/-- The key of the old tuple is that of any row with the same key columns. -/
theorem encodeOld_eq_ok {old oldtuple : HeapTuple δ} {key oldBin : Option Bytes}
    (hold : keyColumns rel index oldtuple = keyColumns rel index old)
    (h : encodeOld conv entry rel (some oldtuple) = .ok (key, oldBin)) :
    ∃ k, key = some k ∧ encodedKey conv rel index old = some k := by
  simp only [encodeOld, except_bind_eq_ok] at h
  obtain ⟨_, hkey, _, _, ⟨⟩⟩ := h
  obtain ⟨k, rfl, hk⟩ := extractTupleKey_eq_ok hindex hschema hlive .whole hkey
  exact ⟨k, rfl, encodedKey_congr hold ▸ hk⟩

theorem deleteRows_eq_ok {old oldtuple : HeapTuple δ}
    (hold : keyColumns rel index oldtuple = keyColumns rel index old)
    (h : deleteRows conv rel (some oldtuple) entry = .ok msgs) :
    ∃ k, encodedKey conv rel index old = some k ∧
      msgs.filterMap Message.rowMsg = [⟨rel.relid, some k, none⟩] := by
  simp only [deleteRows, except_bind_eq_ok] at h
  obtain ⟨⟨key, oldBin⟩, hkey, ⟨⟩⟩ := h
  obtain ⟨k, rfl, hk⟩ := encodeOld_eq_ok hindex hschema hlive hold hkey
  exact ⟨k, hk, rfl⟩

/-- **An update is one message, or two if the encoded key is another one.** -/
theorem updateRows_eq_ok {old row : HeapTuple δ} {oldtuple : Option (HeapTuple δ)}
    (hold : SuppliesOld rel index old row oldtuple)
    (h : updateRows conv rel oldtuple row entry = .ok msgs) :
    ∃ k v, encodedKey conv rel index row = some k ∧ encodedRow conv rel row = some v ∧
      (encodedKey conv rel index old = some k ∧
          msgs.filterMap Message.rowMsg = [⟨rel.relid, some k, some v⟩] ∨
        ∃ k₀, k₀ ≠ k ∧ encodedKey conv rel index old = some k₀ ∧
          msgs.filterMap Message.rowMsg =
            [⟨rel.relid, some k₀, none⟩, ⟨rel.relid, some k, some v⟩]) := by
  simp only [updateRows, except_bind_eq_ok] at h
  obtain ⟨⟨oldKey, oldBin⟩, holdKey, newKey, hnewKey, v, hv, differs, hdiffers, hmsgs⟩ := h
  obtain ⟨k, rfl, hk⟩ := extractTupleKey_eq_ok hindex hschema hlive .whole hnewKey
  refine ⟨k, v, hk, encodeRow_eq_ok .whole hv, ?_⟩
  cases oldtuple with
  | none =>
    cases holdKey
    cases hdiffers
    cases hmsgs
    exact .inl ⟨encodedKey_congr hold ▸ hk, rfl⟩
  | some oldtuple =>
    obtain ⟨k₀, rfl, hk₀⟩ := encodeOld_eq_ok hindex hschema hlive hold holdKey
    cases hdiffers
    by_cases hne : k₀ = k
    · -- equal bytes have equal lengths
      subst hne
      simp only [ne_eq, not_true, or_self, decide_false, Bool.false_eq_true, if_false] at hmsgs
      cases hmsgs
      exact .inl ⟨hk₀, rfl⟩
    · simp only [ne_eq, hne, not_false_eq_true, or_true, decide_true, if_true] at hmsgs
      cases hmsgs
      exact .inr ⟨k₀, hne, hk₀, rfl⟩

end

/-! ## §3 — Histories of a table -/

/-- No two rows have the same key. -/
def UniqueKeys (rel : Table) (index : Index) (rows : List (HeapTuple δ)) : Prop :=
  (rows.map (keyColumns rel index)).Nodup

instance [DecidableEq δ] (rel : Table) (index : Index) (rows : List (HeapTuple δ)) :
    Decidable (UniqueKeys rel index rows) :=
  inferInstanceAs (Decidable (List.Nodup _))

/-- **`TableHistory rel index es seen rows`** — the events `es` are a history of the table in which the
rows `seen` have occurred and at the end of which it has `rows`.  Keys are unique after each change.
Between the changes of the table there may be any changes of other tables, and the snapshot may end. -/
inductive TableHistory [DecidableEq δ] (rel : Table) (index : Index) :
    List (ReplicationEvent δ) → (seen rows : List (HeapTuple δ)) → Prop
  | empty : TableHistory rel index [] [] []
  | insert {es : List (ReplicationEvent δ)} {seen rows : List (HeapTuple δ)} {row tuple : HeapTuple δ}
      {tupdesc : TupleDesc} (namespaces : Namespaces) (walPos : UInt64)
      (h : TableHistory rel index es seen rows) (hrow : Delivers rel row tupdesc tuple)
      (hunique : UniqueKeys rel index (rows ++ [row])) :
      TableHistory rel index (es ++ [.change namespaces rel (.insert tupdesc tuple) walPos])
        (seen ++ [row]) (rows ++ [row])
  | update {es : List (ReplicationEvent δ)} {seen rows : List (HeapTuple δ)} {old row : HeapTuple δ}
      {oldtuple : Option (HeapTuple δ)} (namespaces : Namespaces) (walPos : UInt64)
      (h : TableHistory rel index es seen rows) (hmem : old ∈ rows)
      (hold : SuppliesOld rel index old row oldtuple)
      (hunique : UniqueKeys rel index (rows.erase old ++ [row])) :
      TableHistory rel index (es ++ [.change namespaces rel (.update oldtuple row) walPos])
        (seen ++ [row]) (rows.erase old ++ [row])
  | delete {es : List (ReplicationEvent δ)} {seen rows : List (HeapTuple δ)}
      {old oldtuple : HeapTuple δ} (namespaces : Namespaces) (walPos : UInt64)
      (h : TableHistory rel index es seen rows) (hmem : old ∈ rows)
      (hold : keyColumns rel index oldtuple = keyColumns rel index old) :
      TableHistory rel index (es ++ [.change namespaces rel (.delete (some oldtuple)) walPos]) seen
        (rows.erase old)
  | other {es : List (ReplicationEvent δ)} {seen rows : List (HeapTuple δ)} {rel' : Table}
      (namespaces : Namespaces) (walPos : UInt64) (change : Change δ)
      (h : TableHistory rel index es seen rows) (hne : rel'.relid ≠ rel.relid) :
      TableHistory rel index (es ++ [.change namespaces rel' change walPos]) seen rows
  | startStreaming {es : List (ReplicationEvent δ)} {seen rows : List (HeapTuple δ)}
      (h : TableHistory rel index es seen rows) :
      TableHistory rel index (es ++ [.startStreaming]) seen rows

variable [DecidableEq δ] {es : List (ReplicationEvent δ)} {seen rows : List (HeapTuple δ)}

theorem TableHistory.uniqueKeys (h : TableHistory rel index es seen rows) :
    UniqueKeys rel index rows := by
  induction h with
  | empty => exact List.nodup_nil
  | insert _ _ _ _ hunique => exact hunique
  | update _ _ _ _ _ hunique => exact hunique
  | delete _ _ _ _ _ ih => exact ih.sublist (List.erase_sublist.map _)
  | other _ _ _ _ _ ih => exact ih
  | startStreaming _ ih => exact ih

/-- The rows in the table have occurred. -/
theorem TableHistory.mem_seen (h : TableHistory rel index es seen rows) :
    ∀ row ∈ rows, row ∈ seen := by
  induction h with
  | empty => exact fun _ h => h
  | insert _ _ _ _ _ ih =>
    intro r hr
    rcases List.mem_append.mp hr with hr | hr
    · exact List.mem_append_left _ (ih r hr)
    · exact List.mem_append_right _ hr
  | update _ _ _ _ _ _ ih =>
    intro r hr
    rcases List.mem_append.mp hr with hr | hr
    · exact List.mem_append_left _ (ih r (List.mem_of_mem_erase hr))
    · exact List.mem_append_right _ hr
  | delete _ _ _ _ _ ih => exact fun r hr => ih r (List.mem_of_mem_erase hr)
  | other _ _ _ _ _ ih => exact ih
  | startStreaming _ ih => exact ih

/-! ## §4 — The invariant -/

/-- The messages that a call makes for the row itself. -/
def rowsOf (conv : Conversions δ) (rel : Table) :
    Change δ → SchemaCacheEntry → Except PluginError (List Message)
  | .insert tupdesc newtuple => insertRows conv rel tupdesc newtuple
  | .update oldtuple newtuple => updateRows conv rel oldtuple newtuple
  | .delete oldtuple => deleteRows conv rel oldtuple

omit [DecidableEq δ] in
/-- What a call for the table sends, and for which entry of the cache. -/
theorem rowsOf_step (hindex : tableKeyIndex rel = some index) (hname : isAvroId index.relname)
    {s t : Replication (List RowMsg)}
    (hcache : ∀ entry, s.cache rel.relid = some entry → entry.keySchema.isSome)
    {namespaces : Namespaces} {change : Change δ} {walPos : UInt64}
    (h : s.step conv avro sendRow (.change namespaces rel change walPos) = some t) :
    (∀ entry, t.cache rel.relid = some entry → entry.keySchema.isSome) ∧
      ∃ entry msgs, entry.keySchema.isSome ∧ rowsOf conv rel change entry = .ok msgs ∧
        t.session.context = s.session.context ++ msgs.filterMap Message.rowMsg := by
  obtain ⟨msgs, hcall, hcontext⟩ := sent_of_step h
  have hframe : updateFrame conv namespaces s.cache rel (rowsOf conv rel change) =
      .ok (t.cache, msgs) := by
    cases change <;> exact hcall
  obtain ⟨r, schemas, rowMsgs, hr, hschemas, hrows, hcache', rfl⟩ := updateFrame_eq_ok hframe
  obtain ⟨hentry, hafter⟩ := isSome_keySchema_lookup hr hindex hname hcache
  refine ⟨hcache' ▸ hafter, _, rowMsgs, hentry, hrows, ?_⟩
  rw [hcontext, List.filterMap_append, filterMap_rowMsg_announcement hschemas, List.nil_append]

/-- **The invariant**: the log of the table, replayed, has exactly the rows of the table. -/
structure Rebuilt (conv : Conversions δ) (rel : Table) (index : Index)
    (s : Replication (List RowMsg)) (rows : List (HeapTuple δ)) : Prop where
  cache : ∀ entry, s.cache rel.relid = some entry → entry.keySchema.isSome
  encoded : ∀ row ∈ rows, ∃ k v, encodedKey conv rel index row = some k ∧
    encodedRow conv rel row = some v
  log : Changelog.Represents (encodedKey conv rel index) (encodedRow conv rel)
    (Changelog.replay (tableLog rel.relid s.session.context)) rows

omit [DecidableEq δ] in
theorem tableLog_singleton (k v : Option Bytes) : tableLog rel.relid [⟨rel.relid, k, v⟩] = [(k, v)] := by
  simp [tableLog]

/-- Different keys have different encodings, among the rows given. -/
def InjectiveKeys (conv : Conversions δ) (rel : Table) (index : Index) (rows : List (HeapTuple δ)) :
    Prop :=
  ∀ r ∈ rows, ∀ r' ∈ rows, encodedKey conv rel index r = encodedKey conv rel index r' →
    keyColumns rel index r = keyColumns rel index r'

instance (conv : Conversions δ) (rel : Table) (index : Index) (rows : List (HeapTuple δ)) :
    Decidable (InjectiveKeys conv rel index rows) :=
  inferInstanceAs (Decidable (∀ r ∈ rows, ∀ r' ∈ rows, _ → _))

omit [DecidableEq δ] in
theorem InjectiveKeys.mono {rows' : List (HeapTuple δ)} (h : InjectiveKeys conv rel index rows')
    (hsub : ∀ r ∈ rows, r ∈ rows') : InjectiveKeys conv rel index rows :=
  fun r hr r' hr' => h r (hsub r hr) r' (hsub r' hr')

omit [DecidableEq δ] in
/-- A key encodes only one row of the table. -/
theorem eq_of_encodedKey (hinj : InjectiveKeys conv rel index rows)
    (hunique : UniqueKeys rel index rows) {r r' : HeapTuple δ} (hr : r ∈ rows) (hr' : r' ∈ rows)
    (h : encodedKey conv rel index r = encodedKey conv rel index r') : r = r' :=
  List.inj_on_of_nodup_map hunique hr hr' (hinj r hr r' hr' h)

omit [DecidableEq δ] in
/-- The key of a row that is added is not one of the keys encoded before. -/
theorem encodedKey_ne_of_unique {row : HeapTuple δ} (hinj : InjectiveKeys conv rel index (rows ++ [row]))
    (hunique : UniqueKeys rel index (rows ++ [row])) :
    ∀ r ∈ rows, encodedKey conv rel index r ≠ encodedKey conv rel index row := by
  intro r hr h
  have hcolumns := hinj r (by simp [hr]) row (by simp) h
  rw [UniqueKeys, List.map_append, List.nodup_append] at hunique
  exact hunique.2.2 _ (List.mem_map_of_mem hr) _ (by simp) hcolumns

section

variable {s t : Replication (List RowMsg)} {namespaces : Namespaces} {walPos : UInt64}
  (hindex : tableKeyIndex rel = some index) (hname : isAvroId index.relname)
  (hlive : ∀ indkey ∈ index.indkey, LiveColumn rel indkey) (hs : Rebuilt conv rel index s rows)

include hindex hname hlive hs

omit [DecidableEq δ] in
theorem Rebuilt.insert {row tuple : HeapTuple δ} {tupdesc : TupleDesc}
    (hrow : Delivers rel row tupdesc tuple) (hinj : InjectiveKeys conv rel index (rows ++ [row]))
    (hunique : UniqueKeys rel index (rows ++ [row]))
    (h : s.step conv avro sendRow (.change namespaces rel (.insert tupdesc tuple) walPos) = some t) :
    Rebuilt conv rel index t (rows ++ [row]) := by
  obtain ⟨hcache, entry, msgs, hschema, hrows, hcontext⟩ := rowsOf_step hindex hname hs.cache h
  obtain ⟨k, v, hk, hv, hmsgs⟩ := insertRows_eq_ok hindex hschema hlive hrow hrows
  refine ⟨hcache, ?_, ?_⟩
  · simp only [List.forall_mem_append, List.forall_mem_singleton]
    exact ⟨hs.encoded, k, v, hk, hv⟩
  · rw [hcontext, hmsgs, tableLog_append, tableLog_singleton, Changelog.replay_snoc, ← hk]
    exact hs.log.insert hv (encodedKey_ne_of_unique hinj hunique)

theorem Rebuilt.delete {old oldtuple : HeapTuple δ} (hmem : old ∈ rows)
    (hold : keyColumns rel index oldtuple = keyColumns rel index old)
    (hinj : InjectiveKeys conv rel index rows) (hunique : UniqueKeys rel index rows)
    (h : s.step conv avro sendRow (.change namespaces rel (.delete (some oldtuple)) walPos) = some t) :
    Rebuilt conv rel index t (rows.erase old) := by
  obtain ⟨hcache, entry, msgs, hschema, hrows, hcontext⟩ := rowsOf_step hindex hname hs.cache h
  obtain ⟨k, hk, hmsgs⟩ := deleteRows_eq_ok hindex hschema hlive hold hrows
  refine ⟨hcache, fun r hr => hs.encoded r (List.mem_of_mem_erase hr), ?_⟩
  rw [hcontext, hmsgs, tableLog_append, tableLog_singleton, Changelog.replay_snoc, ← hk]
  apply hs.log.erase (List.Nodup.of_map _ hunique)
  exact fun r hr hkey => eq_of_encodedKey hinj hunique hr hmem hkey

theorem Rebuilt.update {old row : HeapTuple δ} {oldtuple : Option (HeapTuple δ)} (hmem : old ∈ rows)
    (hold : SuppliesOld rel index old row oldtuple) (hinj : InjectiveKeys conv rel index rows)
    (hunique : UniqueKeys rel index rows)
    (hinj' : InjectiveKeys conv rel index (rows.erase old ++ [row]))
    (hunique' : UniqueKeys rel index (rows.erase old ++ [row]))
    (h : s.step conv avro sendRow (.change namespaces rel (.update oldtuple row) walPos) = some t) :
    Rebuilt conv rel index t (rows.erase old ++ [row]) := by
  obtain ⟨hcache, entry, msgs, hschema, hrows, hcontext⟩ := rowsOf_step hindex hname hs.cache h
  obtain ⟨k, v, hk, hv, hmsgs⟩ := updateRows_eq_ok hindex hschema hlive hold hrows
  have hnodup : rows.Nodup := List.Nodup.of_map _ hunique
  have honly : ∀ r ∈ rows, encodedKey conv rel index r = encodedKey conv rel index old → r = old :=
    fun r hr hkey => eq_of_encodedKey hinj hunique hr hmem hkey
  refine ⟨hcache, ?_, ?_⟩
  · simp only [List.forall_mem_append, List.forall_mem_singleton]
    exact ⟨fun r hr => hs.encoded r (List.mem_of_mem_erase hr), k, v, hk, hv⟩
  · rcases hmsgs with ⟨hk₀, hmsgs⟩ | ⟨k₀, -, hk₀, hmsgs⟩
    · -- the key stays: the message overwrites the old row
      rw [hcontext, hmsgs, tableLog_append, tableLog_singleton, Changelog.replay_snoc, ← hk]
      exact hs.log.replace hnodup (hk₀.trans hk.symm) hv honly
    · -- a new key: the first message removes the old row, the second one adds the new one
      rw [hcontext, hmsgs, ← List.singleton_append, ← List.append_assoc, tableLog_append,
        tableLog_append, tableLog_singleton, tableLog_singleton, Changelog.replay_snoc,
        Changelog.replay_snoc, ← hk, ← hk₀]
      exact (hs.log.erase hnodup honly).insert hv (encodedKey_ne_of_unique hinj' hunique')

end

omit [DecidableEq δ] in
/-- The rows of other tables leave the log and the entry of this one alone. -/
theorem Rebuilt.other {s t : Replication (List RowMsg)} {namespaces : Namespaces} {walPos : UInt64}
    {rel' : Table} {change : Change δ} (hs : Rebuilt conv rel index s rows)
    (hne : rel'.relid ≠ rel.relid)
    (h : s.step conv avro sendRow (.change namespaces rel' change walPos) = some t) :
    Rebuilt conv rel index t rows := by
  obtain ⟨msgs, hcall, hcontext⟩ := sent_of_step h
  obtain ⟨r, schemas, rowMsgs, hr, hschemas, hrows, hcache, rfl⟩ := pluginCall_eq_ok hcall
  refine ⟨?_, hs.encoded, ?_⟩
  · intro entry hentry
    rw [hcache, schemaCacheLookup_other hr hne.symm] at hentry
    exact hs.cache entry hentry
  · have hlog : tableLog rel.relid (rowMsgs.filterMap Message.rowMsg) = [] := by
      apply tableLog_eq_nil
      intro msg hmsg
      obtain ⟨m, hm, hsent⟩ := List.mem_filterMap.mp hmsg
      obtain ⟨key, hrow, -⟩ := hrows m hm
      rwa [Message.relid_of_rowMsg hrow hsent]
    rw [hcontext, List.filterMap_append, filterMap_rowMsg_announcement hschemas, List.nil_append,
      tableLog_append, hlog, List.append_nil]
    exact hs.log

/-- **The invariant holds along every history.** -/
theorem rebuilt_of_run (hindex : tableKeyIndex rel = some index) (hname : isAvroId index.relname)
    (hlive : ∀ indkey ∈ index.indkey, LiveColumn rel indkey)
    (hhistory : TableHistory rel index es seen rows) :
    ∀ {s : Replication (List RowMsg)}, InjectiveKeys conv rel index seen →
      run (Replication.step conv avro sendRow) ⟨schemaCacheNew, ⟨frameReaderNew, []⟩⟩ es = some s →
      Rebuilt conv rel index s rows := by
  induction hhistory with
  | empty =>
    intro s _ hrun
    cases hrun
    exact ⟨nofun, nofun, Changelog.represents_nil⟩
  | insert namespaces walPos h hrow hunique ih =>
    intro t hinj hrun
    obtain ⟨s, hs, hstep⟩ := run_snoc_eq_some hrun
    have hseen := (h.insert namespaces walPos hrow hunique).mem_seen
    exact (ih (hinj.mono fun r hr => List.mem_append_left _ hr) hs).insert hindex hname hlive hrow
      (hinj.mono hseen) hunique hstep
  | update namespaces walPos h hmem hold hunique ih =>
    intro t hinj hrun
    obtain ⟨s, hs, hstep⟩ := run_snoc_eq_some hrun
    have hseen := (h.update namespaces walPos hmem hold hunique).mem_seen
    exact (ih (hinj.mono fun r hr => List.mem_append_left _ hr) hs).update hindex hname hlive hmem hold
      (hinj.mono fun r hr => List.mem_append_left _ (h.mem_seen r hr)) h.uniqueKeys
      (hinj.mono hseen) hunique hstep
  | delete namespaces walPos h hmem hold ih =>
    intro t hinj hrun
    obtain ⟨s, hs, hstep⟩ := run_snoc_eq_some hrun
    exact (ih hinj hs).delete hindex hname hlive hmem hold (hinj.mono h.mem_seen) h.uniqueKeys hstep
  | other namespaces walPos change h hne ih =>
    intro t hinj hrun
    obtain ⟨s, hs, hstep⟩ := run_snoc_eq_some hrun
    exact (ih hinj hs).other hne hstep
  | startStreaming h ih =>
    intro t hinj hrun
    obtain ⟨s, hs, hstep⟩ := run_snoc_eq_some hrun
    have hrebuilt := ih hinj hs
    cases hstep
    exact ⟨nofun, hrebuilt.encoded, hrebuilt.log⟩

/-- **The Kafka log of a keyed table rebuilds the table.**  For any history of a table whose key index has
a name that libavro takes and is on live columns, with keys that are unique after each change and encodings that tell them apart, the
messages for the table, folded in order, have under each key the encoding of the row with that key. -/
theorem tableLog_rebuilds (hindex : tableKeyIndex rel = some index) (hname : isAvroId index.relname)
    (hlive : ∀ indkey ∈ index.indkey, LiveColumn rel indkey)
    (hhistory : TableHistory rel index es seen rows) (hinj : InjectiveKeys conv rel index seen)
    {s : Replication (List RowMsg)}
    (hrun : run (Replication.step conv avro sendRow) ⟨schemaCacheNew, ⟨frameReaderNew, []⟩⟩ es =
      some s) :
    (∀ row ∈ rows, ∃ k v, encodedKey conv rel index row = some k ∧
        encodedRow conv rel row = some v) ∧
      ∀ key v, Changelog.replay (tableLog rel.relid s.session.context) key = some v ↔
        ∃ row ∈ rows, encodedKey conv rel index row = key ∧ encodedRow conv rel row = some v := by
  have hrebuilt := rebuilt_of_run hindex hname hlive hhistory hinj hrun
  exact ⟨hrebuilt.encoded, hrebuilt.log⟩

end

/-! A table with a number for each id, from which a column was dropped. -/

def scoresColumns : TupleDesc :=
  ⟨[⟨"id", INT8OID, false⟩, ⟨"gone", INT8OID, true⟩, ⟨"score", INT8OID, false⟩], []⟩

/-- The descriptor of the snapshot query. -/
def scoresResult : TupleDesc := ⟨[⟨"id", INT8OID, false⟩, ⟨"score", INT8OID, false⟩], []⟩

/-- A unique index on one column. -/
def scoresKey (indkey : Int) (column : Attribute) : Index where
  relid := 16400
  relname := "scores_key"
  relnamespace := 2200
  tupdesc := ⟨[column], []⟩
  indisvalid := true
  indisready := true
  indisprimary := false
  indkey := [indkey]
  relid_ne_zero := by decide

/-- The index is the replica identity. -/
def scores (key : Index) : Table where
  relid := 16396
  relname := "scores"
  relnamespace := 2200
  tupdesc := scoresColumns
  relreplident := .index
  replicaIndex := some key
  indexes := [key]

def scoreLetters : Conversions Int64 :=
  { letters with schemaToJson := fun s => if s.name = "scores" then [115] else [107] }

def scoreSchemas (key : Index) : Libavro where
  schemaFromJson
    | [115] => some ((scores key).schema publicOnly)
    | [107] => some (key.schema publicOnly)
    | _ => none
  valueRead := decode fun _ => failure

def score (id score : Int64) : HeapTuple Int64 := ⟨[some id, none, some score], none⟩

/-- A tuple in which only the key is set. -/
def scoreKeyOnly (id : Int64) : HeapTuple Int64 := ⟨[some id, none, none], none⟩

def idKey : Index := scoresKey 1 ⟨"id", INT8OID, false⟩

/-- A row is copied by the snapshot and one is inserted; then the score of the second changes, the id of
the first changes, and the second is deleted. -/
def scoreEvents : List (ReplicationEvent Int64) :=
  [.change publicOnly (scores idKey) (.insert scoresResult ⟨[some 1, some 10], none⟩) 0,
    .startStreaming,
    .change publicOnly (scores idKey) (.insert scoresColumns (score 2 20)) 5,
    .change publicOnly (scores idKey) (.update none (score 2 21)) 6,
    .change publicOnly (scores idKey) (.update (some (scoreKeyOnly 1)) (score 3 10)) 7,
    .change publicOnly (scores idKey) (.delete (some (scoreKeyOnly 2))) 8]

theorem scoreEvents_history : TableHistory (scores idKey) idKey scoreEvents
    [score 1 10, score 2 20, score 2 21, score 3 10] [score 3 10] := by
  have h₁ : TableHistory (scores idKey) idKey (scoreEvents.take 2) [score 1 10] [score 1 10] :=
    (TableHistory.empty.insert publicOnly 0 (.withoutDropped rfl rfl) (by decide)).startStreaming
  have h₂ : TableHistory (scores idKey) idKey (scoreEvents.take 3) [score 1 10, score 2 20]
      [score 1 10, score 2 20] :=
    h₁.insert publicOnly 5 .whole (by decide)
  have h₃ : TableHistory (scores idKey) idKey (scoreEvents.take 4)
      [score 1 10, score 2 20, score 2 21] [score 1 10, score 2 21] :=
    h₂.update publicOnly 6 (by simp : score 2 20 ∈ _) (by rfl) (by decide)
  have h₄ : TableHistory (scores idKey) idKey (scoreEvents.take 5)
      [score 1 10, score 2 20, score 2 21, score 3 10] [score 2 21, score 3 10] :=
    h₃.update publicOnly 7 (by simp : score 1 10 ∈ _) (by rfl) (by decide)
  exact h₄.delete publicOnly 8 (by simp : score 2 21 ∈ _) (by rfl)

theorem tableLog_rebuilds_scores :
    ∃ s, run (Replication.step scoreLetters (scoreSchemas idKey) sendRow)
        ⟨schemaCacheNew, ⟨frameReaderNew, []⟩⟩ scoreEvents = some s ∧
      ((∀ row ∈ [score 3 10], ∃ k v, encodedKey scoreLetters (scores idKey) idKey row = some k ∧
          encodedRow scoreLetters (scores idKey) row = some v) ∧
        ∀ key v, Changelog.replay (tableLog 16396 s.session.context) key = some v ↔
          ∃ row ∈ [score 3 10], encodedKey scoreLetters (scores idKey) idKey row = key ∧
            encodedRow scoreLetters (scores idKey) row = some v) := by
  have hlive : ∀ indkey ∈ idKey.indkey, LiveColumn (scores idKey) indkey := by
    rintro _ (_ | ⟨_, ⟨⟩⟩)
    exact ⟨by decide, _, rfl, rfl⟩
  have hinj : InjectiveKeys scoreLetters (scores idKey) idKey
      [score 1 10, score 2 20, score 2 21, score 3 10] := by
    decide +kernel
  obtain ⟨s, hrun⟩ : ∃ s, run (Replication.step scoreLetters (scoreSchemas idKey) sendRow)
      ⟨schemaCacheNew, ⟨frameReaderNew, []⟩⟩ scoreEvents = some s := ⟨_, rfl⟩
  exact ⟨s, hrun, tableLog_rebuilds rfl (by decide) hlive scoreEvents_history hinj hrun⟩

/-! The same table WITH OIDS, and an index on the object id. -/

def oidKey : Index := scoresKey objectIdAttributeNumber ⟨"oid", OIDOID, false⟩

def scoreWithOid (id score oid : Int64) : HeapTuple Int64 := ⟨[some id, none, some score], some oid⟩

/-- Two rows with different object ids and the same id. -/
def scoreEventsWithOid : List (ReplicationEvent Int64) :=
  [.change publicOnly (scores oidKey) (.insert scoresColumns (scoreWithOid 7 10 1)) 5,
    .change publicOnly (scores oidKey) (.insert scoresColumns (scoreWithOid 7 20 2)) 6]

theorem scoreEventsWithOid_history : TableHistory (scores oidKey) oidKey scoreEventsWithOid
    [scoreWithOid 7 10 1, scoreWithOid 7 20 2] [scoreWithOid 7 10 1, scoreWithOid 7 20 2] := by
  have h : TableHistory (scores oidKey) oidKey (scoreEventsWithOid.take 1) [scoreWithOid 7 10 1]
      [scoreWithOid 7 10 1] :=
    TableHistory.empty.insert publicOnly 5 .whole (by decide)
  exact h.insert publicOnly 6 .whole (by decide)

/-- **A log that is not the table.**  The key index is on the object id, so the keys of the two rows
differ and so do their encodings, but both rows are sent under the value of the first column. -/
theorem tableLog_rebuilds_not_for_oid :
    tableKeyIndex (scores oidKey) = some oidKey ∧
      TableHistory (scores oidKey) oidKey scoreEventsWithOid
        [scoreWithOid 7 10 1, scoreWithOid 7 20 2] [scoreWithOid 7 10 1, scoreWithOid 7 20 2] ∧
      InjectiveKeys scoreLetters (scores oidKey) oidKey [scoreWithOid 7 10 1, scoreWithOid 7 20 2] ∧
      ∃ s, run (Replication.step scoreLetters (scoreSchemas oidKey) sendRow)
          ⟨schemaCacheNew, ⟨frameReaderNew, []⟩⟩ scoreEventsWithOid = some s ∧
        s.session.context =
          [⟨16396, some [2, 14], some [2, 14, 2, 20]⟩, ⟨16396, some [2, 14], some [2, 14, 2, 40]⟩] ∧
        ¬∀ key v, Changelog.replay (tableLog 16396 s.session.context) key = some v ↔
          ∃ row ∈ [scoreWithOid 7 10 1, scoreWithOid 7 20 2],
            encodedKey scoreLetters (scores oidKey) oidKey row = key ∧
              encodedRow scoreLetters (scores oidKey) row = some v := by
  obtain ⟨s, hrun, hsent⟩ : ∃ s, run (Replication.step scoreLetters (scoreSchemas oidKey) sendRow)
        ⟨schemaCacheNew, ⟨frameReaderNew, []⟩⟩ scoreEventsWithOid = some s ∧
      s.session.context =
        [⟨16396, some [2, 14], some [2, 14, 2, 20]⟩, ⟨16396, some [2, 14], some [2, 14, 2, 40]⟩] :=
    ⟨_, rfl, rfl⟩
  refine ⟨rfl, scoreEventsWithOid_history, by decide +kernel, s, hrun, hsent, ?_⟩
  intro h
  -- the first row should be under the encoding of its object id, 1
  have hfirst := (h (some [2, 2]) [2, 14, 2, 20]).mpr ⟨scoreWithOid 7 10 1, by simp, rfl, rfl⟩
  rw [hsent] at hfirst
  revert hfirst
  decide

end BottledWater.Protocol
