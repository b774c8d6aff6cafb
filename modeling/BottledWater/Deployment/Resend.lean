/-
# BottledWater.Deployment.Resend — a client that is started again sends the same records.

`Cluster.StreamsFromSlot` assumes that a transaction is decoded into the same messages every time.  Nothing
that the program keeps makes it so: after a restart the plugin has an empty schema cache, the client an empty schema list and
the producer an empty table mapper, every table is announced again, and the stream may begin at another
transaction, after the announcements of the first client.  What a row is sent as does not depend on any of
this (`Emits.unique`), apart from the ids that the registry answers with.

Assumed of the registry is what `SchemaIds` assumes, for the answers to both clients together: the same id
exactly for identical schemas.
-/
import BottledWater.Deployment.Cluster
import BottledWater.Deployment.Pipeline

namespace BottledWater.Deployment

open BottledWater.Lib BottledWater.Lib.Avro BottledWater.Client BottledWater.Ext BottledWater.Ext.Logdecoder
open BottledWater.Protocol BottledWater.Kafka

/-! ## §1 — A stream has its transactions in one way -/

theorem Row.event_injective : Function.Injective Row.event := by
  rintro ⟨walPos, relid, record⟩ ⟨walPos', relid', record'⟩ h
  cases h
  rfl

/-- The rows of a transaction end at its commit. -/
theorem rows_append_inj {rows rows' : List Row} {lsn lsn' : UInt64} {xid xid' : UInt32}
    {more more' : List Event} (h : rows.map Row.event ++ .onCommitTxn lsn xid :: more =
      rows'.map Row.event ++ .onCommitTxn lsn' xid' :: more') :
    rows = rows' ∧ lsn = lsn' ∧ more = more' := by
  induction rows generalizing rows' with
  | nil =>
    cases rows' with
    | nil =>
      obtain ⟨hcommit, hmore⟩ := List.cons.inj h
      exact ⟨rfl, (Event.onCommitTxn.inj hcommit).1, hmore⟩
    | cons row' rows' => cases (List.cons.inj h).1
  | cons row rows ih =>
    cases rows' with
    | nil => cases (List.cons.inj h).1
    | cons row' rows' =>
      obtain ⟨hrow, hrest⟩ := List.cons.inj h
      obtain ⟨rfl, hlsn, hmore⟩ := ih hrest
      exact ⟨by rw [Row.event_injective hrow], hlsn, hmore⟩

theorem WalTxn.events_append_inj {t u : WalTxn} {more more' : List Event}
    (h : t.events ++ more = u.events ++ more') : t = u ∧ more = more' := by
  obtain ⟨xid, rows, commitLsn, _, _⟩ := t
  obtain ⟨xid', rows', commitLsn', _, _⟩ := u
  simp only [WalTxn.events, List.cons_append, List.append_assoc, List.nil_append] at h
  obtain ⟨hbegin, hrest⟩ := List.cons.inj h
  obtain rfl := Event.onBeginTxn.inj hbegin
  obtain ⟨rfl, rfl, hmore⟩ := rows_append_inj hrest
  exact ⟨rfl, hmore⟩

theorem stream_injective : Function.Injective stream := by
  intro ts us h
  induction ts generalizing us with
  | nil =>
    cases us with
    | nil => rfl
    | cons u us => cases h
  | cons t ts ih =>
    cases us with
    | nil => cases h
    | cons u us =>
      obtain ⟨rfl, hrest⟩ := WalTxn.events_append_inj h
      rw [ih hrest]

/-! ## §2 — What the registry said decides how a row is sent -/

/-- The second naming has all the answers of the first. -/
structure Naming.Within (n m : Naming) : Prop where
  avro : n.avro = m.avro
  topicPrefix : n.topicPrefix = m.topicPrefix
  registered : n.registered ⊆ m.registered

section

variable {n m : Naming} {conv : Conversions Datum} {walPos : UInt64}

theorem Naming.Tagged.mono {schema : Option Schema} {bin sent : Option Bytes} (h : n.Tagged schema bin sent)
    (hwithin : n.Within m) : m.Tagged schema bin sent := by
  obtain ⟨id, hsent, hid⟩ := h
  refine ⟨id, hsent, ?_⟩
  intro hbin
  obtain ⟨hschema, text, hmem, hparse⟩ := hid hbin
  exact ⟨hschema, text, hwithin.registered hmem, hwithin.avro ▸ hparse⟩

theorem RowSent.mono {namespaces : Namespaces} {rel : Table} {msg : RowMsg} {row : Row}
    (h : RowSent n walPos namespaces rel msg row) (hwithin : n.Within m) :
    RowSent m walPos namespaces rel msg row :=
  let ⟨now, hnow, hkey, hval⟩ := h.tagged
  ⟨h.walPos, h.table, h.relid, hwithin.topicPrefix ▸ h.topic, now, hnow, hkey.mono hwithin, hval.mono hwithin⟩

theorem Emits.mono {call : DecodingCall Datum} {es : List Event} (h : Emits conv n walPos call es)
    (hwithin : n.Within m) : Emits conv m walPos call es := by
  cases h with
  | beginTxn xid => exact .beginTxn xid
  | commitTxn xid commitLsn => exact .commitTxn xid commitLsn
  | change hcalls hrows => exact .change hcalls (hrows.imp fun _ _ hrow => hrow.mono hwithin)

open Classical in
/-- The id that the registry has given a schema. -/
noncomputable def Naming.idOf (n : Naming) (schema : Option Schema) : Int32 :=
  ((n.registered.find? (n.avro.schemaFromJson ·.1 = schema)).map Prod.snd).getD schemaIdMissing

theorem Naming.idOf_eq (hsame : SameIds n.avro n.registered) {schema : Option Schema} {text : Bytes} {id : Int32}
    (hmem : (text, id) ∈ n.registered) (hparse : n.avro.schemaFromJson text = schema) : n.idOf schema = id := by
  classical
  unfold Naming.idOf
  cases hfind : n.registered.find? (n.avro.schemaFromJson ·.1 = schema) with
  | none => exact absurd hparse (by simpa using List.find?_eq_none.mp hfind _ hmem)
  | some r =>
    have hr : n.avro.schemaFromJson r.1 = schema := by simpa using List.find?_some hfind
    exact (hsame r (List.mem_of_find?_eq_some hfind) _ hmem).mpr (hr.trans hparse.symm)

/-- There is one id to send a value with. -/
theorem Naming.Tagged.eq_idOf (hsame : SameIds n.avro n.registered) {schema : Option Schema}
    {bin sent : Option Bytes} (h : n.Tagged schema bin sent) : sent = addSchemaPrefix (n.idOf schema) bin := by
  obtain ⟨id, rfl, hid⟩ := h
  cases bin with
  | none => rfl
  | some payload =>
    obtain ⟨-, text, hmem, hparse⟩ := hid rfl
    rw [n.idOf_eq hsame hmem hparse]

theorem RowSent.unique (hsame : SameIds n.avro n.registered) {namespaces : Namespaces} {rel : Table}
    {msg : RowMsg} {row row' : Row} (h : RowSent n walPos namespaces rel msg row)
    (h' : RowSent n walPos namespaces rel msg row') : row = row' := by
  obtain ⟨pos, relid, topic, key, val⟩ := row
  obtain ⟨pos', relid', topic', key', val'⟩ := row'
  obtain rfl : pos = pos' := h.walPos.trans h'.walPos.symm
  obtain rfl : relid = relid' := h.relid.trans h'.relid.symm
  obtain rfl : topic = topic' := Except.ok.inj (h.topic.symm.trans h'.topic)
  obtain ⟨now, hnow, hkey, hval⟩ := h.tagged
  obtain rfl : key = key' := (hkey.eq_idOf hsame).trans ((h'.key hnow).eq_idOf hsame).symm
  obtain rfl : val = val' := (hval.eq_idOf hsame).trans ((h'.val hnow).eq_idOf hsame).symm
  rfl

/-- **A call has one list of events.** -/
theorem Emits.unique (hsame : SameIds n.avro n.registered) {call : DecodingCall Datum} {es es' : List Event}
    (h : Emits conv n walPos call es) (h' : Emits conv n walPos call es') : es = es' := by
  cases h with
  | beginTxn xid =>
    cases h'
    rfl
  | commitTxn xid commitLsn =>
    cases h'
    rfl
  | change hcalls hrows =>
    cases h' with
    | change hcalls' hrows' =>
      obtain rfl := Option.some.inj (hcalls.symm.trans hcalls')
      rw [List.right_unique_forall₂' (fun _ _ _ h h' => h.unique hsame h') hrows hrows']

/-! ## §3 — Transactions -/

theorem TxnSent.emits {t : DecodedTxn} {w : WalTxn} (h : TxnSent conv n t w) :
    ∃ ess, List.Forall₂ (fun c => Emits conv n c.1 c.2) t.calls ess ∧ ess.flatten = w.events := by
  obtain ⟨rowss, hchanges, hrows⟩ := h.rows
  refine ⟨[.onBeginTxn t.xid] :: (rowss.map (List.map Row.event) ++ [[.onCommitTxn t.commitPos t.xid]]), ?_, ?_⟩
  · refine .cons (.beginTxn t.xid) (List.rel_append ?_ (.cons (.commitTxn t.xid t.commitLsn) .nil))
    rw [List.forall₂_map_left_iff, List.forall₂_map_right_iff]
    refine hchanges.imp ?_
    rintro c rows ⟨calls, hcalls, hsent⟩
    exact .change hcalls hsent
  · rw [WalTxn.events, h.xid, h.commitLsn, hrows, List.map_flatten]
    simp

theorem emits_of_txnSent {ts : List DecodedTxn} {ws : List WalTxn} (h : List.Forall₂ (TxnSent conv n) ts ws) :
    ∃ ess, List.Forall₂ (fun c => Emits conv n c.1 c.2) (ts.flatMap DecodedTxn.calls) ess ∧
      ess.flatten = stream ws := by
  induction h with
  | nil => exact ⟨[], .nil, rfl⟩
  | cons ht _ ih =>
    obtain ⟨es, hes, hevents⟩ := ht.emits
    obtain ⟨ess, hess, hstream⟩ := ih
    refine ⟨es ++ ess, List.rel_append hes hess, ?_⟩
    rw [List.flatten_append, hevents, hstream]
    rfl

/-- What is sent from a position on. -/
theorem txnSent_after {ts : List DecodedTxn} {ws : List WalTxn} (h : List.Forall₂ (TxnSent conv n) ts ws)
    (start : UInt64) :
    List.Forall₂ (TxnSent conv n) (ts.filter (start < ·.commitPos)) (txnsAfter ws start) := by
  refine List.rel_filter ?_ h
  intro t w ht
  simp only [decide_eq_true_eq, ht.commitLsn]

/-- The events of the first calls are the first events. -/
theorem firstEvents_of_firstCalls (hsame : SameIds n.avro n.registered)
    {calls calls' : List (UInt64 × DecodingCall Datum)} {ess ess' : List (List Event)} (hcalls : calls <+: calls')
    (h : List.Forall₂ (fun c => Emits conv n c.1 c.2) calls ess)
    (h' : List.Forall₂ (fun c => Emits conv n c.1 c.2) calls' ess') : ess.flatten <+: ess'.flatten := by
  have htake := List.forall₂_take calls.length h'
  rw [← List.prefix_iff_eq_take.mp hcalls] at htake
  obtain rfl : ess = ess'.take calls.length :=
    List.right_unique_forall₂' (fun _ _ _ h h' => h.unique hsame h') h htake
  exact (List.take_prefix _ _).flatten

end

/-! ## §4 — Two clients -/

section

variable {pg : Postgres} {conv : Conversions Datum} {config : ProducerConfig}
  (hdesc : ∀ a b, conv.equalTupleDescs a b = true → a.live = b.live)
  (hconv : ∀ column, columnValue conv column = avroValue pg column)
  (hread : config.lib.avro.valueRead = decode readPredefined)
  (hempty : config.lib.avro.schemaFromJson [] = none) (hformat : config.outputFormat = .avro)
  {registryUrl registryUrl' topicPrefix : Option String} {h h' : Handler}

include hdesc hconv hread hempty hformat

/-- **A client that is started again sends what another one sends.**  Let one client handle the frames of the
transactions `ts` from the first to the last, so that its callbacks are those of `ws`.  Let another client be
started, in any life of the deployment, at the position `start`, and let it have handled the frames of as many
decoding calls as it likes: its callbacks are the first ones of the transactions of `ws` after that position, and
all of them if there were no more calls. -/
theorem restarted_client_follows {ts : List DecodedTxn} {ws : List WalTxn}
    (hts : ∀ t ∈ ts, ∀ c ∈ t.changes, SchemasPrintable conv config.lib.avro c.namespaces c.rel ∧ LiveKey c.rel)
    (hrun : pipeline conv config registryUrl topicPrefix (ts.flatMap DecodedTxn.calls) = some h)
    (hws : h.events = stream ws) (start : UInt64) {calls : List (UInt64 × DecodingCall Datum)}
    (hcalls : calls <+: (ts.filter (start < ·.commitPos)).flatMap DecodedTxn.calls)
    (hrun' : pipeline conv config registryUrl' topicPrefix calls = some h')
    (hsame : SameIds config.lib.avro (h.registered ++ h'.registered)) :
    h'.events <+: stream (txnsAfter ws start) ∧
      (calls = (ts.filter (start < ·.commitPos)).flatMap DecodedTxn.calls →
        h'.events = stream (txnsAfter ws start)) := by
  have hafter : ∀ t ∈ ts.filter (start < ·.commitPos), ∀ c ∈ t.changes,
      SchemasPrintable conv config.lib.avro c.namespaces c.rel ∧ LiveKey c.rel :=
    fun t ht => hts t (List.mem_of_mem_filter ht)
  have hsendable : ∀ c ∈ calls, Sendable conv config.lib.avro c.2 :=
    fun c hc => sendable_calls hafter c (hcalls.subset hc)
  obtain ⟨ess, hevents, hemits⟩ := emits_of_pipeline hdesc hconv hread hempty hformat (sendable_calls hts) hrun
  obtain ⟨ess', hevents', hemits'⟩ := emits_of_pipeline hdesc hconv hread hempty hformat hsendable hrun'
  -- the answers to both clients, taken together
  let n : Naming := ⟨config.lib.avro, h.registered ++ h'.registered, topicPrefix⟩
  have hwithin : Naming.Within ⟨config.lib.avro, h.registered, topicPrefix⟩ n :=
    ⟨rfl, rfl, List.subset_append_left _ _⟩
  have hwithin' : Naming.Within ⟨config.lib.avro, h'.registered, topicPrefix⟩ n :=
    ⟨rfl, rfl, List.subset_append_right _ _⟩
  obtain ⟨ws', hsent, hstream⟩ := emits_txns (hemits.imp fun _ _ h => h.mono hwithin)
  obtain rfl : ws' = ws := stream_injective (hstream.symm.trans (hevents.symm.trans hws))
  obtain ⟨later, hlater, hflatten⟩ := emits_of_txnSent (txnSent_after hsent start)
  have hmine := hemits'.imp fun _ _ h => h.mono hwithin'
  rw [hevents', ← hflatten]
  refine ⟨firstEvents_of_firstCalls hsame hcalls hmine hlater, ?_⟩
  rintro rfl
  rw [List.right_unique_forall₂' (fun _ _ _ h h' => h.unique hsame h') hmine hlater]

end

/-! A client is started after the first of two transactions, and has handled the first row of the second. -/

/-- The row is deleted. -/
def visitsEndTxn : DecodedTxn where
  xid := 741
  beginPos := 290
  changes := [⟨291, publicOnly, visits, .delete (some (visit 6))⟩]
  commitPos := 299
  commitLsn := 298
  xid_ne := by decide
  commitPos_ne := by decide

theorem visitsEndTxn_sendable : ∀ c ∈ visitsEndTxn.changes,
    SchemasPrintable calendarConversions calendarSchemas c.namespaces c.rel ∧ LiveKey c.rel :=
  List.forall_mem_singleton.mpr (visits_sendable (.delete none))

/-- Two schemas that are told apart by their names, with the ids 107 and 118. -/
theorem sameIds_letters {avro : Libavro} {registered : List (Bytes × Int32)}
    (hnames : (avro.schemaFromJson [107]).map Schema.name ≠ (avro.schemaFromJson [118]).map Schema.name)
    (hletters : registered ⊆ [([107], 107), ([118], 118)]) : SameIds avro registered := by
  refine SameIds.mono ?_ hletters
  intro a ha b hb
  rcases List.mem_pair.mp ha with rfl | rfl <;> rcases List.mem_pair.mp hb with rfl | rfl
  · exact iff_of_true rfl rfl
  · exact iff_of_false (by decide) fun h => hnames (congrArg (Option.map Schema.name) h)
  · exact iff_of_false (by decide) fun h => hnames (congrArg (Option.map Schema.name) h.symm)
  · exact iff_of_true rfl rfl

theorem sameIds_calendar {registered : List (Bytes × Int32)}
    (hletters : registered ⊆ [([107], 107), ([118], 118)]) : SameIds calendarSchemas registered :=
  sameIds_letters (by decide) hletters

theorem restarted_client_follows_visits :
    ∃ h h' ws, (pipeline calendarConversions calendarConfig none (some "pg")
          ([visitsTxn, visitsEndTxn].flatMap DecodedTxn.calls) = some h ∧ h.events = stream ws ∧
        pipeline calendarConversions calendarConfig none (some "pg") (visitsEndTxn.calls.take 2) = some h' ∧
        h'.events.length = 2) ∧
      h'.events <+: stream (txnsAfter ws 199) := by
  have hts : ∀ t ∈ [visitsTxn, visitsEndTxn], ∀ c ∈ t.changes,
      SchemasPrintable calendarConversions calendarSchemas c.namespaces c.rel ∧ LiveKey c.rel := by
    rw [List.forall_mem_cons, List.forall_mem_singleton]
    exact ⟨visitsTxn_sendable, visitsEndTxn_sendable⟩
  have hfirst : (pipeline calendarConversions calendarConfig none (some "pg")
      ([visitsTxn, visitsEndTxn].flatMap DecodedTxn.calls)).map Handler.registered =
        some [([107], 107), ([118], 118)] := by decide +kernel
  have hsecond : (pipeline calendarConversions calendarConfig none (some "pg")
      (visitsEndTxn.calls.take 2)).map (fun h => (h.registered, h.events.length)) =
        some ([([107], 107), ([118], 118)], 2) := by decide +kernel
  obtain ⟨h, hrun, hregistered⟩ := Option.map_eq_some_iff.mp hfirst
  obtain ⟨h', hrun', hsecond'⟩ := Option.map_eq_some_iff.mp hsecond
  obtain ⟨hregistered', hlength⟩ := Prod.mk.inj hsecond'
  have hsame : SameIds calendarSchemas (h.registered ++ h'.registered) := by
    rw [hregistered, hregistered']
    exact sameIds_calendar (by decide)
  obtain ⟨ess, hevents, hemits⟩ := emits_of_pipeline calendar_desc (columnValue_conversions _ _ _) rfl rfl rfl
    (sendable_calls hts) hrun
  obtain ⟨ws, -, hstream⟩ := emits_txns hemits
  refine ⟨h, h', ws, ⟨hrun, hevents.trans hstream, hrun', hlength⟩, ?_⟩
  exact (restarted_client_follows calendar_desc (columnValue_conversions _ _ _) rfl rfl rfl hts hrun
    (hevents.trans hstream) 199 (List.take_prefix _ _) hrun' hsame).1

end BottledWater.Deployment
