/-
# BottledWater.Deployment.Recovery — no state of the deployment is beyond recovery.

`Deployment.Cluster` says what a restarted client would have to send; this module says that it can.  From
every state that the deployment can reach in an orderly run, wherever its clients were stopped and whichever
transactions were half sent, stopping the client and starting it again can lead, in an orderly way, to a log
that is complete and a slot that has confirmed all of it (`recovers`).

The run is the plainest one there is: each row is stored and reported before the next is read.  What has
to be shown about it is that the client never stands in its own way.  The ring is not full when nothing is
in flight, the commit is that of the transaction at the head, and the last checkpoint is that of the last
transaction.
-/
import BottledWater.Deployment.Cluster
import BottledWater.Kafka.Backpressure

namespace BottledWater.Deployment

open BottledWater.Lib BottledWater.Kafka BottledWater.Client

/-! ## §1 — A client with nothing under way -/

/-- **`c.Reading read system unstored unacked`** — a client that runs: the events it has read, its state, and
the messages that are not stored or not reported. -/
structure Cluster.Reading (c : Cluster) (read : List Event) (system : System)
    (unstored unacked : List (Message × KafkaRecord)) : Prop where
  streaming : c.Streaming
  alive : c.session.alive = true
  system : c.session.system = system
  unstored : c.session.unstored = unstored
  unacked : c.session.unacked = unacked
  read : streamed c.session.events = read

/-- **`c.Quiet read`** — the client is in its main loop, and everything it sent was reported. -/
def Cluster.Quiet (c : Cluster) (read : List Event) : Prop :=
  ∃ system, c.Reading read system [] [] ∧ system.control = .ready

/-- **`Kept c c'`** — the client has got on with its work, and nothing else has happened. -/
structure Kept (c c' : Cluster) : Prop where
  wal : c'.wal = c.wal
  confirmed : c'.confirmed = c.confirmed
  start : c'.session.start = c.session.start
  updates : c'.session.updates = c.session.updates

theorem Kept.refl (c : Cluster) : Kept c c := ⟨rfl, rfl, rfl, rfl⟩

theorem Kept.trans {c c' c'' : Cluster} (h : Kept c c') (h' : Kept c' c'') : Kept c c'' :=
  ⟨h'.wal.trans h.wal, h'.confirmed.trans h.confirmed, h'.start.trans h.start,
    h'.updates.trans h.updates⟩

theorem Kept.sent {c c' : Cluster} (h : Kept c c') : c'.sent = c.sent := by
  rw [Cluster.sent, Cluster.sent, h.wal, h.start]

section

variable {c : Cluster} (partition : String → Option (List UInt8) → Nat) {read : List Event}

variable {system : System} {unstored unacked : List (Message × KafkaRecord)}

theorem Cluster.Reading.run (h : c.Reading read system unstored unacked) :
    System.Run false c.session.events system := by
  rw [← h.system]
  exact h.streaming.run

theorem Cluster.Reading.queue (h : c.Reading read system unstored unacked) :
    system.queue.Perm ((unstored ++ unacked).map Prod.fst) := by
  rw [← h.system, ← h.unstored, ← h.unacked]
  exact h.streaming.queue

/-- In the main loop, nothing is in flight but what is in the queue. -/
theorem Cluster.Reading.inFlight (h : c.Reading read system [] []) (hready : system.control = .ready) :
    system.inFlight = [] := by
  obtain ⟨hidle, -⟩ := System.run_coupled h.run
  rw [System.inFlight, hidle (Or.inl hready), h.queue.eq_nil]
  rfl

theorem Cluster.Reading.pgPhase_eq (h : c.Reading read system unstored unacked) :
    pgPhase c.session.events = pgPhase read := by
  rw [pgPhase, run_next_streamed, h.read]
  rfl

/-- **`Leads partition c es c'`** — these events lead from `c` to `c'`, in an orderly way. -/
structure Leads (c : Cluster) (es : List ClusterEvent) (c' : Cluster) : Prop where
  orderly : Along Cluster.step (Cluster.Orderly partition) c es
  run : run Cluster.step c es = some c'

variable {partition} {es es' : List ClusterEvent} {c' c'' : Cluster}

theorem leads_nil : Leads partition c [] c := ⟨trivial, rfl⟩

theorem leads_singleton {e : ClusterEvent} (horderly : c.Orderly partition e) (hstep : c.step e = some c') :
    Leads partition c [e] c' := by
  refine ⟨⟨horderly, fun _ _ => trivial⟩, ?_⟩
  rw [run_cons, hstep]
  rfl

theorem Leads.append (h : Leads partition c es c') (h' : Leads partition c' es' c'') :
    Leads partition c (es ++ es') c'' := by
  refine ⟨h.orderly.append h.run h'.orderly, ?_⟩
  rw [run_append, h.run]
  exact h'.run

/-- A callback that the stream allows and the client accepts. -/
theorem Cluster.Reading.client (h : c.Reading read system unstored unacked) {e : Event} {system' : System}
    (hfollows : read ++ [e].filter fromPostgres <+: stream c.sent)
    (hreports : ∀ m ∈ c.session.reported e, m ∈ c.session.unacked.map Prod.fst)
    (hstep : system.step e = some system') :
    ∃ c', Leads partition c [.client e] c' ∧ Kept c c' ∧
      c'.Reading (read ++ [e].filter fromPostgres) system'
        (unstored ++ system'.produced.drop system.produced.length) (c.session.unackedAfter e) := by
  have hread : streamed (c.session.events ++ [e]) = read ++ [e].filter fromPostgres := by
    rw [streamed, List.filter_append, ← streamed, h.read]
  rw [← hread] at hfollows
  rw [← h.system] at hstep
  refine ⟨{ c with session := c.session.after e system' }, leads_singleton ?_ ?_, ⟨rfl, rfl, rfl, rfl⟩, ?_⟩
  · exact ⟨⟨trivial, hfollows, trivial, hreports, trivial⟩, trivial, trivial⟩
  · simp only [Cluster.step, h.alive, hstep, if_true, Option.map_some]
  · refine ⟨h.streaming.client hfollows hreports hstep, h.alive, rfl, ?_, rfl, hread⟩
    show c.session.unstored ++ system'.produced.drop c.session.system.produced.length = _
    rw [h.unstored, h.system]

/-- A callback that Kafka causes. -/
theorem Cluster.Reading.fromKafka (h : c.Reading read system unstored unacked) {e : Event} {system' : System}
    (hpg : fromPostgres e = false) (hreports : ∀ m ∈ c.session.reported e, m ∈ c.session.unacked.map Prod.fst)
    (hstep : system.step e = some system') :
    ∃ c', Leads partition c [.client e] c' ∧ Kept c c' ∧
      c'.Reading read system' (unstored ++ system'.produced.drop system.produced.length)
        (c.session.unackedAfter e) := by
  have hnone : [e].filter fromPostgres = [] := by
    rw [List.filter_cons_of_neg (by simp [hpg]), List.filter_nil]
  have hfollows : read ++ [e].filter fromPostgres <+: stream c.sent := by
    rw [hnone, List.append_nil, ← h.read]
    exact h.streaming.follows
  obtain ⟨c', hc', hkept, hreading⟩ := h.client hfollows hreports hstep
  rw [hnone, List.append_nil] at hreading
  exact ⟨c', hc', hkept, hreading⟩

/-- The first message that waits can be stored. -/
theorem Cluster.Reading.store {p : Message × KafkaRecord}
    (h : c.Reading read system (p :: unstored) unacked) :
    ∃ c', Leads partition c [.store 0] c' ∧ Kept c c' ∧ c'.Reading read system unstored (unacked ++ [p]) := by
  have hp : c.session.unstored[0]? = some p := by
    rw [h.unstored]
    rfl
  refine ⟨c.store 0 p, leads_singleton ?_ ?_, ⟨rfl, rfl, rfl, rfl⟩, ?_⟩
  · refine ⟨⟨trivial, trivial, trivial, trivial, trivial⟩, ?_, trivial⟩
    intro q _ r hr
    cases hr
  · simp [Cluster.step, hp]
  · refine ⟨h.streaming.store hp, h.alive, h.system, ?_, ?_, h.read⟩
    · show c.session.unstored.eraseIdx 0 = unstored
      rw [h.unstored]
      rfl
    · show c.session.unacked ++ [p] = _
      rw [h.unacked]

/-- A callback from Postgres after which the client is back in its main loop, and sent nothing. -/
theorem Cluster.Reading.next (h : c.Reading read system [] []) {e : Event} {system' : System}
    (hpg : fromPostgres e = true) (hfollows : read ++ [e] <+: stream c.sent)
    (hstep : system.step e = some system') (hready : system'.control = .ready)
    (hproduced : system'.produced = system.produced) :
    ∃ c', Leads partition c [.client e] c' ∧ Kept c c' ∧ c'.Quiet (read ++ [e]) := by
  have hone : [e].filter fromPostgres = [e] := by rw [List.filter_cons_of_pos hpg, List.filter_nil]
  have hne : ∀ i, e ≠ .onDeliverMsg i false := by
    rintro i rfl
    cases hpg
  obtain ⟨c', hc', hkept, hreading⟩ := h.client (by rwa [hone]) (reports_of_ne hne) hstep
  rw [hone, hproduced, List.drop_length, List.append_nil, unackedAfter_of_ne hne, h.unacked] at hreading
  exact ⟨c', hc', hkept, system', hreading, hready⟩

/-! ## §2 — One transaction -/

/-- **A transaction begins**: with nothing in flight the ring has a free slot. -/
theorem Cluster.Quiet.begin {done : List WalTxn} (h : c.Quiet (stream done)) {xid : UInt32}
    (hxid : xid ≠ 0) (hfollows : stream done ++ [.onBeginTxn xid] <+: stream c.sent) :
    ∃ c', Leads partition c [.client (.onBeginTxn xid)] c' ∧ Kept c c' ∧
      c'.Quiet (stream done ++ [.onBeginTxn xid]) := by
  obtain ⟨s, hreading, hready⟩ := h
  have hpg := fromPostgres_of_streamed hreading.streaming.follows
  obtain ⟨lo, hc, hex⟩ := System.run_exact hreading.run hpg
  obtain ⟨p, hp, hphase⟩ := pgPhase_stream done
  have hist := System.run_history hreading.run (hreading.pgPhase_eq.trans hphase)
  have hmay : s.MayBegin p := by
    refine Or.inl ⟨hready, ?_⟩
    rcases hp with rfl | rfl <;> rfl
  have hfree : ¬ s.ctx.xactListFull := by
    intro hfull
    obtain ⟨m, hm, -⟩ := System.exists_inFlight_of_full hc hist hex (hmay.closed hist) hfull
    rw [hreading.inFlight hready] at hm
    cases hm
  have hstep : s.step (.onBeginTxn xid) = some (s.tryBegin xid) := by
    rw [System.step, if_pos hready, System.onBeginTxn, if_neg hxid]
  refine hreading.next rfl hfollows hstep ?_ ?_ <;> rw [System.tryBegin, if_neg hfree]

/-- **A transaction commits**: it is the one at the head of the ring. -/
theorem Cluster.Quiet.commit {done : List WalTxn} {t : WalTxn} {rows : List Row}
    (h : c.Quiet (stream done ++ .onBeginTxn t.xid :: rows.map Row.event))
    (hfollows : stream done ++ .onBeginTxn t.xid :: rows.map Row.event ++
      [.onCommitTxn t.commitLsn t.xid] <+: stream c.sent) :
    ∃ c', Leads partition c [.client (.onCommitTxn t.commitLsn t.xid)] c' ∧ Kept c c' ∧
      c'.Quiet (stream done ++ .onBeginTxn t.xid :: rows.map Row.event ++
        [.onCommitTxn t.commitLsn t.xid]) := by
  obtain ⟨s, hreading, hready⟩ := h
  obtain ⟨-, lo, hc⟩ := System.run_coupled hreading.run
  obtain ⟨p, hp, hphase⟩ := pgPhase_stream done
  have hphase' : pgPhase c.session.events = some (.txn t.xid) := by
    rw [hreading.pgPhase_eq, pgPhase, run_append]
    change run PgPhase.next .start (stream done) = some p at hphase
    rw [hphase]
    exact run_next_rows hp t rows
  have hcurrent := (System.run_history hreading.run hphase').commitsCurrent hc hready rfl
  have hstep : s.step (.onCommitTxn t.commitLsn t.xid) =
      some (s.noteCommit t.commitLsn).maybeCheckpoint := by
    rw [System.step, if_pos hready, System.onCommitTxn, if_pos hcurrent]
  exact hreading.next rfl hfollows hstep hready rfl

/-- Kafka accepts the message that is sent. -/
theorem Cluster.Reading.produce (h : c.Reading read system unstored unacked) {m : Message}
    {record : KafkaRecord} (hcontrol : system.control = .produce record) (hheld : system.held = some m) :
    ∃ c', Leads partition c [.client (.rdKafkaProduce false false)] c' ∧ Kept c c' ∧
      c'.Reading read (system.rdKafkaProduce m record false false) (unstored ++ [(m, record)]) unacked := by
  have hne : ∀ i, Event.rdKafkaProduce false false ≠ .onDeliverMsg i false := by
    rintro i ⟨⟩
  have hstep : system.step (.rdKafkaProduce false false) =
      some (system.rdKafkaProduce m record false false) := by
    simp only [System.step, hcontrol, hheld]
  have hproduced : (system.rdKafkaProduce m record false false).produced.drop system.produced.length =
      [(m, record)] := List.drop_left
  obtain ⟨c', hc', hkept, hreading⟩ := h.fromKafka rfl (reports_of_ne hne) hstep
  rw [hproduced, unackedAfter_of_ne hne, h.unacked] at hreading
  exact ⟨c', hc', hkept, hreading⟩

/-- The one message stored is reported. -/
theorem Cluster.Reading.report {m : Message} {record : KafkaRecord}
    (h : c.Reading read system [] [(m, record)]) (hready : system.control = .ready) :
    ∃ c', Leads partition c [.client (.onDeliverMsg 0 false)] c' ∧ Kept c c' ∧
      c'.Reading read (system.onDeliverMsg 0 m false) [] [] := by
  have hqueue : system.queue = [m] := List.perm_singleton.mp h.queue
  have hreported : c.session.reported (.onDeliverMsg 0 false) = some m := by
    simp [Session.reported, h.system, hqueue]
  have hreports : ∀ m' ∈ c.session.reported (.onDeliverMsg 0 false), m' ∈ c.session.unacked.map Prod.fst := by
    simp [hreported, h.unacked]
  have hunacked : c.session.unackedAfter (.onDeliverMsg 0 false) = [] := by
    simp [Session.unackedAfter, hreported, h.unacked]
  have hstep : system.step (.onDeliverMsg 0 false) = some (system.onDeliverMsg 0 m false) := by
    simp [System.step, System.hasExited, hready, hqueue]
  have hproduced : (system.onDeliverMsg 0 m false).produced.drop system.produced.length = [] :=
    List.drop_length
  obtain ⟨c', hc', hkept, hreading⟩ := h.fromKafka rfl hreports hstep
  rw [hproduced, hunacked, List.append_nil] at hreading
  exact ⟨c', hc', hkept, hreading⟩

/-- What happens with one row. -/
def rowLife (row : Row) : List ClusterEvent :=
  [.client row.event, .client (.rdKafkaProduce false false), .store 0, .client (.onDeliverMsg 0 false)]

/-- **A row** is sent, accepted, stored and reported. -/
theorem Cluster.Quiet.row (h : c.Quiet read) {row : Row}
    (hfollows : read ++ [row.event] <+: stream c.sent) :
    ∃ c', Leads partition c (rowLife row) c' ∧ Kept c c' ∧
      c'.Quiet (read ++ [row.event]) := by
  obtain ⟨s, hreading, hready⟩ := h
  have hsend : s.step row.event = some (s.sendKafkaMsg row.walPos row.relid (some row.record)) :=
    if_pos hready
  have hne : ∀ i, row.event ≠ .onDeliverMsg i false := by
    rintro i ⟨⟩
  obtain ⟨c₁, hc₁, hk₁, h₁⟩ := hreading.client (e := row.event) hfollows (reports_of_ne hne) hsend
  have hproduced : (s.sendKafkaMsg row.walPos row.relid (some row.record)).produced.drop
      s.produced.length = [] := List.drop_length
  rw [hproduced, unackedAfter_of_ne hne, hreading.unacked] at h₁
  obtain ⟨c₂, hc₂, hk₂, h₂⟩ := h₁.produce rfl rfl
  obtain ⟨c₃, hc₃, hk₃, h₃⟩ := h₂.store
  obtain ⟨c₄, hc₄, hk₄, h₄⟩ := h₃.report rfl
  exact ⟨c₄, ((hc₁.append hc₂).append hc₃).append hc₄, ((hk₁.trans hk₂).trans hk₃).trans hk₄, _, h₄, rfl⟩

theorem Cluster.Quiet.rows {rows : List Row} (h : c.Quiet read)
    (hfollows : read ++ rows.map Row.event <+: stream c.sent) :
    ∃ c', Leads partition c (rows.flatMap rowLife) c' ∧ Kept c c' ∧
      c'.Quiet (read ++ rows.map Row.event) := by
  induction rows generalizing c read with
  | nil => exact ⟨c, leads_nil, Kept.refl c, by rwa [List.map_nil, List.append_nil]⟩
  | cons row rows ih =>
    have hsplit : read ++ (row :: rows).map Row.event = read ++ [row.event] ++ rows.map Row.event := by
      rw [List.append_assoc]
      rfl
    rw [hsplit] at hfollows ⊢
    obtain ⟨c₁, hc₁, hk₁, h₁⟩ := h.row ((List.prefix_append _ _).trans hfollows)
    obtain ⟨c₂, hc₂, hk₂, h₂⟩ := ih h₁ (hk₁.sent ▸ hfollows)
    exact ⟨c₂, hc₁.append hc₂, hk₁.trans hk₂, h₂⟩

/-- What happens with one transaction. -/
def txnLife (t : WalTxn) : List ClusterEvent :=
  [.client (.onBeginTxn t.xid)] ++ t.rows.flatMap rowLife ++ [.client (.onCommitTxn t.commitLsn t.xid)]

theorem Cluster.Quiet.txn {done : List WalTxn} {t : WalTxn} (h : c.Quiet (stream done))
    (hfollows : stream (done ++ [t]) <+: stream c.sent) :
    ∃ c', Leads partition c (txnLife t) c' ∧ Kept c c' ∧
      c'.Quiet (stream (done ++ [t])) := by
  have hbegun : stream done ++ [.onBeginTxn t.xid] ++ t.rows.map Row.event =
      stream done ++ .onBeginTxn t.xid :: t.rows.map Row.event := by
    rw [List.append_assoc]
    rfl
  have hsplit : stream (done ++ [t]) = stream done ++ .onBeginTxn t.xid :: t.rows.map Row.event ++
      [.onCommitTxn t.commitLsn t.xid] := by
    have hone : stream [t] = t.events := List.flatMap_singleton ..
    rw [stream_append, hone, WalTxn.events, ← List.cons_append, List.append_assoc]
  rw [hsplit] at hfollows ⊢
  have hrows := (List.prefix_append _ _).trans hfollows
  rw [← hbegun] at hrows
  obtain ⟨c₁, hc₁, hk₁, h₁⟩ := h.begin t.xid_ne ((List.prefix_append _ _).trans hrows)
  obtain ⟨c₂, hc₂, hk₂, h₂⟩ := h₁.rows (hk₁.sent ▸ hrows)
  rw [hbegun] at h₂
  obtain ⟨c₃, hc₃, hk₃, h₃⟩ := h₂.commit (by rwa [hk₂.sent, hk₁.sent])
  exact ⟨c₃, (hc₁.append hc₂).append hc₃, (hk₁.trans hk₂).trans hk₃, h₃⟩

theorem Cluster.Quiet.txns {done later : List WalTxn} (h : c.Quiet (stream done))
    (hsent : c.sent = done ++ later) :
    ∃ c', Leads partition c (later.flatMap txnLife) c' ∧ Kept c c' ∧
      c'.Quiet (stream c'.sent) := by
  induction later generalizing c done with
  | nil =>
    rw [List.append_nil] at hsent
    exact ⟨c, leads_nil, Kept.refl c, hsent ▸ h⟩
  | cons t later ih =>
    rw [← List.singleton_append, ← List.append_assoc] at hsent
    have hfollows : stream (done ++ [t]) <+: stream c.sent := by
      rw [hsent, stream_append _ later]
      exact List.prefix_append _ _
    obtain ⟨c₁, hc₁, hk₁, h₁⟩ := h.txn hfollows
    obtain ⟨c₂, hc₂, hk₂, h₂⟩ := ih h₁ (hk₁.sent.trans hsent)
    exact ⟨c₂, hc₁.append hc₂, hk₁.trans hk₂, h₂⟩

/-! ## §3 — The last checkpoint -/

/-- When everything was read and nothing is in flight, every transaction is durable. -/
theorem durable_of_quiet {ts : List WalTxn} (h : c.Reading (stream ts) system [] [])
    (hready : system.control = .ready) : durables system = system.transactions := by
  obtain ⟨-, lo, hc⟩ := System.run_coupled h.run
  obtain ⟨p, hp, hphase⟩ := pgPhase_stream ts
  have hist := System.run_history h.run (h.pgPhase_eq.trans hphase)
  have hmay : system.MayBegin p := by
    refine Or.inl ⟨hready, ?_⟩
    rcases hp with rfl | rfl <;> rfl
  have hsnapshot : system.snapshot = false :=
    snapshot_of_streamed h.run h.streaming.follows
  have htail : system.transactions = system.txns.tail := by
    rw [System.transactions, hsnapshot]
    rfl
  rw [durables, List.takeWhile_eq_self_iff, htail]
  intro t ht
  obtain ⟨i, hi⟩ := List.mem_iff_getElem?.mp ht
  rw [List.getElem?_tail] at hi
  have hlt := (List.getElem?_eq_some_iff.mp hi).1
  have hcount := hc.count (i + 1) t hi
  rw [h.inFlight hready, List.countP_nil, Nat.add_zero] at hcount
  rw [t.durable_iff]
  refine ⟨?_, hcount.symm⟩
  rcases Nat.lt_or_ge (i + 1) system.current with hlt' | hge
  · rcases hist.committed (i + 1) t hlt' hi with ⟨habsurd, -⟩ | hsome
    · omega
    · exact hsome
  · have hcurrent : system.current = i + 1 := by
      have := hc.current_lt
      unfold System.current at hge ⊢
      omega
    rcases hmay.closed hist with ⟨hzero, -⟩ | ⟨u, hu, hsome⟩
    · omega
    · rw [hcurrent, hi] at hu
      exact Option.some.inj hu ▸ hsome

/-- **The last checkpoint is that of the last transaction.** -/
theorem fsyncLsn_of_quiet (h : c.Quiet (stream c.sent)) :
    c.session.system.ctx.fsyncLsn = (c.sent.getLast?.map WalTxn.commitLsn).getD 0 := by
  obtain ⟨s, hreading, hready⟩ := h
  have hfollows := hreading.streaming.follows
  have hpg := fromPostgres_of_streamed hfollows
  obtain ⟨p, hphase⟩ := Option.isSome_iff_exists.mp hpg
  have hist := System.run_history hreading.run hphase
  obtain ⟨hlsns, -, hfsync, -⟩ := durables_lsns hreading.run hfollows
  have hall : lsns (durables s) = c.sent.map WalTxn.commitLsn := by
    rw [durable_of_quiet hreading hready, hist.lsns_transactions, System.run_lsns hreading.run hpg,
      commits_streamed, hreading.read, commits_stream]
  have htake : c.sent.take (durables s).length = c.sent := by
    have hlength := congrArg List.length (hlsns.symm.trans hall)
    rw [List.length_map, List.length_map, List.length_take] at hlength
    exact List.take_of_length_le (by omega)
  rw [hreading.system, hfsync, htake]

/-! ## §4 — Recovery -/

/-- A client that is started has read nothing. -/
theorem quiet_start (h : c.Streaming) :
    ({ c with session := Session.begin c.confirmed } : Cluster).Quiet (stream []) :=
  ⟨System.init false, ⟨h.start, rfl, rfl, rfl, rfl, rfl⟩, rfl⟩

/-- The client is stopped, and another one is started. -/
theorem leads_restart :
    Leads partition c [.stop, .start c.confirmed] { c with session := Session.begin c.confirmed } := by
  have hstop : Leads partition c [.stop] { c with session := { c.session with alive := false } } :=
    leads_singleton ⟨⟨trivial, trivial, trivial, trivial, trivial⟩, trivial, trivial⟩ rfl
  exact hstop.append (leads_singleton ⟨⟨trivial, ⟨rfl, rfl⟩, trivial, trivial, trivial⟩, trivial, trivial⟩ rfl)

/-- The slot's position when a quiet client has sent its checkpoint. -/
def Cluster.settled (c : Cluster) : UInt64 := slotAfter c.confirmed c.session.system.ctx.fsyncLsn

/-- A quiet client sends its checkpoint, and the server receives it. -/
theorem leads_confirm (h : c.Quiet read) (hupdates : c.session.updates = []) :
    Leads partition c [.sendStatus 0 0, .recvStatus c.settled]
      { c with confirmed := c.settled } := by
  obtain ⟨s, hreading, hready⟩ := h
  have hlive : c.session.system.hasExited = false := by
    simp [hreading.system, System.hasExited, hready]
  have hsend : Leads partition c [.sendStatus 0 0] { c with session := { c.session with
      updates := [sendCheckpoint 0 c.session.system.ctx.fsyncLsn 0] } } := by
    refine leads_singleton ⟨⟨trivial, trivial, trivial, trivial, trivial⟩, trivial, trivial⟩ ?_
    simp [Cluster.step, hreading.alive, hlive, hupdates]
  refine hsend.append (leads_singleton ⟨⟨trivial, trivial, ?_, trivial, trivial⟩, trivial, trivial⟩ ?_)
  · exact ⟨_, flushPosition_sendCheckpoint .., rfl⟩
  · simp [Cluster.step, Cluster.moveSlot, ← hupdates]

/-- With the commits in order, the last checkpoint confirms everything. -/
theorem done_of_quiet (h : c.Quiet (stream c.sent)) (hstart : c.session.start = c.confirmed) :
    ∀ t ∈ c.wal, t.commitLsn ≤ c.settled := by
  have hfsync := fsyncLsn_of_quiet h
  obtain ⟨s, hreading, -⟩ := h
  have horder := order_txnsAfter hreading.streaming.order c.session.start
  change (c.sent.map _).Pairwise _ at horder
  have hsent {t : WalTxn} (ht : t ∈ c.wal) (hlt : c.confirmed < t.commitLsn) : t ∈ c.sent :=
    List.mem_filter.mpr ⟨ht, by simpa [hstart] using hlt⟩
  intro t ht
  rcases List.eq_nil_or_concat c.sent with hnil | ⟨front, last, hlast⟩
  · rw [Cluster.settled, hfsync, hnil]
    refine UInt64.not_lt.mp fun hlt => ?_
    have hmem := hsent ht hlt
    rw [hnil] at hmem
    cases hmem
  · rw [List.concat_eq_append] at hlast
    have hmem : last ∈ c.sent := by simp [hlast]
    have hafter : c.confirmed < last.commitLsn := by
      simpa [hstart] using (List.mem_filter.mp hmem).2
    rw [Cluster.settled, hfsync, hlast, List.getLast?_concat, Option.map_some, Option.getD_some, slotAfter,
      if_neg last.commitLsn_ne]
    by_cases hlt : c.confirmed < t.commitLsn
    · have hmem' := hsent ht hlt
      rw [hlast, List.mem_append, List.mem_singleton] at hmem'
      rcases hmem' with hfront | rfl
      · rw [hlast, List.map_append, List.pairwise_append] at horder
        exact UInt64.le_of_lt (horder.2.2 _ (List.mem_map_of_mem hfront) _ (by simp))
      · exact UInt64.le_refl _
    · exact UInt64.le_trans (UInt64.not_lt.mp hlt) (UInt64.le_of_lt hafter)

/-- **No orderly state is beyond recovery.**  From every state that the deployment can reach in an orderly run
there is an orderly run, without any further commit, at the end of which the slot has confirmed every
transaction and the log gives each key the value that the whole history gives it. -/
theorem recovers {origin : UInt64} (hrun : Cluster.Run origin es c)
    (horderly : Along Cluster.step (Cluster.Orderly partition) (Cluster.init origin) es) :
    ∃ es' c', Along Cluster.step (Cluster.Orderly partition) c es' ∧ run Cluster.step c es' = some c' ∧
      c'.wal = c.wal ∧ (∀ t ∈ c'.wal, t.commitLsn ≤ c'.confirmed) ∧
      Changelog.replay (c'.log.map entry) = Changelog.replay ((records c.wal).map entry) := by
  obtain ⟨hsound, hreplayed⟩ := replayed_of_run hrun horderly
  obtain ⟨c₂, hc₂, hk₂, hquiet⟩ := (quiet_start hsound.streaming).txns (List.nil_append _).symm
  have hdone := done_of_quiet hquiet (hk₂.start.trans hk₂.confirmed.symm)
  have hall : Leads partition c _ _ := (leads_restart.append hc₂).append (leads_confirm hquiet hk₂.updates)
  obtain ⟨hsound₃, hreplayed₃⟩ := replayed_run hsound hreplayed hall.run hall.orderly
  refine ⟨_, _, hall.orderly, hall.run, hk₂.wal, hdone, ?_⟩
  rw [replay_of_done hsound₃ hreplayed₃ hdone]
  exact congrArg (fun wal => Changelog.replay ((records wal).map entry)) hk₂.wal

theorem recovers_stopped :
    ∃ c, Cluster.Run 3 stoppedEvents c ∧ c.confirmed = 3 ∧
      ∃ es' c', Along Cluster.step (Cluster.Orderly partitionByByte) c es' ∧ run Cluster.step c es' = some c' ∧
        c'.wal = c.wal ∧ (∀ t ∈ c'.wal, t.commitLsn ≤ c'.confirmed) ∧
        Changelog.replay (c'.log.map entry) = Changelog.replay ((records c.wal).map entry) := by
  obtain ⟨c, hrun, hconfirmed⟩ : ∃ c, Cluster.Run 3 stoppedEvents c ∧ c.confirmed = 3 := ⟨_, rfl, rfl⟩
  have horderly : Along Cluster.step (Cluster.Orderly partitionByByte) (Cluster.init 3) stoppedEvents := by
    decide +kernel
  exact ⟨c, hrun, hconfirmed, recovers hrun horderly⟩

end

end BottledWater.Deployment
