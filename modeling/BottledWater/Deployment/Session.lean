/-
# BottledWater.Deployment.Session — one life of the client, on the stream of a replication slot.

A client that finds its slot is sent the transactions committed after the slot's position, in the order of
their commits.  This module relates a run of the producer to such a stream.  The producer knows
transactions by the slots of its ring and rows by envelopes; what it has made of the stream is read off
its events: `produced_records` says which rows Kafka has accepted, and `checkpoint_covers` what
`fsync_lsn` stands for.  It is the commit position of a transaction up to which every row was accepted and
acknowledged, so that whatever is not yet acknowledged belongs to a later one.
-/
import BottledWater.Kafka.Checkpoint
import BottledWater.Kafka.Enqueue

namespace BottledWater.Deployment

open BottledWater.Lib BottledWater.Kafka

/-! ## §1 — Transactions and their stream -/

/-- A row change as it reaches `send_kafka_msg`, and the message it is encoded as. -/
structure Row where
  walPos : UInt64
  relid : UInt32
  record : KafkaRecord
  deriving DecidableEq, Repr

/-- A committed transaction in the WAL.  `commitLsn` is the position that comes with its commit. -/
structure WalTxn where
  xid : UInt32
  rows : List Row
  commitLsn : UInt64
  xid_ne : xid ≠ 0
  commitLsn_ne : commitLsn ≠ 0

def Row.event (row : Row) : Event := .sendKafkaMsg row.walPos row.relid (some row.record)

/-- The callbacks for a transaction. -/
def WalTxn.events (t : WalTxn) : List Event :=
  .onBeginTxn t.xid :: (t.rows.map Row.event ++ [.onCommitTxn t.commitLsn t.xid])

/-- **`stream ts`** — the callbacks for transactions, one transaction after the other. -/
def stream (ts : List WalTxn) : List Event := ts.flatMap WalTxn.events

/-- The messages of transactions, in order. -/
def records (ts : List WalTxn) : List KafkaRecord := ts.flatMap fun t => t.rows.map Row.record

theorem stream_append (ts us : List WalTxn) : stream (ts ++ us) = stream ts ++ stream us :=
  List.flatMap_append

theorem records_append (ts us : List WalTxn) : records (ts ++ us) = records ts ++ records us :=
  List.flatMap_append

/-- An event that Postgres causes. -/
def fromPostgres : Event → Bool
  | .onBeginTxn _ | .onCommitTxn .. | .sendKafkaMsg .. => true
  | _ => false

/-- **`streamed es`** — the part of the events that came from Postgres. -/
def streamed (es : List Event) : List Event := es.filter fromPostgres

/-! ## §2 — What the events say, they say through the streamed ones -/

/-- What Kafka and the loops contribute is neither a phase of the stream nor a row nor a begin. -/
theorem ignored_of_not_fromPostgres {e : Event} (he : fromPostgres e = false) :
    (∀ p : PgPhase, p.next e = some p) ∧ (∀ begun, e.row begun = none) ∧ e.begunXid = none := by
  have hnext (p : PgPhase) : p.next e = some p := by
    cases e with
    | rdKafkaProduce | backpressure | onDeliverMsg => cases p <;> rfl
    | _ => cases he
  refine ⟨hnext, ?_⟩
  cases e with
  | rdKafkaProduce | backpressure | onDeliverMsg => exact ⟨fun _ => rfl, rfl⟩
  | _ => cases he

/-- The phase is a matter of the streamed events. -/
theorem run_next_streamed (p : PgPhase) (es : List Event) :
    run PgPhase.next p es = run PgPhase.next p (streamed es) := by
  induction es generalizing p with
  | nil => rfl
  | cons e es ih =>
    cases he : fromPostgres e with
    | true =>
      rw [streamed, List.filter_cons_of_pos he, run_cons, run_cons]
      congr 1
      funext q
      exact ih q
    | false =>
      rw [streamed, List.filter_cons_of_neg (by simp [he]), run_cons,
        (ignored_of_not_fromPostgres he).1 p]
      exact ih p

theorem commits_streamed (es : List Event) : commits es = commits (streamed es) := by
  unfold commits streamed
  rw [List.filterMap_filter]
  apply List.filterMap_congr
  intro e _
  cases e <;> rfl

theorem rowEventsFrom_streamed (begun : Nat) (es : List Event) :
    rowEventsFrom begun es = rowEventsFrom begun (streamed es) := by
  induction es generalizing begun with
  | nil => rfl
  | cons e es ih =>
    cases he : fromPostgres e with
    | true => rw [streamed, List.filter_cons_of_pos he, rowEventsFrom, rowEventsFrom, ih]; rfl
    | false =>
      obtain ⟨-, hrow, hbegin⟩ := ignored_of_not_fromPostgres he
      rw [streamed, List.filter_cons_of_neg (by simp [he]), rowEventsFrom, hrow, hbegin]
      exact ih begun

theorem rowEventsFrom_append (begun : Nat) (es fs : List Event) :
    rowEventsFrom begun (es ++ fs) =
      rowEventsFrom begun es ++ rowEventsFrom (begun + (begunXids es).length) fs := by
  induction es generalizing begun with
  | nil => rfl
  | cons e es ih =>
    have hlength : (begunXids (e :: es)).length = e.begunXid.toList.length + (begunXids es).length := by
      cases he : e.begunXid <;> simp [begunXids, he, Nat.add_comm]
    rw [List.cons_append, rowEventsFrom, ih, rowEventsFrom, hlength, List.append_assoc, Nat.add_assoc]

theorem commits_append (es fs : List Event) : commits (es ++ fs) = commits es ++ commits fs :=
  List.filterMap_append

/-! ## §3 — The stream -/

/-- Up to its commit, a transaction is open. -/
theorem run_next_rows {p : PgPhase} (hp : p = .start ∨ p = .between) (t : WalTxn) (rows : List Row) :
    run PgPhase.next p (.onBeginTxn t.xid :: rows.map Row.event) = some (.txn t.xid) := by
  have hbegin : p.next (.onBeginTxn t.xid) = some (.txn t.xid) := by
    rcases hp with rfl | rfl <;> simp [PgPhase.next, t.xid_ne]
  rw [run_cons, hbegin]
  induction rows with
  | nil => rfl
  | cons row rows ih => exact ih

/-- A transaction is properly nested. -/
theorem run_next_events {p : PgPhase} (hp : p = .start ∨ p = .between) (t : WalTxn) :
    run PgPhase.next p t.events = some .between := by
  have hcommit : (PgPhase.txn t.xid).next (.onCommitTxn t.commitLsn t.xid) = some .between := by
    simp [PgPhase.next, t.commitLsn_ne]
  rw [WalTxn.events, ← List.cons_append, run_append, run_next_rows hp, Option.bind_some, run_cons, hcommit]
  rfl

/-- After whole transactions, another one may begin. -/
theorem pgPhase_stream (ts : List WalTxn) :
    ∃ p, (p = PgPhase.start ∨ p = .between) ∧ pgPhase (stream ts) = some p := by
  have hrun : ∀ p, p = PgPhase.start ∨ p = .between →
      ∃ q, (q = .start ∨ q = .between) ∧ run PgPhase.next p (stream ts) = some q := by
    induction ts with
    | nil => exact fun p hp => ⟨p, hp, rfl⟩
    | cons t ts ih =>
      intro p hp
      obtain ⟨q, hq, hrun⟩ := ih .between (Or.inr rfl)
      refine ⟨q, hq, ?_⟩
      rw [stream, List.flatMap_cons, run_append, run_next_events hp]
      exact hrun
  exact hrun .start (Or.inl rfl)

theorem fromPostgres_stream (ts : List WalTxn) : FromPostgres (stream ts) := by
  obtain ⟨p, -, hp⟩ := pgPhase_stream ts
  exact Option.isSome_iff_exists.mpr ⟨p, hp⟩

/-- What comes from a stream comes from Postgres. -/
theorem fromPostgres_of_streamed {es : List Event} {ts : List WalTxn}
    (h : streamed es <+: stream ts) : FromPostgres es := by
  obtain ⟨rest, hrest⟩ := h
  have hall := fromPostgres_stream ts
  rw [← hrest] at hall
  unfold FromPostgres pgPhase
  rw [run_next_streamed]
  exact hall.of_append

theorem commits_events (t : WalTxn) : commits t.events = [t.commitLsn] := by
  have hrows : commits (t.rows.map Row.event) = [] := by
    simp [commits, Row.event]
  rw [WalTxn.events, ← List.singleton_append, commits_append, commits_append, hrows]
  rfl

theorem commits_stream (ts : List WalTxn) : commits (stream ts) = ts.map WalTxn.commitLsn := by
  induction ts with
  | nil => rfl
  | cons t ts ih =>
    rw [stream, List.flatMap_cons, commits_append, commits_events]
    exact congrArg (t.commitLsn :: ·) ih

/-- The rows of a transaction carry its number. -/
theorem rowEventsFrom_events (begun : Nat) (t : WalTxn) :
    rowEventsFrom begun t.events = t.rows.map fun row =>
      (⟨⟨row.walPos, row.relid, slotOf maxInFlightTransactions (begun + 1)⟩, begun + 1⟩, row.record) := by
  have hbegin : (Event.onBeginTxn t.xid).begunXid = some t.xid := if_neg t.xid_ne
  have hrows (rows : List Row) :
      rowEventsFrom (begun + 1) (rows.map Row.event ++ [.onCommitTxn t.commitLsn t.xid]) =
        rows.map fun row => (⟨⟨row.walPos, row.relid, slotOf maxInFlightTransactions (begun + 1)⟩,
          begun + 1⟩, row.record) := by
    induction rows with
    | nil => rfl
    | cons row rows ih => exact congrArg (_ :: ·) ih
  rw [WalTxn.events, rowEventsFrom, hbegin]
  exact hrows t.rows

theorem length_begunXids_stream (ts : List WalTxn) : (begunXids (stream ts)).length = ts.length := by
  have hone (t : WalTxn) : begunXids t.events = [t.xid] := by
    have hrows : (t.rows.map Row.event).filterMap Event.begunXid = [] := by
      simp [Row.event, Event.begunXid]
    simp [begunXids, WalTxn.events, hrows, Event.begunXid, t.xid_ne]
  induction ts with
  | nil => rfl
  | cons t ts ih =>
    have hcons : begunXids (stream (t :: ts)) = begunXids t.events ++ begunXids (stream ts) :=
      List.filterMap_append
    rw [hcons, hone, List.length_append, ih, List.length_singleton, List.length_cons, Nat.add_comm]

/-- **The rows of a stream**: their messages, in order, and the numbers of their transactions. -/
theorem rowEventsFrom_stream (begun : Nat) (ts : List WalTxn) :
    (rowEventsFrom begun (stream ts)).map Prod.snd = records ts ∧
      ∀ p ∈ rowEventsFrom begun (stream ts), begun < p.1.txn ∧ p.1.txn ≤ begun + ts.length := by
  induction ts generalizing begun with
  | nil => exact ⟨rfl, nofun⟩
  | cons t ts ih =>
    have hsplit : rowEventsFrom begun (stream (t :: ts)) =
        rowEventsFrom begun t.events ++ rowEventsFrom (begun + 1) (stream ts) := by
      have hone := length_begunXids_stream [t]
      rw [stream, List.flatMap_singleton] at hone
      rw [stream, List.flatMap_cons, rowEventsFrom_append, hone]
      rfl
    obtain ⟨hrecords, hnumbers⟩ := ih (begun + 1)
    rw [hsplit, rowEventsFrom_events]
    refine ⟨?_, ?_⟩
    · rw [List.map_append, hrecords, List.map_map]
      rfl
    · intro p hp
      rw [List.length_cons]
      rcases List.mem_append.mp hp with hp | hp
      · obtain ⟨row, -, rfl⟩ := List.mem_map.mp hp
        exact ⟨Nat.lt_succ_self _, by simp only; omega⟩
      · have := hnumbers p hp
        omega

/-! ## §4 — What Kafka has accepted -/

section

variable {s s' : System} {es : List Event} {takingSnapshot : Bool} {ts : List WalTxn}

/-- **`Handed s es`** — Kafka has accepted the first rows of the events, in order; the one that
`send_kafka_msg` still holds is the next and the last. -/
structure Handed (s : System) (es : List Event) : Prop where
  produced : s.produced <+: rowEvents es
  messages : s.produced.map Prod.fst ++ s.held.toList = (rowEvents es).map Prod.fst

theorem handed_of_live (h : System.Run takingSnapshot es s) (hlive : s.hasExited = false) :
    Handed s es := by
  have hrows := (System.run_enqueued h hlive).rows
  obtain ⟨hidle, -⟩ := System.run_coupled h
  have hpending : s.pending.map Prod.fst = s.held.toList := by
    cases hc : s.control with
    | ready => simp [System.pending, hc, hidle (Or.inl hc)]
    | beginTxn xid => simp [System.pending, hc, hidle (Or.inr ⟨xid, hc⟩)]
    | produce record => cases hm : s.held <;> simp [System.pending, hc, hm]
    | produceWait record => cases hm : s.held <;> simp [System.pending, hc, hm]
    | exited status => simp [System.hasExited, hc] at hlive
  refine ⟨⟨s.pending, hrows⟩, ?_⟩
  rw [← hrows, List.map_append, hpending]

theorem Handed.of_eq {e : Event} (h : Handed s es) (hrow : ∀ begun, e.row begun = none)
    (hproduced : s'.produced = s.produced) (hheld : s'.held = s.held) : Handed s' (es ++ [e]) := by
  have hsame : rowEvents (es ++ [e]) = rowEvents es := by
    rw [rowEvents_snoc, hrow, Option.toList_none, List.append_nil]
  refine ⟨?_, ?_⟩
  · rw [hproduced, hsame]
    exact h.produced
  · rw [hproduced, hheld, hsame]
    exact h.messages

/-- The step with which the process ends hands nothing over. -/
theorem Handed.exit {e : Event} (h : Handed s es) (hf : System.Fires s e s')
    (hexit : s'.hasExited = true) (hencoded : ∀ walPos relid, e ≠ .sendKafkaMsg walPos relid none) :
    Handed s' (es ++ [e]) := by
  cases hf with
  | beginTxn xid hc =>
    refine h.of_eq (fun _ => rfl) ?_ ?_ <;>
      (unfold System.onBeginTxn System.tryBegin; split_ifs <;> rfl)
  | commitTxn walPos xid hc =>
    refine h.of_eq (fun _ => rfl) ?_ ?_ <;> (unfold System.onCommitTxn; split <;> rfl)
  | send walPos relid record hc =>
    cases record with
    | none => exact absurd rfl (hencoded walPos relid)
    | some record => simp [System.sendKafkaMsg, System.hasExited] at hexit
  | produce failed queueFull hc hm =>
    cases failed with
    | true => refine h.of_eq (fun _ => rfl) ?_ ?_ <;> cases queueFull <;> rfl
    | false => cases queueFull <;> simp [System.rdKafkaProduce, System.hasExited] at hexit
  | retryBegin hc =>
    refine h.of_eq (fun _ => rfl) ?_ ?_ <;> (unfold System.tryBegin; split <;> rfl)
  | retryProduce hc => exact h.of_eq (fun _ => rfl) rfl rfl
  | quit status hr => exact h.of_eq (fun _ => rfl) rfl rfl
  | deliver failed hm =>
    refine h.of_eq (fun _ => rfl) ?_ ?_ <;> cases failed <;> rfl

theorem run_handed (h : System.Run takingSnapshot es s)
    (hencoded : ∀ walPos relid, Event.sendKafkaMsg walPos relid none ∉ es) : Handed s es := by
  refine run_rule (P := fun es s => (∀ walPos relid, Event.sendKafkaMsg walPos relid none ∉ es) →
    Handed s es) (fun _ => ⟨List.prefix_refl _, rfl⟩) ?_ h hencoded
  intro es t e u ht ih hstep hencoded
  by_cases hlive : u.hasExited = false
  · have hrun : System.Run takingSnapshot (es ++ [e]) u := by
      rw [System.Run, run_snoc, ht]
      exact hstep
    exact handed_of_live hrun hlive
  · refine (ih fun walPos relid hmem => ?_).exit (System.fires_of_step hstep) (by simpa using hlive) ?_
    · exact hencoded walPos relid (List.mem_append_left _ hmem)
    · rintro walPos relid rfl
      exact hencoded walPos relid (by simp)

/-! ## §5 — What a checkpoint covers -/

/-- The events of a stream. -/
theorem mem_stream {e : Event} (h : e ∈ stream ts) :
    (∃ t ∈ ts, e = .onBeginTxn t.xid) ∨ (∃ row, e = Row.event row) ∨
      ∃ t ∈ ts, e = .onCommitTxn t.commitLsn t.xid := by
  obtain ⟨t, ht, he⟩ := List.mem_flatMap.mp h
  rcases List.mem_cons.mp he with rfl | he
  · exact Or.inl ⟨t, ht, rfl⟩
  · rcases List.mem_append.mp he with he | he
    · obtain ⟨row, -, rfl⟩ := List.mem_map.mp he
      exact Or.inr (Or.inl ⟨row, rfl⟩)
    · exact Or.inr (Or.inr ⟨t, ht, List.mem_singleton.mp he⟩)

theorem mem_stream_of_streamed (h : streamed es <+: stream ts) {e : Event} (he : e ∈ es)
    (hpg : fromPostgres e = true) : e ∈ stream ts :=
  h.subset (List.mem_filter.mpr ⟨he, hpg⟩)

theorem encoded_of_streamed (h : streamed es <+: stream ts) (walPos : UInt64) (relid : UInt32) :
    Event.sendKafkaMsg walPos relid none ∉ es := by
  intro hmem
  rcases mem_stream (mem_stream_of_streamed h hmem rfl) with ⟨_, _, ⟨⟩⟩ | ⟨_, ⟨⟩⟩ | ⟨_, _, ⟨⟩⟩

/-- There is no snapshot in a stream. -/
theorem snapshot_of_streamed (hrun : System.Run false es s) (h : streamed es <+: stream ts) :
    s.snapshot = false := by
  have hno : Event.onBeginTxn 0 ∉ es := by
    intro hmem
    rcases mem_stream (mem_stream_of_streamed h hmem rfl) with ⟨t, _, heq⟩ | ⟨_, ⟨⟩⟩ | ⟨_, _, ⟨⟩⟩
    exact t.xid_ne (Event.onBeginTxn.inj heq).symm
  refine run_rule (P := fun es s => Event.onBeginTxn 0 ∉ es → s.snapshot = false) (fun _ => rfl) ?_ hrun
    hno
  intro es t e u _ ih hstep hno
  have hbefore := ih fun hmem => hno (List.mem_append_left _ hmem)
  cases System.fires_of_step hstep with
  | beginTxn xid hc =>
    have hxid : xid ≠ 0 := by
      rintro rfl
      exact hno (by simp)
    unfold System.onBeginTxn System.tryBegin
    rw [if_neg hxid]
    split <;> exact hbefore
  | commitTxn => unfold System.onCommitTxn; split <;> exact hbefore
  | produce failed queueFull => cases failed <;> cases queueFull <;> exact hbefore
  | retryBegin => unfold System.tryBegin; split <;> exact hbefore
  | deliver failed => cases failed <;> exact hbefore
  | _ => exact hbefore

/-- The transactions that the checkpoint has passed. -/
def durables (s : System) : List Txn := s.transactions.takeWhile Txn.durable

theorem getLast?_lsns {us : List Txn} (h : ∀ t ∈ us, t.commitLsn.isSome) :
    (lsns us).length = us.length ∧ (lsns us).getLast? = us.getLast?.bind (·.commitLsn) := by
  induction us using List.reverseRecOn with
  | nil => exact ⟨rfl, rfl⟩
  | append_singleton us t ih =>
    obtain ⟨lsn, hlsn⟩ := Option.isSome_iff_exists.mp (h t (by simp))
    have hlast : lsns [t] = [lsn] := by simp [lsns, hlsn]
    rw [lsns_append, hlast]
    simp [(ih fun t ht => h t (List.mem_append_left _ ht)).1, hlsn]

/-- **The commits that the checkpoint has passed are the first of the stream**, and `fsync_lsn` is the last
of them. -/
theorem durables_lsns (hrun : System.Run false es s) (h : streamed es <+: stream ts) :
    lsns (durables s) = (ts.take (durables s).length).map WalTxn.commitLsn ∧
      (durables s).length ≤ ts.length ∧
      s.ctx.fsyncLsn = ((ts.take (durables s).length).getLast?.map WalTxn.commitLsn).getD 0 ∧
      (durables s).length ≤ (commits (streamed es)).length := by
  have hpg := fromPostgres_of_streamed h
  obtain ⟨lo, hc, hex⟩ := System.run_exact hrun hpg
  obtain ⟨p, hphase⟩ := Option.isSome_iff_exists.mp hpg
  have hist := System.run_history hrun hphase
  have hsome : ∀ t ∈ durables s, t.commitLsn.isSome := fun t ht =>
    (t.durable_iff.mp (List.mem_takeWhile_imp ht)).1
  obtain ⟨hlength, hlast⟩ := getLast?_lsns hsome
  -- the commits seen are a first part of those of the stream, and the durable ones of those seen
  have hseen : lsns s.transactions = commits (streamed es) := by
    rw [hist.lsns_transactions, System.run_lsns hrun hpg, commits_streamed]
  have hdurable : lsns (durables s) <+: commits (streamed es) := by
    rw [← hseen]
    exact (List.takeWhile_prefix _).filterMap _
  have hstream : commits (streamed es) <+: ts.map WalTxn.commitLsn := by
    rw [← commits_stream]
    exact h.filterMap _
  have htake : lsns (durables s) = (ts.take (durables s).length).map WalTxn.commitLsn := by
    rw [List.prefix_iff_eq_take.mp (hdurable.trans hstream), hlength, List.map_take]
  refine ⟨htake, ?_, ?_, hlength ▸ hdurable.length_le⟩
  · have hle := (hdurable.trans hstream).length_le
    rwa [hlength, List.length_map] at hle
  · rw [System.fsyncLsn_eq hc hist hex, checkpointLsn, ← List.getLast?_map, ← htake, hlast]
    rfl

/-- A message in flight belongs to a transaction that the checkpoint has not passed. -/
theorem not_durable_of_inFlight (hrun : System.Run false es s) (h : streamed es <+: stream ts)
    {m : Message} (hm : m ∈ s.inFlight) (hpos : 0 < m.txn) : (durables s).length < m.txn := by
  obtain ⟨-, lo, hc⟩ := System.run_coupled hrun
  by_contra hle
  obtain ⟨i, hi⟩ := Nat.exists_eq_succ_of_ne_zero (Nat.ne_of_gt hpos)
  have hlt : i < (durables s).length := by omega
  have hat : s.txns[m.txn]? = some (durables s)[i] := by
    have hat : s.transactions[i]? = some (durables s)[i] :=
      List.prefix_iff_getElem?.mp (List.takeWhile_prefix Txn.durable) i hlt
    have htail : s.transactions = s.txns.tail := by
      rw [System.transactions, snapshot_of_streamed hrun h]
      rfl
    rwa [htail, List.getElem?_tail, ← Nat.succ_eq_add_one, ← hi] at hat
  exact hc.txn_ne_of_durable hat (List.mem_takeWhile_imp (List.getElem_mem hlt)) hm rfl

/-- A stream ends with the commit of its last transaction. -/
theorem getLast?_stream (front : List WalTxn) (t : WalTxn) :
    (stream (front ++ [t])).getLast? = some (.onCommitTxn t.commitLsn t.xid) := by
  have hsplit : stream (front ++ [t]) =
      stream front ++ (.onBeginTxn t.xid :: t.rows.map Row.event) ++ [.onCommitTxn t.commitLsn t.xid] := by
    have hone : stream [t] = t.events := List.flatMap_singleton ..
    rw [stream_append, hone, WalTxn.events, ← List.cons_append, List.append_assoc]
  rw [hsplit, List.getLast?_concat]

/-- A stream that has been followed up to as many commits has been followed up to the last of them. -/
theorem stream_prefix_of_commits {done later : List WalTxn} (h : streamed es <+: stream (done ++ later))
    (hcommits : done.length ≤ (commits (streamed es)).length) : stream done <+: streamed es := by
  have hdone : stream done <+: stream (done ++ later) := ⟨stream later, (stream_append done later).symm⟩
  rcases List.prefix_or_prefix_of_prefix hdone h with hpre | ⟨rest, hrest⟩
  · exact hpre
  -- otherwise the stream of `done` goes on, without a commit, although it ends with one
  have hsum := congrArg (fun es => (commits es).length) hrest
  simp only [commits_append, List.length_append, commits_stream, List.length_map] at hsum
  have hnone : commits rest = [] := List.eq_nil_of_length_eq_zero (by omega)
  obtain rfl : rest = [] := by
    rcases List.eq_nil_or_concat rest with hnil | ⟨init, e, rfl⟩
    · exact hnil
    · rcases List.eq_nil_or_concat done with rfl | ⟨front, t, rfl⟩
      · simp [stream] at hrest
      · have hlast := congrArg List.getLast? hrest
        rw [List.concat_eq_append, List.concat_eq_append, getLast?_stream, ← List.append_assoc,
          List.getLast?_concat, Option.some.injEq] at hlast
        rw [List.concat_eq_append, commits_append, hlast] at hnone
        simp [commits] at hnone
  rw [List.append_nil] at hrest
  exact hrest ▸ List.prefix_refl _

theorem rowEvents_prefix_of_streamed (h : streamed es <+: stream ts) : rowEvents es <+: rowEvents (stream ts) := by
  obtain ⟨rest, hrest⟩ := h
  rw [rowEvents, rowEventsFrom_streamed, ← hrest, rowEvents, rowEventsFrom_append]
  exact List.prefix_append _ _

/-- The rows that Kafka has accepted are the first of the stream. -/
theorem produced_records (hrun : System.Run takingSnapshot es s) (h : streamed es <+: stream ts) :
    s.produced.map Prod.snd <+: records ts := by
  rw [← (rowEventsFrom_stream 0 ts).1]
  exact ((run_handed hrun (encoded_of_streamed h)).produced.trans (rowEvents_prefix_of_streamed h)).map Prod.snd

/-- **What a checkpoint covers.**  `fsync_lsn` is the commit position of the last of some first
transactions of the stream.  Kafka has accepted all their rows, and none of them is in flight. -/
theorem checkpoint_covers (hrun : System.Run false es s) (h : streamed es <+: stream ts) :
    ∃ done later covered beyond, ts = done ++ later ∧
      s.ctx.fsyncLsn = (done.getLast?.map WalTxn.commitLsn).getD 0 ∧
      s.produced = covered ++ beyond ∧ covered.map Prod.snd = records done ∧
      ∀ p ∈ covered, p.1 ∉ s.inFlight := by
  obtain ⟨-, hle, hfsync, hcommits⟩ := durables_lsns hrun h
  have hhanded := run_handed hrun (encoded_of_streamed h)
  set k := (durables s).length with hk
  have hts : ts = ts.take k ++ ts.drop k := (List.take_append_drop k ts).symm
  have hlen : (ts.take k).length = k := List.length_take_of_le hle
  obtain ⟨hcovered, hcoveredTxn⟩ := rowEventsFrom_stream 0 (ts.take k)
  have hdone : rowEventsFrom 0 (stream (ts.take k)) <+: rowEvents es := by
    obtain ⟨rest, hrest⟩ := stream_prefix_of_commits (hts ▸ h) (hlen.symm ▸ hcommits)
    rw [rowEvents, rowEventsFrom_streamed 0 es, ← hrest, rowEventsFrom_append]
    exact List.prefix_append _ _
  have hflight : ∀ p ∈ rowEventsFrom 0 (stream (ts.take k)), p.1 ∉ s.inFlight := by
    intro p hp hmem
    have hnumber := hcoveredTxn p hp
    have := not_durable_of_inFlight hrun h hmem hnumber.1
    omega
  have hproduced : rowEventsFrom 0 (stream (ts.take k)) <+: s.produced := by
    refine List.prefix_of_prefix_length_le hdone hhanded.produced ?_
    have hall := congrArg List.length hhanded.messages
    have hdoneLe := hdone.length_le
    cases hheld : s.held with
    | none =>
      simp only [hheld, Option.toList_none, List.append_nil, List.length_map] at hall
      omega
    | some m =>
      -- the message held is the last row, so it is not the last of the transactions passed
      by_contra hlt
      simp only [hheld, Option.toList_some, List.length_append, List.length_map,
        List.length_singleton] at hall
      have heq := hdone.eq_of_length (by omega)
      have hlast : m ∈ (rowEvents es).map Prod.fst := by
        rw [← hhanded.messages, hheld]
        simp
      obtain ⟨p, hp, rfl⟩ := List.mem_map.mp hlast
      rw [← heq] at hp
      exact hflight p hp (by simp [System.inFlight, hheld])
  obtain ⟨beyond, hbeyond⟩ := hproduced
  exact ⟨ts.take k, ts.drop k, _, beyond, hts, hfsync, hbeyond.symm, hcovered, hflight⟩

/-- With the commits in order, no step makes `fsync_lsn` smaller. -/
theorem fsyncLsn_le_of_step (hrun : System.Run false es s) {e : Event}
    (h : streamed (es ++ [e]) <+: stream ts) (horder : (ts.map WalTxn.commitLsn).Pairwise (· < ·))
    (hstep : s.step e = some s') : s.ctx.fsyncLsn ≤ s'.ctx.fsyncLsn := by
  have hbefore : streamed es <+: stream ts := by
    refine List.IsPrefix.trans ?_ h
    rw [streamed, streamed, List.filter_append]
    exact List.prefix_append _ _
  have hrun' : System.Run false (es ++ [e]) s' := by
    rw [System.Run, run_snoc, hrun]
    exact hstep
  have hpg' := fromPostgres_of_streamed h
  obtain ⟨lo, hc, hex⟩ := System.run_exact hrun (fromPostgres_of_streamed hbefore)
  obtain ⟨lo', hc', hex'⟩ := System.run_exact hrun' hpg'
  obtain ⟨p', hphase'⟩ := Option.isSome_iff_exists.mp hpg'
  obtain ⟨p, hphase, hnext⟩ := run_snoc_eq_some hphase'
  have hist := System.run_history hrun hphase
  have hist' := System.run_history hrun' hphase'
  rw [System.fsyncLsn_eq hc hist hex, System.fsyncLsn_eq hc' hist' hex']
  refine checkpointLsn_mono ?_ (System.durablePrefix_step (System.fires_of_step hstep) hc hist hnext)
  rw [hist'.lsns_transactions, System.run_lsns hrun' hpg', commits_streamed]
  have hpre : commits (streamed (es ++ [e])) <+: ts.map WalTxn.commitLsn := by
    rw [← commits_stream]
    exact h.filterMap _
  exact horder.sublist hpre.sublist

end

end BottledWater.Deployment
