/-
# BottledWater.Deployment.Cluster — Postgres, the client and Kafka, through any number of restarts.

The comment over `maybe_checkpoint` says what the checkpoints are for: the position that is sent back to
Postgres is "used as the restart position if this client dies.  This should ensure that no data is lost
(although messages may be duplicated)."  This module is about that sentence.

`Cluster` is the whole deployment.  The client is `Kafka.System`, one callback at a time; it may stop at any
point, by itself or not.  Postgres and Kafka are not part of the program, and `step` lets them do anything:
the server may start a client at any position, send it anything and move the slot as it likes, and the
brokers may store a message in any order, again, or after the next client was started, and lose it.  What
the results need of them are predicates on the steps of a run, each under a name of its own: those of
`Reliable` for what is never lost, and those of `Orderly` for what a reader sees last.

The statements are about every run whose steps meet them.  Rows up to the slot's position are in Kafka,
whatever librdkafka repeats or reorders (`confirmed_rows_stored`).  If it stores each partition in order
and once, what a restart would send, appended to what Kafka has, always makes up the whole history
(`restart_completes_log`), and a reader of the partitions need not know any of this (`partitions_rebuild`).

The snapshot is not part of it: a client that stops during the snapshot is the subject of `Process.Slot`.
-/
import BottledWater.Deployment.Session
import BottledWater.Lib.Redelivery

namespace BottledWater.Deployment

open BottledWater.Lib BottledWater.Kafka BottledWater.Client

/-! ## §1 — The parts -/

/-- A client on the stream, and what it has under way. -/
structure Session where
  /-- The position of the slot when streaming was started. -/
  start : UInt64
  system : System
  /-- History: the events of the producer. -/
  events : List Event
  /-- Accepted by `rd_kafka_produce`, and not stored by a broker. -/
  unstored : List (Message × KafkaRecord)
  /-- Stored, and not yet reported to `on_deliver_msg`. -/
  unacked : List (Message × KafkaRecord)
  /-- Status updates that the server has not received. -/
  updates : List (List UInt8)
  alive : Bool

structure Cluster where
  /-- The transactions committed since the slot was created, in order. -/
  wal : List WalTxn
  /-- The slot's position. -/
  confirmed : UInt64
  /-- What the brokers have stored, oldest first. -/
  log : List KafkaRecord
  session : Session

/-- The client right after `db_client_start` has found the slot. -/
def Session.begin (start : UInt64) : Session where
  start := start
  system := System.init false
  events := []
  unstored := []
  unacked := []
  updates := []
  alive := true

/-- A slot at the given position, and no client. -/
def Cluster.init (origin : UInt64) : Cluster where
  wal := []
  confirmed := origin
  log := []
  session := { Session.begin origin with alive := false }

/-- The transactions committed after a position. -/
def txnsAfter (wal : List WalTxn) (lsn : UInt64) : List WalTxn := wal.filter (lsn < ·.commitLsn)

/-- The transactions committed up to a position. -/
def txnsUpTo (wal : List WalTxn) (lsn : UInt64) : List WalTxn := wal.filter (·.commitLsn ≤ lsn)

/-- What the client is sent. -/
def Cluster.sent (c : Cluster) : List WalTxn := txnsAfter c.wal c.session.start

/-! ## §2 — What can happen -/

inductive ClusterEvent
  /-- A transaction is committed. -/
  | commit (t : WalTxn)
  /-- A client is started, and sent what comes after this position. -/
  | start (lsn : UInt64)
  /-- A callback of the client. -/
  | client (e : Event)
  /-- A broker stores the message at this place among those accepted and not stored. -/
  | store (i : Nat)
  /-- A broker stores something else: a message once more, or one of an earlier client. -/
  | stray (record : KafkaRecord)
  /-- The brokers lose what they have at this place. -/
  | lose (i : Nat)
  /-- The client calls `send_checkpoint`. -/
  | sendStatus (recvdLsn now : UInt64)
  /-- The server handles the oldest status update on its way, and moves the slot to this position. -/
  | recvStatus (lsn : UInt64)
  /-- The client is gone. -/
  | stop

/-- The message that a callback reports as delivered. -/
def Session.reported (s : Session) : Event → Option Message
  | .onDeliverMsg i false => s.system.queue[i]?
  | _ => none

/-- What is left to report after a callback. -/
def Session.unackedAfter (s : Session) (e : Event) : List (Message × KafkaRecord) :=
  match s.reported e with
  | some m => s.unacked.eraseP (·.1 = m)
  | none => s.unacked

/-- The session after a callback that leaves the client in this state. -/
def Session.after (s : Session) (e : Event) (system : System) : Session where
  start := s.start
  system := system
  events := s.events ++ [e]
  unstored := s.unstored ++ system.produced.drop s.system.produced.length
  unacked := s.unackedAfter e
  updates := s.updates
  alive := s.alive

/-- The message at place `i` is stored. -/
def Cluster.store (c : Cluster) (i : Nat) (p : Message × KafkaRecord) : Cluster where
  wal := c.wal
  confirmed := c.confirmed
  log := c.log ++ [p.2]
  session := { c.session with
    unstored := c.session.unstored.eraseIdx i
    unacked := c.session.unacked ++ [p] }

/-- The oldest status update has arrived, and the slot is at this position. -/
def Cluster.moveSlot (c : Cluster) (lsn : UInt64) : Cluster where
  wal := c.wal
  confirmed := lsn
  log := c.log
  session := { c.session with updates := c.session.updates.tail }

/-- **`step`** — everything that can happen next. -/
def Cluster.step (c : Cluster) : ClusterEvent → Option Cluster
  | .commit t => some { c with wal := c.wal ++ [t] }
  | .start lsn => some { c with session := Session.begin lsn }
  | .client e =>
    if c.session.alive then
      (c.session.system.step e).map fun system => { c with session := c.session.after e system }
    else none
  | .store i => c.session.unstored[i]?.map (c.store i)
  | .stray record => some { c with log := c.log ++ [record] }
  | .lose i => some { c with log := c.log.eraseIdx i }
  | .sendStatus recvdLsn now =>
    if c.session.alive ∧ c.session.system.hasExited = false then
      some { c with session := { c.session with
        updates := c.session.updates ++
          [sendCheckpoint recvdLsn c.session.system.ctx.fsyncLsn now] } }
    else none
  | .recvStatus lsn => some (c.moveSlot lsn)
  | .stop => some { c with session := { c.session with alive := false } }

/-- A run of the deployment from a fresh slot at `origin`. -/
def Cluster.Run (origin : UInt64) (es : List ClusterEvent) (c : Cluster) : Prop :=
  run Cluster.step (Cluster.init origin) es = some c

/-! ### What is assumed of Postgres -/

/-- The positions of commits grow, and are ahead of the slot's. -/
def Cluster.CommitsGrow (c : Cluster) : ClusterEvent → Prop
  | .commit t => (∀ u ∈ c.wal, u.commitLsn < t.commitLsn) ∧ c.confirmed < t.commitLsn
  | .start _ | .client _ | .store _ | .stray _ | .lose _ | .sendStatus .. | .recvStatus _ | .stop => True

/-- The slot has one client at a time.  It is sent the transactions committed after the slot's position, in
the order of their commits and one after the other, with the same rows every time. -/
def Cluster.StreamsFromSlot (c : Cluster) : ClusterEvent → Prop
  | .start lsn => c.session.alive = false ∧ lsn = c.confirmed
  | .client e => streamed (c.session.events ++ [e]) <+: stream c.sent
  | .commit _ | .store _ | .stray _ | .lose _ | .sendStatus .. | .recvStatus _ | .stop => True

/-- The slot is at the position that the last status update has reported; position 0 says nothing. -/
def slotAfter (confirmed flush : UInt64) : UInt64 := if flush = 0 then confirmed else flush

/-- The slot moves when a status update has arrived, to the position that it reports. -/
def Cluster.SlotFollows (c : Cluster) : ClusterEvent → Prop
  | .recvStatus lsn => ∃ flush ∈ c.session.updates.head?.bind flushPosition, lsn = slotAfter c.confirmed flush
  | .commit _ | .start _ | .client _ | .store _ | .stray _ | .lose _ | .sendStatus .. | .stop => True

/-! ### What is assumed of librdkafka and the brokers -/

/-- A message is reported as delivered when a broker has stored it. -/
def Cluster.ReportsStored (c : Cluster) : ClusterEvent → Prop
  | .client e => ∀ m ∈ c.session.reported e, m ∈ c.session.unacked.map Prod.fst
  | .commit _ | .start _ | .store _ | .stray _ | .lose _ | .sendStatus .. | .recvStatus _ | .stop => True

/-- The brokers keep what they have stored. -/
def Cluster.KeepsLog (_ : Cluster) : ClusterEvent → Prop
  | .lose _ => False
  | .commit _ | .start _ | .client _ | .store _ | .stray _ | .sendStatus .. | .recvStatus _ | .stop => True

/-- What is stored again, or late, is a row that was committed. -/
def Cluster.StoresCopies (c : Cluster) : ClusterEvent → Prop
  | .stray record => record ∈ records c.wal
  | .commit _ | .start _ | .client _ | .store _ | .lose _ | .sendStatus .. | .recvStatus _ | .stop => True

/-- Nothing is stored again, as a retry may do, and nothing of an earlier client once the next one has
started. -/
def Cluster.StoresOnce (_ : Cluster) : ClusterEvent → Prop
  | .stray _ => False
  | .commit _ | .start _ | .client _ | .store _ | .lose _ | .sendStatus .. | .recvStatus _ | .stop => True

/-- The partition of a message, which the partitioner computes from its key. -/
def place (partition : String → Option (List UInt8) → Nat) (record : KafkaRecord) : String × Nat :=
  (record.topic, partition record.topic record.key)

/-- The messages for a partition are stored in the order in which they were produced; a retry may break it. -/
def Cluster.StoresInOrder (partition : String → Option (List UInt8) → Nat) (c : Cluster) : ClusterEvent → Prop
  | .store i => ∀ p ∈ c.session.unstored[i]?, ∀ q ∈ c.session.unstored.take i,
      place partition q.2 ≠ place partition p.2
  | .commit _ | .start _ | .client _ | .stray _ | .lose _ | .sendStatus .. | .recvStatus _ | .stop => True

/-- **What nothing is lost under**: retries, duplicates and late messages are all allowed. -/
@[mk_iff]
structure Cluster.Reliable (c : Cluster) (e : ClusterEvent) : Prop where
  commits : c.CommitsGrow e
  streams : c.StreamsFromSlot e
  slot : c.SlotFollows e
  reports : c.ReportsStored e
  keeps : c.KeepsLog e

/-- **What the last value of a key is the right one under.** -/
@[mk_iff]
structure Cluster.Orderly (partition : String → Option (List UInt8) → Nat) (c : Cluster) (e : ClusterEvent) :
    Prop where
  reliable : c.Reliable e
  inOrder : c.StoresInOrder partition e
  once : c.StoresOnce e

section

variable (partition : String → Option (List UInt8) → Nat) (c : Cluster)

instance : ∀ e, Decidable (c.CommitsGrow e)
  | .commit t => inferInstanceAs (Decidable ((∀ u ∈ c.wal, u.commitLsn < t.commitLsn) ∧ _))
  | .start _ | .client _ | .store _ | .stray _ | .lose _ | .sendStatus .. | .recvStatus _ | .stop => isTrue trivial

instance : ∀ e, Decidable (c.StreamsFromSlot e)
  | .start lsn => inferInstanceAs (Decidable (c.session.alive = false ∧ lsn = c.confirmed))
  | .client e => inferInstanceAs (Decidable (streamed (c.session.events ++ [e]) <+: stream c.sent))
  | .commit _ | .store _ | .stray _ | .lose _ | .sendStatus .. | .recvStatus _ | .stop => isTrue trivial

instance : ∀ e, Decidable (c.SlotFollows e)
  | .recvStatus lsn => inferInstanceAs (Decidable (∃ flush ∈ c.session.updates.head?.bind flushPosition,
      lsn = slotAfter c.confirmed flush))
  | .commit _ | .start _ | .client _ | .store _ | .stray _ | .lose _ | .sendStatus .. | .stop => isTrue trivial

instance : ∀ e, Decidable (c.ReportsStored e)
  | .client e => inferInstanceAs (Decidable (∀ m ∈ c.session.reported e, m ∈ c.session.unacked.map Prod.fst))
  | .commit _ | .start _ | .store _ | .stray _ | .lose _ | .sendStatus .. | .recvStatus _ | .stop => isTrue trivial

instance : ∀ e, Decidable (c.KeepsLog e)
  | .lose _ => isFalse id
  | .commit _ | .start _ | .client _ | .store _ | .stray _ | .sendStatus .. | .recvStatus _ | .stop => isTrue trivial

instance : ∀ e, Decidable (c.StoresCopies e)
  | .stray record => inferInstanceAs (Decidable (record ∈ records c.wal))
  | .commit _ | .start _ | .client _ | .store _ | .lose _ | .sendStatus .. | .recvStatus _ | .stop => isTrue trivial

instance : ∀ e, Decidable (c.StoresOnce e)
  | .stray _ => isFalse id
  | .commit _ | .start _ | .client _ | .store _ | .lose _ | .sendStatus .. | .recvStatus _ | .stop => isTrue trivial

instance : ∀ e, Decidable (c.StoresInOrder partition e)
  | .store i => inferInstanceAs (Decidable (∀ p ∈ c.session.unstored[i]?, ∀ q ∈ c.session.unstored.take i,
      place partition q.2 ≠ place partition p.2))
  | .commit _ | .start _ | .client _ | .stray _ | .lose _ | .sendStatus .. | .recvStatus _ | .stop => isTrue trivial

instance (e : ClusterEvent) : Decidable (c.Reliable e) := decidable_of_iff' _ (Cluster.reliable_iff c e)

instance (e : ClusterEvent) : Decidable (c.Orderly partition e) :=
  decidable_of_iff' _ (Cluster.orderly_iff partition c e)

end

/-! ### The steps of a reliable run -/

/-- **`Cluster.Fires`** — the ways a step can go. -/
inductive Cluster.Fires (c : Cluster) : ClusterEvent → Cluster → Prop
  | commit {t : WalTxn} (horder : ∀ u ∈ c.wal, u.commitLsn < t.commitLsn)
      (hnew : c.confirmed < t.commitLsn) : Fires c (.commit t) { c with wal := c.wal ++ [t] }
  | start : Fires c (.start c.confirmed) { c with session := Session.begin c.confirmed }
  | client {e : Event} {system : System} (hfollows : streamed (c.session.events ++ [e]) <+: stream c.sent)
      (hreports : ∀ m ∈ c.session.reported e, m ∈ c.session.unacked.map Prod.fst)
      (hstep : c.session.system.step e = some system) :
      Fires c (.client e) { c with session := c.session.after e system }
  | store {i : Nat} {p : Message × KafkaRecord} (hp : c.session.unstored[i]? = some p) :
      Fires c (.store i) (c.store i p)
  | stray (record : KafkaRecord) : Fires c (.stray record) { c with log := c.log ++ [record] }
  | sendStatus (recvdLsn now : UInt64) :
      Fires c (.sendStatus recvdLsn now) { c with session := { c.session with
        updates := c.session.updates ++
          [sendCheckpoint recvdLsn c.session.system.ctx.fsyncLsn now] } }
  | recvStatus {update : List UInt8} {rest : List (List UInt8)} {flush : UInt64}
      (hupdates : c.session.updates = update :: rest) (hflush : flushPosition update = some flush) :
      Fires c (.recvStatus (slotAfter c.confirmed flush)) (c.moveSlot (slotAfter c.confirmed flush))
  | stop : Fires c .stop { c with session := { c.session with alive := false } }

theorem Cluster.fires_of_step {c c' : Cluster} {e : ClusterEvent} (h : c.step e = some c')
    (hreliable : c.Reliable e) : c.Fires e c' := by
  cases e with
  | commit t =>
    obtain rfl := Option.some.inj h
    exact .commit hreliable.commits.1 hreliable.commits.2
  | start lsn =>
    obtain rfl := Option.some.inj h
    obtain ⟨-, rfl⟩ := hreliable.streams
    exact .start
  | client e =>
    obtain ⟨-, hs⟩ := Option.ite_none_right_eq_some.mp h
    obtain ⟨system, hstep, rfl⟩ := Option.map_eq_some_iff.mp hs
    exact .client hreliable.streams hreliable.reports hstep
  | store i =>
    obtain ⟨p, hp, rfl⟩ := Option.map_eq_some_iff.mp h
    exact .store hp
  | stray record =>
    obtain rfl := Option.some.inj h
    exact .stray record
  | lose i => exact hreliable.keeps.elim
  | sendStatus recvdLsn now =>
    obtain ⟨-, hs⟩ := Option.ite_none_right_eq_some.mp h
    obtain rfl := Option.some.inj hs
    exact .sendStatus recvdLsn now
  | recvStatus lsn =>
    obtain rfl := Option.some.inj h
    obtain ⟨flush, hflush, rfl⟩ := hreliable.slot
    obtain ⟨update, hupdate, hflush⟩ := Option.bind_eq_some_iff.mp hflush
    obtain ⟨rest, hupdates⟩ := List.head?_eq_some_iff.mp hupdate
    exact .recvStatus hupdates hflush
  | stop =>
    obtain rfl := Option.some.inj h
    exact .stop

/-! ## §3 — The stream and the client -/

/-- What the brokers have still to store of what the client is sent. -/
def Cluster.outstanding (c : Cluster) : List KafkaRecord :=
  c.session.unstored.map Prod.snd ++ (records c.sent).drop c.session.system.produced.length

/-- The positions that the status updates on their way will confirm. -/
def Session.flushes (s : Session) : List UInt64 :=
  (s.updates.filterMap flushPosition).filter (· ≠ 0)

/-- **`c.Streaming`** — the client follows the stream, and the brokers have what its queue says. -/
structure Cluster.Streaming (c : Cluster) : Prop where
  order : (c.wal.map WalTxn.commitLsn).Pairwise (· < ·)
  run : System.Run false c.session.events c.session.system
  follows : streamed c.session.events <+: stream c.sent
  waiting : c.session.unstored.Sublist c.session.system.produced
  queue : c.session.system.queue.Perm ((c.session.unstored ++ c.session.unacked).map Prod.fst)

theorem order_txnsAfter {wal : List WalTxn} (h : (wal.map WalTxn.commitLsn).Pairwise (· < ·))
    (lsn : UInt64) : ((txnsAfter wal lsn).map WalTxn.commitLsn).Pairwise (· < ·) :=
  h.sublist (List.filter_sublist.map _)

/-- The transactions after a position are the last ones. -/
theorem txnsUpTo_append_txnsAfter {wal : List WalTxn}
    (h : (wal.map WalTxn.commitLsn).Pairwise (· < ·)) (lsn : UInt64) :
    txnsUpTo wal lsn ++ txnsAfter wal lsn = wal := by
  induction wal with
  | nil => rfl
  | cons t wal ih =>
    rw [List.map_cons, List.pairwise_cons] at h
    unfold txnsUpTo txnsAfter
    by_cases ht : lsn < t.commitLsn
    · have hall : ∀ u ∈ t :: wal, lsn < u.commitLsn := by
        intro u hu
        rcases List.mem_cons.mp hu with rfl | hu
        · exact ht
        · exact UInt64.lt_trans ht (h.1 _ (List.mem_map_of_mem hu))
      have hnone : (t :: wal).filter (·.commitLsn ≤ lsn) = [] := by
        rw [List.filter_eq_nil_iff]
        intro u hu
        simpa using hall u hu
      rw [hnone, List.nil_append, List.filter_eq_self]
      intro u hu
      simpa using hall u hu
    · rw [List.filter_cons_of_pos (by simpa using ht), List.filter_cons_of_neg (by simpa using ht)]
      exact congrArg (t :: ·) (ih h.2)

theorem txnsAfter_suffix {wal : List WalTxn} (h : (wal.map WalTxn.commitLsn).Pairwise (· < ·))
    (lsn : UInt64) : txnsAfter wal lsn <:+ wal :=
  ⟨_, txnsUpTo_append_txnsAfter h lsn⟩

/-- What is after the last transaction of a first part is the rest. -/
theorem txnsAfter_append {front later : List WalTxn} {t : WalTxn}
    (h : ((front ++ [t] ++ later).map WalTxn.commitLsn).Pairwise (· < ·)) :
    txnsAfter (front ++ [t] ++ later) t.commitLsn = later := by
  rw [List.map_append, List.pairwise_append, List.map_append, List.pairwise_append] at h
  obtain ⟨⟨-, -, hfront⟩, -, hlater⟩ := h
  have hbefore : (front ++ [t]).filter (t.commitLsn < ·.commitLsn) = [] := by
    rw [List.filter_eq_nil_iff]
    intro u hu
    rcases List.mem_append.mp hu with hu | hu
    · have := hfront _ (List.mem_map_of_mem hu) t.commitLsn (by simp)
      simpa using UInt64.le_of_lt this
    · simp [List.mem_singleton.mp hu]
  have hafter : later.filter (t.commitLsn < ·.commitLsn) = later := by
    rw [List.filter_eq_self]
    intro u hu
    simpa using hlater t.commitLsn (by simp) _ (List.mem_map_of_mem hu)
  rw [txnsAfter, List.filter_append, hbefore, hafter, List.nil_append]

/-- A later position is after an earlier one. -/
theorem txnsAfter_txnsAfter {wal : List WalTxn} {lsn lsn' : UInt64} (h : lsn ≤ lsn') :
    txnsAfter (txnsAfter wal lsn) lsn' = txnsAfter wal lsn' := by
  rw [txnsAfter, txnsAfter, txnsAfter, List.filter_filter]
  apply List.filter_congr
  intro t _
  by_cases ht : lsn' < t.commitLsn
  · simp [ht, UInt64.lt_of_le_of_lt h ht]
  · simp [ht]

/-- **`Moves s s' e`** — what a callback does to the messages: it reports one, it hands one over, or it
leaves them where they are. -/
inductive Moves (s s' : System) : Event → Prop
  | stays {e : Event} (he : ∀ i, e ≠ .onDeliverMsg i false) (hproduced : s'.produced = s.produced)
      (hqueue : s'.queue = s.queue) : Moves s s' e
  | report {i : Nat} {m : Message} (hm : s.queue[i]? = some m) (hproduced : s'.produced = s.produced)
      (hqueue : s'.queue = s.queue.eraseIdx i) : Moves s s' (.onDeliverMsg i false)
  | handOver {m : Message} {record : KafkaRecord} (queueFull : Bool)
      (hproduced : s'.produced = s.produced ++ [(m, record)]) (hqueue : s'.queue = s.queue ++ [m]) :
      Moves s s' (.rdKafkaProduce false queueFull)

theorem moves_of_step {s s' : System} {e : Event} (h : s.step e = some s') : Moves s s' e := by
  have hbegin (xid : UInt32) : (s.tryBegin xid).produced = s.produced ∧
      (s.tryBegin xid).queue = s.queue := by
    unfold System.tryBegin
    split <;> exact ⟨rfl, rfl⟩
  cases System.fires_of_step h with
  | beginTxn xid =>
    unfold System.onBeginTxn
    split_ifs
    · exact .stays nofun rfl rfl
    · exact .stays nofun rfl rfl
    · exact .stays nofun (hbegin xid).1 (hbegin xid).2
  | commitTxn =>
    unfold System.onCommitTxn
    split <;> exact .stays nofun rfl rfl
  | produce failed queueFull =>
    cases failed with
    | true => cases queueFull <;> exact .stays nofun rfl rfl
    | false => cases queueFull <;> exact .handOver _ rfl rfl
  | @retryBegin xid => exact .stays nofun (hbegin xid).1 (hbegin xid).2
  | deliver failed hm =>
    cases failed with
    | true => exact .stays nofun rfl rfl
    | false => exact .report hm rfl rfl
  | _ => exact .stays nofun rfl rfl

theorem unackedAfter_of_ne {s : Session} {e : Event} (he : ∀ i, e ≠ .onDeliverMsg i false) :
    s.unackedAfter e = s.unacked := by
  cases e with
  | onDeliverMsg i failed =>
    cases failed with
    | true => rfl
    | false => exact absurd rfl (he i)
  | _ => rfl

theorem reports_of_ne {s : Session} {e : Event} (he : ∀ i, e ≠ .onDeliverMsg i false) :
    ∀ m ∈ s.reported e, m ∈ s.unacked.map Prod.fst := by
  intro m hm
  unfold Session.reported at hm
  split at hm
  · exact absurd rfl (he _)
  · cases hm

/-- The list of what was accepted grows. -/
theorem produced_prefix_of_step {s s' : System} {e : Event} (h : s.step e = some s') :
    s.produced <+: s'.produced := by
  cases moves_of_step h with
  | stays he hproduced => rw [hproduced]
  | report hm hproduced => rw [hproduced]
  | handOver queueFull hproduced =>
    rw [hproduced]
    exact List.prefix_append _ _

/-- A report takes one message out of those stored. -/
theorem perm_of_report {s : Session} {i : Nat} {m : Message} (hm : s.system.queue[i]? = some m)
    (hmem : m ∈ s.unacked.map Prod.fst) :
    (s.unacked.map Prod.fst).Perm (m :: (s.unackedAfter (.onDeliverMsg i false)).map Prod.fst) := by
  simp only [Session.unackedAfter, Session.reported, hm]
  obtain ⟨p, hp, rfl⟩ := List.mem_map.mp hmem
  obtain ⟨q, before, after, -, hq, hsplit, herase⟩ :=
    List.exists_of_eraseP (p := fun q : Message × KafkaRecord => decide (q.1 = p.1)) hp (by simp)
  rw [herase, hsplit, List.map_append, List.map_append, List.map_cons, of_decide_eq_true hq]
  exact List.perm_middle

section

variable {c : Cluster} {partition : String → Option (List UInt8) → Nat}

/-- The transactions sent so far stay the first when another one is committed. -/
theorem sent_commit {t : WalTxn} (hnew : c.session.start < t.commitLsn) :
    ({ c with wal := c.wal ++ [t] } : Cluster).sent = c.sent ++ [t] := by
  simp [Cluster.sent, txnsAfter, hnew]

theorem streaming_init (origin : UInt64) : (Cluster.init origin).Streaming where
  order := List.Pairwise.nil
  run := rfl
  follows := List.nil_prefix
  waiting := List.Sublist.refl _
  queue := List.Perm.nil

/-- An event that hands nothing over leaves waiting what was waiting. -/
theorem Cluster.Streaming.waiting_after (h : c.Streaming) {e : Event} {system : System}
    (hproduced : system.produced = c.session.system.produced) :
    (c.session.after e system).unstored.Sublist system.produced := by
  simp only [Session.after]
  rw [hproduced, List.drop_length, List.append_nil]
  exact h.waiting

theorem Cluster.Streaming.client (h : c.Streaming) {e : Event} {system : System}
    (hfollows : streamed (c.session.events ++ [e]) <+: stream c.sent)
    (hreports : ∀ m ∈ c.session.reported e, m ∈ c.session.unacked.map Prod.fst)
    (hstep : c.session.system.step e = some system) :
    ({ c with session := c.session.after e system } : Cluster).Streaming := by
  have hrun : System.Run false (c.session.events ++ [e]) system := by
    rw [System.Run, run_snoc, h.run]
    exact hstep
  cases moves_of_step hstep with
  | stays he hproduced hqueue =>
    refine ⟨h.order, hrun, hfollows, h.waiting_after hproduced, ?_⟩
    show system.queue.Perm ((_ ++ _ ++ c.session.unackedAfter e).map Prod.fst)
    rw [hproduced, List.drop_length, List.append_nil, hqueue, unackedAfter_of_ne he]
    exact h.queue
  | @report i m hm hproduced hqueue =>
    refine ⟨h.order, hrun, hfollows, h.waiting_after hproduced, ?_⟩
    -- the queue and the stored messages lose the same one
    have hafter := (perm_of_report hm (hreports m hm)).append_left (c.session.unstored.map Prod.fst)
    obtain ⟨hi, rfl⟩ := List.getElem?_eq_some_iff.mp hm
    have hbefore := (List.getElem_cons_eraseIdx_perm hi).trans h.queue
    simp only [Session.after]
    rw [hproduced, List.drop_length, List.append_nil, hqueue]
    rw [List.map_append] at hbefore ⊢
    exact List.Perm.cons_inv ((hbefore.trans hafter).trans List.perm_middle)
  | @handOver m record queueFull hproduced hqueue =>
    have hdrop : system.produced.drop c.session.system.produced.length = [(m, record)] := by
      rw [hproduced, List.drop_left]
    refine ⟨h.order, hrun, hfollows, ?_, ?_⟩
    · simp only [Session.after]
      rw [hdrop, hproduced]
      exact h.waiting.append_right _
    · simp only [Session.after]
      rw [hdrop, hqueue, unackedAfter_of_ne (fun _ h => Event.noConfusion h)]
      have hmoved : (c.session.unstored ++ c.session.unacked ++ [(m, record)]).Perm
          (c.session.unstored ++ [(m, record)] ++ c.session.unacked) := by
        rw [List.append_assoc, List.append_assoc]
        exact List.perm_append_comm.append_left _
      have hqueue' := h.queue.append_right [m]
      rw [← List.map_singleton (f := Prod.fst) (a := (m, record)), ← List.map_append] at hqueue'
      exact hqueue'.trans (hmoved.map _)

/-- A message is stored: it waits for its report. -/
theorem Cluster.Streaming.store (h : c.Streaming) {i : Nat} {p : Message × KafkaRecord}
    (hp : c.session.unstored[i]? = some p) : (c.store i p).Streaming := by
  refine ⟨h.order, h.run, h.follows, (List.eraseIdx_sublist ..).trans h.waiting, ?_⟩
  obtain ⟨hi, rfl⟩ := List.getElem?_eq_some_iff.mp hp
  have hmoved : (c.session.unstored ++ c.session.unacked).Perm
      (c.session.unstored.eraseIdx i ++ (c.session.unacked ++ [c.session.unstored[i]])) := by
    rw [← List.append_assoc]
    exact ((List.getElem_cons_eraseIdx_perm hi).symm.append_right _).trans
      (List.perm_append_singleton _ _).symm
  exact h.queue.trans (hmoved.map _)

theorem Cluster.Streaming.commit (h : c.Streaming) {t : WalTxn}
    (horder : ∀ u ∈ c.wal, u.commitLsn < t.commitLsn) (hnew : c.session.start < t.commitLsn) :
    ({ c with wal := c.wal ++ [t] } : Cluster).Streaming := by
  refine ⟨?_, h.run, ?_, h.waiting, h.queue⟩
  · rw [List.map_append, List.pairwise_append]
    refine ⟨h.order, List.pairwise_singleton _ _, ?_⟩
    intro lsn hlsn lsn' hlsn'
    obtain ⟨u, hu, rfl⟩ := List.mem_map.mp hlsn
    obtain rfl : lsn' = t.commitLsn := by simpa using hlsn'
    exact horder u hu
  · rw [sent_commit hnew, stream_append]
    exact h.follows.trans (List.prefix_append _ _)

theorem Cluster.Streaming.start (h : c.Streaming) :
    ({ c with session := Session.begin c.confirmed } : Cluster).Streaming :=
  ⟨h.order, rfl, List.nil_prefix, List.Sublist.refl _, List.Perm.nil⟩

/-! ## §4 — Positions -/

/-- **`c.Positions`** — the slot's position and those on their way to it stand in order, and none of them is
ahead of a row that the brokers have not stored. -/
structure Cluster.Positions (c : Cluster) : Prop where
  ordered : (c.confirmed :: c.session.flushes).Pairwise (· ≤ ·)
  started : c.session.start ≤ c.confirmed
  reached : c.confirmed = c.session.start ∨ c.confirmed ≤ c.session.system.ctx.fsyncLsn
  flushed : ∀ flush ∈ c.session.flushes,
    flush ≤ c.session.system.ctx.fsyncLsn ∧ flush ∈ c.wal.map WalTxn.commitLsn
  safe : ∀ lsn ∈ c.confirmed :: c.session.flushes, c.outstanding.Sublist (records (txnsAfter c.wal lsn))

/-- **A checkpoint is never ahead of the brokers**: what they have still to store was committed after it. -/
theorem Cluster.Streaming.safe_fsyncLsn (h : c.Streaming) (hne : c.session.system.ctx.fsyncLsn ≠ 0) :
    c.session.start < c.session.system.ctx.fsyncLsn ∧
      c.session.system.ctx.fsyncLsn ∈ c.wal.map WalTxn.commitLsn ∧
      c.outstanding.Sublist (records (txnsAfter c.wal c.session.system.ctx.fsyncLsn)) := by
  obtain ⟨done, later, covered, beyond, hsent, hfsync, hproduced, hcovered, hflight⟩ :=
    checkpoint_covers h.run h.follows
  obtain ⟨front, t, rfl⟩ : ∃ front t, done = front ++ [t] := by
    rcases List.eq_nil_or_concat done with rfl | ⟨front, t, rfl⟩
    · exact absurd hfsync hne
    · exact ⟨front, t, List.concat_eq_append⟩
  rw [List.getLast?_concat, Option.map_some, Option.getD_some] at hfsync
  have ht : t ∈ c.sent := by
    rw [hsent]
    simp
  obtain ⟨hwal, hstart⟩ := List.mem_filter.mp ht
  have hstart : c.session.start < t.commitLsn := of_decide_eq_true hstart
  have hlater : txnsAfter c.wal t.commitLsn = later := by
    rw [← txnsAfter_txnsAfter (UInt64.le_of_lt hstart)]
    have horder := order_txnsAfter h.order c.session.start
    change txnsAfter c.sent _ = _
    change (c.sent.map _).Pairwise _ at horder
    rw [hsent] at horder ⊢
    exact txnsAfter_append horder
  rw [hfsync, hlater]
  refine ⟨hstart, List.mem_map_of_mem hwal, ?_⟩
  -- accepted and not stored: beyond the rows covered; not accepted: later still
  have hbeyond : c.session.unstored.Sublist beyond := by
    have hwaiting := h.waiting
    rw [hproduced] at hwaiting
    refine Changelog.sublist_right_of_append hwaiting ?_
    intro p hp hmem
    refine hflight p hmem (List.mem_append_right _ ?_)
    exact h.queue.symm.subset (List.mem_map_of_mem (List.mem_append_left _ hp))
  obtain ⟨rest, hrest⟩ := produced_records h.run h.follows
  have hlaterRecords : records later = beyond.map Prod.snd ++ rest := by
    rw [hsent, records_append, hproduced, List.map_append, hcovered, List.append_assoc] at hrest
    exact (List.append_cancel_left hrest).symm
  have hdrop : (records c.sent).drop c.session.system.produced.length = rest := by
    rw [← hrest, ← List.length_map (f := Prod.snd), List.drop_left]
  rw [Cluster.outstanding, hdrop, hlaterRecords]
  exact (hbeyond.map _).append_right _

theorem outstanding_commit (h : c.Streaming) {t : WalTxn} (hnew : c.session.start < t.commitLsn) :
    ({ c with wal := c.wal ++ [t] } : Cluster).outstanding = c.outstanding ++ records [t] := by
  have hle := (produced_records h.run h.follows).length_le
  rw [List.length_map] at hle
  unfold Cluster.outstanding
  rw [sent_commit hnew, records_append, List.drop_append_of_le_length hle, List.append_assoc]

/-- A message handed over was the next one to come. -/
theorem outstanding_client (h : c.Streaming) {e : Event} {system : System}
    (hfollows : streamed (c.session.events ++ [e]) <+: stream c.sent)
    (hstep : c.session.system.step e = some system) :
    ({ c with session := c.session.after e system } : Cluster).outstanding = c.outstanding := by
  have hrun : System.Run false (c.session.events ++ [e]) system := by
    rw [System.Run, run_snoc, h.run]
    exact hstep
  obtain ⟨rest, hrest⟩ := produced_records hrun hfollows
  obtain ⟨new, hnew⟩ := produced_prefix_of_step hstep
  have hnewDrop : system.produced.drop c.session.system.produced.length = new := by
    rw [← hnew, List.drop_left]
  have hafter : (records c.sent).drop system.produced.length = rest := by
    rw [← hrest, ← List.length_map (f := Prod.snd), List.drop_left]
  have hbefore : (records c.sent).drop c.session.system.produced.length = new.map Prod.snd ++ rest := by
    rw [← hrest, ← hnew, List.map_append, List.append_assoc, ← List.length_map (f := Prod.snd),
      List.drop_left]
  show (c.session.unstored ++ system.produced.drop _).map Prod.snd ++
    (records c.sent).drop system.produced.length = _
  rw [hnewDrop, hafter, Cluster.outstanding, hbefore, List.map_append, List.append_assoc]

/-- A stored message is taken out of its place. -/
theorem outstanding_store {i : Nat} {p : Message × KafkaRecord} (hp : c.session.unstored[i]? = some p) :
    ∃ after, c.outstanding = (c.session.unstored.take i).map Prod.snd ++ p.2 :: after ∧
      (c.store i p).outstanding = (c.session.unstored.take i).map Prod.snd ++ after := by
  obtain ⟨hi, rfl⟩ := List.getElem?_eq_some_iff.mp hp
  refine ⟨(c.session.unstored.drop (i + 1)).map Prod.snd ++
    (records c.sent).drop c.session.system.produced.length, ?_, ?_⟩
  · have hsplit : c.session.unstored =
        c.session.unstored.take i ++ c.session.unstored[i] :: c.session.unstored.drop (i + 1) := by
      rw [List.getElem_cons_drop, List.take_append_drop]
    rw [Cluster.outstanding]
    conv_lhs => rw [hsplit, List.map_append, List.map_cons, List.append_assoc, List.cons_append]
  · show (c.session.unstored.eraseIdx i).map Prod.snd ++
      (records c.sent).drop c.session.system.produced.length = _
    rw [List.eraseIdx_eq_take_drop_succ, List.map_append, List.append_assoc]

/-! ### The steps keep the positions -/

theorem flushes_sendStatus (s : Session) (recvdLsn now : UInt64) :
    ({ s with updates := s.updates ++ [sendCheckpoint recvdLsn s.system.ctx.fsyncLsn now] } :
      Session).flushes = s.flushes ++ [s.system.ctx.fsyncLsn].filter (· ≠ 0) := by
  simp [Session.flushes, flushPosition_sendCheckpoint]

theorem flushes_recvStatus {s : Session} {update : List UInt8} {rest : List (List UInt8)}
    {flush : UInt64} (hupdates : s.updates = update :: rest) (hflush : flushPosition update = some flush) :
    s.flushes = [flush].filter (· ≠ 0) ++ ({ s with updates := rest } : Session).flushes := by
  unfold Session.flushes
  rw [hupdates, List.filterMap_cons_some hflush, ← List.filter_append, List.singleton_append]

theorem positions_init (origin : UInt64) : (Cluster.init origin).Positions where
  ordered := List.pairwise_singleton _ _
  started := UInt64.le_refl _
  reached := Or.inl rfl
  flushed := nofun
  safe := fun _ _ => List.Sublist.refl _

theorem Cluster.Positions.commit (h : c.Positions) (hs : c.Streaming) {t : WalTxn}
    (horder : ∀ u ∈ c.wal, u.commitLsn < t.commitLsn) (hnew : c.confirmed < t.commitLsn) :
    ({ c with wal := c.wal ++ [t] } : Cluster).Positions := by
  refine ⟨h.ordered, h.started, h.reached, ?_, ?_⟩
  · intro flush hflush
    obtain ⟨hle, hmem⟩ := h.flushed flush hflush
    exact ⟨hle, by rw [List.map_append]; exact List.mem_append_left _ hmem⟩
  · intro lsn hlsn
    have hlt : lsn < t.commitLsn := by
      rcases List.mem_cons.mp hlsn with rfl | hlsn
      · exact hnew
      · obtain ⟨u, hu, rfl⟩ := List.mem_map.mp (h.flushed lsn hlsn).2
        exact horder u hu
    have hafter : txnsAfter (c.wal ++ [t]) lsn = txnsAfter c.wal lsn ++ [t] := by
      simp [txnsAfter, hlt]
    rw [outstanding_commit hs (UInt64.lt_of_le_of_lt h.started hnew), hafter, records_append]
    exact (h.safe lsn hlsn).append_right _

theorem positions_start :
    ({ c with session := Session.begin c.confirmed } : Cluster).Positions := by
  refine ⟨List.pairwise_singleton _ _, UInt64.le_refl _, Or.inl rfl, nofun, ?_⟩
  intro lsn hlsn
  obtain rfl : lsn = c.confirmed := by simpa [Session.begin, Session.flushes] using hlsn
  exact List.Sublist.refl _

theorem Cluster.Positions.client (h : c.Positions) (hs : c.Streaming) {e : Event} {system : System}
    (hfollows : streamed (c.session.events ++ [e]) <+: stream c.sent)
    (hstep : c.session.system.step e = some system) :
    ({ c with session := c.session.after e system } : Cluster).Positions := by
  have hfsync : c.session.system.ctx.fsyncLsn ≤ system.ctx.fsyncLsn :=
    fsyncLsn_le_of_step hs.run hfollows (order_txnsAfter hs.order _) hstep
  refine ⟨h.ordered, h.started, h.reached.imp_right (UInt64.le_trans · hfsync), ?_, ?_⟩
  · intro flush hflush
    obtain ⟨hle, hmem⟩ := h.flushed flush hflush
    exact ⟨UInt64.le_trans hle hfsync, hmem⟩
  · intro lsn hlsn
    rw [outstanding_client hs hfollows hstep]
    exact h.safe lsn hlsn

theorem Cluster.Positions.store (h : c.Positions) {i : Nat} {p : Message × KafkaRecord}
    (hp : c.session.unstored[i]? = some p) : (c.store i p).Positions := by
  refine ⟨h.ordered, h.started, h.reached, h.flushed, ?_⟩
  intro lsn hlsn
  obtain ⟨after, hbefore, hafter⟩ := outstanding_store hp
  rw [hafter]
  refine List.Sublist.trans ?_ (h.safe lsn hlsn)
  rw [hbefore]
  exact (List.sublist_cons_self _ _).append_left _

theorem Cluster.Positions.sendStatus (h : c.Positions) (hs : c.Streaming) (recvdLsn now : UInt64) :
    ({ c with session := { c.session with
      updates := c.session.updates ++
        [sendCheckpoint recvdLsn c.session.system.ctx.fsyncLsn now] } } : Cluster).Positions := by
  by_cases hzero : c.session.system.ctx.fsyncLsn = 0
  · have hsame : ({ c.session with updates := c.session.updates ++
        [sendCheckpoint recvdLsn c.session.system.ctx.fsyncLsn now] } : Session).flushes =
        c.session.flushes := by
      rw [flushes_sendStatus]
      simp [hzero]
    refine ⟨?_, h.started, h.reached, ?_, ?_⟩ <;> simp only [hsame]
    · exact h.ordered
    · exact h.flushed
    · exact h.safe
  · have hmore : ({ c.session with updates := c.session.updates ++
        [sendCheckpoint recvdLsn c.session.system.ctx.fsyncLsn now] } : Session).flushes =
        c.session.flushes ++ [c.session.system.ctx.fsyncLsn] := by
      rw [flushes_sendStatus]
      simp [hzero]
    obtain ⟨hstart, hwal, hsafe⟩ := hs.safe_fsyncLsn hzero
    have hreached : c.confirmed ≤ c.session.system.ctx.fsyncLsn := by
      rcases h.reached with heq | hle
      · rw [heq]
        exact UInt64.le_of_lt hstart
      · exact hle
    refine ⟨?_, h.started, h.reached, ?_, ?_⟩ <;> simp only [hmore]
    · rw [← List.cons_append, List.pairwise_append]
      refine ⟨h.ordered, List.pairwise_singleton _ _, ?_⟩
      intro lsn hlsn flush hflush
      rw [List.mem_singleton.mp hflush]
      rcases List.mem_cons.mp hlsn with rfl | hlsn
      · exact hreached
      · exact (h.flushed lsn hlsn).1
    · intro flush hflush
      rcases List.mem_append.mp hflush with hflush | hflush
      · exact h.flushed flush hflush
      · rw [List.mem_singleton.mp hflush]
        exact ⟨UInt64.le_refl _, hwal⟩
    · intro lsn hlsn
      rw [← List.cons_append] at hlsn
      rcases List.mem_append.mp hlsn with hlsn | hlsn
      · exact h.safe lsn hlsn
      · rw [List.mem_singleton.mp hlsn]
        exact hsafe

theorem Cluster.Positions.recvStatus (h : c.Positions) {update : List UInt8} {rest : List (List UInt8)}
    {flush : UInt64} (hupdates : c.session.updates = update :: rest)
    (hflush : flushPosition update = some flush) : (c.moveSlot (slotAfter c.confirmed flush)).Positions := by
  have hflushes := flushes_recvStatus hupdates hflush
  by_cases hzero : flush = 0
  · rw [List.filter_cons_of_neg (by simpa using hzero), List.filter_nil, List.nil_append] at hflushes
    rw [slotAfter, if_pos hzero, Cluster.moveSlot, hupdates, List.tail_cons]
    refine ⟨?_, h.started, h.reached, ?_, ?_⟩ <;> simp only [← hflushes]
    · exact h.ordered
    · exact h.flushed
    · exact h.safe
  · rw [List.filter_cons_of_pos (by simpa using hzero), List.filter_nil, List.singleton_append] at hflushes
    obtain ⟨hfirst, hrest⟩ := List.pairwise_cons.mp h.ordered
    have hmem : flush ∈ c.session.flushes := by
      rw [hflushes]
      exact List.mem_cons_self
    rw [slotAfter, if_neg hzero, Cluster.moveSlot, hupdates, List.tail_cons]
    refine ⟨?_, UInt64.le_trans h.started (hfirst flush hmem), Or.inr (h.flushed flush hmem).1, ?_, ?_⟩
    · rw [hflushes] at hrest
      exact hrest
    · intro flush' hflush'
      refine h.flushed flush' ?_
      rw [hflushes]
      exact List.mem_cons_of_mem _ hflush'
    · intro lsn hlsn
      refine h.safe lsn (List.mem_cons_of_mem _ ?_)
      rw [hflushes]
      exact hlsn

/-! ## §5 — The log -/

/-- A message as an entry of the log: a message without a value removes its key. -/
def entry (record : KafkaRecord) : (String × Option (List UInt8)) × Option (List UInt8) :=
  ((record.topic, record.key), record.val)

/-- The part of a log that is in one partition. -/
def inPlace (partition : String → Option (List UInt8) → Nat) (dest : String × Nat)
    (log : List KafkaRecord) : List KafkaRecord :=
  log.filter (place partition · = dest)

theorem inPlace_append (dest : String × Nat) (log log' : List KafkaRecord) :
    inPlace partition dest (log ++ log') = inPlace partition dest log ++ inPlace partition dest log' :=
  List.filter_append ..

/-- Messages for different partitions have different keys. -/
theorem entry_ne_of_place_ne {r r' : KafkaRecord} (h : place partition r ≠ place partition r') :
    (entry r).1 ≠ (entry r').1 := by
  intro hentry
  obtain ⟨htopic, hkey⟩ := Prod.mk.inj hentry
  exact h (by rw [place, place, htopic, hkey])

/-- A message may be stored before those for other partitions: no partition sees a difference. -/
theorem inPlace_store {log before after : List KafkaRecord} {r : KafkaRecord}
    (h : ∀ r' ∈ before, place partition r' ≠ place partition r) (dest : String × Nat) :
    inPlace partition dest (log ++ [r] ++ (before ++ after)) =
      inPlace partition dest (log ++ (before ++ r :: after)) := by
  simp only [inPlace, List.filter_append, List.filter_cons, List.filter_nil, List.append_assoc]
  by_cases hr : place partition r = dest
  · have hnone : before.filter (place partition · = dest) = [] := by
      simpa [← hr] using h
    simp [hr, hnone]
  · simp [hr]

/-- **`c.Contained`** — the log, and what the brokers have still to store, have every row of the history. -/
def Cluster.Contained (c : Cluster) : Prop := (records c.wal).Subperm (c.log ++ c.outstanding)

/-- **`c.Ordered partition`** — they have them in order, partition by partition. -/
def Cluster.Ordered (partition : String → Option (List UInt8) → Nat) (c : Cluster) : Prop :=
  ∀ dest, (inPlace partition dest (records c.wal)).Sublist (inPlace partition dest (c.log ++ c.outstanding))

/-- **`c.Replayed`** — they make up the history: each key has the value that the history gives it. -/
def Cluster.Replayed (c : Cluster) : Prop :=
  Changelog.replay ((c.log ++ c.outstanding).map entry) = Changelog.replay ((records c.wal).map entry)

theorem records_txnsAfter_suffix (hs : c.Streaming) (lsn : UInt64) :
    records (txnsAfter c.wal lsn) <:+ records c.wal := by
  obtain ⟨front, hfront⟩ := txnsAfter_suffix hs.order lsn
  refine ⟨records front, ?_⟩
  rw [← records_append, hfront]

/-- **`c.Writes c' e`** — what a step does to the history, the log and what has still to be stored. -/
inductive Cluster.Writes (c c' : Cluster) : ClusterEvent → Prop
  | commit {t : WalTxn} (hwal : c'.wal = c.wal ++ [t]) (hlog : c'.log = c.log)
      (hrest : c'.outstanding = c.outstanding ++ records [t]) : Writes c c' (.commit t)
  | restart (hwal : c'.wal = c.wal) (hlog : c'.log = c.log)
      (hrest : c'.outstanding = records (txnsAfter c.wal c.confirmed)) : Writes c c' (.start c.confirmed)
  | store {i : Nat} {p : Message × KafkaRecord} {after : List KafkaRecord}
      (hp : c.session.unstored[i]? = some p) (hwal : c'.wal = c.wal) (hlog : c'.log = c.log ++ [p.2])
      (hbefore : c.outstanding = (c.session.unstored.take i).map Prod.snd ++ p.2 :: after)
      (hrest : c'.outstanding = (c.session.unstored.take i).map Prod.snd ++ after) : Writes c c' (.store i)
  | stray {record : KafkaRecord} (hwal : c'.wal = c.wal) (hlog : c'.log = c.log ++ [record])
      (hrest : c'.outstanding = c.outstanding) : Writes c c' (.stray record)
  | nothing {e : ClusterEvent} (hwal : c'.wal = c.wal) (hlog : c'.log = c.log)
      (hrest : c'.outstanding = c.outstanding) : Writes c c' e

theorem Cluster.Fires.writes {c' : Cluster} {e : ClusterEvent} (h : c.Fires e c') (hs : c.Streaming)
    (hp : c.Positions) : c.Writes c' e := by
  cases h with
  | commit horder hnew =>
    exact .commit rfl rfl (outstanding_commit hs (UInt64.lt_of_le_of_lt hp.started hnew))
  | start => exact .restart rfl rfl rfl
  | client hfollows _ hcall => exact .nothing rfl rfl (outstanding_client hs hfollows hcall)
  | store hi =>
    obtain ⟨after, hbefore, hafter⟩ := outstanding_store hi
    exact .store hi rfl rfl hbefore hafter
  | stray record => exact .stray rfl rfl rfl
  | _ => exact .nothing rfl rfl rfl

/-- Nothing of the history goes missing, in whatever order and however often it is stored. -/
theorem Cluster.Contained.step {c' : Cluster} {e : ClusterEvent} (h : c.Contained) (hp : c.Positions)
    (hw : c.Writes c' e) : c'.Contained := by
  unfold Cluster.Contained at h ⊢
  cases hw with
  | commit hwal hlog hrest =>
    rw [hwal, hlog, hrest, records_append, ← List.append_assoc]
    exact (List.subperm_append_right _).mpr h
  | restart hwal hlog hrest =>
    rw [hwal, hlog, hrest]
    exact h.trans ((hp.safe c.confirmed List.mem_cons_self).append_left c.log).subperm
  | store hp hwal hlog hbefore hrest =>
    rw [hbefore] at h
    rw [hwal, hlog, hrest, List.append_assoc, List.singleton_append]
    exact h.trans (List.perm_middle.append_left c.log).subperm
  | stray hwal hlog hrest =>
    rw [hwal, hlog, hrest, List.append_assoc]
    exact h.trans ((List.sublist_append_right [_] c.outstanding).append_left c.log).subperm
  | nothing hwal hlog hrest =>
    rw [hwal, hlog, hrest]
    exact h

/-- The messages that wait before a message that is stored are for other partitions. -/
theorem place_ne_of_storesInOrder {i : Nat} {p : Message × KafkaRecord}
    (h : c.StoresInOrder partition (.store i)) (hp : c.session.unstored[i]? = some p) :
    ∀ r ∈ (c.session.unstored.take i).map Prod.snd, place partition r ≠ place partition p.2 := by
  intro r hr
  obtain ⟨q, hq, rfl⟩ := List.mem_map.mp hr
  exact h p hp q hq

/-- The order within a partition stays, with whatever is stored again between. -/
theorem Cluster.Ordered.step {c' : Cluster} {e : ClusterEvent} (h : c.Ordered partition) (hp : c.Positions)
    (hw : c.Writes c' e) (horder : c.StoresInOrder partition e) : c'.Ordered partition := by
  intro dest
  have h := h dest
  cases hw with
  | commit hwal hlog hrest =>
    rw [hwal, hlog, hrest, records_append, ← List.append_assoc, inPlace_append, inPlace_append _ _ (records [_])]
    exact h.append_right _
  | restart hwal hlog hrest =>
    rw [hwal, hlog, hrest]
    exact h.trans (((hp.safe c.confirmed List.mem_cons_self).append_left c.log).filter _)
  | store hp hwal hlog hbefore hrest =>
    rw [hwal, hlog, hrest, inPlace_store (place_ne_of_storesInOrder horder hp), ← hbefore]
    exact h
  | stray hwal hlog hrest =>
    rw [hwal, hlog, hrest, List.append_assoc]
    exact h.trans (((List.sublist_append_right [_] c.outstanding).append_left c.log).filter _)
  | nothing hwal hlog hrest =>
    rw [hwal, hlog, hrest]
    exact h

/-- The last value of each key stays, if nothing is stored behind it that was there before. -/
theorem Cluster.Replayed.step {c' : Cluster} {e : ClusterEvent} (h : c.Replayed) (hs : c.Streaming)
    (hp : c.Positions) (hw : c.Writes c' e) (horder : c.StoresInOrder partition e) (honce : c.StoresOnce e) :
    c'.Replayed := by
  unfold Cluster.Replayed at h ⊢
  cases hw with
  | commit hwal hlog hrest =>
    rw [hwal, hlog, hrest, records_append, ← List.append_assoc, List.map_append,
      @List.map_append _ _ entry (records _)]
    exact Changelog.replay_append_congr h _
  | restart hwal hlog hrest =>
    -- everything after the slot's position is sent again
    have hsafe := hp.safe c.confirmed List.mem_cons_self
    rw [hwal, hlog, hrest, List.map_append]
    rw [List.map_append] at h
    exact Changelog.replay_completed_restart h ((records_txnsAfter_suffix hs c.confirmed).map entry)
      fun e he => (hsafe.map entry).subset he
  | store hp hwal hlog hbefore hrest =>
    rw [hwal, hlog, hrest, ← h, hbefore]
    simp only [List.map_append, List.map_cons, List.map_nil]
    apply Changelog.replay_completed_store
    intro e he
    obtain ⟨r, hr, rfl⟩ := List.mem_map.mp he
    exact entry_ne_of_place_ne (place_ne_of_storesInOrder horder hp r hr)
  | stray => exact honce.elim
  | nothing hwal hlog hrest =>
    rw [hwal, hlog, hrest]
    exact h

/-! ## §6 — Every run -/

/-- **`c.Sound`** — what holds after every reliable run. -/
structure Cluster.Sound (c : Cluster) : Prop where
  streaming : c.Streaming
  positions : c.Positions
  contained : c.Contained

theorem sound_init (origin : UInt64) : (Cluster.init origin).Sound :=
  ⟨streaming_init origin, positions_init origin, List.Subperm.refl _⟩

theorem Cluster.Sound.step {c' : Cluster} {e : ClusterEvent} (h : c.Sound) (hf : c.Fires e c') : c'.Sound := by
  obtain ⟨hs, hp, hc⟩ := h
  refine ⟨?_, ?_, hc.step hp (hf.writes hs hp)⟩
  · cases hf with
    | commit horder hnew => exact hs.commit horder (UInt64.lt_of_le_of_lt hp.started hnew)
    | start => exact hs.start
    | client hfollows hreports hcall => exact hs.client hfollows hreports hcall
    | store hi => exact hs.store hi
    | _ => exact ⟨hs.order, hs.run, hs.follows, hs.waiting, hs.queue⟩
  · cases hf with
    | commit horder hnew => exact hp.commit hs horder hnew
    | start => exact positions_start
    | client hfollows _ hcall => exact hp.client hs hfollows hcall
    | store hi => exact hp.store hi
    | sendStatus recvdLsn now => exact hp.sendStatus hs recvdLsn now
    | recvStatus hupdates hflush => exact hp.recvStatus hupdates hflush
    | _ => exact ⟨hp.ordered, hp.started, hp.reached, hp.flushed, hp.safe⟩

variable {origin : UInt64} {es : List ClusterEvent}

theorem Cluster.Sound.run {c' : Cluster} (h : c.Sound) (hrun : run Cluster.step c es = some c')
    (hreliable : Along Cluster.step Cluster.Reliable c es) : c'.Sound :=
  hreliable.rule (fun _ _ _ hc he hstep => hc.step (Cluster.fires_of_step hstep he)) h hrun

theorem sound_of_run (hrun : Cluster.Run origin es c)
    (hreliable : Along Cluster.step Cluster.Reliable (Cluster.init origin) es) : c.Sound :=
  (sound_init origin).run hrun hreliable

theorem ordered_of_run (hrun : Cluster.Run origin es c)
    (hreliable : Along Cluster.step Cluster.Reliable (Cluster.init origin) es)
    (horder : Along Cluster.step (Cluster.StoresInOrder partition) (Cluster.init origin) es) :
    c.Ordered partition := by
  have h := (hreliable.and horder).rule (P := fun c => c.Sound ∧ c.Ordered partition) ?_
    ⟨sound_init origin, fun _ => List.Sublist.refl _⟩ hrun
  · exact h.2
  · rintro c e c' ⟨hsound, hordered⟩ ⟨hreliable, horder⟩ hstep
    have hf := Cluster.fires_of_step hstep hreliable
    exact ⟨hsound.step hf, hordered.step hsound.positions (hf.writes hsound.streaming hsound.positions) horder⟩

theorem replayed_run {c' : Cluster} (hsound : c.Sound) (h : c.Replayed) (hrun : run Cluster.step c es = some c')
    (horderly : Along Cluster.step (Cluster.Orderly partition) c es) : c'.Sound ∧ c'.Replayed := by
  refine horderly.rule (P := fun c => c.Sound ∧ c.Replayed) ?_ ⟨hsound, h⟩ hrun
  rintro c e c' ⟨hsound, hreplayed⟩ ⟨hreliable, horder, honce⟩ hstep
  have hf := Cluster.fires_of_step hstep hreliable
  exact ⟨hsound.step hf, hreplayed.step hsound.streaming hsound.positions
    (hf.writes hsound.streaming hsound.positions) horder honce⟩

theorem replayed_of_run (hrun : Cluster.Run origin es c)
    (horderly : Along Cluster.step (Cluster.Orderly partition) (Cluster.init origin) es) :
    c.Sound ∧ c.Replayed :=
  replayed_run (sound_init origin) rfl hrun horderly

/-! A run with two keys in two partitions.  The first client stops with one message stored out of order and
nothing acknowledged; the second one sends both again. -/

/-- The first byte of the key. -/
def partitionByByte : String → Option (List UInt8) → Nat := fun _ key => ((key.bind List.head?).getD 0).toNat

def scoresRow (key val : UInt8) : Row := ⟨5, 16390, ⟨"scores", some [key], some [val]⟩⟩

def scoresTxn : WalTxn where
  xid := 7
  rows := [scoresRow 1 10, scoresRow 2 20]
  commitLsn := 10
  xid_ne := by decide
  commitLsn_ne := by decide

/-- One transaction is committed, and the client is stopped in the middle of it. -/
def stoppedEvents : List ClusterEvent :=
  [.commit scoresTxn, .start 3, .client (.onBeginTxn 7),
    .client (scoresRow 1 10).event, .client (.rdKafkaProduce false false),
    .client (scoresRow 2 20).event, .client (.rdKafkaProduce false false), .store 1, .stop]

/-- The next client gets through the transaction and confirms it. -/
def restartedEvents : List ClusterEvent :=
  [.start 3, .client (.onBeginTxn 7),
    .client (scoresRow 1 10).event, .client (.rdKafkaProduce false false),
    .client (scoresRow 2 20).event, .client (.rdKafkaProduce false false),
    .client (.onCommitTxn 10 7), .store 0, .store 0,
    .client (.onDeliverMsg 1 false), .client (.onDeliverMsg 0 false), .sendStatus 10 0, .recvStatus 10]

/-- **Whatever happened so far, a client started now brings the log up to date.**  After every orderly run,
with any number of stops and restarts, the messages in Kafka followed by those that Postgres sends from the
slot's position on give each key the value that the whole history gives it. -/
theorem restart_completes_log (hrun : Cluster.Run origin es c)
    (horderly : Along Cluster.step (Cluster.Orderly partition) (Cluster.init origin) es) :
    Changelog.replay ((c.log ++ records (txnsAfter c.wal c.confirmed)).map entry) =
      Changelog.replay ((records c.wal).map entry) := by
  obtain ⟨hsound, hreplayed⟩ := replayed_of_run hrun horderly
  have hsafe := hsound.positions.safe c.confirmed List.mem_cons_self
  have hsuffix := (records_txnsAfter_suffix hsound.streaming c.confirmed).map entry
  rw [Cluster.Replayed, List.map_append] at hreplayed
  rw [List.map_append]
  exact Changelog.replay_completed_restart hreplayed hsuffix fun e he => (hsafe.map entry).subset he

/-- The client is gone with a message stored; the log has nothing of the first row. -/
theorem restart_completes_log_stopped :
    ∃ c, Cluster.Run 3 stoppedEvents c ∧ c.log = [(scoresRow 2 20).record] ∧
      Changelog.replay ((c.log ++ records (txnsAfter c.wal c.confirmed)).map entry) =
        Changelog.replay ((records c.wal).map entry) := by
  obtain ⟨c, hrun, hlog⟩ : ∃ c, Cluster.Run 3 stoppedEvents c ∧ c.log = [(scoresRow 2 20).record] :=
    ⟨_, rfl, rfl⟩
  have horderly : Along Cluster.step (Cluster.Orderly partitionByByte) (Cluster.init 3) stoppedEvents := by
    decide +kernel
  exact ⟨c, hrun, hlog, restart_completes_log hrun horderly⟩

/-- The rows up to the slot's position are stored. -/
theorem Cluster.Sound.confirmed_subperm (h : c.Sound) : (records (txnsUpTo c.wal c.confirmed)).Subperm c.log := by
  have hcontained := h.contained
  have hsafe := (h.positions.safe c.confirmed List.mem_cons_self).subperm
  rw [Cluster.Contained, ← txnsUpTo_append_txnsAfter h.streaming.order c.confirmed, records_append] at hcontained
  -- what has still to be stored is no more than what comes after the position
  have hall := hcontained.trans ((List.subperm_append_left c.log).mpr hsafe)
  exact (List.subperm_append_right _).mp hall

/-- They are stored in order. -/
theorem Cluster.Sound.confirmed_sublist (h : c.Sound) (hordered : c.Ordered partition) (dest : String × Nat) :
    (inPlace partition dest (records (txnsUpTo c.wal c.confirmed))).Sublist
      (inPlace partition dest c.log) := by
  have hstored := hordered dest
  have hsafe := (h.positions.safe c.confirmed List.mem_cons_self).filter (place partition · = dest)
  rw [inPlace_append] at hstored
  rw [← txnsUpTo_append_txnsAfter h.streaming.order c.confirmed, records_append, inPlace_append] at hstored
  exact Changelog.sublist_left_of_append hstored hsafe.length_le

theorem Cluster.Sound.grows {c' : Cluster} {e : ClusterEvent} (h : c.Sound) (hf : c.Fires e c') :
    c.confirmed ≤ c'.confirmed ∧ c.log <+: c'.log := by
  cases hf with
  | store => exact ⟨UInt64.le_refl _, List.prefix_append _ _⟩
  | stray => exact ⟨UInt64.le_refl _, List.prefix_append _ _⟩
  | @recvStatus update rest flush hupdates hflush =>
    refine ⟨?_, List.prefix_refl _⟩
    show c.confirmed ≤ slotAfter c.confirmed flush
    unfold slotAfter
    split
    · exact UInt64.le_refl _
    · next hne =>
      have hflushes := flushes_recvStatus hupdates hflush
      rw [List.filter_cons_of_pos (by simpa using hne)] at hflushes
      refine (List.pairwise_cons.mp h.positions.ordered).1 flush ?_
      rw [hflushes]
      simp
  | _ => exact ⟨UInt64.le_refl _, List.prefix_refl _⟩

theorem Cluster.Sound.grows_run {c' : Cluster} (h : c.Sound) (hrun : Lib.run Cluster.step c es = some c')
    (hreliable : Along Cluster.step Cluster.Reliable c es) : c.confirmed ≤ c'.confirmed ∧ c.log <+: c'.log := by
  have hgrown := hreliable.rule (P := fun c' => c'.Sound ∧ c.confirmed ≤ c'.confirmed ∧ c.log <+: c'.log) ?_
    ⟨h, UInt64.le_refl _, List.prefix_refl _⟩ hrun
  · exact hgrown.2
  · rintro t e u ⟨ht, hconfirmed, hlog⟩ he hstep
    have hf := Cluster.fires_of_step hstep he
    obtain ⟨hconfirmed', hlog'⟩ := ht.grows hf
    exact ⟨ht.step hf, UInt64.le_trans hconfirmed hconfirmed', hlog.trans hlog'⟩

/-- **What the slot has confirmed is in Kafka for good.**  After every reliable run, and after whatever it goes
on with, the rows of the transactions up to the slot's position are in the log, each at least as often as it was
committed, and the position does not go back: messages that are repeated, reordered or late take nothing away.
If the messages of a partition were stored in order, the rows are in the partition in the order of their
commits. -/
theorem confirmed_rows_stored {es' : List ClusterEvent} {c' : Cluster} (hrun : Cluster.Run origin es c)
    (hreliable : Along Cluster.step Cluster.Reliable (Cluster.init origin) es)
    (hmore : run Cluster.step c es' = some c') (hreliable' : Along Cluster.step Cluster.Reliable c es') :
    c.confirmed ≤ c'.confirmed ∧ (records (txnsUpTo c.wal c.confirmed)).Subperm c'.log ∧
      (Along Cluster.step (Cluster.StoresInOrder partition) (Cluster.init origin) es →
        ∀ dest, (inPlace partition dest (records (txnsUpTo c.wal c.confirmed))).Sublist
          (inPlace partition dest c'.log)) := by
  have hsound := sound_of_run hrun hreliable
  obtain ⟨hconfirmed, hlog⟩ := hsound.grows_run hmore hreliable'
  refine ⟨hconfirmed, hsound.confirmed_subperm.trans hlog.sublist.subperm, ?_⟩
  intro horder dest
  have hordered := ordered_of_run hrun hreliable horder
  exact (hsound.confirmed_sublist hordered dest).trans (hlog.sublist.filter _)

/-- The second client stores its messages the other way round, and one of them once more. -/
def retriedEvents : List ClusterEvent :=
  [.start 3, .client (.onBeginTxn 7),
    .client (scoresRow 1 10).event, .client (.rdKafkaProduce false false),
    .client (scoresRow 2 20).event, .client (.rdKafkaProduce false false),
    .client (.onCommitTxn 10 7), .store 1, .store 0, .stray (scoresRow 2 20).record,
    .client (.onDeliverMsg 1 false), .client (.onDeliverMsg 0 false), .sendStatus 10 0, .recvStatus 10]

theorem confirmed_rows_stored_retried :
    ∃ c c', Cluster.Run 3 (stoppedEvents ++ retriedEvents) c ∧ c.confirmed = 10 ∧
      run Cluster.step c [.stop, .start 10] = some c' ∧
      (c.confirmed ≤ c'.confirmed ∧ (records (txnsUpTo c.wal c.confirmed)).Subperm c'.log ∧
        (Along Cluster.step (Cluster.StoresInOrder partitionByByte) (Cluster.init 3)
            (stoppedEvents ++ retriedEvents) →
          ∀ dest, (inPlace partitionByByte dest (records (txnsUpTo c.wal c.confirmed))).Sublist
            (inPlace partitionByByte dest c'.log))) := by
  obtain ⟨c, c', hrun, hconfirmed, hmore, hreliable'⟩ :
      ∃ c c', Cluster.Run 3 (stoppedEvents ++ retriedEvents) c ∧ c.confirmed = 10 ∧
        run Cluster.step c [.stop, .start 10] = some c' ∧
        Along Cluster.step Cluster.Reliable c [.stop, .start 10] := ⟨_, _, rfl, rfl, rfl, by decide +kernel⟩
  have hreliable : Along Cluster.step Cluster.Reliable (Cluster.init 3) (stoppedEvents ++ retriedEvents) := by
    decide +kernel
  exact ⟨c, c', hrun, hconfirmed, hmore, confirmed_rows_stored hrun hreliable hmore hreliable'⟩

/-- Once the slot's position has reached the last commit, nothing is outstanding. -/
theorem replay_of_done (h : c.Sound) (hreplayed : c.Replayed) (hdone : ∀ t ∈ c.wal, t.commitLsn ≤ c.confirmed) :
    Changelog.replay (c.log.map entry) = Changelog.replay ((records c.wal).map entry) := by
  have hnone : txnsAfter c.wal c.confirmed = [] := by
    rw [txnsAfter, List.filter_eq_nil_iff]
    intro t ht
    simpa using hdone t ht
  have houtstanding : c.outstanding = [] := by
    have hsafe := h.positions.safe c.confirmed List.mem_cons_self
    rw [hnone] at hsafe
    exact List.eq_nil_of_sublist_nil hsafe
  rw [Cluster.Replayed, houtstanding, List.append_nil] at hreplayed
  exact hreplayed

/-- Whoever reads the partitions then, in whatever order between them, has the history. -/
theorem replay_of_seen (h : c.Sound) (hreplayed : c.Replayed) (hdone : ∀ t ∈ c.wal, t.commitLsn ≤ c.confirmed)
    {seen : List KafkaRecord} (hseen : ∀ dest, inPlace partition dest seen = inPlace partition dest c.log) :
    Changelog.replay (seen.map entry) = Changelog.replay ((records c.wal).map entry) := by
  have hsame : Changelog.SamePartitions (fun key => (key.1, partition key.1 key.2))
      (seen.map entry) (c.log.map entry) := by
    intro dest
    rw [List.filter_map, List.filter_map]
    exact congrArg (List.map entry) (hseen dest)
  have hreplay := Changelog.replay_append_of_samePartitions hsame []
  rw [List.append_nil, List.append_nil] at hreplay
  rw [hreplay, replay_of_done h hreplayed hdone]

/-- **A reader of the partitions gets the history.**  After every orderly run, once the slot's position has
reached the last commit, whoever reads the partitions, in whatever order between them, ends up with the value
that the history gives to each key, duplicates of earlier restarts included. -/
theorem partitions_rebuild {seen : List KafkaRecord} (hrun : Cluster.Run origin es c)
    (horderly : Along Cluster.step (Cluster.Orderly partition) (Cluster.init origin) es)
    (hdone : ∀ t ∈ c.wal, t.commitLsn ≤ c.confirmed)
    (hseen : ∀ dest, inPlace partition dest seen = inPlace partition dest c.log) :
    Changelog.replay (seen.map entry) = Changelog.replay ((records c.wal).map entry) := by
  obtain ⟨hsound, hreplayed⟩ := replayed_of_run hrun horderly
  exact replay_of_seen hsound hreplayed hdone hseen

/-- The log has the second row twice, and the reader takes the partitions the other way round. -/
theorem partitions_rebuild_restarted :
    ∃ c, Cluster.Run 3 (stoppedEvents ++ restartedEvents) c ∧
      c.log = [(scoresRow 2 20).record, (scoresRow 1 10).record, (scoresRow 2 20).record] ∧
      Changelog.replay ([(scoresRow 1 10).record, (scoresRow 2 20).record,
          (scoresRow 2 20).record].map entry) =
        Changelog.replay ((records c.wal).map entry) := by
  obtain ⟨c, hrun, hlog, hwal, hconfirmed⟩ :
      ∃ c, Cluster.Run 3 (stoppedEvents ++ restartedEvents) c ∧
        c.log = [(scoresRow 2 20).record, (scoresRow 1 10).record, (scoresRow 2 20).record] ∧
        c.wal = [scoresTxn] ∧ c.confirmed = 10 := ⟨_, rfl, rfl, rfl, rfl⟩
  have horderly : Along Cluster.step (Cluster.Orderly partitionByByte) (Cluster.init 3)
      (stoppedEvents ++ restartedEvents) := by decide +kernel
  refine ⟨c, hrun, hlog, partitions_rebuild hrun horderly ?_ ?_⟩
  · rw [hwal, hconfirmed]
    simp [scoresTxn]
  · intro dest
    rw [hlog]
    -- the row of the other partition is the only one that stands elsewhere
    have h₁ : place partitionByByte (scoresRow 1 10).record = ("scores", 1) := rfl
    have h₂ : place partitionByByte (scoresRow 2 20).record = ("scores", 2) := rfl
    simp only [inPlace, List.filter_cons, List.filter_nil, h₁, h₂, decide_eq_true_eq]
    by_cases hdest : ("scores", 1) = dest
    · simp [← hdest]
    · simp [hdest]

end

end BottledWater.Deployment
