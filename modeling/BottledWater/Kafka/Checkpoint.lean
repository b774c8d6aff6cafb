/-
# BottledWater.Kafka.Checkpoint — what `fsync_lsn` is after every run.

`checkpointLsn` says what the position reported to Postgres ought to be, in terms of the transactions
alone: the commit LSN of the last transaction in the longest prefix of durable ones.  The code keeps it
in `fsync_lsn` without ever looking at a prefix; it only moves `xact_tail`, in `maybe_checkpoint`.

`Exact` is the invariant between the two.  It has to say what a finished slot at the tail means: the
loop left it there because it was also the head, so everything begun after it is still open.
-/
import BottledWater.Kafka.History
import BottledWater.Client.Replication
import Mathlib.Data.List.TakeWhile

namespace BottledWater.Kafka

open BottledWater.Lib BottledWater.Client
open ProducerContext (finished Checkpointed)

/-! ## §1 — the specification -/

/-- Committed, and every message acknowledged. -/
def Txn.durable (t : Txn) : Bool := t.commitLsn.isSome && t.acked == t.sent

/-- **`checkpointLsn ts`** — the commit LSN of the last transaction in the longest durable prefix, 0 when
the prefix is empty. -/
def checkpointLsn (ts : List Txn) : UInt64 :=
  ((ts.takeWhile Txn.durable).getLast?.bind (·.commitLsn)).getD 0

/-- The transactions in begin order, the snapshot being the first when there is one. -/
def System.transactions (s : System) : List Txn := if s.snapshot then s.txns else s.txns.tail

/-- The commit positions in the order in which they arrive. -/
def commits (es : List Event) : List UInt64 :=
  es.filterMap fun
    | .onCommitTxn walPos _ => some walPos
    | _ => none

/-- The commit positions of a list of transactions. -/
def lsns (ts : List Txn) : List UInt64 := ts.filterMap (·.commitLsn)

theorem lsns_append (ts us : List Txn) : lsns (ts ++ us) = lsns ts ++ lsns us :=
  List.filterMap_append

theorem mem_lsns {ts : List Txn} {t : Txn} {lsn : UInt64} (ht : t ∈ ts)
    (hlsn : t.commitLsn = some lsn) : lsn ∈ lsns ts :=
  List.mem_filterMap.mpr ⟨t, ht, hlsn⟩

theorem Txn.durable_iff (t : Txn) : t.durable = true ↔ t.commitLsn.isSome ∧ t.acked = t.sent := by
  simp [Txn.durable]

/-- A prefix of durable transactions that ends before one that is not is the longest. -/
theorem checkpointLsn_eq {ts : List Txn} {n : Nat} (hn : n ≤ ts.length)
    (hpre : ∀ (i : Nat) (t : Txn), i < n → ts[i]? = some t → t.durable = true)
    (hstop : ∀ t : Txn, ts[n]? = some t → t.durable = false) :
    checkpointLsn ts = ((ts.take n).getLast?.bind (·.commitLsn)).getD 0 := by
  have htake : ts.takeWhile Txn.durable = ts.take n := by
    conv_lhs => rw [← List.take_append_drop n ts]
    rw [List.takeWhile_append_of_pos]
    · cases hd : ts.drop n with
      | nil => simp
      | cons t rest =>
        have ht : ts[n]? = some t := by
          have := congrArg (·[0]?) hd
          simpa using this
        simp [hstop t ht]
    · intro t ht
      obtain ⟨i, hi, rfl⟩ := List.mem_iff_getElem.mp ht
      rw [List.length_take] at hi
      rw [List.getElem_take]
      exact hpre i _ (by omega) (List.getElem?_eq_getElem (by omega))
  rw [checkpointLsn, htake]

theorem checkpointLsn_zero {ts : List Txn} (hstop : ∀ t : Txn, ts[0]? = some t → t.durable = false) :
    checkpointLsn ts = 0 := by
  rw [checkpointLsn_eq (Nat.zero_le _) (by omega) hstop]
  rfl

theorem checkpointLsn_succ {ts : List Txn} {n : Nat} {t : Txn} (ht : ts[n]? = some t)
    (hpre : ∀ (i : Nat) (t : Txn), i < n + 1 → ts[i]? = some t → t.durable = true)
    (hstop : ∀ t : Txn, ts[n + 1]? = some t → t.durable = false) :
    checkpointLsn ts = t.commitLsn.getD 0 := by
  have hlt := (List.getElem?_eq_some_iff.mp ht).1
  rw [checkpointLsn_eq hlt hpre hstop, List.getLast?_take]
  simp [ht]

section Ordered

variable {ts us : List Txn}

/-- With increasing commit positions, what is not in the durable prefix committed after the
checkpoint. -/
theorem acked_of_le_checkpointLsn (hord : (lsns ts).Pairwise (· < ·))
    (hne : ∀ t ∈ ts, t.commitLsn ≠ some 0) {t : Txn} (ht : t ∈ ts) {lsn : UInt64}
    (hlsn : t.commitLsn = some lsn) (hle : lsn ≤ checkpointLsn ts) : t.acked = t.sent := by
  by_cases hpre : t ∈ ts.takeWhile Txn.durable
  · exact (t.durable_iff.mp (List.mem_takeWhile_imp hpre)).2
  exfalso
  have hrest : t ∈ ts.dropWhile Txn.durable := by
    have hsplit := ht
    rw [← List.takeWhile_append_dropWhile (p := Txn.durable) (l := ts)] at hsplit
    exact (List.mem_append.mp hsplit).resolve_left hpre
  unfold checkpointLsn at hle
  cases hlast : (ts.takeWhile Txn.durable).getLast? with
  | none =>
    -- nothing is durable: the checkpoint is 0, and 0 is no commit position
    rw [hlast] at hle
    have h0 : lsn = 0 := UInt64.le_antisymm hle (UInt64.zero_le)
    exact hne t ht (h0 ▸ hlsn)
  | some u =>
    have hu : u ∈ ts.takeWhile Txn.durable := List.mem_of_getLast? hlast
    obtain ⟨ulsn, hulsn⟩ := Option.isSome_iff_exists.mp (u.durable_iff.mp (List.mem_takeWhile_imp hu)).1
    rw [hlast] at hle
    simp only [Option.bind_some, hulsn, Option.getD_some] at hle
    rw [← List.takeWhile_append_dropWhile (p := Txn.durable) (l := ts), lsns_append,
      List.pairwise_append] at hord
    have hlt := hord.2.2 ulsn (mem_lsns hu hulsn) lsn (mem_lsns hrest hlsn)
    exact absurd hle (UInt64.not_le.mpr hlt)

/-- With increasing commit positions, the checkpoint is the greatest position in the durable prefix. -/
theorem le_checkpointLsn (hord : (lsns ts).Pairwise (· < ·)) {t : Txn}
    (ht : t ∈ ts.takeWhile Txn.durable) {lsn : UInt64} (hlsn : t.commitLsn = some lsn) :
    lsn ≤ checkpointLsn ts := by
  have hpre : (lsns (ts.takeWhile Txn.durable)).Pairwise (· < ·) :=
    hord.sublist (List.Sublist.filterMap _ (List.takeWhile_sublist _))
  rcases List.eq_nil_or_concat (ts.takeWhile Txn.durable) with hnil | ⟨init, last, hsplit⟩
  · simp [hnil] at ht
  have hlast : last ∈ ts.takeWhile Txn.durable := by simp [hsplit]
  obtain ⟨llsn, hllsn⟩ :=
    Option.isSome_iff_exists.mp (last.durable_iff.mp (List.mem_takeWhile_imp hlast)).1
  have hcheck : checkpointLsn ts = llsn := by simp [checkpointLsn, hsplit, hllsn]
  rw [hsplit, List.concat_eq_append, List.mem_append, List.mem_singleton] at ht
  rw [hcheck]
  rcases ht with hinit | rfl
  · rw [hsplit, List.concat_eq_append, lsns_append, List.pairwise_append] at hpre
    exact UInt64.le_of_lt
      (hpre.2.2 lsn (mem_lsns hinit hlsn) llsn (mem_lsns (List.mem_singleton_self last) hllsn))
  · obtain rfl := Option.some.inj (hlsn.symm.trans hllsn)
    exact UInt64.le_refl _

/-- With increasing commit positions, a longer durable prefix has a later checkpoint. -/
theorem checkpointLsn_mono (hord : (lsns us).Pairwise (· < ·))
    (hpre : ts.takeWhile Txn.durable <+: us) : checkpointLsn ts ≤ checkpointLsn us := by
  cases hlast : (ts.takeWhile Txn.durable).getLast? with
  | none => simp [checkpointLsn, hlast]
  | some u =>
    have hu : u ∈ ts.takeWhile Txn.durable := List.mem_of_getLast? hlast
    obtain ⟨lsn, hlsn⟩ :=
      Option.isSome_iff_exists.mp (u.durable_iff.mp (List.mem_takeWhile_imp hu)).1
    have hall : ∀ t ∈ ts.takeWhile Txn.durable, t.durable = true :=
      fun t ht => List.mem_takeWhile_imp ht
    have humem : u ∈ us.takeWhile Txn.durable := by
      obtain ⟨rest, rfl⟩ := hpre
      rw [List.takeWhile_append_of_pos hall]
      exact List.mem_append_left _ hu
    have hcheck : checkpointLsn ts = lsn := by simp [checkpointLsn, hlast, hlsn]
    rw [hcheck]
    exact le_checkpointLsn hord humem hlsn

end Ordered

namespace System

variable {s s' : System} {lo : Nat} {p : PgPhase}

/-! ## §2 — the invariant of the tail -/

/-- The commit LSN of the last of the first `n` transactions, 0 when there is none. -/
def lsnBefore (s : System) : Nat → UInt64
  | 0 => 0
  | n + 1 => (s.slotAt n).commitLsn

/-- How many transactions the tail stands for: it includes a finished one that the loop left there. -/
def reached (s : System) (lo : Nat) : Nat := if finished (s.slotAt lo) then lo + 1 else lo

/-- **`Exact s lo`** — `fsync_lsn` is the commit LSN of the last transaction passed, and a finished
transaction is left at the tail only while everything begun after it is open. -/
structure Exact (s : System) (lo : Nat) : Prop where
  fsync : s.ctx.fsyncLsn = s.lsnBefore (s.reached lo)
  behind : finished (s.slotAt lo) → ∀ i, lo < i → (s.slotAt i).commitLsn = 0

theorem lsnBefore_congr {n : Nat} (h : ∀ i, i < n → (s'.slotAt i).commitLsn = (s.slotAt i).commitLsn) :
    s'.lsnBefore n = s.lsnBefore n := by
  cases n with
  | zero => rfl
  | succ n => exact h n (Nat.lt_succ_self n)

/-- Beyond the current transaction there is nothing. -/
theorem slotAt_of_current_lt (hc : s.Coupled lo) {i : Nat} (hi : s.current < i) :
    s.slotAt i = ⟨0, 0, 0, 0⟩ := by
  have hlen : s.txns.length ≤ i := by
    have := hc.nonempty
    unfold current at hi
    omega
  rw [slotAt, List.getElem?_eq_none hlen]
  rfl

theorem exact_init (takingSnapshot : Bool) : (init takingSnapshot).Exact 0 where
  fsync := rfl
  behind := by
    intro _ i hi
    rw [slotAt_of_current_lt (coupled_init takingSnapshot) hi]

/-- Nothing that the invariant speaks about has changed. -/
theorem Exact.of_eq (h : s.Exact lo) (hfsync : s'.ctx.fsyncLsn = s.ctx.fsyncLsn)
    (htxns : s'.txns = s.txns) : s'.Exact lo := by
  have hat : s'.slotAt = s.slotAt := by funext i; unfold slotAt; rw [htxns]
  have hreached : s'.reached lo = s.reached lo := by unfold reached; rw [hat]
  refine ⟨?_, hat ▸ h.behind⟩
  rw [hfsync, h.fsync, hreached]
  exact (lsnBefore_congr fun i _ => by rw [hat]).symm

/-- `maybe_checkpoint` establishes the invariant, provided `fsync_lsn` is right when it does nothing. -/
theorem exact_of_checkpointed {lo' : Nat} (hc : s.Coupled lo)
    (hck : Checkpointed s.ctx s.ctx.maybeCheckpoint lo lo' s.current s.slotAt)
    (hfsync : ¬ finished (s.slotAt lo) → s.ctx.fsyncLsn = s.lsnBefore lo) :
    s.maybeCheckpoint.Exact lo' := by
  have hle := hck.le
  constructor
  · change s.ctx.maybeCheckpoint.fsyncLsn = s.lsnBefore (s.reached lo')
    unfold reached
    split
    · next hfin => exact hck.fsync_finished hfin
    · next hfin =>
      rcases Nat.eq_or_lt_of_le hle with rfl | hlt
      · rw [hck.fsync_kept hfin rfl]
        exact hfsync hfin
      · rw [hck.fsync_moved hfin hlt]
        obtain ⟨n, rfl⟩ := Nat.exists_eq_succ_of_ne_zero (Nat.ne_of_gt (Nat.zero_lt_of_lt hlt))
        rfl
  · intro hfin i hi
    change (s.slotAt i).commitLsn = 0
    rw [slotAt_of_current_lt hc (hck.stopped hfin ▸ hi)]

/-! ## §3 — every step keeps it -/

/-- Where one transaction changes, its slot does. -/
theorem slotAt_modify {k : Nat} {f : Txn → Txn} (htxns : s'.txns = s.txns.modify k f) (i : Nat) :
    s'.slotAt i =
      if i = k then (s.txns[i]?.map fun t => (f t).slot).getD ⟨0, 0, 0, 0⟩ else s.slotAt i := by
  rw [slotAt, htxns, List.getElem?_modify, slotAt]
  by_cases hi : i = k
  · rw [if_pos hi]
    cases s.txns[i]? <;> simp [hi]
  · rw [if_neg hi]
    simp [Ne.symm hi]

theorem slotAt_modify_lsn {k : Nat} {f : Txn → Txn} (htxns : s'.txns = s.txns.modify k f)
    (hf : ∀ t, (f t).commitLsn = t.commitLsn) (i : Nat) :
    (s'.slotAt i).commitLsn = (s.slotAt i).commitLsn := by
  rw [slotAt_modify htxns]
  split
  · rw [slotAt]
    cases s.txns[i]? <;> simp [Txn.slot, hf]
  · rfl

/-- The slot of an open transaction has no commit LSN. -/
theorem Open.slotAt_current {xid : UInt32} (h : s.Open xid) :
    (s.slotAt s.current).xid = xid ∧ (s.slotAt s.current).commitLsn = 0 := by
  obtain ⟨t, ht, hx, hcommit⟩ := h
  rw [slotAt_of_getElem? ht]
  exact ⟨hx, by rw [Txn.slot, hcommit]; rfl⟩

theorem Exact.tryBegin (h : s.Exact lo) (hc : s.Coupled lo) (xid : UInt32) :
    (s.tryBegin xid).Exact lo := by
  unfold System.tryBegin
  split
  · exact h.of_eq rfl rfl
  · next hfull =>
    set s' : System := { s with
      ctx := s.ctx.openXact xid, control := .ready, txns := s.txns ++ [⟨xid, none, 0, 0⟩],
      owner := Function.update s.owner (s.ctx.xactHead + 1) s.txns.length } with hs'
    have hcur := hc.current_lt
    have hat : ∀ i, i ≤ s.current → s'.slotAt i = s.slotAt i := by
      intro i hi
      rw [slotAt, hs', slotAt]
      simp only
      rw [List.getElem?_append_left (by omega)]
    have hlsn : ∀ i, s.current < i → (s'.slotAt i).commitLsn = 0 := by
      intro i hi
      cases ht : s'.txns[i]? with
      | none => rw [slotAt, ht]; rfl
      | some t =>
        have hmem := ht
        simp only [hs'] at hmem
        rw [List.getElem?_append_right (by unfold current at hi; omega)] at hmem
        obtain rfl := List.mem_singleton.mp (List.mem_of_getElem? hmem)
        rw [slotAt_of_getElem? ht]
        rfl
    have hreached : s'.reached lo = s.reached lo := by
      unfold reached
      rw [hat lo hc.holds.window.le]
    refine ⟨?_, ?_⟩
    · rw [hreached]
      refine h.fsync.trans (lsnBefore_congr fun i hi => ?_).symm
      rw [hat i]
      have := hc.holds.window.le
      unfold reached at hi
      split at hi <;> omega
    · intro hfin i hi
      rw [hat lo hc.holds.window.le] at hfin
      rcases Nat.lt_or_ge s.current i with hlt | hge
      · exact hlsn i hlt
      · rw [hat i hge]
        exact h.behind hfin i hi

/-- At the tail, a transaction with no commit LSN is only passed when it is number 0. -/
theorem lsnBefore_reached (hlsn : (s.slotAt lo).commitLsn = 0) (hxid : lo ≠ 0 → (s.slotAt lo).xid ≠ 0) :
    s.lsnBefore (s.reached lo) = s.lsnBefore lo := by
  unfold reached
  split
  · next hfin =>
    have hx : (s.slotAt lo).xid = 0 := by
      rcases hfin.2 with hpos | hx
      · rw [hlsn] at hpos
        exact absurd hpos (UInt64.lt_irrefl 0)
      · exact hx
    obtain rfl : lo = 0 := by
      by_contra hne
      exact hxid hne hx
    exact hlsn
  · rfl

theorem Exact.sendKafkaMsg (h : s.Exact lo) (hc : s.Coupled lo) (hist : s.History p)
    (hctl : s.control = .ready) {xid : UInt32} (hp : p.openXid = some xid) (walPos : UInt64)
    (relid : UInt32) (record : Option KafkaRecord) :
    (s.sendKafkaMsg walPos relid record).Exact lo := by
  obtain ⟨hopen, -⟩ := hist.open_of_ready hctl hp
  set s' := s.sendKafkaMsg walPos relid record with hs'
  have htxns : s'.txns = s.txns.modify s.current fun t => { t with sent := t.sent + 1 } := rfl
  have hlsn : ∀ i, (s'.slotAt i).commitLsn = (s.slotAt i).commitLsn :=
    slotAt_modify_lsn htxns fun _ => rfl
  by_cases hlo : lo = s.current
  · -- the tail is the open transaction; if it was passed it is the snapshot, and the LSN is still 0
    have hlsn0 : (s.slotAt lo).commitLsn = 0 := hlo ▸ hopen.slotAt_current.2
    obtain ⟨t, ht, -, -⟩ := hopen
    have hxid : lo ≠ 0 → (s.slotAt lo).xid ≠ 0 := by
      intro hne
      rw [hlo, slotAt_of_getElem? ht]
      exact hist.xid_ne s.current t (by omega) ht
    have hxid' : (s'.slotAt lo).xid = (s.slotAt lo).xid := by
      rw [slotAt_modify htxns, if_pos hlo, hlo, slotAt_of_getElem? ht, ht]
      rfl
    constructor
    · rw [lsnBefore_reached ((hlsn lo).trans hlsn0) (hxid' ▸ hxid),
        lsnBefore_congr fun i _ => hlsn i]
      exact h.fsync.trans (lsnBefore_reached hlsn0 hxid)
    · intro _ i hi
      rw [hlsn i, slotAt_of_current_lt hc (hlo ▸ hi)]
  · have hat : s'.slotAt lo = s.slotAt lo := by rw [slotAt_modify htxns, if_neg hlo]
    constructor
    · rw [reached, hat, lsnBefore_congr fun i _ => hlsn i]
      exact h.fsync
    · intro hfin i hi
      rw [hlsn i]
      exact h.behind (hat ▸ hfin) i hi

/-- What `exact_of_checkpointed` asks for, when the tail has not become unfinished. -/
theorem Exact.kept (h : s.Exact lo) (hfsync : s'.ctx.fsyncLsn = s.ctx.fsyncLsn)
    (hfin : finished (s.slotAt lo) → finished (s'.slotAt lo))
    (hlsn : ∀ i, i < lo → (s'.slotAt i).commitLsn = (s.slotAt i).commitLsn) :
    ¬ finished (s'.slotAt lo) → s'.ctx.fsyncLsn = s'.lsnBefore lo := by
  intro hn
  have hexact := h.fsync
  rw [reached, if_neg (fun hf => hn (hfin hf))] at hexact
  rw [hfsync, hexact, lsnBefore_congr hlsn]

theorem Exact.onCommitTxn (h : s.Exact lo) (hc : s.Coupled lo) {walPos : UInt64} (hw : walPos ≠ 0)
    {xid : UInt32} (hcur : s.ctx.commitsCurrent xid) :
    ∃ lo', (s.onCommitTxn walPos xid).Coupled lo' ∧ (s.onCommitTxn walPos xid).Exact lo' := by
  have hc₁ := hc.noteCommit walPos
  obtain ⟨lo', hck, hc'⟩ := hc₁.checkpoint
  have htxns : (s.noteCommit walPos).txns =
      s.txns.modify s.current fun t => { t with commitLsn := some walPos } := rfl
  have hle := hc.holds.window.le
  unfold System.onCommitTxn
  rw [if_pos hcur]
  refine ⟨lo', hc', exact_of_checkpointed hc₁ hck (h.kept rfl ?_ ?_)⟩
  · intro hfin
    rw [slotAt_modify htxns]
    split
    · next hlo =>
      obtain ⟨t, ht⟩ := hc.getElem?_of_le hle
      rw [slotAt_of_getElem? ht] at hfin
      rw [ht]
      exact ⟨hfin.1, Or.inl (UInt64.pos_iff_ne_zero.mpr hw)⟩
    · exact hfin
  · intro i hi
    rw [slotAt_modify htxns, if_neg (by omega)]

theorem Exact.onDeliverMsg (h : s.Exact lo) (hc : s.Coupled lo) {i : Nat} {m : Message}
    (hm : s.queue[i]? = some m) :
    ∃ lo', (s.onDeliverMsg i m false).Coupled lo' ∧ (s.onDeliverMsg i m false).Exact lo' := by
  have hc₁ := hc.noteDelivery hm
  obtain ⟨lo', hck, hc'⟩ := hc₁.checkpoint
  have htxns : (s.noteDelivery i m).txns =
      s.txns.modify m.txn fun t => { t with acked := t.acked + 1 } := rfl
  refine ⟨lo', hc', exact_of_checkpointed hc₁ hck (h.kept rfl ?_ ?_)⟩
  · intro hfin
    rw [slotAt_modify htxns, if_neg]
    · exact hfin
    · -- the transaction of the message was not finished
      rintro rfl
      have hmem : m ∈ s.inFlight := List.mem_append_right _ (List.mem_of_getElem? hm)
      have hpos : 0 < s.inFlight.countP (·.txn = m.txn) :=
        List.countP_pos_iff.mpr ⟨m, hmem, by simp⟩
      have hzero := hfin.1
      rw [hc.pending_eq (hc.flight m hmem).1] at hzero
      omega
  · exact fun j _ => slotAt_modify_lsn htxns (fun _ => rfl) j

theorem exact_step {e : Event} {p' : PgPhase} (hf : Fires s e s') (hi : s.Idle) (hc : s.Coupled lo)
    (hist : s.History p) (hp : p.next e = some p') (h : s.Exact lo) :
    ∃ lo', s'.Coupled lo' ∧ s'.Exact lo' := by
  cases hf with
  | beginTxn xid hctl =>
    refine ⟨lo, hc.onBeginTxn xid, ?_⟩
    unfold onBeginTxn
    split
    · split <;> exact h.of_eq rfl rfl
    · exact h.tryBegin hc xid
  | commitTxn walPos xid hctl =>
    obtain ⟨-, hw, hopen⟩ := PgPhase.next_onCommitTxn hp
    exact h.onCommitTxn hc hw (hist.commitsCurrent hc hctl hopen)
  | send walPos relid record hctl =>
    obtain ⟨-, xid, hopen⟩ := PgPhase.next_sendKafkaMsg hp
    exact ⟨lo, hc.sendKafkaMsg (hi (Or.inl hctl)) walPos relid record,
      h.sendKafkaMsg hc hist hctl hopen walPos relid record⟩
  | produce failed queueFull _ hm =>
    refine ⟨lo, hc.rdKafkaProduce hm _ failed queueFull, h.of_eq ?_ ?_⟩ <;>
      cases failed <;> cases queueFull <;> rfl
  | retryBegin _ => exact ⟨lo, hc.tryBegin _, h.tryBegin hc _⟩
  | retryProduce _ =>
    exact ⟨lo, hc.of_eq rfl rfl rfl (List.Perm.refl _), h.of_eq rfl rfl⟩
  | quit status _ => exact ⟨lo, hc.exitNicely status, h.of_eq rfl rfl⟩
  | deliver failed hm =>
    cases failed with
    | true => exact ⟨lo, hc.exitNicely 1, h.of_eq rfl rfl⟩
    | false => exact h.onDeliverMsg hc hm

theorem run_exact {takingSnapshot : Bool} {es : List Event} (h : Run takingSnapshot es s)
    (hp : FromPostgres es) : ∃ lo, s.Coupled lo ∧ s.Exact lo := by
  refine run_rule (P := fun es s => FromPostgres es → ∃ lo, s.Coupled lo ∧ s.Exact lo) ?_ ?_ h hp
  · exact fun _ => ⟨0, coupled_init takingSnapshot, exact_init takingSnapshot⟩
  · intro es t e u ht hexact hstep hp'
    obtain ⟨p', hp'⟩ := Option.isSome_iff_exists.mp hp'
    obtain ⟨p, hp, hnext⟩ := run_snoc_eq_some hp'
    obtain ⟨lo, hc, hex⟩ := hexact (Option.isSome_iff_exists.mpr ⟨p, hp⟩)
    exact exact_step (fires_of_step hstep) (run_coupled ht).1 hc (run_history ht hp) hnext hex

/-! ## §4 — the position reported is the one specified -/

/-- A committed transaction is durable exactly when its slot is finished. -/
theorem History.finished_iff_durable (h : s.History p) {i : Nat} {t : Txn}
    (ht : s.txns[i]? = some t) (hcommit : t.commitLsn.isSome ∨ i ≠ 0) :
    finished (s.slotAt i) ↔ t.durable = true := by
  have hne := h.lsn_ne i t ht
  rw [slotAt_of_getElem? ht, t.durable_iff]
  constructor
  · rintro ⟨hpending, hfin⟩
    have hacked : t.acked = t.sent := by
      simp only [Txn.slot] at hpending
      omega
    refine ⟨?_, hacked⟩
    rcases hcommit with hsome | hi
    · exact hsome
    · rcases hfin with hpos | hx
      · cases hlsn : t.commitLsn with
        | some _ => rfl
        | none => simp [Txn.slot, hlsn] at hpos
      · exact absurd hx (h.xid_ne i t (Nat.pos_of_ne_zero hi) ht)
  · rintro ⟨hsome, hacked⟩
    obtain ⟨lsn, hlsn⟩ := Option.isSome_iff_exists.mp hsome
    have hpos : lsn ≠ 0 := by
      rintro rfl
      exact hne hlsn
    refine ⟨by simp only [Txn.slot]; omega, Or.inl ?_⟩
    simpa [Txn.slot, hlsn] using UInt64.pos_iff_ne_zero.mpr hpos

/-- The transaction after those the tail stands for is not durable. -/
theorem not_durable_reached (hist : s.History p) (h : s.Exact lo) {t : Txn}
    (ht : s.txns[s.reached lo]? = some t) : t.durable = false := by
  by_contra hd
  rw [Bool.not_eq_false] at hd
  have hsome := (t.durable_iff.mp hd).1
  have hfin := (hist.finished_iff_durable ht (Or.inl hsome)).mpr hd
  unfold reached at ht hfin
  split at ht
  · next hlo =>
    obtain ⟨lsn, hlsn⟩ := Option.isSome_iff_exists.mp hsome
    have hzero := h.behind hlo (lo + 1) (Nat.lt_succ_self lo)
    rw [slotAt_of_getElem? ht, Txn.slot, hlsn] at hzero
    exact hist.lsn_ne _ t ht (hlsn.trans (congrArg some hzero))
  · next hlo =>
    rw [if_neg hlo] at hfin
    exact hlo hfin

/-- Those the tail stands for are durable, except for an uncommitted one at the start. -/
theorem durable_of_lt_reached (hc : s.Coupled lo) (hist : s.History p) {i : Nat} {t : Txn}
    (hi : i < s.reached lo) (ht : s.txns[i]? = some t) (hcommit : t.commitLsn.isSome ∨ i ≠ 0) :
    t.durable = true := by
  refine (hist.finished_iff_durable ht hcommit).mp ?_
  unfold reached at hi
  split at hi
  · next hfin =>
    rcases Nat.eq_or_lt_of_le (Nat.le_of_lt_succ hi) with rfl | hlt
    · exact hfin
    · exact hc.retired i hlt
  · exact hc.retired i hi

theorem lsnBefore_succ {n : Nat} {t : Txn} (ht : s.txns[n]? = some t) :
    s.lsnBefore (n + 1) = t.commitLsn.getD 0 := by
  rw [lsnBefore, slotAt_of_getElem? ht]
  rfl

theorem fsyncLsn_eq (hc : s.Coupled lo) (hist : s.History p) (h : s.Exact lo) :
    s.ctx.fsyncLsn = checkpointLsn s.transactions := by
  have hle := hc.holds.window.le
  have hreach : s.reached lo ≤ s.current + 1 := by
    unfold reached
    split <;> omega
  have hstop := fun t => not_durable_reached hist h (t := t)
  obtain ⟨t₀, ht₀⟩ := hc.getElem?_of_le (Nat.zero_le s.current)
  rw [h.fsync]
  unfold transactions
  cases hsnap : s.snapshot with
  | true =>
    rw [if_pos rfl]
    cases hlsn₀ : t₀.commitLsn with
    | none =>
      -- the snapshot is still open, so it is all there is
      have hcur : s.current = 0 := by
        by_contra hne
        rcases hist.committed 0 t₀ (Nat.pos_of_ne_zero hne) ht₀ with ⟨-, hs⟩ | hsome
        · exact absurd (hsnap.symm.trans hs) (by simp)
        · simp [hlsn₀] at hsome
      have hzero : s.lsnBefore (s.reached lo) = 0 := by
        rcases hn : s.reached lo with _ | n
        · rfl
        · obtain rfl : n = 0 := by omega
          rw [lsnBefore_succ ht₀, hlsn₀]
          rfl
      rw [hzero, checkpointLsn_zero]
      intro t ht
      obtain rfl := Option.some.inj (ht₀.symm.trans ht)
      simp [Txn.durable, hlsn₀]
    | some lsn₀ =>
      have hpre : ∀ (i : Nat) (t : Txn), i < s.reached lo → s.txns[i]? = some t →
          t.durable = true := by
        intro i t hi ht
        refine durable_of_lt_reached hc hist hi ht ?_
        rcases Nat.eq_zero_or_pos i with rfl | hpos
        · obtain rfl := Option.some.inj (ht₀.symm.trans ht)
          exact Or.inl (by simp [hlsn₀])
        · exact Or.inr (Nat.ne_of_gt hpos)
      rcases hn : s.reached lo with _ | n
      · exact (checkpointLsn_zero (hn ▸ hstop)).symm
      · obtain ⟨t, ht⟩ := hc.getElem?_of_le (i := n) (by omega)
        rw [lsnBefore_succ ht]
        exact (checkpointLsn_succ ht (hn ▸ hpre) (hn ▸ hstop)).symm
  | false =>
    rw [if_neg (by simp)]
    -- entry 0 stands for no transaction and is always passed
    have hsent := hist.sentinel hsnap
    have hpos : 0 < s.reached lo := by
      unfold reached
      split
      · omega
      · next hfin =>
        by_contra hn
        obtain rfl : lo = 0 := by omega
        refine hfin ?_
        rw [slotAt_of_getElem? hsent]
        exact ⟨rfl, Or.inr rfl⟩
    have htail : ∀ i, s.txns.tail[i]? = s.txns[i + 1]? := fun i => List.getElem?_tail
    obtain ⟨n, hn⟩ := Nat.exists_eq_succ_of_ne_zero (Nat.ne_of_gt hpos)
    rw [hn] at hstop ⊢
    rcases n with _ | n
    · rw [lsnBefore_succ hsent, checkpointLsn_zero]
      · rfl
      · rw [htail]
        exact hstop
    · obtain ⟨t, ht⟩ := hc.getElem?_of_le (i := n + 1) (by omega)
      rw [lsnBefore_succ ht, checkpointLsn_succ ((htail n).trans ht)]
      · intro i t hi hti
        rw [htail] at hti
        exact durable_of_lt_reached hc hist (by omega) hti (Or.inr (Nat.succ_ne_zero i))
      · rw [htail]
        exact hstop

/-! ## §5 — durable transactions stay as they are -/

/-- A durable transaction has no message in flight. -/
theorem Coupled.txn_ne_of_durable (hc : s.Coupled lo) {i : Nat} {t : Txn}
    (ht : s.txns[i]? = some t) (hd : t.durable = true) {m : Message} (hm : m ∈ s.inFlight) :
    m.txn ≠ i := by
  rintro rfl
  have hcount := hc.count m.txn t ht
  have hpos : 0 < s.inFlight.countP (·.txn = m.txn) :=
    List.countP_pos_iff.mpr ⟨m, hm, by simp⟩
  have := (t.durable_iff.mp hd).2
  omega

/-- The open transaction is not durable. -/
theorem Open.ne_of_durable {xid : UInt32} (h : s.Open xid) {i : Nat} {t : Txn}
    (ht : s.txns[i]? = some t) (hd : t.durable = true) : s.current ≠ i := by
  rintro rfl
  obtain ⟨t', ht', -, hnone⟩ := h
  obtain rfl := Option.some.inj (ht.symm.trans ht')
  simpa [hnone] using (t.durable_iff.mp hd).1

theorem durable_frozen {e : Event} {p' : PgPhase} (hf : Fires s e s') (hc : s.Coupled lo)
    (hist : s.History p) (hp : p.next e = some p') {i : Nat} {t : Txn} (ht : s.txns[i]? = some t)
    (hd : t.durable = true) : s'.txns[i]? = some t := by
  have hbegin : ∀ xid, (s.tryBegin xid).txns[i]? = some t := by
    intro xid
    unfold tryBegin
    split
    · exact ht
    · exact (List.getElem?_append_left (List.getElem?_eq_some_iff.mp ht).1).trans ht
  cases hf with
  | beginTxn xid _ =>
    unfold onBeginTxn
    split
    · split <;> exact ht
    · exact hbegin xid
  | commitTxn walPos xid hctl =>
    obtain ⟨-, -, hopen⟩ := PgPhase.next_onCommitTxn hp
    have hne := (hist.open_of_ready hctl hopen).1.ne_of_durable ht hd
    unfold onCommitTxn
    split
    · exact (List.getElem?_modify_ne _ s.txns hne).trans ht
    · exact ht
  | send walPos relid record hctl =>
    obtain ⟨-, xid, hopen⟩ := PgPhase.next_sendKafkaMsg hp
    have hne := (hist.open_of_ready hctl hopen).1.ne_of_durable ht hd
    exact (List.getElem?_modify_ne _ s.txns hne).trans ht
  | produce failed queueFull _ _ => cases failed <;> cases queueFull <;> exact ht
  | retryBegin _ => exact hbegin _
  | retryProduce _ => exact ht
  | quit status _ => exact ht
  | deliver failed hm =>
    cases failed with
    | true => exact ht
    | false =>
      have hne := hc.txn_ne_of_durable ht hd (List.mem_append_right _ (List.mem_of_getElem? hm))
      exact (List.getElem?_modify_ne _ s.txns hne).trans ht

/-- The snapshot begins before everything else, or never. -/
theorem snapshot_step {e : Event} {p' : PgPhase} (hf : Fires s e s') (hist : s.History p)
    (hp : p.next e = some p') : s'.snapshot = s.snapshot ∨ s.transactions = [] := by
  have hbegin : ∀ xid, (s.tryBegin xid).snapshot = s.snapshot := by
    intro xid
    unfold tryBegin
    split <;> rfl
  cases hf with
  | beginTxn xid _ =>
    unfold onBeginTxn
    split
    · next hx =>
      subst hx
      cases p with
      | start =>
        obtain ⟨hcur, hsnap⟩ := hist.phase
        refine Or.inr ?_
        rw [transactions, hsnap, if_neg (by simp), List.eq_nil_iff_length_eq_zero, List.length_tail]
        exact hcur
      | between => simp [PgPhase.next] at hp
      | snapshot => simp [PgPhase.next] at hp
      | txn _ => simp [PgPhase.next] at hp
    · exact Or.inl (hbegin xid)
  | commitTxn walPos xid _ =>
    unfold onCommitTxn
    split <;> exact Or.inl rfl
  | send walPos relid record _ => exact Or.inl rfl
  | produce failed queueFull _ _ => cases failed <;> cases queueFull <;> exact Or.inl rfl
  | retryBegin _ => exact Or.inl (hbegin _)
  | retryProduce _ => exact Or.inl rfl
  | quit status _ => exact Or.inl rfl
  | deliver failed _ => cases failed <;> exact Or.inl rfl

/-- The durable prefix only grows. -/
theorem durablePrefix_step {e : Event} {p' : PgPhase} (hf : Fires s e s') (hc : s.Coupled lo)
    (hist : s.History p) (hp : p.next e = some p') :
    s.transactions.takeWhile Txn.durable <+: s'.transactions := by
  rcases snapshot_step hf hist hp with hsnap | hnil
  · rw [List.prefix_iff_getElem?]
    intro i hi
    have hat : s.transactions[i]? = some (s.transactions.takeWhile Txn.durable)[i] :=
      List.prefix_iff_getElem?.mp (List.takeWhile_prefix _) i hi
    have hd := List.mem_takeWhile_imp (List.getElem_mem hi)
    generalize (s.transactions.takeWhile Txn.durable)[i] = t at hat hd ⊢
    unfold transactions at hat ⊢
    rw [hsnap]
    split at hat
    · next hs =>
      rw [if_pos hs]
      exact durable_frozen hf hc hist hp hat hd
    · next hs =>
      rw [List.getElem?_tail] at hat
      rw [if_neg hs, List.getElem?_tail]
      exact durable_frozen hf hc hist hp hat hd
  · simp [hnil]

/-! ## §6 — the commit positions are those that arrived -/

theorem lsns_modify {f : Txn → Txn} (hf : ∀ t, (f t).commitLsn = t.commitLsn) (ts : List Txn)
    (k : Nat) : lsns (ts.modify k f) = lsns ts := by
  have hmap := map_modify_txns hf ts k
  have hlsns : ∀ us : List Txn, lsns us = (us.map (·.commitLsn)).filterMap id := by
    intro us
    rw [List.filterMap_map]
    rfl
  rw [hlsns, hmap, ← hlsns]

theorem lsns_commit {ts : List Txn} {t : Txn} (ht : ts[ts.length - 1]? = some t)
    (hnone : t.commitLsn = none) (walPos : UInt64) :
    lsns (ts.modify (ts.length - 1) fun t => { t with commitLsn := some walPos }) =
      lsns ts ++ [walPos] := by
  rcases List.eq_nil_or_concat ts with rfl | ⟨init, last, rfl⟩
  · simp at ht
  · obtain rfl : last = t := by simpa using ht
    simp [lsns, List.modify_eq_take_drop, hnone]

theorem lsns_step {e : Event} {p' : PgPhase} (hf : Fires s e s') (hc : s.Coupled lo)
    (hist : s.History p) (hp : p.next e = some p') : lsns s'.txns = lsns s.txns ++ commits [e] := by
  have hbegin : ∀ xid, lsns (s.tryBegin xid).txns = lsns s.txns := by
    intro xid
    unfold tryBegin
    split
    · rfl
    · simp [lsns]
  cases hf with
  | beginTxn xid _ =>
    simp only [commits, List.filterMap_cons, List.filterMap_nil, List.append_nil]
    unfold onBeginTxn
    split
    · split <;> rfl
    · exact hbegin xid
  | commitTxn walPos xid hctl =>
    obtain ⟨-, -, hopen⟩ := PgPhase.next_onCommitTxn hp
    obtain ⟨⟨t, ht, -, hnone⟩, -⟩ := hist.open_of_ready hctl hopen
    unfold onCommitTxn
    rw [if_pos (hist.commitsCurrent hc hctl hopen)]
    exact lsns_commit ht hnone walPos
  | send walPos relid record _ =>
    exact (lsns_modify (f := fun t => { t with sent := t.sent + 1 }) (fun _ => rfl) s.txns
      s.current).trans (List.append_nil _).symm
  | produce failed queueFull _ _ =>
    cases failed <;> cases queueFull <;> exact (List.append_nil _).symm
  | retryBegin _ => exact (hbegin _).trans (List.append_nil _).symm
  | retryProduce _ => exact (List.append_nil _).symm
  | quit status _ => exact (List.append_nil _).symm
  | deliver failed _ =>
    cases failed with
    | true => exact (List.append_nil _).symm
    | false =>
      exact (lsns_modify (f := fun t => { t with acked := t.acked + 1 }) (fun _ => rfl) s.txns
        _).trans (List.append_nil _).symm

theorem run_lsns {takingSnapshot : Bool} {es : List Event} (h : Run takingSnapshot es s)
    (hp : FromPostgres es) : lsns s.txns = commits es := by
  refine run_rule (P := fun es s => FromPostgres es → lsns s.txns = commits es)
    (fun _ => rfl) ?_ h hp
  intro es t e u ht hlsns hstep hp'
  obtain ⟨p', hp'⟩ := Option.isSome_iff_exists.mp hp'
  obtain ⟨p, hp, hnext⟩ := run_snoc_eq_some hp'
  obtain ⟨-, lo, hc⟩ := run_coupled ht
  rw [lsns_step (fires_of_step hstep) hc (run_history ht hp) hnext,
    hlsns (Option.isSome_iff_exists.mpr ⟨p, hp⟩)]
  exact List.filterMap_append.symm

/-- The entry that stands for no transaction has no commit position. -/
theorem History.lsns_transactions (h : s.History p) : lsns s.transactions = lsns s.txns := by
  unfold transactions
  cases hsnap : s.snapshot with
  | true => rfl
  | false =>
    have hsent := h.sentinel hsnap
    cases htxns : s.txns with
    | nil => rfl
    | cons t ts =>
      obtain rfl : t = ⟨0, none, 0, 0⟩ := by simpa [htxns] using hsent
      rfl

/-- **Checkpoint exactness.**  After every run, `fsync_lsn` is the commit LSN of the last transaction in
the longest durable prefix.  If the commit positions arrive in increasing order, no transaction
committed at or before the flush position that `send_checkpoint` writes has an unacknowledged message,
and no further step makes `fsync_lsn` smaller. -/
theorem checkpoint_exact {takingSnapshot : Bool} {es : List Event} (h : Run takingSnapshot es s)
    (hp : FromPostgres es) :
    s.ctx.fsyncLsn = checkpointLsn s.transactions ∧
    ((commits es).Pairwise (· < ·) →
      ∀ recvdLsn now flush,
        flushPosition (sendCheckpoint recvdLsn s.ctx.fsyncLsn now) = some flush →
        ∀ t ∈ s.transactions, ∀ lsn, t.commitLsn = some lsn → lsn ≤ flush → t.acked = t.sent) ∧
    (∀ e s', s.step e = some s' → FromPostgres (es ++ [e]) →
      (commits (es ++ [e])).Pairwise (· < ·) → s.ctx.fsyncLsn ≤ s'.ctx.fsyncLsn) := by
  obtain ⟨lo, hc, hex⟩ := run_exact h hp
  obtain ⟨p, hphase⟩ := Option.isSome_iff_exists.mp hp
  have hist := run_history h hphase
  have hfsync := fsyncLsn_eq hc hist hex
  refine ⟨hfsync, ?_, ?_⟩
  · intro hord recvdLsn now flush hflush t ht lsn hlsn hle
    rw [flushPosition_sendCheckpoint] at hflush
    obtain rfl := Option.some.inj hflush
    rw [← run_lsns h hp, ← hist.lsns_transactions] at hord
    refine acked_of_le_checkpointLsn hord ?_ ht hlsn (hfsync ▸ hle)
    intro t' ht'
    have hmem : t' ∈ s.txns := by
      unfold transactions at ht'
      split at ht'
      · exact ht'
      · exact List.mem_of_mem_tail ht'
    obtain ⟨i, hi⟩ := List.mem_iff_getElem?.mp hmem
    exact hist.lsn_ne i t' hi
  · intro e s' hstep hp' hord
    have h' : Run takingSnapshot (es ++ [e]) s' := by
      unfold Run
      rw [run_snoc, h]
      exact hstep
    obtain ⟨lo', hc', hex'⟩ := run_exact h' hp'
    obtain ⟨p', hphase'⟩ := Option.isSome_iff_exists.mp hp'
    have hist' := run_history h' hphase'
    have hnext : p.next e = some p' := by
      obtain ⟨p₀, hp₀, hnext⟩ := run_snoc_eq_some hphase'
      obtain rfl := Option.some.inj (hphase.symm.trans hp₀)
      exact hnext
    rw [hfsync, fsyncLsn_eq hc' hist' hex']
    refine checkpointLsn_mono ?_ (durablePrefix_step (fires_of_step hstep) hc hist hnext)
    rw [← run_lsns h' hp', ← hist'.lsns_transactions] at hord
    exact hord

theorem checkpoint_exact_twoRows :
    ∃ s, Run true twoRows s ∧ FromPostgres twoRows ∧ (commits twoRows).Pairwise (· < ·) ∧
      s.ctx.fsyncLsn = 32 ∧ s.ctx.fsyncLsn = checkpointLsn s.transactions := by
  have hrun : ∃ s, Run true twoRows s ∧ s.ctx.fsyncLsn = 32 := ⟨_, rfl, rfl⟩
  obtain ⟨s, h, hlsn⟩ := hrun
  have hp : FromPostgres twoRows := by decide
  exact ⟨s, h, hp, by decide, hlsn, (checkpoint_exact h hp).1⟩

end System

end BottledWater.Kafka
