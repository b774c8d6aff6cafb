/-
# BottledWater.Kafka.Ring — the ring refines the list of transactions.

The circular buffer of the producer holds a window `lo, …, current` of the list of all transactions
ever begun, transaction `i` in slot `i mod 1000`, and what a slot contains is what the history says
about its transaction (`Txn.slot`).  `Coupled` is that relation, together with the two facts that make
it last: a transaction that has left the window is finished, and a message in flight points to the slot
of its own transaction.

The relation holds after every run of `System.step`, in any order of events (`run_coupled`): nothing is
assumed of Postgres here.  `checkpointLoop_spec` says once what `maybe_checkpoint` does to a window;
everything else about it is read off from there.
-/
import BottledWater.Kafka.System
import Mathlib.Data.List.Perm.Basic

namespace BottledWater.Kafka

open Function (update)
open BottledWater.Lib

namespace ProducerContext

/-! ## §1 — what `maybe_checkpoint` does to a window -/

/-- The ring holds the items `v lo, …, v hi`. -/
structure Holds (c : ProducerContext) (lo hi : Nat) (v : Nat → TransactionInfo) : Prop where
  window : Window c.xactHead c.xactTail lo hi
  slots : ∀ i, lo ≤ i → i ≤ hi → c.xactList (slotOf maxInFlightTransactions i) = v i

theorem Holds.tail {c : ProducerContext} {lo hi : Nat} {v : Nat → TransactionInfo}
    (h : c.Holds lo hi v) : c.xactList c.xactTail = v lo := by
  rw [h.window.tail_eq]
  exact h.slots lo (Nat.le_refl lo) h.window.le

theorem checkpointLoop_unfinished {c : ProducerContext} (rounds : Nat)
    (h : ¬ finished (c.xactList c.xactTail)) : checkpointLoop (rounds + 1) c = c := by
  rw [checkpointLoop, if_neg h]

theorem checkpointLoop_last {c : ProducerContext} (rounds : Nat)
    (h : finished (c.xactList c.xactTail)) (heq : c.xactTail = c.xactHead) :
    checkpointLoop (rounds + 1) c = c.checkpoint (c.xactList c.xactTail) := by
  rw [checkpointLoop, if_pos h]
  exact if_pos heq

theorem checkpointLoop_next {c : ProducerContext} (rounds : Nat)
    (h : finished (c.xactList c.xactTail)) (hne : c.xactTail ≠ c.xactHead) :
    checkpointLoop (rounds + 1) c =
      checkpointLoop rounds
        { c.checkpoint (c.xactList c.xactTail) with xactTail := c.xactTail + 1 } := by
  rw [checkpointLoop, if_pos h]
  exact if_neg hne

/-- **`Checkpointed c c' lo lo' hi v`** — `c'` is what the loop makes of `c`: it has moved the tail
from `lo` to `lo'` over finished items, and it stopped at an unfinished item or at the head. -/
structure Checkpointed (c c' : ProducerContext) (lo lo' hi : Nat) (v : Nat → TransactionInfo) :
    Prop where
  list_eq : c'.xactList = c.xactList
  head_eq : c'.xactHead = c.xactHead
  le : lo ≤ lo'
  window : Window c'.xactHead c'.xactTail lo' hi
  passed : ∀ i, lo ≤ i → i < lo' → finished (v i)
  stopped : finished (v lo') → lo' = hi
  fsync_finished : finished (v lo') → c'.fsyncLsn = (v lo').commitLsn
  fsync_moved : ¬ finished (v lo') → lo < lo' → c'.fsyncLsn = (v (lo' - 1)).commitLsn
  fsync_kept : ¬ finished (v lo') → lo = lo' → c'.fsyncLsn = c.fsyncLsn
  snapshot : c'.takingSnapshot = true ↔ c.takingSnapshot = true ∧
    ∀ i, lo ≤ i → i ≤ lo' → finished (v i) → ¬ ((v i).xid = 0 ∧ (v i).commitLsn > 0)

theorem checkpointLoop_spec {hi : Nat} {v : Nat → TransactionInfo} :
    ∀ (rounds : Nat) (c : ProducerContext) (lo : Nat), c.Holds lo hi v → hi < lo + rounds →
      ∃ lo', Checkpointed c (checkpointLoop rounds c) lo lo' hi v := by
  intro rounds
  induction rounds with
  | zero =>
    intro c lo h hr
    have := h.window.le
    omega
  | succ rounds ih =>
    intro c lo h hr
    have htail := h.tail
    by_cases hfin : finished (v lo)
    · by_cases heq : c.xactTail = c.xactHead
      · -- the head is reached: this is the last round, and the finished slot stays at the tail
        have hlo : lo = hi := h.window.tail_eq_head_iff.mp heq
        refine ⟨lo, ?_⟩
        rw [checkpointLoop_last rounds (htail ▸ hfin) heq, htail]
        refine ⟨rfl, rfl, Nat.le_refl lo, h.window, by omega, fun _ => hlo, fun _ => rfl,
          fun hn => absurd hfin hn, fun hn => absurd hfin hn, ?_⟩
        have hone : (∀ i, lo ≤ i → i ≤ lo → finished (v i) →
            ¬ ((v i).xid = 0 ∧ (v i).commitLsn > 0)) ↔
            ¬ ((v lo).xid = 0 ∧ (v lo).commitLsn > 0) :=
          ⟨fun hall => hall lo (Nat.le_refl lo) (Nat.le_refl lo) hfin,
            fun hn i h₁ h₂ _ => by obtain rfl : i = lo := by omega
                                   exact hn⟩
        rw [hone]
        simp only [checkpoint]
        split <;> simp_all
      · -- the tail moves on, and the rest of the loop runs on the window without `lo`
        have hnext : Holds { c.checkpoint (v lo) with xactTail := c.xactTail + 1 } (lo + 1) hi v :=
          ⟨h.window.retire heq, fun i h₁ h₂ => h.slots i (by omega) h₂⟩
        obtain ⟨lo', h'⟩ := ih _ (lo + 1) hnext (by omega)
        rw [checkpointLoop_next rounds (htail ▸ hfin) heq, htail]
        have hle := h'.le
        refine ⟨lo', h'.list_eq, h'.head_eq, by omega, h'.window, ?_, h'.stopped,
          h'.fsync_finished, ?_, fun _ heq' => by omega, ?_⟩
        · intro i h₁ h₂
          rcases Nat.eq_or_lt_of_le h₁ with rfl | hlt
          · exact hfin
          · exact h'.passed i hlt h₂
        · intro hn hlt
          rcases Nat.eq_or_lt_of_le hle with rfl | hlt'
          · rw [h'.fsync_kept hn rfl]
            rfl
          · exact h'.fsync_moved hn hlt'
        · rw [h'.snapshot]
          have hts : (c.checkpoint (v lo)).takingSnapshot = true ↔
              c.takingSnapshot = true ∧ ¬ ((v lo).xid = 0 ∧ (v lo).commitLsn > 0) := by
            simp only [checkpoint]
            split <;> simp_all
          change (c.checkpoint (v lo)).takingSnapshot = true ∧ _ ↔ _
          rw [hts]
          constructor
          · rintro ⟨⟨hc, hn⟩, hall⟩
            refine ⟨hc, fun i h₁ h₂ hf => ?_⟩
            rcases Nat.eq_or_lt_of_le h₁ with rfl | hlt
            · exact hn
            · exact hall i hlt h₂ hf
          · rintro ⟨hc, hall⟩
            exact ⟨⟨hc, hall lo (Nat.le_refl lo) (by omega) hfin⟩,
              fun i h₁ h₂ hf => hall i (by omega) h₂ hf⟩
    · rw [checkpointLoop_unfinished rounds (htail ▸ hfin)]
      refine ⟨lo, rfl, rfl, Nat.le_refl lo, h.window, by omega, fun hf => absurd hf hfin,
        fun hf => absurd hf hfin, by omega, fun _ _ => rfl, ?_⟩
      refine ⟨fun hc => ⟨hc, fun i h₁ h₂ hf => ?_⟩, fun hc => hc.1⟩
      obtain rfl : i = lo := by omega
      exact absurd hf hfin

theorem maybeCheckpoint_spec {c : ProducerContext} {lo hi : Nat} {v : Nat → TransactionInfo}
    (h : c.Holds lo hi v) : ∃ lo', Checkpointed c c.maybeCheckpoint lo lo' hi v := by
  refine checkpointLoop_spec _ c lo h ?_
  have := h.window.le
  rw [h.window.distance]
  omega

end ProducerContext

open ProducerContext (finished Holds Checkpointed maybeCheckpoint_spec)

/-! ## §2 — the coupling of ring and history -/

/-- What the slot of a transaction contains. -/
def Txn.slot (t : Txn) : TransactionInfo where
  xid := t.xid
  recvdEvents := t.sent
  pendingEvents := (t.sent : Int) - t.acked
  commitLsn := t.commitLsn.getD 0

namespace System

/-- The slot content of transaction number `i`. -/
def slotAt (s : System) (i : Nat) : TransactionInfo :=
  (s.txns[i]?.map Txn.slot).getD ⟨0, 0, 0, 0⟩

theorem slotAt_of_getElem? {s : System} {i : Nat} {t : Txn} (h : s.txns[i]? = some t) :
    s.slotAt i = t.slot := by
  simp [slotAt, h]

/-- A change to one transaction leaves what it leaves of each. -/
theorem map_modify_txns {α : Type} {g : Txn → α} {f : Txn → Txn} (hf : ∀ t, g (f t) = g t) (txns : List Txn)
    (k : Nat) : (txns.modify k f).map g = txns.map g := by
  induction txns generalizing k with
  | nil => simp
  | cons t txns ih => cases k <;> simp [hf, ih]

/-- **`Coupled s lo`** — the ring of `s` is the window from transaction `lo` to the current one of the
history of `s`, and the messages in flight are those the history has not seen acknowledged. -/
structure Coupled (s : System) (lo : Nat) : Prop where
  nonempty : 0 < s.txns.length
  holds : s.ctx.Holds lo s.current s.slotAt
  retired : ∀ i, i < lo → finished (s.slotAt i)
  flight : ∀ m ∈ s.inFlight,
    m.txn ≤ s.current ∧ m.envelope.xact = slotOf maxInFlightTransactions m.txn
  count : ∀ i t, s.txns[i]? = some t → t.sent = t.acked + s.inFlight.countP (·.txn = i)
  owner : ∀ i, lo ≤ i → i ≤ s.current → s.owner (slotOf maxInFlightTransactions i) = i

theorem coupled_init (takingSnapshot : Bool) : Coupled (init takingSnapshot) 0 where
  nonempty := Nat.one_pos
  holds := ⟨Window.init, fun i _ hi => by
    obtain rfl : i = 0 := Nat.le_zero.mp hi
    rfl⟩
  retired := by omega
  flight := by simp [inFlight, init]
  count := by
    intro i t h
    rcases i with _ | i
    · obtain rfl : (⟨0, none, 0, 0⟩ : Txn) = t := by simpa [init] using h
      rfl
    · simp [init] at h
  owner := fun i _ hi => (Nat.le_zero.mp hi).symm

namespace Coupled

variable {s : System} {lo : Nat}

theorem current_lt (h : s.Coupled lo) : s.current < s.txns.length := by
  have := h.nonempty
  unfold current
  omega

theorem getElem?_of_le (h : s.Coupled lo) {i : Nat} (hi : i ≤ s.current) :
    ∃ t, s.txns[i]? = some t :=
  ⟨_, List.getElem?_eq_getElem (Nat.lt_of_le_of_lt hi h.current_lt)⟩

theorem head_eq (h : s.Coupled lo) : s.ctx.xactHead = slotOf maxInFlightTransactions s.current :=
  h.holds.window.head_eq

/-- The counter of a transaction's slot is the number of its messages in flight. -/
theorem pending_eq (h : s.Coupled lo) {i : Nat} (hi : i ≤ s.current) :
    (s.slotAt i).pendingEvents = s.inFlight.countP (·.txn = i) := by
  obtain ⟨t, ht⟩ := h.getElem?_of_le hi
  rw [slotAt_of_getElem? ht]
  simp only [Txn.slot, h.count i t ht]
  omega

/-- A message in flight belongs to a transaction of the window: the others are finished. -/
theorem le_txn (h : s.Coupled lo) {m : Message} (hm : m ∈ s.inFlight) : lo ≤ m.txn := by
  by_contra hlt
  have hfin := (h.retired m.txn (by omega)).1
  rw [h.pending_eq (h.flight m hm).1] at hfin
  have hpos : 0 < s.inFlight.countP (·.txn = m.txn) :=
    List.countP_pos_iff.mpr ⟨m, hm, by simp⟩
  omega

/-- `maybe_checkpoint` keeps the coupling; the window now starts at `lo'`. -/
theorem checkpoint (h : s.Coupled lo) :
    ∃ lo', Checkpointed s.ctx s.ctx.maybeCheckpoint lo lo' s.current s.slotAt ∧
      s.maybeCheckpoint.Coupled lo' := by
  obtain ⟨lo', hc⟩ := maybeCheckpoint_spec h.holds
  have hle := hc.le
  refine ⟨lo', hc, ?_⟩
  exact
    { nonempty := h.nonempty
      holds := ⟨hc.window, fun i h₁ h₂ =>
        (congrFun hc.list_eq _).trans (h.holds.slots i (by omega) h₂)⟩
      retired := fun i hi => by
        rcases Nat.lt_or_ge i lo with hlt | hge
        · exact h.retired i hlt
        · exact hc.passed i hge hi
      flight := h.flight
      count := h.count
      owner := fun i h₁ h₂ => h.owner i (by omega) h₂ }

/-- One transaction of the window changes, in the history and in its slot alike. -/
theorem modify (h : s.Coupled lo) {s' : System} {k : Nat} {f : Txn → Txn} {t : Txn}
    (hk : lo ≤ k) (ht : s.txns[k]? = some t)
    (htxns : s'.txns = s.txns.modify k f)
    (hlist : s'.ctx.xactList =
      update s.ctx.xactList (slotOf maxInFlightTransactions k) (f t).slot)
    (hhead : s'.ctx.xactHead = s.ctx.xactHead) (htail : s'.ctx.xactTail = s.ctx.xactTail)
    (howner : s'.owner = s.owner)
    (hflight : ∀ m ∈ s'.inFlight, m ∈ s.inFlight ∨
      m.txn ≤ s.current ∧ m.envelope.xact = slotOf maxInFlightTransactions m.txn)
    (hself : (f t).sent = (f t).acked + s'.inFlight.countP (·.txn = k))
    (hother : ∀ i, i ≠ k → s'.inFlight.countP (·.txn = i) = s.inFlight.countP (·.txn = i)) :
    s'.Coupled lo := by
  have hlen : s'.txns.length = s.txns.length := by rw [htxns, List.length_modify]
  have hcur : s'.current = s.current := by unfold current; rw [hlen]
  have hkc : k ≤ s.current := by
    have := (List.getElem?_eq_some_iff.mp ht).1
    unfold current
    omega
  have hat_self : s'.slotAt k = (f t).slot := by
    rw [slotAt, htxns, List.getElem?_modify_eq, ht]
    rfl
  have hat_other : ∀ i, i ≠ k → s'.slotAt i = s.slotAt i := by
    intro i hi
    rw [slotAt, htxns, List.getElem?_modify_ne f s.txns (Ne.symm hi), slotAt]
  refine ⟨by rw [hlen]; exact h.nonempty, ⟨?_, ?_⟩, ?_, ?_, ?_, ?_⟩
  · rw [hhead, htail, hcur]
    exact h.holds.window
  · intro i h₁ h₂
    rw [hcur] at h₂
    rw [hlist]
    by_cases hi : i = k
    · rw [hi, Function.update_self, hat_self]
    · have hne : slotOf maxInFlightTransactions i ≠ slotOf maxInFlightTransactions k :=
        fun he => hi (h.holds.window.inj h₁ h₂ hk hkc he)
      rw [Function.update_of_ne hne, hat_other i hi]
      exact h.holds.slots i h₁ h₂
  · intro i hi
    rw [hat_other i (by omega)]
    exact h.retired i hi
  · intro m hm
    rw [hcur]
    rcases hflight m hm with hold | hnew
    · exact h.flight m hold
    · exact hnew
  · intro i t' ht'
    rw [htxns] at ht'
    by_cases hi : i = k
    · rw [hi, List.getElem?_modify_eq, ht] at ht'
      obtain rfl : f t = t' := by simpa using ht'
      rw [hi]
      exact hself
    · rw [List.getElem?_modify_ne f s.txns (Ne.symm hi)] at ht'
      rw [hother i hi]
      exact h.count i t' ht'
  · intro i h₁ h₂
    rw [howner]
    exact h.owner i h₁ (hcur ▸ h₂)

/-- Moving the thread elsewhere touches neither ring nor history. -/
theorem of_eq (h : s.Coupled lo) {s' : System} (hctx : s'.ctx = s.ctx) (htxns : s'.txns = s.txns)
    (howner : s'.owner = s.owner) (hflight : s'.inFlight.Perm s.inFlight) : s'.Coupled lo := by
  have hcur : s'.current = s.current := by unfold current; rw [htxns]
  have hat : s'.slotAt = s.slotAt := by funext i; unfold slotAt; rw [htxns]
  refine ⟨htxns ▸ h.nonempty, by rw [hctx, hcur, hat]; exact h.holds, ?_, ?_, ?_, ?_⟩
  · rw [hat]
    exact h.retired
  · intro m hm
    rw [hcur]
    exact h.flight m (hflight.mem_iff.mp hm)
  · intro i t ht
    rw [hflight.countP_eq]
    exact h.count i t (htxns ▸ ht)
  · rw [howner, hcur]
    exact h.owner

/-! ## §3 — the callbacks keep the coupling -/

theorem exitNicely (h : s.Coupled lo) (status : Nat) : (s.exitNicely status).Coupled lo :=
  h.of_eq rfl rfl rfl (List.Perm.refl _)

/-- A transaction begins in the slot after the head, which the window does not use. -/
theorem begin (h : s.Coupled lo) {s' : System} {xid : UInt32} (hfull : ¬ s.ctx.xactListFull)
    (hctx : s'.ctx = s.ctx.openXact xid) (htxns : s'.txns = s.txns ++ [⟨xid, none, 0, 0⟩])
    (howner : s'.owner = update s.owner (s.ctx.xactHead + 1) s.txns.length)
    (hflight : s'.inFlight = s.inFlight) : s'.Coupled lo := by
  have hne := h.nonempty
  have hlen : s.txns.length = s.current + 1 := by unfold current; omega
  have hcur : s'.current = s.current + 1 := by
    unfold current
    rw [htxns, List.length_append, List.length_singleton]
    omega
  have hle := h.holds.window.le
  have hw := h.holds.window.push hfull
  have hslot : s.ctx.xactHead + 1 = slotOf maxInFlightTransactions (s.current + 1) := by
    rw [slotOf_succ, ← h.head_eq]
  have hold : ∀ i, lo ≤ i → i ≤ s.current →
      slotOf maxInFlightTransactions i ≠ s.ctx.xactHead + 1 := by
    intro i h₁ h₂ he
    have := hw.inj h₁ (by omega) (by omega) (Nat.le_refl _) (he.trans hslot)
    omega
  have hat : ∀ i, i ≤ s.current → s'.slotAt i = s.slotAt i := by
    intro i hi
    rw [slotAt, htxns, List.getElem?_append_left (by omega), slotAt]
  have hat_new : s'.slotAt (s.current + 1) = ⟨xid, 0, 0, 0⟩ := by
    rw [slotAt, htxns, ← hlen, List.getElem?_concat_length]
    rfl
  refine ⟨by rw [htxns]; simp, ⟨?_, ?_⟩, ?_, ?_, ?_, ?_⟩
  · rw [hctx, hcur]
    exact hw
  · intro i h₁ h₂
    rw [hctx]
    simp only [ProducerContext.openXact]
    rcases Nat.eq_or_lt_of_le (hcur ▸ h₂) with rfl | hlt
    · rw [← hslot, Function.update_self, hat_new]
    · rw [hat i (by omega), Function.update_of_ne (hold i h₁ (by omega))]
      exact h.holds.slots i h₁ (by omega)
  · intro i hi
    rw [hat i (by omega)]
    exact h.retired i hi
  · intro m hm
    rw [hflight] at hm
    obtain ⟨h₁, h₂⟩ := h.flight m hm
    exact ⟨by omega, h₂⟩
  · intro i t ht
    rw [hflight]
    rw [htxns] at ht
    by_cases hi : i < s.txns.length
    · rw [List.getElem?_append_left hi] at ht
      exact h.count i t ht
    · have hi' : i = s.txns.length := by
        have := (List.getElem?_eq_some_iff.mp ht).1
        rw [List.length_append, List.length_singleton] at this
        omega
      subst hi'
      rw [List.getElem?_concat_length] at ht
      obtain rfl : (⟨xid, none, 0, 0⟩ : Txn) = t := Option.some.inj ht
      -- no message can be in flight for a transaction that has just begun
      have hnone : s.inFlight.countP (·.txn = s.txns.length) = 0 := by
        rw [List.countP_eq_zero]
        intro m hm
        have := (h.flight m hm).1
        simp only [decide_eq_true_eq]
        omega
      rw [hnone]
  · intro i h₁ h₂
    rw [howner]
    rcases Nat.eq_or_lt_of_le (hcur ▸ h₂) with rfl | hlt
    · rw [← hslot, Function.update_self, hlen]
    · rw [Function.update_of_ne (hold i h₁ (by omega))]
      exact h.owner i h₁ (by omega)

theorem tryBegin (h : s.Coupled lo) (xid : UInt32) : (s.tryBegin xid).Coupled lo := by
  unfold System.tryBegin
  split
  · exact h.of_eq rfl rfl rfl (List.Perm.refl _)
  · next hfull => exact h.begin hfull rfl rfl rfl rfl

theorem onBeginTxn (h : s.Coupled lo) (xid : UInt32) : (s.onBeginTxn xid).Coupled lo := by
  unfold System.onBeginTxn
  split
  · split
    · exact h.of_eq rfl rfl rfl (List.Perm.refl _)
    · exact h.exitNicely 1
  · exact h.tryBegin xid

theorem sendKafkaMsg (h : s.Coupled lo) (hheld : s.held = none) (walPos : UInt64) (relid : UInt32)
    (record : Option KafkaRecord) : (s.sendKafkaMsg walPos relid record).Coupled lo := by
  obtain ⟨t, ht⟩ := h.getElem?_of_le (Nat.le_refl s.current)
  have hfl : (s.sendKafkaMsg walPos relid record).inFlight =
      ⟨⟨walPos, relid, s.ctx.xactHead⟩, s.current⟩ :: s.inFlight := by
    simp [System.sendKafkaMsg, inFlight, hheld]
  refine h.modify h.holds.window.le ht rfl ?_ rfl rfl rfl ?_ ?_ ?_
  · have hcontent := h.holds.slots s.current h.holds.window.le (Nat.le_refl _)
    rw [slotAt_of_getElem? ht] at hcontent
    simp only [System.sendKafkaMsg, ProducerContext.countRow, h.head_eq, hcontent]
    congr 1
    simp only [Txn.slot, TransactionInfo.mk.injEq, true_and, and_true]
    omega
  · intro m hm
    rw [hfl] at hm
    rcases List.mem_cons.mp hm with rfl | hm
    · exact Or.inr ⟨Nat.le_refl _, h.head_eq⟩
    · exact Or.inl hm
  · rw [hfl, List.countP_cons]
    have := h.count s.current t ht
    simp only [decide_true, if_true]
    omega
  · intro i hi
    rw [hfl, List.countP_cons]
    simp [Ne.symm hi]

theorem rdKafkaProduce (h : s.Coupled lo) {m : Message} (hheld : s.held = some m)
    (record : KafkaRecord) (failed queueFull : Bool) :
    (s.rdKafkaProduce m record failed queueFull).Coupled lo := by
  have hacc : ∀ s' : System, s'.ctx = s.ctx → s'.txns = s.txns → s'.owner = s.owner →
      (s'.held = s.held ∧ s'.queue = s.queue ∨ s'.held = none ∧ s'.queue = s.queue ++ [m]) →
      s'.Coupled lo := by
    intro s' h₁ h₂ h₃ h₄
    refine h.of_eq h₁ h₂ h₃ ?_
    rcases h₄ with ⟨h₄, h₅⟩ | ⟨h₄, h₅⟩
    · rw [inFlight, inFlight, h₄, h₅]
    · rw [inFlight, inFlight, h₄, h₅, hheld]
      exact List.perm_append_singleton m s.queue
  apply hacc <;> cases failed <;> cases queueFull <;> simp [System.rdKafkaProduce, System.exitNicely]

theorem noteCommit (h : s.Coupled lo) (walPos : UInt64) : (s.noteCommit walPos).Coupled lo := by
  obtain ⟨t, ht⟩ := h.getElem?_of_le (Nat.le_refl s.current)
  refine h.modify h.holds.window.le ht rfl ?_ rfl rfl rfl (fun m hm => Or.inl hm)
    (h.count s.current t ht) (fun _ _ => rfl)
  have hcontent := h.holds.slots s.current h.holds.window.le (Nat.le_refl _)
  rw [slotAt_of_getElem? ht] at hcontent
  simp only [System.noteCommit, ProducerContext.noteCommit, h.head_eq, hcontent]
  rfl

theorem inFlight_perm_deliver {i : Nat} {m : Message} (hm : s.queue[i]? = some m) :
    s.inFlight.Perm (m :: (s.held.toList ++ s.queue.eraseIdx i)) := by
  obtain ⟨hi, rfl⟩ := List.getElem?_eq_some_iff.mp hm
  have hq : s.queue.Perm (s.queue[i] :: s.queue.eraseIdx i) :=
    (List.getElem_cons_eraseIdx_perm hi).symm
  exact (hq.append_left s.held.toList).trans List.perm_middle

theorem noteDelivery (h : s.Coupled lo) {i : Nat} {m : Message} (hm : s.queue[i]? = some m) :
    (s.noteDelivery i m).Coupled lo := by
  have hmem : m ∈ s.inFlight := List.mem_append_right _ (List.mem_of_getElem? hm)
  obtain ⟨hle, hxact⟩ := h.flight m hmem
  obtain ⟨t, ht⟩ := h.getElem?_of_le hle
  have hperm := inFlight_perm_deliver hm
  refine h.modify (h.le_txn hmem) ht rfl ?_ rfl rfl rfl ?_ ?_ ?_
  · have hcontent := h.holds.slots m.txn (h.le_txn hmem) hle
    rw [slotAt_of_getElem? ht] at hcontent
    simp only [System.noteDelivery, ProducerContext.noteDelivery, hxact, hcontent]
    congr 1
    simp only [Txn.slot, TransactionInfo.mk.injEq, true_and, and_true]
    omega
  · intro m' hm'
    exact Or.inl (hperm.mem_iff.mpr (List.mem_cons_of_mem m hm'))
  · have hcount := h.count m.txn t ht
    rw [hperm.countP_eq, List.countP_cons] at hcount
    simp only [decide_true, if_true] at hcount
    change t.sent = t.acked + 1 + List.countP _ (s.held.toList ++ s.queue.eraseIdx i)
    omega
  · intro j hj
    rw [hperm.countP_eq, List.countP_cons]
    simp only [Ne.symm hj, decide_false, Bool.false_eq_true, if_false, Nat.add_zero]
    rfl

theorem onCommitTxn (h : s.Coupled lo) (walPos : UInt64) (xid : UInt32) :
    ∃ lo', lo ≤ lo' ∧ (s.onCommitTxn walPos xid).Coupled lo' := by
  unfold System.onCommitTxn
  split
  · obtain ⟨lo', hck, hcoup⟩ := (h.noteCommit walPos).checkpoint
    exact ⟨lo', hck.le, hcoup⟩
  · exact ⟨lo, Nat.le_refl lo, h.exitNicely 1⟩

theorem onDeliverMsg (h : s.Coupled lo) {i : Nat} {m : Message} (hm : s.queue[i]? = some m)
    (failed : Bool) : ∃ lo', lo ≤ lo' ∧ (s.onDeliverMsg i m failed).Coupled lo' := by
  unfold System.onDeliverMsg
  split
  · exact ⟨lo, Nat.le_refl lo, h.exitNicely 1⟩
  · obtain ⟨lo', hck, hcoup⟩ := (h.noteDelivery hm).checkpoint
    exact ⟨lo', hck.le, hcoup⟩

end Coupled

/-! ## §4 — every run keeps the coupling -/

/-- `send_kafka_msg` holds no message when it is called: the loop of the previous call is over. -/
def Idle (s : System) : Prop :=
  s.control = .ready ∨ (∃ xid, s.control = .beginTxn xid) → s.held = none

theorem idle_step {s s' : System} {e : Event} (h : Fires s e s') (hi : s.Idle) : s'.Idle := by
  cases h with
  | beginTxn xid hc =>
    intro _
    have hheld := hi (Or.inl hc)
    unfold onBeginTxn tryBegin exitNicely
    split_ifs <;> exact hheld
  | commitTxn walPos xid hc =>
    intro _
    have hheld := hi (Or.inl hc)
    unfold onCommitTxn
    split <;> exact hheld
  | send walPos relid record hc =>
    intro hctl
    cases record <;> simp [sendKafkaMsg] at hctl
  | produce failed queueFull hc hm =>
    intro hctl
    cases failed <;> cases queueFull <;> simp_all [rdKafkaProduce, exitNicely]
  | retryBegin hc =>
    intro _
    have hheld := hi (Or.inr ⟨_, hc⟩)
    unfold tryBegin
    split <;> exact hheld
  | retryProduce hc =>
    intro hctl
    cases hh : s.held with
    | none => rfl
    | some m => simp [hh] at hctl
  | quit status hr =>
    intro hctl
    simp [exitNicely] at hctl
  | deliver failed hm =>
    cases failed with
    | true =>
      intro hctl
      simp [onDeliverMsg, exitNicely] at hctl
    | false => exact hi

/-- One step keeps the coupling; the window may only move forward. -/
theorem coupled_step {s s' : System} {e : Event} {lo : Nat} (h : Fires s e s') (hi : s.Idle)
    (hc : s.Coupled lo) : ∃ lo', lo ≤ lo' ∧ s'.Coupled lo' := by
  cases h with
  | beginTxn xid _ => exact ⟨lo, Nat.le_refl lo, hc.onBeginTxn xid⟩
  | commitTxn walPos xid _ => exact hc.onCommitTxn walPos xid
  | send walPos relid record hctl =>
    exact ⟨lo, Nat.le_refl lo, hc.sendKafkaMsg (hi (Or.inl hctl)) walPos relid record⟩
  | produce failed queueFull _ hm =>
    exact ⟨lo, Nat.le_refl lo, hc.rdKafkaProduce hm _ failed queueFull⟩
  | retryBegin _ => exact ⟨lo, Nat.le_refl lo, hc.tryBegin _⟩
  | retryProduce _ => exact ⟨lo, Nat.le_refl lo, hc.of_eq rfl rfl rfl (List.Perm.refl _)⟩
  | quit status _ => exact ⟨lo, Nat.le_refl lo, hc.exitNicely status⟩
  | deliver failed hm => exact hc.onDeliverMsg hm failed

/-- **The refinement.**  After every run, in any order of events, the ring is a window on the list of
transactions. -/
theorem run_coupled {takingSnapshot : Bool} {es : List Event} {s : System}
    (h : Run takingSnapshot es s) : s.Idle ∧ ∃ lo, s.Coupled lo := by
  refine run_rule (P := fun _ s => s.Idle ∧ ∃ lo, s.Coupled lo)
    ⟨fun _ => rfl, 0, coupled_init takingSnapshot⟩ ?_ h
  rintro _ t e u - ⟨hi, lo, hc⟩ hstep
  have hf := fires_of_step hstep
  obtain ⟨lo', -, hc'⟩ := coupled_step hf hi hc
  exact ⟨idle_step hf hi, lo', hc'⟩

/-! ## §5 — the accounting of messages in flight -/

/-- In a coupled state the messages that point to the slot of transaction `i` are those of `i`. -/
theorem Coupled.countP_slot {s : System} {lo i : Nat} (h : s.Coupled lo) (h₁ : lo ≤ i)
    (h₂ : i ≤ s.current) :
    s.inFlight.countP (·.envelope.xact = slotOf maxInFlightTransactions i) =
      s.inFlight.countP (·.txn = i) := by
  apply List.countP_congr
  intro m hm
  obtain ⟨hle, hxact⟩ := h.flight m hm
  simp only [decide_eq_true_eq]
  constructor
  · intro he
    exact h.holds.window.inj (h.le_txn hm) hle h₁ h₂ (hxact.symm.trans he)
  · rintro rfl
    exact hxact

/-- The counter of a slot in the ring is the number of messages in flight that point to it. -/
theorem Coupled.pending_of_inRing {s : System} {lo : Nat} (h : s.Coupled lo) {slot : XactSlot}
    (hslot : InRing s.ctx.xactHead s.ctx.xactTail slot) :
    (s.ctx.xactList slot).pendingEvents = s.inFlight.countP (·.envelope.xact = slot) := by
  obtain ⟨i, h₁, h₂, rfl⟩ := (h.holds.window.inRing_iff slot).mp hslot
  rw [h.holds.slots i h₁ h₂, h.countP_slot h₁ h₂]
  exact h.pending_eq h₂

/-- A message in flight points into the ring. -/
theorem Coupled.inRing_of_inFlight {s : System} {lo : Nat} (h : s.Coupled lo) {m : Message}
    (hm : m ∈ s.inFlight) : InRing s.ctx.xactHead s.ctx.xactTail m.envelope.xact :=
  (h.holds.window.inRing_iff _).mpr
    ⟨m.txn, h.le_txn hm, (h.flight m hm).1, (h.flight m hm).2.symm⟩

/-- Taking the next slot changes no slot of the ring. -/
theorem Coupled.tryBegin_frame {s : System} {lo : Nat} (h : s.Coupled lo) (xid : UInt32)
    {slot : XactSlot} (hslot : InRing s.ctx.xactHead s.ctx.xactTail slot) :
    (s.tryBegin xid).ctx.xactList slot = s.ctx.xactList slot := by
  unfold System.tryBegin
  split
  · rfl
  · next hfull =>
    refine Function.update_of_ne ?_ _ _
    rintro rfl
    exact h.holds.window.not_inRing_succ_head hfull hslot

/-- `maybe_checkpoint` writes no slot. -/
theorem Coupled.maybeCheckpoint_xactList {s : System} {lo : Nat} (h : s.Coupled lo) :
    s.maybeCheckpoint.ctx.xactList = s.ctx.xactList := by
  obtain ⟨lo', hck, -⟩ := h.checkpoint
  exact hck.list_eq

/-- `on_deliver_msg` writes the slot its envelope points to, and no other. -/
theorem Coupled.onDeliverMsg_xactList {s : System} {lo : Nat} (h : s.Coupled lo) {i : Nat}
    {m : Message} (hm : s.queue[i]? = some m) :
    (s.onDeliverMsg i m false).ctx.xactList =
      update s.ctx.xactList m.envelope.xact
        { s.ctx.xactList m.envelope.xact with
          pendingEvents := (s.ctx.xactList m.envelope.xact).pendingEvents - 1 } :=
  (h.noteDelivery hm).maybeCheckpoint_xactList

/-- No counter is negative, in the ring or outside it. -/
def NonNeg (s : System) : Prop := ∀ slot, 0 ≤ (s.ctx.xactList slot).pendingEvents

theorem nonNeg_step {s s' : System} {e : Event} {lo : Nat} (h : Fires s e s') (hc : s.Coupled lo)
    (hn : s.NonNeg) : s'.NonNeg := by
  have hbegin : ∀ xid, (s.tryBegin xid).NonNeg := by
    intro xid slot
    unfold tryBegin
    split
    · exact hn slot
    · by_cases hs : slot = s.ctx.xactHead + 1
      · simp [ProducerContext.openXact, hs]
      · simpa [ProducerContext.openXact, Function.update_of_ne hs] using hn slot
  cases h with
  | beginTxn xid _ =>
    unfold onBeginTxn
    split
    · split <;> exact hn
    · exact hbegin xid
  | commitTxn walPos xid _ =>
    intro slot
    unfold onCommitTxn
    split
    · rw [(hc.noteCommit walPos).maybeCheckpoint_xactList]
      by_cases hs : slot = s.ctx.xactHead
      · simpa [noteCommit, ProducerContext.noteCommit, hs] using hn s.ctx.xactHead
      · simpa [noteCommit, ProducerContext.noteCommit, Function.update_of_ne hs] using hn slot
    · exact hn slot
  | send walPos relid record _ =>
    intro slot
    have hhead := hn s.ctx.xactHead
    by_cases hs : slot = s.ctx.xactHead
    · simp only [sendKafkaMsg, ProducerContext.countRow, hs, Function.update_self]
      omega
    · simpa [sendKafkaMsg, ProducerContext.countRow, Function.update_of_ne hs] using hn slot
  | produce failed queueFull _ hm =>
    cases failed <;> cases queueFull <;> exact hn
  | retryBegin _ => exact hbegin _
  | retryProduce _ => exact hn
  | quit status _ => exact hn
  | @deliver i m failed hm =>
    cases failed with
    | true => exact hn
    | false =>
      intro slot
      rw [hc.onDeliverMsg_xactList hm]
      by_cases hs : slot = m.envelope.xact
      · -- the message itself is one of those the counter counts
        have hmem : m ∈ s.inFlight := List.mem_append_right _ (List.mem_of_getElem? hm)
        have hpos : 0 < s.inFlight.countP (·.envelope.xact = m.envelope.xact) :=
          List.countP_pos_iff.mpr ⟨m, hmem, by simp⟩
        have hcount := hc.pending_of_inRing (hc.inRing_of_inFlight hmem)
        rw [hs, Function.update_self]
        simp only
        omega
      · rw [Function.update_of_ne hs]
        exact hn slot

theorem run_nonNeg {takingSnapshot : Bool} {es : List Event} {s : System}
    (h : Run takingSnapshot es s) : s.NonNeg := by
  refine run_rule (P := fun _ s => s.NonNeg) (fun _ => Int.le_refl 0) ?_ h
  intro es t e u ht hn hstep
  obtain ⟨-, lo, hc⟩ := run_coupled ht
  exact nonNeg_step (fires_of_step hstep) hc hn

/-- **In-flight accounting.**  After every run: the counter of each slot in the ring is the number of
messages in flight that point to it, every message in flight points into the ring, a begin changes no
slot of the ring, an acknowledgement decrements the counter of the transaction whose message it is
(the slot has not been given to another since), and no counter is negative. -/
theorem inFlight_accounting {takingSnapshot : Bool} {es : List Event} {s : System}
    (h : Run takingSnapshot es s) :
    (∀ slot, InRing s.ctx.xactHead s.ctx.xactTail slot →
      (s.ctx.xactList slot).pendingEvents = s.inFlight.countP (·.envelope.xact = slot)) ∧
    (∀ m ∈ s.inFlight, InRing s.ctx.xactHead s.ctx.xactTail m.envelope.xact) ∧
    (∀ e s', s.step e = some s' → (∃ xid, e = .onBeginTxn xid) ∨ e = .backpressure .returned →
      ∀ slot, InRing s.ctx.xactHead s.ctx.xactTail slot →
        s'.ctx.xactList slot = s.ctx.xactList slot) ∧
    (∀ i m s', s.queue[i]? = some m → s.step (.onDeliverMsg i false) = some s' →
      s.owner m.envelope.xact = m.txn ∧
      s'.ctx.xactList = update s.ctx.xactList m.envelope.xact
        { s.ctx.xactList m.envelope.xact with
          pendingEvents := (s.ctx.xactList m.envelope.xact).pendingEvents - 1 }) ∧
    (∀ slot, 0 ≤ (s.ctx.xactList slot).pendingEvents) := by
  obtain ⟨-, lo, hc⟩ := run_coupled h
  refine ⟨fun slot => hc.pending_of_inRing, fun m => hc.inRing_of_inFlight, ?_, ?_, run_nonNeg h⟩
  · intro e s' hstep he slot hslot
    cases fires_of_step hstep with
    | beginTxn xid _ =>
      unfold onBeginTxn
      split
      · split <;> rfl
      · exact hc.tryBegin_frame xid hslot
    | retryBegin _ => exact hc.tryBegin_frame _ hslot
    | retryProduce _ => rfl
    | quit status _ => rfl
    | commitTxn | send | produce | deliver => simp at he
  · intro i m s' hm hstep
    cases fires_of_step hstep with
    | deliver _ hm' =>
      obtain rfl := Option.some.inj (hm.symm.trans hm')
      have hmem : m ∈ s.inFlight := List.mem_append_right _ (List.mem_of_getElem? hm)
      obtain ⟨hle, hxact⟩ := hc.flight m hmem
      refine ⟨?_, hc.onDeliverMsg_xactList hm⟩
      rw [hxact]
      exact hc.owner m.txn (hc.le_txn hmem) hle

/-- A snapshot of one row and a transaction of one row; the second row is acknowledged before the
first. -/
def twoRows : List Event :=
  [.onBeginTxn 0, .sendKafkaMsg 0 16384 (some ⟨"users", none, none⟩), .rdKafkaProduce false false,
    .onCommitTxn 16 0,
    .onBeginTxn 7, .sendKafkaMsg 24 16384 (some ⟨"users", none, none⟩), .rdKafkaProduce false false,
    .onDeliverMsg 1 false, .onCommitTxn 32 7, .onDeliverMsg 0 false]

theorem inFlight_accounting_twoRows :
    ∃ s, Run true (twoRows.take 7) s ∧ s.queue.length = 2 ∧
      ∀ slot, InRing s.ctx.xactHead s.ctx.xactTail slot →
        (s.ctx.xactList slot).pendingEvents = s.inFlight.countP (·.envelope.xact = slot) := by
  have hrun : ∃ s, Run true (twoRows.take 7) s ∧ s.queue.length = 2 := ⟨_, rfl, rfl⟩
  obtain ⟨s, h, hlen⟩ := hrun
  exact ⟨s, h, hlen, (inFlight_accounting h).1⟩

end System

end BottledWater.Kafka
