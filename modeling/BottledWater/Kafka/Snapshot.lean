/-
# BottledWater.Kafka.Snapshot — when `taking_snapshot` is cleared.

`maybe_checkpoint` clears the flag when it passes a slot with xid 0 and a commit LSN.  In runs that
Postgres can give rise to, that slot is the snapshot's, so the flag is down only after the end of the
snapshot has been reported and Kafka has acknowledged every row of it; and that stays so.
-/
import BottledWater.Kafka.Checkpoint

namespace BottledWater.Kafka.System

open BottledWater.Lib
open ProducerContext (finished Checkpointed)

variable {s s' : System} {lo : Nat} {p : PgPhase}

/-- The snapshot is committed and all its messages are acknowledged. -/
def SnapshotDurable (s : System) : Prop := ∃ t : Txn, s.txns[0]? = some t ∧ t.durable = true

/-! ## The flag -/

/-- The slot that clears the flag is the snapshot's. -/
theorem snapshotDurable_of_checkpointed {lo' : Nat} (hc : s.Coupled lo) (hist : s.History p)
    (hck : Checkpointed s.ctx s.ctx.maybeCheckpoint lo lo' s.current s.slotAt)
    (hbefore : s.ctx.takingSnapshot = true) (hafter : s.ctx.maybeCheckpoint.takingSnapshot = false) :
    s.maybeCheckpoint.SnapshotDurable := by
  have hn : ¬ (s.ctx.maybeCheckpoint.takingSnapshot = true) := by simp [hafter]
  rw [hck.snapshot] at hn
  push Not at hn
  obtain ⟨i, -, hle, hfin, hxid, hlsn⟩ := hn hbefore
  have hcur := hck.window.le
  obtain ⟨t, ht⟩ := hc.getElem?_of_le (i := i) (by omega)
  have hi : i = 0 := by
    by_contra hne
    rw [slotAt_of_getElem? ht] at hxid
    exact hist.xid_ne i t (Nat.pos_of_ne_zero hne) ht hxid
  subst hi
  refine ⟨t, ht, (hist.finished_iff_durable ht (Or.inl ?_)).mp hfin⟩
  rw [slotAt_of_getElem? ht] at hlsn
  cases hc' : t.commitLsn with
  | some _ => rfl
  | none => simp [Txn.slot, hc'] at hlsn

theorem SnapshotDurable.frozen {e : Event} {p' : PgPhase} (h : s.SnapshotDurable)
    (hf : Fires s e s') (hc : s.Coupled lo) (hist : s.History p) (hp : p.next e = some p') :
    s'.SnapshotDurable := by
  obtain ⟨t, ht, hd⟩ := h
  exact ⟨t, durable_frozen hf hc hist hp ht hd, hd⟩

/-- No step raises the flag, and one that clears it has the snapshot durable. -/
theorem takingSnapshot_step {e : Event} {p' : PgPhase} (hf : Fires s e s') (hc : s.Coupled lo)
    (hist : s.History p) (hp : p.next e = some p') (hbefore : s.ctx.takingSnapshot = true)
    (hafter : s'.ctx.takingSnapshot = false) : s'.SnapshotDurable := by
  have hkept : s'.ctx.takingSnapshot ≠ s.ctx.takingSnapshot := by simp [hbefore, hafter]
  have hbegin : ∀ xid, (s.tryBegin xid).ctx.takingSnapshot = s.ctx.takingSnapshot := by
    intro xid
    unfold tryBegin
    split <;> rfl
  cases hf with
  | beginTxn xid _ =>
    refine absurd ?_ hkept
    unfold onBeginTxn
    split
    · split <;> rfl
    · exact hbegin xid
  | commitTxn walPos xid hctl =>
    obtain ⟨-, hw, hopen⟩ := PgPhase.next_onCommitTxn hp
    have hcur := hist.commitsCurrent hc hctl hopen
    have hc₁ := hc.noteCommit walPos
    obtain ⟨lo', hck, -⟩ := hc₁.checkpoint
    simp only [onCommitTxn, if_pos hcur] at hafter ⊢
    exact snapshotDurable_of_checkpointed hc₁ (hist.noteCommit hctl hopen hw) hck hbefore hafter
  | send walPos relid record _ => exact absurd rfl hkept
  | produce failed queueFull _ _ =>
    refine absurd ?_ hkept
    cases failed <;> cases queueFull <;> rfl
  | retryBegin _ => exact absurd (hbegin _) hkept
  | retryProduce _ => exact absurd rfl hkept
  | quit status _ => exact absurd rfl hkept
  | deliver failed hm =>
    cases failed with
    | true => exact absurd rfl hkept
    | false =>
      have hc₁ := hc.noteDelivery hm
      obtain ⟨lo', hck, -⟩ := hc₁.checkpoint
      exact snapshotDurable_of_checkpointed hc₁ (hist.noteDelivery hc hm) hck hbefore hafter

theorem run_snapshotDurable {es : List Event} (h : Run true es s) (hp : FromPostgres es)
    (hflag : s.ctx.takingSnapshot = false) : s.SnapshotDurable := by
  refine run_rule (P := fun es s => FromPostgres es → s.ctx.takingSnapshot = false →
    s.SnapshotDurable) ?_ ?_ h hp hflag
  · intro _ hflag
    exact absurd hflag (by simp [init, initProducer])
  · intro es t e u ht ih hstep hp' hflag
    have hpre := hp'.of_append
    obtain ⟨p', hp'⟩ := Option.isSome_iff_exists.mp hp'
    obtain ⟨p, hp, hnext⟩ := run_snoc_eq_some hp'
    obtain ⟨-, lo, hc⟩ := run_coupled ht
    have hist := run_history ht hp
    have hf := fires_of_step hstep
    cases hbefore : t.ctx.takingSnapshot with
    | false => exact (ih hpre hbefore).frozen hf hc hist hnext
    | true => exact takingSnapshot_step hf hc hist hnext hbefore hflag

/-- Without a snapshot to take the flag stays down, whatever happens. -/
theorem takingSnapshot_false_step {e : Event} (hf : Fires s e s') (hc : s.Coupled lo)
    (hbefore : s.ctx.takingSnapshot = false) : s'.ctx.takingSnapshot = false := by
  have hbegin : ∀ xid, (s.tryBegin xid).ctx.takingSnapshot = false := by
    intro xid
    unfold tryBegin
    split <;> exact hbefore
  have hcheck : ∀ {t : System} {lo : Nat}, t.Coupled lo → t.ctx.takingSnapshot = false →
      t.maybeCheckpoint.ctx.takingSnapshot = false := by
    intro t lo ht hflag
    obtain ⟨lo', hck, -⟩ := ht.checkpoint
    rw [← Bool.not_eq_true]
    intro htrue
    rw [(hck.snapshot.mp htrue).1] at hflag
    simp at hflag
  cases hf with
  | beginTxn xid _ =>
    unfold onBeginTxn
    split
    · split <;> exact hbefore
    · exact hbegin xid
  | commitTxn walPos xid _ =>
    unfold onCommitTxn
    split
    · exact hcheck (hc.noteCommit walPos) hbefore
    · exact hbefore
  | send walPos relid record _ => exact hbefore
  | produce failed queueFull _ _ => cases failed <;> cases queueFull <;> exact hbefore
  | retryBegin _ => exact hbegin _
  | retryProduce _ => exact hbefore
  | quit status _ => exact hbefore
  | deliver failed hm =>
    cases failed with
    | true => exact hbefore
    | false => exact hcheck (hc.noteDelivery hm) hbefore

theorem run_takingSnapshot_false {es : List Event} (h : Run false es s) :
    s.ctx.takingSnapshot = false := by
  refine run_rule (P := fun _ s => s.ctx.takingSnapshot = false) rfl ?_ h
  intro es t e u ht ih hstep
  obtain ⟨-, lo, hc⟩ := run_coupled ht
  exact takingSnapshot_false_step (fires_of_step hstep) hc ih

/-! ## The commit of the snapshot -/

/-- A commit position of transaction 0 was reported with xid 0. -/
def CommitReported (es : List Event) (s : System) : Prop :=
  ∀ (t : Txn) (lsn : UInt64), s.txns[0]? = some t → t.commitLsn = some lsn →
    .onCommitTxn lsn 0 ∈ es

theorem commitReported_step {es : List Event} {e : Event} {p' : PgPhase} (hf : Fires s e s')
    (hc : s.Coupled lo) (hist : s.History p) (hp : p.next e = some p') (h : CommitReported es s) :
    CommitReported (es ++ [e]) s' := by
  -- a transaction 0 with the commit it had before is no news
  have hold : (∀ t : Txn, s'.txns[0]? = some t →
      ∃ t₀ : Txn, s.txns[0]? = some t₀ ∧ t.commitLsn = t₀.commitLsn) →
      CommitReported (es ++ [e]) s' := by
    intro hsame t lsn ht hlsn
    obtain ⟨t₀, ht₀, heq⟩ := hsame t ht
    exact List.mem_append_left _ (h t₀ lsn ht₀ (heq ▸ hlsn))
  have hmodify : ∀ {k : Nat} {f : Txn → Txn}, s'.txns = s.txns.modify k f →
      (∀ t, (f t).commitLsn = t.commitLsn) → CommitReported (es ++ [e]) s' := by
    intro k f htxns hlsn
    refine hold fun t ht => ?_
    rw [htxns, List.getElem?_modify] at ht
    obtain ⟨t₀, ht₀, rfl⟩ := Option.map_eq_some_iff.mp ht
    refine ⟨t₀, ht₀, ?_⟩
    split
    · exact hlsn t₀
    · rfl
  have hsame : s'.txns = s.txns → CommitReported (es ++ [e]) s' :=
    fun htxns => hold fun t ht => ⟨t, htxns ▸ ht, rfl⟩
  have hbegin : ∀ xid, s' = s.tryBegin xid → CommitReported (es ++ [e]) s' := by
    rintro xid rfl
    refine hold fun t ht => ⟨t, ?_, rfl⟩
    unfold tryBegin at ht
    split at ht
    · exact ht
    · exact (List.getElem?_append_left hc.nonempty).symm.trans ht
  cases hf with
  | beginTxn xid _ =>
    by_cases hx : xid = 0
    · refine hsame ?_
      rw [onBeginTxn, if_pos hx]
      split <;> rfl
    · exact hbegin xid (by rw [onBeginTxn, if_neg hx])
  | commitTxn walPos xid hctl =>
    obtain ⟨-, -, hopen⟩ := PgPhase.next_onCommitTxn hp
    have hcur := hist.commitsCurrent hc hctl hopen
    have htxns : (s.onCommitTxn walPos xid).txns =
        s.txns.modify s.current fun t => { t with commitLsn := some walPos } := by
      rw [onCommitTxn, if_pos hcur]
      rfl
    by_cases h0 : s.current = 0
    · intro t lsn ht hlsn
      obtain ⟨t₀, ht₀, hx₀, -⟩ := (hist.open_of_ready hctl hopen).1
      rw [h0] at ht₀
      rw [htxns, h0, List.getElem?_modify_eq, ht₀] at ht
      obtain rfl := Option.some.inj ht
      obtain rfl : walPos = lsn := Option.some.inj hlsn
      obtain rfl : 0 = xid := (hist.first t₀ ht₀).symm.trans hx₀
      exact List.mem_append_right _ (List.mem_singleton_self _)
    · refine hold fun t ht => ⟨t, ?_, rfl⟩
      rw [htxns, List.getElem?_modify_ne _ _ h0] at ht
      exact ht
  | send walPos relid record _ => exact hmodify rfl fun _ => rfl
  | produce failed queueFull _ _ =>
    exact hsame (by cases failed <;> cases queueFull <;> rfl)
  | retryBegin _ => exact hbegin _ rfl
  | retryProduce _ => exact hsame rfl
  | quit status _ => exact hsame rfl
  | deliver failed _ =>
    cases failed with
    | true => exact hsame rfl
    | false => exact hmodify rfl fun _ => rfl

theorem run_commitReported {takingSnapshot : Bool} {es : List Event}
    (h : Run takingSnapshot es s) (hp : FromPostgres es) : CommitReported es s := by
  refine run_rule (P := fun es s => FromPostgres es → CommitReported es s) ?_ ?_ h hp
  · intro _ t lsn ht hlsn
    obtain rfl : (⟨0, none, 0, 0⟩ : Txn) = t := by simpa [init] using ht
    simp at hlsn
  · intro es t e u ht ih hstep hp'
    have hpre := hp'.of_append
    obtain ⟨p', hp'⟩ := Option.isSome_iff_exists.mp hp'
    obtain ⟨p, hp, hnext⟩ := run_snoc_eq_some hp'
    obtain ⟨-, lo, hc⟩ := run_coupled ht
    exact commitReported_step (fires_of_step hstep) hc (run_history ht hp) hnext (ih hpre)

end BottledWater.Kafka.System
