/-
# BottledWater.Kafka.Backpressure — the loop of `on_begin_txn` waits for something.

`on_begin_txn` calls `backpressure` for as long as `xact_list_full` holds, and nothing but an
acknowledgement can move `xact_tail` while it does.  So a full ring must have a message in flight for
the transaction at its tail, in every state in which a transaction may begin; and once the last such
message is acknowledged the ring must have a free slot.

Both follow from `Exact`.  A finished transaction stays at the tail only while everything after it is
open; in a full ring the current transaction is not the tail, and it is committed when another may begin.
-/
import BottledWater.Kafka.Checkpoint

namespace BottledWater.Kafka.System

open BottledWater.Lib
open ProducerContext (finished)

variable {s s' : System} {lo : Nat} {p : PgPhase}

/-- **`MayBegin s p`** — the transaction before is committed and the next is about to begin, or its
`on_begin_txn` is already waiting for a slot. -/
def MayBegin (s : System) (p : PgPhase) : Prop :=
  s.control = .ready ∧ p.openXid = none ∨ ∃ xid, s.control = .beginTxn xid

theorem MayBegin.closed (h : s.MayBegin p) (hist : s.History p) : s.Closed := by
  rcases h with ⟨-, hp⟩ | ⟨xid, hctl⟩
  · have hphase := hist.phase
    cases p with
    | start => exact Or.inl hphase
    | between => exact hphase
    | snapshot => simp [PgPhase.openXid] at hp
    | txn _ => simp [PgPhase.openXid] at hp
  · exact (hist.waiting xid hctl).2

/-! ## The tail of a full ring -/

/-- In a full ring the transaction at the tail is committed and not finished. -/
theorem not_finished_of_full (hc : s.Coupled lo) (hist : s.History p) (h : s.Exact lo)
    (hclosed : s.Closed) (hfull : s.ctx.xactListFull) : ¬ finished (s.slotAt lo) := by
  intro hfin
  have hspan : s.current + 1 = lo + 1000 :=
    hc.holds.window.full_iff.mp hfull
  rcases hclosed with ⟨hcur, -⟩ | ⟨t, ht, hsome⟩
  · omega
  · obtain ⟨lsn, hlsn⟩ := Option.isSome_iff_exists.mp hsome
    have hzero := h.behind hfin s.current (by omega)
    rw [slotAt_of_getElem? ht, Txn.slot, hlsn] at hzero
    exact hist.lsn_ne _ t ht (hlsn.trans (congrArg some hzero))

theorem exists_inFlight_of_full (hc : s.Coupled lo) (hist : s.History p) (h : s.Exact lo)
    (hclosed : s.Closed) (hfull : s.ctx.xactListFull) :
    ∃ m ∈ s.inFlight, m.envelope.xact = s.ctx.xactTail := by
  have hn := not_finished_of_full hc hist h hclosed hfull
  have hspan : s.current + 1 = lo + 1000 :=
    hc.holds.window.full_iff.mp hfull
  obtain ⟨t, ht⟩ := hc.getElem?_of_le (i := lo) (by omega)
  -- what the loop test of `maybe_checkpoint` still misses is an acknowledgement
  have hpending : (s.slotAt lo).pendingEvents ≠ 0 := by
    intro hzero
    refine hn ⟨hzero, ?_⟩
    rw [slotAt_of_getElem? ht]
    rcases hist.committed lo t (by omega) ht with ⟨rfl, -⟩ | hsome
    · exact Or.inr (hist.first t ht)
    · obtain ⟨lsn, hlsn⟩ := Option.isSome_iff_exists.mp hsome
      left
      rw [Txn.slot, hlsn]
      refine UInt64.pos_iff_ne_zero.mpr ?_
      rintro rfl
      exact hist.lsn_ne lo t ht hlsn
  rw [hc.pending_eq (by omega)] at hpending
  have hpos : 0 < s.inFlight.countP (·.txn = lo) := by omega
  obtain ⟨m, hm, htxn⟩ := List.countP_pos_iff.mp hpos
  refine ⟨m, hm, ?_⟩
  rw [(hc.flight m hm).2, of_decide_eq_true htxn, hc.holds.window.tail_eq]

/-! ## Waiting -/

/-- What can happen while `on_begin_txn` waits: acknowledgements, and `backpressure` returns. -/
def Awaited (e : Event) : Prop := (∃ i, e = .onDeliverMsg i false) ∨ e = .backpressure .returned

theorem Awaited.next {e : Event} (h : Awaited e) (p : PgPhase) : p.next e = some p := by
  rcases h with ⟨i, rfl⟩ | rfl <;> cases p <;> rfl

/-- While the ring is full, such an event moves neither the thread nor the head. -/
theorem Awaited.step {e : Event} (h : Awaited e) (hf : Fires s e s') (hc : s.Coupled lo)
    (hbegin : s.MayBegin p) (hfull : s.ctx.xactListFull) :
    s'.control = s.control ∧ s'.ctx.xactHead = s.ctx.xactHead := by
  rcases h with ⟨i, rfl⟩ | rfl
  · cases hf with
    | deliver _ hm =>
      obtain ⟨lo', hck, -⟩ := (hc.noteDelivery hm).checkpoint
      exact ⟨rfl, hck.head_eq⟩
  · cases hf with
    | retryBegin hctl =>
      unfold tryBegin
      rw [if_pos hfull]
      exact ⟨hctl.symm, rfl⟩
    | retryProduce hctl =>
      rcases hbegin with ⟨hready, -⟩ | ⟨xid, hwait⟩
      · exact absurd (hready.symm.trans hctl) (by simp)
      · exact absurd (hwait.symm.trans hctl) (by simp)
    | quit _ hr => exact absurd rfl hr

/-- Either the ring has had a free slot on the way, or it is as full as it was. -/
theorem awaited_run {takingSnapshot : Bool} {es : List Event} (h : Run takingSnapshot es s)
    (hp : pgPhase es = some p) (hbegin : s.MayBegin p) (hfull : s.ctx.xactListFull) :
    ∀ {fs : List Event} {t : System}, run step s fs = some t → (∀ f ∈ fs, Awaited f) →
      (∃ fs' u, fs' <+: fs ∧ run step s fs' = some u ∧ ¬ u.ctx.xactListFull) ∨
      Run takingSnapshot (es ++ fs) t ∧ pgPhase (es ++ fs) = some p ∧ t.control = s.control ∧
        t.ctx.xactHead = s.ctx.xactHead ∧ t.ctx.xactListFull := by
  intro fs t hrun
  refine run_rule (P := fun fs t => (∀ f ∈ fs, Awaited f) →
      (∃ fs' u, fs' <+: fs ∧ run step s fs' = some u ∧ ¬ u.ctx.xactListFull) ∨
      Run takingSnapshot (es ++ fs) t ∧ pgPhase (es ++ fs) = some p ∧ t.control = s.control ∧
        t.ctx.xactHead = s.ctx.xactHead ∧ t.ctx.xactListFull) ?_ ?_ hrun
  · intro _
    rw [List.append_nil]
    exact Or.inr ⟨h, hp, rfl, rfl, hfull⟩
  · intro fs t e u ht ih hstep hall
    rcases ih fun f hf => hall f (List.mem_append_left _ hf) with
      ⟨fs', v, hpre, hv, hfree⟩ | ⟨hrun', hp', hctl, hhead, hfull'⟩
    · exact Or.inl ⟨fs', v, hpre.trans (List.prefix_append fs [e]), hv, hfree⟩
    · have he : Awaited e := hall e (by simp)
      have hbegin' : t.MayBegin p := by
        unfold MayBegin
        rw [hctl]
        exact hbegin
      obtain ⟨-, lo, hc⟩ := run_coupled hrun'
      obtain ⟨hctl', hhead'⟩ := he.step (fires_of_step hstep) hc hbegin' hfull'
      by_cases hu : u.ctx.xactListFull
      · refine Or.inr ⟨?_, ?_, hctl'.trans hctl, hhead'.trans hhead, hu⟩
        · rw [Run, ← List.append_assoc, run_snoc, hrun']
          exact hstep
        · rw [pgPhase] at hp' ⊢
          rw [← List.append_assoc, run_snoc, hp']
          exact he.next p
      · refine Or.inl ⟨fs ++ [e], u, List.prefix_rfl, ?_, hu⟩
        rw [run_snoc, ht]
        exact hstep

/-- **Backpressure never waits for nothing.**  In every reachable state in which a transaction may
begin: if the ring is full, a message of the transaction at the tail is in flight; in whatever order
acknowledgements arrive while `on_begin_txn` waits, the ring has had a free slot by the time that no
message of that transaction is in flight; and when nothing at all is in flight, the next return of
`backpressure` ends the wait. -/
theorem backpressure_awaits_tail {takingSnapshot : Bool} {es : List Event}
    (h : Run takingSnapshot es s) (hp : pgPhase es = some p) (hbegin : s.MayBegin p) :
    (s.ctx.xactListFull → ∃ m ∈ s.inFlight, m.envelope.xact = s.ctx.xactTail) ∧
    (s.ctx.xactListFull → ∀ fs s', (∀ f ∈ fs, Awaited f) → run step s fs = some s' →
      (∀ m ∈ s'.inFlight, m.envelope.xact ≠ s.ctx.xactTail) →
      ∃ fs' u, fs' <+: fs ∧ run step s fs' = some u ∧ ¬ u.ctx.xactListFull) ∧
    (∀ xid, s.control = .beginTxn xid → s.inFlight = [] →
      ∃ s', s.step (.backpressure .returned) = some s' ∧ s'.control = .ready) := by
  have hmsg : ∀ {es : List Event} {t : System}, Run takingSnapshot es t → pgPhase es = some p →
      t.MayBegin p → t.ctx.xactListFull → ∃ m ∈ t.inFlight, m.envelope.xact = t.ctx.xactTail := by
    intro es t ht hpt hbt hfull
    obtain ⟨lo, hc, hex⟩ := run_exact ht (Option.isSome_iff_exists.mpr ⟨p, hpt⟩)
    have hist := run_history ht hpt
    exact exists_inFlight_of_full hc hist hex (hbt.closed hist) hfull
  refine ⟨hmsg h hp hbegin, ?_, ?_⟩
  · intro hfull fs s' hall hrun hnone
    rcases awaited_run h hp hbegin hfull hrun hall with hfree | ⟨hrun', hp', hctl, hhead, hfull'⟩
    · exact hfree
    · -- still full with the same head, so the tail is still the same slot
      exfalso
      have htail : s'.ctx.xactTail = s.ctx.xactTail := by
        rw [← hfull', ← hfull, hhead]
      obtain ⟨m, hm, hxact⟩ := hmsg hrun' hp' (by unfold MayBegin; rw [hctl]; exact hbegin) hfull'
      exact hnone m hm (hxact.trans htail)
  · intro xid hctl hempty
    have hfree : ¬ s.ctx.xactListFull := by
      intro hfull
      obtain ⟨m, hm, -⟩ := hmsg h hp hbegin hfull
      simp [hempty] at hm
    refine ⟨s.tryBegin xid, by simp only [step, afterBackpressure, hctl], ?_⟩
    rw [tryBegin, if_neg hfree]

/-! ## Full rings are reached -/

/-- One message is left unacknowledged, and empty transactions follow until the ring is full. -/
theorem fill (n : Nat) :
    ∃ es s, Run false es s ∧ pgPhase es = some .between ∧ s.control = .ready ∧
      (∃ m ∈ s.inFlight, m.txn = 1) ∧ (s.ctx.xactListFull ∨ s.current = n + 1) := by
  induction n with
  | zero =>
    exact ⟨[.onBeginTxn 1, .sendKafkaMsg 8 16384 (some ⟨"users", none, none⟩),
      .rdKafkaProduce false false, .onCommitTxn 16 1], _, rfl, rfl, rfl,
      ⟨⟨⟨8, 16384, 1⟩, 1⟩, by decide, rfl⟩, Or.inr rfl⟩
  | succ n ih =>
    obtain ⟨es, s, hrun, hp, hctl, ⟨m, hm, htxn⟩, hfull | hcur⟩ := ih
    · exact ⟨es, s, hrun, hp, hctl, ⟨m, hm, htxn⟩, Or.inl hfull⟩
    by_cases hfull : s.ctx.xactListFull
    · exact ⟨es, s, hrun, hp, hctl, ⟨m, hm, htxn⟩, Or.inl hfull⟩
    -- there is a slot: one more transaction begins and commits
    have hbegin : s.step (.onBeginTxn 1) = some (s.tryBegin 1) := by
      simp [step, hctl, onBeginTxn]
    have hrun₁ : Run false (es ++ [.onBeginTxn 1]) (s.tryBegin 1) := by
      rw [Run, run_snoc, hrun]
      exact hbegin
    have hp₁ : pgPhase (es ++ [.onBeginTxn 1]) = some (.txn 1) := by
      rw [pgPhase] at hp ⊢
      rw [run_snoc, hp]
      rfl
    have hctl₁ : (s.tryBegin 1).control = .ready := by rw [tryBegin, if_neg hfull]
    have hfl₁ : (s.tryBegin 1).inFlight = s.inFlight := by rw [tryBegin, if_neg hfull]; rfl
    have hcur₁ : (s.tryBegin 1).current = n + 2 := by
      rw [tryBegin, if_neg hfull]
      simp only [current, List.length_append, List.length_singleton] at hcur ⊢
      omega
    obtain ⟨-, lo, hc₁⟩ := run_coupled hrun₁
    have hcommits := (run_history hrun₁ hp₁).commitsCurrent hc₁ hctl₁ rfl
    refine ⟨es ++ [.onBeginTxn 1] ++ [.onCommitTxn 16 1],
      ((s.tryBegin 1).noteCommit 16).maybeCheckpoint, ?_, ?_, hctl₁, ⟨m, ?_, htxn⟩, Or.inr ?_⟩
    · rw [Run, run_snoc, hrun₁]
      simp only [Option.bind_some, step, hctl₁, if_true, onCommitTxn, if_pos hcommits]
    · rw [pgPhase] at hp₁ ⊢
      rw [run_snoc, hp₁]
      rfl
    · exact hfl₁ ▸ hm
    · rw [← hcur₁]
      simp [current, noteCommit, maybeCheckpoint]

/-- The ring does fill up, since transaction 1 never leaves it; there the wait has something to wait
for. -/
theorem backpressure_awaits_tail_full :
    ∃ es s, Run false es s ∧ pgPhase es = some .between ∧ s.MayBegin .between ∧
      s.ctx.xactListFull ∧ ∃ m ∈ s.inFlight, m.envelope.xact = s.ctx.xactTail := by
  obtain ⟨es, s, hrun, hp, hctl, ⟨m, hm, htxn⟩, hlast⟩ := fill 1000
  obtain ⟨-, lo, hc⟩ := run_coupled hrun
  have hbegin : s.MayBegin .between := Or.inl ⟨hctl, rfl⟩
  have hfull : s.ctx.xactListFull := by
    rcases hlast with hfull | hcur
    · exact hfull
    · have hlo := hc.le_txn hm
      have hspan : s.current < lo + 1000 := hc.holds.window.span
      omega
  exact ⟨es, s, hrun, hp, hbegin, hfull, (backpressure_awaits_tail hrun hp hbegin).1 hfull⟩

end BottledWater.Kafka.System
