/-
# BottledWater.Kafka.History — what Postgres sends, and what the history then looks like.

Postgres reports transactions one after the other: a begin with a non-zero xid, the rows, the commit
with the same xid and a valid (non-zero) WAL position.  Before the first of them there may be the
snapshot, which is a transaction with xid 0.  `PgPhase.next` accepts exactly these sequences; between
their events everything that Kafka and the blocked loops do may happen in any order.

`History` is what such a sequence leaves in the list of transactions: only the first has xid 0, all but
the last are committed, and the last is open exactly while its commit is still to come.
-/
import BottledWater.Kafka.Ring

namespace BottledWater.Kafka

open Function (update)
open BottledWater.Lib

/-! ## The sequences of callbacks that Postgres gives rise to -/

/-- Where Postgres is in its sequence of transactions. -/
inductive PgPhase
  | start
  | snapshot
  | between
  | txn (xid : UInt32)
  deriving DecidableEq, Repr

/-- **`PgPhase.next`** — properly nested begin and commit, non-zero xids except for the snapshot, which
comes first, and valid commit positions (0 is `InvalidXLogRecPtr`). -/
def PgPhase.next : PgPhase → Event → Option PgPhase
  | .start, .onBeginTxn xid => some (if xid = 0 then .snapshot else .txn xid)
  | .between, .onBeginTxn xid => if xid = 0 then none else some (.txn xid)
  | .snapshot, .onCommitTxn walPos xid => if xid = 0 ∧ walPos ≠ 0 then some .between else none
  | .txn begun, .onCommitTxn walPos xid => if xid = begun ∧ walPos ≠ 0 then some .between else none
  | .snapshot, .sendKafkaMsg .. => some .snapshot
  | .txn begun, .sendKafkaMsg .. => some (.txn begun)
  | _, .onBeginTxn _ => none
  | _, .onCommitTxn .. => none
  | _, .sendKafkaMsg .. => none
  | p, .rdKafkaProduce .. => some p
  | p, .backpressure _ => some p
  | p, .onDeliverMsg .. => some p

/-- The xid of the transaction that is being received. -/
def PgPhase.openXid : PgPhase → Option UInt32
  | .snapshot => some 0
  | .txn xid => some xid
  | _ => none

theorem PgPhase.next_sendKafkaMsg {p p' : PgPhase} {walPos : UInt64} {relid : UInt32}
    {record : Option KafkaRecord} (h : p.next (.sendKafkaMsg walPos relid record) = some p') :
    p' = p ∧ ∃ xid, p.openXid = some xid := by
  cases p with
  | snapshot => exact ⟨(Option.some.inj h).symm, 0, rfl⟩
  | txn xid => exact ⟨(Option.some.inj h).symm, xid, rfl⟩
  | start => simp [PgPhase.next] at h
  | between => simp [PgPhase.next] at h

theorem PgPhase.next_onCommitTxn {p p' : PgPhase} {walPos : UInt64} {xid : UInt32}
    (h : p.next (.onCommitTxn walPos xid) = some p') :
    p' = .between ∧ walPos ≠ 0 ∧ p.openXid = some xid := by
  cases p with
  | snapshot =>
    obtain ⟨⟨rfl, hw⟩, hp⟩ := Option.ite_none_right_eq_some.mp h
    exact ⟨(Option.some.inj hp).symm, hw, rfl⟩
  | txn begun =>
    obtain ⟨⟨rfl, hw⟩, hp⟩ := Option.ite_none_right_eq_some.mp h
    exact ⟨(Option.some.inj hp).symm, hw, rfl⟩
  | start => simp [PgPhase.next] at h
  | between => simp [PgPhase.next] at h

/-- The phase that a sequence of events leads to; `none` when Postgres does not send it. -/
def pgPhase (es : List Event) : Option PgPhase := run PgPhase.next .start es

/-- The events of `es` that come from Postgres are a sequence it can send. -/
def FromPostgres (es : List Event) : Prop := (pgPhase es).isSome

instance (es : List Event) : Decidable (FromPostgres es) :=
  inferInstanceAs (Decidable ((pgPhase es).isSome = true))

theorem FromPostgres.of_append {es fs : List Event} (h : FromPostgres (es ++ fs)) :
    FromPostgres es := by
  unfold FromPostgres pgPhase at h ⊢
  rw [run_append] at h
  cases hes : run PgPhase.next .start es with
  | none => simp [hes] at h
  | some p => rfl

namespace System

variable {s s' : System} {lo : Nat} {p : PgPhase}

/-! ## The invariant of the history -/

/-- The transaction received last is over: it is committed, or there has not been any. -/
def Closed (s : System) : Prop :=
  s.current = 0 ∧ s.snapshot = false ∨ ∃ t, s.txns[s.current]? = some t ∧ t.commitLsn.isSome

/-- The transaction received last has xid `xid` and its commit is still to come. -/
def Open (s : System) (xid : UInt32) : Prop :=
  ∃ t, s.txns[s.current]? = some t ∧ t.xid = xid ∧ t.commitLsn = none

/-- What the phase says about the transaction received last. -/
def InPhase (s : System) : PgPhase → Prop
  | .start => s.current = 0 ∧ s.snapshot = false
  | .snapshot => s.current = 0 ∧ s.snapshot = true ∧ s.Open 0
  | .between => s.Closed
  | .txn xid => 0 < s.current ∧ s.Open xid ∨ s.control = .beginTxn xid ∨ s.hasExited = true

structure History (s : System) (p : PgPhase) : Prop where
  first : ∀ t : Txn, s.txns[0]? = some t → t.xid = 0
  xid_ne : ∀ (i : Nat) (t : Txn), 0 < i → s.txns[i]? = some t → t.xid ≠ 0
  lsn_ne : ∀ (i : Nat) (t : Txn), s.txns[i]? = some t → t.commitLsn ≠ some 0
  committed : ∀ (i : Nat) (t : Txn), i < s.current → s.txns[i]? = some t →
    i = 0 ∧ s.snapshot = false ∨ t.commitLsn.isSome
  sentinel : s.snapshot = false → s.txns[0]? = some ⟨0, none, 0, 0⟩
  phase : s.InPhase p
  waiting : ∀ xid, s.control = .beginTxn xid → p = .txn xid ∧ s.Closed
  xid_open : ∀ xid, p = .txn xid → xid ≠ 0

theorem history_init (takingSnapshot : Bool) : (init takingSnapshot).History .start where
  first := by
    intro t h
    obtain rfl : (⟨0, none, 0, 0⟩ : Txn) = t := by simpa [init] using h
    rfl
  xid_ne := by
    intro i t hi h
    obtain ⟨j, rfl⟩ := Nat.exists_eq_succ_of_ne_zero (Nat.ne_of_gt hi)
    simp [init] at h
  lsn_ne := by
    intro i t h
    rcases i with _ | i
    · obtain rfl : (⟨0, none, 0, 0⟩ : Txn) = t := by simpa [init] using h
      simp
    · simp [init] at h
  committed := by
    intro i t hi
    simp [current, init] at hi
  sentinel := fun _ => rfl
  phase := ⟨rfl, rfl⟩
  waiting := by simp [init]
  xid_open := by simp

namespace History

/-- A change of one transaction that keeps its xid and its commit, and of where the thread is. -/
theorem modify (h : s.History p) {k : Nat} {f : Txn → Txn}
    (htxns : s'.txns = s.txns.modify k f)
    (hf : ∀ t, (f t).xid = t.xid ∧ (f t).commitLsn = t.commitLsn)
    (hk : s.snapshot = false → k ≠ 0) (hsnap : s'.snapshot = s.snapshot)
    (hctl : ∀ xid, s.control = .beginTxn xid ∨ s.hasExited = true →
      s'.control = .beginTxn xid ∨ s'.hasExited = true)
    (hwait : ∀ xid, s'.control = .beginTxn xid → s.control = .beginTxn xid) : s'.History p := by
  have hcur : s'.current = s.current := by unfold current; rw [htxns, List.length_modify]
  have hto : ∀ (i : Nat) (t : Txn), s.txns[i]? = some t →
      ∃ t' : Txn, s'.txns[i]? = some t' ∧ t'.xid = t.xid ∧ t'.commitLsn = t.commitLsn := by
    intro i t ht
    rw [htxns, List.getElem?_modify, ht]
    by_cases hi : k = i
    · exact ⟨f t, by simp [hi], hf t⟩
    · exact ⟨t, by simp [hi], rfl, rfl⟩
  have hof : ∀ (i : Nat) (t' : Txn), s'.txns[i]? = some t' →
      ∃ t : Txn, s.txns[i]? = some t ∧ t'.xid = t.xid ∧ t'.commitLsn = t.commitLsn := by
    intro i t' ht'
    have hlt : i < s.txns.length := by
      have := (List.getElem?_eq_some_iff.mp ht').1
      rwa [htxns, List.length_modify] at this
    obtain ⟨t'', ht'', he⟩ := hto i _ (List.getElem?_eq_getElem hlt)
    obtain rfl := Option.some.inj (ht'.symm.trans ht'')
    exact ⟨_, List.getElem?_eq_getElem hlt, he⟩
  have hopen : ∀ xid, s.Open xid → s'.Open xid := by
    rintro xid ⟨t, ht, hx, hc⟩
    obtain ⟨t', ht', hx', hc'⟩ := hto _ t ht
    exact ⟨t', hcur ▸ ht', hx'.trans hx, hc'.trans hc⟩
  have hclosed : s.Closed → s'.Closed := by
    rintro (⟨h₁, h₂⟩ | ⟨t, ht, hc⟩)
    · exact Or.inl ⟨hcur.trans h₁, hsnap.trans h₂⟩
    · obtain ⟨t', ht', -, hc'⟩ := hto _ t ht
      exact Or.inr ⟨t', hcur ▸ ht', hc' ▸ hc⟩
  refine ⟨?_, ?_, ?_, ?_, ?_, ?_, ?_, h.xid_open⟩
  · intro t' ht'
    obtain ⟨t, ht, hx, -⟩ := hof 0 t' ht'
    exact hx.trans (h.first t ht)
  · intro i t' hi ht'
    obtain ⟨t, ht, hx, -⟩ := hof i t' ht'
    exact hx ▸ h.xid_ne i t hi ht
  · intro i t' ht'
    obtain ⟨t, ht, -, hc⟩ := hof i t' ht'
    exact hc ▸ h.lsn_ne i t ht
  · intro i t' hi ht'
    obtain ⟨t, ht, -, hc⟩ := hof i t' ht'
    rw [hsnap, hc]
    exact h.committed i t (hcur ▸ hi) ht
  · intro hs
    rw [hsnap] at hs
    rw [htxns, List.getElem?_modify_ne f s.txns (hk hs)]
    exact h.sentinel hs
  · have hphase := h.phase
    cases p with
    | start => exact ⟨hcur.trans hphase.1, hsnap.trans hphase.2⟩
    | snapshot => exact ⟨hcur.trans hphase.1, hsnap.trans hphase.2.1, hopen 0 hphase.2.2⟩
    | between => exact hclosed hphase
    | txn xid =>
      rcases hphase with ⟨h₁, h₂⟩ | hblocked
      · exact Or.inl ⟨hcur ▸ h₁, hopen xid h₂⟩
      · exact Or.inr (hctl xid hblocked)
  · intro xid hw
    obtain ⟨hp, hc⟩ := h.waiting xid (hwait xid hw)
    exact ⟨hp, hclosed hc⟩

/-- The thread moves and no transaction changes. -/
theorem of_eq (h : s.History p) (htxns : s'.txns = s.txns) (hsnap : s'.snapshot = s.snapshot)
    (hctl : ∀ xid, s.control = .beginTxn xid ∨ s.hasExited = true →
      s'.control = .beginTxn xid ∨ s'.hasExited = true)
    (hwait : ∀ xid, s'.control = .beginTxn xid → s.control = .beginTxn xid) : s'.History p := by
  refine h.modify (k := 1) (f := id) ?_ (fun _ => ⟨rfl, rfl⟩) (fun _ => Nat.one_ne_zero) hsnap
    hctl hwait
  rw [htxns, List.modify_id]

theorem exitNicely (h : s.History p) (status : Nat) : (s.exitNicely status).History p :=
  h.of_eq rfl rfl (fun _ _ => Or.inr rfl) (fun _ hw => by simp [System.exitNicely] at hw)

theorem maybeCheckpoint (h : s.History p) : s.maybeCheckpoint.History p :=
  h.of_eq rfl rfl (fun _ hb => hb) (fun _ hw => hw)

/-! ## The callbacks keep the invariant -/

/-- A transaction begins after one that is over. -/
theorem tryBegin (h : s.History p) (hclosed : s.Closed) (hne : 0 < s.txns.length) {xid : UInt32}
    (hxid : xid ≠ 0) : (s.tryBegin xid).History (.txn xid) := by
  unfold System.tryBegin
  split
  · refine ⟨h.first, h.xid_ne, h.lsn_ne, h.committed, h.sentinel, Or.inr (Or.inl rfl), ?_, ?_⟩
    · rintro x hx
      obtain rfl : xid = x := by simpa using hx
      exact ⟨rfl, hclosed⟩
    · rintro x hx
      obtain rfl : xid = x := by simpa using hx
      exact hxid
  -- entry `i` of the longer list is an old one, or the transaction just begun
  have hlen : s.txns.length = s.current + 1 := by unfold current; omega
  have hcases : ∀ (i : Nat) (t : Txn), (s.txns ++ [⟨xid, none, 0, 0⟩])[i]? = some t →
      s.txns[i]? = some t ∧ i ≤ s.current ∨ i = s.current + 1 ∧ t = ⟨xid, none, 0, 0⟩ := by
    intro i t ht
    by_cases hi : i < s.txns.length
    · rw [List.getElem?_append_left hi] at ht
      exact Or.inl ⟨ht, by omega⟩
    · rw [List.getElem?_append_right (by omega)] at ht
      obtain ⟨h₁, h₂⟩ := List.getElem?_eq_some_iff.mp ht
      rw [List.length_singleton] at h₁
      obtain rfl : i = s.txns.length := by omega
      exact Or.inr ⟨hlen, by simpa using h₂.symm⟩
  refine ⟨?_, ?_, ?_, ?_, ?_, ?_, by simp, ?_⟩
  · intro t ht
    rcases hcases 0 t ht with ⟨hold, -⟩ | ⟨h0, -⟩
    · exact h.first t hold
    · omega
  · intro i t hi ht
    rcases hcases i t ht with ⟨hold, -⟩ | ⟨-, rfl⟩
    · exact h.xid_ne i t hi hold
    · exact hxid
  · intro i t ht
    rcases hcases i t ht with ⟨hold, -⟩ | ⟨-, rfl⟩
    · exact h.lsn_ne i t hold
    · simp
  · intro i t hi ht
    simp only [current, List.length_append, List.length_singleton, Nat.add_sub_cancel] at hi
    rcases hcases i t ht with ⟨hold, hle⟩ | ⟨h₁, -⟩
    · rcases Nat.eq_or_lt_of_le hle with heq | hlt
      · rcases hclosed with ⟨h₁, h₂⟩ | ⟨t', ht', hc⟩
        · exact Or.inl ⟨heq.trans h₁, h₂⟩
        · rw [heq, ht'] at hold
          obtain rfl := Option.some.inj hold
          exact Or.inr hc
      · exact h.committed i t hlt hold
    · omega
  · intro hs
    simp only
    rw [List.getElem?_append_left hne]
    exact h.sentinel hs
  · refine Or.inl ⟨?_, ⟨xid, none, 0, 0⟩, ?_, rfl, rfl⟩
    · simp only [current, List.length_append, List.length_singleton, Nat.add_sub_cancel]
      omega
    · simp only [current, List.length_append, List.length_singleton, Nat.add_sub_cancel]
      exact List.getElem?_concat_length
  · rintro x hx
    obtain rfl : xid = x := by simpa using hx
    exact hxid

theorem onBeginTxn (h : s.History p) (hc : s.Coupled lo) (hctl : s.control = .ready) {xid : UInt32}
    {p' : PgPhase} (hp : p.next (.onBeginTxn xid) = some p') :
    (s.onBeginTxn xid).History p' := by
  have hphase := h.phase
  unfold System.onBeginTxn
  cases p with
  | start =>
    simp only [PgPhase.next, Option.some.injEq] at hp
    by_cases hx : xid = 0
    · -- the snapshot is the first transaction: both ring indices are still 0
      have hfirst : s.ctx.snapshotIsFirst := by
        have hlo : lo = 0 := by
          have := hc.holds.window.le
          have := hphase.1
          omega
        refine ⟨?_, ?_⟩
        · rw [hc.head_eq, hphase.1]
          rfl
        · rw [hc.holds.window.tail_eq, hlo]
          rfl
      rw [if_pos hx] at hp
      subst hp
      rw [if_pos hx, if_pos hfirst]
      have h0 := h.sentinel hphase.2
      refine ⟨h.first, h.xid_ne, h.lsn_ne, ?_, by simp, ⟨hphase.1, rfl, ?_⟩, ?_, by simp⟩
      · intro i t hi
        have : s.current = 0 := hphase.1
        change i < s.current at hi
        omega
      · exact ⟨⟨0, none, 0, 0⟩, by rw [← h0, ← hphase.1]; rfl, rfl, rfl⟩
      · intro x hx'
        exact absurd (hctl.symm.trans hx') (by simp)
    · rw [if_neg hx] at hp
      subst hp
      rw [if_neg hx]
      exact h.tryBegin (Or.inl hphase) hc.nonempty hx
  | between =>
    simp only [PgPhase.next] at hp
    split at hp
    · simp at hp
    next hx =>
    obtain rfl := Option.some.inj hp
    rw [if_neg hx]
    exact h.tryBegin hphase hc.nonempty hx
  | snapshot => simp [PgPhase.next] at hp
  | txn _ => simp [PgPhase.next] at hp

/-- A transaction whose rows or commit arrive is open: the thread is not waiting to begin one. -/
theorem open_of_ready (h : s.History p) (hctl : s.control = .ready) {xid : UInt32}
    (hp : p.openXid = some xid) : s.Open xid ∧ (s.snapshot = false → s.current ≠ 0) := by
  have hphase := h.phase
  cases p with
  | snapshot =>
    obtain rfl := Option.some.inj hp
    exact ⟨hphase.2.2, fun hs => absurd (hs.symm.trans hphase.2.1) (by simp)⟩
  | txn x =>
    obtain rfl := Option.some.inj hp
    rcases hphase with ⟨hpos, hopen⟩ | hw | hx
    · exact ⟨hopen, fun _ => Nat.ne_of_gt hpos⟩
    · rw [hctl] at hw
      simp at hw
    · simp [hasExited, hctl] at hx
  | start => simp [PgPhase.openXid] at hp
  | between => simp [PgPhase.openXid] at hp

/-- Proper nesting is what the test in `on_commit_txn` checks: it never fails. -/
theorem commitsCurrent (h : s.History p) (hc : s.Coupled lo) (hctl : s.control = .ready)
    {xid : UInt32} (hp : p.openXid = some xid) : s.ctx.commitsCurrent xid := by
  obtain ⟨⟨t, ht, hx, -⟩, -⟩ := h.open_of_ready hctl hp
  unfold ProducerContext.commitsCurrent
  rw [hc.head_eq, hc.holds.slots s.current hc.holds.window.le (Nat.le_refl _),
    slotAt_of_getElem? ht]
  exact hx.symm

theorem noteCommit (h : s.History p) (hctl : s.control = .ready) {xid : UInt32}
    (hp : p.openXid = some xid) {walPos : UInt64} (hw : walPos ≠ 0) :
    (s.noteCommit walPos).History .between := by
  obtain ⟨⟨t, ht, -, -⟩, hcur0⟩ := h.open_of_ready hctl hp
  have hcur : (s.noteCommit walPos).current = s.current := by
    simp [System.noteCommit, current]
  have hcases : ∀ (i : Nat) (t' : Txn), (s.noteCommit walPos).txns[i]? = some t' →
      s.txns[i]? = some t' ∧ i ≠ s.current ∨
        i = s.current ∧ t' = { t with commitLsn := some walPos } := by
    intro i t' ht'
    simp only [System.noteCommit] at ht'
    by_cases hi : i = s.current
    · rw [hi, List.getElem?_modify_eq, ht] at ht'
      exact Or.inr ⟨hi, by simpa using ht'.symm⟩
    · rw [List.getElem?_modify_ne _ s.txns (Ne.symm hi)] at ht'
      exact Or.inl ⟨ht', hi⟩
  refine ⟨?_, ?_, ?_, ?_, ?_, ?_, ?_, by simp⟩
  · intro t' ht'
    rcases hcases 0 t' ht' with ⟨hold, -⟩ | ⟨h0, rfl⟩
    · exact h.first t' hold
    · exact h.first t (h0 ▸ ht)
  · intro i t' hi ht'
    rcases hcases i t' ht' with ⟨hold, -⟩ | ⟨h₁, rfl⟩
    · exact h.xid_ne i t' hi hold
    · exact h.xid_ne i t hi (h₁ ▸ ht)
  · intro i t' ht'
    rcases hcases i t' ht' with ⟨hold, -⟩ | ⟨-, rfl⟩
    · exact h.lsn_ne i t' hold
    · simpa using hw
  · intro i t' hi ht'
    rw [hcur] at hi
    rcases hcases i t' ht' with ⟨hold, -⟩ | ⟨-, rfl⟩
    · exact h.committed i t' hi hold
    · exact Or.inr rfl
  · intro hs
    simp only [System.noteCommit]
    rw [List.getElem?_modify_ne _ s.txns (hcur0 hs)]
    exact h.sentinel hs
  · refine Or.inr ⟨{ t with commitLsn := some walPos }, ?_, rfl⟩
    rw [hcur]
    simp [System.noteCommit, ht]
  · intro x hx
    exact absurd (hctl.symm.trans hx) (by simp)

theorem sendKafkaMsg (h : s.History p) (hctl : s.control = .ready) {xid : UInt32}
    (hp : p.openXid = some xid) (walPos : UInt64) (relid : UInt32) (record : Option KafkaRecord) :
    (s.sendKafkaMsg walPos relid record).History p := by
  refine h.modify rfl (fun _ => ⟨rfl, rfl⟩) (h.open_of_ready hctl hp).2 rfl ?_ ?_
  · rintro x (hw | hx)
    · rw [hctl] at hw
      simp at hw
    · simp [hasExited, hctl] at hx
  · intro x hx
    cases record <;> simp [System.sendKafkaMsg] at hx

theorem noteDelivery (h : s.History p) (hc : s.Coupled lo) {i : Nat} {m : Message}
    (hm : s.queue[i]? = some m) : (s.noteDelivery i m).History p := by
  refine h.modify rfl (fun _ => ⟨rfl, rfl⟩) ?_ rfl (fun _ hb => hb) (fun _ hw => hw)
  -- without a snapshot nothing was ever sent for entry 0, so the message belongs elsewhere
  intro hs h0
  have hmem : m ∈ s.inFlight := List.mem_append_right _ (List.mem_of_getElem? hm)
  have hcount := hc.count 0 _ (h.sentinel hs)
  have hpos : 0 < s.inFlight.countP (·.txn = 0) :=
    List.countP_pos_iff.mpr ⟨m, hmem, by simpa using h0⟩
  simp only at hcount
  omega

end History

/-! ## Every run keeps the invariant -/

theorem history_step {e : Event} {p' : PgPhase} (hf : Fires s e s') (hc : s.Coupled lo)
    (h : s.History p) (hp : p.next e = some p') : s'.History p' := by
  cases hf with
  | beginTxn xid hctl => exact h.onBeginTxn hc hctl hp
  | commitTxn walPos xid hctl =>
    obtain ⟨rfl, hw, hopen⟩ := PgPhase.next_onCommitTxn hp
    unfold onCommitTxn
    rw [if_pos (h.commitsCurrent hc hctl hopen)]
    exact (h.noteCommit hctl hopen hw).maybeCheckpoint
  | send walPos relid record hctl =>
    obtain ⟨rfl, xid, hopen⟩ := PgPhase.next_sendKafkaMsg hp
    exact h.sendKafkaMsg hctl hopen walPos relid record
  | produce failed queueFull hctl hm =>
    obtain rfl : p = p' := by simpa [PgPhase.next] using hp
    refine h.of_eq ?_ ?_ ?_ ?_
    · cases failed <;> cases queueFull <;> rfl
    · cases failed <;> cases queueFull <;> rfl
    · rintro x (hw | hx)
      · rw [hctl] at hw
        simp at hw
      · simp [hasExited, hctl] at hx
    · intro x hx
      cases failed <;> cases queueFull <;> simp [rdKafkaProduce, exitNicely] at hx
  | @retryBegin xid hctl =>
    obtain rfl : p = p' := by simpa [PgPhase.next] using hp
    obtain ⟨rfl, hclosed⟩ := h.waiting xid hctl
    exact h.tryBegin hclosed hc.nonempty (h.xid_open xid rfl)
  | retryProduce hctl =>
    obtain rfl : p = p' := by simpa [PgPhase.next] using hp
    refine h.of_eq rfl rfl ?_ ?_
    · rintro x (hw | hx)
      · rw [hctl] at hw
        simp at hw
      · simp [hasExited, hctl] at hx
    · intro x hx
      cases hh : s.held <;> simp [hh] at hx
  | quit status _ =>
    obtain rfl : p = p' := by simpa [PgPhase.next] using hp
    exact h.exitNicely status
  | deliver failed hm =>
    obtain rfl : p = p' := by simpa [PgPhase.next] using hp
    cases failed with
    | true => exact h.exitNicely 1
    | false => exact (h.noteDelivery hc hm).maybeCheckpoint

theorem run_history {takingSnapshot : Bool} {es : List Event} (h : Run takingSnapshot es s)
    (hp : pgPhase es = some p) : s.History p := by
  refine run_rule (P := fun es s => ∀ p, pgPhase es = some p → s.History p) ?_ ?_ h p hp
  · intro p hp
    obtain rfl : PgPhase.start = p := by simpa [pgPhase] using hp
    exact history_init takingSnapshot
  · intro es t e u ht hist hstep p' hp'
    obtain ⟨p, hp, hnext⟩ := run_snoc_eq_some hp'
    obtain ⟨-, lo, hc⟩ := run_coupled ht
    exact history_step (fires_of_step hstep) hc (hist p hp) hnext

end System

end BottledWater.Kafka
