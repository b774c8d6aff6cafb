/-
# BottledWater.Lib.Redelivery — a log that is written in pieces, some of them twice.

A producer appends the entries of a history to a log.  It may be stopped at any point and started again
from an earlier one, so that entries stand in the log more than once, and it may append entries of
different keys out of order.  What a reader that keeps the last value of each key ends up with is not
affected: `replay_completed_store` for one entry that overtakes others, `replay_completed_restart` for a
restart.  Both are about a log followed by what is still to come, which is the form in which an invariant
can carry them; the log alone may show an old value again after a restart.
-/
import BottledWater.Lib.Changelog
import Mathlib.Data.List.Induction

namespace BottledWater.Lib.Changelog

variable {κ ν π : Type*} [DecidableEq κ]

/-! ## What decides the value of a key -/

/-- What is appended acts on the map so far. -/
theorem replay_append_congr {log log' : List (κ × Option ν)} (h : replay log = replay log')
    (tail : List (κ × Option ν)) : replay (log ++ tail) = replay (log' ++ tail) := by
  unfold replay at h ⊢
  rw [List.foldl_append, List.foldl_append, h]

/-- Only the entries of a key count for it. -/
theorem replay_apply_eq_filter (log : List (κ × Option ν)) (k : κ) :
    replay log k = replay (log.filter (·.1 = k)) k := by
  induction log using List.reverseRecOn with
  | nil => rfl
  | append_singleton log e ih =>
    obtain ⟨k', v⟩ := e
    rw [replay_snoc, List.filter_append]
    by_cases hk : k' = k
    · subst hk
      simp [replay_snoc]
    · simp [hk, Function.update_of_ne (Ne.symm hk), ih]

theorem replay_apply_congr {log log' : List (κ × Option ν)} {k : κ}
    (h : log.filter (·.1 = k) = log'.filter (·.1 = k)) : replay log k = replay log' k := by
  rw [replay_apply_eq_filter log, replay_apply_eq_filter log', h]

/-- Entries of other keys at the end do not count. -/
theorem replay_append_of_not_mem {log tail : List (κ × Option ν)} {k : κ} (h : ∀ e ∈ tail, e.1 ≠ k) :
    replay (log ++ tail) k = replay log k := by
  apply replay_apply_congr
  have hnone : tail.filter (·.1 = k) = [] := by simpa using h
  rw [List.filter_append, hnone, List.append_nil]

/-- If the tail has an entry of the key, what stands before the tail does not count. -/
theorem replay_append_of_mem {tail : List (κ × Option ν)} {k : κ} (h : ∃ e ∈ tail, e.1 = k)
    (log log' : List (κ × Option ν)) : replay (log ++ tail) k = replay (log' ++ tail) k := by
  induction tail using List.reverseRecOn with
  | nil =>
    obtain ⟨e, he, -⟩ := h
    cases he
  | append_singleton tail e ih =>
    obtain ⟨k', v⟩ := e
    rw [← List.append_assoc, ← List.append_assoc, replay_snoc, replay_snoc]
    by_cases hk : k = k'
    · subst hk
      rw [Function.update_self, Function.update_self]
    · rw [Function.update_of_ne hk, Function.update_of_ne hk]
      apply ih
      obtain ⟨e, he, hek⟩ := h
      rcases List.mem_append.mp he with he | he
      · exact ⟨e, he, hek⟩
      · rw [List.mem_singleton.mp he] at hek
        exact absurd hek.symm hk

/-! ## Overtaking, restarting -/

/-- **An entry may be stored before entries of other keys.** -/
theorem replay_completed_store {log before after : List (κ × Option ν)} {e : κ × Option ν}
    (h : ∀ e' ∈ before, e'.1 ≠ e.1) :
    replay (log ++ [e] ++ (before ++ after)) = replay (log ++ (before ++ e :: after)) := by
  funext k
  apply replay_apply_congr
  simp only [List.filter_append, List.filter_cons, List.filter_nil, List.append_assoc]
  by_cases hk : e.1 = k
  · have hnone : before.filter (·.1 = k) = [] := by
      simpa [← hk] using h
    simp [hk, hnone]
  · simp [hk]

/-- **A restart repeats what may already be there.**  The log and what is still to come make up the
history; then so do the log and any final part of the history in which everything still to come
occurs. -/
theorem replay_completed_restart {log rest tail history : List (κ × Option ν)}
    (h : replay (log ++ rest) = replay history) (htail : tail <:+ history) (hrest : ∀ e ∈ rest, e ∈ tail) :
    replay (log ++ tail) = replay history := by
  obtain ⟨front, rfl⟩ := htail
  funext k
  by_cases hk : ∃ e ∈ tail, e.1 = k
  · exact replay_append_of_mem hk log front
  · have hnone : ∀ e ∈ tail, e.1 ≠ k := fun e he hek => hk ⟨e, he, hek⟩
    rw [replay_append_of_not_mem hnone, ← h]
    exact (replay_append_of_not_mem fun e he => hnone e (hrest e he)).symm

/-! ## Partitions -/

/-- **`SamePartitions part log log'`** — in each partition, the two logs have the same entries in the same
order. -/
def SamePartitions [DecidableEq π] (part : κ → π) (log log' : List (κ × Option ν)) : Prop :=
  ∀ p, log.filter (part ·.1 = p) = log'.filter (part ·.1 = p)

/-- **The order between partitions does not count**, since all entries of a key are in one of them. -/
theorem replay_append_of_samePartitions [DecidableEq π] {part : κ → π} {log log' : List (κ × Option ν)}
    (h : SamePartitions part log log') (tail : List (κ × Option ν)) :
    replay (log ++ tail) = replay (log' ++ tail) := by
  funext k
  apply replay_apply_congr
  have hkey (l : List (κ × Option ν)) :
      l.filter (·.1 = k) = (l.filter (part ·.1 = part k)).filter (·.1 = k) := by
    rw [List.filter_filter]
    apply List.filter_congr
    intro e _
    by_cases hk : e.1 = k <;> simp [hk]
  rw [List.filter_append, List.filter_append, hkey log, hkey log', h (part k)]

/-! ## One topic of a log, and its keys under other names -/

/-- **`slice a log`** — the entries under `a`, in a log whose keys have two parts. -/
def slice {ι : Type*} [DecidableEq ι] (a : ι) (log : List ((ι × κ) × Option ν)) : List (κ × Option ν) :=
  (log.filter (·.1.1 = a)).map fun e => (e.1.2, e.2)

theorem replay_slice {ι : Type*} [DecidableEq ι] (log : List ((ι × κ) × Option ν)) (a : ι) (k : κ) :
    replay (slice a log) k = replay log (a, k) := by
  induction log using List.reverseRecOn with
  | nil => rfl
  | append_singleton log e ih =>
    obtain ⟨⟨a', k'⟩, v⟩ := e
    have hslice : slice a (log ++ [((a', k'), v)]) = slice a log ++ slice a [((a', k'), v)] := by
      simp [slice]
    rw [hslice, replay_snoc]
    by_cases ha : a' = a
    · subst ha
      rw [show slice a' [((a', k'), v)] = [(k', v)] by simp [slice], replay_snoc]
      by_cases hk : k = k'
      · subst hk
        simp
      · rw [Function.update_of_ne hk, Function.update_of_ne (by simp [hk]), ih]
    · rw [show slice a [((a', k'), v)] = [] by simp [slice, ha], List.append_nil,
        Function.update_of_ne (by simp [Ne.symm ha]), ih]

variable {κ' ν' ρ : Type*} [DecidableEq κ']

/-- The map of a log whose entries are all renamed. -/
theorem replay_map {f : κ → κ'} (hf : Function.Injective f) (g : ν → ν') (log : List (κ × Option ν)) (k : κ) :
    replay (log.map fun e => (f e.1, e.2.map g)) (f k) = (replay log k).map g := by
  induction log using List.reverseRecOn with
  | nil => rfl
  | append_singleton log e ih =>
    obtain ⟨k', v⟩ := e
    rw [List.map_append, List.map_singleton, replay_snoc, replay_snoc]
    by_cases hk : k = k'
    · subst hk
      rw [Function.update_self, Function.update_self]
    · rw [Function.update_of_ne (hf.ne hk), Function.update_of_ne hk, ih]

omit [DecidableEq κ] in
theorem replay_map_of_ne {f : κ → κ'} (g : ν → ν') (log : List (κ × Option ν)) {k' : κ'}
    (h : ∀ k, f k ≠ k') : replay (log.map fun e => (f e.1, e.2.map g)) k' = none := by
  have hnone : ∀ e ∈ log.map fun e => (f e.1, e.2.map g), e.1 ≠ k' := by
    rintro _ he
    obtain ⟨e, -, rfl⟩ := List.mem_map.mp he
    exact h e.1
  rw [← List.nil_append (log.map _)]
  exact replay_append_of_not_mem hnone

/-- **A log under other names represents the same rows**, under the other names. -/
theorem Represents.map {key : ρ → κ} {val : ρ → Option ν} {log : List (κ × Option ν)} {rows : List ρ}
    (h : Represents key val (replay log) rows) {f : κ → κ'} (hf : Function.Injective f) {g : ν → ν'} :
    Represents (f ∘ key) (fun r => (val r).map g) (replay (log.map fun e => (f e.1, e.2.map g))) rows := by
  intro k' v'
  by_cases hk : ∃ k, f k = k'
  · obtain ⟨k, rfl⟩ := hk
    rw [replay_map hf]
    constructor
    · intro hv
      obtain ⟨v, hreplay, rfl⟩ := Option.map_eq_some_iff.mp hv
      obtain ⟨r, hr, rfl, hval⟩ := (h k v).mp hreplay
      exact ⟨r, hr, rfl, congrArg (Option.map g) hval⟩
    · rintro ⟨r, hr, hkey, hmapped⟩
      obtain ⟨v, hval, rfl⟩ := Option.map_eq_some_iff.mp hmapped
      rw [(h k v).mpr ⟨r, hr, hf hkey, hval⟩]
      rfl
  · rw [replay_map_of_ne g log fun k hfk => hk ⟨k, hfk⟩]
    constructor
    · intro hv
      cases hv
    · rintro ⟨r, -, hkey, -⟩
      exact absurd ⟨key r, hkey⟩ hk

/-! ## Subsequences of two parts -/

omit [DecidableEq κ] in
/-- A first part that a subsequence does not touch can be left out. -/
theorem sublist_right_of_append {l front back : List κ} (h : l.Sublist (front ++ back))
    (hfront : ∀ x ∈ l, x ∉ front) : l.Sublist back := by
  obtain ⟨l₁, l₂, rfl, h₁, h₂⟩ := List.sublist_append_iff.mp h
  obtain rfl : l₁ = [] := by
    rw [List.eq_nil_iff_forall_not_mem]
    exact fun x hx => hfront x (List.mem_append_left _ hx) (h₁.subset hx)
  exact h₂

omit [DecidableEq κ] in
/-- If the second part is no longer than that of the subsequence, the first parts are in order too. -/
theorem sublist_left_of_append {front back log rest : List κ}
    (h : (front ++ back).Sublist (log ++ rest)) (hrest : rest.length ≤ back.length) :
    front.Sublist log := by
  obtain ⟨l₁, l₂, heq, h₁, h₂⟩ := List.sublist_append_iff.mp h
  have hlength := congrArg List.length heq
  rw [List.length_append, List.length_append] at hlength
  have hfront : front <+: l₁ := by
    apply List.prefix_of_prefix_length_le (List.prefix_append front back)
    · rw [heq]
      exact List.prefix_append _ _
    · have := h₂.length_le
      omega
  exact hfront.sublist.trans h₁

end BottledWater.Lib.Changelog
