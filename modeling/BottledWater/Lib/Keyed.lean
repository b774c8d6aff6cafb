/-
# BottledWater.Lib.Keyed — a list searched by key, as a map.

Entries stand in the order in which their keys first came; a search takes the first entry with the key,
and writing under a key replaces that entry or appends a new one.  Seen through `find`, the list is a
map and writing is a point update (`find_put`).
-/
import Mathlib.Data.List.Nodup

namespace BottledWater.Lib.Keyed

variable {α κ : Type*} [DecidableEq κ] (key : α → κ)

/-- The first entry with key `k`. -/
def find (k : κ) : List α → Option α
  | [] => none
  | a :: as => if key a = k then some a else find k as

/-- Write `a` over the first entry with key `k`, or append it. -/
def put (k : κ) (a : α) : List α → List α
  | [] => [a]
  | b :: bs => if key b = k then a :: bs else b :: put k a bs

variable {key}

theorem key_of_find {k : κ} {a : α} : ∀ {as : List α}, find key k as = some a → key a = k
  | [], h => nomatch h
  | b :: bs, h => by
    unfold find at h
    split at h
    · case isTrue hb =>
      cases h
      exact hb
    · exact key_of_find h

/-- **Writing is a point update of the map.** -/
theorem find_put {k k' : κ} {a : α} (ha : key a = k) (as : List α) :
    find key k' (put key k a as) = if k' = k then some a else find key k' as := by
  induction as with
  | nil =>
    simp only [put, find, ha, eq_comm]
  | cons b bs ih =>
    unfold put
    by_cases hb : key b = k
    · rw [if_pos hb, find, find, ha, hb]
      by_cases hk : k' = k
      · rw [if_pos hk.symm, if_pos hk]
      · rw [if_neg (Ne.symm hk), if_neg hk, if_neg (Ne.symm hk)]
    · rw [if_neg hb, find, ih, find]
      by_cases hbk : key b = k'
      · rw [if_pos hbk, if_pos hbk, if_neg (fun h => hb (hbk.trans h))]
      · rw [if_neg hbk, if_neg hbk]

/-- Of two writes under one key the second stays. -/
theorem put_put {k : κ} {a b : α} (hb : key b = k) (as : List α) :
    put key k a (put key k b as) = put key k a as := by
  induction as with
  | nil => simp [put, hb]
  | cons c cs ih =>
    by_cases hc : key c = k
    · simp only [put, if_pos hc, if_pos hb]
    · simp only [put, if_neg hc, ih]

/-- Writing what is there changes nothing. -/
theorem put_of_find {k : κ} {a : α} :
    ∀ {as : List α}, find key k as = some a → put key k a as = as
  | [], h => nomatch h
  | b :: bs, h => by
    by_cases hb : key b = k
    · rw [find, if_pos hb, Option.some.injEq] at h
      rw [put, if_pos hb, h]
    · rw [find, if_neg hb] at h
      rw [put, if_neg hb, put_of_find h]

/-- One entry is exchanged, and the others stay. -/
theorem exists_perm_put (key : α → κ) (k : κ) (as : List α) :
    ∃ rest, as.Perm ((find key k as).toList ++ rest) ∧
      ∀ a, (put key k a as).Perm (a :: rest) := by
  induction as with
  | nil => exact ⟨[], List.Perm.nil, fun a => List.Perm.refl _⟩
  | cons b bs ih =>
    by_cases hb : key b = k
    · exact ⟨bs, by simp [find, hb], fun a => by simp [put, hb]⟩
    · obtain ⟨rest, hbs, hput⟩ := ih
      refine ⟨b :: rest, ?_, ?_⟩
      · rw [find, if_neg hb]
        exact (hbs.cons b).trans List.perm_middle.symm
      · intro a
        rw [put, if_neg hb]
        exact ((hput a).cons b).trans (List.Perm.swap a b rest)

/-- The search by position. -/
theorem find_eq_findIdx? (k : κ) (as : List α) :
    find key k as = (as.findIdx? (key · = k)).bind (as[·]?) := by
  induction as with
  | nil => rfl
  | cons a as ih =>
    rw [find, List.findIdx?_cons]
    by_cases ha : key a = k
    · simp [ha]
    · rw [if_neg ha, ih]
      simp only [ha, decide_false, Bool.false_eq_true, if_false, Option.bind_map]
      rfl

/-- Writing by position. -/
theorem put_eq_findIdx? (k : κ) (a : α) (as : List α) :
    put key k a as =
      match as.findIdx? (key · = k) with
      | some i => as.set i a
      | none => as ++ [a] := by
  induction as with
  | nil => rfl
  | cons b bs ih =>
    rw [put, List.findIdx?_cons]
    by_cases hb : key b = k
    · simp [hb]
    · rw [if_neg hb, ih]
      simp only [hb, decide_false, Bool.false_eq_true, if_false]
      cases bs.findIdx? (key · = k) with
      | none => rfl
      | some i => rfl

/-- Entries may carry more than what is looked at. -/
theorem map_find {β : Type*} (f : β → α) (k : κ) (bs : List β) :
    (find (fun b => key (f b)) k bs).map f = find key k (bs.map f) := by
  induction bs with
  | nil => rfl
  | cons b bs ih =>
    rw [find, List.map_cons, find]
    split
    · rfl
    · exact ih

theorem map_put_of_map {β : Type*} (f : β → α) (k : κ) (b : β) (bs : List β) :
    (put (fun b => key (f b)) k b bs).map f = put key k (f b) (bs.map f) := by
  induction bs with
  | nil => rfl
  | cons c cs ih =>
    rw [put, List.map_cons, put]
    split
    · rfl
    · rw [List.map_cons, ih]

/-- The entries under other keys stay, in their order. -/
theorem filter_put {k : κ} {a : α} (ha : key a = k) (as : List α) :
    (put key k a as).filter (key · ≠ k) = as.filter (key · ≠ k) := by
  induction as with
  | nil => simp [put, ha]
  | cons b bs ih =>
    by_cases hb : key b = k
    · simp [put, ha, hb]
    · simp only [put, if_neg hb, List.filter_cons, ih]

theorem map_put {k : κ} {a : α} (ha : key a = k) (as : List α) :
    (put key k a as).map key = if k ∈ as.map key then as.map key else as.map key ++ [k] := by
  induction as with
  | nil => simp [put, ha]
  | cons b bs ih =>
    by_cases hb : key b = k
    · simp [put, ha, hb]
    · have hk : k ≠ key b := Ne.symm hb
      simp only [put, if_neg hb, List.map_cons, ih, List.mem_cons, hk, false_or]
      split <;> rfl

/-- Keys stay different. -/
theorem nodup_put {k : κ} {a : α} (ha : key a = k) {as : List α} (h : (as.map key).Nodup) :
    ((put key k a as).map key).Nodup := by
  rw [map_put ha]
  split
  · exact h
  · case isFalse hk =>
    exact List.nodup_append_comm.mp (List.nodup_cons.mpr ⟨hk, h⟩)

end BottledWater.Lib.Keyed
