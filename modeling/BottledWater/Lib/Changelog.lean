/-
# BottledWater.Lib.Changelog — a log of keyed values that stands for a table.

An entry of the log is a key with a value, or with nothing, which removes the key.  `replay` folds a log
into a map: the last entry of each key counts.  `Represents` says that a map holds exactly the rows of a
table, each under its own key, and the three lemmas say which entry keeps that true when a row is added,
removed, or changed in place.
-/
import Mathlib.Data.List.Nodup
import Mathlib.Logic.Function.Basic

namespace BottledWater.Lib.Changelog

variable {κ ν ρ : Type*} [DecidableEq κ]

/-! ## Replaying a log -/

/-- **`replay log`** — the last value of each key. -/
def replay (log : List (κ × Option ν)) : κ → Option ν :=
  log.foldl (fun m e => Function.update m e.1 e.2) fun _ => none

theorem replay_snoc (log : List (κ × Option ν)) (k : κ) (v : Option ν) :
    replay (log ++ [(k, v)]) = Function.update (replay log) k v := by
  unfold replay
  rw [List.foldl_append]
  rfl

/-! ## The map of a table -/

/-- **`Represents key val m rows`** — `m` has the value of each row under the key of the row, and
nothing else. -/
def Represents (key : ρ → κ) (val : ρ → Option ν) (m : κ → Option ν) (rows : List ρ) : Prop :=
  ∀ k v, m k = some v ↔ ∃ r ∈ rows, key r = k ∧ val r = some v

variable {key : ρ → κ} {val : ρ → Option ν} {m : κ → Option ν} {rows : List ρ}

omit [DecidableEq κ] in
theorem represents_nil : Represents key val (fun _ => none) [] := by
  intro k v
  simp

/-- A row with a new key. -/
theorem Represents.insert (h : Represents key val m rows) {r : ρ} {v : ν} (hv : val r = some v)
    (hfresh : ∀ r' ∈ rows, key r' ≠ key r) :
    Represents key val (Function.update m (key r) (some v)) (rows ++ [r]) := by
  intro k' v'
  by_cases hk' : k' = key r
  · subst hk'
    rw [Function.update_self]
    constructor
    · rintro ⟨⟩
      exact ⟨r, by simp, rfl, hv⟩
    · rintro ⟨r', hr', hkey, hval⟩
      rcases List.mem_append.mp hr' with hr' | hr'
      · exact absurd hkey (hfresh r' hr')
      · rw [List.mem_singleton.mp hr', hv] at hval
        exact hval
  · rw [Function.update_of_ne hk', h k' v']
    constructor
    · rintro ⟨r', hr', hrest⟩
      exact ⟨r', List.mem_append_left _ hr', hrest⟩
    · rintro ⟨r', hr', hkey, hval⟩
      rcases List.mem_append.mp hr' with hr' | hr'
      · exact ⟨r', hr', hkey, hval⟩
      · rw [List.mem_singleton.mp hr'] at hkey
        exact absurd hkey.symm hk'

/-- A row goes, and it was the only one with its key. -/
theorem Represents.erase [DecidableEq ρ] (h : Represents key val m rows) (hnodup : rows.Nodup) {r : ρ}
    (honly : ∀ r' ∈ rows, key r' = key r → r' = r) :
    Represents key val (Function.update m (key r) none) (rows.erase r) := by
  intro k' v'
  by_cases hk' : k' = key r
  · subst hk'
    rw [Function.update_self]
    constructor
    · rintro ⟨⟩
    · rintro ⟨r', hr', hkey, -⟩
      obtain ⟨hne, hmem⟩ := hnodup.mem_erase_iff.mp hr'
      exact absurd (honly r' hmem hkey) hne
  · rw [Function.update_of_ne hk', h k' v']
    constructor
    · rintro ⟨r', hr', hkey, hval⟩
      have hne : r' ≠ r := by
        rintro rfl
        exact hk' hkey.symm
      exact ⟨r', hnodup.mem_erase_iff.mpr ⟨hne, hr'⟩, hkey, hval⟩
    · rintro ⟨r', hr', hrest⟩
      exact ⟨r', List.mem_of_mem_erase hr', hrest⟩

/-- A row is replaced by one with the same key. -/
theorem Represents.replace [DecidableEq ρ] (h : Represents key val m rows) (hnodup : rows.Nodup)
    {old r : ρ} {v : ν} (hold : key old = key r) (hv : val r = some v)
    (honly : ∀ r' ∈ rows, key r' = key old → r' = old) :
    Represents key val (Function.update m (key r) (some v)) (rows.erase old ++ [r]) := by
  have hgone := h.erase hnodup honly
  have hfresh : ∀ r' ∈ rows.erase old, key r' ≠ key r := by
    intro r' hr' hkey
    obtain ⟨hne, hmem⟩ := hnodup.mem_erase_iff.mp hr'
    exact hne (honly r' hmem (hkey.trans hold.symm))
  have hnew := hgone.insert hv hfresh
  rwa [hold, Function.update_idem] at hnew

end BottledWater.Lib.Changelog
