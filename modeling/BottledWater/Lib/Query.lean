/-
# BottledWater.Lib.Query — what of SQL the queries need.

`LIKE` patterns and left outer joins, over lists of rows.
-/
import Mathlib.Data.List.Infix
import Mathlib.Data.List.Nodup

namespace BottledWater.Lib.Query

/-! ## `LIKE` -/

/-- What one place of a pattern stands for. -/
inductive Item
  | any
  | one
  | char (c : Char)
  deriving DecidableEq, Repr

/-- A backslash takes away the meaning of the character behind it.  (Postgres refuses one at the end of a
pattern.) -/
def items : List Char → List Item
  | [] => []
  | '%' :: pattern => .any :: items pattern
  | '_' :: pattern => .one :: items pattern
  | '\\' :: c :: pattern => .char c :: items pattern
  | c :: pattern => .char c :: items pattern

/-- The whole text is what the items stand for. -/
def matchItems : List Item → List Char → Bool
  | [], text => text.isEmpty
  | .any :: pattern, text => text.tails.any fun rest => matchItems pattern rest
  | .one :: _, [] => false
  | .one :: pattern, _ :: rest => matchItems pattern rest
  | .char _ :: _, [] => false
  | .char c :: pattern, d :: rest => c == d && matchItems pattern rest

/-- **`like pattern text`**: `text LIKE pattern`. -/
def like (pattern text : String) : Bool := matchItems (items pattern.toList) text.toList

theorem matchItems_any (text : List Char) : matchItems [.any] text = true := by
  rw [matchItems, List.any_eq_true]
  exact ⟨[], (List.mem_tails _ _).mpr List.nil_suffix, rfl⟩

theorem matchItems_char {c : Char} {pattern : List Item} {text : List Char} :
    matchItems (.char c :: pattern) text = true ↔ ∃ rest, text = c :: rest ∧ matchItems pattern rest := by
  cases text with
  | nil => simp [matchItems]
  | cons d rest =>
    rw [matchItems, Bool.and_eq_true, beq_iff_eq]
    constructor
    · rintro ⟨rfl, hrest⟩
      exact ⟨rest, rfl, hrest⟩
    · rintro ⟨_, heq, hrest⟩
      obtain ⟨rfl, rfl⟩ := List.cons.inj heq
      exact ⟨rfl, hrest⟩

theorem matchItems_one {pattern : List Item} {text : List Char} :
    matchItems (.one :: pattern) text = true ↔ ∃ c rest, text = c :: rest ∧ matchItems pattern rest := by
  cases text with
  | nil => simp [matchItems]
  | cons d rest => simp [matchItems]

/-! ## Joins -/

variable {α : Type}

/-- **`leftJoin on rows`** — the rows with which one row of the left table is joined: those with `on`, or a
row of nulls. -/
def leftJoin (on : α → Bool) (rows : List α) : List (Option α) :=
  match rows.filter on with
  | [] => [none]
  | matching => matching.map some

section AtMostOne

variable {p : α → Bool} {rows : List α}

theorem filter_eq_singleton (h : rows.countP p ≤ 1) {row : α} (hrow : row ∈ rows) (hp : p row) :
    rows.filter p = [row] := by
  have hmem : row ∈ rows.filter p := List.mem_filter.mpr ⟨hrow, hp⟩
  rw [List.countP_eq_length_filter] at h
  obtain ⟨found, hfound⟩ := List.length_eq_one_iff.mp (le_antisymm h (List.length_pos_of_mem hmem))
  rw [hfound, List.mem_singleton] at hmem
  rw [hfound, hmem]

theorem find?_eq_some_of_mem (h : rows.countP p ≤ 1) {row : α} (hrow : row ∈ rows) (hp : p row) :
    rows.find? p = some row := by
  rw [← List.head?_filter, filter_eq_singleton h hrow hp]
  rfl

/-- Where at most one row is looked for, the order of the rows does not matter. -/
theorem find?_eq_of_perm {rows' : List α} (hperm : rows.Perm rows') (h : rows.countP p ≤ 1) :
    rows.find? p = rows'.find? p := by
  cases hfound : rows.find? p with
  | none =>
    rw [List.find?_eq_none] at hfound
    exact (List.find?_eq_none.mpr fun row hrow => hfound row (hperm.mem_iff.mpr hrow)).symm
  | some row =>
    have hrow := hperm.mem_iff.mp (List.mem_of_find?_eq_some hfound)
    rw [hperm.countP_eq] at h
    exact (find?_eq_some_of_mem h hrow (List.find?_some hfound)).symm

end AtMostOne

/-- If there is at most one row to join with, the row of the left table comes once. -/
theorem leftJoin_eq_find? {on : α → Bool} {rows : List α} (h : rows.countP on ≤ 1) :
    leftJoin on rows = [rows.find? on] := by
  rw [List.countP_eq_length_filter] at h
  rw [leftJoin, ← List.head?_filter]
  cases hrows : rows.filter on with
  | nil => rfl
  | cons row rest =>
    rw [hrows] at h
    obtain rfl : rest = [] := List.length_eq_zero_iff.mp (by simpa using h)
    rfl

/-! ## Keys -/

section Keys

variable {κ : Type} [DecidableEq κ] {key : α → κ} {rows : List α}

theorem countP_key_le_one (h : (rows.map key).Nodup) (k : κ) :
    rows.countP (fun row => decide (key row = k)) ≤ 1 := by
  have hcount := List.nodup_iff_count_le_one.mp h k
  rwa [List.count_eq_countP, List.countP_map] at hcount

/-- A join over a key finds the one row that has it. -/
theorem filter_key_eq (h : (rows.map key).Nodup) {row : α} (hrow : row ∈ rows) :
    rows.filter (fun other => decide (key other = key row)) = [row] :=
  filter_eq_singleton (countP_key_le_one h _) hrow (decide_eq_true rfl)

omit [DecidableEq κ] in
/-- A query that makes at most one row of each row it reads, with the same key, keeps keys distinct. -/
theorem nodup_flatMap_key {β : Type} {key' : β → κ} {f : α → List β} (h : (rows.map key).Nodup)
    (hone : ∀ row ∈ rows, f row = [] ∨ ∃ out, f row = [out] ∧ key' out = key row) :
    ((rows.flatMap f).map key').Nodup := by
  refine List.Nodup.sublist ?_ h
  clear h
  induction rows with
  | nil => exact List.Sublist.slnil
  | cons row rest ih =>
    have hrest := ih fun other hother => hone other (List.mem_cons_of_mem _ hother)
    rw [List.flatMap_cons, List.map_append, List.map_cons]
    obtain hrow | ⟨out, hrow, hkey⟩ := hone row List.mem_cons_self
    · rw [hrow]
      exact hrest.cons _
    · rw [hrow, List.map_singleton, hkey]
      exact hrest.cons_cons _

end Keys

end BottledWater.Lib.Query
