/-
# BottledWater.Ext.KeyPosition — where `tuple_to_avro_key` looks for a column.

An entry of the column list of an index is an attribute number of the table, 0 for an expression, or a
negative number for a system column.  A tuple may or may not have the dropped columns of the table, so
`tuple_to_avro_key` counts its way from the table to the tuple, and then makes one check: that there is a
live column where the count ended.  The count does not know what it was asked for.  An entry below 1 makes
no round and ends at the first column; without the dropped columns, the entry of a dropped column ends at
the next live one; and far past the end the count itself reads out of bounds.

`tuplePosition_eq` says where the count ends, for both formats of a tuple, and `entryOutcome` what the code
does for an entry.
-/
import BottledWater.Ext.Server
import Mathlib.Data.List.DropRight

namespace BottledWater.Ext

open BottledWater.Lib.Avro BottledWater.Protocol

/-! ## §1 — Live columns -/

/-- The number of live columns before position `n`. -/
def liveBefore (attrs : List Attribute) (n : Nat) : Nat :=
  (attrs.take n).countP fun attr => !attr.attisdropped

theorem liveBefore_succ {attrs : List Attribute} {n : Nat} {attr : Attribute}
    (h : attrs[n]? = some attr) :
    liveBefore attrs (n + 1) = liveBefore attrs n + if attr.attisdropped then 0 else 1 := by
  unfold liveBefore
  rw [List.take_add_one, h, List.countP_append]
  cases hdropped : attr.attisdropped <;> simp [hdropped]

theorem liveBefore_mono {attrs : List Attribute} {n m : Nat} (h : n ≤ m) :
    liveBefore attrs n ≤ liveBefore attrs m :=
  (List.take_sublist_take_left h).countP_le

theorem liveBefore_le (attrs : List Attribute) (n : Nat) :
    liveBefore attrs n ≤ (attrs.filter fun attr => !attr.attisdropped).length := by
  rw [← List.countP_eq_length_filter]
  exact (List.take_sublist _ _).countP_le

theorem liveBefore_lt {attrs : List Attribute} {n : Nat} {attr : Attribute}
    (h : attrs[n]? = some attr) (hlive : attr.attisdropped = false) :
    liveBefore attrs n < (attrs.filter fun attr => !attr.attisdropped).length := by
  have hsucc := liveBefore_succ h
  have hle := liveBefore_le attrs (n + 1)
  rw [hlive] at hsucc
  simp only [Bool.false_eq_true, if_false] at hsucc
  omega

/-! ## §2 — Where the count ends -/

/-- The format of a tuple: "which may or may not include dropped columns". -/
inductive TupleFormat
  | whole
  | withoutDropped
  deriving DecidableEq, Repr

namespace TupleFormat

/-- The columns of a tuple of a table with these columns. -/
def attrs (format : TupleFormat) (relAttrs : List Attribute) : List Attribute :=
  match format with
  | whole => relAttrs
  | withoutDropped => relAttrs.filter fun attr => !attr.attisdropped

/-- How many columns of the table the count can pass: all of them, or those up to the last live one. -/
def extent (format : TupleFormat) (relAttrs : List Attribute) : Nat :=
  match format with
  | whole => relAttrs.length
  | withoutDropped => (relAttrs.rdropWhile (·.attisdropped)).length

/-- The position in the tuple after the first `n` columns of the table. -/
def place (format : TupleFormat) (relAttrs : List Attribute) (n : Nat) : Nat :=
  match format with
  | whole => n
  | withoutDropped => liveBefore relAttrs n

end TupleFormat

section

variable {relAttrs : List Attribute} {format : TupleFormat} {n : Nat}

/-- Before the last live column there is one to come. -/
theorem liveBefore_lt_of_lt_extent (h : n < TupleFormat.withoutDropped.extent relAttrs) :
    liveBefore relAttrs n < (relAttrs.filter fun attr => !attr.attisdropped).length := by
  have happend := relAttrs.rdropWhile_append_rtakeWhile (p := (·.attisdropped))
  simp only [TupleFormat.extent] at h
  set kept := relAttrs.rdropWhile (·.attisdropped)
  have hne : kept ≠ [] := List.ne_nil_of_length_pos (by omega)
  have hlast : relAttrs[kept.length - 1]? = some (kept.getLast hne) := by
    rw [← happend, List.getElem?_append_left (by omega), ← List.getLast?_eq_getElem?,
      List.getLast?_eq_some_getLast hne]
  have hlive : (kept.getLast hne).attisdropped = false := by
    simpa using List.rdropWhile_last_not (·.attisdropped) relAttrs hne
  exact Nat.lt_of_le_of_lt (liveBefore_mono (by omega)) (liveBefore_lt hlast hlive)

/-- At the last live column all are counted. -/
theorem liveBefore_extent : liveBefore relAttrs (TupleFormat.withoutDropped.extent relAttrs) =
    (relAttrs.filter fun attr => !attr.attisdropped).length := by
  have happend := relAttrs.rdropWhile_append_rtakeWhile (p := (·.attisdropped))
  unfold liveBefore TupleFormat.extent
  rw [← List.countP_eq_length_filter]
  set kept := relAttrs.rdropWhile (·.attisdropped)
  set trailing := relAttrs.rtakeWhile (·.attisdropped)
  have hnone : trailing.countP (fun attr => !attr.attisdropped) = 0 := by
    rw [List.countP_eq_zero]
    intro attr hmem
    simpa using List.mem_rtakeWhile_imp hmem
  rw [← happend, List.take_left, List.countP_append, hnone, Nat.add_zero]

/-- A live column is before the end. -/
theorem lt_extent_of_live {attr : Attribute} (hattr : relAttrs[n]? = some attr)
    (hlive : attr.attisdropped = false) : n < format.extent relAttrs := by
  cases format with
  | whole => exact (List.getElem?_eq_some_iff.mp hattr).1
  | withoutDropped =>
    by_contra hge
    have hall : liveBefore relAttrs _ ≤ liveBefore relAttrs n := liveBefore_mono (Nat.le_of_not_lt hge)
    rw [liveBefore_extent] at hall
    exact absurd (liveBefore_lt hattr hlive) (Nat.not_lt_of_le hall)

/-- One round: table and tuple have a column there, and the position moves on unless only the column of the
table is dropped. -/
theorem exists_round (h : n < format.extent relAttrs) :
    ∃ relAttr tupAttr, relAttrs[n]? = some relAttr ∧
      (format.attrs relAttrs)[format.place relAttrs n]? = some tupAttr ∧
      (tupAttr.attisdropped ↔ format = .whole ∧ relAttr.attisdropped) ∧
      format.place relAttrs (n + 1) = if relAttr.attisdropped ∧ ¬ tupAttr.attisdropped
        then format.place relAttrs n else format.place relAttrs n + 1 := by
  cases format with
  | whole =>
    have hrel : relAttrs[n]? = some relAttrs[n] := List.getElem?_eq_getElem h
    refine ⟨relAttrs[n], relAttrs[n], hrel, hrel, by simp, ?_⟩
    rw [if_neg (by simp)]
    rfl
  | withoutDropped =>
    -- there is a live column to come, so the tuple has a column here, and it is live
    have hlt := liveBefore_lt_of_lt_extent h
    have hrel : n < relAttrs.length := by
      by_contra hge
      rw [liveBefore, List.take_of_length_le (by omega), List.countP_eq_length_filter] at hlt
      exact Nat.lt_irrefl _ hlt
    have hkept := (List.mem_filter.mp (List.getElem_mem hlt)).2
    simp only [Bool.not_eq_true'] at hkept
    refine ⟨relAttrs[n], _, List.getElem?_eq_getElem hrel, List.getElem?_eq_getElem hlt, by simp [hkept], ?_⟩
    simp only [TupleFormat.place, liveBefore_succ (List.getElem?_eq_getElem hrel), hkept]
    cases relAttrs[n].attisdropped <;> rfl

/-- At the end there is no column in the tuple, and none in the table or a dropped one. -/
theorem at_extent (format : TupleFormat) (relAttrs : List Attribute) :
    (format.attrs relAttrs)[format.place relAttrs (format.extent relAttrs)]? = none ∧
      ∀ attr, relAttrs[format.extent relAttrs]? = some attr → attr.attisdropped := by
  cases format with
  | whole =>
    have hnone : relAttrs[relAttrs.length]? = none := List.getElem?_eq_none (Nat.le_refl _)
    refine ⟨hnone, fun attr hattr => ?_⟩
    cases hnone.symm.trans hattr
  | withoutDropped =>
    refine ⟨List.getElem?_eq_none (Nat.le_of_eq liveBefore_extent.symm), fun attr hattr => ?_⟩
    have hsucc := liveBefore_succ hattr
    have hle := liveBefore_le relAttrs (TupleFormat.withoutDropped.extent relAttrs + 1)
    rw [hsucc, liveBefore_extent] at hle
    by_contra hlive
    rw [if_neg hlive] at hle
    omega

/-- **Where the count ends**: at the place of the column, unless it goes out of bounds. -/
theorem tuplePosition_eq (format : TupleFormat) (relAttrs : List Attribute) (rounds : Nat) :
    ∀ {i : Nat}, i ≤ format.extent relAttrs →
      tuplePosition relAttrs (format.attrs relAttrs) rounds i (format.place relAttrs i) =
        if i + rounds ≤ format.extent relAttrs then .ok (format.place relAttrs (i + rounds))
        else .error .undefined := by
  -- the position in the tuple is always the place of the column reached in the table
  induction rounds with
  | zero =>
    intro i hi
    rw [Nat.add_zero, if_pos hi]
    rfl
  | succ rounds ih =>
    intro i hi
    rw [show i + (rounds + 1) = i + 1 + rounds by omega]
    unfold tuplePosition
    rcases Nat.lt_or_eq_of_le hi with hlt | rfl
    · obtain ⟨relAttr, tupAttr, hrel, htup, -, hplace⟩ := exists_round hlt
      rw [← ih hlt, hplace]
      cases hr : relAttr.attisdropped <;> cases ht : tupAttr.attisdropped <;> simp [hrel, htup, hr, ht]
    · -- one more round reads past the end of the table, or of the tuple
      obtain ⟨htup, hdropped⟩ := at_extent format relAttrs
      rw [if_neg (by omega)]
      cases hrel : relAttrs[format.extent relAttrs]? with
      | none => rfl
      | some relAttr =>
        simp only [hdropped relAttr hrel, htup, Bool.not_true, Bool.false_eq_true, if_false]
        rfl

/-- As many live columns come before a position in the table as before its place in the tuple. -/
theorem liveBefore_place (format : TupleFormat) (relAttrs : List Attribute) (n : Nat) :
    liveBefore (format.attrs relAttrs) (format.place relAttrs n) = liveBefore relAttrs n := by
  cases format with
  | whole => rfl
  | withoutDropped =>
    have hlength := List.length_take_of_le (liveBefore_le relAttrs n)
    simp only [TupleFormat.attrs, TupleFormat.place]
    rw [liveBefore, List.countP_eq_length.mpr, hlength]
    intro attr hmem
    exact (List.mem_filter.mp (List.mem_of_mem_take hmem)).2

end

/-! ## §3 — One entry -/

/-- How many rounds the count makes for an entry: one less than its number, and none below that. -/
def attrIndex (indkey : Int) : Nat := (indkey - 1).toNat

/-- The count reads past the end of an array. -/
def OutOfBounds (format : TupleFormat) (relAttrs : List Attribute) (indkey : Int) : Prop :=
  format.extent relAttrs < attrIndex indkey

/-- The check fails: the count ended behind the last column, or, in a tuple that has them, at a dropped
one. -/
def Refused (format : TupleFormat) (relAttrs : List Attribute) (indkey : Int) : Prop :=
  attrIndex indkey = format.extent relAttrs ∨
    format = .whole ∧ ∃ attr, relAttrs[attrIndex indkey]? = some attr ∧ attr.attisdropped

section

variable {rel : Table} {tupdesc : TupleDesc} {format : TupleFormat} {indkey : Int}

/-- What the code does for an entry: the count goes out of bounds, the check fails, or a column is taken. -/
inductive EntryOutcome (format : TupleFormat) (rel : Table) (tupdesc : TupleDesc) (indkey : Int) : Prop
  | outOfBounds (h : OutOfBounds format rel.tupdesc.attrs indkey)
      (hposition : tuplePosition rel.tupdesc.attrs tupdesc.attrs (indkey - 1).toNat 0 0 = .error .undefined)
  | refused (h : Refused format rel.tupdesc.attrs indkey) (position : Nat)
      (hposition : tuplePosition rel.tupdesc.attrs tupdesc.attrs (indkey - 1).toNat 0 0 = .ok position)
      (hattr : ∀ attr, tupdesc.attrs[position]? = some attr → attr.attisdropped)
  | taken (hbounds : ¬ OutOfBounds format rel.tupdesc.attrs indkey)
      (hrefused : ¬ Refused format rel.tupdesc.attrs indkey) (position : Nat) (attr : Attribute)
      (hposition : tuplePosition rel.tupdesc.attrs tupdesc.attrs (indkey - 1).toNat 0 0 = .ok position)
      (hattr : tupdesc.attrs[position]? = some attr) (hlive : attr.attisdropped = false)

/-- The count for an entry. -/
theorem tuplePosition_attrIndex (htupdesc : tupdesc.attrs = format.attrs rel.tupdesc.attrs) (indkey : Int) :
    tuplePosition rel.tupdesc.attrs tupdesc.attrs (indkey - 1).toNat 0 0 =
      if attrIndex indkey ≤ format.extent rel.tupdesc.attrs
        then .ok (format.place rel.tupdesc.attrs (attrIndex indkey)) else .error .undefined := by
  have hstart : format.place rel.tupdesc.attrs 0 = 0 := by
    cases format <;> rfl
  have hposition := tuplePosition_eq format rel.tupdesc.attrs (attrIndex indkey) (Nat.zero_le _)
  rw [hstart, Nat.zero_add, ← htupdesc] at hposition
  exact hposition

theorem entryOutcome (htupdesc : tupdesc.attrs = format.attrs rel.tupdesc.attrs) (indkey : Int) :
    EntryOutcome format rel tupdesc indkey := by
  have hposition := tuplePosition_attrIndex htupdesc indkey
  rcases Nat.lt_trichotomy (attrIndex indkey) (format.extent rel.tupdesc.attrs) with hlt | heq | hgt
  · -- before the end there is a column, and the check looks at whether it is dropped
    obtain ⟨relAttr, tupAttr, hrel, htup, hdropped, -⟩ := exists_round hlt
    rw [if_pos (Nat.le_of_lt hlt)] at hposition
    rw [← htupdesc] at htup
    cases h : tupAttr.attisdropped with
    | true =>
      obtain ⟨hformat, hrelDropped⟩ := hdropped.mp h
      refine .refused (.inr ⟨hformat, relAttr, hrel, hrelDropped⟩) _ hposition fun attr hattr => ?_
      cases htup.symm.trans hattr
      exact h
    | false =>
      refine .taken (Nat.lt_asymm hlt) ?_ _ _ hposition htup h
      rintro (heq | ⟨hformat, attr, hattr, hattrDropped⟩)
      · omega
      · cases hrel.symm.trans hattr
        rw [hdropped.mpr ⟨hformat, hattrDropped⟩] at h
        cases h
  · -- at the end the count is behind the last column of the tuple
    rw [if_pos (Nat.le_of_eq heq)] at hposition
    refine .refused (.inl heq) _ hposition fun attr hattr => ?_
    rw [htupdesc, heq, (at_extent format rel.tupdesc.attrs).1] at hattr
    cases hattr
  · rw [if_neg (by omega)] at hposition
    exact .outOfBounds hgt hposition

theorem eq_place_of_tuplePosition (htupdesc : tupdesc.attrs = format.attrs rel.tupdesc.attrs) {position : Nat}
    (h : tuplePosition rel.tupdesc.attrs tupdesc.attrs (indkey - 1).toNat 0 0 = .ok position) :
    position = format.place rel.tupdesc.attrs (attrIndex indkey) := by
  rw [tuplePosition_attrIndex htupdesc] at h
  split at h
  · exact (Except.ok.inj h).symm
  · cases h

/-- For a live column of the table a column is taken. -/
theorem exists_position_of_live (htupdesc : tupdesc.attrs = format.attrs rel.tupdesc.attrs) {attr : Attribute}
    (hattr : rel.tupdesc.attrs[(indkey - 1).toNat]? = some attr) (hlive : attr.attisdropped = false) :
    ∃ position tupAttr, tuplePosition rel.tupdesc.attrs tupdesc.attrs (indkey - 1).toNat 0 0 = .ok position ∧
      tupdesc.attrs[position]? = some tupAttr ∧ tupAttr.attisdropped = false := by
  have hlt : attrIndex indkey < format.extent rel.tupdesc.attrs := lt_extent_of_live hattr hlive
  cases entryOutcome htupdesc indkey with
  | outOfBounds h => exact absurd h (Nat.lt_asymm hlt)
  | refused h =>
    rcases h with heq | ⟨-, attr', hattr', hdropped⟩
    · omega
    · cases hattr.symm.trans hattr'
      rw [hlive] at hdropped
      cases hdropped
  | taken _ _ position tupAttr hposition htup htupLive =>
    exact ⟨position, tupAttr, hposition, htup, htupLive⟩

end

end BottledWater.Ext
