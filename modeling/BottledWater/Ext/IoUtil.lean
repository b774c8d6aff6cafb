/-
# BottledWater.Ext.IoUtil — `try_writing` with its buffers.

`ext/io_util.c`.  A callback writes to a buffer of fixed length through the memory writer of libavro,
which refuses a piece that does not fit.  `try_writing` starts with 16 KiB and, as long as the buffer is
too small for what the callback writes and a NUL behind it, tries again with four times as much, up to
1 MiB.  What it returns depends on the bytes written alone: not on the pieces they come in, not on what
is in the memory that `palloc` returns, and not on the sizes tried (`try_writing_exact`).  So the
function of `Ext.Server`, which knows no buffers, is what it computes (`tryWriting_refines`).
-/
import BottledWater.Ext.Server
import BottledWater.Lib.Sink

namespace BottledWater.Ext.IoUtil

open BottledWater.Lib BottledWater.Lib.Avro

/-! ## §1 — Memory and writers -/

/-- `ENOSPC`. -/
def enospc : Int := 28

/-- A `bytea`: what `VARSIZE` returns, and the bytes allocated behind the header. -/
structure Bytea where
  varsize : Nat
  vardata : Bytes

/-- `palloc`: memory of the given size, with anything in it. -/
structure Palloc where
  fresh : Nat → Bytea
  size : ∀ n, (fresh n).vardata.length = n - varhdrsz

/-- `avro_write` to a memory writer: the error, and the writer. -/
def avroWrite (writer : Sink UInt8) (piece : Bytes) : Int × Sink UInt8 :=
  match writer.put piece with
  | none => (enospc, writer)
  | some writer => (0, writer)

/-- A `try_writing_cb`, with its context. -/
abbrev Callback := Sink UInt8 → Int × Sink UInt8

/-- A callback that writes pieces one after another, returning the error of the first that fails, and
returns `err` in the end. -/
def writePieces (pieces : List Bytes) (err : Int) : Callback := fun writer =>
  match writer.putAll pieces with
  | (true, writer) => (err, writer)
  | (false, writer) => (enospc, writer)

/-! ## §2 — `try_writing` -/

/-- The body of the loop, for a buffer of the given size. -/
def tryOnce (palloc : Palloc) (cb : Callback) (size : Nat) : Int × Bytea :=
  let output := palloc.fresh size
  let (err, writer) := cb ⟨output.vardata, 0⟩
  if err = 0 then
    let varsize := writer.written + varhdrsz
    let (err, writer) := avroWrite writer [0]
    (err, ⟨varsize, writer.cells⟩)
  else (err, ⟨output.varsize, writer.cells⟩)

/-- How `try_writing` ends: the sizes it has tried, its return value, and the output unless that was
freed. -/
structure Outcome where
  attempts : List Nat
  err : Int
  output : Option Bytea

/-- The loop of `try_writing`. -/
def tryWritingLoop (palloc : Palloc) (cb : Callback) : (rounds size : Nat) → Outcome
  | 0, _ => ⟨[], enospc, none⟩
  | rounds + 1, size =>
    if size ≤ maxBufferLength then
      let (err, output) := tryOnce palloc cb size
      if err = enospc then
        let outcome := tryWritingLoop palloc cb rounds (size * 4)
        { outcome with attempts := size :: outcome.attempts }
      else ⟨[size], err, some output⟩
    else ⟨[], enospc, none⟩

/-- `try_writing`.  The fifth buffer would be too large. -/
def tryWriting (palloc : Palloc) (cb : Callback) : Outcome :=
  tryWritingLoop palloc cb 5 initBufferLength

/-- The sizes that are tried. -/
def bufferSizes : List Nat := [16384, 65536, 262144, 1048576]

/-- Sizes one after another, as long as they are too small. -/
def tryEach (palloc : Palloc) (cb : Callback) : List Nat → Outcome
  | [] => ⟨[], enospc, none⟩
  | size :: sizes =>
    if (tryOnce palloc cb size).1 = enospc then
      let outcome := tryEach palloc cb sizes
      { outcome with attempts := size :: outcome.attempts }
    else ⟨[size], (tryOnce palloc cb size).1, some (tryOnce palloc cb size).2⟩

theorem tryWriting_eq (palloc : Palloc) (cb : Callback) :
    tryWriting palloc cb = tryEach palloc cb bufferSizes := by
  simp [tryWriting, tryWritingLoop, tryEach, bufferSizes, initBufferLength, maxBufferLength]

/-- **The first size that is not too small decides**, for any callback. -/
theorem tryEach_cases (palloc : Palloc) (cb : Callback) (sizes : List Nat) :
    (∃ front size back, sizes = front ++ size :: back ∧
        (∀ s ∈ front, (tryOnce palloc cb s).1 = enospc) ∧ (tryOnce palloc cb size).1 ≠ enospc ∧
        tryEach palloc cb sizes =
          ⟨front ++ [size], (tryOnce palloc cb size).1, some (tryOnce palloc cb size).2⟩) ∨
      (∀ s ∈ sizes, (tryOnce palloc cb s).1 = enospc) ∧
        tryEach palloc cb sizes = ⟨sizes, enospc, none⟩ := by
  induction sizes with
  | nil => exact .inr ⟨nofun, rfl⟩
  | cons size sizes ih =>
    by_cases hsmall : (tryOnce palloc cb size).1 = enospc
    · rcases ih with ⟨front, size', back, rfl, hfront, hsize', heach⟩ | ⟨hall, heach⟩
      · refine .inl ⟨size :: front, size', back, rfl, ?_, hsize', ?_⟩
        · exact List.forall_mem_cons.mpr ⟨hsmall, hfront⟩
        · rw [tryEach, if_pos hsmall, heach]
          rfl
      · refine .inr ⟨List.forall_mem_cons.mpr ⟨hsmall, hall⟩, ?_⟩
        rw [tryEach, if_pos hsmall, heach]
    · refine .inl ⟨[], size, sizes, rfl, nofun, hsmall, ?_⟩
      rw [tryEach, if_neg hsmall]
      rfl

/-! ## §3 — Pieces -/

section

variable (palloc : Palloc) {pieces : List Bytes} (err : Int) {size : Nat}

/-- The output that is returned: the size, the bytes, and a NUL behind them within the memory. -/
structure Bytea.Carries (output : Bytea) (w : Bytes) : Prop where
  varsize : output.varsize = w.length + varhdrsz
  vardata : output.vardata.take w.length = w
  nul : output.vardata[w.length]? = some 0

theorem writePieces_of_fits (h : pieces.flatten.length + varhdrsz ≤ size) :
    ∃ writer, writePieces pieces err ⟨(palloc.fresh size).vardata, 0⟩ = (err, writer) ∧
      writer.Holds (size - varhdrsz) pieces.flatten := by
  have hempty := Sink.holds_nil (palloc.fresh size).vardata
  rw [palloc.size] at hempty
  have hroom : ([] : Bytes).length + pieces.flatten.length ≤ size - varhdrsz := by
    rw [List.length_nil]
    omega
  obtain ⟨writer, hput, hwriter⟩ := hempty.putAll hroom
  refine ⟨writer, ?_, hwriter⟩
  rw [writePieces, hput]

theorem writePieces_of_long (h : size < pieces.flatten.length + varhdrsz) (hsize : varhdrsz ≤ size) :
    (writePieces pieces err ⟨(palloc.fresh size).vardata, 0⟩).1 = enospc := by
  have hempty := Sink.holds_nil (palloc.fresh size).vardata
  rw [palloc.size] at hempty
  have hlong : size - varhdrsz < ([] : Bytes).length + pieces.flatten.length := by
    rw [List.length_nil]
    omega
  have hput := hempty.putAll_eq_false hlong
  cases hall : (Sink.mk (palloc.fresh size).vardata 0).putAll pieces with
  | mk ok writer =>
    rw [hall] at hput
    obtain rfl : ok = false := hput
    rw [writePieces, hall]

/-- An error of the callback is the error of the attempt. -/
theorem tryOnce_of_error {cb : Callback} (h : (cb ⟨(palloc.fresh size).vardata, 0⟩).1 ≠ 0) :
    (tryOnce palloc cb size).1 = (cb ⟨(palloc.fresh size).vardata, 0⟩).1 := by
  simp only [tryOnce, if_neg h]

/-- The bytes and the NUL fit. -/
theorem tryOnce_of_fits (h : pieces.flatten.length + 1 + varhdrsz ≤ size) :
    (tryOnce palloc (writePieces pieces 0) size).1 = 0 ∧
      (tryOnce palloc (writePieces pieces 0) size).2.Carries pieces.flatten := by
  have hfits : pieces.flatten.length + varhdrsz ≤ size := by omega
  obtain ⟨writer, hwrite, hwriter⟩ := writePieces_of_fits palloc 0 hfits
  obtain ⟨writer', hput, hwriter'⟩ := hwriter.put [0] (by rw [List.length_singleton]; omega)
  have honce : tryOnce palloc (writePieces pieces 0) size =
      (0, ⟨writer.written + varhdrsz, writer'.cells⟩) := by
    simp only [tryOnce, hwrite, if_true, avroWrite, hput]
  rw [honce]
  refine ⟨rfl, by rw [hwriter.written], hwriter'.take_left, ?_⟩
  show writer'.cells[pieces.flatten.length]? = some 0
  rw [hwriter'.getElem? (by simp)]
  exact List.getElem?_concat_length

/-- The bytes, or the NUL behind them, do not fit. -/
theorem tryOnce_of_long (h : size < pieces.flatten.length + 1 + varhdrsz) (hsize : varhdrsz ≤ size) :
    (tryOnce palloc (writePieces pieces 0) size).1 = enospc := by
  by_cases hfits : pieces.flatten.length + varhdrsz ≤ size
  · -- the callback succeeds, and the NUL is refused
    obtain ⟨writer, hwrite, hwriter⟩ := writePieces_of_fits palloc 0 hfits
    have hput : writer.put [0] = none := hwriter.put_eq_none (by rw [List.length_singleton]; omega)
    simp only [tryOnce, hwrite, if_true, avroWrite, hput]
  · have hwrite := writePieces_of_long palloc 0 (Nat.lt_of_not_le hfits) hsize
    rw [tryOnce_of_error palloc (by rw [hwrite]; decide), hwrite]

/-- An attempt of a callback that writes all and then fails. -/
theorem tryOnce_of_final (herr : err ≠ 0) (hsize : varhdrsz ≤ size) :
    (tryOnce palloc (writePieces pieces err) size).1 =
      if pieces.flatten.length + varhdrsz ≤ size then err else enospc := by
  split
  · case isTrue hfits =>
    obtain ⟨writer, hwrite, -⟩ := writePieces_of_fits palloc err hfits
    rw [tryOnce_of_error palloc (by rw [hwrite]; exact herr), hwrite]
  · case isFalse hlong =>
    have hwrite := writePieces_of_long palloc err (Nat.lt_of_not_le hlong) hsize
    rw [tryOnce_of_error palloc (by rw [hwrite]; decide), hwrite]

/-! ## §4 — All attempts -/

/-- How `try_writing` ends, for any callback: with the first size that is not too small, or with none. -/
inductive Ends (cb : Callback) : Outcome → Prop
  | decided (front : List Nat) (size : Nat) (hmax : size ≤ maxBufferLength) (hheader : varhdrsz ≤ size)
      (hfront : ∀ s ∈ front, (tryOnce palloc cb s).1 = enospc)
      (hsize : (tryOnce palloc cb size).1 ≠ enospc) :
      Ends cb ⟨front ++ [size], (tryOnce palloc cb size).1, some (tryOnce palloc cb size).2⟩
  | exhausted (hall : ∀ s ∈ bufferSizes, (tryOnce palloc cb s).1 = enospc) :
      Ends cb ⟨bufferSizes, enospc, none⟩

theorem ends_tryWriting (cb : Callback) : Ends palloc cb (tryWriting palloc cb) := by
  have hbounds : ∀ s ∈ bufferSizes, s ≤ maxBufferLength ∧ varhdrsz ≤ s := by decide
  rw [tryWriting_eq]
  rcases tryEach_cases palloc cb bufferSizes with
    ⟨front, size, back, hsizes, hfront, hsize, heach⟩ | ⟨hall, heach⟩
  · have hmem : size ∈ bufferSizes := hsizes ▸ List.mem_append_right front List.mem_cons_self
    rw [heach]
    exact .decided front size (hbounds size hmem).1 (hbounds size hmem).2 hfront hsize
  · rw [heach]
    exact .exhausted hall

theorem max_mem_bufferSizes : maxBufferLength ∈ bufferSizes := by decide

theorem tryWriting_of_fits (h : pieces.flatten.length + 1 + varhdrsz ≤ maxBufferLength) :
    (tryWriting palloc (writePieces pieces 0)).err = 0 ∧
      ∃ output, (tryWriting palloc (writePieces pieces 0)).output = some output ∧
        output.Carries pieces.flatten := by
  have hends := ends_tryWriting palloc (writePieces pieces 0)
  generalize tryWriting palloc (writePieces pieces 0) = outcome at hends ⊢
  cases hends with
  | decided front size hmax hheader hfront hsize =>
    have hfits : pieces.flatten.length + 1 + varhdrsz ≤ size := by
      rw [← Nat.not_lt]
      exact fun hlong => hsize (tryOnce_of_long palloc hlong hheader)
    obtain ⟨herr, hcarries⟩ := tryOnce_of_fits palloc hfits
    exact ⟨herr, _, rfl, hcarries⟩
  | exhausted hall =>
    -- the largest buffer is large enough
    have hmax := hall maxBufferLength max_mem_bufferSizes
    rw [(tryOnce_of_fits palloc h).1] at hmax
    cases hmax

theorem tryWriting_of_long (h : maxBufferLength < pieces.flatten.length + 1 + varhdrsz) :
    (tryWriting palloc (writePieces pieces 0)).err = enospc := by
  have hends := ends_tryWriting palloc (writePieces pieces 0)
  generalize tryWriting palloc (writePieces pieces 0) = outcome at hends ⊢
  cases hends with
  | decided front size hmax hheader hfront hsize =>
    exact absurd (tryOnce_of_long palloc (Nat.lt_of_le_of_lt hmax h) hheader) hsize
  | exhausted hall => rfl

/-- A callback that writes all its pieces and then fails: they have to fit for that. -/
theorem tryWriting_of_final (herr : err ≠ 0) (herr' : err ≠ enospc) :
    (tryWriting palloc (writePieces pieces err)).err =
      if pieces.flatten.length + varhdrsz ≤ maxBufferLength then err else enospc := by
  have hends := ends_tryWriting palloc (writePieces pieces err)
  generalize tryWriting palloc (writePieces pieces err) = outcome at hends ⊢
  cases hends with
  | decided front size hmax hheader hfront hsize =>
    have honce : (tryOnce palloc (writePieces pieces err) size).1 =
        if pieces.flatten.length + varhdrsz ≤ size then err else enospc :=
      tryOnce_of_final palloc err herr hheader
    by_cases hfits : pieces.flatten.length + varhdrsz ≤ size
    · rw [if_pos hfits] at honce
      rw [if_pos (Nat.le_trans hfits hmax)]
      exact honce
    · rw [if_neg hfits] at honce
      exact absurd honce hsize
  | exhausted hall =>
    -- only pieces that do not fit in the largest buffer keep the callback from its own error
    have hmax := hall maxBufferLength max_mem_bufferSizes
    rw [tryOnce_of_final palloc err herr (by decide)] at hmax
    split at hmax
    · exact absurd hmax herr'
    · case isFalse hlong => rw [if_neg hlong]

/-- For any callback: an error other than `ENOSPC` ends the loop. -/
theorem tryWriting_of_error (cb : Callback) {size : Nat}
    (hattempt : size ∈ (tryWriting palloc cb).attempts)
    (herr : (cb ⟨(palloc.fresh size).vardata, 0⟩).1 ≠ 0)
    (herr' : (cb ⟨(palloc.fresh size).vardata, 0⟩).1 ≠ enospc) :
    (tryWriting palloc cb).err = (cb ⟨(palloc.fresh size).vardata, 0⟩).1 ∧
      (tryWriting palloc cb).attempts.getLast? = some size := by
  have honce := tryOnce_of_error palloc herr
  rw [← honce] at herr' ⊢
  have hends := ends_tryWriting palloc cb
  generalize tryWriting palloc cb = outcome at hattempt hends ⊢
  cases hends with
  | decided front last hmax hheader hfront hsize =>
    rcases List.mem_append.mp hattempt with hearlier | hlast
    · exact absurd (hfront size hearlier) herr'
    · obtain rfl := List.mem_singleton.mp hlast
      exact ⟨rfl, List.getLast?_concat⟩
  | exhausted hall => exact absurd (hall size hattempt) herr'

end

/-- **`try_writing` is exact and does not depend on its buffers.**  A callback writes bytes in any pieces.
The return value is 0 exactly if the bytes, a NUL and the header fit in 1 MiB; then the output has their
size, the bytes, and the NUL behind them; otherwise the return value is `ENOSPC`.  A callback that fails
with another error after its pieces has that error returned, unless the pieces alone do not fit.  For any
callback at all, an error other than `ENOSPC` is returned from the attempt in which it occurs, and that is
the last attempt. -/
theorem try_writing_exact (palloc : Palloc) (pieces : List Bytes) :
    ((tryWriting palloc (writePieces pieces 0)).err = 0 ↔
        pieces.flatten.length + 1 + varhdrsz ≤ maxBufferLength) ∧
      (pieces.flatten.length + 1 + varhdrsz ≤ maxBufferLength →
        ∃ output, (tryWriting palloc (writePieces pieces 0)).output = some output ∧
          output.Carries pieces.flatten) ∧
      (¬ pieces.flatten.length + 1 + varhdrsz ≤ maxBufferLength →
        (tryWriting palloc (writePieces pieces 0)).err = enospc) ∧
      (∀ err, err ≠ 0 → err ≠ enospc →
        (tryWriting palloc (writePieces pieces err)).err =
          if pieces.flatten.length + varhdrsz ≤ maxBufferLength then err else enospc) ∧
      ∀ (cb : Callback) (size : Nat), size ∈ (tryWriting palloc cb).attempts →
        (cb ⟨(palloc.fresh size).vardata, 0⟩).1 ≠ 0 → (cb ⟨(palloc.fresh size).vardata, 0⟩).1 ≠ enospc →
        (tryWriting palloc cb).err = (cb ⟨(palloc.fresh size).vardata, 0⟩).1 ∧
          (tryWriting palloc cb).attempts.getLast? = some size := by
  refine ⟨⟨?_, ?_⟩, ?_, ?_, ?_, ?_⟩
  · intro hzero
    rw [← Nat.not_lt]
    intro hlong
    rw [tryWriting_of_long palloc hlong] at hzero
    cases hzero
  · exact fun hfits => (tryWriting_of_fits palloc hfits).1
  · exact fun hfits => (tryWriting_of_fits palloc hfits).2
  · exact fun hlong => tryWriting_of_long palloc (Nat.lt_of_not_le hlong)
  · exact fun err => tryWriting_of_final palloc err
  · exact fun cb size => tryWriting_of_error palloc cb

/-! Memory full of ones, and three pieces of which the last is empty. -/

/-- Memory in which every byte is 1. -/
def ones : Palloc where
  fresh n := ⟨7, List.replicate (n - varhdrsz) 1⟩
  size _ := List.length_replicate

theorem try_writing_exact_pieces :
    ([[104, 105], [33], []] : List Bytes).flatten.length + 1 + varhdrsz ≤ maxBufferLength ∧
      ∃ output, (tryWriting ones (writePieces [[104, 105], [33], []] 0)).output = some output ∧
        output.Carries [104, 105, 33] :=
  ⟨by decide, (try_writing_exact ones [[104, 105], [33], []]).2.1 (by decide)⟩

/-! ## §5 — `try_writing` without buffers -/

/-- What `Ext.Server` takes `try_writing` to be. -/
theorem tryWriting_server_eq (w : Bytes) :
    Ext.tryWriting w =
      if w.length + 1 + varhdrsz ≤ maxBufferLength then .ok w else .error .noSpace := by
  simp only [Ext.tryWriting, Ext.tryWritingLoop, initBufferLength, maxBufferLength, varhdrsz]
  grind

/-- **The buffers change nothing**: `try_writing` returns what the model without buffers returns. -/
theorem tryWriting_refines (palloc : Palloc) (pieces : List Bytes) :
    Ext.tryWriting pieces.flatten =
      if (tryWriting palloc (writePieces pieces 0)).err = 0 then .ok pieces.flatten
      else .error .noSpace := by
  rw [tryWriting_server_eq]
  by_cases hfits : pieces.flatten.length + 1 + varhdrsz ≤ maxBufferLength
  · rw [if_pos hfits, if_pos (tryWriting_of_fits palloc hfits).1]
  · rw [if_neg hfits, tryWriting_of_long palloc (Nat.lt_of_not_le hfits)]
    rfl

end BottledWater.Ext.IoUtil
