/-
# BottledWater.Client.Replication — the bytes of the replication protocol.

The part of `client/replication.c` that packs and unpacks messages: 64-bit positions in network byte
order, and the "Standby status update" by which the client tells Postgres how far it has got.  Of
`replication_stream` the model keeps the two positions such a message carries.

`sendint64` and `recvint64` take and return `int64`, while all callers pass and store `uint64`
positions.  Both conversions keep all 64 bits and only the low 32 bits of the shifted value are used,
so the model has one type, `UInt64`.
-/
import Mathlib.Data.List.Basic
import Mathlib.Data.UInt

namespace BottledWater.Client

/-! ## Network byte order -/

/-- The four bytes in memory after storing `htonl(x)`. -/
def htonlBytes (x : UInt32) : List UInt8 :=
  [(x >>> 24).toUInt8, (x >>> 16).toUInt8, (x >>> 8).toUInt8, x.toUInt8]

/-- `ntohl` of the word whose four bytes in memory are given. -/
def ntohlBytes (b₀ b₁ b₂ b₃ : UInt8) : UInt32 :=
  b₀.toUInt32 <<< 24 ||| b₁.toUInt32 <<< 16 ||| b₂.toUInt32 <<< 8 ||| b₃.toUInt32

/-- `sendint64`: the eight bytes written to `buf`. -/
def sendint64 (i64 : UInt64) : List UInt8 :=
  htonlBytes (i64 >>> 32).toUInt32 ++ htonlBytes i64.toUInt32

/-- `recvint64` of a buffer of at least eight bytes; `none` when there are fewer. -/
def recvint64 : List UInt8 → Option UInt64
  | b₀ :: b₁ :: b₂ :: b₃ :: b₄ :: b₅ :: b₆ :: b₇ :: _ =>
    some ((ntohlBytes b₀ b₁ b₂ b₃).toUInt64 <<< 32 ||| (ntohlBytes b₄ b₅ b₆ b₇).toUInt64)
  | _ => none

/-- A word is put together again from its four bytes. -/
theorem word_of_bytes (x : BitVec 32) :
    (BitVec.setWidth 32 (BitVec.setWidth 8 (x >>> 24)) <<< 24 |||
      BitVec.setWidth 32 (BitVec.setWidth 8 (x >>> 16)) <<< 16 |||
      BitVec.setWidth 32 (BitVec.setWidth 8 (x >>> 8)) <<< 8 |||
      BitVec.setWidth 32 (BitVec.setWidth 8 x)) = x := by
  apply BitVec.eq_of_getLsbD_eq
  intro i hi
  simp only [BitVec.getLsbD_or, BitVec.getLsbD_shiftLeft, BitVec.getLsbD_setWidth,
    BitVec.getLsbD_ushiftRight]
  grind

/-- A double word is put together again from its halves. -/
theorem dword_of_halves (x : BitVec 64) :
    (BitVec.setWidth 64 (BitVec.setWidth 32 (x >>> 32)) <<< 32 |||
      BitVec.setWidth 64 (BitVec.setWidth 32 x)) = x := by
  apply BitVec.eq_of_getLsbD_eq
  intro i hi
  simp only [BitVec.getLsbD_or, BitVec.getLsbD_shiftLeft, BitVec.getLsbD_setWidth,
    BitVec.getLsbD_ushiftRight]
  grind

theorem ntohlBytes_htonlBytes (x : UInt32) :
    ntohlBytes (x >>> 24).toUInt8 (x >>> 16).toUInt8 (x >>> 8).toUInt8 x.toUInt8 = x :=
  UInt32.toBitVec_inj.mp (word_of_bytes x.toBitVec)

/-- What `sendint64` writes is read back, whatever follows it in the buffer. -/
theorem recvint64_append (x : UInt64) (rest : List UInt8) :
    recvint64 (sendint64 x ++ rest) = some x := by
  simp only [sendint64, htonlBytes, List.cons_append, List.nil_append, recvint64,
    ntohlBytes_htonlBytes]
  exact congrArg some (UInt64.toBitVec_inj.mp (dword_of_halves x.toBitVec))

/-- The bytes of a word are those it was put together from. -/
theorem bytes_of_word (b₀ b₁ b₂ b₃ : BitVec 8) :
    let w := BitVec.setWidth 32 b₀ <<< 24 ||| BitVec.setWidth 32 b₁ <<< 16 |||
      BitVec.setWidth 32 b₂ <<< 8 ||| BitVec.setWidth 32 b₃
    BitVec.setWidth 8 (w >>> 24) = b₀ ∧ BitVec.setWidth 8 (w >>> 16) = b₁ ∧
      BitVec.setWidth 8 (w >>> 8) = b₂ ∧ BitVec.setWidth 8 w = b₃ := by
  intro w
  refine ⟨?_, ?_, ?_, ?_⟩
  all_goals
    apply BitVec.eq_of_getLsbD_eq
    intro i hi
    simp only [w, BitVec.getLsbD_or, BitVec.getLsbD_shiftLeft, BitVec.getLsbD_setWidth,
      BitVec.getLsbD_ushiftRight]
    grind

theorem halves_of_dword (h l : BitVec 32) :
    let d := BitVec.setWidth 64 h <<< 32 ||| BitVec.setWidth 64 l
    BitVec.setWidth 32 (d >>> 32) = h ∧ BitVec.setWidth 32 d = l := by
  intro d
  refine ⟨?_, ?_⟩
  all_goals
    apply BitVec.eq_of_getLsbD_eq
    intro i hi
    simp only [d, BitVec.getLsbD_or, BitVec.getLsbD_shiftLeft, BitVec.getLsbD_setWidth,
      BitVec.getLsbD_ushiftRight]
    grind

theorem htonlBytes_ntohlBytes (b₀ b₁ b₂ b₃ : UInt8) :
    htonlBytes (ntohlBytes b₀ b₁ b₂ b₃) = [b₀, b₁, b₂, b₃] := by
  obtain ⟨h₀, h₁, h₂, h₃⟩ := bytes_of_word b₀.toBitVec b₁.toBitVec b₂.toBitVec b₃.toBitVec
  have hb₀ : (ntohlBytes b₀ b₁ b₂ b₃ >>> 24).toUInt8 = b₀ := UInt8.toBitVec_inj.mp h₀
  have hb₁ : (ntohlBytes b₀ b₁ b₂ b₃ >>> 16).toUInt8 = b₁ := UInt8.toBitVec_inj.mp h₁
  have hb₂ : (ntohlBytes b₀ b₁ b₂ b₃ >>> 8).toUInt8 = b₂ := UInt8.toBitVec_inj.mp h₂
  have hb₃ : (ntohlBytes b₀ b₁ b₂ b₃).toUInt8 = b₃ := UInt8.toBitVec_inj.mp h₃
  rw [htonlBytes, hb₀, hb₁, hb₂, hb₃]

theorem sendint64_halves (h l : UInt32) :
    sendint64 (h.toUInt64 <<< 32 ||| l.toUInt64) = htonlBytes h ++ htonlBytes l := by
  obtain ⟨hh, hl⟩ := halves_of_dword h.toBitVec l.toBitVec
  have hh' : ((h.toUInt64 <<< 32 ||| l.toUInt64) >>> 32).toUInt32 = h := UInt32.toBitVec_inj.mp hh
  have hl' : (h.toUInt64 <<< 32 ||| l.toUInt64).toUInt32 = l := UInt32.toBitVec_inj.mp hl
  rw [sendint64, hh', hl']

/-- Every buffer of eight bytes is what `sendint64` writes for the number that is read from it. -/
theorem exists_recvint64 {buf : List UInt8} (h : buf.length = 8) :
    ∃ x, recvint64 buf = some x ∧ sendint64 x = buf := by
  match buf, h with
  | [b₀, b₁, b₂, b₃, b₄, b₅, b₆, b₇], _ =>
    refine ⟨_, rfl, ?_⟩
    rw [sendint64_halves, htonlBytes_ntohlBytes, htonlBytes_ntohlBytes]
    rfl

/-! ## `send_checkpoint` -/

/-- `send_checkpoint`: the message handed to `PQputCopyData`. -/
def sendCheckpoint (recvdLsn fsyncLsn now : UInt64) : List UInt8 :=
  [0x72]  -- 'r'
    ++ sendint64 recvdLsn
    ++ sendint64 fsyncLsn
    ++ sendint64 0  -- InvalidXLogRecPtr, only used by physical replication
    ++ sendint64 now
    ++ [0]

/-- The flush position in a status update: the second of its four integers. -/
def flushPosition (msg : List UInt8) : Option UInt64 := recvint64 (msg.drop (1 + 8))

/-- The flush position that `send_checkpoint` writes is `fsync_lsn`. -/
theorem flushPosition_sendCheckpoint (recvdLsn fsyncLsn now : UInt64) :
    flushPosition (sendCheckpoint recvdLsn fsyncLsn now) = some fsyncLsn := by
  have hsplit : (sendCheckpoint recvdLsn fsyncLsn now).drop (1 + 8) =
      sendint64 fsyncLsn ++ (sendint64 0 ++ (sendint64 now ++ [0])) := by
    simp only [sendCheckpoint, List.append_assoc]
    rfl
  rw [flushPosition, hsplit, recvint64_append]

end BottledWater.Client
