/-
# BottledWater.Client.LsnText — LSNs as text and as bytes.

A position in the WAL travels in two ways.  In replication messages it is eight bytes in network byte
order (`sendint64`, `recvint64`); in commands and results it is two hexadecimal numbers with a slash
between them, which `replication_stream_start` and the server print with `%X/%X` and
`replication_slot_create` and `replication_slot_exists` read with `sscanf`.  Both ways bring every
64-bit value back (`lsn_codecs`).
-/
import BottledWater.Client.Libpq
import BottledWater.Client.Replication
import Mathlib.Data.Nat.Digits.Defs

namespace BottledWater.Client

/-! ## Printing -/

/-- The digit for a value less than 16, in upper case. -/
def hexChar (d : Nat) : UInt8 := UInt8.ofNat (if d < 10 then 48 + d else 55 + d)

/-- `printf("%X", x)`. -/
def printHex (x : UInt32) : List UInt8 :=
  if x = 0 then [48] else (Nat.digits 16 x.toNat).reverse.map hexChar

/-- `printf("%X/%X", (uint32) (lsn >> 32), (uint32) lsn)`. -/
def printLsn (lsn : UInt64) : List UInt8 :=
  printHex (lsn >>> 32).toUInt32 ++ 47 :: printHex lsn.toUInt32

/-! ## Reading what was printed -/

theorem hexValue_hexChar {d : Nat} (h : d < 16) : hexValue (hexChar d) = some d := by
  revert d
  decide

/-- Digits are followed by something that is not one. -/
def EndsDigits (rest : List UInt8) : Prop :=
  ∀ c ∈ rest.head?, hexValue c = none ∧ c ≠ 120 ∧ c ≠ 88

/-- Each digit is added to the number read so far. -/
theorem hexDigits_map_hexChar {ds : List Nat} {rest : List UInt8} (hds : ∀ d ∈ ds, d < 16)
    (hrest : EndsDigits rest) (acc : Nat) :
    hexDigits acc (ds.map hexChar ++ rest) = (ds.foldl (fun n d => 16 * n + d) acc, rest) := by
  induction ds generalizing acc with
  | nil =>
    cases rest with
    | nil => rfl
    | cons c rest =>
      have hc := (hrest c rfl).1
      simp [hexDigits, hc]
  | cons d ds ih =>
    rw [List.map_cons, List.cons_append, hexDigits, hexValue_hexChar (hds d List.mem_cons_self)]
    exact ih (fun d hd => hds d (List.mem_cons_of_mem _ hd)) _

/-- A digit is no white space, no sign and no `x`. -/
theorem hexChar_plain {d : Nat} (h : d < 16) :
    isSpace (hexChar d) = false ∧ hexChar d ≠ 45 ∧ hexChar d ≠ 43 ∧ hexChar d ≠ 120 ∧
      hexChar d ≠ 88 := by
  revert d
  decide

/-- A number that is written without `0x`. -/
theorem hexNumber_cons {c : UInt8} {text : List UInt8} (hc : (hexValue c).isSome)
    (hx : ∀ x ∈ text.head?, x ≠ 120 ∧ x ≠ 88) :
    hexNumber (c :: text) = some (hexDigits 0 (c :: text)) := by
  unfold hexNumber
  split
  · case h_1 x d rest heq =>
    cases heq
    have hx := hx x rfl
    simp [hx.1, hx.2, hc]
  · simp [hc]

theorem hexNumber_map_hexChar {d : Nat} {ds : List Nat} {rest : List UInt8}
    (hds : ∀ e ∈ d :: ds, e < 16) (hrest : EndsDigits rest) :
    hexNumber ((d :: ds).map hexChar ++ rest) =
      some ((d :: ds).foldl (fun n d => 16 * n + d) 0, rest) := by
  have hfirst : (hexValue (hexChar d)).isSome := by
    rw [hexValue_hexChar (hds d List.mem_cons_self)]
    rfl
  -- what follows the first digit is a digit or the end, and not an `x`
  have hsecond (c : UInt8) (hc : c ∈ (ds.map hexChar ++ rest).head?) : c ≠ 120 ∧ c ≠ 88 := by
    cases ds with
    | nil => exact (hrest c hc).2
    | cons e ds =>
      obtain rfl : hexChar e = c := Option.some.inj hc
      exact (hexChar_plain (hds e (List.mem_cons_of_mem _ List.mem_cons_self))).2.2.2
  rw [← hexDigits_map_hexChar hds hrest]
  exact hexNumber_cons hfirst hsecond

/-- The digits that are printed, with the most significant one first. -/
theorem printHex_eq (x : UInt32) : ∃ d ds, printHex x = (d :: ds).map hexChar ∧
    (∀ e ∈ d :: ds, e < 16) ∧ (d :: ds).foldl (fun n d => 16 * n + d) 0 = x.toNat := by
  unfold printHex
  split
  · case isTrue h => exact ⟨0, [], by rw [h]; decide⟩
  · case isFalse h =>
    have hne : (Nat.digits 16 x.toNat).reverse ≠ [] := by
      rw [ne_eq, List.reverse_eq_nil_iff, ← ne_eq, Nat.digits_ne_nil_iff_ne_zero]
      exact fun h0 => h (UInt32.toNat_inj.mp h0)
    obtain ⟨d, ds, hdigits⟩ := List.exists_cons_of_ne_nil hne
    refine ⟨d, ds, by rw [hdigits], ?_, ?_⟩
    · intro e he
      rw [← hdigits, List.mem_reverse] at he
      exact Nat.digits_lt_base (by decide) he
    · calc (d :: ds).foldl (fun n d => 16 * n + d) 0
          = (Nat.digits 16 x.toNat).foldr (fun d n => 16 * n + d) 0 := by
            rw [← hdigits, List.foldl_reverse]
        _ = Nat.ofDigits 16 (Nat.digits 16 x.toNat) := by
            rw [Nat.ofDigits_eq_foldr]
            simp only [Nat.cast_id, Nat.add_comm]
        _ = x.toNat := Nat.ofDigits_digits 16 x.toNat

/-- **A number that was printed with `%X` is read back**, if no digit or `x` follows it. -/
theorem scanHex_printHex (x : UInt32) {rest : List UInt8} (hrest : EndsDigits rest) :
    scanHex (printHex x ++ rest) = some (x, rest) := by
  obtain ⟨d, ds, hprint, hds, hvalue⟩ := printHex_eq x
  obtain ⟨hspace, hminus, hplus, -⟩ := hexChar_plain (hds d List.mem_cons_self)
  have hnumber := hexNumber_map_hexChar hds hrest
  rw [hvalue] at hnumber
  have hdrop : (printHex x ++ rest).dropWhile isSpace = printHex x ++ rest := by
    rw [hprint, List.map_cons, List.cons_append, List.dropWhile_cons, hspace]
    rfl
  have hsmall : x.toNat < 2 ^ 64 := Nat.lt_trans x.toNat_lt (by decide)
  have hhead : printHex x ++ rest = hexChar d :: (ds.map hexChar ++ rest) := by rw [hprint]; rfl
  rw [← hprint] at hnumber
  unfold scanHex
  rw [hdrop]
  split
  · case h_1 negative text hsign =>
    -- the first character is a digit, so there is no sign
    split at hsign
    · case h_1 heq =>
      rw [hhead] at heq
      exact absurd (List.cons.inj heq).1 hminus
    · case h_2 heq =>
      rw [hhead] at heq
      exact absurd (List.cons.inj heq).1 hplus
    · cases hsign
      rw [hnumber]
      simp only [Option.map_some, hsmall, if_true, Bool.false_eq_true, if_false, UInt32.ofNat_toNat]

/-- **LSNs survive both codecs.**  Eight bytes in network byte order, in both directions, and the text of
two hexadecimal halves. -/
theorem lsn_codecs :
    (∀ x : UInt64, recvint64 (sendint64 x) = some x) ∧
      (∀ buf : List UInt8, buf.length = 8 → ∃ x, recvint64 buf = some x ∧ sendint64 x = buf) ∧
      ∀ lsn : UInt64, sscanfLsn (printLsn lsn) = some lsn := by
  refine ⟨?_, fun buf => exists_recvint64, ?_⟩
  · intro x
    have hx := recvint64_append x []
    rwa [List.append_nil] at hx
  · intro lsn
    have hslash : EndsDigits (47 :: printHex lsn.toUInt32) := by
      rintro _ ⟨⟩
      decide
    have hend : EndsDigits [] := nofun
    have hlow := scanHex_printHex lsn.toUInt32 hend
    rw [List.append_nil] at hlow
    rw [sscanfLsn, printLsn, scanHex_printHex _ hslash]
    show (scanHex (printHex lsn.toUInt32)).map _ = _
    rw [hlow]
    exact congrArg some (UInt64.toBitVec_inj.mp (dword_of_halves lsn.toBitVec))

/-- A position with the top bit of its upper half set and a lower half of zero. -/
theorem lsn_codecs_top :
    (∃ x, recvint64 [128, 0, 0, 0, 0, 0, 0, 0] = some x ∧
        sendint64 x = [128, 0, 0, 0, 0, 0, 0, 0]) ∧
      sscanfLsn (printLsn 0x8000000000000000) = some 0x8000000000000000 :=
  ⟨lsn_codecs.2.1 [128, 0, 0, 0, 0, 0, 0, 0] rfl, lsn_codecs.2.2 0x8000000000000000⟩

end BottledWater.Client
