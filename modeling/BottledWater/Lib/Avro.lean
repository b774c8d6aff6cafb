/-
# BottledWater.Lib.Avro — Avro schemas, values and the binary encoding.

A schema is the tree that a schema document describes, with its names; a value is what the generic
value interface of the C library holds in memory.  `encode` writes a value and `decode` reads one under
a schema.  A link stands for a named type defined elsewhere, so `decode` and `conforms` take how a link
is read and which values it has as a parameter.

Readers are composed with the rules of `Reads`; the result is `reads_encode`: what `encode` writes of a
value that conforms to a schema is read back, whatever follows it.
-/
import Mathlib.Data.List.Basic
import Mathlib.Algebra.Group.Nat.Defs

namespace BottledWater.Lib.Avro

abbrev Bytes := List UInt8

/-! ## §1 — Schemas and values -/

/-- An Avro schema. -/
inductive Schema where
  | null
  | boolean
  | int
  | long
  | float
  | double
  | bytes
  | string
  | enum (name : String) (symbols : List String)
  | record (name : String) (ns : String) (fields : List (String × Schema))
  | array (items : Schema)
  | union (branches : List Schema)
  /-- A further occurrence of a type that is defined under this name elsewhere. -/
  | link (name : String)
  deriving Inhabited

/-- `avro_schema_name`: the name of a named type, or of the type that a link stands for. -/
def Schema.name : Schema → String
  | .null => "null"
  | .boolean => "boolean"
  | .int => "int"
  | .long => "long"
  | .float => "float"
  | .double => "double"
  | .bytes => "bytes"
  | .string => "string"
  | .enum name _ => name
  | .record name _ _ => name
  | .array _ => "array"
  | .union _ => "union"
  | .link name => name

/-- The types without a name and without parts. -/
def Schema.isPrimitive : Schema → Bool
  | .null | .boolean | .int | .long | .float | .double | .bytes | .string => true
  | _ => false

/-- A value in memory. -/
inductive Value where
  | null
  | boolean (b : Bool)
  | int (n : Int32)
  | long (n : Int64)
  /-- The four bytes of a `float`, as a number. -/
  | float (bits : UInt32)
  /-- The eight bytes of a `double`, as a number. -/
  | double (bits : UInt64)
  | bytes (content : Bytes)
  /-- The buffer of a string counts its terminating NUL. -/
  | string (buffer : Bytes)
  | enum (symbol : Nat)
  | record (fields : List Value)
  | array (items : List Value)
  | union (branch : Nat) (v : Value)
  deriving Inhabited

namespace Value

/-! The generic value interface: `none` where the C library returns an error. -/

/-- `avro_value_get_by_index`, on a record or an array. -/
def getByIndex : Value → Nat → Option Value
  | .record fields, i => fields[i]?
  | .array items, i => items[i]?
  | _, _ => none

/-- The items of an array: `avro_value_get_size`, and `avro_value_get_by_index` below that. -/
def getItems : Value → Option (List Value)
  | .array items => some items
  | _ => none

/-- `avro_value_get_discriminant`. -/
def getDiscriminant : Value → Option Nat
  | .union branch _ => some branch
  | _ => none

/-- `avro_value_get_current_branch`. -/
def getCurrentBranch : Value → Option Value
  | .union _ v => some v
  | _ => none

/-- `avro_value_get_long`. -/
def getLong : Value → Option Int64
  | .long n => some n
  | _ => none

/-- `avro_value_get_bytes`. -/
def getBytes : Value → Option Bytes
  | .bytes content => some content
  | _ => none

/-- `avro_value_get_string`; the length of the buffer counts the NUL. -/
def getString : Value → Option Bytes
  | .string buffer => some buffer
  | _ => none

end Value

/-! ## §2 — Readers -/

/-- A reader takes bytes from the front of a buffer, or fails. -/
abbrev Reader := StateT Bytes Option

/-- **`Reads r b a`** — `r` reads `a` from the bytes `b` and stops there, whatever comes next. -/
def Reads {α : Type} (r : Reader α) (b : Bytes) (a : α) : Prop :=
  ∀ rest, r (b ++ rest) = some (a, rest)

namespace Reads

variable {α β : Type} {r : Reader α} {b b' : Bytes} {a : α}

theorem pure (a : α) : Reads (Pure.pure a : Reader α) [] a := fun _ => rfl

theorem bind {f : α → Reader β} {c : β} (hr : Reads r b a) (hf : Reads (f a) b' c) :
    Reads (r >>= f) (b ++ b') c := by
  intro rest
  show (r (b ++ b' ++ rest)).bind (fun p => f p.1 p.2) = some (c, rest)
  rw [List.append_assoc, hr, Option.bind_some]
  exact hf rest

/-- The last step of a reader that only computes with what was read. -/
theorem map {f : α → Reader β} {c : β} (hr : Reads r b a) (hf : f a = Pure.pure c) :
    Reads (r >>= f) b c := by
  have hlast : Reads (f a) [] c := hf ▸ pure c
  have h := bind hr hlast
  rwa [List.append_nil] at h

end Reads

/-- The next byte. -/
def readByte : Reader UInt8
  | [] => none
  | b :: rest => some (b, rest)

theorem reads_byte (b : UInt8) : Reads readByte [b] b := fun _ => rfl

/-- The next `n` bytes. -/
def readExactly (n : Nat) : Reader Bytes := fun bs =>
  if n ≤ bs.length then some (bs.take n, bs.drop n) else none

theorem reads_exactly (b : Bytes) : Reads (readExactly b.length) b b := by
  intro rest
  simp [readExactly]

/-- `n` items one after the other. -/
def readTimes {α : Type} (item : Reader α) : Nat → Reader (List α)
  | 0 => pure []
  | n + 1 => do
    let a ← item
    let as ← readTimes item n
    pure (a :: as)

theorem reads_times {α : Type} {item : Reader α} {write : α → Bytes} :
    ∀ as : List α, (∀ a ∈ as, Reads item (write a) a) →
      Reads (readTimes item as.length) (as.flatMap write) as
  | [], _ => Reads.pure []
  | a :: as, h => by
    rw [List.flatMap_cons]
    apply Reads.bind (h a (List.mem_cons_self ..))
    exact Reads.map (reads_times as fun x hx => h x (List.mem_cons_of_mem _ hx)) rfl

/-! ## §3 — Numbers -/

/-- Little-endian base-128 digits with a continuation bit, in at most the given number of bytes. -/
def varint : Nat → Nat → Bytes
  | 0, _ => []
  | k + 1, n => if n < 128 then [UInt8.ofNat n] else UInt8.ofNat (n % 128 + 128) :: varint k (n / 128)

theorem length_varint_pos (k n : Nat) : 0 < (varint (k + 1) n).length := by
  unfold varint
  split <;> simp

def readVarint : Nat → Reader Nat
  | 0 => failure
  | k + 1 => do
    let b ← readByte
    if b.toNat < 128 then pure b.toNat
    else do
      let high ← readVarint k
      pure (b.toNat - 128 + 128 * high)

theorem reads_varint_single (k : Nat) {n : Nat} (hn : n < 128) :
    Reads (readVarint (k + 1)) (varint (k + 1) n) n := by
  have hb : (UInt8.ofNat n).toNat = n := by
    rw [UInt8.toNat_ofNat']
    omega
  rw [varint, if_pos hn, readVarint]
  apply (reads_byte _).map
  rw [hb, if_pos hn]

theorem reads_varint : ∀ k n, n < 128 ^ (k + 1) → Reads (readVarint (k + 1)) (varint (k + 1) n) n := by
  intro k
  induction k with
  | zero =>
    intro n h
    have hn : n < 128 := h
    exact reads_varint_single 0 hn
  | succ k ih =>
    intro n h
    by_cases hn : n < 128
    · exact reads_varint_single _ hn
    · have hb : (UInt8.ofNat (n % 128 + 128)).toNat = n % 128 + 128 := by
        rw [UInt8.toNat_ofNat']
        omega
      have hhigh : n / 128 < 128 ^ (k + 1) := by
        rw [Nat.div_lt_iff_lt_mul (by omega)]
        rwa [Nat.pow_succ] at h
      rw [varint, if_neg hn, readVarint]
      apply (reads_byte _).bind (b := [_])
      rw [hb, if_neg (by omega)]
      apply (ih (n / 128) hhigh).map
      congr 1
      omega

/-- Zigzag numbering: 0, -1, 1, -2, 2, … -/
def zigzag (n : Int) : Nat := if 0 ≤ n then 2 * n.toNat else 2 * (-n).toNat - 1

def unzigzag (m : Nat) : Int := if m % 2 = 0 then (m / 2 : Nat) else -((m / 2 + 1 : Nat) : Int)

theorem unzigzag_zigzag (n : Int) : unzigzag (zigzag n) = n := by
  unfold unzigzag zigzag
  split <;> split <;> omega

/-- A `long`: at most ten bytes, of which 64 bits count. -/
def encodeLong (n : Int64) : Bytes := varint 10 (zigzag n.toInt)

def readLong : Reader Int64 := do
  let m ← readVarint 10
  pure (Int64.ofInt (unzigzag (m % 2 ^ 64)))

theorem zigzag_lt (n : Int64) : zigzag n.toInt < 2 ^ 64 := by
  have hlo := Int64.le_toInt n
  have hhi := Int64.toInt_lt n
  unfold zigzag
  split <;> omega

theorem reads_long (n : Int64) : Reads readLong (encodeLong n) n := by
  have hlt := zigzag_lt n
  apply (reads_varint 9 (zigzag n.toInt) (by omega)).map
  rw [Nat.mod_eq_of_lt hlt, unzigzag_zigzag, Int64.ofInt_toInt]

/-- A length or an index, which the C library writes as a `long`. -/
def encodeSize (n : Nat) : Bytes := encodeLong (Int64.ofNat n)

theorem length_encodeSize_pos (n : Nat) : 0 < (encodeSize n).length := length_varint_pos 9 _

/-- What fits a length or an index. -/
abbrev maxSize : Nat := 2 ^ 63

def readSize : Reader Nat := do
  let n ← readLong
  if n.toInt < 0 then failure else pure n.toInt.toNat

theorem toInt_ofNat_size {n : Nat} (h : n < maxSize) : (Int64.ofNat n).toInt = n :=
  Int64.toInt_ofNat_of_lt (by omega)

theorem reads_size {n : Nat} (h : n < maxSize) : Reads readSize (encodeSize n) n := by
  apply (reads_long _).map
  rw [toInt_ofNat_size h, if_neg (by omega)]
  rfl

/-- The `k` bytes of a number, lowest first. -/
def littleEndian : Nat → Nat → Bytes
  | 0, _ => []
  | k + 1, n => UInt8.ofNat (n % 256) :: littleEndian k (n / 256)

def readLittleEndian : Nat → Reader Nat
  | 0 => pure 0
  | k + 1 => do
    let low ← readByte
    let high ← readLittleEndian k
    pure (low.toNat + 256 * high)

theorem reads_littleEndian : ∀ k n, n < 256 ^ k → Reads (readLittleEndian k) (littleEndian k n) n
  | 0, n, h => by
    obtain rfl : n = 0 := by simpa using h
    exact Reads.pure 0
  | k + 1, n, h => by
    have hlow : (UInt8.ofNat (n % 256)).toNat = n % 256 := by
      rw [UInt8.toNat_ofNat']
      omega
    have hhigh : n / 256 < 256 ^ k := by
      rw [Nat.div_lt_iff_lt_mul (by omega)]
      rwa [Nat.pow_succ] at h
    apply (reads_byte _).bind (b := [_])
    apply (reads_littleEndian k (n / 256) hhigh).map
    rw [hlow, Nat.mod_add_div]

/-! ## §4 — Values -/

mutual
/-- Write a value. -/
def encode : Value → Bytes
  | .null => []
  | .boolean b => [if b then 1 else 0]
  | .int n => encodeLong n.toInt64
  | .long n => encodeLong n
  | .float bits => littleEndian 4 bits.toNat
  | .double bits => littleEndian 8 bits.toNat
  | .bytes content => encodeSize content.length ++ content
  | .string buffer => encodeSize (buffer.length - 1) ++ buffer.dropLast  -- the NUL stays in memory
  | .enum symbol => encodeSize symbol
  | .record fields => encodeAll fields
  | .array [] => encodeSize 0
  | .array items => encodeSize items.length ++ (encodeAll items ++ encodeSize 0)
  | .union branch v => encodeSize branch ++ encode v

def encodeAll : List Value → Bytes
  | [] => []
  | v :: vs => encode v ++ encodeAll vs
end

theorem encodeAll_eq_flatMap : ∀ vs, encodeAll vs = vs.flatMap encode
  | [] => by rw [encodeAll, List.flatMap_nil]
  | v :: vs => by rw [encodeAll, encodeAll_eq_flatMap vs, List.flatMap_cons]

theorem encode_array {vs : List Value} (hne : vs ≠ []) :
    encode (.array vs) = encodeSize vs.length ++ (vs.flatMap encode ++ encodeSize 0) := by
  cases vs with
  | nil => exact absurd rfl hne
  | cons v vs => simp only [encode, encodeAll_eq_flatMap, List.length_cons]

theorem length_encodeAll_le_array (vs : List Value) :
    (encodeAll vs).length ≤ (encode (.array vs)).length := by
  by_cases hne : vs = []
  · subst hne
    simp [encodeAll]
  · rw [encode_array hne, encodeAll_eq_flatMap]
    simp only [List.length_append]
    omega

/-- The blocks of an array, at most as many as the fuel: a count, negative if the size of the block in
bytes comes next, the items, and so on up to the count 0. -/
def readBlocks (item : Reader Value) : Nat → Reader (List Value)
  | 0 => failure
  | fuel + 1 => do
    let n ← readLong
    if n = 0 then pure []
    else do
      if n.toInt < 0 then discard readLong
      let block ← readTimes item n.toInt.natAbs
      let blocks ← readBlocks item fuel
      pure (block ++ blocks)

/-- An array.  Each block has a count of at least one byte, so the fuel is never what ends it. -/
def readArray (item : Reader Value) : Reader (List Value) := fun bs => readBlocks item (bs.length + 1) bs

mutual
/-- **`decode link s`** — read a value of schema `s`. -/
def decode (link : String → Reader Value) : Schema → Reader Value
  | .null => pure .null
  | .boolean => do
    let b ← readByte
    if b = 0 then pure (.boolean false) else if b = 1 then pure (.boolean true) else failure
  | .int => do
    let n ← readLong
    if n.toInt32.toInt64 = n then pure (.int n.toInt32) else failure
  | .long => do return .long (← readLong)
  | .float => do return .float (UInt32.ofNat (← readLittleEndian 4))
  | .double => do return .double (UInt64.ofNat (← readLittleEndian 8))
  | .bytes => do return .bytes (← readExactly (← readSize))
  | .string => do return .string ((← readExactly (← readSize)) ++ [0])
  | .enum _ symbols => do
    let n ← readSize
    if n < symbols.length then pure (.enum n) else failure
  | .record _ _ fields => do return .record (← decodeFields link fields)
  | .array items => do return .array (← readArray (decode link items))
  | .union branches => do
    let n ← readSize
    return .union n (← decodeBranch link branches n)
  | .link name => link name

def decodeFields (link : String → Reader Value) : List (String × Schema) → Reader (List Value)
  | [] => pure []
  | f :: fs => do
    let v ← decodeField link f
    let vs ← decodeFields link fs
    pure (v :: vs)

def decodeField (link : String → Reader Value) : String × Schema → Reader Value
  | (_, s) => decode link s

def decodeBranch (link : String → Reader Value) : List Schema → Nat → Reader Value
  | [], _ => failure
  | s :: _, 0 => decode link s
  | _ :: ss, n + 1 => decodeBranch link ss n
end

mutual
/-- **`conforms link s v`** — `v` is a value of schema `s`, of a size that can be written. -/
def conforms (link : String → Value → Bool) : Schema → Value → Bool
  | .null, .null => true
  | .boolean, .boolean _ => true
  | .int, .int _ => true
  | .long, .long _ => true
  | .float, .float _ => true
  | .double, .double _ => true
  | .bytes, .bytes content => content.length < maxSize
  | .string, .string buffer => buffer.length < maxSize && buffer.getLast? == some 0
  | .enum _ symbols, .enum n => n < symbols.length && n < maxSize
  | .record _ _ fields, .record vs => conformsFields link fields vs
  | .array s, .array vs => vs.length < maxSize && vs.all (fun v => conforms link s v)
  | .union branches, .union n v => n < maxSize && conformsBranch link branches n v
  | .link name, v => link name v
  | _, _ => false

def conformsFields (link : String → Value → Bool) : List (String × Schema) → List Value → Bool
  | [], [] => true
  | f :: fs, v :: vs => conformsField link f v && conformsFields link fs vs
  | _, _ => false

def conformsField (link : String → Value → Bool) : String × Schema → Value → Bool
  | (_, s), v => conforms link s v

def conformsBranch (link : String → Value → Bool) : List Schema → Nat → Value → Bool
  | [], _, _ => false
  | s :: _, 0, v => conforms link s v
  | _ :: ss, n + 1, v => conformsBranch link ss n v
end

/-! ## §5 — What is written is read back -/

section

variable {readLink : String → Reader Value} {isLink : String → Value → Bool}

theorem reads_blocks_nil (item : Reader Value) (fuel : Nat) :
    Reads (readBlocks item (fuel + 1)) (encodeSize 0) [] := by
  apply (reads_long _).map
  rfl

theorem reads_blocks {item : Reader Value} (fuel : Nat) {vs : List Value} (hne : vs ≠ [])
    (hlen : vs.length < maxSize) (h : ∀ v ∈ vs, Reads item (encode v) v) :
    Reads (readBlocks item (fuel + 2))
      (encodeSize vs.length ++ (vs.flatMap encode ++ encodeSize 0)) vs := by
  have hcount := toInt_ofNat_size hlen
  have hpos : 0 < vs.length := List.length_pos_iff.mpr hne
  have hzero : Int64.ofNat vs.length ≠ 0 := by
    intro h0
    rw [h0] at hcount
    simp at hcount
    omega
  unfold readBlocks
  apply (reads_long _).bind
  -- one block with a positive count, then the empty block that ends the array
  rw [if_neg hzero, if_neg (by omega), hcount, Int.natAbs_natCast]
  apply (reads_times vs h).bind
  apply (reads_blocks_nil item fuel).map
  rw [List.append_nil]

theorem reads_array {item : Reader Value} {vs : List Value} (hlen : vs.length < maxSize)
    (h : ∀ v ∈ vs, Reads item (encode v) v) : Reads (readArray item) (encode (.array vs)) vs := by
  intro rest
  unfold readArray
  by_cases hne : vs = []
  · subst hne
    rw [encode]
    exact reads_blocks_nil item _ rest
  · rw [encode_array hne]
    obtain ⟨fuel, hfuel⟩ : ∃ fuel, (encodeSize vs.length ++ (vs.flatMap encode ++ encodeSize 0)
        ++ rest).length + 1 = fuel + 2 := by
      have hend : (encodeSize 0).length = 1 := rfl
      apply Nat.exists_eq_add_of_le'
      simp only [List.length_append, hend]
      omega
    rw [hfuel]
    exact reads_blocks fuel hne hlen h rest

theorem reads_string {buffer : Bytes} (hlen : buffer.length < maxSize)
    (hend : buffer.getLast? = some 0) :
    Reads (decode readLink .string) (encode (.string buffer)) (.string buffer) := by
  obtain ⟨text, rfl⟩ := List.getLast?_eq_some_iff.mp hend
  have hsize : text.length < maxSize := by
    rw [List.length_append] at hlen
    omega
  rw [encode, decode, List.dropLast_concat, List.length_append, List.length_singleton,
    Nat.add_sub_cancel]
  apply (reads_size hsize).bind
  exact (reads_exactly text).map rfl

mutual
/-- **What is written of a conforming value is read back**, if that holds of the linked types. -/
theorem reads_encode (hlink : ∀ name v, isLink name v → Reads (readLink name) (encode v) v) :
    ∀ s v, conforms isLink s v → Reads (decode readLink s) (encode v) v
  | .null, v, h => by
    cases v <;> simp only [conforms, Bool.false_eq_true] at h
    rw [encode, decode]
    exact Reads.pure _
  | .boolean, v, h => by
    cases v <;> simp only [conforms, Bool.false_eq_true] at h
    case boolean b =>
      rw [encode, decode]
      cases b <;> exact (reads_byte _).map rfl
  | .int, v, h => by
    cases v <;> simp only [conforms, Bool.false_eq_true] at h
    case int n =>
      rw [encode, decode]
      apply (reads_long _).map
      rw [Int32.toInt32_toInt64, if_pos rfl]
  | .long, v, h => by
    cases v <;> simp only [conforms, Bool.false_eq_true] at h
    rw [encode, decode]
    exact (reads_long _).map rfl
  | .float, v, h => by
    cases v <;> simp only [conforms, Bool.false_eq_true] at h
    case float bits =>
      rw [encode, decode]
      apply (reads_littleEndian 4 _ bits.toNat_lt).map
      rw [UInt32.ofNat_toNat]
  | .double, v, h => by
    cases v <;> simp only [conforms, Bool.false_eq_true] at h
    case double bits =>
      rw [encode, decode]
      apply (reads_littleEndian 8 _ bits.toNat_lt).map
      rw [UInt64.ofNat_toNat]
  | .bytes, v, h => by
    cases v <;> simp only [conforms, Bool.false_eq_true, decide_eq_true_eq] at h
    case bytes content =>
      rw [encode, decode]
      apply (reads_size h).bind
      exact (reads_exactly content).map rfl
  | .string, v, h => by
    cases v <;> simp only [conforms, Bool.false_eq_true, Bool.and_eq_true, decide_eq_true_eq,
      beq_iff_eq] at h
    exact reads_string h.1 h.2
  | .enum _ symbols, v, h => by
    cases v <;> simp only [conforms, Bool.false_eq_true, Bool.and_eq_true, decide_eq_true_eq] at h
    rw [encode, decode]
    apply (reads_size h.2).map
    rw [if_pos h.1]
  | .record _ _ fields, v, h => by
    cases v <;> simp only [conforms, Bool.false_eq_true] at h
    case record vs =>
      rw [encode, decode]
      exact (reads_encodeAll hlink fields vs h).map rfl
  | .array s, v, h => by
    cases v <;> simp only [conforms, Bool.false_eq_true, Bool.and_eq_true, decide_eq_true_eq,
      List.all_eq_true] at h
    case array vs =>
      rw [decode]
      exact (reads_array h.1 fun v hv => reads_encode hlink s v (h.2 v hv)).map rfl
  | .union branches, v, h => by
    cases v <;> simp only [conforms, Bool.false_eq_true, Bool.and_eq_true, decide_eq_true_eq] at h
    case union n v =>
      rw [encode, decode]
      apply (reads_size h.1).bind
      exact (reads_encodeBranch hlink branches n v h.2).map rfl
  | .link name, v, h => by
    rw [conforms] at h
    rw [decode]
    exact hlink name v h

theorem reads_encodeAll (hlink : ∀ name v, isLink name v → Reads (readLink name) (encode v) v) :
    ∀ fs vs, conformsFields isLink fs vs → Reads (decodeFields readLink fs) (encodeAll vs) vs
  | [], [], _ => by
    rw [encodeAll, decodeFields]
    exact Reads.pure []
  | f :: fs, v :: vs, h => by
    rw [conformsFields, Bool.and_eq_true] at h
    rw [encodeAll, decodeFields]
    apply (reads_encodeField hlink f v h.1).bind
    exact (reads_encodeAll hlink fs vs h.2).map rfl
  | [], _ :: _, h => by simp [conformsFields] at h
  | _ :: _, [], h => by simp [conformsFields] at h

theorem reads_encodeField (hlink : ∀ name v, isLink name v → Reads (readLink name) (encode v) v) :
    ∀ f v, conformsField isLink f v → Reads (decodeField readLink f) (encode v) v
  | (_, s), v, h => by
    rw [conformsField] at h
    rw [decodeField]
    exact reads_encode hlink s v h

theorem reads_encodeBranch (hlink : ∀ name v, isLink name v → Reads (readLink name) (encode v) v) :
    ∀ ss n v, conformsBranch isLink ss n v → Reads (decodeBranch readLink ss n) (encode v) v
  | [], n, v, h => by simp [conformsBranch] at h
  | s :: ss, 0, v, h => by
    rw [conformsBranch] at h
    rw [decodeBranch]
    exact reads_encode hlink s v h
  | s :: ss, n + 1, v, h => by
    rw [conformsBranch] at h
    rw [decodeBranch]
    exact reads_encodeBranch hlink ss n v h
end

/-- **The encoding is injective** on the values of one schema. -/
theorem eq_of_encode_eq (hlink : ∀ name v, isLink name v → Reads (readLink name) (encode v) v) {s : Schema}
    {v w : Value} (hv : conforms isLink s v) (hw : conforms isLink s w) (h : encode v = encode w) :
    v = w := by
  have hread := reads_encode hlink s v hv []
  rw [h, reads_encode hlink s w hw []] at hread
  exact (congrArg Prod.fst (Option.some.inj hread)).symm

end

end BottledWater.Lib.Avro
