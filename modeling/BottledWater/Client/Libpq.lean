/-
# BottledWater.Client.Libpq — what the client sees of the Postgres library.

The results of `PQexec`, `PQexecParams` and `PQgetResult` as far as the client looks at them, the
commands it sends on the replication connection, and the LSN that it reads from a text result.
A value is the list of its bytes, without the terminating NUL of a text value.
-/
import Mathlib.Data.List.Basic
import Mathlib.Data.UInt

namespace BottledWater.Client

/-! ## Results -/

/-- `ExecStatusType`. -/
inductive ExecStatusType
  | emptyQuery
  | commandOk
  | tuplesOk
  | copyOut
  | copyIn
  | badResponse
  | nonfatalError
  | fatalError
  | copyBoth
  | singleTuple
  deriving DecidableEq, Repr

/-- A `PGresult`. -/
structure PGresult where
  status : ExecStatusType
  /-- The rows; a null value is `none`. -/
  values : List (List (Option (List UInt8)))
  nfields : Nat
  /-- `PQfformat` of every column: 0 for text, 1 for binary. -/
  fformat : Int
  deriving DecidableEq, Repr

/-- `PQresultStatus`, which is `PGRES_FATAL_ERROR` for a null pointer. -/
def resultStatus (res : Option PGresult) : ExecStatusType :=
  match res with
  | none => .fatalError
  | some res => res.status

/-- `PQntuples`. -/
def PGresult.ntuples (res : PGresult) : Nat := res.values.length

/-- `PQgetvalue`, with `none` where `PQgetisnull` is true (which it is out of range too). -/
def PGresult.getvalue (res : PGresult) (row column : Nat) : Option (List UInt8) :=
  ((res.values[row]?).bind (·[column]?)).join

/-! ## Commands on the replication connection -/

inductive ReplicationCommand
  /-- `IDENTIFY_SYSTEM` -/
  | identifySystem
  /-- `CREATE_REPLICATION_SLOT "slot_name" LOGICAL "output_plugin"` -/
  | createReplicationSlot (slotName outputPlugin : String)
  /-- `DROP_REPLICATION_SLOT "slot_name"` -/
  | dropReplicationSlot (slotName : String)
  /-- `START_REPLICATION SLOT "slot_name" LOGICAL start_lsn` -/
  | startReplication (slotName : String) (startLsn : UInt64)
  deriving DecidableEq, Repr

/-! ## `sscanf(text, "%X/%X", &h32, &l32)` -/

def isSpace (c : UInt8) : Bool := c = 32 ∨ 9 ≤ c ∧ c ≤ 13

/-- The value of a hexadecimal digit of either case. -/
def hexValue (c : UInt8) : Option Nat :=
  if 48 ≤ c ∧ c ≤ 57 then some (c.toNat - 48)
  else if 65 ≤ c ∧ c ≤ 70 then some (c.toNat - 55)
  else if 97 ≤ c ∧ c ≤ 102 then some (c.toNat - 87)
  else none

/-- The leading hexadecimal digits, folded into `acc`, and what follows them. -/
def hexDigits (acc : Nat) : List UInt8 → Nat × List UInt8
  | [] => (acc, [])
  | c :: rest =>
    match hexValue c with
    | some d => hexDigits (16 * acc + d) rest
    | none => (acc, c :: rest)

/-- The digits of a number that may be written with `0x`. -/
def hexNumber (text : List UInt8) : Option (Nat × List UInt8) :=
  let text :=
    match text with
    | 48 :: x :: d :: rest =>
      if (x = 120 ∨ x = 88) ∧ (hexValue d).isSome then d :: rest else text
    | _ => text
  match text with
  | c :: _ => if (hexValue c).isSome then some (hexDigits 0 text) else none
  | [] => none

/-- A `%X` conversion: white space, a sign, the digits.  The number is converted as `strtoul` does, to 64
bits with saturation, and the low 32 bits are stored. -/
def scanHex (text : List UInt8) : Option (UInt32 × List UInt8) :=
  let (negative, text) :=
    match text.dropWhile isSpace with
    | 45 :: rest => (true, rest)
    | 43 :: rest => (false, rest)
    | text => (false, text)
  (hexNumber text).map fun (n, rest) =>
    if n < 2 ^ 64 then
      (if negative then 0 - UInt32.ofNat n else UInt32.ofNat n, rest)
    else (UInt32.ofNat (2 ^ 64 - 1), rest)

/-- The LSN that is stored when `sscanf` returns 2. -/
def sscanfLsn (text : List UInt8) : Option UInt64 :=
  match scanHex text with
  | some (h32, 47 :: rest) =>
    (scanHex rest).map fun (l32, _) => h32.toUInt64 <<< 32 ||| l32.toUInt64
  | _ => none

end BottledWater.Client
