/-
# BottledWater.Kafka.Produce — from the callbacks of the client to the messages in Kafka.

The callbacks of `kafka/bottledwater.c` that are about tables and rows: `on_table_schema` updates the
table mapper, and the three row callbacks call `send_kafka_msg`, which encodes key and value for the
topic of the table.  The counting of messages and the loop around `rd_kafka_produce` are the subject of
`Kafka.System`; here a message is sent once it is encoded.

A callback that calls `exit_nicely` does not return, which is `none`.
-/
import BottledWater.Kafka.TableMapper

namespace BottledWater.Kafka

open BottledWater.Lib BottledWater.Lib.Avro BottledWater.Client BottledWater.Protocol

/-! ## §1 — Rows -/

/-- The arguments of `send_kafka_msg`. -/
structure RowMsg where
  relid : Oid
  key : Option Bytes
  val : Option Bytes
  deriving DecidableEq, Repr

/-- `on_insert_row`, `on_update_row` and `on_delete_row`: the call of `send_kafka_msg`, if there is one. -/
def rowMsg : Callback → Option RowMsg
  | .insertRow _ relid keyBin newBin => some ⟨relid, keyBin, some newBin⟩
  | .updateRow _ relid keyBin _ newBin => some ⟨relid, keyBin, some newBin⟩
  | .deleteRow _ relid (some keyBin) _ => some ⟨relid, some keyBin, none⟩
  | .deleteRow _ _ none _ => none  -- delete on unkeyed table: can't do anything
  | _ => none

/-! ## §2 — `send_kafka_msg` -/

/-- `format_t`. -/
inductive OutputFormat
  | avro
  | json
  deriving DecidableEq, Repr

/-- What the producer is built on, and how it was started. -/
structure ProducerConfig where
  lib : Libraries
  outputFormat : OutputFormat
  /-- `avro_value_read` and `avro_value_to_json` under a schema. -/
  binToJson : Schema → Bytes → Option Bytes

/-- The arguments of `rd_kafka_produce`. -/
structure ProduceArgs where
  topic : Option Topic
  val : Buffer
  key : Buffer
  deriving DecidableEq, Repr

structure Producer where
  mapper : TableMapper
  /-- The calls of `rd_kafka_produce`, in order. -/
  sent : List ProduceArgs

/-- `avro_bin_to_json`.  Without a value the length is not set. -/
def avroBinToJson (config : ProducerConfig) : Option Schema → Option Bytes → Option Buffer
  | _, none => some ⟨none, 0⟩
  | none, some _ => none
  | some schema, some bin => (config.binToJson schema bin).map fun text => ⟨some text, text.length⟩

/-- `json_encode_msg`, for key and row. -/
def jsonEncodeMsg (config : ProducerConfig) (table : TableMetadata) (keyBin rowBin : Option Bytes) :
    Option (Buffer × Buffer) := do
  let key ← avroBinToJson config table.keySchema keyBin
  let row ← avroBinToJson config table.rowSchema rowBin
  some (key, row)

/-- The `switch` on the output format. -/
def encodeMsg (config : ProducerConfig) (table : TableMetadata) (keyBin valBin : Option Bytes) :
    Option (Buffer × Buffer) :=
  match config.outputFormat with
  | .json => jsonEncodeMsg config table keyBin valBin
  | .avro => some (schemaRegistryEncodeMsg table.keySchemaId table.rowSchemaId keyBin valBin)

/-- `val, val == NULL ? 0 : val_encoded_len`. -/
def passed (b : Buffer) : Buffer := ⟨b.ptr, if b.ptr.isNone then 0 else b.len⟩

/-- `send_kafka_msg`. -/
def sendKafkaMsg (config : ProducerConfig) (producer : Producer) (msg : RowMsg) : Option Producer := do
  let table ← tableMapperLookup producer.mapper msg.relid
  let (key, val) ← encodeMsg config table msg.key msg.val
  some { producer with sent := producer.sent ++ [⟨table.topic, passed val, passed key⟩] }

/-! ## §3 — The callbacks -/

/-- `on_table_schema`. -/
def onTableSchema (config : ProducerConfig) (producer : Producer) (relid : Oid)
    (keySchemaJson : Option Bytes) (rowSchemaJson : Bytes) (rowSchema : Schema) : Option Producer :=
  match tableMapperUpdate config.lib relid rowSchema.name keySchemaJson rowSchemaJson producer.mapper with
  | .ok _ mapper => some { producer with mapper }
  | .error _ _ => none

/-- A callback about a table or a row; those about transactions have no part in this. -/
def Producer.on (config : ProducerConfig) (producer : Producer) (call : Callback) : Option Producer :=
  match call with
  | .tableSchema _ relid keySchemaJson _ rowSchemaJson rowSchema =>
    onTableSchema config producer relid keySchemaJson rowSchemaJson rowSchema
  | call =>
    match rowMsg call with
    | some msg => sendKafkaMsg config producer msg
    | none => some producer

/-- The callbacks as `parse_frame` calls them.  That the process is gone is an error here. -/
def Producer.callback (config : ProducerConfig) (call : Callback) (producer : Producer) :
    Int × Producer :=
  match producer.on config call with
  | some producer => (0, producer)
  | none => (1, producer)

/-- `DEFAULT_SCHEMA_REGISTRY`. -/
def defaultSchemaRegistry : String := "http://localhost:8081"

/-- `parse_options` and `start_producer`: Avro output always has a registry, and a registry together with
JSON output is a usage error. -/
def startProducer (outputFormat : OutputFormat) (registryUrl topicPrefix : Option String) :
    Option Producer :=
  match outputFormat, registryUrl with
  | .avro, url =>
    let registry := schemaRegistrySetUrl (url.getD defaultSchemaRegistry)
    some ⟨tableMapperNew (some registry) topicPrefix, []⟩
  | .json, some _ => none
  | .json, none => some ⟨tableMapperNew none topicPrefix, []⟩

end BottledWater.Kafka

namespace BottledWater.Protocol

open BottledWater.Client
open BottledWater.Kafka (RowMsg)

/-! ## §4 — Rows on the wire -/

/-- The message in Kafka for a message of the frame, if there is one. -/
def Message.rowMsg (m : Message) : Option RowMsg :=
  match m with
  | .insert relid key new => some ⟨relid, key, some new⟩
  | .update relid key _ new => some ⟨relid, key, some new⟩
  | .delete relid (some key) _ => some ⟨relid, some key, none⟩
  | _ => none

theorem rowMsg_of_callback {avro : Libavro} {walPos : UInt64} {m : Message} {call : Callback}
    (h : m.callback avro walPos = some call) : Kafka.rowMsg call = m.rowMsg := by
  cases m with
  | tableSchema relid key row =>
    simp only [Message.callback, Option.bind_eq_bind, Option.bind_eq_some_iff] at h
    obtain ⟨_, _, _, _, ⟨⟩⟩ := h
    rfl
  | delete relid key old =>
    cases h
    cases key <;> rfl
  | _ =>
    cases h
    rfl

end BottledWater.Protocol
