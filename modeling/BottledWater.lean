import BottledWater.Lib.Window
import BottledWater.Lib.Trace
import BottledWater.Lib.Proc
import BottledWater.Lib.Avro
import BottledWater.Lib.Setter
import BottledWater.Lib.AvroNames
import BottledWater.Lib.Keyed
import BottledWater.Lib.Ledger
import BottledWater.Lib.Sink
import BottledWater.Lib.Changelog
import BottledWater.Lib.Query
import BottledWater.Client.Replication
import BottledWater.Client.Libpq
import BottledWater.Client.LsnText
import BottledWater.Client.Protocol
import BottledWater.Ext.Relation
import BottledWater.Ext.SchemaCache
import BottledWater.Ext.Server
import BottledWater.Ext.IoUtil
import BottledWater.Ext.Logdecoder
import BottledWater.Ext.KeyPosition
import BottledWater.Ext.Encoding
import BottledWater.Ext.Datum
import BottledWater.Ext.NamedTypes
import BottledWater.Ext.Conformance
import BottledWater.Ext.DistinctKeys
import BottledWater.Ext.KeyEntries
import BottledWater.Ext.TableList
import BottledWater.Ext.KeyChoice
import BottledWater.Ext.Export
import BottledWater.Protocol.Frame
import BottledWater.Protocol.Delivery
import BottledWater.Protocol.Agreement
import BottledWater.Kafka.Producer
import BottledWater.Kafka.System
import BottledWater.Kafka.Ring
import BottledWater.Kafka.History
import BottledWater.Kafka.Checkpoint
import BottledWater.Kafka.Backpressure
import BottledWater.Kafka.Snapshot
import BottledWater.Kafka.Registry
import BottledWater.Kafka.TableMapper
import BottledWater.Kafka.Produce
import BottledWater.Kafka.Enqueue
import BottledWater.Protocol.TableLog
import BottledWater.Protocol.Decoding
import BottledWater.Protocol.SnapshotDelivery
import BottledWater.Kafka.SchemaIds
import BottledWater.Kafka.Updates
import BottledWater.Kafka.Handles
import BottledWater.Kafka.Topics
import BottledWater.Process.World
import BottledWater.Process.Main
import BottledWater.Process.Slot
import BottledWater.Process.Phases
import BottledWater.Process.SnapshotOrder
import BottledWater.Node.Web
import BottledWater.Node.Worker
import BottledWater.Node.Ports
import BottledWater.Lib.Redelivery
import BottledWater.Deployment.Session
import BottledWater.Deployment.Pipeline
import BottledWater.Deployment.Cluster
import BottledWater.Deployment.Recovery
import BottledWater.Deployment.Resend
import BottledWater.Deployment.Tables
import BottledWater.Deployment.Workers
import BottledWater.Client.Objects
import BottledWater.Client.Ownership
