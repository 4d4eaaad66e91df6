import PocketKafka.Authz.Decisions
import PocketKafka.Authz.Editing
import PocketKafka.Authz.RuleStore
import PocketKafka.Authz.Rules
import PocketKafka.Authz.Types
import PocketKafka.Client.Assignment
import PocketKafka.Client.AssignmentWire
import PocketKafka.Client.ProduceRequests
import PocketKafka.Coordinator.AssignmentAgreement
import PocketKafka.Coordinator.DurableOffsets
import PocketKafka.Coordinator.FailedCommit
import PocketKafka.Coordinator.Group
import PocketKafka.Coordinator.GroupDeletion
import PocketKafka.Coordinator.GroupInvariant
import PocketKafka.Coordinator.GroupMap
import PocketKafka.Coordinator.GroupRuns
import PocketKafka.Coordinator.GroupStructure
import PocketKafka.Coordinator.Liveness
import PocketKafka.Coordinator.Manager
import PocketKafka.Coordinator.ManagerSteps
import PocketKafka.Coordinator.OffsetStore
import PocketKafka.Coordinator.OffsetWAL
import PocketKafka.Coordinator.PendingJoins
import PocketKafka.Coordinator.Producer
import PocketKafka.Coordinator.ProtocolAgreement
import PocketKafka.Coordinator.SharedOffsets
import PocketKafka.Coordinator.SharedStore
import PocketKafka.Coordinator.ZombieFencing
import PocketKafka.Fleet.AgentManager
import PocketKafka.Fleet.DockerLogs
import PocketKafka.Fleet.Enrollment
import PocketKafka.Fleet.Envelope
import PocketKafka.Fleet.JobLifecycle
import PocketKafka.Fleet.Jobs
import PocketKafka.Fleet.RateWindow
import PocketKafka.Fleet.Registry
import PocketKafka.Fleet.RegistryFailures
import PocketKafka.Fleet.RegistryRuns
import PocketKafka.Fleet.ReplayProtection
import PocketKafka.Fleet.Revocation
import PocketKafka.Gateway.HttpAuth
import PocketKafka.Gateway.MqttBridge
import PocketKafka.Gateway.MqttFilters
import PocketKafka.Gateway.MqttForwarding
import PocketKafka.Gateway.MqttPackets
import PocketKafka.Gateway.MqttQos
import PocketKafka.Gateway.MqttSafety
import PocketKafka.Gateway.MqttTopics
import PocketKafka.Gateway.MqttWire
import PocketKafka.Gateway.RestConsume
import PocketKafka.Handler.LongPoll
import PocketKafka.Handler.OffsetCommit
import PocketKafka.Handler.Produce
import PocketKafka.Handler.ProducedLog
import PocketKafka.Lib.BackReference
import PocketKafka.Lib.Base64
import PocketKafka.Lib.Buckets
import PocketKafka.Lib.Bytes
import PocketKafka.Lib.Crc
import PocketKafka.Lib.Decimal
import PocketKafka.Lib.Failure
import PocketKafka.Lib.Hex
import PocketKafka.Lib.Intervals
import PocketKafka.Lib.Journal
import PocketKafka.Lib.Numerals
import PocketKafka.Lib.Pruning
import PocketKafka.Lib.Runs
import PocketKafka.Lib.Search
import PocketKafka.Lib.SelfDelimiting
import PocketKafka.Lib.Snapshots
import PocketKafka.Lib.Split
import PocketKafka.Lib.Survivors
import PocketKafka.Lib.Text
import PocketKafka.Lib.UrlPath
import PocketKafka.Lib.Varint
import PocketKafka.Protocol.BatchRoundTrip
import PocketKafka.Protocol.Client
import PocketKafka.Protocol.Compression
import PocketKafka.Protocol.Decoder
import PocketKafka.Protocol.Lz4RoundTrip
import PocketKafka.Protocol.MatchFinder
import PocketKafka.Protocol.Reader
import PocketKafka.Protocol.RecordBatch
import PocketKafka.Protocol.RecordFormat
import PocketKafka.Protocol.Requests
import PocketKafka.Protocol.Responses
import PocketKafka.Protocol.SnappyRoundTrip
import PocketKafka.Protocol.Writer
import PocketKafka.SchemaRegistry.PermanentIds
import PocketKafka.SchemaRegistry.Registry
import PocketKafka.Server.Connection
import PocketKafka.Server.ConnectionSteps
import PocketKafka.Server.Credential
import PocketKafka.Server.Gate
import PocketKafka.Server.LoginBackoff
import PocketKafka.Server.SaslSoundness
import PocketKafka.Server.Scram
import PocketKafka.Storage.CompactedLog
import PocketKafka.Storage.Compaction
import PocketKafka.Storage.CompactionManifest
import PocketKafka.Storage.CompactionPlan
import PocketKafka.Storage.CompactionScan
import PocketKafka.Storage.CompactionSwap
import PocketKafka.Storage.CompactionWindow
import PocketKafka.Storage.CompactionWriter
import PocketKafka.Storage.ConsecutiveReads
import PocketKafka.Storage.DataDirectory
import PocketKafka.Storage.ExactlyOnce
import PocketKafka.Storage.FailedAppend
import PocketKafka.Storage.FailedCompaction
import PocketKafka.Storage.Following
import PocketKafka.Storage.GaplessLog
import PocketKafka.Storage.Idempotence
import PocketKafka.Storage.Index
import PocketKafka.Storage.LogRecords
import PocketKafka.Storage.Partition
import PocketKafka.Storage.PartitionFiles
import PocketKafka.Storage.PartitionLog
import PocketKafka.Storage.PartitionRead
import PocketKafka.Storage.PartitionRecovery
import PocketKafka.Storage.PartitionRuns
import PocketKafka.Storage.Record
import PocketKafka.Storage.RecordedSize
import PocketKafka.Storage.ReopenedLog
import PocketKafka.Storage.RepeatedCompaction
import PocketKafka.Storage.Retention
import PocketKafka.Storage.Segment
import PocketKafka.Storage.SegmentLog
import PocketKafka.Storage.SegmentScan
import PocketKafka.Storage.SparseIndex
import PocketKafka.Storage.StableOffsets
import PocketKafka.Storage.Store
import PocketKafka.Storage.StoredBatches
import PocketKafka.Storage.TopicNames
import PocketKafka.Storage.TopicRecreation
import PocketKafka.Storage.TornIndex
import PocketKafka.Storage.TornLog
import PocketKafka.Storage.WellFormedLog
import PocketKafka.Web.Authorization
import PocketKafka.Web.ClusterSecrets
import PocketKafka.Web.Clusters
import PocketKafka.Web.DelegatedTokens
import PocketKafka.Web.ExternalClients
import PocketKafka.Web.RetentionAlarms
import PocketKafka.Web.Sessions
