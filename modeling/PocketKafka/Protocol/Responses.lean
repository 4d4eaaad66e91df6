import PocketKafka.Protocol.Writer

namespace PocketKafka.Protocol

open Bytes Writer

structure JoinGroupResponseMember where
  memberID : Bytes
  instanceID : Option Bytes
  metadata : Bytes
  deriving DecidableEq, Repr

structure PartitionErrors where
  topic : Bytes
  partitions : List (Int × Int)
  deriving DecidableEq, Repr

structure OffsetCommitResponse where
  version : Int
  throttleTimeMs : Int
  topics : List PartitionErrors
  deriving DecidableEq, Repr

structure OffsetFetchResponsePartition where
  partition : Int
  offset : Int
  leaderEpoch : Int
  metadata : Option Bytes
  errorCode : Int
  deriving DecidableEq, Repr

structure OffsetFetchResponseTopic where
  topic : Bytes
  partitions : List OffsetFetchResponsePartition
  deriving DecidableEq, Repr

structure OffsetFetchResponse where
  version : Int
  throttleTimeMs : Int
  topics : List OffsetFetchResponseTopic
  errorCode : Int
  deriving DecidableEq, Repr

structure SASLHandshakeResponse where
  version : Int
  errorCode : Int
  mechanisms : Option (List Bytes)
  deriving DecidableEq, Repr

structure SaslAuthenticateResponse where
  version : Int
  errorCode : Int
  errorMessage : Option Bytes
  authBytes : Bytes
  sessionLifetimeMs : Int
  deriving DecidableEq, Repr

end PocketKafka.Protocol
