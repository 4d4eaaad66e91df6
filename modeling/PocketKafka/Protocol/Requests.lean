import PocketKafka.Protocol.Decoder

namespace PocketKafka.Protocol

open Bytes Decoder

def apkProduce : Int := 0
def apkSaslHandshake : Int := 17
def apkApiVersions : Int := 18
def apkSaslAuthenticate : Int := 36
structure ProduceRequestPartition where
  partition : Int
  records : Option Bytes
  deriving DecidableEq, Repr

structure ProduceRequestTopic where
  topic : Bytes
  partitions : List ProduceRequestPartition
  deriving DecidableEq, Repr

structure ProduceRequest where
  version : Int
  acks : Int
  timeout : Int
  topics : List ProduceRequestTopic
  deriving DecidableEq, Repr

structure OffsetCommitRequestPartition where
  partition : Int
  offset : Int
  leaderEpoch : Int
  metadata : Option Bytes
  deriving DecidableEq, Repr

structure OffsetCommitRequestTopic where
  topic : Bytes
  partitions : List OffsetCommitRequestPartition
  deriving DecidableEq, Repr

structure OffsetCommitRequest where
  version : Int
  group : Bytes
  generation : Int
  memberID : Bytes
  instanceID : Option Bytes
  topics : List OffsetCommitRequestTopic
  deriving DecidableEq, Repr

structure PartitionsOfTopic where
  topic : Bytes
  partitions : List Int
  deriving DecidableEq, Repr

/-- `none` asks for all topics. -/
structure OffsetFetchRequest where
  version : Int
  group : Bytes
  topics : Option (List PartitionsOfTopic)
  deriving DecidableEq, Repr

structure JoinGroupRequestProtocol where
  name : Bytes
  metadata : Option Bytes
  deriving DecidableEq, Repr

structure JoinGroupRequest where
  version : Int
  group : Bytes
  sessionTimeoutMs : Int
  rebalanceTimeoutMs : Int
  memberID : Bytes
  instanceID : Option Bytes
  protocolType : Bytes
  protocols : List JoinGroupRequestProtocol
  deriving DecidableEq, Repr

structure HeartbeatRequest where
  version : Int
  group : Bytes
  generationID : Int
  memberID : Bytes
  instanceID : Option Bytes
  deriving DecidableEq, Repr

structure LeaveGroupRequestMember where
  memberID : Bytes
  instanceID : Option Bytes
  deriving DecidableEq, Repr

structure LeaveGroupRequest where
  version : Int
  group : Bytes
  memberID : Bytes
  members : List LeaveGroupRequestMember
  deriving DecidableEq, Repr

structure SyncGroupRequestAssignment where
  memberID : Bytes
  assignment : Option Bytes
  deriving DecidableEq, Repr

structure SyncGroupRequest where
  version : Int
  group : Bytes
  generationID : Int
  memberID : Bytes
  instanceID : Option Bytes
  assignments : List SyncGroupRequestAssignment
  deriving DecidableEq, Repr

structure SASLHandshakeRequest where
  version : Int
  mechanism : Bytes
  deriving DecidableEq, Repr

structure SaslAuthenticateRequest where
  version : Int
  authBytes : Option Bytes
  deriving DecidableEq, Repr

def decodeOffsetCommitRequest (version : Int) : Decoder OffsetCommitRequest := do
  let group ← readString
  let generation ← fieldIf (1 ≤ version) readInt32 0
  let memberID ← fieldIf (1 ≤ version) readString []
  let _ ← fieldIf (version = 1) readInt64 0
  let instanceID ← fieldIf (7 ≤ version) readNullableString none
  let _ ← fieldIf (2 ≤ version ∧ version ≤ 4) readInt64 0
  let topics ← readArray do
    let topic ← readString
    let partitions ← readArray do
      let partition ← readInt32
      let offset ← readInt64
      let _ ← fieldIf (version = 1) readInt64 0
      let leaderEpoch ← fieldIf (6 ≤ version) readInt32 0
      let metadata ← readNullableString
      pure (OffsetCommitRequestPartition.mk partition offset leaderEpoch metadata)
    pure (OffsetCommitRequestTopic.mk topic partitions)
  pure ⟨version, group, generation, memberID, instanceID, topics⟩

def decodeSASLHandshakeRequest (version : Int) : Decoder SASLHandshakeRequest := do
  let mechanism ← readString
  pure ⟨version, mechanism⟩

def decodeSaslAuthenticateRequest (version : Int) : Decoder SaslAuthenticateRequest := do
  let authBytes ← readBytes
  pure ⟨version, authBytes⟩

/-- A decoder on a whole body. What stands behind the request is not looked at. -/
def decode {α : Type} (decoder : Decoder α) (body : Bytes) : Except Failure α := (decoder ⟨body, 0⟩).map Prod.fst

end PocketKafka.Protocol
