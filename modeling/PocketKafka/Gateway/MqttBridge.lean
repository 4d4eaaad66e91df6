import PocketKafka.Authz.Types
import PocketKafka.Gateway.MqttPackets
import PocketKafka.Protocol.RecordBatch
import PocketKafka.Storage.Store

namespace PocketKafka.Gateway

open Bytes Authz Storage

structure MqttBridge where
  secure : Bool
  requireTLS : Bool
  authenticate : MqttConnectInfo → Option Bytes
  authorizer : Authorizer

namespace MqttBridge

def authorize (b : MqttBridge) (principal : Bytes) (op : Authz.Operation) (kafkaTopic : Bytes) : Bool :=
  b.authorizer.allows principal op ⟨resourceTopic, kafkaTopic⟩

end MqttBridge

def mqttTopicHeader : Bytes := ascii "mqtt-topic"

def mqttBatch (mqttTopic data : Bytes) (now : Int) : Protocol.RecordBatch where
  baseOffset := 0
  partitionLeaderEpoch := 0
  magic := 0
  crc := 0
  attributes := 0
  lastOffsetDelta := 0
  baseTimestamp := now
  maxTimestamp := now
  producerID := -1
  producerEpoch := -1
  baseSequence := -1
  records := [{
    attributes := 0
    timestampDelta := 0
    offsetDelta := 0
    key := some (topicKey mqttTopic)
    value := some data
    headers := [⟨mqttTopicHeader, some mqttTopic⟩] }]

structure PublishWorld where
  now : Int
  opening : Opening
  faults : AppendFaults

def bridgePublish (store : Store) (mqttTopic data : Bytes) (world : PublishWorld) : Except Failure Int × Store :=
  let kt := mqttTopicToKafka mqttTopic
  let store := if (store.getTopic kt).isNone then (store.ensureTopic kt 1 world.opening).2 else store
  match store.getPartition kt 0 with
  | none =>
    let shown := text kt
    (.error (.error s!"partition unavailable for {shown}"), store)
  | some part =>
    match Protocol.encodeRecordBatch (mqttBatch mqttTopic data world.now) with
    | .error failure => (.error failure, store)
    | .ok raw =>
      let (result, part) := part.appendWith raw world.faults
      (result, store.setPartition kt 0 part)

/-- A connection. `subs` holds the filters of each Kafka topic that is forwarded to the client. -/
structure MqttClient where
  principal : Bytes
  authed : Bool
  handshake : Bool
  clientID : Bytes
  subs : List (Bytes × List Bytes)
  deriving DecidableEq, Repr

namespace MqttClient

def accepted (b : MqttBridge) : MqttClient := ⟨[], !b.secure, true, [], []⟩

def maxLen (c : MqttClient) : Nat := if c.handshake then 65536 else 1048576

def addSubscription (c : MqttClient) (kafkaTopic filter : Bytes) : MqttClient × Bool :=
  match c.subs.lookup kafkaTopic with
  | some _ => ({ c with subs := c.subs.map fun (kt, filters) =>
      if kt = kafkaTopic then (kt, filter :: filters.erase filter) else (kt, filters) }, false)
  | none => ({ c with subs := (kafkaTopic, [filter]) :: c.subs }, true)

def removeSubscription (c : MqttClient) (kafkaTopic filter : Bytes) : MqttClient :=
  { c with subs := c.subs.filterMap fun (kt, filters) =>
      if kt = kafkaTopic then
        let left := filters.filter (· ≠ filter)
        if left = [] then none else some (kt, left)
      else some (kt, filters) }

end MqttClient

structure PacketWorld where
  publish : PublishWorld
  tls : Bool
  writes : Bool

structure Served where
  client : MqttClient
  store : Store
  written : List MqttPacket
  appended : Option (Bytes × Int)
  running : Bool

namespace MqttBridge

variable (b : MqttBridge) (world : PacketWorld)

def answer (c : MqttClient) (store : Store) (ptype : UInt8) (payload : Bytes) : Served :=
  ⟨c, store, if world.writes then [⟨ptype, payload⟩] else [], none, world.writes⟩

def ignore (c : MqttClient) (store : Store) : Served := ⟨c, store, [], none, true⟩

def stop (c : MqttClient) (store : Store) : Served := ⟨c, store, [], none, false⟩

def refuse (c : MqttClient) (store : Store) (code : UInt8) : Served :=
  { answer world c store mqttConnack [0, code] with running := false }

def serveConnect (c : MqttClient) (store : Store) (payload : Bytes) : Served :=
  let welcome (c : MqttClient) : Served :=
    let c := match parseConnect payload with
      | .ok info => { c with clientID := info.clientID }
      | .error _ => c
    answer world c store mqttConnack [0, 0]
  if b.secure then
    match parseConnect payload with
    | .error _ => refuse world c store 1
    | .ok info =>
      if b.requireTLS && !world.tls && (info.username != [] || info.password != []) then refuse world c store 5
      else
        match b.authenticate info with
        | none => refuse world c store 5
        | some user => welcome { c with principal := user, authed := true }
  else welcome c

def servePublish (c : MqttClient) (store : Store) (flags : UInt8) (payload : Bytes) : Served :=
  match parsePublish flags payload with
  | .error _ => ignore c store
  | .ok p =>
    let kt := mqttTopicToKafka p.topic
    if b.authorize c.principal .write kt then
      match bridgePublish store p.topic p.data world.publish with
      | (.error _, store) => ignore c store
      | (.ok offset, store) =>
        let answered :=
          if p.qos = 1 then answer world c store mqttPuback (u16 p.packetID)
          else if p.qos = 2 then answer world c store mqttPubrec (u16 p.packetID)
          else ignore c store
        { answered with appended := some (kt, offset) }
    else ignore c store

def servePubrel (c : MqttClient) (store : Store) (payload : Bytes) : Served :=
  if 2 ≤ payload.length then answer world c store mqttPubcomp (payload.take 2) else ignore c store

def subackCodes (c : MqttClient) (filters : List Bytes) : Bytes :=
  filters.map fun f => if b.authorize c.principal .read (mqttFilterToKafka f) then 0x00 else 0x80

def ensureFilterTopic (principal : Bytes) (opening : Opening) (store : Store) (kt : Bytes) : Store :=
  if (store.getPartition kt 0).isNone && b.authorize principal .write kt then (store.ensureTopic kt 1 opening).2
  else store

def subscribeFilter (state : MqttClient × Store) (f : Bytes) : MqttClient × Store :=
  let (c, store) := state
  if b.authorize c.principal .read (mqttFilterToKafka f) then
    let kt := mqttFilterToKafka f
    ((c.addSubscription kt f).1, b.ensureFilterTopic c.principal world.publish.opening store kt)
  else (c, store)

def serveSubscribe (c : MqttClient) (store : Store) (payload : Bytes) : Served :=
  match parseSubscribe payload with
  | .error _ => ignore c store
  | .ok (packetID, filters) =>
    let acknowledged := answer world c store mqttSuback (u16 packetID ++ b.subackCodes c filters)
    if world.writes then
      let (c, store) := filters.foldl (b.subscribeFilter world) (c, store)
      { acknowledged with client := c, store := store }
    else acknowledged

def serveUnsubscribe (c : MqttClient) (store : Store) (payload : Bytes) : Served :=
  match parseUnsubscribe payload with
  | .error _ => ignore c store
  | .ok (packetID, filters) =>
    let c := filters.foldl (fun c f => c.removeSubscription (mqttFilterToKafka f) f) c
    answer world c store mqttUnsuback (u16 packetID)

def servePacket (c : MqttClient) (store : Store) (first : UInt8) (payload : Bytes) : Served :=
  let ptype := first >>> 4
  let flags := first &&& 0x0F
  if c.maxLen < payload.length then stop c store
  else if b.secure && !c.authed && ptype != mqttConnect then stop c store
  else
    let c := if c.handshake && (ptype == mqttConnect || !b.secure) then { c with handshake := false } else c
    if ptype = mqttConnect then b.serveConnect world c store payload
    else if ptype = mqttPublish then b.servePublish world c store flags payload
    else if ptype = mqttPubrel then servePubrel world c store payload
    else if ptype = mqttSubscribe then b.serveSubscribe world c store payload
    else if ptype = mqttUnsubscribe then serveUnsubscribe world c store payload
    else if ptype = mqttPingreq then answer world c store mqttPingresp []
    else if ptype = mqttDisconnect then stop c store
    else ignore c store

end MqttBridge

end PocketKafka.Gateway
