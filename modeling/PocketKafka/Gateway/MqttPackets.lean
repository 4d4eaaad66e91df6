import PocketKafka.Gateway.MqttTopics
import PocketKafka.Lib.Failure

namespace PocketKafka.Gateway

open Bytes

def mqttConnect : UInt8 := 1
def mqttConnack : UInt8 := 2
def mqttPublish : UInt8 := 3
def mqttPuback : UInt8 := 4
def mqttPubrec : UInt8 := 5
def mqttPubrel : UInt8 := 6
def mqttPubcomp : UInt8 := 7
def mqttSubscribe : UInt8 := 8
def mqttSuback : UInt8 := 9
def mqttUnsubscribe : UInt8 := 10
def mqttUnsuback : UInt8 := 11
def mqttPingreq : UInt8 := 12
def mqttPingresp : UInt8 := 13
def mqttDisconnect : UInt8 := 14

structure MqttConnectInfo where
  clientID : Bytes
  username : Bytes
  password : Bytes
  hasUsername : Bool
  hasPassword : Bool
  deriving DecidableEq, Repr

/-- The string at the start of `b`, and how many bytes it takes up. -/
def readMQTTString (b : Bytes) : Except Failure (Bytes × Nat) :=
  if b.length < 2 then .error (.error "short mqtt string")
  else
    let n := beUint (slice b 0 2)
    if b.length < 2 + n then .error (.error "mqtt string overrun")
    else .ok (slice b 2 (2 + n), 2 + n)

/-- A string that stands in the packet only if a flag says so. -/
def readFlagged (present : Bool) (payload : Bytes) (pos : Nat) : Except Failure (Bytes × Nat) :=
  if present then do
    let (s, n) ← readMQTTString (payload.drop pos)
    return (s, pos + n)
  else return ([], pos)

def parseConnect (payload : Bytes) : Except Failure MqttConnectInfo :=
  if payload.length < 10 then .error (.error "short connect packet")
  else if ¬ (([0, 4] ++ ascii "MQTT").isPrefixOf payload) then .error (.error "unsupported protocol name")
  else
    let level := payload.getD 6 0
    if level ≠ 4 then
      .error (.error s!"unsupported protocol level {level}")
    else do
      let flags := payload.getD 7 0
      let (clientID, n) ← readMQTTString (payload.drop 10)
      let will := flags &&& 0x04 != 0
      let (_, pos) ← readFlagged will payload (10 + n)
      let (_, pos) ← readFlagged will payload pos
      let named := flags &&& 0x80 != 0
      let (username, pos) ← readFlagged named payload pos
      let secret := flags &&& 0x40 != 0
      let (password, _) ← readFlagged secret payload pos
      return ⟨clientID, username, password, named, secret⟩

structure Publish where
  topic : Bytes
  data : Bytes
  qos : UInt8
  packetID : Nat
  deriving DecidableEq, Repr

def parsePublish (flags : UInt8) (payload : Bytes) : Except Failure Publish :=
  if payload.length < 2 then .error (.error "short publish")
  else
    let qos := (flags >>> 1) &&& 3
    if qos = 3 then .error (.error "invalid publish qos")
    else
      let tlen := beUint (slice payload 0 2)
      if payload.length < 2 + tlen then .error (.error "publish topic overrun")
      else
        let topic := slice payload 2 (2 + tlen)
        let data := payload.drop (2 + tlen)
        if 0 < qos then
          if data.length < 2 then .error (.error "short publish packet id")
          else .ok ⟨topic, data.drop 2, qos, beUint (slice data 0 2)⟩
        else .ok ⟨topic, data, qos, 0⟩

/-- The filters from `pos` on, each followed by `extra` bytes; a filter that is cut off ends the list. -/
def readFilters (extra : Nat) (payload : Bytes) (pos : Nat) : List Bytes :=
  if pos + 2 ≤ payload.length then
    let tlen := beUint (slice payload pos (pos + 2))
    if payload.length < pos + 2 + tlen + extra then []
    else slice payload (pos + 2) (pos + 2 + tlen) :: readFilters extra payload (pos + 2 + tlen + extra)
  else []
termination_by payload.length - pos

def parseUnsubscribe (payload : Bytes) : Except Failure (Nat × List Bytes) :=
  if payload.length < 4 then .error (.error "short unsubscribe")
  else .ok (beUint (slice payload 0 2), readFilters 0 payload 2)

def parseSubscribe (payload : Bytes) : Except Failure (Nat × List Bytes) :=
  if payload.length < 3 then .error (.error "short subscribe")
  else .ok (beUint (slice payload 0 2), readFilters 1 payload 2)

def u16 (v : Nat) : Bytes := putBE 2 v

def mqttPublishPayload (topic data : Bytes) : Bytes := u16 topic.length ++ topic ++ data

structure MqttPacket where
  ptype : UInt8
  payload : Bytes
  deriving DecidableEq, Repr

end PocketKafka.Gateway
