import PocketKafka.Gateway.MqttForwarding
import PocketKafka.Protocol.BatchRoundTrip

namespace PocketKafka.Gateway

open Bytes Runs Protocol Storage

def appendRemainingLength (dst : Bytes) (length : Nat) : Bytes :=
  let digit := UInt8.ofNat (length % 128)
  if 0 < length / 128 then appendRemainingLength (dst ++ [digit ||| 0x80]) (length / 128) else dst ++ [digit]

def writePacket (ptype : UInt8) (payload : Bytes) : Bytes :=
  appendRemainingLength [ptype <<< 4] payload.length ++ payload

def readRemainingLoop : Nat → Nat → Nat → Bytes → Except Failure (Nat × Bytes)
  | 0, _, _, _ => .error (.error "malformed remaining length")
  | _ + 1, _, _, [] => .error (.error "EOF")
  | digits + 1, multiplier, value, digit :: rest =>
    let value := value + (digit &&& 0x7f).toNat * multiplier
    if digit &&& 0x80 = 0 then .ok (value, rest) else readRemainingLoop digits (multiplier * 128) value rest

def readRemainingLength (stream : Bytes) : Except Failure (Nat × Bytes) := readRemainingLoop 4 1 0 stream

structure PacketRead where
  allocated : Nat
  result : Except Failure (UInt8 × Bytes × Bytes)

def readMQTTPacket (stream : Bytes) (maxLen : Nat) : PacketRead :=
  match stream with
  | [] => ⟨0, .error (.error "EOF")⟩
  | first :: rest =>
    match readRemainingLength rest with
    | .error failure => ⟨0, .error failure⟩
    | .ok (length, rest) =>
      if maxLen < length then ⟨0, .error (.error s!"invalid MQTT remaining length {length} (max {maxLen})")⟩
      else if rest.length < length then ⟨length, .error (.error (if rest = [] then "EOF" else "unexpected EOF"))⟩
      else ⟨length, .ok (first, rest.take length, rest.drop length)⟩

theorem low_digit {n : Nat} (small : n < 128) : (UInt8.ofNat n &&& 0x7f).toNat = n ∧ UInt8.ofNat n &&& 0x80 = 0 := by
  have all : ∀ n : Fin 128, (UInt8.ofNat n &&& 0x7f).toNat = n ∧ UInt8.ofNat n &&& 0x80 = 0 := by decide +kernel
  exact all ⟨n, small⟩

theorem high_digit {n : Nat} (small : n < 128) :
    ((UInt8.ofNat n ||| 0x80) &&& 0x7f).toNat = n ∧ (UInt8.ofNat n ||| 0x80) &&& 0x80 ≠ 0 := by
  have all : ∀ n : Fin 128, ((UInt8.ofNat n ||| 0x80) &&& 0x7f).toNat = n ∧ (UInt8.ofNat n ||| 0x80) &&& 0x80 ≠ 0 := by
    decide +kernel
  exact all ⟨n, small⟩

theorem appendRemainingLength_append (dst : Bytes) (length : Nat) :
    appendRemainingLength dst length = dst ++ appendRemainingLength [] length := by
  induction length using Nat.strong_induction_on generalizing dst with
  | _ length ih =>
    rw [appendRemainingLength.eq_def dst, appendRemainingLength.eq_def []]
    dsimp only
    split
    · have less : length / 128 < length := by omega
      rw [ih _ less (dst ++ _), ih _ less ([] ++ _), List.nil_append, List.append_assoc]
    · rw [List.nil_append]

theorem readRemainingLoop_append (digits : Nat) {length : Nat} (fits : length < 128 ^ (digits + 1)) (multiplier value : Nat)
    (rest : Bytes) :
    readRemainingLoop (digits + 1) multiplier value (appendRemainingLength [] length ++ rest) =
      .ok (value + length * multiplier, rest) := by
  have small : length % 128 < 128 := by omega
  induction digits generalizing length multiplier value with
  | zero =>
    rw [zero_add, pow_one] at fits
    obtain ⟨low, done⟩ := low_digit fits
    rw [appendRemainingLength, if_neg (by omega), Nat.mod_eq_of_lt fits, List.nil_append, List.singleton_append,
      readRemainingLoop]
    rw [if_pos done, low]
  | succ digits ih =>
    rw [appendRemainingLength]
    split
    · obtain ⟨low, more⟩ := high_digit small
      rw [appendRemainingLength_append, List.nil_append, List.append_assoc, List.singleton_append, readRemainingLoop]
      rw [if_neg more, low, ih (by rw [pow_succ] at fits; omega) _ _ (by omega)]
      have parts := Nat.mod_add_div length 128
      congr 2
      calc value + length % 128 * multiplier + length / 128 * (multiplier * 128)
          = value + (length % 128 + 128 * (length / 128)) * multiplier := by ring
        _ = value + length * multiplier := by rw [parts]
    · rename_i last
      obtain ⟨low, done⟩ := low_digit small
      rw [List.nil_append, List.singleton_append, readRemainingLoop]
      rw [if_pos done, low, Nat.mod_eq_of_lt (by omega)]

theorem readMQTTPacket_writePacket (ptype : UInt8) {payload : Bytes} (fits : payload.length < 268435456) (rest : Bytes)
    {maxLen : Nat}
    (allowed : payload.length ≤ maxLen) :
    (readMQTTPacket (writePacket ptype payload ++ rest) maxLen).result = .ok (ptype <<< 4, payload, rest) := by
  have length : readRemainingLength (appendRemainingLength [] payload.length ++ (payload ++ rest)) =
    .ok (payload.length, payload ++ rest) := by
    rw [readRemainingLength, readRemainingLoop_append 3 (by omega), zero_add, mul_one]
  rw [writePacket, appendRemainingLength_append, List.append_assoc, List.append_assoc, List.singleton_append,
    readMQTTPacket, length]
  dsimp only
  rw [if_neg (by omega), if_neg (by rw [List.length_append]; omega), List.take_left, List.drop_left]

theorem parsePublish_payload (topic data : Bytes) :
    parsePublish 0 (mqttPublishPayload topic data) = .ok ⟨topic, data, 0, 0⟩ ↔ topic.length < 65536 := by
  have size : (mqttPublishPayload topic data).length = 2 + topic.length + data.length := by
    simp [mqttPublishPayload, u16, Nat.add_assoc]
  have tlen : beUint (slice (mqttPublishPayload topic data) 0 2) = topic.length % 65536 := by
    have field : slice (mqttPublishPayload topic data) 0 2 = u16 topic.length :=
      slice_middle [] (u16 topic.length) (topic ++ data) (by simp [mqttPublishPayload]) rfl (by simp [u16])
    rw [field, u16, beUint_putBE]
    rfl
  have inside := Nat.mod_le topic.length 65536
  have parsed : parsePublish 0 (mqttPublishPayload topic data) =
      .ok ⟨slice (mqttPublishPayload topic data) 2 (2 + topic.length % 65536),
        (mqttPublishPayload topic data).drop (2 + topic.length % 65536), 0, 0⟩ := by
    rw [parsePublish, if_neg (by omega)]
    simp only [tlen]
    rw [if_neg (by decide), if_neg (by omega), if_neg (by decide)]
    rfl
  rw [parsed]
  constructor
  · intro same
    have topics : slice (mqttPublishPayload topic data) 2 (2 + topic.length % 65536) = topic :=
      congrArg Publish.topic (Except.ok.inj same)
    have lengths := congrArg List.length topics
    rw [slice_length] at lengths
    have := Nat.mod_lt topic.length (show 65536 > 0 by decide)
    omega
  · intro small
    have named : slice (mqttPublishPayload topic data) 2 (2 + topic.length) = topic :=
      slice_middle (u16 topic.length) topic data (by simp [mqttPublishPayload]) (by simp [u16]) rfl
    have rest : (mqttPublishPayload topic data).drop (2 + topic.length) = data :=
      List.drop_left' (by simp [u16])
    rw [Nat.mod_eq_of_lt small, named, rest]

/-- The bytes of a delivery are read back as the topic and the value of its record, whatever follows them. -/
def ReadsBack (d : Delivery) : Prop :=
  let packet := writePacket d.packet.ptype d.packet.payload
  ∀ rest maxLen, packet.length ≤ maxLen →
    ∃ first payload, (readMQTTPacket (packet ++ rest) maxLen).result = .ok (first, payload, rest) ∧
      first >>> 4 = mqttPublish ∧
      parsePublish (first &&& 0x0f) payload = .ok ⟨recordMQTTTopic d.record d.kafkaTopic, d.record.value.getD [], 0, 0⟩

theorem delivery_readsBack (kafkaTopic : Bytes) (baseOffset : Int) (rec : Record)
    (fits : (delivery kafkaTopic baseOffset rec).packet.payload.length < 268435456) :
    ReadsBack (delivery kafkaTopic baseOffset rec) ↔ (recordMQTTTopic rec kafkaTopic).length < 65536 := by
  rw [← parsePublish_payload _ (rec.value.getD [])]
  have longer : (delivery kafkaTopic baseOffset rec).packet.payload.length ≤
      (writePacket mqttPublish (delivery kafkaTopic baseOffset rec).packet.payload).length := by
    rw [writePacket, List.length_append]
    omega
  have read (rest : Bytes) {maxLen : Nat}
      (allowed : (writePacket mqttPublish (delivery kafkaTopic baseOffset rec).packet.payload).length ≤ maxLen) :=
    readMQTTPacket_writePacket mqttPublish fits rest (longer.trans allowed)
  constructor
  · intro back
    obtain ⟨first, payload, found, _, parsed⟩ := back [] _ le_rfl
    rw [show (delivery kafkaTopic baseOffset rec).packet.ptype = mqttPublish from rfl, read [] le_rfl] at found
    cases found
    exact parsed
  · intro parsed rest maxLen allowed
    exact ⟨_, _, read rest allowed, by decide, parsed⟩

namespace Subscriber

variable {b : MqttBridge} {s t : Subscriber} {event : SubscriberEvent}

def Delivers (s : Subscriber) : Prop := ∀ d ∈ s.written, ∃ kafkaTopic baseOffset rec, d = delivery kafkaTopic baseOffset rec

theorem Delivers.forward (h : s.Delivers) {kt : Bytes} {writes : Bool} (step : s.forward kt writes = some t) :
    t.Delivers := by
  unfold Subscriber.forward at step
  split at step
  · cases step
  split at step
  · rename_i baseOffset rec rest _
    dsimp only at step
    split at step
    · split at step
      · cases step
        intro d member
        rcases List.mem_cons.mp member with rfl | earlier
        · exact ⟨kt, baseOffset, rec, rfl⟩
        · exact h d earlier
      · cases step
        exact h
    · cases step
      exact h
  · split at step
    · cases step
      exact h
    split at step
    · cases step
      exact h
    dsimp only at step
    split at step
    · cases step
      exact h
    · cases step
      exact h

theorem Delivers.step (h : s.Delivers) (step : Steps b s event t) : t.Delivers := by
  unfold Steps perform at step
  cases event with
  | subscribe filters writes =>
    dsimp only at step
    split at step
    · cases step
      unfold subscribe
      dsimp only
      split
      · exact h
      · exact h
    · cases step
  | unsubscribe filter =>
    dsimp only at step
    split at step
    · cases step
      exact h
    · cases step
  | advance opening =>
    dsimp only at step
    split at step
    · unfold advance at step
      split at step
      · cases step
      · dsimp only at step
        split at step
        · cases step
          exact h
        · cases step
          exact h
        · cases step
          exact h
    · cases step
  | forward kt writes =>
    dsimp only at step
    split at step
    · exact h.forward step
    · cases step
  | append kt raw =>
    obtain ⟨p, _, rfl⟩ := Option.map_eq_some_iff.mp step
    exact h
  | create kt partitions opening =>
    cases step
    exact h

/-- A packet that a forwarder writes is read back as the topic and the value of its record, if the length of the topic
    fits its two bytes. -/
theorem forwarded_packets_read_back {principal : Bytes} {store : Storage.Store}
    (run : Reaches (fun _ _ => True) (Steps b) (connected principal store) s) {d : Delivery} (written : d ∈ s.written)
    (fits : (writePacket d.packet.ptype d.packet.payload).length < 268435456) :
    ReadsBack d ↔ (recordMQTTTopic d.record d.kafkaTopic).length < 65536 := by
  have delivers : s.Delivers := by
    apply run.invariant
    · exact nofun
    · exact fun _ _ _ h _ step => h.step step
  obtain ⟨kafkaTopic, baseOffset, rec, rfl⟩ := delivers d written
  rw [writePacket, List.length_append] at fits
  exact delivery_readsBack kafkaTopic baseOffset rec (by omega)

def anyFilter : Bytes := ascii "t/#"

def backingTopic : Bytes := mqttFilterToKafka anyFilter

def reading1 : Bytes := (encodeRecordBatch (mqttBatch (ascii "t/a") (ascii "1") 1000)).toOption.getD []

def freshDirectories : FreshOpening where
  opening _ := openPartition [] 1000 1000
  fresh _ _ opened := ⟨1000, 1000, by decide, opened⟩

def openGateway : MqttBridge := ⟨false, false, fun _ => none, fun _ _ _ => true⟩

theorem forwarded_packets_read_back_reading :
    ∃ s, Reaches (fun _ _ => True) (Steps openGateway) (connected [] ⟨[], []⟩) s ∧ s.written ≠ [] ∧
      ∀ d ∈ s.written, ReadsBack d := by
  obtain ⟨s, run, some, small, short⟩ : ∃ s, Reaches (fun _ _ => True) (Steps openGateway) (connected [] ⟨[], []⟩) s ∧
    s.written ≠ [] ∧
      (∀ d ∈ s.written, (writePacket d.packet.ptype d.packet.payload).length < 268435456) ∧
      ∀ d ∈ s.written, (recordMQTTTopic d.record d.kafkaTopic).length < 65536 :=
    exists_reaches [.create backingTopic 1 freshDirectories, .subscribe [anyFilter] true, .advance freshDirectories,
      .advance freshDirectories, .advance freshDirectories, .append backingTopic reading1, .forward backingTopic true,
      .forward backingTopic true] (fun _ _ _ step => step) (by decide +kernel)
  exact ⟨s, run, some, fun d written => (forwarded_packets_read_back run written (small d written)).mpr (short d written)⟩

end Subscriber

def namedRecord (topic : Bytes) : Record := ⟨0, 0, 0, some [], some [49], [⟨mqttTopicHeader, some topic⟩]⟩

def namedBatch (topic : Bytes) : RecordBatch := ⟨0, 0, 0, 0, 0, 0, 0, 0, -1, -1, -1, [namedRecord topic]⟩

theorem namedRecord_length {topic : Bytes} (long : topic.length = 65536) :
    (encodeRecord [] (namedRecord topic)).length = 65560 := by
  have zero : (putVarint 0).length = 1 := by decide +kernel
  have value : (nullable (some [49])).length = 2 := by decide +kernel
  have lead : (putVarint 65536).length = 3 := by decide +kernel
  have named : (nullable (some topic)).length = 65539 := by
    rw [nullable, List.length_append, long, Nat.cast_ofNat, lead]
  have header : (ascii "mqtt-topic").length = 10 := by decide +kernel
  have name : (putVarint 10).length = 1 := by decide +kernel
  have count : (putUvarint 1).length = 1 := by decide +kernel
  have size : (putVarint 65557).length = 3 := by decide +kernel
  have body : (encodeBody (namedRecord topic)).length = 65557 := by
    simp [encodeBody, namedRecord, mqttTopicHeader, encodeHeader, zero, value, named, header, name, count]
  rw [encodeRecord, body, appendVarint, List.nil_append, List.length_append, body, Nat.cast_ofNat, size]

theorem namedBatch_typed (topic : Bytes) : (namedBatch topic).Typed := by
  constructor <;> simp [namedBatch]
  exact ⟨by simp [namedRecord], by simp [namedRecord], by simp [namedRecord]⟩

theorem namedRecord_forwarded {topic : Bytes} (long : topic.length = 65536) :
    ∃ raw, encodeRecordBatch (namedBatch topic) = .ok raw ∧ WellFormed raw ∧
      forwardBatches raw 0 = (1, [(0, namedRecord topic)]) := by
  have flat : ((namedBatch topic).records.flatMap (encodeRecord [])).length = 65560 := by
    rw [namedBatch, List.flatMap_singleton, namedRecord_length long]
  have length : encodedLength (namedBatch topic) = 65609 := by
    rw [encodedLength_eq, flat]
    exact int32_of_bounds (by decide) (by decide)
  have laid := batchParts_laid (namedBatch topic)
  have size := laid.size
  have done : encodeRecordBatch (namedBatch topic) = .ok (batchParts (namedBatch topic)).flatten := by
    rw [encodeRecordBatch_eq, length, if_neg (by decide)]
  have decoded := laid.decode (namedBatch_typed topic) (by simp [namedBatch]) (by simp [namedBatch]) (by omega)
  obtain ⟨base, delta⟩ := decodeRecordBatch_offsets decoded
  have zero : encodedDelta (namedBatch topic) = 0 := by
    rw [encodedDelta, if_pos ⟨rfl, by simp [namedBatch]⟩]
    exact int32_of_bounds (by simp [namedBatch]) (by simp [namedBatch])
  have delta : lastOffsetDeltaField (batchParts (namedBatch topic)).flatten = 0 := delta.symm.trans zero
  have base : baseOffsetField (batchParts (namedBatch topic)).flatten = 0 := base.symm.trans rfl
  have shape : WellFormed (batchParts (namedBatch topic)).flatten := by
    refine ⟨?_, laid.magicField, ?_, delta.ge⟩
    · unfold batchHeaderSize
      omega
    · rw [lengthField, laid.length, length, int32_beUint_putInt (by decide) (by decide)]
      omega
  have last : (Batch.ofRaw shape).lastOffset = 0 := by
    rw [Batch.lastOffset, Batch.baseOffset, show (Batch.ofRaw shape).raw = (batchParts (namedBatch topic)).flatten
      from rfl, base,
      delta, add_zero]
  have next : (Batch.ofRaw shape).nextOffset = 1 := by
    rw [Batch.nextOffset, last, zero_add]
  have readable : Decodes (Batch.ofRaw shape).raw := ⟨_, decoded⟩
  have reach : 0 < (Batch.ofRaw shape).nextOffset := by
    rw [next]
    decide
  have forwarded := forwardBatches_cons readable ⟨base.ge, last.trans_lt (by decide)⟩ reach []
  have nothing : forwardBatches [] 1 = (1, []) := by rw [forwardBatches, if_pos rfl]
  rw [List.append_nil, next, nothing] at forwarded
  refine ⟨_, done, shape, forwarded.trans ?_⟩
  have records : recordsOf (Batch.ofRaw shape).raw = [namedRecord topic] := Decodes.records decoded
  rw [records, show (Batch.ofRaw shape).baseOffset = 0 from base]
  rfl

/-- A record whose topic is too long for its two bytes is forwarded, and read back as another topic. -/
theorem long_topic_not_read_back :
    ∃ topic raw, encodeRecordBatch (namedBatch topic) = .ok raw ∧ WellFormed raw ∧
      forwardBatches raw 0 = (1, [(0, namedRecord topic)]) ∧
      mqttTopicMatches (ascii "t/#") (recordMQTTTopic (namedRecord topic) (ascii "mqtt-t")) = true ∧
      (writePacket mqttPublish (mqttPublishPayload topic [49])).length < 268435456 ∧
      ¬ ReadsBack (delivery (ascii "mqtt-t") 0 (namedRecord topic)) := by
  have long : (ascii "t/" ++ List.replicate 65534 97).length = 65536 := by
    rw [List.length_append, List.length_replicate]
    rfl
  generalize whole : ascii "t/" ++ List.replicate 65534 97 = topic at long
  obtain ⟨raw, encoded, shape, forwarded⟩ := namedRecord_forwarded long
  have name : recordMQTTTopic (namedRecord topic) (ascii "mqtt-t") = topic := rfl
  have size : (mqttPublishPayload topic [49]).length = 65539 := by
    rw [mqttPublishPayload, List.length_append, List.length_append, long]
    rfl
  refine ⟨topic, raw, encoded, shape, forwarded, ?_, ?_, ?_⟩
  · have parts : ascii "t/" ++ List.replicate 65534 97 = ascii "t" ++ 47 :: List.replicate 65534 97 := rfl
    rw [name, ← whole, parts, mqttTopicMatches, Text.split_append_sep]
    rfl
  · have front : (appendRemainingLength [mqttPublish <<< 4] 65539).length = 4 := by decide +kernel
    rw [writePacket, List.length_append, size, front]
    decide
  · intro back
    have short := (delivery_readsBack (ascii "mqtt-t") 0 (namedRecord topic) (size.trans_lt (by decide))).mp back
    rw [name, long] at short
    exact absurd short (lt_irrefl _)

end PocketKafka.Gateway
