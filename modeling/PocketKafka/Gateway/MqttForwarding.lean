import PocketKafka.Gateway.MqttBridge
import PocketKafka.Storage.Following

namespace PocketKafka.Gateway

open Bytes Storage Runs Protocol

def recordMQTTTopic (rec : Record) (kafkaTopic : Bytes) : Bytes :=
  match rec.headers.find? (fun h => h.key = mqttTopicHeader) with
  | some h => h.value.getD []
  | none => kafkaTopicToMQTT kafkaTopic

/-- The loop of `forwardOnce` over the batches of one read: where to go on, and the records to send with
    the base offsets of their batches. -/
def forwardBatches (raw : Bytes) (next : Int) : Int × List (Int × Record) :=
  if raw = [] then (next, [])
  else
    match parseRecordBatchHeader raw with
    | .error _ => (next, [])
    | .ok h =>
      let total := batchTotalSize h
      if total ≤ 0 ∨ (raw.length : Int) < total then (next, [])
      else
        match decodeRecordBatch (raw.take total.toNat) with
        | .error _ => (next, [])
        | .ok batch =>
          let stop := int64 (batch.baseOffset + batch.lastOffsetDelta + 1)
          let (last, rest) := forwardBatches (raw.drop total.toNat) (if next < stop then stop else next)
          (last, batch.records.map (fun rec => (batch.baseOffset, rec)) ++ rest)
termination_by raw.length
decreasing_by
  rw [List.length_drop]
  omega

structure Forwarder where
  filters : List Bytes
  next : Int
  queue : List (Int × Record)

structure Delivery where
  kafkaTopic : Bytes
  baseOffset : Int
  record : Record
  packet : MqttPacket
  deriving DecidableEq

def delivery (kafkaTopic : Bytes) (baseOffset : Int) (rec : Record) : Delivery :=
  ⟨kafkaTopic, baseOffset, rec, ⟨mqttPublish, mqttPublishPayload (recordMQTTTopic rec kafkaTopic) (rec.value.getD [])⟩⟩

/-- How far the registration of a filter has come: the topic is looked up or created, its end is read
    if there is one, and the forwarder is registered. -/
inductive Registration where
  | ensuring
  | reading (found : Bool)
  | adding (start : Int)
  deriving DecidableEq

/-- A connection whose SUBSCRIBE packets are handled while its forwarders run. `pending` are the accepted
    filters of the last packet that are not registered yet, and `acks` all accepted filters with the end
    that their topic had when the SUBACK was written. -/
structure Subscriber where
  principal : Bytes
  store : Store
  running : Bool
  pending : List Bytes
  phase : Registration
  forwarders : Bytes → Option Forwarder
  acks : List (Bytes × Int)
  written : List Delivery

/-- The partitions of a topic that is new to the store are opened in empty directories. -/
structure FreshOpening where
  opening : Opening
  fresh : ∀ i p, opening i = .ok p → ∃ maxSegmentBytes indexInterval, 0 < maxSegmentBytes ∧
    openPartition [] maxSegmentBytes indexInterval = .ok p

/-- The steps of the connection (a packet arrives, or the registration goes on), of its forwarders, and
    of other clients. -/
inductive SubscriberEvent where
  | subscribe (filters : List Bytes) (writes : Bool)
  | unsubscribe (filter : Bytes)
  | advance (opening : FreshOpening)
  | forward (kafkaTopic : Bytes) (writes : Bool)
  | append (kafkaTopic raw : Bytes)
  | create (kafkaTopic : Bytes) (partitions : Int) (opening : FreshOpening)

namespace Subscriber

variable (b : MqttBridge)

def connected (principal : Bytes) (store : Store) : Subscriber :=
  ⟨principal, store, true, [], .ensuring, fun _ => none, [], []⟩

def partition (s : Subscriber) (kt : Bytes) : Option Partition := s.store.getPartition kt 0

def endOf (s : Subscriber) (kt : Bytes) : Int := ((s.partition kt).map (·.highWatermark)).getD 0

def subscribe (s : Subscriber) (filters : List Bytes) (writes : Bool) : Subscriber :=
  let allowed := filters.filter fun f => b.authorize s.principal .read (mqttFilterToKafka f)
  if writes then
    { s with
      pending := allowed
      phase := .ensuring
      acks := allowed.map (fun f => (f, s.endOf (mqttFilterToKafka f))) ++ s.acks }
  else { s with running := false }

def register (s : Subscriber) (kt filter : Bytes) (start : Int) : Subscriber :=
  let forwarder : Forwarder :=
    match s.forwarders kt with
    | some fwd => { fwd with filters := filter :: fwd.filters.erase filter }
    | none => ⟨[filter], start, []⟩
  { s with forwarders := Function.update s.forwarders kt (some forwarder) }

def unsubscribe (s : Subscriber) (filter : Bytes) : Subscriber :=
  let kt := mqttFilterToKafka filter
  let forwarder := (s.forwarders kt).bind fun fwd =>
    let left := fwd.filters.filter (· ≠ filter)
    if left = [] then none else some { fwd with filters := left }
  { s with
    forwarders := Function.update s.forwarders kt forwarder
    acks := s.acks.filter (fun ack => ack.1 ≠ filter) }

def advance (s : Subscriber) (opening : Opening) : Option Subscriber :=
  match s.pending with
  | [] => none
  | f :: rest =>
    let kt := mqttFilterToKafka f
    match s.phase with
    | .ensuring =>
      let store := b.ensureFilterTopic s.principal opening s.store kt
      some { s with store := store, phase := .reading (store.getPartition kt 0).isSome }
    | .reading found => some { s with phase := .adding (if found then s.endOf kt else 0) }
    | .adding start => some { s.register kt f start with pending := rest, phase := .ensuring }

def forward (s : Subscriber) (kt : Bytes) (writes : Bool) : Option Subscriber :=
  match s.forwarders kt with
  | none => none
  | some fwd =>
    match fwd.queue with
    | (baseOffset, rec) :: rest =>
      let sent := { s with forwarders := Function.update s.forwarders kt (some { fwd with queue := rest }) }
      if fwd.filters.any (fun f => mqttTopicMatches f (recordMQTTTopic rec kt)) then
        if writes then some { sent with written := delivery kt baseOffset rec :: s.written }
        else some { s with running := false }
      else some sent
    | [] =>
      match s.partition kt with
      | none => some s
      | some part =>
        if part.highWatermark ≤ fwd.next then some s
        else
          let ((raw, _, failure), part) := part.read fwd.next 1048576
          let s := { s with store := s.store.setPartition kt 0 part }
          if failure.isSome ∨ raw = [] then some s
          else
            let (next, queue) := forwardBatches raw fwd.next
            some { s with forwarders := Function.update s.forwarders kt (some { fwd with next := next, queue := queue }) }

def perform (s : Subscriber) : SubscriberEvent → Option Subscriber
  | .subscribe filters writes => if s.running ∧ s.pending = [] then some (s.subscribe b filters writes) else none
  | .unsubscribe filter => if s.running ∧ s.pending = [] then some (s.unsubscribe filter) else none
  | .advance opening => if s.running then s.advance b opening.opening else none
  | .forward kt writes => if s.running then s.forward kt writes else none
  | .append kt raw => (s.partition kt).map fun part => { s with store := s.store.setPartition kt 0 (part.append raw).2 }
  | .create kt partitions opening => some { s with store := (s.store.ensureTopic kt partitions opening.opening).2 }

def Steps (s : Subscriber) (event : SubscriberEvent) (t : Subscriber) : Prop := s.perform b event = some t

end Subscriber

theorem forwardBatches_cons {batch : Batch} (decodes : Decodes batch.raw)
    (bounds : 0 ≤ batch.baseOffset ∧ batch.lastOffset < 9223372036854775807) {next : Int} (reach : next < batch.nextOffset)
    (rest : Bytes) :
    forwardBatches (batch.raw ++ rest) next = ((forwardBatches rest batch.nextOffset).1,
      (recordsOf batch.raw).map (fun rec => (batch.baseOffset, rec)) ++ (forwardBatches rest batch.nextOffset).2) := by
  obtain ⟨decoded, done⟩ := decodes
  obtain ⟨base, delta⟩ := decodeRecordBatch_offsets done
  have long := batch.header
  have length := batch.length
  have lower := batch.delta
  unfold batchHeaderSize at long
  have total : batchTotalSize ⟨batch.baseOffset, lengthField batch.raw, lastOffsetDeltaField batch.raw,
    countField batch.raw⟩ =
      batch.raw.length := by
    change 12 + lengthField batch.raw = _
    omega
  have stop : int64 (decoded.baseOffset + decoded.lastOffsetDelta + 1) = batch.nextOffset := by
    rw [base, delta]
    unfold Batch.nextOffset Batch.lastOffset Batch.baseOffset at *
    exact int64_of_bounds (by omega) (by omega)
  have some : batch.raw ++ rest ≠ [] := by
    intro none
    rw [(List.append_eq_nil_iff.mp none).1] at long
    cases long
  have inside : ¬ ((batch.raw.length : Int) ≤ 0 ∨ ((batch.raw ++ rest).length : Int) < batch.raw.length) := by
    rw [List.length_append]
    omega
  rw [forwardBatches, if_neg some, parseRecordBatchHeader_append]
  simp only [total, inside, ↓reduceIte, Int.toNat_natCast, List.take_left, List.drop_left, done, stop, if_pos reach,
    Decodes.records done]
  rw [base]
  rfl

end PocketKafka.Gateway
