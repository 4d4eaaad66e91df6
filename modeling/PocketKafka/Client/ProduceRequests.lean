import PocketKafka.Lib.Runs
import PocketKafka.Protocol.RecordBatch
import PocketKafka.Protocol.Requests

namespace PocketKafka.Client

open Bytes Runs Protocol

structure TopicPartition where
  topic : Bytes
  partition : Int
  deriving DecidableEq

structure Message where
  topic : Bytes
  key : Option Bytes
  value : Option Bytes
  headers : List Protocol.RecordHeader
  partition : Int
  deriving DecidableEq

def Message.tp (m : Message) : TopicPartition := ⟨m.topic, m.partition⟩

structure Producer where
  version : Int
  acks : Int
  timeout : Int
  idempotent : Bool
  transactionalID : Bytes
  producerID : Int
  producerEpoch : Int
  sequence : Int
  deriving DecidableEq

def record (i : Nat) (m : Message) : Record := ⟨0, 0, int32 i, m.key, m.value, m.headers⟩

/-- What the map of `buildProduceRequest` has for a topic. -/
def byTopic (msgs : List Message) (topic : Bytes) : List Message := msgs.filter fun m => m.topic = topic

def topicsOf (msgs : List Message) : List Bytes := (msgs.map Message.topic).dedup

namespace Producer

def numbered (p : Producer) : Bool := p.idempotent || p.transactionalID ≠ []

def batch (p : Producer) (now : Int) (msgs : List Message) : RecordBatch where
  baseOffset := 0
  partitionLeaderEpoch := 0
  magic := 0
  crc := 0
  attributes := 0
  lastOffsetDelta := 0
  baseTimestamp := now
  maxTimestamp := now
  producerID := if p.numbered then p.producerID else -1
  producerEpoch := if p.numbered then p.producerEpoch else -1
  baseSequence := if p.numbered then p.sequence else -1
  records := msgs.mapIdx record

/-- The producer after a batch: the counter is one for all topics. -/
def counted (p : Producer) (msgs : List Message) : Producer :=
  if p.numbered then { p with sequence := int32 (p.sequence + int32 msgs.length) } else p

def encodeBatch (p : Producer) (now : Int) (msgs : List Message) : Except Failure Bytes × Producer :=
  (encodeRecordBatch (p.batch now msgs), p.counted msgs)

/-- The loop over the topics of the messages, in the order in which the map is gone over. -/
def buildTopics (p : Producer) (clock : Bytes → Int) (msgs : List Message) :
    List Bytes → Except Failure (List ProduceRequestTopic) × Producer
  | [] => (.ok [], p)
  | topic :: rest =>
    match p.encodeBatch (clock topic) (byTopic msgs topic) with
    | (.error failure, p) => (.error failure, p)
    | (.ok batch, p) =>
      match p.buildTopics clock msgs rest with
      | (.error failure, p) => (.error failure, p)
      | (.ok topics, p) => (.ok (⟨topic, [⟨0, some batch⟩]⟩ :: topics), p)

def buildProduceRequest (p : Producer) (clock : Bytes → Int) (order : List Bytes) (msgs : List Message) :
    Except Failure ProduceRequest × Producer :=
  match p.buildTopics clock msgs order with
  | (.error failure, p') => (.error failure, p')
  | (.ok topics, p') => (.ok ⟨p.version, p.acks, p.timeout, topics⟩, p')

end Producer

def entries (topics : List ProduceRequestTopic) : List (TopicPartition × Option Bytes) :=
  topics.flatMap fun t => t.partitions.map fun part => (⟨t.topic, part.partition⟩, part.records)

def Encodes (entry : TopicPartition × Option Bytes) (sent : TopicPartition × RecordBatch) : Prop :=
  entry.1 = sent.1 ∧ ∃ bytes, encodeRecordBatch sent.2 = .ok bytes ∧ entry.2 = some bytes

def Carries (entry : TopicPartition × Option Bytes) (part : TopicPartition × List Message) : Prop :=
  ∃ b, Encodes entry (part.1, b) ∧ b.records = part.2.mapIdx record

/-- Every message is in an entry of its partition, once, and the messages of a partition are in the order of the list. -/
def Keeps (req : ProduceRequest) (msgs : List Message) : Prop :=
  ∃ parts : List (TopicPartition × List Message), List.Forall₂ Carries (entries req.topics) parts ∧
    ∀ tp, (parts.filter fun part => part.1 = tp).flatMap Prod.snd = msgs.filter fun m => m.tp = tp

section
variable {p p' : Producer} {clock : Bytes → Int} {msgs : List Message} {order : List Bytes}

theorem buildTopics_cons {topic : Bytes} {topics : List ProduceRequestTopic}
    (built : p.buildTopics clock msgs (topic :: order) = (.ok topics, p')) :
    ∃ bytes rest, encodeRecordBatch (p.batch (clock topic) (byTopic msgs topic)) = .ok bytes ∧
      (p.counted (byTopic msgs topic)).buildTopics clock msgs order = (.ok rest, p') ∧
      topics = ⟨topic, [⟨0, some bytes⟩]⟩ :: rest := by
  unfold Producer.buildTopics Producer.encodeBatch at built
  cases encoded : encodeRecordBatch (p.batch (clock topic) (byTopic msgs topic)) with
  | error failure =>
    rw [encoded] at built
    cases built
  | ok bytes =>
    rw [encoded] at built
    dsimp only at built
    split at built
    · cases built
    · rename_i rest q more
      cases built
      exact ⟨bytes, rest, rfl, more, rfl⟩

theorem buildTopics_carries {topics : List ProduceRequestTopic} (built : p.buildTopics clock msgs order = (.ok topics, p')) :
    List.Forall₂ Carries (entries topics) (order.map fun topic => (⟨topic, 0⟩, byTopic msgs topic)) := by
  induction order generalizing p topics with
  | nil =>
    cases built
    exact .nil
  | cons topic rest ih =>
    obtain ⟨bytes, tail, encoded, more, rfl⟩ := buildTopics_cons built
    exact .cons ⟨_, ⟨rfl, bytes, encoded, rfl⟩, rfl⟩ (ih more)

theorem buildProduceRequest_topics {req : ProduceRequest} (built : p.buildProduceRequest clock order msgs = (.ok req, p')) :
    p.buildTopics clock msgs order = (.ok req.topics, p') := by
  unfold Producer.buildProduceRequest at built
  split at built
  · cases built
  · rename_i more
    cases built
    exact more

theorem map_fst_of_carries {es : List (TopicPartition × Option Bytes)} {parts : List (TopicPartition × List Message)}
    (carried : List.Forall₂ Carries es parts) : parts.map Prod.fst = es.map Prod.fst := by
  induction carried with
  | nil => rfl
  | cons head _ ih =>
    obtain ⟨b, ⟨same, _⟩, _⟩ := head
    rw [List.map_cons, List.map_cons, ih, same]

theorem mem_topicsOf {m : Message} (member : m ∈ msgs) : m.topic ∈ topicsOf msgs :=
  List.mem_dedup.mpr (List.mem_map_of_mem member)

theorem flatMap_byTopic (distinct : order.Nodup) (tp : TopicPartition) :
    ((order.map fun topic => ((⟨topic, 0⟩ : TopicPartition), byTopic msgs topic)).filter
      fun part => part.1 = tp).flatMap Prod.snd =
      if tp.partition = 0 ∧ tp.topic ∈ order then byTopic msgs tp.topic else [] := by
  induction order with
  | nil => simp
  | cons topic rest ih =>
    obtain ⟨new, distinct⟩ := List.nodup_cons.mp distinct
    rw [List.map_cons, List.filter_cons]
    by_cases here : (⟨topic, 0⟩ : TopicPartition) = tp
    · subst here
      simp [ih distinct, new]
    · rw [if_neg (by simpa using here), ih distinct]
      congr 1
      apply propext
      constructor
      · rintro ⟨zero, member⟩
        exact ⟨zero, List.mem_cons_of_mem _ member⟩
      · rintro ⟨zero, member⟩
        refine ⟨zero, (List.mem_cons.mp member).resolve_left fun same => here ?_⟩
        cases tp
        simp_all

theorem keeps_iff {req : ProduceRequest} (built : p.buildProduceRequest clock order msgs = (.ok req, p'))
    (all : order.Perm (topicsOf msgs)) : Keeps req msgs ↔ ∀ m ∈ msgs, m.partition = 0 := by
  have carried := buildTopics_carries (buildProduceRequest_topics built)
  constructor
  · rintro ⟨parts, carries, whole⟩ m member
    have own : m ∈ msgs.filter fun m' => m'.tp = m.tp := List.mem_filter.mpr ⟨member, by simp⟩
    rw [← whole m.tp] at own
    obtain ⟨part, there, _⟩ := List.mem_flatMap.mp own
    obtain ⟨inside, same⟩ := List.mem_filter.mp there
    have keys : part.1 ∈ (order.map fun topic => ((⟨topic, 0⟩ : TopicPartition), byTopic msgs topic)).map Prod.fst := by
      rw [map_fst_of_carries carried, ← map_fst_of_carries carries]
      exact List.mem_map_of_mem inside
    rw [of_decide_eq_true same, List.map_map] at keys
    obtain ⟨topic, _, equal⟩ := List.mem_map.mp keys
    exact congrArg TopicPartition.partition equal.symm
  · intro zero
    refine ⟨_, carried, fun tp => ?_⟩
    rw [flatMap_byTopic (all.nodup_iff.mpr (List.nodup_dedup _))]
    split
    · rename_i mine
      apply List.filter_congr
      intro m member
      have := zero m member
      cases tp
      simp_all [Message.tp]
    · rename_i other
      symm
      rw [List.filter_eq_nil_iff]
      intro m member same
      have here : m.tp = tp := of_decide_eq_true same
      apply other
      rw [← here]
      exact ⟨zero m member, all.mem_iff.mpr (mem_topicsOf member)⟩

def Producer.batches (p : Producer) (clock : Bytes → Int) (msgs : List Message) :
    List Bytes → List (TopicPartition × RecordBatch)
  | [] => []
  | topic :: rest =>
    (⟨topic, 0⟩, p.batch (clock topic) (byTopic msgs topic)) :: (p.counted (byTopic msgs topic)).batches clock msgs rest

theorem buildTopics_encodes {topics : List ProduceRequestTopic} (built : p.buildTopics clock msgs order = (.ok topics, p')) :
    List.Forall₂ Encodes (entries topics) (p.batches clock msgs order) := by
  induction order generalizing p topics with
  | nil =>
    cases built
    exact .nil
  | cons topic rest ih =>
    obtain ⟨bytes, tail, encoded, more, rfl⟩ := buildTopics_cons built
    exact .cons ⟨rfl, bytes, encoded, rfl⟩ (ih more)

end

/-- The batch goes on from the last one of its partition before it. -/
def Follows (earlier : List (TopicPartition × RecordBatch)) (sent : TopicPartition × RecordBatch) : Prop :=
  ∀ prev ∈ earlier.find? fun b => b.1 = sent.1, sent.2.baseSequence = int32 (prev.2.baseSequence + prev.2.records.length)

structure Sending where
  producer : Producer
  requests : List (ProduceRequest × List Message)
  sent : List (TopicPartition × RecordBatch)

/-- A call of `buildProduceRequest`, with the time of each batch and the order in which the map is gone over. -/
structure Build where
  clock : Bytes → Int
  order : List Bytes
  msgs : List Message

namespace Sending

def start (p : Producer) : Sending := ⟨p, [], []⟩

def perform (s : Sending) (call : Build) : Option Sending :=
  if call.order.Perm (topicsOf call.msgs) then
    match s.producer.buildProduceRequest call.clock call.order call.msgs with
    | (.error _, _) => none
    | (.ok req, p) =>
      some ⟨p, (req, call.msgs) :: s.requests, (s.producer.batches call.clock call.msgs call.order).reverse ++ s.sent⟩
  else none

def Steps (s : Sending) (call : Build) (t : Sending) : Prop := s.perform call = some t

/-- Each topic of a request is the one of the batch before, or had no batch yet. -/
def Adjacent (used : List Bytes) : List Bytes → Prop
  | [] => True
  | topic :: rest => (used.head? = some topic ∨ topic ∉ used) ∧ Adjacent (topic :: used) rest

instance decidableAdjacent (used : List Bytes) : (order : List Bytes) → Decidable (Adjacent used order)
  | [] => isTrue trivial
  | topic :: rest =>
    have := decidableAdjacent (topic :: used) rest
    inferInstanceAs (Decidable ((used.head? = some topic ∨ topic ∉ used) ∧ Adjacent (topic :: used) rest))

def used (sent : List (TopicPartition × RecordBatch)) : List Bytes := sent.map fun b => b.1.topic

/-- All messages are for partition 0, and a producer that numbers its batches does not come back to a topic. -/
def Orderly (s : Sending) (call : Build) : Prop :=
  (∀ m ∈ call.msgs, m.partition = 0) ∧ (s.producer.numbered → Adjacent (used s.sent) call.order)

instance (s : Sending) (call : Build) : Decidable (s.Orderly call) := inferInstanceAs (Decidable (_ ∧ _))

structure Correct (s : Sending) : Prop where
  kept : ∀ call ∈ s.requests, Keeps call.1 call.2
  encoded : List.Forall₂ Encodes (s.requests.reverse.flatMap fun call => entries call.1.topics) s.sent.reverse
  gapFree : s.producer.numbered → Justified Follows s.sent

/-- Where the counter of a producer stands, given the batches sent, all of them for partition 0. -/
structure Counts (p : Producer) (sent : List (TopicPartition × RecordBatch)) : Prop where
  zero : ∀ b ∈ sent, b.1.partition = 0
  last : p.numbered → ∀ b ∈ sent.head?, p.sequence = int32 (b.2.baseSequence + b.2.records.length)
  gapFree : p.numbered → Justified Follows sent

theorem numbered_counted (p : Producer) (msgs : List Message) : (p.counted msgs).numbered = p.numbered := by
  unfold Producer.counted
  split <;> rfl

theorem int32_add_int32 (a b : Int) : int32 (a + int32 b) = int32 (a + b) := by
  unfold int32
  omega

theorem Counts.batch {p : Producer} {sent : List (TopicPartition × RecordBatch)} (h : Counts p sent) (now : Int)
    (topic : Bytes)
    (msgs : List Message) (next : p.numbered → (used sent).head? = some topic ∨ topic ∉ used sent) :
    Counts (p.counted msgs) ((⟨topic, 0⟩, p.batch now msgs) :: sent) := by
  refine ⟨List.forall_mem_cons.mpr ⟨rfl, h.zero⟩, fun numbered => ?_, fun numbered => ?_⟩
  · rw [numbered_counted] at numbered
    rintro _ ⟨⟩
    simp only [Producer.counted, Producer.batch, numbered, if_true, List.length_mapIdx]
    exact int32_add_int32 _ _
  · rw [numbered_counted] at numbered
    refine ⟨fun prev found => ?_, h.gapFree numbered⟩
    have base : (p.batch now msgs).baseSequence = p.sequence := by
      simp only [Producer.batch, numbered, if_true]
    rw [base]
    rcases next numbered with same | new
    · cases sent with
      | nil => cases found
      | cons b rest =>
        have mine : b.1 = ⟨topic, 0⟩ := by
          have topic' : b.1.topic = topic := Option.some.inj same
          have zero := h.zero b (List.mem_cons_self ..)
          show (⟨b.1.topic, b.1.partition⟩ : TopicPartition) = ⟨topic, 0⟩
          rw [topic', zero]
        rw [List.find?_cons_of_pos (by simpa using mine)] at found
        cases found
        exact h.last numbered _ rfl
    · have there := List.mem_of_find?_eq_some found
      have same := List.find?_some found
      have mine : prev.1 = ⟨topic, 0⟩ := of_decide_eq_true same
      exact absurd (mine ▸ List.mem_map_of_mem there : (⟨topic, 0⟩ : TopicPartition).topic ∈ used sent) new

theorem Counts.request {p p' : Producer} {sent : List (TopicPartition × RecordBatch)} {clock : Bytes → Int}
    {msgs : List Message}
    {order : List Bytes} {topics : List ProduceRequestTopic} (h : Counts p sent)
    (built : p.buildTopics clock msgs order = (.ok topics, p')) (adjacent : p.numbered → Adjacent (used sent) order) :
    Counts p' ((p.batches clock msgs order).reverse ++ sent) := by
  induction order generalizing p sent topics with
  | nil =>
    cases built
    exact h
  | cons topic rest ih =>
    obtain ⟨bytes, tail, _, more, _⟩ := buildTopics_cons built
    have one := h.batch (clock topic) topic (byTopic msgs topic) fun numbered => (adjacent numbered).1
    have all := ih one more fun numbered => (adjacent (numbered_counted p _ ▸ numbered)).2
    rw [Producer.batches, List.reverse_cons, List.append_assoc, List.singleton_append]
    exact all

theorem correct_start (p : Producer) : (start p).Correct ∧ Counts p [] := by
  constructor
  · exact ⟨by simp [start], .nil, fun _ => trivial⟩
  · exact ⟨by simp, by simp, fun _ => trivial⟩

theorem Correct.step {s t : Sending} {call : Build} (h : s.Correct ∧ Counts s.producer s.sent) (orderly : s.Orderly call)
    (step : s.Steps call t) : t.Correct ∧ Counts t.producer t.sent := by
  obtain ⟨correct, counts⟩ := h
  unfold Steps perform at step
  split at step
  · rename_i all
    split at step
    · cases step
    · rename_i req p built
      cases step
      have topics := buildProduceRequest_topics built
      have counted := counts.request topics orderly.2
      refine ⟨⟨?_, ?_, counted.gapFree⟩, counted⟩
      · exact List.forall_mem_cons.mpr ⟨(keeps_iff built all).mpr orderly.1, correct.kept⟩
      · rw [List.reverse_cons, List.flatMap_append, List.reverse_append, List.reverse_reverse, List.flatMap_singleton]
        exact List.rel_append correct.encoded (buildTopics_encodes topics)
  · cases step

/-- A request keeps the partitions of its messages if and only if they are all for partition 0; and in every sequence of
    requests of such messages that does not come back to a topic the sequence numbers of each partition have no gaps. -/
theorem produce_requests_kept (p : Producer) :
    (∀ (p' : Producer) (clock : Bytes → Int) (order : List Bytes) (msgs : List Message) (req : ProduceRequest),
      order.Perm (topicsOf msgs) → p.buildProduceRequest clock order msgs = (.ok req, p') →
        (Keeps req msgs ↔ ∀ m ∈ msgs, m.partition = 0)) ∧
      ∀ s : Sending, Reaches Orderly Steps (start p) s → s.Correct := by
  constructor
  · intro p' clock order msgs req all built
    exact keeps_iff built all
  · intro s run
    exact (run.invariant (correct_start p) fun _ _ _ h orderly step => Correct.step h orderly step).1

def numberer : Producer := ⟨7, 1, 30000, true, [], 4, 0, 0⟩

def message (topic : String) (partition : Int) : Message := ⟨ascii topic, none, some (ascii "v"), [], partition⟩

def request (topic : String) (msgs : List Message) : Build := ⟨fun _ => 0, [ascii topic], msgs⟩

theorem produce_requests_kept_orders :
    ∃ s : Sending, Reaches Orderly Steps (start numberer) s ∧ s.sent.map (fun b => b.2.baseSequence) = [2, 0] ∧
      s.Correct := by
  obtain ⟨s, run, sequences⟩ : ∃ s : Sending, Reaches Orderly Steps (start numberer) s ∧
      s.sent.map (fun b => b.2.baseSequence) = [2, 0] :=
    exists_reaches [request "a" [message "a" 0, message "a" 0], request "a" [message "a" 0]] (fun _ _ _ step => step)
      (by decide +kernel)
  exact ⟨s, run, sequences, (produce_requests_kept numberer).2 s run⟩

/-- A message for partition 1 is put into the entry of partition 0, and a message for another topic takes a number away. -/
theorem partition_lost :
    (∃ req p, numberer.buildProduceRequest (fun _ => 0) [ascii "a"] [message "a" 1] = (.ok req, p) ∧
      (entries req.topics).map Prod.fst = [⟨ascii "a", 0⟩] ∧ ¬ Keeps req [message "a" 1]) ∧
      ∃ s : Sending, Reaches (fun _ _ => True) Steps (start numberer) s ∧
        s.sent.map (fun b => (b.1, b.2.baseSequence, b.2.records.length)) =
          [(⟨ascii "a", 0⟩, 2, 1), (⟨ascii "b", 0⟩, 1, 1), (⟨ascii "a", 0⟩, 0, 1)] := by
  constructor
  · obtain ⟨req, first, keys⟩ :=
      exists_of_map (x := (numberer.buildProduceRequest (fun _ => 0) [ascii "a"] [message "a" 1]).1)
      (p := fun req => (entries req.topics).map Prod.fst = [⟨ascii "a", 0⟩]) (by decide +kernel)
    have built : numberer.buildProduceRequest (fun _ => 0) [ascii "a"] [message "a" 1] = (.ok req, _) := Prod.ext first rfl
    refine ⟨req, _, built, keys, fun kept => ?_⟩
    have zero := (keeps_iff built (by decide +kernel)).mp kept _ (List.mem_singleton_self _)
    exact absurd zero (by decide)
  · exact exists_reaches [request "a" [message "a" 0], request "b" [message "b" 0], request "a" [message "a" 0]]
      (fun _ _ _ step => step) (by decide +kernel)

end Sending

end PocketKafka.Client
