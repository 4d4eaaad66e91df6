import PocketKafka.Gateway.MqttBridge
import PocketKafka.Lib.Runs

namespace PocketKafka.Gateway

open Bytes Storage Runs

structure QosMessage where
  first : UInt8
  payload : Bytes
  publish : Publish
  unmarked : first = 0x34 ∨ first = 0x35
  parsed : parsePublish (first &&& 0x0F) payload = .ok publish
  deriving DecidableEq

namespace QosMessage

def again (message : QosMessage) : UInt8 := message.first ||| 8

def kafkaTopic (message : QosMessage) : Bytes := mqttTopicToKafka message.publish.topic

end QosMessage

def isQos2Publish (first : UInt8) (payload : Bytes) : Bool :=
  first >>> 4 = mqttPublish && (parsePublish (first &&& 0x0F) payload).toOption.any (·.qos = 2)

inductive QosEntry where
  | appended (message : Nat) (kafkaTopic : Bytes) (offset : Int)
  | acknowledged (message : Nat)
  deriving DecidableEq, Repr

def QosEntry.message : QosEntry → Nat
  | appended message _ _ => message
  | acknowledged message => message

structure QosRun where
  client : MqttClient
  store : Store
  running : Bool
  sent : List QosMessage
  released : List Nat
  trace : List QosEntry

/-- The client sends a message, sends the message with the given number again, or sends any other
    packet; or someone else changes the store. -/
inductive QosEvent where
  | publish (message : QosMessage) (world : PacketWorld)
  | retransmit (message : Nat) (world : PacketWorld)
  | packet (first : UInt8) (payload : Bytes) (world : PacketWorld)
  | others (store : Store)

def Served.entries (r : Served) (message : Nat) (packetID : Nat) : List QosEntry :=
  (if ⟨mqttPubrec, u16 packetID⟩ ∈ r.written then [.acknowledged message] else []) ++
    r.appended.toList.map fun (kt, offset) => .appended message kt offset

namespace QosRun

def opened (b : MqttBridge) (store : Store) : QosRun := ⟨.accepted b, store, true, [], [], []⟩

def appends (s : QosRun) (message : Nat) : List (Bytes × Int) :=
  s.trace.filterMap fun entry =>
    match entry with
    | .appended m kt offset => if m = message then some (kt, offset) else none
    | .acknowledged _ => none

variable (b : MqttBridge)

def serve (s : QosRun) (world : PacketWorld) (first : UInt8) (payload : Bytes) (entries : Served → List QosEntry) : QosRun :=
  let r := b.servePacket world s.client s.store first payload
  { s with client := r.client, store := r.store, running := r.running, trace := entries r ++ s.trace }

def perform (s : QosRun) : QosEvent → Option QosRun
  | .publish message world => some <|
      { s with sent := s.sent ++ [message] }.serve b world message.first message.payload
        (·.entries s.sent.length message.publish.packetID)
  | .retransmit m world => s.sent[m]?.map fun message =>
      s.serve b world message.again message.payload (·.entries m message.publish.packetID)
  | .packet first payload world =>
      let ends (message : QosMessage) := first >>> 4 = mqttPubrel ∧ 2 ≤ payload.length ∧
        message.publish.packetID = beUint (payload.take 2)
      let released := (List.range s.sent.length).filter fun m => (s.sent[m]?).any (ends ·)
      some ({ s with released := released ++ s.released }.serve b world first payload fun _ => [])
  | .others store => some { s with store := store }

/-- What the client may send: a retransmission comes before the PUBREL of its message, and every QoS 2
    PUBLISH is the first copy of a message or a retransmission. -/
def Fair (s : QosRun) : QosEvent → Prop
  | .publish _ _ => s.running = true
  | .retransmit m _ => s.running = true ∧ m ∉ s.released
  | .packet first payload _ => s.running = true ∧ isQos2Publish first payload = false
  | .others _ => True

/-- No message is sent again that was appended already. -/
def Unrepeated (s : QosRun) : QosEvent → Prop
  | .retransmit m _ => s.appends m = []
  | _ => True

def Steps (s : QosRun) (event : QosEvent) (t : QosRun) : Prop := s.perform b event = some t

instance (s : QosRun) (event : QosEvent) : Decidable (s.Fair event) := by
  unfold Fair
  split <;> infer_instance

instance (s : QosRun) (event : QosEvent) : Decidable (s.Unrepeated event) := by
  unfold Unrepeated
  split <;> infer_instance

end QosRun

namespace QosMessage

variable (message : QosMessage)

theorem parsed_again : parsePublish (message.again &&& 0x0F) message.payload = .ok message.publish := by
  rw [← message.parsed]
  unfold again
  rcases message.unmarked with first | first
  all_goals
    rw [first]
    rfl

theorem first_type : message.first >>> 4 = mqttPublish := by
  rcases message.unmarked with first | first <;> rw [first] <;> rfl

theorem again_type : message.again >>> 4 = mqttPublish := by
  unfold again
  rcases message.unmarked with first | first <;> rw [first] <;> rfl

end QosMessage

namespace MqttBridge

variable {b : MqttBridge} {world : PacketWorld} {c : MqttClient} {store : Store} {first : UInt8} {payload : Bytes}

theorem servePacket_publish (type : first >>> 4 = mqttPublish) :
    b.servePacket world c store first payload = stop c store ∨
      ∃ c', b.servePacket world c store first payload = b.servePublish world c' store (first &&& 0x0F) payload := by
  unfold servePacket
  dsimp only
  rw [type]
  by_cases long : c.maxLen < payload.length
  · exact Or.inl (if_pos long)
  · rw [if_neg long]
    by_cases unknown : (b.secure && !c.authed && mqttPublish != mqttConnect) = true
    · exact Or.inl (if_pos unknown)
    · rw [if_neg unknown]
      exact Or.inr ⟨_, rfl⟩

theorem servePublish_pubrec {flags : UInt8} {p : Publish} (parsed : parsePublish flags payload = .ok p) {ack : Bytes}
    (written : ⟨mqttPubrec, ack⟩ ∈ (b.servePublish world c store flags payload).written) :
    ∃ offset, (b.servePublish world c store flags payload).appended = some (mqttTopicToKafka p.topic, offset) := by
  revert written
  unfold servePublish
  rw [parsed]
  dsimp only
  split
  · split
    · exact nofun
    · exact fun _ => ⟨_, rfl⟩
  · exact nofun

theorem servePacket_pubrec {p : Publish} (type : first >>> 4 = mqttPublish)
    (parsed : parsePublish (first &&& 0x0F) payload = .ok p)
    {ack : Bytes} (written : ⟨mqttPubrec, ack⟩ ∈ (b.servePacket world c store first payload).written) :
    ∃ offset, (b.servePacket world c store first payload).appended = some (mqttTopicToKafka p.topic, offset) := by
  rcases servePacket_publish type with stopped | ⟨c', served⟩
  · rw [stopped] at written
    cases written
  · rw [served] at written ⊢
    exact servePublish_pubrec parsed written

end MqttBridge

namespace Served

variable {r : Served} {m id : Nat}

theorem mem_entries {entry : QosEntry} : entry ∈ r.entries m id ↔
    (entry = .acknowledged m ∧ ⟨mqttPubrec, u16 id⟩ ∈ r.written) ∨ ∃ a ∈ r.appended, entry = .appended m a.1 a.2 := by
  unfold entries
  rw [List.mem_append]
  apply or_congr
  · split <;> simp [*]
  · simp [eq_comm]

theorem entries_message {entry : QosEntry} (member : entry ∈ r.entries m id) : entry.message = m := by
  rcases mem_entries.mp member with ⟨rfl, _⟩ | ⟨_, _, rfl⟩ <;> rfl

theorem acknowledged_mem_entries {other : Nat} :
    .acknowledged other ∈ r.entries m id ↔ other = m ∧ ⟨mqttPubrec, u16 id⟩ ∈ r.written := by
  simp [mem_entries]

end Served

namespace QosRun

variable {b : MqttBridge} {s t : QosRun}

theorem appends_serve_entries {world : PacketWorld} {first : UInt8} {payload : Bytes} {m id : Nat} (other : Nat) :
    (s.serve b world first payload (·.entries m id)).appends other =
      (if m = other then (b.servePacket world s.client s.store first payload).appended.toList else []) ++
        s.appends other := by
  unfold serve appends Served.entries
  generalize b.servePacket world s.client s.store first payload = r
  rw [List.filterMap_append, List.filterMap_append]
  congr 1
  have none_acknowledged : ∀ entries : List QosEntry, (∀ e ∈ entries, e = .acknowledged m) → entries.filterMap (fun entry =>
      match entry with
      | .appended m kt offset => if m = other then some (kt, offset) else none
      | .acknowledged _ => none) = [] := by
    intro entries all
    rw [List.filterMap_eq_nil_iff]
    intro e member
    rw [all e member]
  rw [none_acknowledged _ (by split <;> simp)]
  cases r.appended with
  | none => simp
  | some entry => by_cases same : m = other <;> simp [same]

/-- Every entry is about a message that was sent, and an acknowledged message was appended once. -/
structure Once (s : QosRun) : Prop where
  numbered : ∀ entry ∈ s.trace, entry.message < s.sent.length
  acknowledged : ∀ m message, s.sent[m]? = some message → .acknowledged m ∈ s.trace →
    ∃ offset, s.appends m = [(message.kafkaTopic, offset)]

theorem Once.appends_unsent (h : s.Once) {m : Nat} (unsent : s.sent.length ≤ m) : s.appends m = [] := by
  unfold appends
  rw [List.filterMap_eq_nil_iff]
  intro entry member
  have known := h.numbered entry member
  cases entry with
  | acknowledged _ => rfl
  | appended number kt offset =>
    have differs : number ≠ m := by
      intro same
      rw [QosEntry.message] at known
      omega
    simp [differs]

theorem Once.deliver (h : s.Once) {world : PacketWorld} {first : UInt8} {m : Nat} {message : QosMessage}
    (sent : s.sent[m]? = some message) (type : first >>> 4 = mqttPublish)
    (parsed : parsePublish (first &&& 0x0F) message.payload = .ok message.publish) (new : s.appends m = []) :
    (s.serve b world first message.payload (·.entries m message.publish.packetID)).Once := by
  obtain ⟨inside, _⟩ := List.getElem?_eq_some_iff.mp sent
  refine ⟨?_, ?_⟩
  · intro entry member
    rcases List.mem_append.mp member with added | old
    · rw [Served.entries_message added]
      exact inside
    · exact h.numbered entry old
  · intro other otherMessage found acked
    rw [appends_serve_entries]
    by_cases same : m = other
    · subst same
      have agree : message = otherMessage := Option.some.inj (sent.symm.trans found)
      subst agree
      rcases List.mem_append.mp acked with added | old
      · obtain ⟨_, written⟩ := Served.acknowledged_mem_entries.mp added
        obtain ⟨offset, appended⟩ := MqttBridge.servePacket_pubrec type parsed written
        exact ⟨offset, by rw [if_pos rfl, appended, new]; rfl⟩
      · obtain ⟨offset, once⟩ := h.acknowledged m message sent old
        rw [new] at once
        cases once
    · rw [if_neg same]
      refine h.acknowledged other otherMessage found ?_
      rcases List.mem_append.mp acked with added | old
      · exact absurd (Served.acknowledged_mem_entries.mp added).1.symm same
      · exact old

theorem Once.step (h : s.Once) {event : QosEvent} (unrepeated : s.Unrepeated event) (step : Steps b s event t) : t.Once := by
  cases event with
  | publish message world =>
    cases step
    have extended : { s with sent := s.sent ++ [message] }.Once := by
      refine ⟨?_, ?_⟩
      · intro entry member
        have known := h.numbered entry member
        rw [List.length_append]
        omega
      · intro m found old acked
        have known : m < s.sent.length := h.numbered _ acked
        dsimp only at old
        rw [List.getElem?_append_left known] at old
        exact h.acknowledged m found old acked
    refine extended.deliver ?_ message.first_type message.parsed (h.appends_unsent le_rfl)
    simp
  | retransmit m world =>
    obtain ⟨message, sent, rfl⟩ := Option.map_eq_some_iff.mp step
    exact h.deliver sent message.again_type message.parsed_again unrepeated
  | packet first payload world =>
    cases step
    exact ⟨h.numbered, h.acknowledged⟩
  | others store =>
    cases step
    exact ⟨h.numbered, h.acknowledged⟩

/-- As long as no message is sent again that was appended already, every message that is acknowledged
    with PUBREC was appended exactly once, and to its topic. -/
theorem qos2_exactly_once (b : MqttBridge) (store : Store)
    (run : Reaches (fun s event => s.Fair event ∧ s.Unrepeated event) (Steps b) (opened b store) t) {m : Nat}
    {message : QosMessage} (sent : t.sent[m]? = some message) (acknowledged : .acknowledged m ∈ t.trace) :
    ∃ offset, t.appends m = [(message.kafkaTopic, offset)] := by
  have start : (opened b store).Once := ⟨nofun, nofun⟩
  have once : t.Once := run.invariant start (fun _ _ _ h meets step => h.step meets.2 step)
  exact once.acknowledged m message sent acknowledged

def anyone : MqttBridge := ⟨false, false, fun _ => none, fun _ _ _ => true⟩

def numberSeven : QosMessage where
  first := 0x34
  payload := [0, 1] ++ ascii "t" ++ [0, 7] ++ ascii "1"
  publish := ⟨ascii "t", ascii "1", 2, 7⟩
  unmarked := by decide
  parsed := by decide

def healthy : PacketWorld := ⟨⟨1000, fun _ => openPartition [] 1000 1000, noFaults⟩, false, true⟩

def diskFull : PacketWorld :=
  { healthy with publish := { healthy.publish with faults := ⟨none, some (0, .error "no space left on device")⟩ } }

/-- The first append fails, the message is sent again before its PUBREL, and that copy is appended. -/
def sevenAgain : List QosEvent :=
  [.publish numberSeven diskFull, .retransmit 0 healthy, .packet 0x62 [0, 7] healthy]

theorem qos2_exactly_once_seven :
    ∃ t, Reaches (fun s event => s.Fair event ∧ s.Unrepeated event) (Steps anyone) (opened anyone ⟨[], []⟩) t ∧
      t.sent[0]? = some numberSeven ∧ t.released = [0] ∧ .acknowledged 0 ∈ t.trace ∧
        ∃ offset, t.appends 0 = [(numberSeven.kafkaTopic, offset)] := by
  obtain ⟨t, run, sent, released, acknowledged⟩ :
      ∃ t, Reaches (fun s event => s.Fair event ∧ s.Unrepeated event) (Steps anyone) (opened anyone ⟨[], []⟩) t ∧
        t.sent[0]? = some numberSeven ∧ t.released = [0] ∧ .acknowledged 0 ∈ t.trace :=
    exists_reaches sevenAgain (fun _ _ _ step => step) (by decide +kernel)
  exact ⟨t, run, sent, released, acknowledged, qos2_exactly_once anyone ⟨[], []⟩ run sent acknowledged⟩

/-- A retransmission is appended again. -/
theorem retransmission_appended_twice :
    ∃ t, Reaches Fair (Steps anyone) (opened anyone ⟨[], []⟩) t ∧ t.sent.length = 1 ∧ .acknowledged 0 ∈ t.trace ∧
      t.appends 0 = [(numberSeven.kafkaTopic, 1), (numberSeven.kafkaTopic, 0)] :=
  exists_reaches [.packet 0x10 [] healthy, .publish numberSeven healthy, .retransmit 0 healthy, .packet 0x62 [0, 7] healthy]
    (fun _ _ _ step => step) (by decide +kernel)

end QosRun

end PocketKafka.Gateway
