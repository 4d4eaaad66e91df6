import PocketKafka.Coordinator.Manager
import PocketKafka.Protocol.Client

namespace PocketKafka.Coordinator

open Bytes Protocol

def offsetCommit (g : Group) (offsets : Offsets) (now : Int64) (fails : Bool) (req : OffsetCommitRequest) :
    OffsetCommitResponse × Offsets :=
  if g.fence req = errNone ∧ commitRecords req ≠ [] then
    (commitResponse req (if fails then errUnknownServerError else errNone), commitBatch offsets now (commitRecords req))
  else (commitResponse req (g.fence req), offsets)

/-- A request for all topics gets those that `GroupTopics` and `Partitions` list. -/
def offsetFetch (offsets : Offsets) (listing : List PartitionsOfTopic) (req : OffsetFetchRequest) : OffsetFetchResponse where
  version := req.version
  throttleTimeMs := 0
  topics := (req.topics.getD listing).map fun t => ⟨t.topic, t.partitions.map fun pid =>
    match offsets ⟨req.group, t.topic, Int32.ofInt pid⟩ with
    | some off => ⟨pid, off.offset.toInt, off.leaderEpoch.toInt, off.metadata, errNone⟩
    | none => ⟨pid, -1, -1, none, errNone⟩⟩
  errorCode := errNone

end PocketKafka.Coordinator

namespace PocketKafka.Handler

open Bytes Protocol Decoder Coordinator

def errGroupAuthorizationFailed : Int := 30

def handleOffsetCommit (authorize : Bytes → Bool) (groups : Bytes → Group) (offsets : Offsets) (now : Int64) (fails : Bool)
    (version : Int) (body : Bytes) : Except Failure (OffsetCommitResponse × Offsets) :=
  match decode (decodeOffsetCommitRequest version) body with
  | .error failure => .error failure
  | .ok req =>
    if authorize req.group then .ok (offsetCommit (groups req.group) offsets now fails req)
    else .ok (commitResponse req errGroupAuthorizationFailed, offsets)

structure PartitionCommit where
  partition : Int
  offset : Int
  timestamp : Int
  leaderEpoch : Int
  metadata : Option Bytes

structure TopicCommit where
  topic : Bytes
  partitions : List PartitionCommit

structure Commit where
  group : Bytes
  memberID : Bytes
  instanceID : Option Bytes
  retentionTime : Int
  topics : List TopicCommit

namespace Commit

variable (c : Commit) (version : Int)

/-- The schema of the request: no generation in version 0, a commit timestamp in version 1 for each partition, a retention
    time from version 2 to 4, a leader epoch from version 6 and an instance id in version 7. -/
def body : Writer :=
  .seq [
    [.string c.group], .fieldsIf (1 ≤ version) [.int32 (-1)], .fieldsIf (1 ≤ version) [.string c.memberID],
    .fieldsIf (7 ≤ version) [.nullableString c.instanceID], .fieldsIf (2 ≤ version ∧ version ≤ 4) [.int64 c.retentionTime],
    .array c.topics (fun t => .seq [
      [.string t.topic],
      .array t.partitions (fun p => .seq [
        [.int32 p.partition], [.int64 p.offset], .fieldsIf (version = 1) [.int64 p.timestamp],
        .fieldsIf (6 ≤ version) [.int32 p.leaderEpoch], [.nullableString p.metadata]])])]

def epoch (p : PartitionCommit) : Int := carried (6 ≤ version) p.leaderEpoch 0

def requestTopics : List OffsetCommitRequestTopic :=
  c.topics.map fun t => ⟨t.topic, t.partitions.map fun p => ⟨p.partition, p.offset, epoch version p, p.metadata⟩⟩

structure Understood (req : OffsetCommitRequest) : Prop where
  served : req.version = version
  group : req.group = c.group
  generation : 1 ≤ version → req.generation = -1
  memberID : 1 ≤ version → req.memberID = c.memberID
  instanceID : 7 ≤ version → req.instanceID = c.instanceID
  topics : req.topics = c.requestTopics version

def entries : List (Bytes × PartitionCommit) := c.topics.flatMap fun t => t.partitions.map fun p => (t.topic, p)

def last (topic : Bytes) (partition : Int) : Option PartitionCommit :=
  (c.entries.filter fun (t, p) => t = topic ∧ p.partition = partition).getLast?.map Prod.snd

/-- What a fetch shows of a partition after the commit: what it says last or, where it says nothing, what was there. -/
def shown (offsets : Offsets) (topic : Bytes) (partition : Int) : OffsetFetchResponsePartition :=
  match c.last topic partition with
  | some p => ⟨partition, p.offset, epoch version p, p.metadata, errNone⟩
  | none =>
    match offsets ⟨c.group, topic, Int32.ofInt partition⟩ with
    | some off => ⟨partition, off.offset.toInt, off.leaderEpoch.toInt, off.metadata, errNone⟩
    | none => ⟨partition, -1, -1, none, errNone⟩

/-- The commit is understood, no partition is answered with an error, and fetches show it. -/
def Works (authorize : Bytes → Bool) (groups : Bytes → Group) (offsets : Offsets) (now : Int64) : Prop :=
  ∃ req resp offsets', decode (decodeOffsetCommitRequest version) (c.body version).bytes = .ok req ∧
    c.Understood version req ∧
    handleOffsetCommit authorize groups offsets now false version (c.body version).bytes = .ok (resp, offsets') ∧
    resp.topics = c.topics.map (fun t => ⟨t.topic, t.partitions.map fun p => (p.partition, errNone)⟩) ∧
    ∀ fetchVersion asked, (∀ t ∈ asked, ∀ i ∈ PartitionsOfTopic.partitions t, -2147483648 ≤ i ∧ i < 2147483648) →
      (offsetFetch offsets' [] ⟨fetchVersion, c.group, some asked⟩).topics =
        asked.map fun t => ⟨t.topic, t.partitions.map (c.shown version offsets t.topic)⟩

def request : OffsetCommitRequest where
  version := version
  group := c.group
  generation := carried (1 ≤ version) (-1) 0
  memberID := carried (1 ≤ version) c.memberID []
  instanceID := carried (7 ≤ version) c.instanceID none
  topics := c.requestTopics version

variable {c version}

theorem recovers_body (other : version ≠ 1) :
    Recovers (decodeOffsetCommitRequest version) (c.body version) (c.request version) :=
  have absent : decide (version = 1) = false := decide_eq_false other
  .next (recovers_string _) <| .next (recovers_fieldIf (recovers_int32 _)) <|
  .next (recovers_fieldIf (recovers_string _)) <| .unread absent <|
  .next (recovers_fieldIf (recovers_nullableString _)) <| .next (recovers_fieldIf (recovers_int64 _)) <|
  .next (recovers_array fun _ =>
    .next (recovers_string _) <|
    .next (recovers_array fun _ =>
      .next (recovers_int32 _) <| .next (recovers_int64 _) <| .unread absent <| .unwritten absent <|
      .next (recovers_fieldIf (recovers_int32 _)) <| .next (recovers_nullableString _) <| recovers_done _) <|
    recovers_done _) <|
  recovers_done _

theorem understood_request : c.Understood version (c.request version) := by
  refine ⟨rfl, rfl, fun some => ?_, fun some => ?_, fun some => ?_, rfl⟩
  all_goals exact if_pos (decide_eq_true some)

structure Typed (version : Int) (p : PartitionCommit) : Prop where
  partition : -2147483648 ≤ p.partition ∧ p.partition < 2147483648
  offset : -9223372036854775808 ≤ p.offset ∧ p.offset < 9223372036854775808
  epoch : -2147483648 ≤ epoch version p ∧ epoch version p < 2147483648

theorem typed_entries (typed : (c.body version).InRange) : ∀ entry ∈ c.entries, Typed version entry.2 := by
  rintro ⟨topic, p⟩ member
  obtain ⟨t, listed, inside⟩ := List.mem_flatMap.mp member
  obtain ⟨_, member, same⟩ := List.mem_map.mp inside
  cases same
  -- The fields of the partition stand in the body.
  have within : ∀ f ∈ ([.int32 p.partition, .int64 p.offset] ++ Writer.fieldsIf (6 ≤ version) [.int32 p.leaderEpoch] :
    Writer),
      f ∈ c.body version := by
    intro f field
    simp only [body, Writer.seq, Writer.array, List.flatten_cons, List.mem_append, List.mem_cons, List.mem_flatMap]
    refine Or.inr (Or.inr (Or.inr (Or.inr (Or.inr (Or.inl (Or.inr ⟨t, listed, ?_⟩))))))
    refine Or.inr (Or.inl (Or.inr ⟨p, member, ?_⟩))
    simp only [List.mem_append, List.mem_cons] at field
    rcases field with (rfl | rfl | none) | epoch
    · exact Or.inl (Or.inl rfl)
    · exact Or.inr (Or.inl (Or.inl rfl))
    · cases none
    · exact Or.inr (Or.inr (Or.inr (Or.inl epoch)))
  refine ⟨typed (.int32 p.partition) (within _ (by simp)), typed (.int64 p.offset) (within _ (by simp)), ?_⟩
  unfold epoch carried
  split
  · rename_i carries
    exact typed (.int32 p.leaderEpoch) (within _ (by simp [Writer.fieldsIf, of_decide_eq_true carries]))
  · decide

def stored (c : Commit) (version : Int) (entry : Bytes × PartitionCommit) : OffsetCommitRecord :=
  ⟨⟨c.group, entry.1, Int32.ofInt entry.2.partition⟩,
    ⟨Int64.ofInt entry.2.offset, entry.2.metadata, Int32.ofInt (epoch version entry.2), 0⟩⟩

theorem commitRecords_request {req : OffsetCommitRequest} (understood : c.Understood version req) :
    commitRecords req = c.entries.map (c.stored version) := by
  unfold commitRecords entries
  rw [understood.topics, understood.group, requestTopics, List.flatMap_map, List.map_flatMap]
  congr 1
  funext t
  rw [List.map_map, List.map_map]
  rfl

theorem ofInt32_inj {x y : Int} (left : -2147483648 ≤ x ∧ x < 2147483648) (right : -2147483648 ≤ y ∧ y < 2147483648) :
    Int32.ofInt x = Int32.ofInt y ↔ x = y := by
  constructor
  · intro same
    have values := congrArg Int32.toInt same
    rwa [Int32.toInt_ofInt_of_le left.1 left.2, Int32.toInt_ofInt_of_le right.1 right.2] at values
  · rintro rfl
    rfl

theorem commitBatch_stored (typed : ∀ entry ∈ c.entries, Typed version entry.2) (offsets : Offsets) (now : Int64)
    (topic : Bytes)
    {partition : Int} (range : -2147483648 ≤ partition ∧ partition < 2147483648) :
    commitBatch offsets now (c.entries.map (c.stored version)) ⟨c.group, topic, Int32.ofInt partition⟩ =
      ((c.last topic partition).map fun p => (c.stored version (topic, p)).stamped now).or
        (offsets ⟨c.group, topic, Int32.ofInt partition⟩) := by
  rw [commitBatch, Journal.replay_apply, last, List.map_map]
  congr 1
  have same : Journal.written (c.entries.map ((fun r => (r.key, r.stamped now)) ∘ c.stored version))
      ⟨c.group, topic, Int32.ofInt partition⟩ =
      (c.entries.filter fun (t, p) => t = topic ∧ p.partition = partition).map fun entry =>
        (c.stored version (topic, entry.2)).stamped now := by
    rw [Journal.written, List.filter_map, List.map_map]
    have kept : c.entries.filter ((fun w => decide (w.1 = ⟨c.group, topic, Int32.ofInt partition⟩)) ∘
        (fun r : OffsetCommitRecord => (r.key, r.stamped now)) ∘ c.stored version) =
        c.entries.filter fun (t, p) => t = topic ∧ p.partition = partition := by
      apply List.filter_congr
      rintro ⟨t, p⟩ member
      have own := (typed _ member).partition
      simp [stored, ofInt32_inj own range]
    rw [kept]
    apply List.map_congr_left
    rintro ⟨t, p⟩ member
    have chosen := of_decide_eq_true (List.mem_filter.mp member).2
    simp only [Function.comp_apply, chosen.1]
  rw [same, List.getLast?_map, Option.map_map]
  rfl

theorem offsetFetch_shown (typed : ∀ entry ∈ c.entries, Typed version entry.2) (offsets : Offsets) (now : Int64)
    (fetchVersion : Int) {asked : List PartitionsOfTopic}
    (range : ∀ t ∈ asked, ∀ i ∈ t.partitions, -2147483648 ≤ i ∧ i < 2147483648) :
    (offsetFetch (commitBatch offsets now (c.entries.map (c.stored version))) [] ⟨fetchVersion, c.group,
      some asked⟩).topics =
      asked.map fun t => ⟨t.topic, t.partitions.map (c.shown version offsets t.topic)⟩ := by
  unfold offsetFetch
  rw [Option.getD_some]
  apply List.map_congr_left
  intro t listed
  congr 1
  apply List.map_congr_left
  intro i inside
  rw [commitBatch_stored typed offsets now t.topic (range t listed i inside), shown]
  cases found : c.last t.topic i with
  | none => rfl
  | some p =>
    obtain ⟨⟨topic, q⟩, final, rfl⟩ := Option.map_eq_some_iff.mp found
    have member := (List.mem_filter.mp (List.mem_of_getLast? final)).1
    have fits := typed _ member
    have offset := Int64.toInt_ofInt_of_le fits.offset.1 fits.offset.2
    have epoch := Int32.toInt_ofInt_of_le fits.epoch.1 fits.epoch.2
    simp [stored, OffsetCommitRecord.stamped, offset, epoch]

structure Moves (r r' : Reader) (n : Nat) : Prop where
  buf : r'.buf = r.buf
  off : r'.off = r.off + n
  inside : r.off ≤ r.buf.length → r'.off ≤ r.buf.length

theorem Moves.trans {r r' r'' : Reader} {n m : Nat} (first : Moves r r' n) (second : Moves r' r'' m) :
    Moves r r'' (n + m) := by
  refine ⟨second.buf.trans first.buf, ?_, fun start => ?_⟩
  · rw [second.off, first.off, Nat.add_assoc]
  · have middle := first.inside start
    rw [← first.buf] at middle ⊢
    exact second.inside middle

section

variable {α β : Type} {d : Decoder α} {r r' : Reader}

theorem bind_ok {f : α → Decoder β} {v : β} (done : (d >>= f) r = .ok (v, r')) :
    ∃ u r₁, d r = .ok (u, r₁) ∧ f u r₁ = .ok (v, r') := by
  obtain ⟨⟨u, r₁⟩, read, rest⟩ := exists_of_bind done
  exact ⟨u, r₁, read, rest⟩

theorem map_ok {f : α → β} {v : β} (done : (f <$> d) r = .ok (v, r')) : ∃ u, d r = .ok (u, r') ∧ f u = v := by
  obtain ⟨⟨u, r₁⟩, read, same⟩ := exists_of_bind done
  cases same
  exact ⟨u, read, rfl⟩

theorem pure_ok {u v : α} (done : (pure u : Decoder α) r = .ok (v, r')) : u = v ∧ r = r' := by
  cases done
  exact ⟨rfl, rfl⟩

theorem moves_raw {n : Nat} {b : Bytes} (done : readRaw n r = .ok (b, r')) : Moves r r' n ∧ b.length = n := by
  unfold readRaw at done
  split at done
  · cases done
  · rename_i room
    cases done
    refine ⟨⟨rfl, rfl, fun _ => by dsimp only; omega⟩, ?_⟩
    rw [slice, List.length_take, List.length_drop]
    omega

theorem moves_int32 {v : Int} (done : readInt32 r = .ok (v, r')) : Moves r r' 4 := by
  obtain ⟨b, read, _⟩ := map_ok done
  exact (moves_raw read).1

theorem moves_int64 {v : Int} (done : readInt64 r = .ok (v, r')) : Moves r r' 8 := by
  obtain ⟨b, read, _⟩ := map_ok done
  exact (moves_raw read).1

theorem moves_nullableString {s : Option Bytes} (done : readNullableString r = .ok (s, r')) :
    Moves r r' (2 + (s.getD []).length) := by
  obtain ⟨l, r₁, length, text⟩ := bind_ok done
  obtain ⟨b, read, _⟩ := map_ok length
  have front := (moves_raw read).1
  split at text
  · cases text
    exact front
  · obtain ⟨b, read, rfl⟩ := map_ok text
    obtain ⟨rest, size⟩ := moves_raw read
    rw [Option.getD_some, size]
    exact front.trans rest

theorem moves_string {s : Bytes} (done : readString r = .ok (s, r')) : Moves r r' (2 + s.length) := by
  obtain ⟨t, read, rfl⟩ := map_ok done
  exact moves_nullableString read

theorem moves_repeated {size : α → Nat} (each : ∀ r v r', d r = .ok (v, r') → Moves r r' (size v)) {n : Nat} {vs : List α}
    (done : repeated d n r = .ok (vs, r')) : Moves r r' (vs.map size).sum := by
  induction n generalizing r vs with
  | zero =>
    cases done
    exact ⟨rfl, rfl, id⟩
  | succ n ih =>
    obtain ⟨v, r₁, first, rest⟩ := bind_ok done
    obtain ⟨vs, later, rfl⟩ := map_ok rest
    rw [List.map_cons, List.sum_cons]
    exact (each r v r₁ first).trans (ih later)

theorem moves_array {size : α → Nat} (each : ∀ r v r', d r = .ok (v, r') → Moves r r' (size v)) {vs : List α}
    (done : readArray d r = .ok (vs, r')) : Moves r r' (4 + (vs.map size).sum) := by
  obtain ⟨n, r₁, length, elements⟩ := bind_ok done
  obtain ⟨l, read, _⟩ := map_ok length
  unfold makeSlice at elements
  split at elements
  · cases elements
  · exact (moves_int32 read).trans (moves_repeated each elements)

end

def partitionSize (p : OffsetCommitRequestPartition) : Nat := 20 + (2 + (p.metadata.getD []).length)

def topicSize (t : OffsetCommitRequestTopic) : Nat := 2 + t.topic.length + (4 + (t.partitions.map partitionSize).sum)

theorem moves_first {r r' : Reader} {req : OffsetCommitRequest} (done : decodeOffsetCommitRequest 1 r = .ok (req, r')) :
    Moves r r' (2 + req.group.length + (4 + (2 + req.memberID.length + (8 + (4 + (req.topics.map topicSize).sum))))) := by
  obtain ⟨group, r₁, first, afterGroup⟩ := bind_ok done
  obtain ⟨generation, r₂, second, afterGeneration⟩ := bind_ok afterGroup
  obtain ⟨memberID, r₃, third, afterMember⟩ := bind_ok afterGeneration
  obtain ⟨timestamp, r₄, fourth, afterTimestamp⟩ := bind_ok afterMember
  obtain ⟨instanceID, r₅, fifth, afterInstance⟩ := bind_ok afterTimestamp
  obtain ⟨retention, r₆, sixth, afterRetention⟩ := bind_ok afterInstance
  obtain ⟨topics, r₇, seventh, final⟩ := bind_ok afterRetention
  obtain ⟨rfl, rfl⟩ := pure_ok final
  obtain ⟨rfl, rfl⟩ := pure_ok sixth
  obtain ⟨rfl, rfl⟩ := pure_ok fifth
  apply (moves_string first).trans
  apply (moves_int32 second).trans
  apply (moves_string third).trans
  apply (moves_int64 fourth).trans
  apply moves_array (fun r t r' topic => ?_) seventh
  obtain ⟨name, r₁, first, afterName⟩ := bind_ok topic
  obtain ⟨partitions, r₂, second, final⟩ := bind_ok afterName
  obtain ⟨rfl, rfl⟩ := pure_ok final
  apply (moves_string first).trans
  apply moves_array (fun r p r' partition => ?_) second
  obtain ⟨id, r₁, first, afterId⟩ := bind_ok partition
  obtain ⟨offset, r₂, second, afterOffset⟩ := bind_ok afterId
  obtain ⟨timestamp, r₃, third, afterTimestamp⟩ := bind_ok afterOffset
  obtain ⟨epoch, r₄, fourth, afterEpoch⟩ := bind_ok afterTimestamp
  obtain ⟨metadata, r₅, fifth, final⟩ := bind_ok afterEpoch
  obtain ⟨rfl, rfl⟩ := pure_ok final
  obtain ⟨rfl, rfl⟩ := pure_ok fourth
  have numbers := ((moves_int32 first).trans (moves_int64 second)).trans (moves_int64 third)
  exact numbers.trans (moves_nullableString fifth)

theorem seq_length (w : Writer) (parts : List Writer) :
    (Writer.seq (w :: parts)).bytes.length = w.bytes.length + (Writer.seq parts).bytes.length := by
  rw [Writer.seq, List.flatten_cons, Writer.bytes_append, List.length_append]
  rfl

theorem array_length {α : Type} (xs : List α) (element : α → Writer) :
    (Writer.array xs element).bytes.length = 4 + (xs.map fun x => (element x).bytes.length).sum := by
  have elements : (Writer.bytes (xs.flatMap element)).length = (xs.map fun x => (element x).bytes.length).sum := by
    induction xs with
    | nil => rfl
    | cons x xs ih => rw [List.flatMap_cons, Writer.bytes_append, List.length_append, ih, List.map_cons, List.sum_cons]
  rw [Writer.array, ← elements]
  show (writeInt32 xs.length ++ Writer.bytes (xs.flatMap element)).length = _
  rw [List.length_append, writeInt32, putBE_length]

theorem string_length (s : Bytes) : (Writer.bytes [.string s]).length = 2 + s.length := by
  simp [Writer.bytes, Field.written, writeInt16]

theorem nullableString_length (s : Option Bytes) : (Writer.bytes [.nullableString s]).length = 2 + (s.getD []).length := by
  cases s <;> simp [Writer.bytes, Field.written, writeInt16]

theorem int32_length (v : Int) : (Writer.bytes [.int32 v]).length = 4 := by
  simp [Writer.bytes, Field.written, writeInt32]

theorem int64_length (v : Int) : (Writer.bytes [.int64 v]).length = 8 := by
  simp [Writer.bytes, Field.written]

theorem body_length (c : Commit) : (c.body 1).bytes.length =
    2 + c.group.length + (4 + (2 + c.memberID.length + (4 + ((c.requestTopics 1).map topicSize).sum))) := by
  have partition (p : PartitionCommit) : (Writer.seq [
      [.int32 p.partition], [.int64 p.offset], [.int64 p.timestamp], [], [.nullableString p.metadata]]).bytes.length =
      partitionSize ⟨p.partition, p.offset, epoch 1 p, p.metadata⟩ := by
    rw [seq_length, seq_length, seq_length, seq_length, seq_length, int32_length, int64_length, int64_length,
      nullableString_length]
    simp only [Writer.bytes_nil, Writer.seq, List.flatten_nil, List.length_nil, partitionSize]
    omega
  have topic (t : TopicCommit) : (Writer.seq [
      [.string t.topic], .array t.partitions (fun p => .seq [
        [.int32 p.partition], [.int64 p.offset], [.int64 p.timestamp], [], [.nullableString p.metadata]])]).bytes.length =
      topicSize ⟨t.topic, t.partitions.map fun p => ⟨p.partition, p.offset, epoch 1 p, p.metadata⟩⟩ := by
    rw [seq_length, seq_length, string_length, array_length, topicSize, List.map_map]
    simp only [partition]
    rfl
  have parts : c.body 1 = .seq [
      [.string c.group], [.int32 (-1)], [.string c.memberID], [], [],
      .array c.topics (fun t => .seq [
        [.string t.topic], .array t.partitions (fun p => .seq [
          [.int32 p.partition], [.int64 p.offset], [.int64 p.timestamp], [], [.nullableString p.metadata]])])] := rfl
  rw [parts, seq_length, seq_length, seq_length, seq_length, seq_length, seq_length, string_length, int32_length,
    string_length,
    array_length, requestTopics, List.map_map]
  simp only [topic]
  simp only [Writer.bytes_nil, Writer.seq, List.flatten_nil, List.length_nil, Function.comp_def]
  omega

theorem not_understood_first (req : OffsetCommitRequest) (understood : c.Understood 1 req) :
    decode (decodeOffsetCommitRequest 1) (c.body 1).bytes ≠ .ok req := by
  intro decoded
  unfold decode at decoded
  cases read : decodeOffsetCommitRequest 1 ⟨(c.body 1).bytes, 0⟩ with
  | error failure =>
    rw [read] at decoded
    cases decoded
  | ok result =>
    rw [read] at decoded
    have same : result.1 = req := Except.ok.inj decoded
    have moves : Moves _ result.2 _ := moves_first read
    have inside := moves.inside (Nat.zero_le _)
    rw [moves.off, same, understood.group, understood.memberID (by decide), understood.topics] at inside
    dsimp only at inside
    rw [body_length] at inside
    omega

theorem fence_member {g : Group} (nobody : g.members = ∅) {req : OffsetCommitRequest} (member : 0 ≤ req.generation) :
    g.fence req ≠ errNone := by
  unfold Group.fence
  rw [if_pos member, nobody, AList.lookup_empty, if_pos rfl]
  split <;> decide

theorem fence_simple {g : Group} {req : OffsetCommitRequest} (simple : req.generation < 0) : g.fence req = errNone := by
  unfold Group.fence
  rw [if_neg (by omega)]

theorem commitResponse_topics {req : OffsetCommitRequest} (understood : c.Understood version req) (code : Int) :
    (commitResponse req code).topics = c.topics.map fun t => ⟨t.topic, t.partitions.map fun p => (p.partition, code)⟩ := by
  unfold commitResponse
  dsimp only
  rw [understood.topics, requestTopics, List.map_map]
  apply List.map_congr_left
  intro t _
  dsimp only [Function.comp_apply]
  rw [List.map_map]
  rfl

/-- Commits of clients in no group work from version 2 on. In version 0 only those work that commit nothing, and in
    version 1 none. -/
theorem commit_works_iff (c : Commit) {version : Int} (authorize : Bytes → Bool) (groups : Bytes → Group) (offsets : Offsets)
    (now : Int64) (served : 0 ≤ version ∧ version ≤ 7) (typed : (c.body version).InRange)
    (nobody : (groups c.group).members = ∅) (allowed : authorize c.group = true) :
    c.Works version authorize groups offsets now ↔ 2 ≤ version ∨ version = 0 ∧ ∀ t ∈ c.topics, t.partitions = [] := by
  have fits := typed_entries typed
  by_cases first : version = 1
  · subst first
    constructor
    · rintro ⟨req, _, _, decoded, understood, _⟩
      exact absurd decoded (not_understood_first req understood)
    · rintro (late | ⟨zero, _⟩)
      · omega
      · omega
  · have decoded := (recovers_body (c := c) first).decode typed
    have understood : c.Understood version (c.request version) := understood_request
    have handled : handleOffsetCommit authorize groups offsets now false version (c.body version).bytes =
        .ok (offsetCommit (groups c.group) offsets now false (c.request version)) := by
      rw [handleOffsetCommit, decoded]
      exact if_pos allowed
    have records : commitRecords (c.request version) = c.entries.map (c.stored version) := commitRecords_request understood
    by_cases late : 2 ≤ version
    · refine ⟨fun _ => Or.inl late, fun _ => ?_⟩
      have simple : (groups c.group).fence (c.request version) = errNone := by
        apply fence_simple
        show carried (decide (1 ≤ version)) (-1) 0 < 0
        rw [carried, if_pos (decide_eq_true (by omega))]
        decide
      have served : offsetCommit (groups c.group) offsets now false (c.request version) =
          (commitResponse (c.request version) errNone, commitBatch offsets now (c.entries.map (c.stored version))) := by
        unfold offsetCommit
        rw [records, simple]
        split
        · rfl
        · rename_i nothing
          have empty : c.entries.map (c.stored version) = [] := by
            by_contra some
            exact nothing ⟨rfl, some⟩
          rw [empty]
          rfl
      rw [served] at handled
      exact ⟨_, _, _, decoded, understood, handled, commitResponse_topics understood errNone,
        fun fetchVersion asked range => offsetFetch_shown fits offsets now fetchVersion range⟩
    · have zero : version = 0 := by omega
      subst zero
      have fenced : (groups c.group).fence (c.request 0) ≠ errNone := fence_member nobody (le_refl 0)
      have refused : offsetCommit (groups c.group) offsets now false (c.request 0) =
          (commitResponse (c.request 0) ((groups c.group).fence (c.request 0)), offsets) :=
        if_neg fun accepted => fenced accepted.1
      rw [refused] at handled
      constructor
      · rintro ⟨req, resp, offsets', _, _, answered, clean, _⟩
        rw [handled] at answered
        cases answered
        refine Or.inr ⟨rfl, fun t listed => ?_⟩
        rw [commitResponse_topics understood] at clean
        have same := (List.map_inj_left.mp clean) t listed
        have codes : t.partitions.map (fun p => (p.partition, (groups c.group).fence (c.request 0))) =
            t.partitions.map (fun p => (p.partition, errNone)) := congrArg PartitionErrors.partitions same
        apply List.eq_nil_iff_forall_not_mem.mpr
        intro p member
        exact fenced (congrArg Prod.snd ((List.map_inj_left.mp codes) p member))
      · rintro (late | ⟨-, nothing⟩)
        · omega
        · have none : c.entries = [] := by
            rw [entries, List.flatMap_eq_nil_iff]
            intro t listed
            rw [nothing t listed]
            rfl
          refine ⟨_, _, _, decoded, understood, handled, ?_, fun fetchVersion asked range => ?_⟩
          · rw [commitResponse_topics understood]
            apply List.map_congr_left
            intro t listed
            rw [nothing t listed]
            rfl
          · have shown := offsetFetch_shown fits offsets now fetchVersion range
            rw [none] at shown
            exact shown

theorem commit_works_six :
    ∃ c : Commit, c.entries.length = 1 ∧
      c.Works 6 (fun _ => true) (fun _ => newGroup) (fun _ => none) 0 := by
  let c : Commit := ⟨ascii "g", [], none, 0, [⟨ascii "t", [⟨3, 42, 0, 7, some (ascii "m")⟩]⟩]⟩
  exact ⟨c, rfl,
    (commit_works_iff c (fun _ => true) (fun _ => newGroup) (fun _ => none) 0 (by decide) (by decide +kernel) rfl
    rfl).mpr (Or.inl (by decide))⟩

/-- In version 0 the missing generation is taken for generation 0, of which the client is no member; in version 1 the
    body is too short for a timestamp that it does not have. -/
theorem old_commits_fail :
    ∃ c : Commit, (c.body 0).InRange ∧ (c.body 1).InRange ∧ newGroup.members = ∅ ∧
      (handleOffsetCommit (fun _ => true) (fun _ => newGroup) (fun _ => none) 0 false 0 (c.body 0).bytes).map
        (fun result => result.1.topics) = .ok [⟨ascii "t", [(3, errUnknownMemberID)]⟩] ∧
      decode (decodeOffsetCommitRequest 1) (c.body 1).bytes = .error (.error "unexpected EOF") := by
  let c : Commit := ⟨ascii "g", [], none, 0, [⟨ascii "t", [⟨3, 42, 0, 7, some (ascii "m")⟩]⟩]⟩
  exact ⟨c, by decide +kernel, by decide +kernel, rfl, by decide +kernel, by decide +kernel⟩

end Commit

end PocketKafka.Handler
