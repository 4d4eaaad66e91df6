import PocketKafka.Lib.Buckets
import PocketKafka.Lib.Decimal
import PocketKafka.Protocol.Client

namespace PocketKafka.Client

open Bytes Protocol Buckets

abbrev Assignment := Table Bytes Int

abbrev Metadata := Table Bytes Int

def encodeSubscription (topics : List Bytes) : Bytes :=
  Writer.bytes (Writer.array topics (fun t => [.string t]) ++ [.bytes none])

def topicPartition (topic : Bytes) (p : Int) : Bytes := topic ++ 0 :: formatInt p

def parseIntLoop (v : Int) : Bytes → Int
  | [] => v
  | c :: rest => if c < 48 ∨ 57 < c then v else parseIntLoop (int32 (v * 10 + (c.toNat - 48))) rest

def parseInt (s : Bytes) : Int := parseIntLoop 0 s

def splitTopicPartition (tp : Bytes) : Bytes × Int :=
  if 0 ∈ tp then (tp.takeWhile (· ≠ 0), parseInt (tp.dropWhile (· ≠ 0)).tail) else (tp, 0)

def toMap (tps : List Bytes) : Assignment := Table.collect ∅ (tps.map splitTopicPartition)

structure MemberAssignment where
  memberID : Bytes
  topicPartitions : Assignment

def partitionsOf (metadata : Metadata) (topics : List Bytes) : List (Bytes × Int) :=
  topics.flatMap fun t => (metadata.bucket t).map fun p => (t, p)

def dealt (names : List Bytes) {α : Type} (all : List α) : List (Bytes × α) :=
  all.zipIdx.map fun (tp, i) => (names.getD (i % names.length) [], tp)

def computeAssignment (metadata : Metadata) (topics : List Bytes) (members : List JoinGroupResponseMember) :
    Except Failure (List MemberAssignment) :=
  let all := (partitionsOf metadata topics).map fun (t, p) => topicPartition t p
  let names := members.map (·.memberID)
  if names = [] ∧ all ≠ [] then .error (.panic "integer divide by zero")
  else
    let assign : Table Bytes Bytes := names.foldl (fun assign m => assign.insert m []) ∅
    let assign := assign.collect (dealt names all)
    .ok (members.map fun m => ⟨m.memberID, toMap (assign.bucket m.memberID)⟩)

theorem foldl_none (s : Bytes) :
    s.foldl (fun acc c => acc.bind fun n => (digit c).map fun d => 10 * n + d) none = none := by
  induction s with
  | nil => rfl
  | cons c s ih => exact ih

theorem le_of_digits {s : Bytes} {v n : Nat}
    (value : s.foldl (fun acc c => acc.bind fun n => (digit c).map fun d => 10 * n + d) (some v) = some n) : v ≤ n := by
  induction s generalizing v with
  | nil =>
    cases value
    exact le_rfl
  | cons c s ih =>
    rw [List.foldl_cons, Option.bind_some] at value
    cases found : digit c with
    | none =>
      rw [found, Option.map_none, foldl_none] at value
      cases value
    | some d =>
      rw [found, Option.map_some] at value
      have := ih value
      omega

theorem parseIntLoop_digits {s : Bytes} {v n : Nat}
    (value : s.foldl (fun acc c => acc.bind fun n => (digit c).map fun d => 10 * n + d) (some v) = some n)
    (fits : n < 2147483648) : parseIntLoop v s = n := by
  induction s generalizing v with
  | nil =>
    cases value
    rfl
  | cons c s ih =>
    rw [List.foldl_cons, Option.bind_some] at value
    cases found : digit c with
    | none =>
      rw [found, Option.map_none, foldl_none] at value
      cases value
    | some d =>
      rw [found, Option.map_some] at value
      have small := le_of_digits value
      unfold digit at found
      split at found
      · rename_i inside
        cases found
        have lower : 48 ≤ c.toNat := UInt8.le_iff_toNat_le.mp inside.1
        have next : int32 ((v : Int) * 10 + ((c.toNat : Int) - 48)) = ((10 * v + (c.toNat - 48) : Nat) : Int) := by
          rw [int32_of_bounds (by omega) (by omega)]
          omega
        have range : ¬ (c < 48 ∨ 57 < c) := by
          rintro (low | high)
          · exact absurd inside.1 (UInt8.not_le.mpr low)
          · exact absurd inside.2 (UInt8.not_le.mpr high)
        rw [parseIntLoop, if_neg range, next]
        exact ih value
      · cases found

theorem parseInt_formatInt {p : Int} (lower : 0 ≤ p) (upper : p < 2147483648) : parseInt (formatInt p) = p := by
  have value := undecimal_digits (le_refl p.natAbs)
  rw [formatInt, if_neg (by omega), parseInt]
  have read := parseIntLoop_digits (v := 0) value (by omega)
  rw [Nat.cast_zero] at read
  omega

theorem parseInt_formatInt_nonneg {p : Int} (upper : p < 2147483648) : 0 ≤ parseInt (formatInt p) := by
  by_cases lower : 0 ≤ p
  · rw [parseInt_formatInt lower upper]
    exact lower
  · -- The sign ends the loop before the first digit.
    rw [formatInt, if_pos (by omega), parseInt, parseIntLoop, if_pos (by decide)]

theorem splitTopicPartition_eq {topic : Bytes} (p : Int) (plain : 0 ∉ topic) :
    splitTopicPartition (topicPartition topic p) = (topic, parseInt (formatInt p)) := by
  have front : ∀ c ∈ topic, decide (c ≠ 0) = true := fun c member => decide_eq_true fun zero => plain (zero ▸ member)
  rw [splitTopicPartition, topicPartition, if_pos (by simp), List.takeWhile_append_of_pos front,
    List.dropWhile_append_of_pos front,
    List.takeWhile_cons_of_neg (by simp), List.dropWhile_cons_of_neg (by simp), List.append_nil, List.tail_cons]

theorem splitTopicPartition_plain (tp : Bytes) : 0 ∉ (splitTopicPartition tp).1 := by
  unfold splitTopicPartition
  split
  · intro member
    exact absurd (List.mem_takeWhile_imp member) (by decide)
  · rename_i absent
    exact absent

section dealing

variable {α β : Type} (names : List Bytes)

theorem dealt_map (f : α → β) (all : List α) : dealt names (all.map f) = (dealt names all).map (Prod.map id f) := by
  rw [dealt, dealt, List.zipIdx_map, List.map_map, List.map_map]
  rfl

theorem mem_dealt {all : List α} {entry : Bytes × α} :
    entry ∈ dealt names all ↔ ∃ i, all[i]? = some entry.2 ∧ entry.1 = names.getD (i % names.length) [] := by
  rw [dealt, List.mem_map]
  constructor
  · rintro ⟨⟨x, i⟩, member, rfl⟩
    exact ⟨i, List.mem_zipIdx_iff_getElem?.mp member, rfl⟩
  · rintro ⟨i, found, owner⟩
    exact ⟨(entry.2, i), List.mem_zipIdx_iff_getElem?.mpr found, Prod.ext owner.symm rfl⟩

theorem valuesOf_map (f : α → β) (entries : List (Bytes × α)) (k : Bytes) :
    valuesOf (entries.map (Prod.map id f)) k = (valuesOf entries k).map f := by
  rw [valuesOf, valuesOf, List.filter_map, List.map_map, List.map_map]
  rfl

end dealing

theorem bucket_foldl_insert (names : List Bytes) (table : Table Bytes Bytes) (empty : ∀ k, table.bucket k = []) (k : Bytes) :
    (names.foldl (fun assign m => assign.insert m []) table).bucket k = [] := by
  induction names generalizing table with
  | nil => exact empty k
  | cons name names ih =>
    apply ih
    intro other
    rw [Table.bucket]
    by_cases same : other = name
    · rw [same, AList.lookup_insert, Option.getD_some]
    · rw [AList.lookup_insert_ne same]
      exact empty other

structure Subscription where
  memberID : Bytes
  topics : List Bytes

def Subscription.response (m : Subscription) : JoinGroupResponseMember := ⟨m.memberID, none, encodeSubscription m.topics⟩

def given (out : List MemberAssignment) (id t : Bytes) : List Int :=
  (out.filter fun a => a.memberID = id).flatMap fun a => a.topicPartitions.bucket t

def reread (tp : Bytes × Int) : Bytes × Int := splitTopicPartition (topicPartition tp.1 tp.2)

variable {members : List Subscription} {metadata : Metadata} {topics : List Bytes}

theorem given_map {ids : List Bytes} (distinct : ids.Nodup) {id : Bytes} (member : id ∈ ids) (f : Bytes → Assignment)
    (t : Bytes) :
    given (ids.map fun id => ⟨id, f id⟩) id t = (f id).bucket t := by
  have single : ids.filter (fun other => decide (other = id)) = [id] := by
    rw [show (fun other => decide (other = id)) = (· == id) from funext fun other => (beq_eq_decide other id).symm,
      List.filter_beq, List.count_eq_one_of_mem distinct member]
    rfl
  rw [given, List.filter_map, show ((fun a : MemberAssignment => decide (a.memberID = id)) ∘ fun id => ⟨id, f id⟩) =
    fun other => decide (other = id) from rfl, single, List.map_singleton, List.flatMap_singleton]

theorem computeAssignment_eq (metadata : Metadata) (topics : List Bytes) (some : members ≠ [])
    (distinct : (members.map (·.memberID)).Nodup) :
    ∃ out, computeAssignment metadata topics (members.map Subscription.response) = .ok out ∧
      ∀ m ∈ members, ∀ t, given out m.memberID t =
        valuesOf (valuesOf (dealt (members.map (·.memberID)) ((partitionsOf metadata topics).map reread)) m.memberID) t := by
  have names : (members.map Subscription.response).map (·.memberID) = members.map (·.memberID) := by
    rw [List.map_map]
    rfl
  rw [computeAssignment, names]
  dsimp only
  rw [if_neg fun none => some (List.map_eq_nil_iff.mp none.1)]
  refine ⟨_, rfl, fun m member t => ?_⟩
  have each := given_map distinct (List.mem_map_of_mem member) (fun id => toMap (Table.bucket (Table.collect
    ((members.map (·.memberID)).foldl (fun assign m => assign.insert m []) ∅)
    (dealt (members.map (·.memberID)) ((partitionsOf metadata topics).map fun (t, p) => topicPartition t p))) id)) t
  rw [List.map_map] at each
  rw [List.map_map]
  refine each.trans ?_
  rw [toMap, bucket_collect, bucket_empty, List.nil_append, bucket_collect, bucket_foldl_insert _ _ fun k => bucket_empty k,
    List.nil_append, ← valuesOf_map, ← dealt_map, List.map_map]
  rfl

/-- Every partition of a topic that is subscribed to is given to one member, which subscribes to the topic, and
    nothing else is given. -/
structure Partitioned (members : List Subscription) (metadata : Metadata) (out : List MemberAssignment) : Prop where
  each : ∀ t p, (∃ m ∈ members, t ∈ m.topics) → p ∈ metadata.bucket t →
    ∃ m ∈ members, t ∈ m.topics ∧ p ∈ given out m.memberID t ∧
      ∀ other ∈ members, p ∈ given out other.memberID t → other.memberID = m.memberID
  only : ∀ m ∈ members, ∀ t, ∀ p ∈ given out m.memberID t, t ∈ m.topics ∧ p ∈ metadata.bucket t

/-- The leader's topics are all that anyone subscribes to, a partition named twice falls to one member, names and
    partitions are read back from their strings, and a member subscribes to the topics of the partitions that fall to
    it. -/
structure Suits (members : List Subscription) (metadata : Metadata) (topics : List Bytes) : Prop where
  covered : ∀ m ∈ members, ∀ t ∈ m.topics, metadata.bucket t ≠ [] → t ∈ topics
  once : ∀ i j tp, (partitionsOf metadata topics)[i]? = some tp → (partitionsOf metadata topics)[j]? = some tp →
    i % members.length = j % members.length
  plain : ∀ tp ∈ partitionsOf metadata topics, 0 ∉ tp.1 ∧ 0 ≤ tp.2
  turns : ∀ i tp m, (partitionsOf metadata topics)[i]? = some tp → members[i % members.length]? = some m → tp.1 ∈ m.topics

theorem mem_partitionsOf {t : Bytes} {p : Int} : (t, p) ∈ partitionsOf metadata topics ↔ t ∈ topics ∧
    p ∈ metadata.bucket t := by
  rw [partitionsOf, List.mem_flatMap]
  constructor
  · rintro ⟨t, named, member⟩
    obtain ⟨p, inside, equal⟩ := List.mem_map.mp member
    cases equal
    exact ⟨named, inside⟩
  · rintro ⟨named, inside⟩
    exact ⟨t, named, List.mem_map.mpr ⟨p, inside, rfl⟩⟩

theorem names_getD_iff (distinct : (members.map (·.memberID)).Nodup) {m : Subscription} (member : m ∈ members) (i : Nat) :
    m.memberID = (members.map (·.memberID)).getD (i % (members.map (·.memberID)).length) [] ↔
      members[i % members.length]? = some m := by
  have bound : i % members.length < members.length := Nat.mod_lt _ (List.length_pos_of_mem member)
  rw [List.length_map, List.getD_eq_getElem?_getD, List.getElem?_map, List.getElem?_eq_getElem bound, Option.map_some,
    Option.getD_some, Option.some_inj]
  constructor
  · intro same
    exact (List.inj_on_of_nodup_map distinct member (List.getElem_mem bound) same).symm
  · intro same
    rw [same]

variable {out : List MemberAssignment}

theorem mem_given (distinct : (members.map (·.memberID)).Nodup) {m : Subscription} (member : m ∈ members)
    (outcome : ∀ t, given out m.memberID t =
      valuesOf (valuesOf (dealt (members.map (·.memberID)) ((partitionsOf metadata topics).map reread)) m.memberID) t)
    {t : Bytes} {p : Int} :
    p ∈ given out m.memberID t ↔
      ∃ i tp, (partitionsOf metadata topics)[i]? = some tp ∧ reread tp = (t, p) ∧ members[i % members.length]? = some m := by
  rw [outcome, mem_valuesOf, mem_valuesOf, mem_dealt]
  constructor
  · rintro ⟨i, found, owner⟩
    rw [List.getElem?_map, Option.map_eq_some_iff] at found
    obtain ⟨tp, found, read⟩ := found
    exact ⟨i, tp, found, read, (names_getD_iff distinct member i).mp owner⟩
  · rintro ⟨i, tp, found, read, owner⟩
    refine ⟨i, ?_, (names_getD_iff distinct member i).mpr owner⟩
    rw [List.getElem?_map, found, Option.map_some, read]

theorem reread_plain {tp : Bytes × Int} (plain : 0 ∉ tp.1 ∧ 0 ≤ tp.2) (upper : tp.2 < 2147483648) : reread tp = tp := by
  rw [reread, splitTopicPartition_eq tp.2 plain.1, parseInt_formatInt plain.2 upper]

section iff

variable (typed : ∀ t, ∀ p ∈ metadata.bucket t, p < 2147483648)

include typed

theorem upper_of_mem {tp : Bytes × Int} (member : tp ∈ partitionsOf metadata topics) : tp.2 < 2147483648 :=
  typed tp.1 tp.2 (mem_partitionsOf.mp member).2

theorem Suits.partitioned (suits : Suits members metadata topics) (nonempty : members ≠ [])
    (turn : ∀ m ∈ members, ∀ t p, p ∈ given out m.memberID t ↔
      ∃ i tp, (partitionsOf metadata topics)[i]? = some tp ∧ reread tp = (t, p) ∧ members[i % members.length]? = some m) :
    Partitioned members metadata out := by
  have kept : ∀ {i tp}, (partitionsOf metadata topics)[i]? = some tp → reread tp = tp := fun found =>
    reread_plain (suits.plain _ (List.mem_of_getElem? found)) (upper_of_mem typed (List.mem_of_getElem? found))
  constructor
  · rintro t p ⟨subscriber, listed, subscribed⟩ inside
    have named := suits.covered subscriber listed t subscribed (List.ne_nil_of_mem inside)
    obtain ⟨i, found⟩ := List.mem_iff_getElem?.mp (mem_partitionsOf.mpr ⟨named, inside⟩)
    have bound : i % members.length < members.length := Nat.mod_lt _ (List.length_pos_iff.mpr nonempty)
    have owner := List.getElem?_eq_getElem bound
    refine ⟨members[i % members.length], List.getElem_mem bound, suits.turns i _ _ found owner,
      (turn _ (List.getElem_mem bound) t p).mpr ⟨i, (t, p), found, kept found, owner⟩, fun other present holds => ?_⟩
    obtain ⟨j, tp, again, read, turned⟩ := (turn other present t p).mp holds
    rw [kept again] at read
    rw [← suits.once i j (t, p) found (read ▸ again), owner, Option.some_inj] at turned
    rw [turned]
  · intro m member t p holds
    obtain ⟨i, tp, found, read, owner⟩ := (turn m member t p).mp holds
    rw [kept found] at read
    rw [read] at found
    exact ⟨suits.turns i (t, p) m found owner, (mem_partitionsOf.mp (List.mem_of_getElem? found)).2⟩

theorem Partitioned.suits (parts : Partitioned members metadata out) {leader : Subscription} (leads : leader ∈ members)
    (distinct : (members.map (·.memberID)).Nodup)
    (turn : ∀ m ∈ members, ∀ t p, p ∈ given out m.memberID t ↔
      ∃ i tp, (partitionsOf metadata leader.topics)[i]? = some tp ∧ reread tp = (t, p) ∧
        members[i % members.length]? = some m) :
    Suits members metadata leader.topics := by
  have origin : ∀ t p, (∃ m ∈ members, t ∈ m.topics) → p ∈ metadata.bucket t →
      ∃ tp ∈ partitionsOf metadata leader.topics, reread tp = (t, p) := by
    intro t p subscribed inside
    obtain ⟨m, member, -, holds, -⟩ := parts.each t p subscribed inside
    obtain ⟨i, tp, found, read, -⟩ := (turn m member t p).mp holds
    exact ⟨tp, List.mem_of_getElem? found, read⟩
  have clean : ∀ tp ∈ partitionsOf metadata leader.topics, 0 ∉ tp.1 := by
    intro tp member
    obtain ⟨named, inside⟩ := mem_partitionsOf.mp member
    obtain ⟨source, -, read⟩ := origin tp.1 tp.2 ⟨leader, leads, named⟩ inside
    have plain := splitTopicPartition_plain (topicPartition source.1 source.2)
    rwa [show splitTopicPartition _ = _ from read] at plain
  have split : ∀ tp ∈ partitionsOf metadata leader.topics, reread tp = (tp.1, parseInt (formatInt tp.2)) := fun tp member =>
    splitTopicPartition_eq tp.2 (clean tp member)
  have plain : ∀ tp ∈ partitionsOf metadata leader.topics, 0 ∉ tp.1 ∧ 0 ≤ tp.2 := by
    intro tp member
    obtain ⟨named, inside⟩ := mem_partitionsOf.mp member
    obtain ⟨source, origin, read⟩ := origin tp.1 tp.2 ⟨leader, leads, named⟩ inside
    rw [split source origin] at read
    have lower := parseInt_formatInt_nonneg (upper_of_mem typed origin)
    rw [(Prod.mk.inj read).2] at lower
    exact ⟨clean tp member, lower⟩
  have holder : ∀ {i tp m}, (partitionsOf metadata leader.topics)[i]? = some tp → members[i % members.length]? = some m →
      tp.2 ∈ given out m.memberID tp.1 := by
    intro i tp m found owner
    have member := List.mem_of_getElem? found
    exact (turn m (List.mem_of_getElem? owner) tp.1 tp.2).mpr
      ⟨i, tp, found, reread_plain (plain tp member) (upper_of_mem typed member), owner⟩
  refine ⟨?_, ?_, plain, ?_⟩
  · intro m member t subscribed some
    obtain ⟨p, inside⟩ := List.exists_mem_of_ne_nil _ some
    obtain ⟨source, origin, read⟩ := origin t p ⟨m, member, subscribed⟩ inside
    rw [split source origin] at read
    rw [← (Prod.mk.inj read).1]
    exact (mem_partitionsOf.mp origin).1
  · intro i j tp first second
    obtain ⟨named, inside⟩ := mem_partitionsOf.mp (List.mem_of_getElem? first)
    obtain ⟨m, -, -, -, unique⟩ := parts.each tp.1 tp.2 ⟨leader, leads, named⟩ inside
    have bound : ∀ i, i % members.length < members.length := fun i => Nat.mod_lt _ (List.length_pos_of_mem leads)
    have one := unique _ (List.getElem_mem (bound i)) (holder first (List.getElem?_eq_getElem (bound i)))
    have two := unique _ (List.getElem_mem (bound j)) (holder second (List.getElem?_eq_getElem (bound j)))
    have same : (members.map (·.memberID))[i % members.length]? = (members.map (·.memberID))[j % members.length]? := by
      rw [List.getElem?_map, List.getElem?_map, List.getElem?_eq_getElem (bound i), List.getElem?_eq_getElem (bound j),
        Option.map_some, Option.map_some, one, two]
    exact (List.getElem?_inj (by rw [List.length_map]; exact bound i) distinct).mp same
  · intro i tp m found owner
    exact (parts.only m (List.mem_of_getElem? owner) tp.1 tp.2 (holder found owner)).1

/-- The leader's assignment is a partition of the subscriptions exactly if its own topics suit all members. -/
theorem assignment_partitions_iff {leader : Subscription} (leads : leader ∈ members)
    (distinct : (members.map (·.memberID)).Nodup) :
    (∃ out, computeAssignment metadata leader.topics (members.map Subscription.response) = .ok out ∧
      Partitioned members metadata out) ↔ Suits members metadata leader.topics := by
  obtain ⟨out, computed, outcome⟩ := computeAssignment_eq metadata leader.topics (List.ne_nil_of_mem leads) distinct
  have turn := fun m (member : m ∈ members) t p => mem_given distinct member (outcome m member) (t := t) (p := p)
  constructor
  · rintro ⟨other, again, parts⟩
    cases computed.symm.trans again
    exact parts.suits typed leads distinct turn
  · intro suits
    exact ⟨out, computed, suits.partitioned typed (List.ne_nil_of_mem leads) turn⟩

end iff

theorem assignment_partitions_orders :
    ∃ out, computeAssignment (Table.collect ∅ [(ascii "orders", 0), (ascii "orders", 1), (ascii "orders", 2)])
      [ascii "orders"]
      ([⟨ascii "a", [ascii "orders"]⟩, ⟨ascii "b", [ascii "orders"]⟩].map Subscription.response) = .ok out ∧
      Partitioned [⟨ascii "a", [ascii "orders"]⟩, ⟨ascii "b", [ascii "orders"]⟩]
        (Table.collect ∅ [(ascii "orders", 0), (ascii "orders", 1), (ascii "orders", 2)]) out := by
  have pairs : partitionsOf (Table.collect ∅ [(ascii "orders", 0), (ascii "orders", 1), (ascii "orders", 2)])
    [ascii "orders"] =
      [(ascii "orders", 0), (ascii "orders", 1), (ascii "orders", 2)] := by
    decide
  have typed : ∀ t, ∀ p ∈ (Table.collect (∅ : Metadata)
      [(ascii "orders", 0), (ascii "orders", 1), (ascii "orders", 2)]).bucket t, p < 2147483648 := by
    intro t p inside
    rw [bucket_collect, bucket_empty, List.nil_append, mem_valuesOf] at inside
    fin_cases inside <;> decide
  have distinct : (([⟨ascii "a", [ascii "orders"]⟩, ⟨ascii "b", [ascii "orders"]⟩] : List Subscription).map
      (·.memberID)).Nodup := by
    decide
  have leads : (⟨ascii "a", [ascii "orders"]⟩ : Subscription) ∈
      [⟨ascii "a", [ascii "orders"]⟩, ⟨ascii "b", [ascii "orders"]⟩] := List.mem_cons_self
  refine (assignment_partitions_iff typed leads distinct).mpr ⟨?_, ?_, ?_, ?_⟩
  · intro m member t subscribed _
    fin_cases member <;> exact subscribed
  · intro i j tp first second
    rw [pairs] at first second
    have bound := (List.getElem?_eq_some_iff.mp first).1
    rw [List.getElem?_inj bound (by decide) |>.mp (first.trans second.symm)]
  · rw [pairs]
    decide
  · intro i tp m found owner
    rw [pairs] at found
    have named : tp.1 = ascii "orders" := by
      have member := List.mem_of_getElem? found
      fin_cases member <;> rfl
    have member := List.mem_of_getElem? owner
    rw [named]
    fin_cases member <;> exact List.mem_cons_self

/-- The partitions of a topic that only the other member subscribes to are given to nobody. -/
theorem other_subscription_left_out :
    ∃ (members : List Subscription) (metadata : Metadata) (leader : Subscription) (out : List MemberAssignment),
      leader ∈ members ∧ (members.map (·.memberID)).Nodup ∧ (∃ m ∈ members, ascii "b" ∈ m.topics) ∧
        0 ∈ metadata.bucket (ascii "b") ∧
      computeAssignment metadata leader.topics (members.map Subscription.response) = .ok out ∧
      ∀ m ∈ members, 0 ∉ given out m.memberID (ascii "b") :=
  ⟨[⟨ascii "m", [ascii "a"]⟩, ⟨ascii "n", [ascii "b"]⟩], Table.collect ∅ [(ascii "b", 0)], ⟨ascii "m", [ascii "a"]⟩, _,
    List.mem_cons_self, by decide, ⟨_, List.mem_cons_of_mem _ List.mem_cons_self, List.mem_cons_self⟩, by decide, rfl,
    by decide⟩

end PocketKafka.Client
