import PocketKafka.Client.Assignment

namespace PocketKafka

open Bytes Protocol Buckets Client

namespace Client

abbrev AssignmentEntry := Σ _ : Bytes, List Int

def AssignmentEntry.writer (e : AssignmentEntry) : Writer := .string e.1 :: Writer.array e.2 fun p => [.int32 p]

/-- The entries stand in the order in which the map is iterated. -/
def encodeAssignment (assign : Assignment) : Bytes :=
  Writer.bytes (Writer.array assign.entries AssignmentEntry.writer ++ [.bytes none])

open Decoder

def readParts : Decoder (List Int) := do
  let pn ← readArrayLen
  repeated readInt32 pn.toNat

def readEntry : Decoder AssignmentEntry := do
  let topic ← readString
  (⟨topic, ·⟩) <$> readParts

def readEntries : Decoder (List AssignmentEntry) := do
  let n ← readArrayLen
  repeated readEntry n.toNat

def decodeAssignment : Option Bytes → Except Failure Assignment
  | none => .ok ∅
  | some b => (readEntries ⟨b, 0⟩).map fun (entries, _) => Table.ofEntries entries

theorem recovers_partitions (parts : List Int) :
    Recovers (repeated readInt32 parts.length) (parts.flatMap fun p => [.int32 p]) parts := by
  have read : Recovers (repeated readInt32 parts.length) (parts.flatMap fun p => [.int32 p]) (parts.map id) :=
    recovers_repeated recovers_int32
  rwa [List.map_id] at read

theorem recovers_entry (e : AssignmentEntry) : Recovers readEntry e.writer e := by
  refine (recovers_string e.1).bind ?_
  have parts : Recovers readParts (Writer.array e.2 fun p => [.int32 p]) e.2 := by
    refine (recovers_arrayLen e.2.length).bind ?_
    rw [Int.toNat_natCast]
    exact recovers_partitions e.2
  exact parts.map fun parts => (⟨e.1, parts⟩ : AssignmentEntry)

theorem recovers_entries (entries : List AssignmentEntry) :
    Recovers readEntries (Writer.array entries AssignmentEntry.writer) entries := by
  refine (recovers_arrayLen entries.length).bind ?_
  rw [Int.toNat_natCast]
  have read : Recovers (repeated readEntry entries.length) (entries.flatMap AssignmentEntry.writer) (entries.map id) :=
    recovers_repeated recovers_entry
  rwa [List.map_id] at read

end Client

namespace Coordinator

open Decoder

/-- The inner loop, with the reader where it breaks off. -/
def readPartsLoop (r : Reader) : Nat → List Int × Reader
  | 0 => ([], r)
  | left + 1 =>
    match readInt32 r with
    | .error _ => ([], r)
    | .ok (p, r') => ((readPartsLoop r' left).1.cons p, (readPartsLoop r' left).2)

def readEntriesLoop (r : Reader) : Nat → List AssignmentEntry
  | 0 => []
  | left + 1 =>
    match readString r with
    | .error _ => []
    | .ok (topic, r') =>
      match readArrayLen r' with
      | .error _ => []
      | .ok (pn, r'') =>
        if pn < 0 then []
        else ⟨topic, (readPartsLoop r'' pn.toNat).1⟩ :: readEntriesLoop (readPartsLoop r'' pn.toNat).2 left

def decodeAssignmentFrom (b : Bytes) : Assignment :=
  if b.length = 0 then ∅
  else
    match readArrayLen ⟨b, 0⟩ with
    | .error _ => ∅
    | .ok (n, r) => if n < 0 then ∅ else Table.ofEntries (readEntriesLoop r n.toNat)

theorem readPartsLoop_eq {r r' : Reader} {n : Nat} {parts : List Int} (read : repeated readInt32 n r = .ok (parts, r')) :
    readPartsLoop r n = (parts, r') := by
  induction n generalizing r parts with
  | zero =>
    cases read
    rfl
  | succ n ih =>
    obtain ⟨⟨p, next⟩, first, rest⟩ := exists_of_bind read
    obtain ⟨⟨tail, last⟩, rest, equal⟩ := exists_of_bind rest
    cases equal
    rw [readPartsLoop, first]
    dsimp only
    rw [ih rest]

variable {front b₁ b₂ b₃ more topic : Bytes} {parts : List Int}

theorem readEntriesLoop_cons (front more : Bytes) (named : Yields readString b₁ topic)
    (counted : Yields readArrayLen b₂ parts.length)
    (listed : Yields (repeated readInt32 parts.length) b₃ parts) (left : Nat) :
    readEntriesLoop ⟨front ++ (b₁ ++ (b₂ ++ (b₃ ++ more))), front.length⟩ (left + 1) =
      ⟨topic, parts⟩ :: readEntriesLoop ⟨(front ++ (b₁ ++ (b₂ ++ b₃))) ++ more, (front ++ (b₁ ++ (b₂ ++ b₃))).length⟩
        left := by
  have first := named front (b₂ ++ (b₃ ++ more))
  have second := counted (front ++ b₁) (b₃ ++ more)
  have third := listed (front ++ b₁ ++ b₂) more
  simp only [List.append_assoc, List.length_append] at second third
  rw [readEntriesLoop, first]
  dsimp only
  rw [second]
  dsimp only
  rw [if_neg (by omega), Int.toNat_natCast, Nat.add_assoc, readPartsLoop_eq third]
  simp only [List.append_assoc, List.length_append, Nat.add_assoc]

theorem readEntriesLoop_eq {entries : List AssignmentEntry}
    (typed : Writer.InRange (entries.flatMap AssignmentEntry.writer)) (front more : Bytes) :
    readEntriesLoop ⟨front ++ (Writer.bytes (entries.flatMap AssignmentEntry.writer) ++ more),
      front.length⟩ entries.length = entries := by
  induction entries generalizing front with
  | nil => rfl
  | cons e entries ih =>
    rw [List.flatMap_cons, Writer.inRange_append] at typed
    obtain ⟨head, tail⟩ := typed
    obtain ⟨name, array⟩ := Writer.inRange_append.mp (show Writer.InRange ([_] ++ _) from head)
    obtain ⟨count, elements⟩ := Writer.inRange_append.mp (show Writer.InRange ([_] ++ _) from array)
    have step := readEntriesLoop_cons front (Writer.bytes (entries.flatMap AssignmentEntry.writer) ++ more)
      (recovers_string e.1 name) (recovers_arrayLen e.2.length count) (recovers_partitions e.2 elements) entries.length
    have bytes : Writer.bytes e.writer = Writer.bytes [.string e.1] ++ (Writer.bytes [.arrayLen e.2.length] ++
        Writer.bytes (e.2.flatMap fun p => [.int32 p])) := by
      rw [← Writer.bytes_append, ← Writer.bytes_append]
      rfl
    rw [List.flatMap_cons, Writer.bytes_append, bytes, List.length_cons]
    simp only [List.append_assoc] at step ⊢
    rw [step]
    have rest := ih tail (front ++ (Writer.bytes [.string e.1] ++ (Writer.bytes [.arrayLen e.2.length] ++
      Writer.bytes (e.2.flatMap fun p => [.int32 p]))))
    simp only [List.append_assoc] at rest
    rw [rest]

theorem decodeAssignmentFrom_eq {entries : List AssignmentEntry}
    (typed : Writer.InRange (Writer.array entries AssignmentEntry.writer)) (more : Bytes) :
    decodeAssignmentFrom (Writer.bytes (Writer.array entries AssignmentEntry.writer) ++ more) = Table.ofEntries entries := by
  obtain ⟨count, elements⟩ := Writer.inRange_append.mp (show Writer.InRange ([_] ++ _) from typed)
  have bytes : Writer.bytes (Writer.array entries AssignmentEntry.writer) =
      Writer.bytes [.arrayLen entries.length] ++ Writer.bytes (entries.flatMap AssignmentEntry.writer) := by
    rw [← Writer.bytes_append]
    rfl
  have length : (Writer.bytes [.arrayLen entries.length]).length = 4 := by
    rw [Writer.bytes, List.flatMap_singleton]
    exact putBE_length 4 _
  have first := recovers_arrayLen entries.length count [] (Writer.bytes (entries.flatMap AssignmentEntry.writer) ++ more)
  rw [List.nil_append, List.length_nil, Nat.zero_add] at first
  rw [bytes, decodeAssignmentFrom, if_neg (by simp only [List.length_append]; omega), List.append_assoc, first]
  dsimp only
  rw [if_neg (by omega), Int.toNat_natCast, readEntriesLoop_eq elements]

end Coordinator

namespace Client

open Decoder Coordinator

variable {assign : Assignment}

/-- The values are those of a Go map, and the format can say how many topics there are and how many partitions of each. -/
structure Writable (assign : Assignment) : Prop where
  named : ∀ e ∈ assign.entries, e.1.length < 32768
  typed : ∀ e ∈ assign.entries, ∀ p ∈ e.2, 0 ≤ p ∧ p < 2147483648
  topics : assign.entries.length < 2147483648
  parts : ∀ e ∈ assign.entries, e.2.length < 2147483648

theorem Writable.inRange (writable : Writable assign) :
    Writer.InRange (Writer.array assign.entries AssignmentEntry.writer) := by
  intro f member
  rcases List.mem_cons.mp member with rfl | member
  · exact ⟨by omega, Int.ofNat_lt.mpr writable.topics⟩
  · obtain ⟨e, listed, member⟩ := List.mem_flatMap.mp member
    rcases List.mem_cons.mp member with rfl | member
    · exact writable.named e listed
    · rcases List.mem_cons.mp member with rfl | member
      · exact ⟨by omega, Int.ofNat_lt.mpr (writable.parts e listed)⟩
      · obtain ⟨p, inside, member⟩ := List.mem_flatMap.mp member
        have bounds := writable.typed e listed p inside
        rw [List.mem_singleton.mp member]
        exact ⟨by omega, bounds.2⟩

/-- Both sides read back the map that was written, in whichever order it was iterated. -/
theorem assignment_read_back (assign : Assignment) (named : ∀ t parts, assign.lookup t = some parts → t.length < 32768)
    (typed : ∀ t parts, assign.lookup t = some parts → ∀ p ∈ parts, 0 ≤ p ∧ p < 2147483648)
    (topics : assign.entries.length < 2147483648)
    (few : ∀ t parts, assign.lookup t = some parts → parts.length < 2147483648) :
    (∃ out, decodeAssignment (some (encodeAssignment assign)) = .ok out ∧ ∀ t, out.lookup t = assign.lookup t) ∧
      ∀ t, (decodeAssignmentFrom (encodeAssignment assign)).lookup t = assign.lookup t := by
  have found : ∀ e ∈ assign.entries, assign.lookup e.1 = some e.2 := fun e listed =>
    AList.mem_lookup_iff.mpr listed
  have writable : Writable assign := ⟨fun e listed => named _ _ (found e listed),
    fun e listed => typed _ _ (found e listed), topics,
    fun e listed => few _ _ (found e listed)⟩
  have read := recovers_entries assign.entries writable.inRange [] (Writer.bytes [.bytes none])
  rw [List.nil_append, List.length_nil, Nat.zero_add] at read
  rw [encodeAssignment, Writer.bytes_append]
  constructor
  · refine ⟨Table.ofEntries assign.entries, ?_, lookup_ofEntries assign⟩
    rw [decodeAssignment, read]
    rfl
  · rw [decodeAssignmentFrom_eq writable.inRange]
    exact lookup_ofEntries assign

theorem assignment_read_back_orders :
    (∃ out, decodeAssignment (some (encodeAssignment (Table.collect ∅ [(ascii "orders", 0), (ascii "orders", 2)]))) =
      .ok out ∧
      ∀ t, out.lookup t = (Table.collect (∅ : Assignment) [(ascii "orders", 0), (ascii "orders", 2)]).lookup t) ∧
      ∀ t, (decodeAssignmentFrom (encodeAssignment (Table.collect ∅ [(ascii "orders", 0), (ascii "orders", 2)]))).lookup t =
        (Table.collect (∅ : Assignment) [(ascii "orders", 0), (ascii "orders", 2)]).lookup t := by
  have entries : (Table.collect (∅ : Assignment) [(ascii "orders", 0), (ascii "orders", 2)]).entries =
    [⟨ascii "orders", [0, 2]⟩] := by
    decide
  have only : ∀ t parts, (Table.collect (∅ : Assignment) [(ascii "orders", 0), (ascii "orders", 2)]).lookup t = some parts →
      t = ascii "orders" ∧ parts = [0, 2] := by
    intro t parts found
    have listed := AList.mem_lookup_iff.mp found
    rw [entries] at listed
    cases List.mem_singleton.mp listed
    exact ⟨rfl, rfl⟩
  apply assignment_read_back
  · intro t parts found
    rw [(only t parts found).1]
    decide
  · intro t parts found
    rw [(only t parts found).2]
    decide
  · rw [entries]
    decide
  · intro t parts found
    rw [(only t parts found).2]
    decide

/-- A list of 2^31 partitions is written with a negative count and read back as no partitions. -/
theorem long_list_not_read_back :
    ∃ (assign : Assignment) (parts : List Int), assign.entries = [⟨ascii "t", parts⟩] ∧ (∀ p ∈ parts, p = 0) ∧ parts ≠ [] ∧
      ∃ out, decodeAssignment (some (encodeAssignment assign)) = .ok out ∧ out.lookup (ascii "t") = some [] := by
  obtain ⟨parts, length, zeros⟩ : ∃ parts : List Int, parts.length = 2147483648 ∧ ∀ p ∈ parts, p = 0 :=
    ⟨List.replicate 2147483648 0, List.length_replicate, fun p => List.eq_of_mem_replicate⟩
  refine ⟨AList.singleton (ascii "t") parts, parts, rfl, zeros, ?_, Table.ofEntries [⟨ascii "t", []⟩], ?_, by decide⟩
  · intro empty
    rw [empty] at length
    cases length
  · have count : Yields readArrayLen (writeInt32 2147483648) (-1) :=
      (yields_int32 (v := -2147483648) (by decide) (by decide)).map fun l => if l < 0 then -1 else l
    have one : Yields readArrayLen (writeInt32 1) 1 :=
      (yields_int32 (v := 1) (by decide) (by decide)).map fun l => if l < 0 then -1 else l
    have name : Yields readString (Writer.bytes [.string (ascii "t")]) (ascii "t") := recovers_string (ascii "t") (by decide)
    have none : Yields readParts (writeInt32 2147483648 ++ []) [] := count.bind (yields_pure [])
    have entry : Yields readEntry (Writer.bytes [.string (ascii "t")] ++ (writeInt32 2147483648 ++ [])) ⟨ascii "t", []⟩ :=
      name.bind (none.map fun parts => (⟨ascii "t", parts⟩ : AssignmentEntry))
    have all : Yields (repeated readEntry (1 : Int).toNat)
        (Writer.bytes [.string (ascii "t")] ++ (writeInt32 2147483648 ++ []) ++ []) [⟨ascii "t", []⟩] :=
      entry.bind ((yields_pure ([] : List AssignmentEntry)).map fun rest => ⟨ascii "t", []⟩ :: rest)
    have read : Yields readEntries _ _ := one.bind all
    have decoded := read [] (Writer.bytes (parts.flatMap fun p => [.int32 p]) ++ Writer.bytes [.bytes .none])
    have bytes : encodeAssignment (AList.singleton (ascii "t") parts) =
        writeInt32 1 ++ (Writer.bytes [.string (ascii "t")] ++ (writeInt32 2147483648 ++ []) ++ []) ++
          (Writer.bytes (parts.flatMap fun p => [.int32 p]) ++ Writer.bytes [.bytes .none]) := by
      have fields : Writer.array (AList.singleton (ascii "t") parts).entries AssignmentEntry.writer ++ [.bytes .none] =
          [.arrayLen 1] ++ ([.string (ascii "t")] ++ ([.arrayLen parts.length] ++ ((parts.flatMap fun p => [.int32 p]) ++
            [.bytes .none]))) := by
        simp [Writer.array, AList.singleton, AssignmentEntry.writer]
      rw [encodeAssignment, fields, length]
      simp only [Writer.bytes_append, List.append_assoc, List.append_nil]
      rfl
    rw [List.nil_append, ← bytes] at decoded
    rw [decodeAssignment, show readEntries ⟨_, 0⟩ = _ from decoded]
    rfl

end Client

end PocketKafka
