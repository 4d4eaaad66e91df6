import PocketKafka.Storage.FailedAppend

namespace PocketKafka.Storage

open Bytes

structure Topic where
  name : Bytes
  partitions : List (Int × Partition)

structure Store where
  topics : List (Bytes × Topic)
  compacted : List Bytes

def quotedChar (c : UInt8) : String :=
  let shown :=
    if c = 92 then "\\\\"
    else if c = 7 then "\\a"
    else if c = 8 then "\\b"
    else if c = 9 then "\\t"
    else if c = 10 then "\\n"
    else if c = 11 then "\\v"
    else if c = 12 then "\\f"
    else if c = 13 then "\\r"
    else if c < 32 ∨ c = 127 then "\\x" ++ String.ofList ((Nat.toDigits 16 c.toNat).leftpad 2 '0')
    else text [c]
  "'" ++ shown ++ "'"

def forbidden (c : UInt8) : Bool := c = 47 || c = 92 || c = 58 || c = 32 || c < 32 || c = 127

def validateTopicName (name : Bytes) : Except Failure Unit :=
  if name = [] then .error (.error "topic name is empty")
  else if name = ascii "." ∨ name = ascii ".." then
    let shown := text name
    .error (.error s!"invalid topic name \"{shown}\"")
  else if 249 < name.length then .error (.error "topic name too long")
  else
    match name.find? forbidden with
    | some c =>
      let shown := quotedChar c
      .error (.error s!"invalid character {shown} in topic name")
    | none => .ok ()

abbrev Opening := Int → Except Failure Partition

/-- The partitions `i`, `i + 1`, … up to the number `count` of them, opened one after the other. -/
def openTopic (opening : Opening) (i : Nat) : Nat → Except Failure (List (Int × Partition))
  | 0 => .ok []
  | count + 1 =>
    match opening (int32 i) with
    | .error failure => .error failure
    | .ok p =>
      match openTopic opening (i + 1) count with
      | .error failure => .error failure
      | .ok rest => .ok ((int32 i, p) :: rest)

namespace Store

def getTopic (s : Store) (name : Bytes) : Option Topic := s.topics.lookup name

def getPartition (s : Store) (topic : Bytes) (partition : Int) : Option Partition :=
  (s.getTopic topic).bind fun t => t.partitions.lookup partition

def createLocked (s : Store) (name : Bytes) (partitions : Nat) (opening : Opening) : Except Failure (Topic × Bool) × Store :=
  match openTopic opening 0 partitions with
  | .error failure => (.error failure, s)
  | .ok opened =>
    let t : Topic := ⟨name, opened⟩
    (.ok (t, true), { s with topics := (name, t) :: s.topics })

def ensureTopic (s : Store) (name : Bytes) (partitions : Int) (opening : Opening) : Except Failure (Topic × Bool) × Store :=
  match validateTopicName name with
  | .error failure => (.error failure, s)
  | .ok () =>
    let partitions := if partitions ≤ 0 then 1 else partitions
    match s.getTopic name with
    | some t => (.ok (t, false), s)
    | none => s.createLocked name partitions.toNat opening

def createTopic (s : Store) (name : Bytes) (partitions : Int) (opening : Opening) : Except Failure Topic × Store :=
  match validateTopicName name with
  | .error failure => (.error failure, s)
  | .ok () =>
    match s.getTopic name with
    | some _ =>
      let shown := text name
      (.error (.error s!"topic already exists: {shown}"), s)
    | none =>
      let partitions := if partitions ≤ 0 then 1 else partitions
      match s.createLocked name partitions.toNat opening with
      | (.error failure, s) => (.error failure, s)
      | (.ok (t, _), s) => (.ok t, s)

def removeTopic (s : Store) (name : Bytes) : Store := { s with topics := s.topics.filter fun (other, _) => other ≠ name }

def setPartition (s : Store) (topic : Bytes) (partition : Int) (p : Partition) : Store :=
  { s with topics := s.topics.map fun (name, t) =>
      if name = topic then
        (name, { t with partitions := t.partitions.map fun (id, old) => if id = partition then (id, p) else (id, old) })
      else (name, t) }

theorem lookup_map_value {κ υ : Type} [BEq κ] [LawfulBEq κ] (f : κ → υ → υ) (entries : List (κ × υ)) (k : κ) :
    (entries.map fun (a, v) => (a, f a v)).lookup k = (entries.lookup k).map (f k) := by
  induction entries with
  | nil => rfl
  | cons entry rest ih =>
    obtain ⟨a, v⟩ := entry
    rw [List.map_cons, List.lookup_cons, List.lookup_cons, ih]
    cases same : k == a with
    | false => rfl
    | true => rw [beq_iff_eq.mp same]; rfl

theorem getTopic_setPartition (s : Store) (topic name : Bytes) (i : Int) (p : Partition) :
    (s.setPartition topic i p).getTopic name = (s.getTopic name).map fun t =>
      if name = topic then { t with partitions := t.partitions.map fun (id, old) => (id, if id = i then p else old) }
        else t := by
  rw [getTopic, getTopic, ← lookup_map_value fun name (t : Topic) =>
    if name = topic then { t with partitions := t.partitions.map fun (id, old) => (id, if id = i then p else old) } else t]
  congr 1
  apply List.map_congr_left
  rintro ⟨name, t⟩ _
  by_cases same : name = topic
  · simp only [same, ↓reduceIte, Prod.mk.injEq, Topic.mk.injEq, true_and]
    apply List.map_congr_left
    rintro ⟨id, old⟩ _
    by_cases chosen : id = i <;> simp [chosen]
  · simp [same]

end Store

end PocketKafka.Storage
