import PocketKafka.Lib.Journal
import PocketKafka.Lib.Runs
import PocketKafka.Coordinator.OffsetWAL

namespace PocketKafka.Coordinator

open Bytes Runs

def walCompactThreshold : Nat := 1024

structure CommittedOffset where
  offset : Int64
  metadata : Option Bytes
  leaderEpoch : Int32
  updatedAt : Int64
  deriving DecidableEq, Repr

structure OffsetKey where
  group : Bytes
  topic : Bytes
  partition : Int32
  deriving DecidableEq, Repr

/-- The three nested maps as one: a key is found when all three have their part of it. -/
abbrev Offsets := OffsetKey → Option CommittedOffset

/-- The offset as a snapshot gives it back: gob does not send a pointer to an empty string, so that it is read
    as nil. -/
def CommittedOffset.gob (offset : CommittedOffset) : CommittedOffset :=
  { offset with metadata := offset.metadata.filter fun text => text ≠ [] }

def CommittedOffset.Kept (offset : CommittedOffset) : Prop := offset.metadata ≠ some []

instance (offset : CommittedOffset) : Decidable offset.Kept := inferInstanceAs (Decidable (_ ≠ _))

theorem CommittedOffset.gob_eq_iff (offset : CommittedOffset) : offset.gob = offset ↔ offset.Kept := by
  obtain ⟨_, metadata, _, _⟩ := offset
  cases metadata <;> simp [gob, Kept]

def gobOffsets (offsets : Offsets) : Offsets := fun key => (offsets key).map CommittedOffset.gob

theorem gobOffsets_eq_iff (offsets : Offsets) :
    gobOffsets offsets = offsets ↔ ∀ key, ∀ offset ∈ offsets key, offset.Kept := by
  rw [funext_iff]
  apply forall_congr'
  intro key
  cases found : offsets key with
  | none => simp [gobOffsets, found]
  | some offset => simp [gobOffsets, found, CommittedOffset.gob_eq_iff]

structure OffsetStore where
  offsets : Offsets
  walN : Nat
  compacting : Bool

structure OffsetCommitRecord where
  key : OffsetKey
  offset : CommittedOffset
  deriving DecidableEq, Repr

/-- An offset without a time gets the time of the commit. -/
def OffsetCommitRecord.stamped (now : Int64) (r : OffsetCommitRecord) : CommittedOffset :=
  if r.offset.updatedAt = 0 then { r.offset with updatedAt := now } else r.offset

def OffsetCommitRecord.logged (now : Int64) (r : OffsetCommitRecord) : WalRecord where
  type := walRecordCommit
  group := r.key.group
  topic := r.key.topic
  partition := r.key.partition
  offset := (r.stamped now).offset
  leaderEpoch := (r.stamped now).leaderEpoch
  metadata := (r.stamped now).metadata
  timestamp := (r.stamped now).updatedAt

def WalRecord.write (rec : WalRecord) : OffsetKey × CommittedOffset :=
  (⟨rec.group, rec.topic, rec.partition⟩, ⟨rec.offset, rec.metadata, rec.leaderEpoch, rec.timestamp⟩)

def writes (recs : List WalRecord) : List (OffsetKey × CommittedOffset) := recs.map WalRecord.write

namespace OffsetStore

def fetch (s : OffsetStore) (key : OffsetKey) : Option CommittedOffset := s.offsets key

def commitBatch (s : OffsetStore) (now : Int64) (records : List OffsetCommitRecord) : OffsetStore :=
  { s with offsets := Journal.replay (records.map fun r => (r.key, r.stamped now)) s.offsets }

def replayWAL (s : OffsetStore) (recs : List WalRecord) : OffsetStore :=
  let commits := recs.filter (fun rec => rec.type = walRecordCommit)
  { s with offsets := Journal.replay (writes commits) s.offsets, walN := commits.length }

def appended (s : OffsetStore) (recs : List WalRecord) : OffsetStore :=
  let walN := s.walN + recs.length
  { s with walN := walN, compacting := s.compacting || decide (walCompactThreshold ≤ walN) }

end OffsetStore

def newOffsetStore (snapshot : Option Offsets) (wal : Bytes) : Except Failure OffsetStore :=
  (replay wal).map fun recs => OffsetStore.replayWAL ⟨snapshot.getD fun _ => none, 0, false⟩ recs

/-- Where the compaction stands. It has the lock of the log from the encoding up to the reset. -/
inductive Compaction where
  | idle
  | encoded (offsets : Offsets)
  | written
  | ended

def Compaction.locks : Compaction → Bool
  | .idle | .ended => false
  | .encoded _ | .written => true

/-- A process with the records of the commit that it has in flight. It serves once `NewOffsetStore` has
    returned, which may have to compact first. -/
structure Running where
  store : OffsetStore
  pending : List WalRecord
  compaction : Compaction
  serving : Bool

/-- `allowed` holds, for each key, the value of the last acknowledged commit and those that were in flight at
    a crash since. -/
structure Machine where
  snapshot : Option Offsets
  wal : Bytes
  running : Option Running
  allowed : OffsetKey → List (Option CommittedOffset)

inductive StoreEvent where
  | reopen
  | commit (now : Int64) (records : List OffsetCommitRecord)
  | append
  | encode
  | write
  | reset
  | finish
  | crash (cut : Nat)

namespace Machine

def initial : Machine := ⟨none, [], none, fun _ => [none]⟩

def acknowledge (allowed : OffsetKey → List (Option CommittedOffset)) (recs : List WalRecord) (key : OffsetKey) :
    List (Option CommittedOffset) :=
  match (Journal.written (writes recs) key).getLast? with
  | some v => [some v]
  | none => allowed key

def inFlight (allowed : OffsetKey → List (Option CommittedOffset)) (recs : List WalRecord) (key : OffsetKey) :
    List (Option CommittedOffset) := allowed key ++ (Journal.written (writes recs) key).map some

def reopen (m : Machine) : Machine :=
  match newOffsetStore m.snapshot m.wal with
  | .error _ => m
  | .ok store => { m with running := some ⟨store, [], .idle, decide (store.walN < walCompactThreshold)⟩ }

/-- One step of a running process; the crash of an append leaves the first `cut` bytes of its batch. -/
def advance (m : Machine) (r : Running) : StoreEvent → Option Machine
  | .reopen => none
  | .commit now records =>
    if r.serving = true ∧ r.pending = [] then
      some { m with
        running := some { r with
          store := r.store.commitBatch now records
          pending := records.map (OffsetCommitRecord.logged now) } }
    else none
  | .append =>
    if r.pending ≠ [] ∧ r.compaction.locks = false then
      some { m with
        wal := m.wal ++ batchBytes r.pending
        allowed := acknowledge m.allowed r.pending
        running := some { r with store := r.store.appended r.pending, pending := [] } }
    else none
  | .encode =>
    match r.compaction with
    | .idle =>
      if r.store.compacting = true ∨ r.serving = false then
        some { m with running := some { r with compaction := .encoded r.store.offsets } }
      else none
    | _ => none
  | .write =>
    match r.compaction with
    | .encoded offsets => some { m with snapshot := some offsets, running := some { r with compaction := .written } }
    | _ => none
  | .reset =>
    match r.compaction with
    | .written =>
      some { m with
        wal := []
        running := some { r with
          store := { r.store with walN := 0 }
          compaction := if r.serving then .ended else .idle
          serving := true } }
    | _ => none
  | .finish =>
    match r.compaction with
    | .ended =>
      some { m with running := some { r with store := { r.store with compacting := false }, compaction := .idle } }
    | _ => none
  | .crash cut =>
    some { m with
      wal := if r.compaction.locks then m.wal else m.wal ++ (batchBytes r.pending).take cut
      allowed := inFlight m.allowed r.pending
      running := none }

def perform (m : Machine) (e : StoreEvent) : Option Machine :=
  match m.running with
  | some r => m.advance r e
  | none =>
    match e with
    | .reopen => some m.reopen
    | _ => none

def Steps (m : Machine) (e : StoreEvent) (m' : Machine) : Prop := m.perform e = some m'

end Machine

end PocketKafka.Coordinator
