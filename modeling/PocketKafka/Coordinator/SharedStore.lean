import PocketKafka.Coordinator.DurableOffsets

namespace PocketKafka.Coordinator

open Bytes Runs

structure OffsetTable where
  offsets : Offsets
  keys : List OffsetKey
  complete : ∀ key, offsets key ≠ none → key ∈ keys

namespace OffsetTable

def empty : OffsetTable := ⟨fun _ => none, [], fun _ some => absurd rfl some⟩

def write (t : OffsetTable) (writes : List (OffsetKey × CommittedOffset)) : OffsetTable where
  offsets := Journal.replay writes t.offsets
  keys := writes.map Prod.fst ++ t.keys
  complete := by
    intro key some
    rcases Journal.replay_mem writes t.offsets key with same | ⟨v, written, -⟩
    · rw [same] at some
      exact List.mem_append_right _ (t.complete key some)
    · obtain ⟨w, member, -⟩ := List.mem_map.mp written
      obtain ⟨inside, own⟩ := List.mem_filter.mp member
      rw [← of_decide_eq_true own]
      exact List.mem_append_left _ (List.mem_map_of_mem inside)

def retain (t : OffsetTable) (keep : OffsetKey → CommittedOffset → Bool) : OffsetTable where
  offsets := fun key => (t.offsets key).filter (keep key)
  keys := t.keys
  complete := by
    intro key some
    apply t.complete key
    intro none
    rw [none] at some
    exact some rfl

def gob (t : OffsetTable) : OffsetTable where
  offsets := gobOffsets t.offsets
  keys := t.keys
  complete := by
    intro key some
    apply t.complete key
    intro none
    rw [gobOffsets, none] at some
    exact some rfl

def Kept (t : OffsetTable) : Prop := ∀ key ∈ t.keys, ∀ offset ∈ t.offsets key, offset.Kept

instance (t : OffsetTable) : Decidable t.Kept :=
  inferInstanceAs (Decidable (∀ key ∈ t.keys, ∀ offset ∈ t.offsets key, offset.Kept))

theorem Kept.gob_offsets {t : OffsetTable} (kept : t.Kept) : t.gob.offsets = t.offsets := by
  apply (gobOffsets_eq_iff t.offsets).mpr
  intro key offset found
  have listed : key ∈ t.keys := t.complete key (by rw [found]; exact Option.some_ne_none _)
  exact kept key listed offset found

def drops (t : OffsetTable) (keep : OffsetKey → CommittedOffset → Bool) : Bool :=
  t.keys.any fun key => (t.offsets key).any fun offset => !keep key offset

theorem retain_of_drops {t : OffsetTable} {keep : OffsetKey → CommittedOffset → Bool} (none : t.drops keep = false) :
    (t.retain keep).offsets = t.offsets := by
  funext key
  show (t.offsets key).filter (keep key) = t.offsets key
  cases found : t.offsets key with
  | none => rfl
  | some offset =>
    have listed : key ∈ t.keys := t.complete key (by rw [found]; exact Option.some_ne_none _)
    have kept := List.any_eq_false.mp none key listed
    rw [found] at kept
    have kept : keep key offset = true := by simpa using kept
    rw [Option.filter_some, if_pos kept]

end OffsetTable

def notInGroup (group : Bytes) (key : OffsetKey) (_ : CommittedOffset) : Bool := key.group ≠ group

def notOlder (cut : Int64) (_ : OffsetKey) (offset : CommittedOffset) : Bool := cut ≤ offset.updatedAt

inductive StoreRequest where
  | commitBatch (now : Int64) (records : List OffsetCommitRecord)
  | deleteGroup (group : Bytes)
  | pruneOlderThan (cutoff : Option Int64)
  | compact

/-- What a call does next. `async` marks the compaction that an append has started; `reset` has the lock of the
    log, and what the encoded snapshot will be read as. -/
inductive StoreCall where
  | request (request : StoreRequest)
  | append (recs : List WalRecord)
  | compact (async : Bool)
  | reset (encoded : OffsetTable) (async : Bool)
  | finish

structure SharedStore where
  table : OffsetTable
  walN : Nat
  compacting : Bool
  snapshot : Option OffsetTable
  wal : Bytes
  calls : List StoreCall

inductive SharedEvent where
  | call (request : StoreRequest)
  | advance (i : Nat)

namespace StoreCall

def appends : StoreCall → List (List WalRecord)
  | .append recs => [recs]
  | _ => []

def encoded : StoreCall → List OffsetTable
  | .reset t _ => [t]
  | _ => []

def owes : StoreCall → Bool
  | .compact _ => true
  | _ => false

end StoreCall

namespace SharedStore

variable (s : SharedStore)

/-- `NewOffsetStore` on a snapshot and a log; a long log is compacted before the store is handed out. -/
def opened (snapshot : Option OffsetTable) (recs : List WalRecord) : SharedStore :=
  let table := (snapshot.getD .empty).write (writes recs)
  if walCompactThreshold ≤ recs.length then ⟨table, 0, false, some table.gob, [], []⟩
  else ⟨table, recs.length, false, snapshot, batchBytes recs, []⟩

def pending : List (List WalRecord) := s.calls.flatMap StoreCall.appends

def encoding : List OffsetTable := s.calls.flatMap StoreCall.encoded

def owed : Bool := s.calls.any StoreCall.owes

/-- A deletion from memory is followed by a compaction if something was deleted. -/
def deletes (i : Nat) (keep : OffsetKey → CommittedOffset → Bool) : SharedStore :=
  { s with
    table := s.table.retain keep
    calls := if s.table.drops keep then s.calls.set i (.compact false) else s.calls.eraseIdx i }

def appended (i : Nat) (recs : List WalRecord) : SharedStore :=
  let walN := s.walN + recs.length
  let trigger := decide (walCompactThreshold ≤ walN) && !s.compacting
  { s with
    wal := s.wal ++ batchBytes recs
    walN := walN
    compacting := s.compacting || trigger
    calls := s.calls.eraseIdx i ++ if trigger then [.compact true] else [] }

def perform : SharedEvent → Option SharedStore
  | .call request => some { s with calls := s.calls ++ [.request request] }
  | .advance i =>
    match s.calls[i]? with
    | none => none
    | some (.request (.commitBatch now records)) =>
      if records.length = 0 then some { s with calls := s.calls.eraseIdx i }
      else
        some { s with
          table := s.table.write (records.map fun r => (r.key, r.stamped now))
          calls := s.calls.set i (.append (records.map (OffsetCommitRecord.logged now))) }
    | some (.request (.deleteGroup group)) => some (s.deletes i (notInGroup group))
    | some (.request (.pruneOlderThan none)) => some { s with calls := s.calls.eraseIdx i }
    | some (.request (.pruneOlderThan (some cut))) => some (s.deletes i (notOlder cut))
    | some (.request .compact) => some { s with calls := s.calls.set i (.compact false) }
    | some (.append recs) => if s.encoding.length = 0 then some (s.appended i recs) else none
    | some (.compact async) =>
      if s.encoding.length = 0 then some { s with calls := s.calls.set i (.reset s.table.gob async) } else none
    | some (.reset encoded async) =>
      some { s with
        snapshot := some encoded
        wal := []
        walN := 0
        calls := if async then s.calls.set i .finish else s.calls.eraseIdx i }
    | some .finish =>
      if s.encoding.length = 0 then some { s with compacting := false, calls := s.calls.eraseIdx i } else none

def Steps (s : SharedStore) (e : SharedEvent) (s' : SharedStore) : Prop := s.perform e = some s'

/-- Memory changes only while no commit is between its two sections, what is committed can be read back, and no
    compaction meets an offset that its snapshot would change. -/
def Ordered (s : SharedStore) : SharedEvent → Prop
  | .call _ => True
  | .advance i =>
    match s.calls[i]? with
    | some (.request (.commitBatch now records)) =>
      s.pending.length = 0 ∧ ∀ record ∈ records, (record.logged now).Fits
    | some (.request (.deleteGroup _)) | some (.request (.pruneOlderThan _)) => s.pending.length = 0
    | some (.compact _) => s.table.Kept
    | _ => True

instance (s : SharedStore) (e : SharedEvent) : Decidable (s.Ordered e) := by
  unfold Ordered
  split
  · infer_instance
  · split <;> infer_instance

end SharedStore

end PocketKafka.Coordinator
