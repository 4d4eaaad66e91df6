import PocketKafka.Coordinator.DurableOffsets

namespace PocketKafka.Coordinator

open Bytes

/-- What becomes of an append: all is written and synced, or it fails with `cut` bytes of the batch in the file. -/
inductive Append where
  | done
  | failed (cut : Nat)

namespace OffsetStore

variable (snapshot : Option Offsets) (wal : Bytes) (s : OffsetStore) (now : Int64) (records : List OffsetCommitRecord)

/-- The whole of `CommitBatch`: the offsets in memory are changed first. -/
def commitAndAppend : Append → Except Failure Unit × OffsetStore × Bytes
  | append =>
    if records = [] then (.ok (), s, wal)
    else
      let recs := records.map (OffsetCommitRecord.logged now)
      let s := s.commitBatch now records
      match append with
      | .failed cut => (.error (.error "offset WAL append"), s, wal ++ (batchBytes recs).take cut)
      | .done => (.ok (), s.appended recs, wal ++ batchBytes recs)

def Reopens (snapshot : Option Offsets) (wal : Bytes) (offsets : Offsets) : Prop :=
  ∃ reopened, newOffsetStore snapshot wal = .ok reopened ∧ ∀ key, reopened.fetch key = offsets key

/-- Nothing of a call that returns an error is seen: not in memory, not when the store is opened again after a crash, and
    not when it is opened again after `Close`, which writes a snapshot. -/
def Unseen : Prop :=
  ∀ append failure s' wal', s.commitAndAppend wal now records append = (.error failure, s', wal') →
    (∀ key, s'.fetch key = s.fetch key) ∧ Reopens snapshot wal' s.offsets ∧
      Reopens (some (gobOffsets s'.offsets)) [] s.offsets

/-- The log has no torn record at its end. -/
def WholeRecords (wal : Bytes) : Prop := ∃ recs : List WalRecord, (∀ rec ∈ recs, rec.Fits) ∧ wal = batchBytes recs

/-- The files give what is in memory and can take a record more, a snapshot of it loses nothing, and each record of the
    batch is stored already, with the time it would get. -/
structure Harmless : Prop where
  agrees : Reopens snapshot wal s.offsets
  whole : WholeRecords wal
  kept : ∀ key, ∀ offset ∈ s.offsets key, offset.Kept
  repeats : ∀ r ∈ records, s.fetch r.key = some (r.stamped now)

variable {snapshot wal s now records}

theorem newOffsetStore_ok {recs : List WalRecord} (read : replay wal = .ok recs) :
    newOffsetStore snapshot wal = .ok (replayWAL ⟨snapshot.getD fun _ => none, 0, false⟩ recs) := by
  rw [newOffsetStore, read]
  rfl

theorem replay_whole {recs : List WalRecord} {tail : Bytes} (fit : ∀ rec ∈ recs, rec.Fits) (torn : replay tail = .ok []) :
    replay (batchBytes recs ++ tail) = .ok recs := by
  rw [replay_batchBytes fit, torn]
  exact congrArg Except.ok (List.append_nil recs)

theorem commits_logged (now : Int64) (records : List OffsetCommitRecord) :
    (records.map (OffsetCommitRecord.logged now)).filter (fun rec => rec.type = walRecordCommit) =
      records.map (OffsetCommitRecord.logged now) := by
  apply List.filter_eq_self.mpr
  intro rec member
  obtain ⟨r, -, rfl⟩ := List.mem_map.mp member
  rfl

theorem reopen_with {first : List OffsetCommitRecord} {tail : Bytes} (agrees : Reopens snapshot wal s.offsets)
    (whole : WholeRecords wal) (fit : ∀ r ∈ first, (r.logged now).Fits) (torn : replay tail = .ok []) :
    ∃ reopened, newOffsetStore snapshot
        (wal ++ (batchBytes (first.map (OffsetCommitRecord.logged now)) ++ tail)) = .ok reopened ∧
      reopened.offsets = Journal.replay (first.map fun r => (r.key, r.stamped now)) s.offsets := by
  obtain ⟨recs, old, rfl⟩ := whole
  have new : ∀ rec ∈ first.map (OffsetCommitRecord.logged now), rec.Fits := by
    intro rec member
    obtain ⟨r, inside, rfl⟩ := List.mem_map.mp member
    exact fit r inside
  have memory : Journal.replay (writes (recs.filter fun rec => rec.type = walRecordCommit))
      (snapshot.getD fun _ => none) = s.offsets := by
    have read := replay_whole old replay_nil
    rw [List.append_nil] at read
    obtain ⟨reopened, opened, same⟩ := agrees
    rw [newOffsetStore_ok read] at opened
    cases opened
    funext key
    exact same key
  have read : replay (batchBytes recs ++ (batchBytes (first.map (OffsetCommitRecord.logged now)) ++ tail)) =
      .ok (recs ++ first.map (OffsetCommitRecord.logged now)) := by
    rw [replay_batchBytes old, replay_whole new torn]
    rfl
  refine ⟨_, newOffsetStore_ok read, ?_⟩
  show Journal.replay (writes ((recs ++ first.map (OffsetCommitRecord.logged now)).filter
    fun rec => rec.type = walRecordCommit)) _ = _
  rw [List.filter_append, commits_logged, writes_append, Journal.replay_append, memory, writes_logged]

theorem reopen_snapshot (offsets kept : Offsets) :
    Reopens (some offsets) [] kept ↔ offsets = kept := by
  rw [Reopens, newOffsetStore_ok replay_nil]
  constructor
  · rintro ⟨reopened, opened, same⟩
    cases opened
    funext key
    exact same key
  · rintro rfl
    exact ⟨_, rfl, fun key => rfl⟩

theorem replay_stored (stored : ∀ r ∈ records, s.fetch r.key = some (r.stamped now)) :
    Journal.replay (records.map fun r => (r.key, r.stamped now)) s.offsets = s.offsets := by
  apply Journal.replay_same
  intro w member
  obtain ⟨r, inside, rfl⟩ := List.mem_map.mp member
  exact stored r inside

theorem Harmless.unseen (h : Harmless snapshot wal s now records) (fit : ∀ r ∈ records, (r.logged now).Fits) :
    Unseen snapshot wal s now records := by
  intro append failure s' wal' failed
  unfold commitAndAppend at failed
  split at failed
  · cases failed
  cases append with
  | done => cases failed
  | failed cut =>
    cases failed
    have memory : (s.commitBatch now records).offsets = s.offsets := replay_stored h.repeats
    refine ⟨congrFun memory, ?_, ?_⟩
    · have proper : ∀ rec ∈ records.map (OffsetCommitRecord.logged now), rec.Fits := by
        intro rec member
        obtain ⟨r, inside, rfl⟩ := List.mem_map.mp member
        exact fit r inside
      obtain ⟨n, tail, cutHere, torn, _⟩ := take_batchBytes proper cut
      rw [← List.map_take] at cutHere
      obtain ⟨reopened, opened, offsets⟩ :=
        reopen_with h.agrees h.whole (fun r member => fit r (List.mem_of_mem_take member)) torn
      refine ⟨reopened, by rw [cutHere]; exact opened, fun key => ?_⟩
      rw [fetch, offsets, replay_stored fun r member => h.repeats r (List.mem_of_mem_take member)]
    · rw [reopen_snapshot, memory, gobOffsets_eq_iff]
      exact h.kept

theorem commitAndAppend_stopped (wal : Bytes) (s : OffsetStore) (now : Int64)
    (front back : List OffsetCommitRecord) (r : OffsetCommitRecord) :
    s.commitAndAppend wal now (front ++ r :: back)
        (.failed (batchBytes ((front ++ [r]).map (OffsetCommitRecord.logged now))).length) =
      (.error (.error "offset WAL append"), s.commitBatch now (front ++ r :: back),
        wal ++ (batchBytes ((front ++ [r]).map (OffsetCommitRecord.logged now)) ++ [])) := by
  have parts : ((front ++ r :: back).map (OffsetCommitRecord.logged now)) =
      (front ++ [r]).map (OffsetCommitRecord.logged now) ++ back.map (OffsetCommitRecord.logged now) := by simp
  have some : front ++ r :: back ≠ [] := by simp
  simp only [commitAndAppend, if_neg some, parts, batchBytes_append _ (back.map _), List.take_left, List.append_nil]

theorem Unseen.harmless (unseen : Unseen snapshot wal s now records) (fit : ∀ r ∈ records, (r.logged now).Fits)
    (whole : WholeRecords wal) (some : records ≠ []) : Harmless snapshot wal s now records := by
  have nothing : s.commitAndAppend wal now records (.failed 0) =
      (.error (.error "offset WAL append"), s.commitBatch now records, wal) := by
    simp only [commitAndAppend, if_neg some, List.take_zero, List.append_nil]
  obtain ⟨memory, agrees, closed⟩ := unseen _ _ _ _ nothing
  have memory : (s.commitBatch now records).offsets = s.offsets := funext memory
  refine ⟨agrees, whole, ?_, ?_⟩
  · rw [reopen_snapshot, memory] at closed
    exact (gobOffsets_eq_iff _).mp closed
  · intro r member
    obtain ⟨front, back, rfl⟩ := List.append_of_mem member
    obtain ⟨-, ⟨reopened, opened, same⟩, -⟩ := unseen _ _ _ _ (commitAndAppend_stopped wal s now front back r)
    have begun : ∀ r' ∈ front ++ [r], (r'.logged now).Fits := by
      intro r' inside
      exact fit r' (by simp at inside ⊢; tauto)
    obtain ⟨reopened', opened', offsets⟩ := reopen_with agrees whole begun replay_nil
    have twice : reopened = reopened' := Except.ok.inj (opened.symm.trans opened')
    have here := same r.key
    rw [fetch, twice, offsets, List.map_append, Journal.replay_append] at here
    rw [fetch, ← here]
    exact Function.update_self _ _ _

/-- A failed commit that is harmless goes unseen, and on a log of whole records no other one does. -/
theorem failed_commit_unseen (snapshot : Option Offsets) (wal : Bytes) (s : OffsetStore) (now : Int64)
    (records : List OffsetCommitRecord) (fit : ∀ r ∈ records, (r.logged now).Fits) :
    (Harmless snapshot wal s now records → Unseen snapshot wal s now records) ∧
      (WholeRecords wal → records ≠ [] → Unseen snapshot wal s now records →
        Harmless snapshot wal s now records) := by
  constructor
  · intro harmless
    exact harmless.unseen fit
  · intro whole some unseen
    exact unseen.harmless fit whole some

def dated (offset : Int64) : OffsetCommitRecord := ⟨⟨ascii "g", ascii "t", 0⟩, ⟨offset, some (ascii "m"), 0, 1⟩⟩

def one : OffsetStore := ⟨Function.update (fun _ => none) (dated 5).key (some (dated 5).offset), 1, false⟩

theorem one_read {tail : Bytes} (torn : replay tail = .ok []) :
    Reopens none (batchBytes [(dated 5).logged 9] ++ tail) one.offsets := by
  have fit : ∀ rec ∈ [(dated 5).logged 9], rec.Fits := by decide +kernel
  refine ⟨_, newOffsetStore_ok (replay_whole fit torn), ?_⟩
  intro key
  rfl

theorem failed_commit_unseen_repeated :
    Harmless none (batchBytes [(dated 5).logged 9]) one 9 [dated 5] ∧
      Unseen none (batchBytes [(dated 5).logged 9]) one 9 [dated 5] := by
  have harmless : Harmless none (batchBytes [(dated 5).logged 9]) one 9 [dated 5] := by
    constructor
    · have read := one_read replay_nil
      rwa [List.append_nil] at read
    · exact ⟨[(dated 5).logged 9], by decide +kernel, rfl⟩
    · intro key offset found
      have found : Function.update (fun _ => none) (dated 5).key (some (dated 5).offset) key = some offset := found
      rw [Function.update_apply] at found
      split at found <;> cases found
      decide
    · decide +kernel
  exact ⟨harmless, (failed_commit_unseen none _ one 9 [dated 5] (by decide +kernel)).1 harmless⟩

/-- The first commit of a group fails without a byte written, and the offset is there; and a commit that repeats the
    stored one fails behind a torn record, and the store does not open any more. -/
theorem failed_commit_seen :
    (∃ (s s' : OffsetStore) (wal' : Bytes), Reopens none [] s.offsets ∧ s.fetch (dated 5).key = none ∧
      s.commitAndAppend [] 9 [dated 5] (.failed 0) = (.error (.error "offset WAL append"), s', wal') ∧
      s'.fetch (dated 5).key = some (dated 5).offset) ∧
    ∃ (wal : Bytes) (s' : OffsetStore) (wal' : Bytes), Reopens none wal one.offsets ∧
      one.fetch (dated 5).key = some ((dated 5).stamped 9) ∧
      one.commitAndAppend wal 9 [dated 5] (.failed 40) = (.error (.error "offset WAL append"), s', wal') ∧
      (newOffsetStore none wal').map walN = .error (corrupt "bad record length 0") := by
  constructor
  · refine ⟨⟨fun _ => none, 0, false⟩, _, _, ⟨_, newOffsetStore_ok replay_nil, fun key => rfl⟩, rfl, rfl, ?_⟩
    decide +kernel
  · refine ⟨batchBytes [(dated 5).logged 9] ++ [0], _, _, one_read (by rw [replay]; rfl), by decide +kernel, rfl, ?_⟩
    decide +kernel

end OffsetStore

end PocketKafka.Coordinator
