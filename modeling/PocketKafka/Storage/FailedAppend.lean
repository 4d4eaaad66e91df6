import PocketKafka.Storage.PartitionRuns
import PocketKafka.Storage.RecordedSize

namespace PocketKafka.Storage

open Bytes Runs

/-- What goes wrong during one append: opening the files of the next segment fails, or the write
    fails after some of the bytes have reached the file. -/
structure AppendFaults where
  opening : Option Failure
  writing : Option (Nat × Failure)

def noFaults : AppendFaults := ⟨none, none⟩

/-- `append` on a file system with faults. The header and the offset range are checked before the
    write, and the fields of the segment change after it. -/
def Segment.appendWith (s : Segment) (raw : Bytes) (faults : AppendFaults) : Except Failure Int × Segment :=
  match s.append raw with
  | .error failure => (.error failure, s)
  | .ok (assigned, appended) =>
    match faults.writing with
    | none => (.ok assigned, appended)
    | some (n, failure) =>
      (.error failure, { s with logFile := s.logFile.map fun file => writeAt file s.size ((stamp raw assigned).take n) })

namespace Partition

def rollWith (p : Partition) (faults : AppendFaults) : Except Failure Unit × Partition :=
  match faults.opening with
  | none => p.roll
  | some failure => (.error failure, { p with closedSegments := p.closedSegments ++ p.activeSegment.toList })

def appendWith (p : Partition) (raw : Bytes) (faults : AppendFaults) : Except Failure Int × Partition :=
  match p.activeSegment with
  | none => (.error (.panic "nil pointer dereference"), p)
  | some active =>
    match if active.full then p.rollWith faults else (.ok (), p) with
    | (.error failure, p) => (.error failure, p)
    | (.ok (), p) =>
      match p.activeSegment with
      | none => (.error (.panic "nil pointer dereference"), p)
      | some active =>
        match active.appendWith raw faults with
        | (.error failure, active) => (.error failure, { p with activeSegment := some active })
        | (.ok assigned, active) => (.ok assigned, { p with
            activeSegment := some active
            nextOffset := active.nextOffset
            highWatermark := active.nextOffset })

theorem appendWith_noFaults (p : Partition) (raw : Bytes) : p.appendWith raw noFaults = p.append raw := by
  have rolled : p.rollWith noFaults = p.roll := rfl
  rw [appendWith, append, rolled]
  cases p.activeSegment with
  | none => rfl
  | some active =>
    simp only
    generalize (if active.full then p.roll else (.ok (), p)) = outcome
    obtain ⟨result, q⟩ := outcome
    cases result with
    | error failure => rfl
    | ok _ =>
      simp only
      cases found : q.activeSegment with
      | none => rfl
      | some active =>
        simp only [Segment.appendWith]
        cases active.append raw with
        | error failure => simp only [← found]
        | ok done => rfl

end Partition

theorem Segment.Backed.appendWith {s : Segment} (h : s.Backed) (raw : Bytes) (faults : AppendFaults) :
    (s.appendWith raw faults).2.Backed := by
  unfold Segment.appendWith
  split
  · exact h
  · rename_i assigned appended done
    split
    · exact Segment.Backed.of_append done
    · rename_i n _ _
      unfold Segment.Backed Segment.log at h ⊢
      cases found : s.logFile with
      | none => simpa [found] using h
      | some file =>
        have reaches := writeAt_reaches file s.size ((stamp raw assigned).take n)
        simp only [Option.map_some, Option.getD_some]
        omega

namespace Partition.Backed

variable {p : Partition}

theorem rollWith (h : p.Backed) (faults : AppendFaults) : (p.rollWith faults).2.Backed := by
  have closed : ∀ seg ∈ p.closedSegments ++ p.activeSegment.toList, seg.Backed := h.ordered
  unfold Partition.rollWith roll
  split
  · dsimp only
    split
    · exact ⟨closed, h.active⟩
    · rename_i opened
      refine ⟨closed, ?_⟩
      rintro seg ⟨⟩
      exact openSegment_backed opened
  · exact ⟨closed, h.active⟩

theorem appendWith (h : p.Backed) (raw : Bytes) (faults : AppendFaults) : (p.appendWith raw faults).2.Backed := by
  have rolled (active : Segment) : (if active.full then p.rollWith faults else (.ok (), p)).2.Backed := by
    split
    · exact h.rollWith faults
    · exact h
  unfold Partition.appendWith
  split
  · exact h
  · rename_i active _
    have after := rolled active
    split
    · rename_i result
      rw [result] at after
      exact after
    · rename_i result
      rw [result] at after
      split
      · exact after
      · rename_i _ last found
        have backed := (after.active last found).appendWith raw faults
        split
        all_goals
          rename_i stored
          rw [stored] at backed
          refine ⟨after.closed, ?_⟩
          rintro seg ⟨⟩
          exact backed

end Partition.Backed

/-- `markRemote`: the local files are gone and the stub says where they went. -/
def Segment.markRemote (s : Segment) (logKey indexKey : String) : Segment :=
  { s with logFile := none, index := none, size := 0, remote := some ⟨logKey, indexKey, s.nextOffset⟩ }

inductive PartitionCall where
  | append (raw : Bytes) (faults : AppendFaults)
  | truncateTo (target : Int)
  | read (startOffset maxBytes : Int)
  | sync (fsync : Fsync)
  | enforceRetention (retention : Retention) (now : Int) (modTime : ModTimes)
  | markRemote (i : Nat) (logKey indexKey : String)
  | compact (clock : Clock)
  | reopen

namespace PartitionCall

def Steps (p : Partition) : PartitionCall → Partition → Prop
  | .append raw faults, q => (p.appendWith raw faults).2 = q
  | .truncateTo target, q => (p.truncateTo target).2 = q
  | .read startOffset maxBytes, q => (p.read startOffset maxBytes).2 = q
  | .sync fsync, q => (p.sync fsync).2 = q
  | .enforceRetention retention now modTime, q => p.enforceRetention retention now modTime = q
  | .markRemote i logKey indexKey, q =>
    { p with closedSegments := p.closedSegments.modify i (fun seg => seg.markRemote logKey indexKey) } = q
  | .compact clock, q => (p.compact clock).2 = q
  | .reopen, q => p.reopen = .ok q

theorem Steps.backed {p q : Partition} {call : PartitionCall} (h : p.Backed) (step : call.Steps p q) : q.Backed := by
  cases call with
  | append raw faults => exact step ▸ h.appendWith raw faults
  | truncateTo target => exact step ▸ h.truncateTo target
  | read startOffset maxBytes => exact step ▸ h.read startOffset maxBytes
  | sync fsync => exact step ▸ h.sync fsync
  | enforceRetention retention now modTime =>
    obtain ⟨n, _, dropped⟩ := p.enforceRetention_eq retention now modTime
    rw [Steps, dropped] at step
    subst step
    exact ⟨fun seg member => h.closed seg (List.mem_of_mem_drop member), h.active⟩
  | markRemote i logKey indexKey =>
    subst step
    refine ⟨fun seg member => ?_, h.active⟩
    obtain ⟨j, inside, found⟩ := List.mem_iff_getElem.mp member
    rw [List.getElem_modify] at found
    split at found
    · subst found
      exact Nat.zero_le _
    · subst found
      exact h.closed _ (List.getElem_mem _)
  | compact clock => exact step ▸ h.compact clock
  | reopen => exact Partition.Backed.openPartition step

end PartitionCall

structure Partition.SameAfter (p : Partition) (raw : Bytes) (q : Partition) : Prop where
  segments : q.orderedSegments.map Segment.trim = p.orderedSegments.map Segment.trim
  nextOffset : q.nextOffset = p.nextOffset
  highWatermark : q.highWatermark = p.highWatermark
  reads : ∀ startOffset maxBytes, (q.read startOffset maxBytes).1 = (p.read startOffset maxBytes).1
  assigned : ∀ raw' faults offset offset', (q.appendWith raw' faults).1 = .ok offset →
    (p.append raw).1 = .ok offset' → offset = offset'

theorem Segment.Backed.trim_failed {s s' : Segment} (h : s.Backed) {raw : Bytes} {faults : AppendFaults} {failure : Failure}
    (failed : s.appendWith raw faults = (.error failure, s')) :
    s'.trim = s.trim ∧ s' = { s with logFile := s'.logFile } := by
  unfold Segment.appendWith at failed
  split at failed
  · cases failed
    exact ⟨rfl, rfl⟩
  · split at failed
    · cases failed
    · rename_i assigned _ _ _ n _ _
      cases failed
      refine ⟨?_, rfl⟩
      unfold Segment.Backed Segment.log at h
      unfold Segment.trim
      cases found : s.logFile with
      | none => rfl
      | some file =>
        rw [found, Option.getD_some] at h
        have kept : (writeAt file s.size ((stamp raw assigned).take n)).take s.size = file.take s.size := by
          rw [writeAt, List.append_assoc, List.append_assoc, List.take_append_of_le_length (by simp [h])]
          simp
        simp only [Option.map_some, kept]

namespace Partition

variable {p q : Partition} {active : Segment} {raw : Bytes} {faults : AppendFaults}

theorem appendWith_unrolled (found : p.activeSegment = some active) (room : active.full = false) :
    p.appendWith raw faults =
      match active.appendWith raw faults with
      | (.error failure, stored) => (.error failure, { p with activeSegment := some stored })
      | (.ok assigned, stored) => (.ok assigned, { p with
          activeSegment := some stored
          nextOffset := stored.nextOffset
          highWatermark := stored.nextOffset }) := by
  simp only [appendWith, found, room, Bool.false_eq_true, ↓reduceIte]

theorem appendWith_offset (found : p.activeSegment = some active) (room : active.full = false) {offset : Int}
    (done : (p.appendWith raw faults).1 = .ok offset) : offset = active.nextOffset := by
  rw [appendWith_unrolled found room] at done
  unfold Segment.appendWith at done
  cases stored : active.append raw with
  | error failure => simp [stored] at done
  | ok pair =>
    have assigned := Segment.append_assigned stored
    cases written : faults.writing with
    | some fault => simp [stored, written] at done
    | none =>
      simp only [stored, written, Except.ok.injEq] at done
      rw [← done, assigned]

theorem Backed.sameAfter (h : p.Backed) (found : p.activeSegment = some active) (room : active.full = false)
    {failure : Failure} (failed : p.appendWith raw faults = (.error failure, q)) : p.SameAfter raw q := by
  rw [appendWith_unrolled found room] at failed
  rcases stored : active.appendWith raw faults with ⟨_ | _, rest⟩
  · rw [stored] at failed
    cases failed
    obtain ⟨trimmed, same⟩ := (h.active active found).trim_failed stored
    have whole : ({ p with activeSegment := some rest } : Partition).trim = p.trim := by
      simp only [trim, found, Option.map_some, trimmed]
    constructor
    · rw [← orderedSegments_trim, ← orderedSegments_trim, whole]
    · rfl
    · rfl
    · intro startOffset maxBytes
      rw [← read_trim, whole, read_trim]
    · intro raw' faults' offset offset' later first
      have room' : rest.full = false := by
        rw [same]
        exact room
      rw [← appendWith_noFaults] at first
      rw [appendWith_offset (p := { p with activeSegment := some rest }) rfl room' later,
        appendWith_offset found room first, same]
  · rw [stored] at failed
    cases failed

theorem appendWith_rolled (found : p.activeSegment = some active) (full : active.full = true) {failure : Failure}
    (failed : p.appendWith raw faults = (.error failure, q)) :
    q.orderedSegments.length = p.orderedSegments.length + 1 := by
  have grown : ∀ result rolled, p.rollWith faults = (result, rolled) →
      rolled.orderedSegments.length = p.orderedSegments.length + 1 ∧ rolled.activeSegment.isSome := by
    intro result rolled done
    unfold rollWith roll at done
    split at done
    · dsimp only at done
      split at done
      · cases done
        simp [orderedSegments, found]
      · cases done
        simp [orderedSegments, found]
    · cases done
      simp [orderedSegments, found]
  simp only [appendWith, found, full, ↓reduceIte] at failed
  rcases rolling : p.rollWith faults with ⟨_ | _, rolled⟩
  · rw [rolling] at failed
    cases failed
    exact (grown _ _ rolling).1
  · obtain ⟨longer, some⟩ := grown _ _ rolling
    obtain ⟨last, ends⟩ := Option.isSome_iff_exists.mp some
    simp only [rolling, ends] at failed
    rcases stored : last.appendWith raw faults with ⟨_ | _, rest⟩
    · rw [stored] at failed
      cases failed
      simpa [orderedSegments, ends] using longer
    · rw [stored] at failed
      cases failed

end Partition

end PocketKafka.Storage
