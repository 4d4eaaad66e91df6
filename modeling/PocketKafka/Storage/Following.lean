import PocketKafka.Storage.StableOffsets
import PocketKafka.Storage.TornIndex

namespace PocketKafka.Storage

open Bytes Intervals Protocol

theorem decodeRecordBatch_offsets {raw : Bytes} {batch : RecordBatch} (done : decodeRecordBatch raw = .ok batch) :
    batch.baseOffset = baseOffsetField raw ∧ batch.lastOffsetDelta = lastOffsetDeltaField raw := by
  unfold decodeRecordBatch at done
  dsimp only at done
  split at done
  · cases done
  · split at done
    · cases done
    · split at done
      · cases done
      · cases done
        exact ⟨rfl, rfl⟩

namespace Partition

variable {p : Partition} {n : Int}

theorem earliestOffset_of_closed {q : Partition} {active : Segment} (found : p.activeSegment = some active)
    (closed : q.closedSegments = p.closedSegments ++ [active]) : q.earliestOffset = p.earliestOffset := by
  unfold earliestOffset
  rw [closed, found]
  cases p.closedSegments <;> rfl

theorem earliestOffset_of_active {q : Partition} {active active' : Segment} (found : p.activeSegment = some active)
    (found' : q.activeSegment = some active') (base : active'.baseOffset = active.baseOffset)
    (closed : q.closedSegments = p.closedSegments) : q.earliestOffset = p.earliestOffset := by
  unfold earliestOffset
  rw [closed, found, found']
  cases p.closedSegments with
  | nil => exact base
  | cons first rest => rfl

theorem earliestOffset_append {active : Segment} (found : p.activeSegment = some active) (raw : Bytes) :
    (p.append raw).2.earliestOffset = p.earliestOffset := by
  rw [append, found]
  dsimp only
  by_cases full : active.full = true
  · rw [if_pos full, roll, found]
    dsimp only
    cases openSegment p.dir p.nextOffset p.maxSegmentBytes p.indexInterval with
    | error failure => exact earliestOffset_of_closed found rfl
    | ok opened =>
      dsimp only
      cases opened.append raw with
      | error failure => exact earliestOffset_of_closed found rfl
      | ok done => exact earliestOffset_of_closed found rfl
  · rw [if_neg full]
    dsimp only
    rw [found]
    dsimp only
    cases done : active.append raw with
    | error failure => rfl
    | ok pair => exact earliestOffset_of_active found rfl (Segment.append_baseOffset done) rfl

namespace Holds

variable {closed : List (List Batch)} {active : Segment} {last : List Batch}

theorem watermark (h : p.Holds closed active last) : p.highWatermark = p.nextOffset :=
  h.highWatermark.trans h.nextOffset.symm

theorem bounds (h : p.Holds closed active last) {b : Batch} (member : b ∈ stored closed last) :
    0 ≤ b.baseOffset ∧ b.lastOffset < 9223372036854775807 := by
  obtain ⟨lower, upper⟩ := Ascending.mem Batch.proper h.ascends member
  obtain ⟨s, inside, first⟩ := h.exists_earliest
  have base := h.base_nonneg inside
  have next := h.activeHolds.next
  rw [h.nextOffset] at upper
  unfold Batch.nextOffset at upper
  omega

end Holds

end Partition

end PocketKafka.Storage
