import PocketKafka.Storage.PartitionRecovery

namespace PocketKafka.Storage

open Bytes Intervals

def splitBatches (log : Bytes) : List Bytes :=
  if log.length < 12 then []
  else
    let total := 12 + (lengthField log).toNat
    log.take total :: splitBatches (log.drop total)
termination_by log.length
decreasing_by
  rw [List.length_drop]
  omega

def Partition.storedBatches (p : Partition) : List Bytes := p.orderedSegments.flatMap (fun s => splitBatches s.log)

def lastOffsetField (raw : Bytes) : Int := baseOffsetField raw + lastOffsetDeltaField raw

/-- One magic-2 batch whose length field matches its bytes and whose offset range is not empty. -/
def WellFormed (raw : Bytes) : Prop :=
  batchHeaderSize ≤ raw.length ∧ magicField raw = 2 ∧ lengthField raw = raw.length - 12 ∧ 0 ≤ lastOffsetDeltaField raw

instance (raw : Bytes) : Decidable (WellFormed raw) := inferInstanceAs (Decidable (_ ∧ _ ∧ _ ∧ _))

def Batch.ofRaw {raw : Bytes} (shape : WellFormed raw) : Batch := ⟨raw, shape.1, shape.2.1, shape.2.2.1, shape.2.2.2⟩

theorem lengthField_append (b : Batch) (rest : Bytes) : lengthField (b.raw ++ rest) = lengthField b.raw := by
  have long := b.header
  unfold batchHeaderSize at long
  rw [lengthField, slice_append_left _ _ _ _ (by omega), lengthField]

theorem lastOffsetDeltaField_append (b : Batch) (rest : Bytes) :
    lastOffsetDeltaField (b.raw ++ rest) = lastOffsetDeltaField b.raw := by
  have long := b.header
  unfold batchHeaderSize at long
  rw [lastOffsetDeltaField, slice_append_left _ _ _ _ (by omega), lastOffsetDeltaField]

theorem splitBatches_logBytes (bs : List Batch) : splitBatches (logBytes bs) = bs.map Batch.raw := by
  induction bs with
  | nil =>
    rw [splitBatches, if_pos (by simp)]
    rfl
  | cons b rest ih =>
    have long := b.header
    have length := b.length
    unfold batchHeaderSize at long
    have total : 12 + (lengthField b.raw).toNat = b.raw.length := by omega
    rw [logBytes_cons, splitBatches, if_neg (by rw [List.length_append]; omega)]
    simp only [lengthField_append, total, List.take_left, List.drop_left, ih, List.map_cons]

namespace Partition.Holds

variable {p : Partition} {closed : List (List Batch)} {active : Segment} {last : List Batch}

theorem storedBatches_eq (h : p.Holds closed active last) : p.storedBatches = (stored closed last).map Batch.raw := by
  have segments : ∀ {segs : List Segment} {bss : List (List Batch)}, List.Forall₂ Segment.Holds segs bss →
      segs.flatMap (fun s => splitBatches s.log) = bss.flatten.map Batch.raw := by
    intro segs bss hold
    induction hold with
    | nil => rfl
    | cons head _ ih =>
      rw [List.flatMap_cons, List.flatten_cons, List.map_append, ih, head.log_eq, splitBatches_logBytes]
  rw [Partition.storedBatches, segments h.orderedHold, List.flatten_append, List.flatten_singleton]

theorem boundary_of_stored (h : p.Holds closed active last) {target : Int}
    (outside : ∀ raw ∈ p.storedBatches, ¬ (baseOffsetField raw < target ∧ target ≤ lastOffsetField raw)) :
    Boundary target (stored closed last) := by
  rw [h.storedBatches_eq] at outside
  exact fun b member => outside b.raw (List.mem_map_of_mem member)

theorem stored_lt_next (h : p.Holds closed active last) : ∀ raw ∈ p.storedBatches, lastOffsetField raw < p.nextOffset := by
  rw [h.storedBatches_eq]
  intro raw member
  obtain ⟨b, inside, rfl⟩ := List.mem_map.mp member
  exact h.ascends.early b inside

end Partition.Holds

end PocketKafka.Storage
