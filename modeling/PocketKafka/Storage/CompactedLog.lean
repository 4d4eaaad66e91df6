import PocketKafka.Storage.CompactionWriter

namespace PocketKafka.Storage

open Bytes Intervals Protocol Survivors

def Partition.contents (p : Partition) : List Content := p.records.map content

structure Partition.Keeps (p : Partition) (closed : List (List Batch)) (active : Segment) (last : List Batch) :
    Prop where
  holds : p.Holds closed active last
  decodes : ∀ b ∈ stored closed last, Decodes b.raw

theorem Partition.Holds.keeps {p : Partition} {closed : List (List Batch)} {active : Segment} {last : List Batch}
    (h : p.Holds closed active last) (decodes : ∀ raw ∈ p.storedBatches, Decodes raw) : p.Keeps closed active last := by
  rw [h.storedBatches_eq] at decodes
  exact ⟨h, fun b member => decodes b.raw (List.mem_map_of_mem member)⟩

namespace Partition.Keeps

variable {p q : Partition} {closed : List (List Batch)} {active : Segment} {last : List Batch} {clock : Clock}
  {w : CompactWriter} {rs : List Record} {snapshotEnd : Int}

theorem activeDecodes (h : p.Keeps closed active last) : ∀ b ∈ last, Decodes b.raw :=
  fun b member => h.decodes b (List.mem_append_right _ member)

theorem recover_wrote {closed' : List (List Batch)} {last' : List Batch} (h : p.Keeps closed active last)
    (wrote : w.Wrote closed' last' rs) (nothing : w.batch = [])
    (done : p.closeSegments.recover (w.segments.map Segment.files) = (.ok (), q)) :
    ∃ active', q.Keeps closed' active' last' ∧ q.Seamless closed' active' last' ∧
      q.contents = rs.map rewritten ∧ q.nextOffset = rs.length ∧ q.maxSegmentBytes = p.maxSegmentBytes := by
  have hold := wrote.holds.orderedHold
  have covered := wrote.holds.orderedCovered wrote.seamless
  have sorted := wrote.holds.bases_sorted
  rw [wrote.holds.ordered] at hold covered
  obtain ⟨front, seg, recovered, holds, sameFront, sameSeg, sameMax⟩ :=
    recover_segments p.closeSegments rfl hold covered sorted
  obtain ⟨_, rfl⟩ := Prod.mk.inj (recovered.symm.trans done)
  have kept := wrote.holds.replace (q := { p.closeSegments with
      activeSegment := some seg
      closedSegments := front
      nextOffset := w.seg.nextOffset
      highWatermark := w.seg.nextOffset }) rfl rfl holds sameFront sameSeg sameMax h.holds.positive rfl rfl
  have count := wrote.count_eq
  have written := wrote.written
  rw [nothing, List.length_nil, Nat.add_zero] at count
  rw [nothing, List.map_nil, List.append_nil] at written
  refine ⟨seg, ⟨kept, wrote.decodes⟩, ?_, ?_, ?_, rfl⟩
  · refine ⟨covered_contents sameFront wrote.seamless.1, ?_⟩
    have single : [seg].map Segment.contents = [w.seg].map Segment.contents := by simp [sameSeg]
    exact (List.forall₂_cons.mp (covered_contents single (.cons wrote.seamless.2 .nil))).1
  · rw [Partition.contents, kept.records_eq]
    exact written
  · change w.seg.nextOffset = _
    rw [wrote.nextOffset, count]

theorem installCompaction_keeps {closed' : List (List Batch)} {last' : List Batch} (h : p.Keeps closed active last)
    (wrote : w.Wrote closed' last' rs) (lower : active.baseOffset ≤ snapshotEnd) (segment : w.maxBytes ≤ 4294967296)
    (small : ∀ batch ∈ stagedBatches w.batch w.pendingBytes
      ((fromOffset snapshotEnd last).flatMap (fun b => recordsOf b.raw)), FitsLength batch)
    (count : (rs ++ (fromOffset snapshotEnd last).flatMap (fun b => recordsOf b.raw)).length < 9223372036854775808)
    (done : p.installCompaction clock w snapshotEnd = (.ok (), q)) :
    ∃ closed' active' last', q.Keeps closed' active' last' ∧ q.Seamless closed' active' last' ∧
      q.contents = (rs ++ (fromOffset snapshotEnd last).flatMap (fun b => recordsOf b.raw)).map rewritten ∧
      q.nextOffset = (rs ++ (fromOffset snapshotEnd last).flatMap (fun b => recordsOf b.raw)).length ∧
      q.maxSegmentBytes = p.maxSegmentBytes := by
  rw [Partition.installCompaction, h.holds.activeSegment] at done
  simp only [h.holds.nextOffset,
    forEachBatchRange_eq (CompactWriter.add clock) h.holds.activeHolds h.activeDecodes lower] at done
  split at done
  · cases done
  · rename_i added result
    rw [← List.append_nil (List.flatMap _ _)] at small
    obtain ⟨closed₁, last₁, wrote₁, sameMax₁, small₁⟩ := wrote.addAll small segment count result
    split at done
    · cases done
    · rename_i finished result
      obtain ⟨closed₂, last₂, wrote₂, nothing, sameMax₂⟩ := wrote₁.finish (small₁ _ (by simp [stagedBatches]))
        (by rw [sameMax₁]; exact segment) count result
      obtain ⟨active', rest⟩ := h.recover_wrote wrote₂ nothing done
      exact ⟨closed₂, active', last₂, rest⟩

theorem fromOffset_next (h : p.Holds closed active last) : fromOffset p.nextOffset last = [] := by
  rw [fromOffset, List.dropWhile_eq_nil_iff, h.nextOffset]
  intro b member
  simpa using Ascends.early h.activeHolds.ordered b member

theorem staged_wrote (h : p.Keeps closed active last) {w₀ : CompactWriter} (segment : p.maxSegmentBytes ≤ 4294967296)
    (count : p.records.length < 9223372036854775808) (more : List Record)
    (small : ∀ batch ∈ stagedBatches [] 0 (survivors Record.key p.records ++ more), FitsLength batch)
    (opened : newCompactWriter p.maxSegmentBytes p.indexInterval = .ok w₀)
    (written : (survivors Record.key p.records).foldlM (CompactWriter.add clock) w₀ = .ok w) :
    ∃ closed' last', w.Wrote closed' last' (survivors Record.key p.records) ∧ w.maxBytes = p.maxSegmentBytes ∧
      ∀ batch ∈ stagedBatches w.batch w.pendingBytes more, FitsLength batch := by
  obtain ⟨empty, nothing, zero, sameMax⟩ := CompactWriter.newCompactWriter_wrote h.holds.positive opened
  have fewer : (survivors Record.key p.records).length ≤ p.records.length := (survivors_sublist _).length_le
  rw [← nothing, ← zero] at small
  obtain ⟨closed', last', wrote, sameMax', small'⟩ := empty.addAll small (by rw [sameMax]; exact segment)
    (by rw [List.nil_append]; omega) written
  rw [List.nil_append] at wrote
  exact ⟨closed', last', wrote, sameMax'.trans sameMax, small'⟩

end Partition.Keeps

/-- Every batch that a compaction would write fits its length field. -/
def Partition.StagingFits (p : Partition) : Prop :=
  survivors Record.key p.records ≠ p.records →
    ∀ batch ∈ stagedBatches [] 0 (survivors Record.key p.records), FitsLength batch

theorem Partition.Keeps.compact_cases {p q : Partition} {closed : List (List Batch)} {active : Segment}
    {last : List Batch} {clock : Clock} (h : p.Keeps closed active last) (segment : p.maxSegmentBytes ≤ 4294967296)
    (count : p.records.length < 9223372036854775808) (small : p.StagingFits) (done : p.compact clock = (.ok (), q)) :
    (survivors Record.key p.records = p.records ∧ q = p) ∨
      survivors Record.key p.records ≠ p.records ∧ ∃ closed' active' last', q.Keeps closed' active' last' ∧
        q.Seamless closed' active' last' ∧ q.contents = (survivors Record.key p.records).map rewritten ∧
        q.nextOffset = (survivors Record.key p.records).length ∧ q.maxSegmentBytes = p.maxSegmentBytes := by
  rw [Partition.compact] at done
  split at done
  · cases done
  · split at done
    · cases done
    · rename_i staged
      obtain ⟨_, rfl⟩ := Prod.mk.inj done
      rcases h.holds.planAndStage_cases h.decodes staged with ⟨_, same⟩ | ⟨_, _, clash, _⟩
      · exact Or.inl ⟨same, rfl⟩
      · cases clash
    · rename_i w stop staged
      rcases h.holds.planAndStage_cases h.decodes staged with ⟨clash, _⟩ | ⟨w', w₀, same, different, opened, written⟩
      · cases clash
      · obtain ⟨rfl, rfl⟩ := Prod.mk.inj (Option.some.inj same)
        obtain ⟨closed', last', wrote, sameMax, small'⟩ := h.staged_wrote segment count []
          (by simpa using small different) opened written
        have none := Partition.Keeps.fromOffset_next h.holds
        have fewer : (survivors Record.key p.records).length ≤ p.records.length := (survivors_sublist _).length_le
        have result := h.installCompaction_keeps wrote (by rw [h.holds.nextOffset]; exact h.holds.activeHolds.base_le_next)
          (by rw [sameMax]; exact segment) (by rw [none]; exact small') (by rw [none]; simp; omega) done
        simp only [none, List.flatMap_nil, List.append_nil] at result
        exact Or.inr ⟨different, result⟩

end PocketKafka.Storage
