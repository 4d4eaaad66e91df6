import PocketKafka.Storage.PartitionRuns

namespace PocketKafka.Storage

open Bytes Intervals Runs

/-- In every run of well-formed appends, retention, restarts and clean truncations, a restart gives back
    the same offsets and segments, and no append can be given an offset that is still stored. -/
theorem reopen_gives_back {maxSegmentBytes indexInterval : Int} {empty p : Partition} (positive : 0 < maxSegmentBytes)
    (opened : openPartition [] maxSegmentBytes indexInterval = .ok empty)
    (run : Reaches (fun q op => Operation.Clean q op) Performs empty p) :
    (∃ p', p.reopen = .ok p' ∧ p'.nextOffset = p.nextOffset ∧ p'.highWatermark = p.highWatermark ∧
      p'.orderedSegments.map Segment.contents = p.orderedSegments.map Segment.contents) ∧
      ∀ raw assigned q, p.append raw = (.ok assigned, q) → ∀ old ∈ p.storedBatches, lastOffsetField old < assigned := by
  obtain ⟨first, started, sound⟩ := openPartition_empty indexInterval positive
  obtain rfl : empty = first := Except.ok.inj (opened.symm.trans started)
  obtain ⟨closed, active, last, holds, seamless⟩ := run.invariant sound (fun _ _ _ => Performs.sound)
  obtain ⟨p', _, done, _, _, next, watermark, _, same⟩ := holds.reopen_holds seamless
  refine ⟨⟨p', done, next, watermark, same⟩, fun raw assigned q appended old member => ?_⟩
  rw [holds.append_assigned appended]
  exact holds.stored_lt_next old member

/-- Truncating to offset 1 inside a batch with offsets 0 to 2 leaves 1 as the next offset, but a restart
    comes back with 0. -/
theorem truncate_inside_batch_not_given_back :
    ¬ ∀ empty p : Partition, openPartition [] 100 10 = .ok empty →
      Reaches (fun _ op => ∀ raw, op = .append raw → WellFormed raw) Performs empty p →
      ∃ p', p.reopen = .ok p' ∧ p'.nextOffset = p.nextOffset ∧ p'.highWatermark = p.highWatermark ∧
        p'.orderedSegments.map Segment.contents = p.orderedSegments.map Segment.contents := by
  intro reopens
  have offsets : (openPartition [] 100 10).map (fun empty =>
      let p := ((empty.append (headerOnly 2)).2.truncateTo 1).2
      (p.nextOffset, p.reopen.map Partition.nextOffset)) = .ok (1, .ok 0) := by decide +kernel
  rcases opened : openPartition [] 100 10 with failure | empty
  · rw [opened] at offsets
    cases offsets
  · rw [opened] at offsets
    simp only [Except.map, Except.ok.injEq, Prod.mk.injEq] at offsets
    have shape : WellFormed (headerOnly 2) := by decide +kernel
    have run : Reaches (fun _ op => ∀ raw, op = .append raw → WellFormed raw) Performs empty
        ((empty.append (headerOnly 2)).2.truncateTo 1).2 := by
      refine ((Reaches.refl empty).next (.append (headerOnly 2)) ?_ rfl).next (.truncateTo 1) ?_ rfl
      · rintro raw ⟨⟩
        exact shape
      · rintro raw ⟨⟩
    obtain ⟨p', done, next, _⟩ := reopens empty _ opened run
    rw [done] at offsets
    simp only [Except.ok.injEq] at offsets
    omega

theorem reopen_gives_back_at_boundary :
    ∃ empty p : Partition, openPartition [] 100 10 = .ok empty ∧
      p = ((((empty.append (headerOnly 2)).2.append (headerOnly 0)).2.append (headerOnly 4)).2.truncateTo 3).2 ∧
      p.nextOffset = 3 ∧
      ((∃ p', p.reopen = .ok p' ∧ p'.nextOffset = p.nextOffset ∧ p'.highWatermark = p.highWatermark ∧
        p'.orderedSegments.map Segment.contents = p.orderedSegments.map Segment.contents) ∧
        ∀ raw assigned q, p.append raw = (.ok assigned, q) →
          ∀ old ∈ p.storedBatches, lastOffsetField old < assigned) := by
  have meets : (openPartition [] 100 10).map (fun empty =>
      let p := (empty.append (headerOnly 2)).2
      let q := (p.append (headerOnly 0)).2
      let r := (q.append (headerOnly 4)).2
      decide (empty.Accepts (headerOnly 2) ∧ p.Accepts (headerOnly 0) ∧ q.Accepts (headerOnly 4) ∧ r.CutsCleanly 3 ∧
        (r.truncateTo 3).2.nextOffset = 3)) = .ok true := by decide +kernel
  rcases opened : openPartition [] 100 10 with failure | empty
  · rw [opened] at meets
    cases meets
  · rw [opened] at meets
    simp only [Except.map, Except.ok.injEq, decide_eq_true_eq] at meets
    obtain ⟨first, second, third, cut, next⟩ := meets
    refine ⟨empty, _, rfl, rfl, next, reopen_gives_back (by decide) opened ?_⟩
    exact ((((Reaches.refl empty).next (.append _) first rfl).next (.append _) second rfl).next (.append _) third
      rfl).next (.truncateTo 3) cut rfl

end PocketKafka.Storage
