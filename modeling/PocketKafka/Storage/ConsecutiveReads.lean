import PocketKafka.Storage.PartitionRead
import PocketKafka.Storage.PartitionRuns

namespace PocketKafka.Storage

open Bytes Intervals Runs

/-- The read returns whole stored batches that follow each other, from the first one that reaches the
    start offset on, and leaves out later ones only once the budget is reached. -/
def Partition.ReadsOn (p : Partition) (start maxBytes : Int) : Prop :=
  (∃ raw ∈ p.storedBatches, start ≤ lastOffsetField raw) →
    ∃ before first selected after, p.storedBatches = before ++ (first :: selected) ++ after ∧
      (∀ raw ∈ before, lastOffsetField raw < start) ∧ start ≤ lastOffsetField first ∧
      (after ≠ [] → maxBytes ≤ (first :: selected).flatten.length) ∧
      (p.read start maxBytes).1 = ((first :: selected).flatten, p.highWatermark, none)

namespace Partition.Holds

variable {p : Partition} {closed : List (List Batch)} {active : Segment} {last : List Batch}

theorem nonneg (h : p.Holds closed active last) {b : Batch} (member : b ∈ stored closed last) : 0 ≤ b.lastOffset := by
  obtain ⟨s, inside, first⟩ := h.exists_earliest
  have base := h.base_nonneg inside
  have late := h.ascends.late b member
  omega

theorem lastOffset_lt_clamped_iff (h : p.Holds closed active last) {b : Batch} (member : b ∈ stored closed last)
    (start : Int) : b.lastOffset < clampedStart start ↔ b.lastOffset < start := by
  have lower := h.nonneg member
  unfold clampedStart
  split <;> omega

theorem readsOn_of_findsStart (h : p.Holds closed active last) {start maxBytes : Int} (positive : 0 < maxBytes)
    (range : maxBytes < 2147483648) (finds : p.FindsStart start) : p.ReadsOn start maxBytes := by
  rw [Partition.ReadsOn, h.storedBatches_eq]
  rintro ⟨raw, member, reaches⟩
  obtain ⟨b, inside, rfl⟩ := List.mem_map.mp member
  have reaches' : ¬ b.lastOffset < clampedStart start := by
    rw [h.lastOffset_lt_clamped_iff inside]
    exact not_lt.mpr reaches
  have upper := h.ascends.early b inside
  have low : clampedStart start < p.nextOffset := by omega
  obtain ⟨front, s, back, parts, passed, reached, dropped⟩ := h.dropWhile_ordered low
  obtain ⟨bs, bss, holds, backHold, whole, _⟩ := h.fromOffset_stored parts passed reached
  obtain ⟨skipped, rest, same, position, early⟩ : ∃ skipped rest, bs = skipped ++ rest ∧
      (∀ idx, s.index = some idx → idx.positionForOffset (clampedStart start) = (logBytes skipped).length) ∧
      ∀ b ∈ skipped, b.lastOffset < clampedStart start := by
    obtain ⟨idx, indexed, points⟩ := holds.index
    by_cases lower : s.baseOffset ≤ clampedStart start
    · obtain ⟨skipped, rest, same, position, early⟩ := points.lookup holds.ordered lower
      refine ⟨skipped, rest, same, fun other found => ?_, early⟩
      rw [← Option.some.inj (indexed.symm.trans found), position]
    · have none : front = [] := by
        by_contra some
        exact lower (h.base_le_of_passed parts passed some)
      have head : s ∈ p.orderedSegments.head? := by simp [parts, none]
      have zero := (points.position_eq_zero_iff holds.ordered (clampedStart start)).mpr
        (finds s head (by omega) idx indexed)
      refine ⟨[], bs, rfl, fun other found => ?_, by simp⟩
      rw [← Option.some.inj (indexed.symm.trans found), zero]
      rfl
  obtain ⟨selected, after, split, result, stops, some⟩ := h.read_yields positive range low parts dropped holds backHold
    same position
  rw [← fromOffset_append early, ← same, ← whole] at split some
  have nonempty : fromOffset (clampedStart start) (stored closed last) ≠ [] := by
    intro none
    have all := below_append_fromOffset (clampedStart start) (stored closed last)
    rw [none, List.append_nil] at all
    exact reaches' (lastOffset_lt_of_below (all ▸ inside))
  obtain ⟨first, more, rfl⟩ := List.exists_cons_of_ne_nil (some nonempty)
  have all := below_append_fromOffset (clampedStart start) (stored closed last)
  refine ⟨(below (clampedStart start) (stored closed last)).map Batch.raw, first.raw, more.map Batch.raw,
    after.map Batch.raw, ?_, ?_, ?_, ?_, ?_⟩
  · have raws := congrArg (List.map Batch.raw) all
    rw [split] at raws
    simpa using raws.symm
  · intro raw member
    obtain ⟨c, early, rfl⟩ := List.mem_map.mp member
    exact (h.lastOffset_lt_clamped_iff (below_subset early) start).mp (lastOffset_lt_of_below early)
  · have found : first ∈ fromOffset (clampedStart start) (stored closed last) := by simp [split]
    have reach := le_lastOffset_of_fromOffset h.ascends found
    have less := h.lastOffset_lt_clamped_iff (fromOffset_subset found) start
    exact not_lt.mp (fun early => absurd (less.mpr early) (by omega))
  · intro rest
    exact stops (by simpa using rest)
  · exact result

theorem baseOffsetField_append (b : Batch) (rest : Bytes) : baseOffsetField (b.raw ++ rest) = b.baseOffset := by
  have long := b.header
  unfold batchHeaderSize at long
  rw [baseOffsetField, slice_append_left _ _ _ _ (by omega), Batch.baseOffset, baseOffsetField]

theorem baseOffset_of_readsOn (h : p.Holds closed active last) {start maxBytes : Int} (reads : p.ReadsOn start maxBytes)
    {b : Batch} {rest : List Batch} (first : stored closed last = b :: rest) (reach : start ≤ b.lastOffset) :
    baseOffsetField (p.read start maxBytes).1.1 = b.baseOffset := by
  rw [Partition.ReadsOn, h.storedBatches_eq, first, List.map_cons] at reads
  obtain ⟨before, raw, selected, after, parts, early, _, _, result⟩ := reads ⟨b.raw, by simp, reach⟩
  cases before with
  | nil =>
    obtain ⟨rfl, _⟩ := List.cons.inj parts
    rw [result, List.flatten_cons, baseOffsetField_append]
  | cons c before =>
    obtain ⟨rfl, _⟩ := List.cons.inj parts
    exact absurd (early b.raw (by simp)) (not_lt.mpr reach)

theorem findsStart_of_readsOn (h : p.Holds closed active last) {start maxBytes : Int} (positive : 0 < maxBytes)
    (range : maxBytes < 2147483648) (reads : p.ReadsOn start maxBytes) : p.FindsStart start := by
  intro s head lower idx indexed
  obtain ⟨back, parts⟩ : ∃ back, p.orderedSegments = [] ++ s :: back := List.head?_eq_some_iff.mp head
  have reached : clampedStart start < s.nextOffset := by
    obtain ⟨bs, holds⟩ := h.exists_hold (s := s) (by rw [parts]; simp)
    have order := holds.base_le_next
    omega
  obtain ⟨bs, bss, holds, backHold, _, whole⟩ := h.fromOffset_stored parts (by simp) reached
  specialize whole rfl
  obtain ⟨other, found, points⟩ := holds.index
  obtain rfl : idx = other := Option.some.inj (Eq.trans (Eq.symm indexed) found)
  rw [← points.position_eq_zero_iff holds.ordered]
  by_contra nonzero
  obtain ⟨skipped, rest, same, position, some⟩ := points.lookup_any (clampedStart start)
  cases skipped with
  | nil => exact nonzero (by simpa using position)
  | cons b skipped =>
    obtain ⟨c, rest, rfl⟩ := List.exists_cons_of_ne_nil (some (List.cons_ne_nil b skipped))
    have late : ∀ d ∈ bs, clampedStart start ≤ d.lastOffset := by
      intro d member
      have reach := holds.ordered.late d member
      omega
    have low : clampedStart start < p.nextOffset := by
      have upper := h.ascends.early b (by rw [whole, same]; simp)
      have reach := late b (by simp [same])
      omega
    have dropped : p.orderedSegments.dropWhile (fun seg => decide (¬ clampedStart start < seg.logEndOffset)) =
        s :: back := by
      rw [parts, List.nil_append]
      exact List.dropWhile_cons_of_neg (by simpa [Segment.logEndOffset] using reached)
    obtain ⟨selected, after, split, result, _, nonempty⟩ := h.read_yields positive range low parts dropped holds backHold
      same (fun other found => by rw [← Option.some.inj (indexed.symm.trans found), position])
    have kept : fromOffset (clampedStart start) (c :: rest) = c :: rest :=
      fromOffset_eq_self (fun d member => late d (by rw [same]; exact List.mem_append_right _ member))
    rw [kept] at split nonempty
    obtain ⟨d, more, rfl⟩ := List.exists_cons_of_ne_nil (nonempty (by simp))
    obtain ⟨rfl, _⟩ := List.cons.inj split
    have first : stored closed last = b :: (skipped ++ c :: rest ++ bss.flatten) := by
      rw [whole, same]
      simp
    have member : b ∈ stored closed last := by simp [first]
    have reach : ¬ b.lastOffset < start := by
      rw [← h.lastOffset_lt_clamped_iff member]
      exact not_lt.mpr (late b (by simp [same]))
    have starts := h.baseOffset_of_readsOn reads first (not_lt.mp reach)
    rw [result, logBytes_cons, baseOffsetField_append] at starts
    have order := Ascending.across Batch.proper (same ▸ holds.ordered) (List.mem_cons_self (a := b)) List.mem_cons_self
    have proper := b.baseOffset_lt_nextOffset
    omega

end Partition.Holds

/-- In every state of a running partition, a read from any offset returns consecutive batches from the
    first that reaches it, exactly if the lookup in the earliest segment does not run past its start. -/
theorem read_consecutive {maxSegmentBytes indexInterval : Int} {empty p : Partition} (positive : 0 < maxSegmentBytes)
    (opened : openPartition [] maxSegmentBytes indexInterval = .ok empty)
    (run : Reaches (fun q op => Operation.Running q op) Performs empty p) {start maxBytes : Int}
    (some : 0 < maxBytes) (range : maxBytes < 2147483648) :
    p.ReadsOn start maxBytes ↔ p.FindsStart start := by
  obtain ⟨first, started, sound⟩ := openPartition_empty indexInterval positive
  obtain rfl : empty = first := Except.ok.inj (opened.symm.trans started)
  obtain ⟨closed, active, last, holds⟩ := run.invariant sound.stores (fun _ _ _ => Performs.stores)
  exact ⟨holds.findsStart_of_readsOn some range, holds.readsOn_of_findsStart some range⟩

def fourBatches (empty : Partition) : Partition :=
  ((((empty.append (headerOnly 0)).2.append (headerOnly 0)).2.append (headerOnly 0)).2.append (headerOnly 0)).2

theorem fourBatches_reached : ∃ empty, openPartition [] 100 10 = .ok empty ∧
    Reaches (fun q op => Operation.Running q op) Performs empty (fourBatches empty) := by
  have meets : (openPartition [] 100 10).map (fun empty =>
      let p := (empty.append (headerOnly 0)).2
      let q := (p.append (headerOnly 0)).2
      let r := (q.append (headerOnly 0)).2
      decide (empty.Accepts (headerOnly 0) ∧ p.Accepts (headerOnly 0) ∧ q.Accepts (headerOnly 0) ∧
        r.Accepts (headerOnly 0))) = .ok true := by decide +kernel
  rcases opened : openPartition [] 100 10 with failure | empty
  · rw [opened] at meets
    cases meets
  · rw [opened] at meets
    simp only [Except.map, Except.ok.injEq, decide_eq_true_eq] at meets
    obtain ⟨first, second, third, fourth⟩ := meets
    exact ⟨empty, rfl, ((((Reaches.refl empty).next (.append _) first rfl).next (.append _) second rfl).next (.append _)
      third rfl).next (.append _) fourth rfl⟩

/-- After retention has removed offsets 0 and 1, a read from 0 skips offset 2 and starts at 3. -/
theorem read_below_earliest_skips :
    ¬ ∀ (empty p : Partition) (start maxBytes : Int), openPartition [] 100 10 = .ok empty →
      Reaches (fun q op => Operation.Running q op) Performs empty p → start < p.highWatermark → 0 < maxBytes →
      maxBytes < 2147483648 → p.ReadsOn start maxBytes := by
  intro readsOn
  obtain ⟨empty, opened, run⟩ := fourBatches_reached
  have skips : (openPartition [] 100 10).map (fun empty =>
      let p := (fourBatches empty).enforceRetention ⟨0, 200⟩ 0 (fun _ => none)
      decide (0 < p.highWatermark ∧ ¬ p.FindsStart 0)) = .ok true := by decide +kernel
  rw [opened] at skips
  simp only [Except.map, Except.ok.injEq, decide_eq_true_eq] at skips
  have later := run.next (.enforceRetention ⟨0, 200⟩ 0 (fun _ => none)) trivial rfl
  have reads := readsOn empty _ 0 1000 opened later skips.1 (by decide) (by decide)
  obtain ⟨first, started, sound⟩ := openPartition_empty 10 (show (0 : Int) < 100 by decide)
  obtain rfl : empty = first := Except.ok.inj (opened.symm.trans started)
  obtain ⟨closed, active, last, holds⟩ := later.invariant sound.stores (fun _ _ _ => Performs.stores)
  exact skips.2 (holds.findsStart_of_readsOn (by decide) (by decide) reads)

theorem read_consecutive_from_one :
    ∃ empty, openPartition [] 100 10 = .ok empty ∧ (fourBatches empty).FindsStart 1 ∧
      (fourBatches empty).ReadsOn 1 100 := by
  obtain ⟨empty, opened, run⟩ := fourBatches_reached
  have finds : (openPartition [] 100 10).map (fun empty => decide ((fourBatches empty).FindsStart 1)) = .ok true := by
    decide +kernel
  rw [opened] at finds
  simp only [Except.map, Except.ok.injEq, decide_eq_true_eq] at finds
  exact ⟨empty, opened, finds, (read_consecutive (by decide) opened run (by decide) (by decide)).mpr finds⟩

end PocketKafka.Storage
