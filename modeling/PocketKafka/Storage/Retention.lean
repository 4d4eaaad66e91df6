import PocketKafka.Storage.Partition

namespace PocketKafka.Storage

open Bytes

/-- The retention limits of a topic; a limit that is not positive is switched off. -/
structure Retention where
  retentionTime : Int
  retentionBytes : Int
  deriving DecidableEq, Repr

abbrev ModTimes := Int → Option Int

def timePlan (modTime : ModTimes) (cutoff : Int) : List Segment → Nat → List Nat → Int → List Nat × Int
  | [], _, plan, total => (plan, total)
  | seg :: rest, i, plan, total =>
    match modTime seg.baseOffset with
    | none => (plan, total)
    | some mtime =>
      if mtime < cutoff then timePlan modTime cutoff rest (i + 1) (plan ++ [i]) (int64 (total - seg.sizeBytes))
      else (plan, total)

def bytesPlan (retentionBytes : Int) : List Segment → Nat → List Nat → Int → List Nat
  | [], _, plan, _ => plan
  | seg :: rest, i, plan, total =>
    if retentionBytes < total then bytesPlan retentionBytes rest (i + 1) (plan ++ [i]) (int64 (total - seg.sizeBytes))
    else plan

namespace Partition

def totalSize (p : Partition) : Int :=
  p.orderedSegments.foldl (fun total seg => int64 (total + seg.sizeBytes)) 0

def retentionPlan (p : Partition) (ret : Retention) (now : Int) (modTime : ModTimes) : List Nat :=
  let (plan, total) :=
    if 0 < ret.retentionTime then
      timePlan modTime (now - ret.retentionTime) p.closedSegments 0 [] p.totalSize
    else ([], p.totalSize)
  if 0 < ret.retentionBytes then
    bytesPlan ret.retentionBytes (p.closedSegments.drop plan.length) plan.length plan total
  else plan

def removeClosedSegment (p : Partition) (i : Nat) : Partition :=
  { p with closedSegments := p.closedSegments.take i ++ p.closedSegments.drop (i + 1) }

def enforceRetention (p : Partition) (ret : Retention) (now : Int) (modTime : ModTimes) : Partition :=
  (p.retentionPlan ret now modTime).reverse.foldl removeClosedSegment p

end Partition

theorem timePlan_range (modTime : ModTimes) (cutoff : Int) (segs : List Segment) (i : Nat) (total : Int) :
    ∃ n ≤ i + segs.length, i ≤ n ∧ (timePlan modTime cutoff segs i (List.range i) total).1 = List.range n := by
  induction segs generalizing i total with
  | nil => exact ⟨i, by simp, le_rfl, rfl⟩
  | cons seg rest ih =>
    rw [timePlan]
    split
    · exact ⟨i, by simp, le_rfl, rfl⟩
    · split
      · obtain ⟨n, upper, lower, same⟩ := ih (i + 1) (int64 (total - seg.sizeBytes))
        rw [← List.range_succ]
        exact ⟨n, by simp only [List.length_cons]; omega, by omega, same⟩
      · exact ⟨i, by simp, le_rfl, rfl⟩

theorem bytesPlan_range (retentionBytes : Int) (segs : List Segment) (i : Nat) (total : Int) :
    ∃ n ≤ i + segs.length, bytesPlan retentionBytes segs i (List.range i) total = List.range n := by
  induction segs generalizing i total with
  | nil => exact ⟨i, by simp, rfl⟩
  | cons seg rest ih =>
    rw [bytesPlan]
    split
    · obtain ⟨n, upper, same⟩ := ih (i + 1) (int64 (total - seg.sizeBytes))
      rw [← List.range_succ]
      exact ⟨n, by simp only [List.length_cons]; omega, same⟩
    · exact ⟨i, by simp, rfl⟩

namespace Partition

theorem retentionPlan_range (p : Partition) (ret : Retention) (now : Int) (modTime : ModTimes) :
    ∃ n ≤ p.closedSegments.length, p.retentionPlan ret now modTime = List.range n := by
  have first : ∃ n ≤ p.closedSegments.length, ∃ total,
      (if 0 < ret.retentionTime then
        timePlan modTime (now - ret.retentionTime) p.closedSegments 0 [] p.totalSize
      else ([], p.totalSize)) = (List.range n, total) := by
    split
    · obtain ⟨n, upper, _, same⟩ :=
        timePlan_range modTime (now - ret.retentionTime) p.closedSegments 0 p.totalSize
      exact ⟨n, by omega, _, Prod.ext same rfl⟩
    · exact ⟨0, by omega, _, rfl⟩
  obtain ⟨n, upper, total, planned⟩ := first
  rw [retentionPlan, planned]
  simp only [List.length_range]
  split
  · obtain ⟨m, bound, same⟩ := bytesPlan_range ret.retentionBytes (p.closedSegments.drop n) n total
    exact ⟨m, by simp only [List.length_drop] at bound; omega, same⟩
  · exact ⟨n, upper, rfl⟩

theorem removeClosedSegment_range (p : Partition) (n : Nat) (bound : n ≤ p.closedSegments.length) :
    (List.range n).reverse.foldl removeClosedSegment p =
      { p with closedSegments := p.closedSegments.drop n } := by
  induction n generalizing p with
  | zero => rfl
  | succ n ih =>
    rw [List.range_succ, List.reverse_append, List.reverse_singleton, List.singleton_append, List.foldl_cons,
      ih _ (by simp [removeClosedSegment]; omega)]
    simp [removeClosedSegment, Nat.min_eq_left (by omega : n ≤ p.closedSegments.length)]

theorem enforceRetention_eq (p : Partition) (ret : Retention) (now : Int) (modTime : ModTimes) :
    ∃ n ≤ p.closedSegments.length,
      p.enforceRetention ret now modTime = { p with closedSegments := p.closedSegments.drop n } := by
  obtain ⟨n, bound, planned⟩ := p.retentionPlan_range ret now modTime
  refine ⟨n, bound, ?_⟩
  rw [enforceRetention, planned, removeClosedSegment_range p n bound]

end Partition

def sizeOfAll (segs : List Segment) : Nat := (segs.map Segment.sizeBytes).sum

@[simp] theorem sizeOfAll_nil : sizeOfAll [] = 0 := rfl

@[simp] theorem sizeOfAll_cons (seg : Segment) (rest : List Segment) :
    sizeOfAll (seg :: rest) = seg.sizeBytes + sizeOfAll rest := rfl

def Segment.old (modTime : ModTimes) (cutoff : Int) (seg : Segment) : Bool :=
  match modTime seg.baseOffset with
  | none => false
  | some mtime => decide (mtime < cutoff)

theorem total_after {seg : Segment} {rest : List Segment} {others : Nat}
    (fits : sizeOfAll (seg :: rest) + others < 9223372036854775808) :
    int64 (((sizeOfAll (seg :: rest) + others : Nat) : Int) - seg.sizeBytes) = ((sizeOfAll rest + others : Nat) : Int) := by
  rw [sizeOfAll_cons] at fits ⊢
  rw [int64_of_bounds (by omega) (by omega)]
  omega

theorem timePlan_eq (modTime : ModTimes) (cutoff : Int) (segs : List Segment) (i others : Nat)
    (fits : sizeOfAll segs + others < 9223372036854775808) :
    timePlan modTime cutoff segs i (List.range i) (sizeOfAll segs + others : Nat) =
      (List.range (i + (segs.takeWhile (Segment.old modTime cutoff)).length),
        ((sizeOfAll (segs.drop (segs.takeWhile (Segment.old modTime cutoff)).length) + others : Nat) : Int)) := by
  induction segs generalizing i with
  | nil => rfl
  | cons seg rest ih =>
    have later := ih (i + 1) (by rw [sizeOfAll_cons] at fits; omega)
    rw [timePlan, List.takeWhile_cons, Segment.old]
    cases modTime seg.baseOffset with
    | none => rfl
    | some mtime =>
      by_cases before : mtime < cutoff
      · simp only [before, ↓reduceIte, decide_true, List.length_cons, List.drop_succ_cons]
        rw [total_after fits, ← List.range_succ, later, Nat.add_right_comm, Nat.add_assoc]
      · simp [before]

theorem bytesPlan_least (limit : Int) (segs : List Segment) (i others : Nat)
    (fits : sizeOfAll segs + others < 9223372036854775808) :
    ∃ k ≤ segs.length, bytesPlan limit segs i (List.range i) (sizeOfAll segs + others : Nat) = List.range (i + k) ∧
      (((sizeOfAll (segs.drop k) + others : Nat) : Int) ≤ limit ∨ k = segs.length) ∧
      ∀ j < k, limit < ((sizeOfAll (segs.drop j) + others : Nat) : Int) := by
  induction segs generalizing i with
  | nil => exact ⟨0, le_rfl, rfl, Or.inr rfl, by omega⟩
  | cons seg rest ih =>
    rw [bytesPlan]
    split
    · rename_i large
      obtain ⟨k, bound, planned, enough, needed⟩ := ih (i + 1) (by rw [sizeOfAll_cons] at fits; omega)
      rw [total_after fits, ← List.range_succ, planned]
      refine ⟨k + 1, by simpa using bound, by rw [Nat.add_right_comm, Nat.add_assoc], ?_, ?_⟩
      · simpa using enough
      · intro j less
        cases j with
        | zero => exact large
        | succ j => exact needed j (by omega)
    · rename_i small
      exact ⟨0, by omega, rfl, Or.inl (by simpa using small), by omega⟩

namespace Partition

variable (p : Partition) (ret : Retention) (now : Int) (modTime : ModTimes)

def storedSize : Nat := sizeOfAll p.orderedSegments

def dropClosed (n : Nat) : Partition := { p with closedSegments := p.closedSegments.drop n }

def expired : List Segment :=
  if 0 < ret.retentionTime then p.closedSegments.takeWhile (Segment.old modTime (now - ret.retentionTime)) else []

structure Meets (n : Nat) : Prop where
  inside : n ≤ p.closedSegments.length
  time : (p.expired ret now modTime).length ≤ n
  bytes : 0 < ret.retentionBytes →
    ((p.dropClosed n).storedSize : Int) ≤ ret.retentionBytes ∨ n = p.closedSegments.length

theorem totalSize_eq (fits : p.storedSize < 9223372036854775808) : p.totalSize = p.storedSize := by
  have sums (segs : List Segment) (total : Nat) (bound : total + sizeOfAll segs < 9223372036854775808) :
      segs.foldl (fun total seg => int64 (total + seg.sizeBytes)) (total : Int) =
        ((total + sizeOfAll segs : Nat) : Int) := by
    induction segs generalizing total with
    | nil => rfl
    | cons seg rest ih =>
      rw [sizeOfAll_cons] at bound ⊢
      rw [List.foldl_cons, int64_of_bounds (by omega) (by omega)]
      have next := ih (total + seg.sizeBytes) (by omega)
      rw [Nat.add_assoc] at next
      exact_mod_cast next
  have whole := sums p.orderedSegments 0 (by rwa [Nat.zero_add])
  simpa [totalSize, storedSize] using whole

theorem storedSize_eq : p.storedSize = sizeOfAll p.closedSegments + sizeOfAll p.activeSegment.toList := by
  simp [storedSize, orderedSegments, sizeOfAll]

theorem dropClosed_storedSize (n : Nat) :
    (p.dropClosed n).storedSize = sizeOfAll (p.closedSegments.drop n) + sizeOfAll p.activeSegment.toList :=
  storedSize_eq _

theorem expired_plan (fits : p.storedSize < 9223372036854775808) :
    (if 0 < ret.retentionTime then
        timePlan modTime (now - ret.retentionTime) p.closedSegments 0 [] p.totalSize
      else ([], p.totalSize)) =
      (List.range (p.expired ret now modTime).length,
        ((p.dropClosed (p.expired ret now modTime).length).storedSize : Int)) := by
  rw [totalSize_eq p fits, dropClosed_storedSize, storedSize_eq, expired]
  split
  · have plan := timePlan_eq modTime (now - ret.retentionTime) p.closedSegments 0 (sizeOfAll p.activeSegment.toList)
      (by rwa [← storedSize_eq])
    rwa [Nat.zero_add] at plan
  · rfl

theorem expired_length_le : (p.expired ret now modTime).length ≤ p.closedSegments.length := by
  rw [expired]
  split
  · exact (List.takeWhile_sublist _).length_le
  · exact Nat.zero_le _

theorem retentionPlan_least (fits : p.storedSize < 9223372036854775808) :
    ∃ n, p.retentionPlan ret now modTime = List.range n ∧ IsLeast {n | p.Meets ret now modTime n} n := by
  have upper := p.expired_length_le ret now modTime
  rw [retentionPlan, p.expired_plan ret now modTime fits]
  simp only [List.length_range]
  by_cases limited : 0 < ret.retentionBytes
  · have left : sizeOfAll (p.closedSegments.drop (p.expired ret now modTime).length) +
        sizeOfAll p.activeSegment.toList < 9223372036854775808 := by
      have less : sizeOfAll (p.closedSegments.drop (p.expired ret now modTime).length) ≤ sizeOfAll p.closedSegments :=
        ((List.drop_sublist _ _).map _).sum_le_sum (by simp)
      rw [storedSize_eq] at fits
      omega
    obtain ⟨k, bound, planned, enough, needed⟩ := bytesPlan_least ret.retentionBytes _
      (p.expired ret now modTime).length _ left
    rw [List.length_drop] at bound enough
    rw [if_pos limited, dropClosed_storedSize, planned]
    refine ⟨_, rfl, ⟨by omega, by omega, fun _ => ?_⟩, fun m meets => ?_⟩
    · rw [dropClosed_storedSize, ← List.drop_drop]
      exact enough.imp_right (by omega)
    · by_contra shorter
      have time := meets.time
      obtain ⟨j, rfl⟩ := Nat.exists_eq_add_of_le time
      have large := needed j (by omega)
      rw [List.drop_drop, ← dropClosed_storedSize] at large
      rcases meets.bytes limited with small | all
      · omega
      · omega
  · rw [if_neg limited]
    exact ⟨_, rfl, ⟨upper, le_rfl, fun positive => absurd positive limited⟩, fun m meets => meets.time⟩

/-- Retention removes the shortest leading part of the closed segments that meets both limits. -/
theorem enforceRetention_exact (fits : p.storedSize < 9223372036854775808) :
    ∃ n, p.enforceRetention ret now modTime = p.dropClosed n ∧ IsLeast {n | p.Meets ret now modTime n} n := by
  obtain ⟨n, planned, least⟩ := p.retentionPlan_least ret now modTime fits
  refine ⟨n, ?_, least⟩
  rw [enforceRetention, planned, removeClosedSegment_range p n least.1.inside, dropClosed]

end Partition

def sizedSegment (baseOffset : Int) (size : Nat) : Segment where
  baseOffset := baseOffset
  logFile := none
  index := none
  nextOffset := baseOffset
  size := size
  maxSegmentBytes := 1
  indexInterval := 1
  remote := none
  syncedOffset := 0
  syncedBytes := 0

def threeSegments : Partition :=
  { unopened 1 1 with
    closedSegments := [sizedSegment 0 10, sizedSegment 1 10]
    activeSegment := some (sizedSegment 2 10) }

theorem enforceRetention_exact_two :
    threeSegments.storedSize < 9223372036854775808 ∧
      ∃ n, threeSegments.enforceRetention ⟨5, 15⟩ 100 (fun base => some (90 + 8 * base)) = threeSegments.dropClosed n ∧
        IsLeast {n | threeSegments.Meets ⟨5, 15⟩ 100 (fun base => some (90 + 8 * base)) n} n :=
  ⟨by decide, Partition.enforceRetention_exact _ _ _ _ (by decide)⟩

def hugeSegments : Partition :=
  { unopened 1 1 with
    closedSegments := [sizedSegment 0 4611686018427387904, sizedSegment 1 4611686018427387904]
    activeSegment := some (sizedSegment 2 0) }

/-- The total overflows to a negative number, and nothing is removed. -/
theorem overflowing_total_retained :
    0 < (⟨0, 1⟩ : Retention).retentionBytes ∧
      (hugeSegments.enforceRetention ⟨0, 1⟩ 100 (fun _ => none)).closedSegments.length = 2 ∧
      (⟨0, 1⟩ : Retention).retentionBytes < (hugeSegments.enforceRetention ⟨0, 1⟩ 100 (fun _ => none)).storedSize := by
  decide +kernel

end PocketKafka.Storage
