import PocketKafka.Storage.StoredBatches
import PocketKafka.Storage.PartitionRuns

namespace PocketKafka.Storage

open Bytes Intervals

def wholeBatches : Nat → List Batch → List Batch
  | _, [] => []
  | n, b :: bs => if b.size ≤ n then b :: wholeBatches (n - b.size) bs else []

def tornTail (n : Nat) (bs : List Batch) : Nat :=
  ((logBytes bs).take n).length - (logBytes (wholeBatches n bs)).length

theorem wholeBatches_append (n : Nat) (bs : List Batch) : ∃ rest, bs = wholeBatches n bs ++ rest := by
  induction bs generalizing n with
  | nil => exact ⟨[], rfl⟩
  | cons b bs ih =>
    rw [wholeBatches]
    split
    · obtain ⟨rest, same⟩ := ih (n - b.size)
      exact ⟨rest, by rw [List.cons_append, ← same]⟩
    · exact ⟨b :: bs, rfl⟩

theorem wholeBatches_length (n : Nat) (bs : List Batch) : (logBytes (wholeBatches n bs)).length ≤ n := by
  induction bs generalizing n with
  | nil => exact Nat.zero_le _
  | cons b bs ih =>
    rw [wholeBatches]
    split
    · have rest := ih (n - b.size)
      rw [logBytes_cons, List.length_append, ← Batch.size]
      omega
    · exact Nat.zero_le _

theorem wholeBatches_longest {n : Nat} {front back : List Batch} (fits : (logBytes front).length ≤ n) :
    ∃ more, wholeBatches n (front ++ back) = front ++ more := by
  induction front generalizing n with
  | nil => exact ⟨_, rfl⟩
  | cons b front ih =>
    rw [logBytes_cons, List.length_append, ← Batch.size] at fits
    obtain ⟨more, same⟩ := ih (n := n - b.size) (by omega)
    refine ⟨more, ?_⟩
    rw [List.cons_append, wholeBatches, if_pos (by omega), same, List.cons_append]

theorem take_whole {n : Nat} {b : Batch} (bs : List Batch) (fits : b.size ≤ n) :
    (logBytes (b :: bs)).take n = b.raw ++ (logBytes bs).take (n - b.size) := by
  rw [logBytes_cons, List.take_append, List.take_of_length_le fits, Batch.size]

theorem take_torn {n : Nat} {b : Batch} (bs : List Batch) (torn : n < b.size) :
    (logBytes (b :: bs)).take n = b.raw.take n := by
  rw [logBytes_cons, List.take_append_of_le_length torn.le]

theorem tornTail_whole {n : Nat} {b : Batch} (bs : List Batch) (fits : b.size ≤ n) :
    tornTail n (b :: bs) = tornTail (n - b.size) bs := by
  unfold tornTail
  rw [take_whole bs fits, wholeBatches, if_pos fits, logBytes_cons, List.length_append, List.length_append]
  omega

theorem tornTail_torn {n : Nat} {b : Batch} (bs : List Batch) (torn : n < b.size) : tornTail n (b :: bs) = n := by
  unfold tornTail
  rw [take_torn bs torn, wholeBatches, if_neg (by omega), logBytes_nil, List.length_take, List.length_nil]
  unfold Batch.size at torn
  omega

theorem recoverLoop_torn (front : Bytes) {b : Batch} {n : Nat} (torn : n < b.size) (next : Int) :
    recoverLoop (front ++ b.raw.take n) (front ++ b.raw.take n).length front.length next =
      if 0 < n ∧ n < 12 then .error (.error "recover read: EOF") else .ok (front.length, next) := by
  have size : (front ++ b.raw.take n).length = front.length + n := by
    rw [List.length_append, List.length_take, ← Batch.size]
    omega
  rw [recoverLoop, size]
  by_cases empty : n = 0
  · simp [empty]
  · rw [if_pos (by omega)]
    by_cases short : n < 12
    · have missing : readAt (front ++ b.raw.take n) front.length 12 = none := by
        rw [readAt, size, if_neg (by omega)]
      rw [missing, if_pos ⟨by omega, short⟩]
    · have head : readAt (front ++ b.raw.take n) front.length 12 = some (b.raw.take 12) := by
        have found := readAt_middle_zero front (b.raw.take n) [] 12 (by rw [List.length_take, ← Batch.size]; omega)
        rwa [List.append_nil, List.take_take, Nat.min_eq_left (by omega)] at found
      have beyond : (b.size : Int) - 12 ≤ 0 ∨
        ((front.length + n : Nat) : Int) < front.length + 12 + ((b.size : Int) - 12) := by
        omega
      rw [head]
      simp only [head_length]
      rw [if_pos beyond, if_neg (by omega)]

theorem recoverLoop_cut (front : Bytes) (n : Nat) (bs : List Batch) (next : Int) :
    recoverLoop (front ++ (logBytes bs).take n) (front ++ (logBytes bs).take n).length front.length next =
      if 0 < tornTail n bs ∧ tornTail n bs < 12 then .error (.error "recover read: EOF")
      else .ok ((front ++ logBytes (wholeBatches n bs)).length, recoveredEnd next (wholeBatches n bs)) := by
  induction bs generalizing front n next with
  | nil =>
    rw [recoverLoop]
    simp [tornTail, wholeBatches, recoveredEnd]
  | cons b bs ih =>
    by_cases fits : b.size ≤ n
    · rw [take_whole bs fits, recoverLoop_batch, ih, tornTail_whole bs fits, wholeBatches, if_pos fits, logBytes_cons,
        List.append_assoc]
      rfl
    · have torn : n < b.size := by omega
      rw [take_torn bs torn, recoverLoop_torn front torn, tornTail_torn bs torn, wholeBatches, if_neg fits]
      simp [recoveredEnd]

theorem logBytes_eq_nil {bs : List Batch} (empty : (logBytes bs).length = 0) : bs = [] := by
  cases bs with
  | nil => rfl
  | cons b rest =>
    have long := b.size_lower
    rw [logBytes_cons, List.length_append, ← Batch.size] at empty
    omega

theorem take_wholeBatches (n : Nat) (bs : List Batch) :
    ((logBytes bs).take n).take (logBytes (wholeBatches n bs)).length = logBytes (wholeBatches n bs) := by
  obtain ⟨rest, same⟩ := wholeBatches_append n bs
  have whole : logBytes bs = logBytes (wholeBatches n bs) ++ logBytes rest := by rw [← logBytes_append, ← same]
  rw [List.take_take, Nat.min_eq_left (wholeBatches_length n bs)]
  rw [whole]
  exact List.take_left

theorem recover_cut {s : Segment} {n : Nat} {bs : List Batch} (log : s.logFile = some ((logBytes bs).take n))
    (size : s.size = ((logBytes bs).take n).length) :
    s.recover =
      if 0 < tornTail n bs ∧ tornTail n bs < 12 then .error (.error "recover read: EOF")
      else .ok { s with
        nextOffset := recoveredEnd s.nextOffset (wholeBatches n bs)
        logFile := some (logBytes (wholeBatches n bs))
        size := (logBytes (wholeBatches n bs)).length } := by
  have loop := recoverLoop_cut [] n bs s.nextOffset
  have taken := take_wholeBatches n bs
  have fits : (logBytes (wholeBatches n bs)).length ≤ s.size := by
    rw [← taken, List.length_take, size]
    exact Nat.min_le_right _ _
  simp only [List.nil_append, List.length_nil] at loop
  unfold Segment.recover
  by_cases empty : s.size = 0
  · have none := logBytes_eq_nil (Nat.le_zero.mp (empty ▸ fits))
    have torn : tornTail n bs = 0 := by
      unfold tornTail
      omega
    have nothing : (logBytes bs).take n = [] := List.eq_nil_of_length_eq_zero (size ▸ empty)
    simp only [empty, torn, none, logBytes_nil, List.length_nil]
    rw [nothing] at log
    cases s
    cases log
    cases empty
    rfl
  · rw [if_neg empty, log, Option.getD_some, size]
    dsimp only
    rw [loop]
    by_cases torn : 0 < tornTail n bs ∧ tornTail n bs < 12
    · rw [if_pos torn, if_pos torn]
    · rw [if_neg torn, if_neg torn]
      dsimp only
      split
      · rw [taken]
      · rename_i whole
        have same : (logBytes bs).take n = logBytes (wholeBatches n bs) := by
          rwa [not_not.mp whole, List.take_length] at taken
        rw [← same]

theorem openIndex_eq (file : Bytes) (baseOffset interval : Int) :
    openIndex file baseOffset interval =
      if file.length % indexEntrySize ≠ 0 then .error (.error "EOF")
      else .ok ⟨baseOffset, interval, file, loadEntries file 0, file.length⟩ := by
  unfold openIndex
  by_cases aligned : file.length % indexEntrySize = 0
  · have whole : readAt file 0 file.length = some file := by
      unfold readAt slice
      simp
    simp [aligned, whole]
  · -- The buffer is as long as the file was before it was trimmed.
    have short : readAt (file.take (file.length / indexEntrySize * indexEntrySize)) 0 file.length = none := by
      have below := Nat.div_add_mod' file.length indexEntrySize
      rw [readAt, List.length_take, if_neg (by omega)]
    simp [aligned, short]

theorem openSegment_cut {dir : Dir} {base : Int} {bs : List Batch} {n : Nat} {index : Option Bytes}
    (found : dir.find? (fun files => files.baseOffset == base) = some ⟨base, some ((logBytes bs).take n), index, none⟩)
    (maxSegmentBytes indexInterval : Int) :
    openSegment dir base maxSegmentBytes indexInterval =
      if (index.getD []).length % indexEntrySize ≠ 0 then .error (.error "open segment index: EOF")
      else if 0 < tornTail n bs ∧ tornTail n bs < 12 then .error (.error "recover read: EOF")
      else .ok {
        baseOffset := base
        logFile := some (logBytes (wholeBatches n bs))
        index := some ⟨base, indexInterval, index.getD [], loadEntries (index.getD []) 0, (index.getD []).length⟩
        nextOffset := recoveredEnd base (wholeBatches n bs)
        size := (logBytes (wholeBatches n bs)).length
        maxSegmentBytes := maxSegmentBytes
        indexInterval := indexInterval
        remote := none
        syncedOffset := recoveredEnd base (wholeBatches n bs)
        syncedBytes := (logBytes (wholeBatches n bs)).length } := by
  simp only [openSegment, found, Option.bind_some, Option.getD_some, openIndex_eq]
  by_cases misaligned : (index.getD []).length % indexEntrySize ≠ 0
  · rw [if_pos misaligned, if_pos misaligned]
    rfl
  · rw [if_neg misaligned, if_neg misaligned]
    simp only
    rw [recover_cut rfl rfl]
    by_cases torn : 0 < tornTail n bs ∧ tornTail n bs < 12
    · rw [if_pos torn, if_pos torn]
    · rw [if_neg torn, if_neg torn]

def endOffset (base : Int) (bs : List Batch) : Int := (bs.getLast?.map Batch.nextOffset).getD base

theorem endOffset_covered {lo hi : Int} {bs : List Batch} (ordered : Covered lo bs hi) : endOffset lo bs = hi := by
  induction bs generalizing lo with
  | nil => exact ordered
  | cons b bs ih =>
    have rest := ih ordered.2
    cases bs with
    | nil => exact rest
    | cons c bs =>
      rw [← rest, endOffset, endOffset, List.getLast?_cons_cons]
      cases last : (c :: bs).getLast? with
      | none => cases List.getLast?_eq_none_iff.mp last
      | some d => rfl

theorem covered_wholeBatches {lo hi : Int} {bs : List Batch} (n : Nat) (ordered : Covered lo bs hi) :
    ∃ mid ≤ hi, Covered lo (wholeBatches n bs) mid := by
  obtain ⟨rest, same⟩ := wholeBatches_append n bs
  rw [same] at ordered
  obtain ⟨mid, front, back⟩ := Gapless.split ordered
  exact ⟨mid, Ascending.le Batch.proper back.ascending, front⟩

/-- Opening gets back exactly the whole batches unless the cut leaves 1 to 11 bytes of the next one, or the
    index beside the log has a partial entry. -/
theorem openSegment_recovers_iff {dir : Dir} {base hi : Int} {bs : List Batch} {n : Nat} {index : Option Bytes}
    (found : dir.find? (fun files => files.baseOffset == base) = some ⟨base, some ((logBytes bs).take n), index, none⟩)
    (ordered : Covered base bs hi) (lower : -9223372036854775808 ≤ base) (upper : hi < 9223372036854775808)
    (maxSegmentBytes indexInterval : Int) :
    (∃ s, openSegment dir base maxSegmentBytes indexInterval = .ok s ∧
        s.logFile = some (logBytes (wholeBatches n bs)) ∧ s.size = (logBytes (wholeBatches n bs)).length ∧
        s.nextOffset = endOffset base (wholeBatches n bs)) ↔
      (index.getD []).length % indexEntrySize = 0 ∧ ¬ (1 ≤ tornTail n bs ∧ tornTail n bs ≤ 11) := by
  obtain ⟨mid, inside, covered⟩ := covered_wholeBatches n ordered
  rw [openSegment_cut found]
  constructor
  · rintro ⟨s, opened, -⟩
    split at opened
    · cases opened
    · split at opened
      · cases opened
      · constructor <;> omega
  · rintro ⟨aligned, clean⟩
    rw [if_neg (by omega), if_neg (by omega)]
    refine ⟨_, rfl, rfl, rfl, ?_⟩
    rw [endOffset_covered covered]
    exact Segment.Holds.recoveredEnd_covered covered lower (by omega)

def blankBatch : Batch := Batch.ofRaw (show WellFormed (headerOnly 0) by decide +kernel)

theorem blank_covered : Covered 0 [blankBatch, blankBatch.stamped 1] 2 :=
  ⟨by decide +kernel, by decide +kernel, show (blankBatch.stamped 1).nextOffset = 2 by decide +kernel⟩

theorem openSegment_recovers_blank :
    ∃ s, openSegment [⟨0, some ((logBytes [blankBatch, blankBatch.stamped 1]).take 73), none, none⟩] 0 1000 0 = .ok s ∧
      s.logFile = some (logBytes (wholeBatches 73 [blankBatch, blankBatch.stamped 1])) ∧
      s.size = (logBytes (wholeBatches 73 [blankBatch, blankBatch.stamped 1])).length ∧
      s.nextOffset = endOffset 0 (wholeBatches 73 [blankBatch, blankBatch.stamped 1]) :=
  (openSegment_recovers_iff rfl blank_covered (by decide) (by decide) 1000 0).mpr ⟨by decide, by decide +kernel⟩

/-- With 11 of its bytes left the whole segment cannot be opened. -/
theorem openSegment_torn_head :
    Covered 0 [blankBatch, blankBatch.stamped 1] 2 ∧
      openSegment [⟨0, some ((logBytes [blankBatch, blankBatch.stamped 1]).take 72), none, none⟩] 0 1000 0 =
        .error (.error "recover read: EOF") :=
  ⟨blank_covered, by decide +kernel⟩

end PocketKafka.Storage
