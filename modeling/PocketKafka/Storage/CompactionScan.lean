import PocketKafka.Storage.Compaction
import PocketKafka.Storage.PartitionRead

namespace PocketKafka.Storage

open Bytes Intervals Protocol

def recordsOf (raw : Bytes) : List Record :=
  match decodeRecordBatch raw with
  | .error _ => []
  | .ok b => b.records

def Decodes (raw : Bytes) : Prop := ∃ b, decodeRecordBatch raw = .ok b

instance (raw : Bytes) : Decidable (Decodes raw) :=
  match done : decodeRecordBatch raw with
  | .ok b => .isTrue ⟨b, done⟩
  | .error _ => .isFalse fun ⟨b, other⟩ => by
      rw [done] at other
      cases other

theorem Decodes.records {raw : Bytes} {b : RecordBatch} (done : decodeRecordBatch raw = .ok b) :
    recordsOf raw = b.records := by
  rw [recordsOf, done]

section

variable {σ : Type} (step : σ → Record → Except Failure σ)

abbrev perRecord (state : σ) (b : RecordBatch) : Except Failure σ := b.records.foldlM step state

abbrev overBatches (bs : List Batch) (state : σ) : Except Failure σ :=
  (bs.flatMap (fun b => recordsOf b.raw)).foldlM step state

theorem overBatches_append (bs cs : List Batch) (state : σ) :
    overBatches step (bs ++ cs) state = overBatches step bs state >>= overBatches step cs := by
  rw [overBatches, List.flatMap_append, List.foldlM_append]

theorem parseRecordBatchHeader_append (b : Batch) (rest : Bytes) :
    parseRecordBatchHeader (b.raw ++ rest) =
      .ok ⟨b.baseOffset, lengthField b.raw, lastOffsetDeltaField b.raw, countField b.raw⟩ := by
  have long := b.header
  unfold batchHeaderSize at long
  have fields : ∀ i j, j ≤ 61 → slice (b.raw ++ rest) i j = slice b.raw i j :=
    fun i j inside => slice_append_left _ _ _ _ (by omega)
  have magic : magicField (b.raw ++ rest) = magicField b.raw := by
    rw [magicField, magicField, List.getD_append _ _ _ _ (by omega)]
  rw [parseRecordBatchHeader_of_magic (by rw [List.length_append, batchHeaderSize]; omega) (magic.trans b.magic)]
  simp only [baseOffsetField, lengthField, lastOffsetDeltaField, countField, fields _ _ (show 8 ≤ 61 by decide),
    fields _ _ (show 12 ≤ 61 by decide), fields _ _ (show 27 ≤ 61 by decide), fields _ _ (show 61 ≤ 61 by decide),
    Batch.baseOffset]

theorem pageLoop_cons (b : Batch) (rest : Bytes) (next : Int) (advanced : Bool) (state : σ) (decodes : Decodes b.raw)
    (lower : 0 ≤ b.baseOffset) (upper : b.nextOffset < 9223372036854775808) :
    pageLoop (perRecord step) (b.raw ++ rest) next advanced state =
      (recordsOf b.raw).foldlM step state >>= pageLoop (perRecord step) rest b.nextOffset true := by
  obtain ⟨decoded, done⟩ := decodes
  have long := b.header
  have length := b.length
  have delta := b.delta
  unfold batchHeaderSize at long
  have total : batchTotalSize ⟨b.baseOffset, lengthField b.raw, lastOffsetDeltaField b.raw, countField b.raw⟩ =
      b.raw.length := by
    change 12 + lengthField b.raw = _
    omega
  have next' : int64 (b.baseOffset + lastOffsetDeltaField b.raw + 1) = b.nextOffset := by
    rw [Batch.nextOffset, Batch.lastOffset] at upper ⊢
    exact int64_of_bounds (by omega) upper
  rw [pageLoop, if_pos (by rw [List.length_append]; omega), parseRecordBatchHeader_append]
  simp only [total, Int.toNat_natCast, List.take_left, List.drop_left, done, next', Decodes.records done, perRecord]
  rw [if_neg (by rw [List.length_append]; omega)]
  cases decoded.records.foldlM step state <;> rfl

def pageEnd (next : Int) (bs : List Batch) : Int := bs.foldl (fun _ b => b.nextOffset) next

theorem pageLoop_batches {bs : List Batch} (decodes : ∀ b ∈ bs, Decodes b.raw)
    (bounds : ∀ b ∈ bs, 0 ≤ b.baseOffset ∧ b.lastOffset < 9223372036854775807) (next : Int) (advanced : Bool) (state : σ) :
    pageLoop (perRecord step) (logBytes bs) next advanced state =
      overBatches step bs state >>= fun state => .ok (pageEnd next bs, advanced || !bs.isEmpty, state) := by
  induction bs generalizing next advanced state with
  | nil =>
    rw [pageLoop, if_neg (by simp)]
    simp [pageEnd, overBatches]
  | cons b bs ih =>
    obtain ⟨lower, upper⟩ := bounds b (by simp)
    rw [logBytes_cons, pageLoop_cons step b _ next advanced state (decodes b (by simp)) lower
      (by unfold Batch.nextOffset; omega), overBatches, List.flatMap_cons, List.foldlM_append, bind_assoc]
    congr 1
    funext state
    rw [ih (fun c member => decodes c (List.mem_cons_of_mem _ member))
      (fun c member => bounds c (List.mem_cons_of_mem _ member))]
    simp [pageEnd]

theorem pageEnd_append (next : Int) (bs : List Batch) (b : Batch) : pageEnd next (bs ++ [b]) = b.nextOffset := by
  simp [pageEnd]

theorem exists_pageEnd (next : Int) {page : List Batch} (some : page ≠ []) :
    ∃ b ∈ page, pageEnd next page = b.nextOffset := by
  rcases List.eq_nil_or_concat page with none | ⟨init, b, rfl⟩
  · exact absurd none some
  · exact ⟨b, by simp, by rw [List.concat_eq_append, pageEnd_append]⟩

theorem fromOffset_pageEnd {lo hi next : Int} {bs page after : List Batch} (ordered : Ascends lo bs hi)
    (parts : fromOffset next bs = page ++ after) (some : page ≠ []) : fromOffset (pageEnd next page) bs = after := by
  rcases List.eq_nil_or_concat page with none | ⟨init, b, rfl⟩
  · exact absurd none some
  · rw [List.concat_eq_append] at parts ⊢
    rw [pageEnd_append]
    have whole : bs = (below next bs ++ init) ++ b :: after := by
      calc bs = below next bs ++ fromOffset next bs := (below_append_fromOffset next bs).symm
        _ = (below next bs ++ init) ++ b :: after := by rw [parts]; simp
    rw [whole] at ordered
    obtain ⟨_, _, _, later⟩ := ordered.split
    have early : ∀ c ∈ (below next bs ++ init) ++ [b], c.lastOffset < b.nextOffset := by
      intro c member
      rcases List.mem_append.mp member with before | same
      · have across := Ascending.across Batch.proper ordered before List.mem_cons_self
        have proper := b.baseOffset_lt_nextOffset
        unfold Batch.nextOffset at across proper ⊢
        omega
      · rw [List.mem_singleton] at same
        subst same
        exact lt_add_one _
    have split : bs = ((below next bs ++ init) ++ [b]) ++ after := by
      rw [List.append_assoc _ [b], List.singleton_append]
      exact whole
    calc fromOffset b.nextOffset bs = fromOffset b.nextOffset (((below next bs ++ init) ++ [b]) ++ after) :=
          congrArg _ split
      _ = after := by rw [fromOffset_append early, fromOffset_eq_self (Ascends.late later)]

variable {s : Segment} {bs : List Batch}

theorem scanLoop_batches (h : s.Holds bs) (decodes : ∀ b ∈ bs, Decodes b.raw) (pages : Nat) (next : Int) (state : σ)
    (enough : (fromOffset next bs).length < pages) (lower : s.baseOffset ≤ next) :
    scanLoop (perRecord step) s s.nextOffset pages next state = overBatches step (fromOffset next bs) state := by
  induction pages generalizing next state with
  | zero => omega
  | succ pages ih =>
    rw [scanLoop]
    by_cases inside : next < s.nextOffset
    · obtain ⟨after, parts, _⟩ := collect_stops compactReadBytes 0 (fromOffset next bs)
      have page : ∀ b ∈ collect compactReadBytes 0 (fromOffset next bs), b ∈ bs := by
        intro b member
        refine fromOffset_subset (?_ : b ∈ fromOffset next bs)
        rw [parts]
        exact List.mem_append_left _ member
      have loop := pageLoop_batches step (fun b member => decodes b (page b member)) (fun b member =>
        h.bounds (page b member))
        next false state
      rw [if_pos inside, h.read_eq lower (by decide)]
      simp only [loop, Bool.false_or]
      conv_rhs => rw [parts, overBatches_append]
      rcases overBatches step (collect compactReadBytes 0 (fromOffset next bs)) state with failure | state
      · rfl
      · by_cases empty : fromOffset next bs = []
        · have nothing : after = [] := by
            rw [empty] at parts
            exact (List.append_eq_nil_iff.mp parts.symm).2
          simp only [empty, nothing, collect, List.isEmpty_nil, bind, Except.bind]
          rfl
        · have some := collect_ne_nil (by decide : (0 : Int) < compactReadBytes) empty
          have later := fromOffset_pageEnd h.ordered parts some
          have shorter : (fromOffset (pageEnd next (collect compactReadBytes 0 (fromOffset next bs))) bs).length <
            pages := by
            have positive := List.length_pos_of_ne_nil some
            have size := congrArg List.length parts
            rw [List.length_append] at size
            rw [later]
            omega
          have above : s.baseOffset ≤ pageEnd next (collect compactReadBytes 0 (fromOffset next bs)) := by
            obtain ⟨b, member, same⟩ := exists_pageEnd next some
            have start := (Ascending.mem Batch.proper h.ordered (page b member)).1
            have proper := b.baseOffset_lt_nextOffset
            omega
          have rest := ih (pageEnd next (collect compactReadBytes 0 (fromOffset next bs))) state shorter above
          simp only [List.isEmpty_eq_false_iff.mpr some, bind, Except.bind, Bool.not_false, rest, later]
    · have none : fromOffset next bs = [] := by
        rw [fromOffset, List.dropWhile_eq_nil_iff]
        intro b member
        have upper := Ascends.early h.ordered b member
        simp only [decide_eq_true_eq]
        omega
      rw [if_neg inside, none]
      rfl

theorem length_le_logBytes (bs : List Batch) : bs.length ≤ (logBytes bs).length := by
  induction bs with
  | nil => simp
  | cons b bs ih =>
    have size := b.size_lower
    rw [Batch.size] at size
    rw [logBytes_cons, List.length_append, List.length_cons]
    omega

theorem forEachBatchRange_eq (h : s.Holds bs) (decodes : ∀ b ∈ bs, Decodes b.raw) {start : Int}
    (lower : s.baseOffset ≤ start) (state : σ) :
    forEachBatchRange (perRecord step) s start s.nextOffset state = overBatches step (fromOffset start bs) state := by
  have bound := length_le_logBytes bs
  have fewer : (fromOffset start bs).length ≤ bs.length := List.length_dropWhile_le _ _
  rw [forEachBatchRange, h.log_eq]
  exact scanLoop_batches step h decodes _ start state (by omega) lower

theorem forEachBatch_eq {segs : List Segment} {bss : List (List Batch)} {stop : Int}
    (hold : List.Forall₂ Segment.Holds segs bss) (decodes : ∀ b ∈ bss.flatten, Decodes b.raw)
    (within : ∀ seg ∈ segs, seg.nextOffset ≤ stop) (state : σ) :
    forEachBatch (perRecord step) segs stop state = overBatches step bss.flatten state := by
  induction hold generalizing state with
  | nil => rfl
  | @cons seg bs segs bss head tail ih =>
    have limit : ¬ (0 < stop ∧ stop < seg.nextOffset) := by
      have upper := within seg (by simp)
      omega
    have first := forEachBatchRange_eq step head (fun b member => decodes b (by simp [member])) le_rfl state
    rw [fromOffset_eq_self (Ascends.late head.ordered)] at first
    rw [forEachBatch, List.foldlM_cons, List.flatten_cons, overBatches_append]
    simp only [Segment.logEndOffset, limit, ↓reduceIte, first]
    congr 1
    funext state
    exact ih (fun b member => decodes b (by rw [List.flatten_cons]; exact List.mem_append_right _ member))
      (fun other member => within other (List.mem_cons_of_mem _ member)) state

end

end PocketKafka.Storage
