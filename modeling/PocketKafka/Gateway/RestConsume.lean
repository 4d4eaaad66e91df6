import PocketKafka.Storage.LogRecords

namespace PocketKafka.Gateway

open Bytes Protocol Storage Intervals

structure RestRecord where
  topic : Bytes
  partition : Int
  offset : Int
  key : Bytes
  value : Bytes
  headers : AList fun _ : Bytes => Bytes

def restView (topic : Bytes) (partition : Int) : View RestRecord where
  render batch rec := {
    topic := topic
    partition := partition
    offset := int64 (batch.baseOffset + rec.offsetDelta)
    key := rec.key.getD []
    value := rec.value.getD []
    headers := rec.headers.foldl (fun headers hd => headers.insert hd.key (hd.value.getD [])) ∅ }
  offset := RestRecord.offset
  placed _ _ := rfl

def RestRecord.decodeRecords (topic : Bytes) (partition : Int) (raw : Bytes) : Except Failure (List RestRecord) :=
  decodePage (restView topic partition).render raw

inductive RestAnswer where
  | notFound (error : String)
  | failed (error : Failure)
  | records (records : List RestRecord)

/-- The answer to a request with its numbers read; the read may bring offloaded segments back. -/
def consume (store : Store) (topic : Bytes) (offset limit partition : Int) : Except Failure (RestAnswer × Store) :=
  let limit := if limit ≤ 0 ∨ 500 < limit then 50 else limit
  match store.getPartition topic (int32 partition) with
  | none => .ok (.notFound "unknown topic or partition", store)
  | some part =>
    let ((raw, _, failure), part) := part.read offset (int32 (limit * 4096 + 4096))
    let store := store.setPartition topic (int32 partition) part
    match failure with
    | some failure => .ok (.failed failure, store)
    | none => (RestRecord.decodeRecords topic (int32 partition) raw).map fun records =>
      (.records (if limit < records.length then records.take limit.toNat else records), store)

/-- Consecutive records of the log are returned, from the first one at `offset` or behind it on. -/
def StartsWhereAsked (store : Store) (topic : Bytes) (offset limit partition : Int) (log : List RestRecord) : Prop :=
  ∃ records store', consume store topic offset limit partition = .ok (.records records, store') ∧ records <:+: log ∧
    (records.length : Int) ≤ limit ∧ records.head? = ((restView topic partition).since offset log).head?

def Filled (raw : Bytes) : Prop := Ordered raw ∧ recordsOf raw ≠ []

/-- No record of the batch around `offset` is in front of it. -/
def FallsOnStart (p : Partition) (offset : Int) : Prop :=
  ∀ raw ∈ p.storedBatches, baseOffsetField raw ≤ offset → offset ≤ lastOffsetField raw →
    ∀ rec ∈ recordsOf raw, offset ≤ baseOffsetField raw + rec.offsetDelta

theorem Filled.stamped {b : Batch} (filled : Filled b.raw) (base : Int) : Filled (b.stamped base).raw := by
  refine ⟨(b.ordered_stamped base).mpr filled.1, ?_⟩
  rw [b.recordsOf_stamped]
  exact filled.2

section

variable {store : Store} {topic : Bytes} {offset limit partition : Int} {p : Partition} {bs : List Batch}

theorem consume_page (found : store.getPartition topic partition = some p) (typed : int32 partition = partition)
    (least : 1 ≤ limit) (most : limit ≤ 500) (decodes : ∀ b ∈ bs, Decodes b.raw)
    (read : p.read offset (limit * 4096 + 4096) = ((logBytes bs, p.highWatermark, none), p)) :
    consume store topic offset limit partition =
      .ok (.records (((restView topic partition).records bs).take limit.toNat), store.setPartition topic partition p) := by
  have kept : (if limit ≤ 0 ∨ 500 < limit then 50 else limit) = limit := if_neg (by omega)
  have budget : int32 (limit * 4096 + 4096) = limit * 4096 + 4096 := int32_of_bounds (by omega) (by omega)
  rw [consume]
  dsimp only
  rw [kept, budget, typed, found]
  dsimp only
  rw [read, RestRecord.decodeRecords, (restView topic partition).decodePage_logBytes decodes]
  have cut : (if limit < ((restView topic partition).records bs).length
    then ((restView topic partition).records bs).take limit.toNat
      else (restView topic partition).records bs) = ((restView topic partition).records bs).take limit.toNat := by
    split
    · rfl
    · exact (List.take_of_length_le (by omega)).symm
  show Except.ok (RestAnswer.records (if _ then _ else _), _) = _
  rw [cut]

variable (found : store.getPartition topic partition = some p) (typed : int32 partition = partition) (least : 1 ≤ limit)
  (most : limit ≤ 500)
include found typed least most

theorem consume_log (log : p.Log bs) (decodes : ∀ b ∈ bs, Decodes b.raw) (kept : p.earliestOffset ≤ offset) :
    (∃ front b page back, bs = front ++ b :: page ++ back ∧ (∀ c ∈ front, c.nextOffset ≤ offset) ∧ b.baseOffset ≤ offset ∧
      offset < b.nextOffset ∧ ∃ store', consume store topic offset limit partition =
        .ok (.records (((restView topic partition).records (b :: page)).take limit.toNat), store')) ∨
      p.highWatermark ≤ offset ∧ ∃ store', consume store topic offset limit partition = .ok (.records [], store') := by
  by_cases below : offset < p.highWatermark
  · obtain ⟨front, b, page, back, parts, early, start, reach, _, read⟩ := log.read kept below
      (show 0 < limit * 4096 + 4096 by omega) (by omega)
    have inside : ∀ c ∈ b :: page, Decodes c.raw := by
      intro c member
      apply decodes
      rw [parts]
      exact List.mem_append_left _ (List.mem_append_right _ member)
    exact Or.inl ⟨front, b, page, back, parts, early, start, reach, _, consume_page found typed least most inside read⟩
  · have nonneg := log.earliest_nonneg
    have read : p.read offset (limit * 4096 + 4096) = ((logBytes [], p.highWatermark, none), p) :=
      Partition.read_end (by omega) (by omega)
    have none : ∀ b ∈ ([] : List Batch), Decodes b.raw := nofun
    have answer := consume_page found typed least most none read
    rw [View.records, List.flatMap_nil, List.take_nil] at answer
    exact Or.inr ⟨by omega, _, answer⟩

end

def pairBatch : Bytes :=
  (batchParts ⟨0, 0, 2, 0, 0, 0, 0, 0, -1, -1, -1,
    [⟨0, 0, 0, some [7], some [1], []⟩, ⟨0, 0, 1, some [8], some [2], []⟩]⟩).flatten

instance (raw : Bytes) : Decidable (Filled raw) := inferInstanceAs (Decidable (_ ∧ _))

instance (p : Partition) (offset : Int) : Decidable (FallsOnStart p offset) := inferInstanceAs (Decidable (∀ raw ∈ _, _))

def RestAnswer.offsets : RestAnswer → List Int
  | .records shown => shown.map RestRecord.offset
  | _ => []

end PocketKafka.Gateway
