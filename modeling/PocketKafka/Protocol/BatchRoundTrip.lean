import PocketKafka.Protocol.RecordBatch

namespace PocketKafka.Protocol

open Bytes

structure RecordBatch.Typed (b : RecordBatch) : Prop where
  baseOffset : -9223372036854775808 ≤ b.baseOffset ∧ b.baseOffset < 9223372036854775808
  partitionLeaderEpoch : -2147483648 ≤ b.partitionLeaderEpoch ∧ b.partitionLeaderEpoch < 2147483648
  attributes : -32768 ≤ b.attributes ∧ b.attributes < 32768
  lastOffsetDelta : -2147483648 ≤ b.lastOffsetDelta ∧ b.lastOffsetDelta < 2147483648
  baseTimestamp : -9223372036854775808 ≤ b.baseTimestamp ∧ b.baseTimestamp < 9223372036854775808
  maxTimestamp : -9223372036854775808 ≤ b.maxTimestamp ∧ b.maxTimestamp < 9223372036854775808
  producerID : -9223372036854775808 ≤ b.producerID ∧ b.producerID < 9223372036854775808
  producerEpoch : -32768 ≤ b.producerEpoch ∧ b.producerEpoch < 32768
  baseSequence : -2147483648 ≤ b.baseSequence ∧ b.baseSequence < 2147483648
  records : ∀ rec ∈ b.records, rec.Fits

/-- `EncodeRecordBatch` sets the magic, the checksum and a delta of 0 in the batch it is given. -/
def RecordBatch.sealed (b : RecordBatch) : RecordBatch :=
  { b with magic := recordMagic, crc := encodedCRC b, lastOffsetDelta := encodedDelta b }

theorem encodedDelta_bounds {b : RecordBatch} (typed : b.Typed) :
    -2147483648 ≤ encodedDelta b ∧ encodedDelta b < 2147483648 := by
  unfold encodedDelta
  split
  · exact int32_bounds _
  · exact typed.lastOffsetDelta

theorem Laid.decode {b : RecordBatch} {raw : Bytes} (laid : Laid b raw) (typed : b.Typed) (some : b.records ≠ [])
    (small : b.records.length < 2147483648) (start : raw.length < 9223372036854775808) :
    decodeRecordBatch raw = .ok { b.sealed with records := b.records.map Record.reread } := by
  have size := laid.size
  have records : decodeRecords (Protocol.declaredCount raw).toNat (raw.drop 61) = .ok (b.records.map Record.reread) := by
    rw [laid.declaredCount some small, laid.body, Int.toNat_natCast]
    exact decodeRecords_encode typed.records (by omega)
  have delta := encodedDelta_bounds typed
  have crc : encodedCRC b % 256 ^ 4 = encodedCRC b := Nat.mod_eq_of_lt (crc32c_lt _)
  have long : ¬ raw.length < 61 := by omega
  simp only [decodeRecordBatch, long, laid.magicField, records, ne_eq, not_true_eq_false, ↓reduceIte]
  rw [laid.baseOffset, int64_beUint_putInt typed.baseOffset.1 typed.baseOffset.2, laid.partitionLeaderEpoch,
    int32_beUint_putInt typed.partitionLeaderEpoch.1 typed.partitionLeaderEpoch.2, laid.crc, beUint_putBE, crc,
    laid.attributes, int16_beUint_putInt typed.attributes.1 typed.attributes.2, laid.lastOffsetDelta,
    int32_beUint_putInt delta.1 delta.2, laid.baseTimestamp,
    int64_beUint_putInt typed.baseTimestamp.1 typed.baseTimestamp.2, laid.maxTimestamp,
    int64_beUint_putInt typed.maxTimestamp.1 typed.maxTimestamp.2, laid.producerID,
    int64_beUint_putInt typed.producerID.1 typed.producerID.2, laid.producerEpoch,
    int16_beUint_putInt typed.producerEpoch.1 typed.producerEpoch.2, laid.baseSequence,
    int32_beUint_putInt typed.baseSequence.1 typed.baseSequence.2]
  rfl

theorem map_reread_eq_iff (rs : List Record) : rs.map Record.reread = rs ↔ ∀ rec ∈ rs, rec.key ≠ none := by
  have single (rec : Record) : rec.reread = rec ↔ rec.key ≠ none := by
    obtain ⟨attributes, timestampDelta, offsetDelta, key, value, headers⟩ := rec
    cases key <;> simp [Record.reread]
  induction rs with
  | nil => simp
  | cons rec rs ih => simp only [List.map_cons, List.cons.injEq, single, ih, List.forall_mem_cons]

/-- A batch comes back as it was encoded exactly if it has no record with a null key. -/
theorem record_batch_round_trip_iff {b : RecordBatch} (typed : b.Typed) (some : 1 ≤ b.records.length)
    (count : b.records.length < 2147483648) (small : 61 + (b.records.flatMap (encodeRecord [])).length < 2147483648)
    (delta : b.lastOffsetDelta = b.records.length - 1) :
    (encodeRecordBatch b).bind decodeRecordBatch = .ok { b with magic := recordMagic, crc := encodedCRC b } ↔
      ∀ rec ∈ b.records, rec.key ≠ none := by
  have nonempty : b.records ≠ [] := List.ne_nil_of_length_pos some
  have same : encodedDelta b = b.lastOffsetDelta := by
    rw [encodedDelta]
    split
    · rw [int32_of_bounds (by omega) (by omega), delta]
    · rfl
  have length : encodedLength b = 49 + ((b.records.flatMap (encodeRecord [])).length : Int) := by
    rw [encodedLength_eq, int32_of_bounds (by omega) (by omega)]
  have laid := batchParts_laid b
  have size := laid.size
  rw [encodeRecordBatch_eq, if_neg (by omega), ← map_reread_eq_iff]
  simp only [Except.bind]
  rw [laid.decode typed nonempty count (by omega), Except.ok.injEq, RecordBatch.sealed, same, RecordBatch.mk.injEq]
  simp

def oneRecordBatch (key : Option Bytes) : RecordBatch :=
  ⟨0, 0, 0, 0, 0, 0, 0, 0, -1, -1, -1, [⟨0, 0, 0, key, some [1], [⟨[2], none⟩]⟩]⟩

theorem oneRecordBatch_typed (key : Option Bytes) : (oneRecordBatch key).Typed := by
  constructor <;> simp [oneRecordBatch]
  exact ⟨by simp, by simp, by simp⟩

theorem record_batch_round_trip_keyed :
    (encodeRecordBatch (oneRecordBatch (some [7]))).bind decodeRecordBatch =
      .ok { oneRecordBatch (some [7]) with magic := recordMagic, crc := encodedCRC (oneRecordBatch (some [7])) } :=
  (record_batch_round_trip_iff (oneRecordBatch_typed _) (by decide) (by decide) (by decide +kernel) (by decide)).mpr
    (by decide)

/-- The null key comes back as an empty one. -/
theorem null_key_comes_back_empty :
    ((encodeRecordBatch (oneRecordBatch none)).bind decodeRecordBatch).map (fun b => b.records.map Record.key) =
      .ok [some []] ∧
    (encodeRecordBatch (oneRecordBatch none)).bind decodeRecordBatch ≠
      .ok { oneRecordBatch none with magic := recordMagic, crc := encodedCRC (oneRecordBatch none) } := by
  decide +kernel

end PocketKafka.Protocol
