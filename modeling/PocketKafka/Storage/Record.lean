import PocketKafka.Lib.Bytes
import PocketKafka.Lib.Failure

namespace PocketKafka.Storage

open Bytes

structure RecordBatchHeader where
  baseOffset : Int
  length : Int
  lastOffsetDelta : Int
  count : Int
  deriving DecidableEq, Repr

def batchHeaderSize : Nat := 61

def baseOffsetField (raw : Bytes) : Int := int64 (beUint (slice raw 0 8))

def lengthField (raw : Bytes) : Int := int32 (beUint (slice raw 8 12))

def magicField (raw : Bytes) : Int := int8 (raw.getD 16 0).toNat

def lastOffsetDeltaField (raw : Bytes) : Int := int32 (beUint (slice raw 23 27))

def countField (raw : Bytes) : Int := int32 (beUint (slice raw 57 61))

def parseRecordBatchHeader (raw : Bytes) : Except Failure RecordBatchHeader :=
  let size := raw.length
  if size < batchHeaderSize then
    .error (.error s!"record batch too short: {size} bytes")
  else
    let magic := magicField raw
    if magic ≠ 2 then
      .error (.error s!"unsupported record batch magic {magic} (expected 2)")
    else
      .ok {
        baseOffset := baseOffsetField raw
        length := lengthField raw
        lastOffsetDelta := lastOffsetDeltaField raw
        count := countField raw }

def batchTotalSize (h : RecordBatchHeader) : Int := 12 + h.length

theorem parseRecordBatchHeader_ok {raw : Bytes} {h : RecordBatchHeader}
    (parsed : parseRecordBatchHeader raw = .ok h) :
    batchHeaderSize ≤ raw.length ∧ magicField raw = 2 ∧
      h = ⟨baseOffsetField raw, lengthField raw, lastOffsetDeltaField raw, countField raw⟩ := by
  unfold parseRecordBatchHeader at parsed
  simp only at parsed
  split at parsed
  · cases parsed
  · split at parsed
    · cases parsed
    · rename_i long magic
      simp only [Except.ok.injEq] at parsed
      exact ⟨by omega, by omega, parsed.symm⟩

theorem parseRecordBatchHeader_of_magic {raw : Bytes} (long : batchHeaderSize ≤ raw.length)
    (magic : magicField raw = 2) : parseRecordBatchHeader raw =
      .ok ⟨baseOffsetField raw, lengthField raw, lastOffsetDeltaField raw, countField raw⟩ := by
  have short : ¬ raw.length < batchHeaderSize := by omega
  simp [parseRecordBatchHeader, short, magic]

def stamp (raw : Bytes) (base : Int) : Bytes := putInt 8 base ++ raw.drop 8

theorem stamp_length {raw : Bytes} (base : Int) (long : 8 ≤ raw.length) :
    (stamp raw base).length = raw.length := by
  simp [stamp]
  omega

theorem slice_stamp (raw : Bytes) (base : Int) (i j : Nat) (after : 8 ≤ i) :
    slice (stamp raw base) i j = slice raw i j := by
  obtain ⟨k, rfl⟩ := Nat.exists_eq_add_of_le after
  have shift : (8 + k) - (putInt 8 base).length = k := by simp
  have short : (putInt 8 base).drop (8 + k) = [] := List.drop_eq_nil_of_le (by simp)
  simp [slice, stamp, List.drop_append, short]

@[simp] theorem baseOffsetField_stamp {raw : Bytes} {base : Int} (lower : -9223372036854775808 ≤ base)
    (upper : base < 9223372036854775808) : baseOffsetField (stamp raw base) = base := by
  have front : slice (stamp raw base) 0 8 = putInt 8 base := by
    simp [slice, stamp]
  rw [baseOffsetField, front, int64_beUint_putInt lower upper]

@[simp] theorem lengthField_stamp (raw : Bytes) (base : Int) : lengthField (stamp raw base) = lengthField raw := by
  rw [lengthField, slice_stamp _ _ _ _ (by omega), lengthField]

@[simp] theorem lastOffsetDeltaField_stamp (raw : Bytes) (base : Int) :
    lastOffsetDeltaField (stamp raw base) = lastOffsetDeltaField raw := by
  rw [lastOffsetDeltaField, slice_stamp _ _ _ _ (by omega), lastOffsetDeltaField]

@[simp] theorem magicField_stamp (raw : Bytes) (base : Int) : magicField (stamp raw base) = magicField raw := by
  have same : (stamp raw base).getD 16 0 = raw.getD 16 0 := by
    simp [stamp, List.getD_eq_getElem?_getD, List.getElem?_append_right]
  rw [magicField, same, magicField]

/-- A batch whose header describes its own bytes: what the log must consist of. -/
structure Batch where
  raw : Bytes
  header : batchHeaderSize ≤ raw.length
  magic : magicField raw = 2
  length : lengthField raw = raw.length - 12
  delta : 0 ≤ lastOffsetDeltaField raw

namespace Batch

def size (b : Batch) : Nat := b.raw.length

def baseOffset (b : Batch) : Int := baseOffsetField b.raw

def lastOffset (b : Batch) : Int := b.baseOffset + lastOffsetDeltaField b.raw

def nextOffset (b : Batch) : Int := b.lastOffset + 1

theorem size_lower (b : Batch) : 61 ≤ b.size := b.header

theorem baseOffset_lt_nextOffset (b : Batch) : b.baseOffset < b.nextOffset := by
  have delta := b.delta
  unfold nextOffset lastOffset
  omega

def stamped (b : Batch) (base : Int) : Batch where
  raw := stamp b.raw base
  header := by
    have long := b.header
    rw [stamp_length base (by unfold batchHeaderSize at long; omega)]
    exact long
  magic := by rw [magicField_stamp]; exact b.magic
  length := by
    have long := b.header
    rw [lengthField_stamp, stamp_length base (by unfold batchHeaderSize at long; omega)]
    exact b.length
  delta := by rw [lastOffsetDeltaField_stamp]; exact b.delta

@[simp] theorem stamped_raw (b : Batch) (base : Int) : (b.stamped base).raw = stamp b.raw base := rfl

@[ext] theorem ext {b c : Batch} (same : b.raw = c.raw) : b = c := by
  cases b
  cases c
  cases same
  rfl

end Batch

def logBytes (bs : List Batch) : Bytes := (bs.map Batch.raw).flatten

@[simp] theorem logBytes_nil : logBytes [] = [] := rfl

@[simp] theorem logBytes_cons (b : Batch) (bs : List Batch) : logBytes (b :: bs) = b.raw ++ logBytes bs := by
  simp [logBytes]

@[simp] theorem logBytes_append (bs cs : List Batch) : logBytes (bs ++ cs) = logBytes bs ++ logBytes cs := by
  simp [logBytes]

end PocketKafka.Storage
