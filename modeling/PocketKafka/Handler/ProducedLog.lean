import PocketKafka.Handler.Produce
import PocketKafka.Protocol.BatchRoundTrip
import PocketKafka.Storage.WellFormedLog

namespace PocketKafka.Handler

open Bytes Protocol Storage

def producerIDField (raw : Bytes) : Int := int64 (beUint (slice raw 43 51))

def producerEpochField (raw : Bytes) : Int := int16 (beUint (slice raw 51 53))

def baseSequenceField (raw : Bytes) : Int := int32 (beUint (slice raw 53 57))

/-- The records by which the payload of a compressed batch is replaced; none if the batch stays as it is. -/
def replacement (gzip : Gzip) (raw : Bytes) : List Protocol.Record :=
  let attr := int16 (beUint (slice raw 21 23))
  if compressionCodec attr = compressionNone then []
  else
    match decompressRecordBatch gzip (raw.drop 61) attr with
    | .error _ => []
    | .ok records =>
      if records.length < 4 then []
      else
        match splitRecords (int32 (beUint (slice raw 57 61))).toNat records with
        | .error _ => []
        | .ok decoded => decoded

def Advances (p : Partition) (raw : Bytes) (delta : Int) : Prop :=
  0 ≤ delta ∧ p.nextOffset + delta + 1 < 9223372036854775808 ∧
    ¬ p.idempotence.Duplicate (producerIDField raw) (producerEpochField raw) (baseSequenceField raw)

/-- A batch that is stored as it is declares its own length; one that is rebuilt fits a length field. -/
def Harmless (gzip : Gzip) (p : Partition) (raw : Bytes) : Prop :=
  match replacement gzip raw with
  | [] => lengthField raw = raw.length - 12 ∧ Advances p raw (lastOffsetDeltaField raw)
  | first :: others =>
    49 + (((first :: others).flatMap (encodeRecord [])).length : Int) < 2147483648 ∧
      Advances p raw (if lastOffsetDeltaField raw = 0 then ((first :: others).length : Int) - 1
        else lastOffsetDeltaField raw)

theorem plainBatch_cases {gzip : Gzip} {raw plain : Bytes} (done : plainBatch gzip raw = .ok plain) :
    replacement gzip raw = [] ∧ plain = raw ∨
      ∃ first others, replacement gzip raw = first :: others ∧
        plain = (batchParts (uncompressedBatch raw (first :: others))).flatten := by
  unfold plainBatch at done
  unfold replacement
  dsimp only at done ⊢
  split at done
  · rename_i uncompressed
    rw [if_pos uncompressed]
    cases done
    exact Or.inl ⟨rfl, rfl⟩
  · rename_i compressed
    rw [if_neg compressed]
    split at done
    · cases done
    · cases done
    · rename_i records decompressed
      rw [decompressed]
      unfold rebuildBatch at done
      dsimp only at done ⊢
      split at done
      · rename_i short
        rw [if_pos short]
        cases done
        exact Or.inl ⟨rfl, rfl⟩
      · rename_i long
        rw [if_neg long]
        split at done
        · cases done
        · split at done
          · cases done
          · rename_i decoded
            rw [decoded]
            cases done
            exact Or.inl ⟨rfl, rfl⟩
          · rename_i first others decoded
            rw [decoded, encodeRecordBatch_eq] at *
            split at done
            · rename_i failed
              split at failed <;> cases failed
            · cases done
            · rename_i encoded
              split at encoded
              · cases encoded
              · cases encoded
                cases done
                exact Or.inr ⟨first, others, rfl, rfl⟩

theorem decodeRecordBatch_producer {raw : Bytes} {batch : RecordBatch} (done : decodeRecordBatch raw = .ok batch) :
    batch.producerID = producerIDField raw ∧ batch.producerEpoch = producerEpochField raw ∧
      batch.baseSequence = baseSequenceField raw := by
  unfold decodeRecordBatch at done
  dsimp only at done
  split at done
  · cases done
  · split at done
    · cases done
    · split at done
      · cases done
      · cases done
        exact ⟨rfl, rfl, rfl⟩

theorem appendToPartition_ok {gzip : Gzip} {p q : Partition} {raw : Bytes} {sync : Bool} {fsync : Fsync} {base : Int}
    (wellFormed : p.WellFormedLog) (done : appendToPartition gzip p raw sync fsync = (.ok base, q)) :
    ∃ plain, plainBatch gzip raw = .ok plain ∧
      (p.idempotence.Duplicate (producerIDField plain) (producerEpochField plain) (baseSequenceField plain) ∧
          q.nextOffset = p.nextOffset ∨
        ¬ p.idempotence.Duplicate (producerIDField plain) (producerEpochField plain) (baseSequenceField plain) ∧
          p.Grows plain q) := by
  obtain ⟨closed, active, last, logs⟩ := wellFormed
  unfold appendToPartition at done
  split at done
  · cases done
  · cases handed : plainBatch gzip raw with
    | error failure =>
      rw [handed] at done
      cases done
    | ok plain =>
      rw [handed] at done
      dsimp only at done
      refine ⟨plain, rfl, ?_⟩
      cases decoded : decodeRecordBatch plain with
      | error failure =>
        rw [decoded] at done
        cases done
      | ok batch =>
        obtain ⟨pid, epoch, seq⟩ := decodeRecordBatch_producer decoded
        rw [decoded] at done
        dsimp only at done
        rw [pid, epoch, seq] at done
        split at done
        · unfold Partition.appendIdempotentSynced at done
          cases outcome : p.idempotence.validateAndAppend (producerIDField plain) (producerEpochField plain)
              (baseSequenceField plain) (fun p : Partition => p.appendSynced plain sync fsync) p with
          | mk result after =>
            obtain ⟨tracker, store⟩ := after
            rw [outcome] at done
            cases done
            rcases PartitionIdempotenceTracker.validateAndAppend_ok outcome with ⟨duplicate, rfl⟩ | ⟨new, appended⟩
            · exact Or.inl ⟨duplicate, rfl⟩
            · exact Or.inr ⟨new, (logs.appendSynced_extends appended).remembering tracker⟩
        · rename_i unnumbered
          exact Or.inr ⟨fun duplicate => unnumbered duplicate.1, logs.appendSynced_extends done⟩

theorem rebuilt_producer (raw : Bytes) (rs : List Protocol.Record) :
    producerIDField (batchParts (uncompressedBatch raw rs)).flatten = producerIDField raw ∧
      producerEpochField (batchParts (uncompressedBatch raw rs)).flatten = producerEpochField raw ∧
      baseSequenceField (batchParts (uncompressedBatch raw rs)).flatten = baseSequenceField raw := by
  have laid := batchParts_laid (uncompressedBatch raw rs)
  refine ⟨?_, ?_, ?_⟩
  · rw [producerIDField, laid.producerID]
    exact int64_beUint_putInt (int64_bounds _).1 (int64_bounds _).2
  · rw [producerEpochField, laid.producerEpoch]
    exact int16_beUint_putInt (int16_bounds _).1 (int16_bounds _).2
  · rw [baseSequenceField, laid.baseSequence]
    exact int32_beUint_putInt (int32_bounds _).1 (int32_bounds _).2

theorem rebuilt_length_iff (b : RecordBatch) :
    lengthField (batchParts b).flatten = (batchParts b).flatten.length - 12 ↔
      49 + ((b.records.flatMap (encodeRecord [])).length : Int) < 2147483648 := by
  have laid := batchParts_laid b
  have bounds := int32_bounds (49 + ((b.records.flatMap (encodeRecord [])).length : Int))
  rw [lengthField, laid.length, laid.size, encodedLength_eq, int32_beUint_putInt bounds.1 bounds.2]
  constructor
  · intro same
    push_cast at same
    omega
  · intro small
    rw [int32_of_bounds (by omega) small]
    push_cast
    omega

theorem rebuilt_delta {raw : Bytes} {rs : List Protocol.Record} (some : rs ≠ [])
    (small : 49 + ((rs.flatMap (encodeRecord [])).length : Int) < 2147483648) :
    lastOffsetDeltaField (batchParts (uncompressedBatch raw rs)).flatten =
      if lastOffsetDeltaField raw = 0 then (rs.length : Int) - 1 else lastOffsetDeltaField raw := by
  have laid := batchParts_laid (uncompressedBatch raw rs)
  have positive := List.length_pos_of_ne_nil some
  have most := length_le_flatMap_encodeRecord rs
  have range := int32_bounds (beUint (slice raw 23 27))
  have delta : encodedDelta (uncompressedBatch raw rs) =
      if lastOffsetDeltaField raw = 0 then (rs.length : Int) - 1 else lastOffsetDeltaField raw := by
    show (if lastOffsetDeltaField raw = 0 ∧ 0 < rs.length then int32 ((rs.length : Int) - 1) else lastOffsetDeltaField
      raw) = _
    rw [int32_of_bounds (by omega) (by omega)]
    simp only [positive, and_true]
  rw [lastOffsetDeltaField, laid.lastOffsetDelta, delta]
  unfold lastOffsetDeltaField
  apply int32_beUint_putInt <;> split <;> omega

/-- An acknowledged produce request leaves the log intact exactly if its batch is harmless. -/
theorem produce_keeps_log_iff {gzip : Gzip} {p q : Partition} {raw : Bytes} {sync : Bool} {fsync : Fsync} {base : Int}
    (wellFormed : p.WellFormedLog) (done : appendToPartition gzip p raw sync fsync = (.ok base, q)) :
    p.Intact q ↔ Harmless gzip p raw := by
  obtain ⟨plain, handed, outcome⟩ := appendToPartition_ok wellFormed done
  -- In terms of the batch that is handed on.
  have intact : p.Intact q ↔ lengthField plain = plain.length - 12 ∧ Advances p plain (lastOffsetDeltaField plain) := by
    rcases outcome with ⟨duplicate, same⟩ | ⟨new, grows⟩
    · constructor
      · intro intact
        exact absurd intact.2.1 (by omega)
      · intro harmless
        exact absurd duplicate harmless.2.2.2
    · rw [grows.intact_iff]
      simp only [Advances, new, not_false_eq_true, and_true]
  rw [intact, Harmless]
  rcases plainBatch_cases handed with ⟨kept, rfl⟩ | ⟨first, others, replaced, rfl⟩
  · rw [kept]
  · rw [replaced, rebuilt_length_iff]
    obtain ⟨pid, epoch, seq⟩ := rebuilt_producer raw (first :: others)
    simp only [Advances, pid, epoch, seq]
    apply and_congr_right
    intro small
    rw [rebuilt_delta (List.cons_ne_nil first others) small]

def identityGzip : Gzip := ⟨Except.ok, Except.ok⟩

theorem produce_keeps_log_header_only :
    ∃ empty q, openPartition [] 1000 100 = .ok empty ∧
      appendToPartition identityGzip empty (headerOnly 0) false ⟨.ok (), .ok ()⟩ = (.ok 0, q) ∧ empty.Intact q := by
  obtain ⟨empty, opened, sound⟩ := openPartition_empty 100 (show (0 : Int) < 1000 by decide)
  have facts : ((openPartition [] 1000 100).map fun empty => decide (
      (appendToPartition identityGzip empty (headerOnly 0) false ⟨.ok (), .ok ()⟩).1 = .ok 0 ∧
      empty.nextOffset = 0 ∧ empty.idempotence.producerStates 0 = none ∧
      replacement identityGzip (headerOnly 0) = [] ∧ producerIDField (headerOnly 0) = 0 ∧
      lengthField (headerOnly 0) = (headerOnly 0).length - 12 ∧ lastOffsetDeltaField (headerOnly 0) = 0)) = .ok true := by
    decide +kernel
  obtain ⟨_, opened', done, next, unknown, kept, pid, length, delta⟩ := exists_of_map facts
  obtain rfl := Except.ok.inj (opened.symm.trans opened')
  refine ⟨empty, _, opened, Prod.ext done rfl, (produce_keeps_log_iff sound.wellFormedLog (Prod.ext done rfl)).mpr ?_⟩
  rw [Harmless, kept, Advances, pid, delta, next]
  refine ⟨length, by decide, by decide, ?_⟩
  rintro ⟨_, state, found, _⟩
  rw [unknown] at found
  cases found

def misdeclared : Bytes :=
  List.replicate 8 0 ++ putBE 4 100 ++ putBE 4 0 ++ [2] ++ putBE 4 0 ++ putBE 2 0 ++ putBE 4 0 ++ List.replicate 34 0

/-- It is acknowledged at offset 0, and recovery after a restart cuts it off. -/
theorem misdeclared_length_lost :
    ∃ empty q, openPartition [] 1000 100 = .ok empty ∧ empty.WellFormedLog ∧
      appendToPartition identityGzip empty misdeclared false ⟨.ok (), .ok ()⟩ = (.ok 0, q) ∧
      q.nextOffset = 1 ∧ q.reopen.map Partition.nextOffset = .ok 0 ∧ ¬ empty.Intact q := by
  obtain ⟨empty, opened, sound⟩ := openPartition_empty 100 (show (0 : Int) < 1000 by decide)
  have facts : ((openPartition [] 1000 100).map fun empty => decide (
      (appendToPartition identityGzip empty misdeclared false ⟨.ok (), .ok ()⟩).1 = .ok 0 ∧
      (appendToPartition identityGzip empty misdeclared false ⟨.ok (), .ok ()⟩).2.nextOffset = 1 ∧
      (appendToPartition identityGzip empty misdeclared false ⟨.ok (), .ok ()⟩).2.reopen.map Partition.nextOffset = .ok 0 ∧
      (appendToPartition identityGzip empty misdeclared false ⟨.ok (), .ok ()⟩).2.orderedSegments.map
        (fun s => (s.logFile.map List.length, (Segment.recover { s with nextOffset := s.baseOffset }).map
          fun s => s.logFile.map List.length)) = [(some 61, .ok (some 0))])) = .ok true := by
    decide +kernel
  obtain ⟨_, opened', done, next, reopened, cut⟩ := exists_of_map facts
  obtain rfl := Except.ok.inj (opened.symm.trans opened')
  refine ⟨empty, _, opened, sound.wellFormedLog, Prod.ext done rfl, next, reopened, ?_⟩
  rintro ⟨_, _, whole⟩
  generalize (appendToPartition identityGzip empty misdeclared false ⟨.ok (), .ok ()⟩).2.orderedSegments = segs at cut whole
  cases segs with
  | nil => cases cut
  | cons s rest =>
    rw [List.map_cons] at cut
    obtain ⟨s', recovered, file, _⟩ := whole s List.mem_cons_self
    obtain ⟨first, _⟩ := List.cons.inj cut
    obtain ⟨before, after⟩ := Prod.mk.inj first
    rw [recovered] at after
    have after : s'.logFile.map List.length = some 0 := Except.ok.inj after
    rw [file, before] at after
    cases after

end PocketKafka.Handler
