import PocketKafka.Protocol.Compression
import PocketKafka.Protocol.RecordBatch
import PocketKafka.Storage.Partition

namespace PocketKafka.Handler

open Bytes Protocol Storage

/-- The records of a decompressed payload, up to the first that cannot be decoded. -/
def splitRecords : Nat → Bytes → Except Failure (List Protocol.Record)
  | 0, _ => .ok []
  | count + 1, rest =>
    if rest.length = 0 then .ok []
    else
      match varint rest with
      | none => .ok []
      | some (length, n) =>
        if length < 0 ∨ (rest.length : Int) < int64 (n + length) then .ok []
        else if int64 (n + length) < 0 then .error (.panic "slice bounds out of range")
        else
          match decodeRecord (rest.take (n + length.toNat)) with
          | .error (.error _) => .ok []
          | .error failure => .error failure
          | .ok (rec, _) =>
            match splitRecords count (rest.drop (n + length.toNat)) with
            | .error failure => .error failure
            | .ok decoded => .ok (rec :: decoded)

def uncompressedBatch (raw : Bytes) (decoded : List Protocol.Record) : RecordBatch where
  baseOffset := 0
  partitionLeaderEpoch := int32 (beUint (slice raw 12 16))
  magic := 0
  crc := 0
  attributes := withCodec (int16 (beUint (slice raw 21 23))) compressionNone
  lastOffsetDelta := int32 (beUint (slice raw 23 27))
  baseTimestamp := int64 (beUint (slice raw 27 35))
  maxTimestamp := int64 (beUint (slice raw 35 43))
  producerID := int64 (beUint (slice raw 43 51))
  producerEpoch := int16 (beUint (slice raw 51 53))
  baseSequence := int32 (beUint (slice raw 53 57))
  records := decoded

def rebuildBatch (raw records : Bytes) : Except Failure Bytes :=
  if records.length < 4 then .ok raw
  else
    let count := int32 (beUint (slice raw 57 61))
    if count < 0 then .error (.panic "makeslice: cap out of range")
    else
      match splitRecords count.toNat records with
      | .error failure => .error failure
      | .ok [] => .ok raw
      | .ok (first :: others) =>
        match encodeRecordBatch (uncompressedBatch raw (first :: others)) with
        | .error (.error _) => .ok raw
        | .error failure => .error failure
        | .ok out => .ok out

/-- The batch that `appendToPartition` hands on: a compressed one is rebuilt without compression. -/
def plainBatch (gzip : Gzip) (raw : Bytes) : Except Failure Bytes :=
  let attr := int16 (beUint (slice raw 21 23))
  if compressionCodec attr = compressionNone then .ok raw
  else
    match decompressRecordBatch gzip (raw.drop 61) attr with
    | .error (.error text) => .error (.error s!"decompress: {text}")
    | .error failure => .error failure
    | .ok records => rebuildBatch raw records

def appendToPartition (gzip : Gzip) (part : Partition) (raw : Bytes) (sync : Bool) (fsync : Fsync) :
    Except Failure Int × Partition :=
  if raw.length < 61 then (.error (.error "record batch too short"), part)
  else
    match plainBatch gzip raw with
    | .error failure => (.error failure, part)
    | .ok raw =>
      match decodeRecordBatch raw with
      | .error failure => (.error failure, part)
      | .ok batch =>
        if 0 ≤ batch.producerID then
          part.appendIdempotentSynced batch.producerID batch.producerEpoch batch.baseSequence raw sync fsync
        else part.appendSynced raw sync fsync

end PocketKafka.Handler
