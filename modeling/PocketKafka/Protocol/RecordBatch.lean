import PocketKafka.Lib.Crc
import PocketKafka.Protocol.Reader

namespace PocketKafka.Protocol

open Bytes

def calculateRecordBatchCRC (batchDataAfterCRC : Bytes) : Nat := crc32c batchDataAfterCRC

def recordMagic : Int := 2

structure RecordHeader where
  key : Bytes
  value : Option Bytes
  deriving DecidableEq, Repr

structure Record where
  attributes : Int
  timestampDelta : Int
  offsetDelta : Int
  key : Option Bytes
  value : Option Bytes
  headers : List RecordHeader
  deriving DecidableEq, Repr

structure RecordBatch where
  baseOffset : Int
  partitionLeaderEpoch : Int
  magic : Int
  crc : Nat
  attributes : Int
  lastOffsetDelta : Int
  baseTimestamp : Int
  maxTimestamp : Int
  producerID : Int
  producerEpoch : Int
  baseSequence : Int
  records : List Record
  deriving DecidableEq, Repr

def encodeHeader (h : RecordHeader) : Bytes := putVarint h.key.length ++ (h.key ++ nullable h.value)

/-- The length of a null key is written as 0, unlike that of a null value. -/
def encodeBody (rec : Record) : Bytes :=
  UInt8.ofNat (rec.attributes % 256).toNat :: (putVarint rec.timestampDelta ++ (putVarint rec.offsetDelta ++
    (putVarint (rec.key.getD []).length ++ (rec.key.getD [] ++ (nullable rec.value ++
      (putUvarint rec.headers.length ++ rec.headers.flatMap encodeHeader))))))

def encodeRecord (dst : Bytes) (rec : Record) : Bytes :=
  let body := encodeBody rec
  appendVarint dst body.length ++ body

def encodeAfterCRC (b : RecordBatch) (lastOffsetDelta : Int) (records : Bytes) : Bytes :=
  putInt 2 b.attributes ++ putInt 4 lastOffsetDelta ++ putInt 8 b.baseTimestamp ++ putInt 8 b.maxTimestamp ++
    putInt 8 b.producerID ++ putInt 2 b.producerEpoch ++ putInt 4 b.baseSequence ++ putBE 4 b.records.length ++ records

def encodeRecordBatch (b : RecordBatch) : Except Failure Bytes :=
  let lastOffsetDelta :=
    if b.lastOffsetDelta = 0 ∧ 0 < b.records.length then int32 (b.records.length - 1) else b.lastOffsetDelta
  let records := b.records.foldl encodeRecord []
  let length := int32 (49 + int32 records.length)
  if 12 + length < 0 then .error (.panic "makeslice: cap out of range")
  else
    let after := encodeAfterCRC b lastOffsetDelta records
    .ok (putInt 8 b.baseOffset ++ putInt 4 length ++ putInt 4 b.partitionLeaderEpoch ++ putInt 1 recordMagic ++
      putBE 4 (calculateRecordBatchCRC after) ++ after)

def readHeaders : Nat → Reader → Except Failure (List RecordHeader)
  | 0, _ => .ok []
  | hc + 1, r =>
    match r.readVarintString with
    | .error failure => .error failure
    | .ok (key, r) =>
      match r.readBytesVarint with
      | .error failure => .error failure
      | .ok (value, r) =>
        match readHeaders hc r with
        | .error failure => .error failure
        | .ok rest => .ok (⟨key, value⟩ :: rest)

def readBody (r : Reader) : Except Failure Record := do
  let (attributes, r) ← r.readInt8
  let (timestampDelta, r) ← r.readVarint
  let (od, r) ← r.readVarint
  let (key, r) ← r.readBytesVarint
  let (value, r) ← r.readBytesVarint
  let (hc, r) ← r.readUVarint
  let headers ← readHeaders hc r
  return ⟨attributes, timestampDelta, int32 od, key, value, headers⟩

def decodeRecord (src : Bytes) : Except Failure (Record × Nat) :=
  match varint src with
  | none => .error (.error "invalid record length varint")
  | some (length, n) =>
    if length < 0 ∨ (src.length : Int) < int64 (n + length) then .error (.error s!"invalid record length {length}")
    else if int64 (n + length) < n then .error (.panic "slice bounds out of range")
    else
      match readBody ⟨slice src n (n + length.toNat), 0⟩ with
      | .error failure => .error failure
      | .ok rec => .ok (rec, n + length.toNat)

def decodeRecords : Nat → Bytes → Except Failure (List Record)
  | 0, _ => .ok []
  | count + 1, src =>
    if src = [] then .ok []
    else
      match decodeRecord src with
      | .error failure => .error failure
      | .ok (rec, n) =>
        match decodeRecords count (src.drop n) with
        | .error failure => .error failure
        | .ok rest => .ok (rec :: rest)

/-- A batch that declares no records is taken to have one for each of its offsets. -/
def declaredCount (raw : Bytes) : Int :=
  let count := int32 (beUint (slice raw 57 61))
  if count = 0 then int32 (int32 (beUint (slice raw 23 27)) + 1) else count

def decodeRecordBatch (raw : Bytes) : Except Failure RecordBatch :=
  let size := raw.length
  if size < 61 then .error (.error s!"record batch too short: {size} bytes")
  else
    let magic := int8 (raw.getD 16 0).toNat
    let lastOffsetDelta := int32 (beUint (slice raw 23 27))
    if magic ≠ recordMagic then .error (.error s!"unsupported record batch magic {magic}")
    else
      match decodeRecords (declaredCount raw).toNat (raw.drop 61) with
      | .error failure => .error failure
      | .ok records => .ok {
          baseOffset := int64 (beUint (slice raw 0 8))
          partitionLeaderEpoch := int32 (beUint (slice raw 12 16))
          magic := magic
          crc := beUint (slice raw 17 21)
          attributes := int16 (beUint (slice raw 21 23))
          lastOffsetDelta := lastOffsetDelta
          baseTimestamp := int64 (beUint (slice raw 27 35))
          maxTimestamp := int64 (beUint (slice raw 35 43))
          producerID := int64 (beUint (slice raw 43 51))
          producerEpoch := int16 (beUint (slice raw 51 53))
          baseSequence := int32 (beUint (slice raw 53 57))
          records := records }

structure Record.Fits (rec : Record) : Prop where
  attributes : -128 ≤ rec.attributes ∧ rec.attributes < 128
  timestampDelta : -9223372036854775808 ≤ rec.timestampDelta ∧ rec.timestampDelta < 9223372036854775808
  offsetDelta : -2147483648 ≤ rec.offsetDelta ∧ rec.offsetDelta < 2147483648

/-- The record as it comes back: a null key has become an empty one. -/
def Record.reread (rec : Record) : Record := { rec with key := some (rec.key.getD []) }

theorem readHeaders_eq {r : Reader} {hs : List RecordHeader} {more : Bytes} (fits : r.buf.length < 9223372036854775808)
    (stands : r.rest = hs.flatMap encodeHeader ++ more) : readHeaders hs.length r = .ok hs := by
  induction hs generalizing r with
  | nil => rfl
  | cons h hs ih =>
    have first : r.rest = putVarint h.key.length ++ (h.key ++ (nullable h.value ++ (hs.flatMap encodeHeader ++ more))) := by
      simpa [encodeHeader] using stands
    have key := Reader.readBytesVarint_some fits first
    have behind : (r.skip ((putVarint h.key.length).length + h.key.length)).rest =
        nullable h.value ++ (hs.flatMap encodeHeader ++ more) := by
      rw [← List.length_append]
      apply Reader.rest_skip
      simpa using first
    have value := Reader.readBytesVarint_eq (by simpa using fits) behind
    have rest := ih (by simpa using fits) (Reader.rest_skip behind)
    simp only [List.length_cons, readHeaders, Reader.readVarintString, key, Option.getD_some, value, rest]

theorem length_le_flatMap_encodeHeader (hs : List RecordHeader) : hs.length ≤ (hs.flatMap encodeHeader).length := by
  induction hs with
  | nil => simp
  | cons h hs ih =>
    have positive : 0 < (putVarint (h.key.length : Int)).length := putUvarint_pos _
    rw [List.flatMap_cons, List.length_append, List.length_cons, encodeHeader, List.length_append]
    omega

theorem int8_ofNat {v : Int} (lower : -128 ≤ v) (upper : v < 128) : int8 (UInt8.ofNat (v % 256).toNat).toNat = v := by
  rw [UInt8.toNat_ofNat', int8]
  omega

theorem readBody_eq {r : Reader} {rec : Record} (start : r.buf.length < 9223372036854775808) (fits : rec.Fits)
    (stands : r.rest = encodeBody rec) : readBody r = .ok rec.reread := by
  have attributes := Reader.readInt8_eq stands
  rw [int8_ofNat fits.attributes.1 fits.attributes.2] at attributes
  have behind : (r.skip 1).rest = _ := Reader.rest_skip (stands.trans (List.singleton_append).symm)
  have timestampDelta := Reader.readVarint_eq fits.timestampDelta.1 fits.timestampDelta.2 behind
  replace behind := Reader.rest_skip behind
  have offsetDelta := Reader.readVarint_eq (by have := fits.offsetDelta; omega) (by have := fits.offsetDelta; omega) behind
  replace behind := Reader.rest_skip behind
  have key := Reader.readBytesVarint_some (by simpa using start) behind
  rw [← List.append_assoc] at behind
  replace behind := Reader.rest_skip behind
  rw [List.length_append] at behind
  have value := Reader.readBytesVarint_eq (by simpa using start) behind
  replace behind := Reader.rest_skip behind
  have count : rec.headers.length < 18446744073709551616 := by
    have size := congrArg List.length behind
    have least := length_le_flatMap_encodeHeader rec.headers
    rw [Reader.rest, List.length_drop, List.length_append] at size
    simp only [Reader.buf_skip] at size
    omega
  have hc := Reader.readUVarint_eq count behind
  replace behind := Reader.rest_skip behind
  rw [← List.append_nil (rec.headers.flatMap encodeHeader)] at behind
  have headers := readHeaders_eq (by simpa using start) behind
  have same := int32_of_bounds fits.offsetDelta.1 fits.offsetDelta.2
  simp only [readBody, attributes, timestampDelta, offsetDelta, key, value, hc, headers, same, bind, Except.bind, pure,
    Except.pure, Record.reread]

theorem decodeRecord_encode {rec : Record} (fits : rec.Fits) {more : Bytes}
    (start : (encodeRecord [] rec ++ more).length < 9223372036854775808) :
    decodeRecord (encodeRecord [] rec ++ more) = .ok (rec.reread, (encodeRecord [] rec).length) := by
  simp only [encodeRecord, appendVarint, List.nil_append, List.append_assoc, List.length_append] at start ⊢
  have length := varint_put (v := (encodeBody rec).length) (by omega) (by omega) (encodeBody rec ++ more)
  have same := int64_of_bounds (x := ((putVarint (encodeBody rec).length).length : Int) + (encodeBody rec).length)
    (by omega) (by omega)
  have body : slice (putVarint (encodeBody rec).length ++ (encodeBody rec ++ more))
    (putVarint (encodeBody rec).length).length
      ((putVarint (encodeBody rec).length).length + (encodeBody rec).length) = encodeBody rec := by
    rw [slice, List.drop_left, Nat.add_sub_cancel_left, List.take_left]
  have read := readBody_eq (r := ⟨encodeBody rec, 0⟩) (by simp only; omega) fits (by simp [Reader.rest])
  simp only [decodeRecord, length, same, Int.toNat_natCast, body, read, List.length_append]
  rw [if_neg (by push_cast; omega), if_neg (by omega)]

theorem foldl_encodeRecord (dst : Bytes) (rs : List Record) :
    rs.foldl encodeRecord dst = dst ++ rs.flatMap (encodeRecord []) := by
  induction rs generalizing dst with
  | nil => simp
  | cons rec rs ih =>
    rw [List.foldl_cons, ih, List.flatMap_cons, ← List.append_assoc]
    simp [encodeRecord, appendVarint]

theorem encodeRecord_ne_nil (rec : Record) (more : Bytes) : encodeRecord [] rec ++ more ≠ [] := by
  have positive : 0 < (putVarint ((encodeBody rec).length : Int)).length := putUvarint_pos _
  intro none
  have size := congrArg List.length none
  simp only [encodeRecord, appendVarint, List.nil_append, List.length_append, List.length_nil] at size
  omega

theorem decodeRecords_encode {rs : List Record} (fits : ∀ rec ∈ rs, rec.Fits)
    (start : (rs.flatMap (encodeRecord [])).length < 9223372036854775808) :
    decodeRecords rs.length (rs.flatMap (encodeRecord [])) = .ok (rs.map Record.reread) := by
  induction rs with
  | nil => rfl
  | cons rec rs ih =>
    rw [List.flatMap_cons] at start ⊢
    have first := decodeRecord_encode (fits rec (by simp)) start
    have rest := ih (fun other member => fits other (List.mem_cons_of_mem _ member))
      (by rw [List.length_append] at start; omega)
    rw [List.length_cons, decodeRecords, if_neg (encodeRecord_ne_nil rec _), first]
    simp only [List.drop_left, rest, List.map_cons]

theorem decodeRecordBatch_records {raw : Bytes} (long : 61 ≤ raw.length) (magic : int8 (raw.getD 16 0).toNat = recordMagic) :
    (decodeRecordBatch raw).map RecordBatch.records = decodeRecords (declaredCount raw).toNat (raw.drop 61) := by
  have size : ¬ raw.length < 61 := by omega
  simp only [decodeRecordBatch, size, magic, ne_eq, not_true_eq_false, ↓reduceIte]
  split
  · rename_i failed
    rw [failed]
    rfl
  · rename_i done
    rw [done]
    rfl

structure Encoded (rs : List Record) (raw : Bytes) : Prop where
  length : raw.length = 61 + (rs.flatMap (encodeRecord [])).length
  lengthField : int32 (beUint (slice raw 8 12)) = raw.length - 12
  magic : int8 (raw.getD 16 0).toNat = recordMagic
  lastOffsetDelta : int32 (beUint (slice raw 23 27)) = rs.length - 1
  count : declaredCount raw = rs.length
  body : raw.drop 61 = rs.flatMap (encodeRecord [])

theorem length_le_flatMap_encodeRecord (rs : List Record) : rs.length ≤ (rs.flatMap (encodeRecord [])).length := by
  induction rs with
  | nil => simp
  | cons rec rs ih =>
    have positive := List.length_pos_of_ne_nil (encodeRecord_ne_nil rec [])
    rw [List.append_nil] at positive
    rw [List.flatMap_cons, List.length_append, List.length_cons]
    omega

theorem getD_of_slice {raw : Bytes} {i : Nat} {b : UInt8} (single : slice raw i (i + 1) = [b]) : raw.getD i 0 = b := by
  have head := congrArg List.head? single
  rw [slice, Nat.add_sub_cancel_left, List.head?_take, if_neg (by omega), List.head?_drop, List.head?_cons] at head
  rw [List.getD_eq_getElem?_getD, head, Option.getD_some]

def encodedDelta (b : RecordBatch) : Int :=
  if b.lastOffsetDelta = 0 ∧ 0 < b.records.length then int32 (b.records.length - 1) else b.lastOffsetDelta

def encodedCRC (b : RecordBatch) : Nat :=
  calculateRecordBatchCRC (encodeAfterCRC b (encodedDelta b) (b.records.flatMap (encodeRecord [])))

def encodedLength (b : RecordBatch) : Int := int32 (49 + int32 (b.records.flatMap (encodeRecord [])).length)

theorem encodedLength_eq (b : RecordBatch) :
    encodedLength b = int32 (49 + ((b.records.flatMap (encodeRecord [])).length : Int)) := by
  unfold encodedLength int32
  omega

def batchParts (b : RecordBatch) : List Bytes :=
  [putInt 8 b.baseOffset, putInt 4 (encodedLength b), putInt 4 b.partitionLeaderEpoch, putInt 1 recordMagic,
    putBE 4 (encodedCRC b), putInt 2 b.attributes, putInt 4 (encodedDelta b), putInt 8 b.baseTimestamp,
    putInt 8 b.maxTimestamp, putInt 8 b.producerID, putInt 2 b.producerEpoch, putInt 4 b.baseSequence,
    putBE 4 b.records.length, b.records.flatMap (encodeRecord [])]

theorem encodeRecordBatch_eq (b : RecordBatch) : encodeRecordBatch b =
    if 12 + encodedLength b < 0 then .error (.panic "makeslice: cap out of range") else .ok (batchParts b).flatten := by
  rw [encodeRecordBatch, encodedLength]
  simp only [foldl_encodeRecord, List.nil_append]
  congr 2
  simp [batchParts, encodedCRC, encodedDelta, encodedLength, encodeAfterCRC]

structure Laid (b : RecordBatch) (raw : Bytes) : Prop where
  size : raw.length = 61 + (b.records.flatMap (encodeRecord [])).length
  baseOffset : slice raw 0 8 = putInt 8 b.baseOffset
  length : slice raw 8 12 = putInt 4 (encodedLength b)
  partitionLeaderEpoch : slice raw 12 16 = putInt 4 b.partitionLeaderEpoch
  magic : raw.getD 16 0 = 2
  crc : slice raw 17 21 = putBE 4 (encodedCRC b)
  attributes : slice raw 21 23 = putInt 2 b.attributes
  lastOffsetDelta : slice raw 23 27 = putInt 4 (encodedDelta b)
  baseTimestamp : slice raw 27 35 = putInt 8 b.baseTimestamp
  maxTimestamp : slice raw 35 43 = putInt 8 b.maxTimestamp
  producerID : slice raw 43 51 = putInt 8 b.producerID
  producerEpoch : slice raw 51 53 = putInt 2 b.producerEpoch
  baseSequence : slice raw 53 57 = putInt 4 b.baseSequence
  count : slice raw 57 61 = putBE 4 b.records.length
  body : raw.drop 61 = b.records.flatMap (encodeRecord [])

theorem batchParts_laid (b : RecordBatch) : Laid b (batchParts b).flatten := by
  have part (k : Nat) (inside : k < 14) {i j : Nat} (start : ((batchParts b).take k).flatten.length = i)
      (stop : i + (batchParts b)[k].length = j) : slice (batchParts b).flatten i j = (batchParts b)[k] :=
    slice_flatten (batchParts b) k inside start stop
  have magic : slice (batchParts b).flatten 16 17 = [2] := by
    rw [part 3 (by decide) (by simp [batchParts]) (by simp [batchParts])]
    show putInt 1 recordMagic = [2]
    decide +kernel
  constructor
  · simp [batchParts]
    omega
  · exact part 0 (by decide) (by simp [batchParts]) (by simp [batchParts])
  · exact part 1 (by decide) (by simp [batchParts]) (by simp [batchParts])
  · exact part 2 (by decide) (by simp [batchParts]) (by simp [batchParts])
  · exact getD_of_slice magic
  · exact part 4 (by decide) (by simp [batchParts]) (by simp [batchParts])
  · exact part 5 (by decide) (by simp [batchParts]) (by simp [batchParts])
  · exact part 6 (by decide) (by simp [batchParts]) (by simp [batchParts])
  · exact part 7 (by decide) (by simp [batchParts]) (by simp [batchParts])
  · exact part 8 (by decide) (by simp [batchParts]) (by simp [batchParts])
  · exact part 9 (by decide) (by simp [batchParts]) (by simp [batchParts])
  · exact part 10 (by decide) (by simp [batchParts]) (by simp [batchParts])
  · exact part 11 (by decide) (by simp [batchParts]) (by simp [batchParts])
  · exact part 12 (by decide) (by simp [batchParts]) (by simp [batchParts])
  · rw [drop_flatten (batchParts b) 13 (by simp [batchParts])]
    simp [batchParts]

theorem Laid.magicField {b : RecordBatch} {raw : Bytes} (laid : Laid b raw) : int8 (raw.getD 16 0).toNat = recordMagic := by
  rw [laid.magic]
  decide +kernel

theorem Laid.declaredCount {b : RecordBatch} {raw : Bytes} (laid : Laid b raw) (some : b.records ≠ [])
    (small : b.records.length < 2147483648) : declaredCount raw = b.records.length := by
  have positive := List.length_pos_of_ne_nil some
  have count : int32 (beUint (slice raw 57 61)) = b.records.length := by
    have fits : b.records.length % 256 ^ 4 = b.records.length := by omega
    rw [laid.count, beUint_putBE, fits]
    apply int32_of_bounds <;> omega
  rw [Protocol.declaredCount, count, if_neg (by omega)]

theorem encodeRecordBatch_encoded {b : RecordBatch} (some : b.records ≠ []) (delta : b.lastOffsetDelta = 0)
    (small : (b.records.flatMap (encodeRecord [])).length + 49 < 2147483648) :
    ∃ raw, encodeRecordBatch b = .ok raw ∧ Encoded b.records raw := by
  have positive := List.length_pos_of_ne_nil some
  have most := length_le_flatMap_encodeRecord b.records
  have length : encodedLength b = 49 + ((b.records.flatMap (encodeRecord [])).length : Int) := by
    rw [encodedLength_eq, int32_of_bounds (by omega) (by omega)]
  have last : encodedDelta b = (b.records.length : Int) - 1 := by
    rw [encodedDelta, if_pos ⟨delta, positive⟩, int32_of_bounds (by omega) (by omega)]
  have laid := batchParts_laid b
  have size := laid.size
  rw [encodeRecordBatch_eq, if_neg (by omega)]
  refine ⟨_, rfl, size, ?_, laid.magicField, ?_, laid.declaredCount some (by omega), laid.body⟩
  · rw [laid.length, length, int32_beUint_putInt (by omega) (by omega)]
    omega
  · rw [laid.lastOffsetDelta, last, int32_beUint_putInt (by omega) (by omega)]

theorem Encoded.decode {rs : List Record} {raw : Bytes} (encoded : Encoded rs raw) (fits : ∀ rec ∈ rs, rec.Fits)
    (start : raw.length < 9223372036854775808) :
    (decodeRecordBatch raw).map RecordBatch.records = .ok (rs.map Record.reread) := by
  have size := encoded.length
  rw [decodeRecordBatch_records (by omega) encoded.magic, encoded.count, encoded.body, Int.toNat_natCast]
  exact decodeRecords_encode fits (by omega)

end PocketKafka.Protocol
