import PocketKafka.Lib.Bytes
import PocketKafka.Lib.Crc
import PocketKafka.Lib.Failure

namespace PocketKafka.Coordinator

open Bytes

def offsetWALVersion : UInt8 := 1
def walRecordCommit : UInt8 := 1
def maxWALRecordSize : Nat := 1048576

structure WalRecord where
  type : UInt8
  group : Bytes
  topic : Bytes
  partition : Int32
  offset : Int64
  leaderEpoch : Int32
  metadata : Option Bytes
  timestamp : Int64
  deriving DecidableEq, Repr

def appendWALString (dst s : Bytes) : Bytes := dst ++ putBE 2 s.length ++ s

def appendWALNullableString (dst : Bytes) : Option Bytes → Bytes
  | none => dst ++ putBE 2 0xffff
  | some s => appendWALString dst s

namespace WalRecord

def payload (rec : WalRecord) : Bytes :=
  let p := [offsetWALVersion, rec.type]
  let p := appendWALString p rec.group
  let p := appendWALString p rec.topic
  let p := p ++ putBE 4 rec.partition.toUInt32.toNat
  let p := p ++ putBE 8 rec.offset.toUInt64.toNat
  let p := p ++ putBE 4 rec.leaderEpoch.toUInt32.toNat
  let p := appendWALNullableString p rec.metadata
  p ++ putBE 8 rec.timestamp.toUInt64.toNat

def encodeWALRecord (rec : WalRecord) : Bytes :=
  putBE 4 rec.payload.length ++ rec.payload ++ putBE 4 (crc32c rec.payload)

end WalRecord

def corrupt (what : String) : Failure := .error ("offset WAL corrupt: " ++ what)

def readFixed (p : Bytes) (pos width : Nat) (what : String) : Except Failure Nat :=
  if p.length < pos + width then .error (corrupt what) else .ok (beUint (slice p pos (pos + width)))

def readWALString (p : Bytes) (pos : Nat) : Except Failure (Bytes × Nat) :=
  match readFixed p pos 2 "truncated string length" with
  | .error failure => .error failure
  | .ok n =>
    if p.length < pos + 2 + n then .error (corrupt "truncated string")
    else .ok (slice p (pos + 2) (pos + 2 + n), pos + 2 + n)

def readWALNullableString (p : Bytes) (pos : Nat) : Except Failure (Option Bytes × Nat) :=
  match readFixed p pos 2 "truncated nullable string length" with
  | .error failure => .error failure
  | .ok n => if n = 0xffff then .ok (none, pos + 2) else (readWALString p pos).map fun (s, next) => (some s, next)

def decodeWALPayload (p : Bytes) : Except Failure WalRecord :=
  match p with
  | version :: type :: _ =>
    if version ≠ offsetWALVersion then .error (corrupt ("unsupported version " ++ toString version.toNat))
    else do
      let (group, pos) ← readWALString p 2
      let (topic, pos) ← readWALString p pos
      let partition ← readFixed p pos 4 "truncated partition"
      let pos := pos + 4
      let offset ← readFixed p pos 8 "truncated offset"
      let pos := pos + 8
      let leaderEpoch ← readFixed p pos 4 "truncated leader epoch"
      let (metadata, pos) ← readWALNullableString p (pos + 4)
      let timestamp ← readFixed p pos 8 "truncated timestamp"
      pure ⟨type, group, topic, .ofUInt32 (.ofNat partition), .ofUInt64 (.ofNat offset), .ofUInt32 (.ofNat leaderEpoch),
        metadata, .ofUInt64 (.ofNat timestamp)⟩
  | _ => .error (corrupt "short payload")

def hex (n : Nat) : String := String.ofList (List.leftpad 8 '0' (Nat.toDigits 16 n))

/-- The records of the file up to a tail that is too short for one. -/
def replay (file : Bytes) : Except Failure (List WalRecord) :=
  if file.length < 4 then .ok []
  else
    let n := beUint (file.take 4)
    if n ≤ 0 ∨ maxWALRecordSize < n then .error (corrupt ("bad record length " ++ toString n))
    else if file.length < 4 + n then .ok []
    else if file.length < 4 + n + 4 then .ok []
    else
      let payload := slice file 4 (4 + n)
      let want := beUint (slice file (4 + n) (4 + n + 4))
      if crc32c payload ≠ want then
        .error (corrupt ("checksum mismatch (got " ++ hex (crc32c payload) ++ " want " ++ hex want ++ ")"))
      else
        match decodeWALPayload payload with
        | .error failure => .error failure
        | .ok rec => (replay (file.drop (4 + n + 4))).map (rec :: ·)
termination_by file.length
decreasing_by simp; omega

variable {p chunk rest : Bytes} {pos : Nat}

theorem drop_next (tail : p.drop pos = chunk ++ rest) : p.drop (pos + chunk.length) = rest := by
  rw [← List.drop_drop, tail, List.drop_left]

theorem slice_next (tail : p.drop pos = chunk ++ rest) : slice p pos (pos + chunk.length) = chunk := by
  rw [slice, tail, Nat.add_sub_cancel_left, List.take_left]

theorem length_next (tail : p.drop pos = chunk ++ rest) (some : 0 < chunk.length) : pos + chunk.length ≤ p.length := by
  have length := congrArg List.length tail
  rw [List.length_drop, List.length_append] at length
  omega

theorem readFixed_next {width n : Nat} (what : String) (tail : p.drop pos = putBE width n ++ rest) (small : n < 256 ^ width)
    (some : 0 < width) : readFixed p pos width what = .ok n := by
  have inside := length_next tail (by rwa [putBE_length])
  have found := slice_next tail
  rw [putBE_length] at inside found
  rw [readFixed, if_neg (by omega), found, beUint_putBE, Nat.mod_eq_of_lt small]

theorem readWALString_next {s : Bytes} (tail : p.drop pos = (putBE 2 s.length ++ s) ++ rest) (small : s.length < 65536) :
    readWALString p pos = .ok (s, pos + (putBE 2 s.length ++ s).length) := by
  have inside := length_next tail (by simp)
  rw [List.length_append, putBE_length] at inside
  rw [List.append_assoc] at tail
  have text := drop_next tail
  rw [putBE_length] at text
  rw [readWALString, readFixed_next _ tail small (by decide)]
  dsimp only
  rw [if_neg (by omega), slice_next text, List.length_append, putBE_length, Nat.add_assoc]

def nullable (s : Option Bytes) : Bytes := appendWALNullableString [] s

theorem appendWALNullableString_eq (dst : Bytes) (s : Option Bytes) : appendWALNullableString dst s = dst ++ nullable s := by
  cases s <;> simp [nullable, appendWALNullableString, appendWALString]

theorem readWALNullableString_next {s : Option Bytes} (tail : p.drop pos = nullable s ++ rest)
    (small : ∀ t ∈ s, t.length < 65535) : readWALNullableString p pos = .ok (s, pos + (nullable s).length) := by
  unfold readWALNullableString
  cases s with
  | none =>
    have mark : p.drop pos = putBE 2 0xffff ++ rest := tail
    rw [readFixed_next _ mark (by decide) (by decide)]
    rfl
  | some t =>
    have small := small t rfl
    have text : p.drop pos = (putBE 2 t.length ++ t) ++ rest := tail
    rw [readWALString_next text (by omega)]
    rw [List.append_assoc] at text
    rw [readFixed_next _ text (by omega) (by decide)]
    dsimp only
    rw [if_neg (by omega)]
    rfl

namespace WalRecord

variable {rec : WalRecord}

structure Fits (rec : WalRecord) : Prop where
  group : rec.group.length < 65536
  topic : rec.topic.length < 65536
  metadata : ∀ s ∈ rec.metadata, s.length < 65535

instance (rec : WalRecord) : Decidable rec.Fits :=
  decidable_of_iff (rec.group.length < 65536 ∧ rec.topic.length < 65536 ∧ ∀ s ∈ rec.metadata, s.length < 65535)
    ⟨fun h => ⟨h.1, h.2.1, h.2.2⟩, fun h => ⟨h.group, h.topic, h.metadata⟩⟩

theorem payload_eq (rec : WalRecord) : rec.payload =
    [offsetWALVersion, rec.type] ++ ((putBE 2 rec.group.length ++ rec.group) ++ ((putBE 2 rec.topic.length ++ rec.topic) ++
      (putBE 4 rec.partition.toUInt32.toNat ++ (putBE 8 rec.offset.toUInt64.toNat ++
        (putBE 4 rec.leaderEpoch.toUInt32.toNat ++ (nullable rec.metadata ++
          (putBE 8 rec.timestamp.toUInt64.toNat ++ []))))))) := by
  simp [payload, appendWALString, appendWALNullableString_eq]

theorem nullable_length_le {s : Option Bytes} (small : ∀ t ∈ s, t.length < 65535) : (nullable s).length ≤ 65536 := by
  cases s with
  | none => decide
  | some t =>
    have small := small t rfl
    simp [nullable, appendWALNullableString, appendWALString]
    omega

theorem payload_length_bounds (h : rec.Fits) : 0 < rec.payload.length ∧ rec.payload.length ≤ maxWALRecordSize := by
  have group := h.group
  have topic := h.topic
  have metadata := nullable_length_le h.metadata
  rw [payload_eq]
  simp [maxWALRecordSize]
  omega

theorem decode_payload (h : rec.Fits) : decodeWALPayload rec.payload = .ok rec := by
  have start : ∃ rest, rec.payload = offsetWALVersion :: rec.type :: rest := ⟨_, rec.payload_eq⟩
  have whole : rec.payload.drop 0 = _ := rec.payload_eq
  generalize rec.payload = p at start whole
  obtain ⟨_, rfl⟩ := start
  have group := drop_next whole
  change List.drop 2 _ = _ at group
  have topic := drop_next group
  have partition := drop_next topic
  have offset := drop_next partition
  rw [putBE_length] at offset
  have leaderEpoch := drop_next offset
  rw [putBE_length] at leaderEpoch
  have metadata := drop_next leaderEpoch
  rw [putBE_length] at metadata
  have timestamp := drop_next metadata
  simp only [decodeWALPayload, ne_eq, not_true_eq_false, if_false, bind, Except.bind, readWALString_next group h.group,
    readWALString_next topic h.topic,
    readFixed_next "truncated partition" partition rec.partition.toUInt32.toNat_lt (by decide),
    readFixed_next "truncated offset" offset rec.offset.toUInt64.toNat_lt (by decide),
    readFixed_next "truncated leader epoch" leaderEpoch rec.leaderEpoch.toUInt32.toNat_lt (by decide),
    readWALNullableString_next metadata h.metadata,
    readFixed_next "truncated timestamp" timestamp rec.timestamp.toUInt64.toNat_lt (by decide)]
  simp only [UInt32.ofNat_toNat, UInt64.ofNat_toNat, pure, Except.pure]

theorem replay_encode (h : rec.Fits) (rest : Bytes) :
    replay (rec.encodeWALRecord ++ rest) = (replay rest).map (rec :: ·) := by
  obtain ⟨some, small⟩ := payload_length_bounds h
  have bound : maxWALRecordSize < 256 ^ 4 := by decide
  have parts : rec.encodeWALRecord ++ rest =
      putBE 4 rec.payload.length ++ (rec.payload ++ (putBE 4 (crc32c rec.payload) ++ rest)) := by
    simp [encodeWALRecord]
  generalize rec.encodeWALRecord ++ rest = file at parts
  have length : beUint (file.take 4) = rec.payload.length := by
    rw [parts, List.take_left' (putBE_length 4 _), beUint_putBE, Nat.mod_eq_of_lt (by omega)]
  have size : file.length = 4 + rec.payload.length + 4 + rest.length := by
    rw [parts]
    simp
    omega
  have whole : file.drop 0 = _ := parts
  have payload := drop_next whole
  rw [putBE_length, Nat.zero_add] at payload
  have crc := drop_next payload
  have after := drop_next crc
  have digest : crc32c rec.payload < 256 ^ 4 := crc32c_lt _
  have checksum := slice_next crc
  rw [putBE_length] at after checksum
  rw [replay, if_neg (by omega)]
  dsimp only
  rw [length, if_neg (by omega), if_neg (by omega), if_neg (by omega), slice_next payload, checksum, beUint_putBE,
    Nat.mod_eq_of_lt digest, if_neg (not_not.mpr rfl), decode_payload h, after]

theorem replay_torn (rec : WalRecord) (h : rec.Fits) {cut : Nat} (short : cut < rec.encodeWALRecord.length) :
    replay (rec.encodeWALRecord.take cut) = .ok [] := by
  obtain ⟨some, small⟩ := payload_length_bounds h
  have bound : maxWALRecordSize < 256 ^ 4 := by decide
  have size : rec.encodeWALRecord.length = 4 + rec.payload.length + 4 := by
    simp [encodeWALRecord]
    omega
  have cutSize : (rec.encodeWALRecord.take cut).length = cut := by
    rw [List.length_take]
    omega
  rw [replay, cutSize]
  split
  · rfl
  · have length : beUint ((rec.encodeWALRecord.take cut).take 4) = rec.payload.length := by
      rw [List.take_take, min_eq_left (by omega), encodeWALRecord, List.append_assoc, List.take_left' (putBE_length 4 _),
        beUint_putBE, Nat.mod_eq_of_lt (by omega)]
    dsimp only
    rw [length, if_neg (by omega)]
    split
    · rfl
    · rw [if_pos (by omega)]

end WalRecord

def batchBytes (recs : List WalRecord) : Bytes := (recs.map WalRecord.encodeWALRecord).flatten

theorem batchBytes_append (recs more : List WalRecord) : batchBytes (recs ++ more) = batchBytes recs ++ batchBytes more := by
  simp [batchBytes]

theorem replay_batchBytes {recs : List WalRecord} (fit : ∀ rec ∈ recs, rec.Fits) (rest : Bytes) :
    replay (batchBytes recs ++ rest) = (replay rest).map (recs ++ ·) := by
  induction recs with
  | nil =>
    show replay rest = (replay rest).map id
    cases replay rest <;> rfl
  | cons rec recs ih =>
    have first := fit rec List.mem_cons_self
    have others := ih fun r member => fit r (List.mem_cons_of_mem rec member)
    rw [batchBytes, List.map_cons, List.flatten_cons, List.append_assoc, WalRecord.replay_encode first]
    rw [batchBytes] at others
    rw [others]
    cases replay rest <;> rfl

theorem replay_nil : replay [] = .ok [] := by
  rw [replay]
  rfl

theorem batchBytes_cons (rec : WalRecord) (recs : List WalRecord) :
    batchBytes (rec :: recs) = rec.encodeWALRecord ++ batchBytes recs := by
  simp [batchBytes]

theorem take_batchBytes {recs : List WalRecord} (fit : ∀ rec ∈ recs, rec.Fits) (cut : Nat) :
    ∃ n tail, (batchBytes recs).take cut = batchBytes (recs.take n) ++ tail ∧ replay tail = .ok [] ∧
      ∀ k < recs.length, k < n ↔ (batchBytes (recs.take (k + 1))).length ≤ cut := by
  induction recs generalizing cut with
  | nil => exact ⟨0, [], by simp [batchBytes], replay_nil, fun k inside => absurd inside (Nat.not_lt_zero k)⟩
  | cons rec recs ih =>
    have first := fit rec List.mem_cons_self
    by_cases short : cut < rec.encodeWALRecord.length
    · refine ⟨0, rec.encodeWALRecord.take cut, ?_, rec.replay_torn first short, fun k _ => ?_⟩
      · rw [batchBytes_cons, List.take_append_of_le_length (by omega)]
        rfl
      · rw [List.take_succ_cons, batchBytes_cons, List.length_append]
        omega
    · obtain ⟨n, tail, cutHere, torn, room⟩ :=
        ih (fun r member => fit r (List.mem_cons_of_mem rec member)) (cut - rec.encodeWALRecord.length)
      refine ⟨n + 1, tail, ?_, torn, fun k inside => ?_⟩
      · rw [batchBytes_cons, List.take_append, List.take_of_length_le (by omega), cutHere, List.take_succ_cons,
          batchBytes_cons, List.append_assoc]
      · rw [List.take_succ_cons, batchBytes_cons, List.length_append]
        cases k with
        | zero =>
          have none : (batchBytes (recs.take 0)).length = 0 := rfl
          omega
        | succ k =>
          have later := room k (by simpa using inside)
          omega

/-- The replay gives back the records that were written, and after a cut those that are whole. -/
theorem replay_reads_whole_records {recs : List WalRecord}
    (short : ∀ rec ∈ recs, rec.group.length < 65535 ∧ rec.topic.length < 65535 ∧ ∀ s ∈ rec.metadata, s.length < 65535) :
    replay (batchBytes recs) = .ok recs ∧
      ∀ cut, ∃ n, replay ((batchBytes recs).take cut) = .ok (recs.take n) ∧
        ∀ k < recs.length, k < n ↔ (batchBytes (recs.take (k + 1))).length ≤ cut := by
  have fit : ∀ rec ∈ recs, rec.Fits := by
    intro rec member
    obtain ⟨group, topic, metadata⟩ := short rec member
    exact ⟨by omega, by omega, metadata⟩
  constructor
  · have whole := replay_batchBytes fit []
    rw [List.append_nil, replay_nil] at whole
    rw [whole]
    exact congrArg Except.ok (List.append_nil recs)
  · intro cut
    obtain ⟨n, tail, parts, torn, room⟩ := take_batchBytes fit cut
    refine ⟨n, ?_, room⟩
    rw [parts, replay_batchBytes (fun rec member => fit rec (List.mem_of_mem_take member)), torn]
    exact congrArg Except.ok (List.append_nil _)

theorem replay_reads_whole_records_two :
    ∃ recs : List WalRecord, recs.length = 2 ∧ replay (batchBytes recs) = .ok recs ∧
      ∃ n, replay ((batchBytes recs).take 50) = .ok (recs.take n) ∧ 0 < n ∧ ¬ 1 < n := by
  let recs : List WalRecord := [⟨walRecordCommit, ascii "g", ascii "t", 0, 7, 0, none, 1⟩,
    ⟨walRecordCommit, ascii "g", ascii "t", 1, 9, 0, some (ascii "m"), 2⟩]
  have short : ∀ rec ∈ recs, rec.group.length < 65535 ∧ rec.topic.length < 65535 ∧ ∀ s ∈ rec.metadata, s.length < 65535 := by
    decide
  obtain ⟨whole, cuts⟩ := replay_reads_whole_records short
  obtain ⟨n, read, room⟩ := cuts 50
  refine ⟨recs, rfl, whole, n, read, (room 0 (by decide)).mpr (by decide +kernel), ?_⟩
  rw [room 1 (by decide)]
  decide +kernel

/-- What the replay reads is all that stands in the file. -/
def Whole (file : Bytes) : Prop := (replay file).map batchBytes = .ok file

end PocketKafka.Coordinator
