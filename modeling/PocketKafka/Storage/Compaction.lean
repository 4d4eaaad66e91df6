import PocketKafka.Lib.Survivors
import PocketKafka.Protocol.RecordBatch
import PocketKafka.Storage.Partition

namespace PocketKafka.Storage

open Bytes Protocol Survivors

def compactBatchSize : Nat := 500

def compactBatchBytes : Nat := 1048576

def compactReadBytes : Int := 1048576

def compactMaxKeyBytes : Nat := 268435456

section

variable {σ : Type} (fn : σ → RecordBatch → Except Failure σ)

/-- Goes through one page of a segment. Undecodable batches are passed over. -/
def pageLoop (raw : Bytes) (next : Int) (advanced : Bool) (state : σ) : Except Failure (Int × Bool × σ) :=
  if 12 ≤ raw.length then
    match parseRecordBatchHeader raw with
    | .error _ => .ok (next, advanced, state)
    | .ok h =>
      let total := batchTotalSize h
      if total ≤ 0 ∨ (raw.length : Int) < total then .ok (next, advanced, state)
      else
        match decodeRecordBatch (raw.take total.toNat) with
        | .error (.error _) => pageLoop (raw.drop total.toNat) next advanced state
        | .error failure => .error failure
        | .ok b =>
          match fn state b with
          | .error failure => .error failure
          | .ok state =>
            pageLoop (raw.drop total.toNat) (int64 (h.baseOffset + h.lastOffsetDelta + 1)) true state
  else .ok (next, advanced, state)
termination_by raw.length
decreasing_by
  · simp only [List.length_drop]
    omega
  · simp only [List.length_drop]
    omega

/-- Every page that is not the last one moves `next` to the end of another batch, so a scan that goes
    through more pages than the log has bytes never ends. -/
def scanLoop (seg : Segment) (stop : Int) : Nat → Int → σ → Except Failure σ
  | 0, _, _ => .error .diverges
  | pages + 1, next, state =>
    if next < stop then
      match seg.read next compactReadBytes with
      | (_, some failure) => .error failure
      | (raw, none) =>
        match pageLoop fn raw next false state with
        | .error failure => .error failure
        | .ok (_, false, state) => .ok state
        | .ok (next, true, state) => scanLoop seg stop pages next state
    else .ok state

def forEachBatchRange (seg : Segment) (start stop : Int) (state : σ) : Except Failure σ :=
  scanLoop fn seg stop (seg.log.length + 2) start state

def forEachBatch (segs : List Segment) (stop : Int) (state : σ) : Except Failure σ :=
  segs.foldlM (fun state seg =>
    let limit := if 0 < stop ∧ stop < seg.logEndOffset then stop else seg.logEndOffset
    forEachBatchRange fn seg seg.baseOffset limit state) state

end

structure CompactionPlan where
  last : AList (fun _ : Bytes => Nat)
  total : Nat
  planned : Nat
  keyBytes : Nat

/-- The state of the planning pass: `nulls` records without a key among the first `idx`. -/
structure PlanState where
  last : AList (fun _ : Bytes => Nat)
  idx : Nat
  nulls : Nat
  keyBytes : Nat

def planRecord (state : PlanState) (rec : Record) : Except Failure PlanState :=
  match rec.key with
  | none => .ok { state with nulls := state.nulls + 1, idx := state.idx + 1 }
  | some k =>
    let keyBytes := if k ∈ state.last then state.keyBytes else state.keyBytes + k.length
    if k ∉ state.last ∧ compactMaxKeyBytes < keyBytes then
      let limit := compactMaxKeyBytes
      .error (.error s!"compaction key state above {limit} bytes")
    else .ok { state with last := state.last.insert k state.idx, idx := state.idx + 1, keyBytes := keyBytes }

def planCompaction (segs : List Segment) (stop : Int) : Except Failure CompactionPlan :=
  match forEachBatch (fun state b => b.records.foldlM planRecord state) segs stop ⟨∅, 0, 0, 0⟩ with
  | .error failure => .error failure
  | .ok state => .ok ⟨state.last, state.idx, state.nulls + state.last.keys.length, state.keyBytes⟩

/-- The writer of the staging directory. It owns the segments that it has filled and the one it fills. -/
structure CompactWriter where
  maxBytes : Int
  interval : Int
  base : Int
  seg : Segment
  done : List Segment
  batch : List Record
  pendingBytes : Nat
  flushes : Nat

abbrev Clock := Nat → Int

def newCompactWriter (maxBytes interval : Int) : Except Failure CompactWriter :=
  match openSegment [] 0 maxBytes interval with
  | .error failure => .error failure
  | .ok seg => .ok ⟨maxBytes, interval, 0, seg, [], [], 0, 0⟩

namespace CompactWriter

def segments (w : CompactWriter) : List Segment := w.done ++ [w.seg]

def roll (w : CompactWriter) : Except Failure CompactWriter :=
  match openSegment (w.segments.map Segment.files) w.base w.maxBytes w.interval with
  | .error failure => .error failure
  | .ok seg => .ok { w with done := w.segments, seg := seg }

def pending (w : CompactWriter) (now : Int) : RecordBatch where
  baseOffset := 0
  partitionLeaderEpoch := 0
  magic := 0
  crc := 0
  attributes := 0
  lastOffsetDelta := 0
  baseTimestamp := now
  maxTimestamp := now
  producerID := -1
  producerEpoch := -1
  baseSequence := -1
  records := w.batch

def flush (clock : Clock) (w : CompactWriter) : Except Failure CompactWriter :=
  if w.batch = [] then .ok w
  else
    match encodeRecordBatch (w.pending (clock w.flushes)) with
    | .error failure => .error failure
    | .ok raw =>
      match w.seg.append raw with
      | .error failure => .error failure
      | .ok (_, seg) =>
        let w := { w with seg := seg, batch := [], pendingBytes := 0, flushes := w.flushes + 1 }
        if seg.full then roll { w with base := seg.nextOffset, seg := seg.sync } else .ok w

def renumbered (rec : Record) (n : Nat) : Record :=
  ⟨0, 0, int32 n, rec.key, rec.value, rec.headers⟩

def add (clock : Clock) (w : CompactWriter) (rec : Record) : Except Failure CompactWriter :=
  let w := { w with
    batch := w.batch ++ [renumbered rec w.batch.length]
    pendingBytes := w.pendingBytes + (rec.key.getD []).length + (rec.value.getD []).length }
  if w.batch.length < compactBatchSize ∧ w.pendingBytes < compactBatchBytes then .ok w else w.flush clock

def finish (clock : Clock) (w : CompactWriter) : Except Failure CompactWriter :=
  match w.flush clock with
  | .error failure => .error failure
  | .ok w => .ok { w with seg := w.seg.sync }

end CompactWriter

def stageRecord (clock : Clock) (plan : CompactionPlan) (state : Nat × CompactWriter) (rec : Record) :
    Except Failure (Nat × CompactWriter) :=
  let (idx, w) := state
  if keeps Record.key plan.last idx rec then
    match w.add clock rec with
    | .error failure => .error failure
    | .ok w => .ok (idx + 1, w)
  else .ok (idx + 1, w)

def stageCompaction (clock : Clock) (maxSegBytes indexInterval : Int) (segs : List Segment) (stop : Int)
    (plan : CompactionPlan) : Except Failure CompactWriter :=
  match newCompactWriter maxSegBytes indexInterval with
  | .error failure => .error failure
  | .ok w =>
    match forEachBatch (fun state b => b.records.foldlM (stageRecord clock plan) state) segs stop (0, w) with
    | .error failure => .error failure
    | .ok (_, w) => .ok w

namespace Partition

def compactionSource (p : Partition) : List Segment × Int :=
  if p.orderedSegments.any Segment.isRemote then ([], 0) else (p.orderedSegments, p.nextOffset)

/-- The first half of `Compact`, under the read lock: nothing if there is nothing to do, else the
    staged survivors and the end of what was staged. -/
def planAndStage (clock : Clock) (p : Partition) : Except Failure (Option (CompactWriter × Int)) :=
  let (segs, stop) := p.compactionSource
  if segs = [] then .ok none
  else
    match planCompaction segs stop with
    | .error failure => .error failure
    | .ok plan =>
      if plan.total ≤ plan.planned then .ok none
      else
        match stageCompaction clock p.maxSegmentBytes p.indexInterval segs stop plan with
        | .error failure => .error failure
        | .ok w => .ok (some (w, stop))

def closeSegments (p : Partition) : Partition := { p with activeSegment := none, closedSegments := [] }

/-- The second half, under the write lock: what was appended since goes behind the survivors, and the
    staged files take the place of the old ones. -/
def installCompaction (clock : Clock) (p : Partition) (w : CompactWriter) (snapshotEnd : Int) :
    Except Failure Unit × Partition :=
  match p.activeSegment with
  | none => (.error (.error "compaction: no active segment"), p)
  | some active =>
    match forEachBatchRange (fun w b => b.records.foldlM (CompactWriter.add clock) w) active snapshotEnd p.nextOffset w with
    | .error failure => (.error failure, p)
    | .ok w =>
      match w.finish clock with
      | .error failure => (.error failure, p)
      | .ok w => p.closeSegments.recover (w.segments.map Segment.files)

def compact (clock : Clock) (p : Partition) : Except Failure Unit × Partition :=
  if p.compacting then (.error (.error "compaction already running"), p)
  else
    match p.planAndStage clock with
    | .error failure => (.error failure, p)
    | .ok none => (.ok (), p)
    | .ok (some (w, snapshotEnd)) => p.installCompaction clock w snapshotEnd

end Partition

end PocketKafka.Storage
