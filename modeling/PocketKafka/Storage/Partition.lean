import PocketKafka.Storage.Segment
import PocketKafka.Storage.Idempotence

namespace PocketKafka.Storage

open Bytes

/-- A partition. Its directory is made of the files that its open segments own. -/
structure Partition where
  activeSegment : Option Segment
  closedSegments : List Segment
  nextOffset : Int
  highWatermark : Int
  maxSegmentBytes : Int
  indexInterval : Int
  idempotence : PartitionIdempotenceTracker
  remoteFetch : Option (String → Except Failure Bytes)
  compacting : Bool

structure Fsync where
  log : Except Failure Unit
  index : Except Failure Unit

def uniq : List Int → List Int
  | [] => []
  | [b] => [b]
  | a :: b :: rest => if a = b then uniq (b :: rest) else a :: uniq (b :: rest)

def listedBases (dir : Dir) : List Int :=
  dir.flatMap (fun files =>
    (files.log.map (fun _ => files.baseOffset)).toList ++ (files.remote.map (fun _ => files.baseOffset)).toList)

def openSegments (dir : Dir) (maxSegmentBytes indexInterval : Int) :
    List Int → List Segment → Except Failure Unit × List Segment
  | [], opened => (.ok (), opened)
  | base :: rest, opened =>
    match openSegment dir base maxSegmentBytes indexInterval with
    | .error failure => (.error failure, opened)
    | .ok seg => openSegments dir maxSegmentBytes indexInterval rest (opened ++ [seg])

namespace Partition

def orderedSegments (p : Partition) : List Segment := p.closedSegments ++ p.activeSegment.toList

def dir (p : Partition) : Dir := p.orderedSegments.map Segment.files

def recover (p : Partition) (dir : Dir) : Except Failure Unit × Partition :=
  let bases := (listedBases dir).mergeSort (fun a b => decide (a ≤ b))
  match openSegments dir p.maxSegmentBytes p.indexInterval (uniq bases) p.closedSegments with
  | (.error failure, opened) => (.error failure, { p with closedSegments := opened })
  | (.ok (), opened) =>
    match opened.getLast? with
    | some last => (.ok (), { p with
        activeSegment := some last
        closedSegments := opened.dropLast
        nextOffset := last.nextOffset
        highWatermark := last.nextOffset })
    | none =>
      match openSegment dir 0 p.maxSegmentBytes p.indexInterval with
      | .error failure => (.error failure, { p with closedSegments := opened })
      | .ok seg => (.ok (), { p with
          activeSegment := some seg
          closedSegments := opened
          nextOffset := seg.nextOffset
          highWatermark := seg.nextOffset })

def roll (p : Partition) : Except Failure Unit × Partition :=
  let closed := { p with closedSegments := p.closedSegments ++ p.activeSegment.toList }
  match openSegment p.dir p.nextOffset p.maxSegmentBytes p.indexInterval with
  | .error failure => (.error failure, closed)
  | .ok seg => (.ok (), { closed with activeSegment := some seg })

def append (p : Partition) (raw : Bytes) : Except Failure Int × Partition :=
  match p.activeSegment with
  | none => (.error (.panic "nil pointer dereference"), p)
  | some active =>
    match if active.full then p.roll else (.ok (), p) with
    | (.error failure, p) => (.error failure, p)
    | (.ok (), p) =>
      match p.activeSegment with
      | none => (.error (.panic "nil pointer dereference"), p)
      | some active =>
        match active.append raw with
        | .error failure => (.error failure, p)
        | .ok (assigned, active) => (.ok assigned, { p with
            activeSegment := some active
            nextOffset := active.nextOffset
            highWatermark := active.nextOffset })

def sync (p : Partition) (fsync : Fsync) : Except Failure Unit × Partition :=
  match p.activeSegment with
  | none => (.ok (), p)
  | some active =>
    if active.syncedBytes = active.size then (.ok (), p)
    else
      match if active.logFile.isSome then fsync.log else .ok () with
      | .error failure => (.error failure, p)
      | .ok () => (if active.index.isSome then fsync.index else .ok (), { p with activeSegment := some active.sync })

def appendSynced (p : Partition) (raw : Bytes) (sync : Bool) (fsync : Fsync) : Except Failure Int × Partition :=
  match p.append raw with
  | (.error failure, p) => (.error failure, p)
  | (.ok off, p) =>
    if sync then
      match p.sync fsync with
      | (.error failure, p) => (.error failure, p)
      | (.ok (), p) => (.ok off, p)
    else (.ok off, p)

def appendIdempotentSynced (p : Partition) (pid epoch baseSeq : Int) (raw : Bytes) (sync : Bool) (fsync : Fsync) :
    Except Failure Int × Partition :=
  let (result, tracker, p) := p.idempotence.validateAndAppend pid epoch baseSeq
    (fun p : Partition => p.appendSynced raw sync fsync) p
  (result, { p with idempotence := tracker })

def truncateTo (p : Partition) (target : Int) : Except Failure Unit × Partition :=
  let target := if target ≤ 0 then 0 else target
  if p.nextOffset ≤ target then (.ok (), p)
  else
    let kept := p.closedSegments.filter (fun seg => decide (seg.baseOffset < target))
    match p.activeSegment with
    | none => (.error (.panic "nil pointer dereference"), { p with closedSegments := kept })
    | some active =>
      let chosen : Except Failure Segment × Partition :=
        if target ≤ active.baseOffset then
          match kept.getLast? with
          | some last => (.ok last, { p with closedSegments := kept.dropLast, activeSegment := some last })
          | none =>
            match openSegment [] 0 p.maxSegmentBytes p.indexInterval with
            | .error failure => (.error failure, { p with closedSegments := kept })
            | .ok seg => (.ok seg, { p with closedSegments := kept, activeSegment := some seg })
        else (.ok active, { p with closedSegments := kept })
      match chosen with
      | (.error failure, p) => (.error failure, p)
      | (.ok active, p) =>
        match active.truncateTo target with
        | .error failure => (.error failure, p)
        | .ok active => (.ok (), { p with
            activeSegment := some active
            nextOffset := target
            highWatermark := target })

def readSegments (maxBytes : Int) : List Segment → Int → Bytes → Bytes × Option Failure
  | [], _, out => (out, none)
  | seg :: rest, startOffset, out =>
    if maxBytes ≤ int32 out.length then (out, none)
    else if seg.isRemote then
      let base := seg.baseOffset
      (out, some (.error s!"segment {base} is remote and was not restored"))
    else
      match seg.read startOffset (int32 (maxBytes - int32 out.length)) with
      | (_, some failure) => (out, some failure)
      | (data, none) => readSegments maxBytes rest seg.logEndOffset (out ++ data)

def readLocked (p : Partition) (startOffset maxBytes : Int) : Bytes × Int × Option Failure :=
  let segs := p.orderedSegments.dropWhile (fun seg => decide (¬ startOffset < seg.logEndOffset))
  let (out, failure) := readSegments maxBytes segs startOffset []
  (out, p.highWatermark, failure)

def restoreSegment (p : Partition) (seg : Segment) : Except Failure Segment :=
  match p.remoteFetch, seg.remote with
  | none, _ =>
    let base := seg.baseOffset
    .error (.error s!"remote segment {base} has no fetcher configured")
  | some _, none => .error (.error "no such file or directory")
  | some fetch, some stub =>
    match fetch stub.logKey, fetch stub.indexKey with
    | .error failure, _ => .error failure
    | .ok _, .error failure => .error failure
    | .ok logData, .ok indexData =>
      openSegment [⟨seg.baseOffset, some logData, some indexData, none⟩] seg.baseOffset seg.maxSegmentBytes
        seg.indexInterval

def restoreSegments (p : Partition) (startOffset : Int) : List Segment → Option Failure × List Segment
  | [] => (none, [])
  | seg :: rest =>
    if startOffset < seg.logEndOffset ∧ seg.isRemote then
      match p.restoreSegment seg with
      | .error failure => (some failure, seg :: rest)
      | .ok restored =>
        let (failure, others) := restoreSegments p startOffset rest
        (failure, restored :: others)
    else
      let (failure, others) := restoreSegments p startOffset rest
      (failure, seg :: others)

def read (p : Partition) (startOffset maxBytes : Int) : (Bytes × Int × Option Failure) × Partition :=
  let startOffset := if startOffset < 0 then 0 else startOffset
  if p.highWatermark ≤ startOffset then (([], p.highWatermark, none), p)
  else if p.orderedSegments.any (fun seg => decide (startOffset < seg.logEndOffset) && seg.isRemote) then
    let (failure, segs) := p.restoreSegments startOffset p.orderedSegments
    let restored := { p with
      closedSegments := segs.take p.closedSegments.length
      activeSegment := segs[p.closedSegments.length]? }
    match failure with
    | some failure => (([], p.highWatermark, some failure), restored)
    | none => (restored.readLocked startOffset maxBytes, restored)
  else (p.readLocked startOffset maxBytes, p)

def earliestOffset (p : Partition) : Int :=
  match p.closedSegments, p.activeSegment with
  | first :: _, _ => first.baseOffset
  | [], some active => active.baseOffset
  | [], none => p.nextOffset

def logEndOffset (p : Partition) : Int := p.nextOffset

end Partition

/-- A partition with no open segments, as `OpenPartition` builds it before recovery. -/
def unopened (maxSegmentBytes indexInterval : Int) : Partition where
  activeSegment := none
  closedSegments := []
  nextOffset := 0
  highWatermark := 0
  maxSegmentBytes := maxSegmentBytes
  indexInterval := indexInterval
  idempotence := newPartitionIdempotenceTracker
  remoteFetch := none
  compacting := false

def openPartition (dir : Dir) (maxSegmentBytes indexInterval : Int) : Except Failure Partition :=
  match (unopened maxSegmentBytes indexInterval).recover dir with
  | (.error failure, _) => .error failure
  | (.ok (), p) => .ok p

def Partition.reopen (p : Partition) : Except Failure Partition :=
  openPartition p.dir p.maxSegmentBytes p.indexInterval

end PocketKafka.Storage
