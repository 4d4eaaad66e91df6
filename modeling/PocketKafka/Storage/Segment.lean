import PocketKafka.Storage.Record
import PocketKafka.Storage.Index

namespace PocketKafka.Storage

open Bytes

structure RemoteStub where
  logKey : String
  indexKey : String
  nextOffset : Int
  deriving DecidableEq, Repr

structure SegmentFiles where
  baseOffset : Int
  log : Option Bytes
  index : Option Bytes
  remote : Option RemoteStub
  deriving DecidableEq, Repr

abbrev Dir := List SegmentFiles

/-- An open segment owns its files: `logFile` and `index.file` are their contents. A segment
    that was offloaded has neither and keeps its stub in `remote`. -/
structure Segment where
  baseOffset : Int
  logFile : Option Bytes
  index : Option IndexFile
  nextOffset : Int
  size : Nat
  maxSegmentBytes : Int
  indexInterval : Int
  remote : Option RemoteStub
  syncedOffset : Int
  syncedBytes : Nat
  deriving DecidableEq, Repr

def recoverLoop (file : Bytes) (size pos : Nat) (next : Int) : Except Failure (Nat × Int) :=
  if pos < size then
    match readAt file pos 12 with
    | none => .error (.error "recover read: EOF")
    | some buf =>
      let length := int32 (beUint (slice buf 8 12))
      if length ≤ 0 ∨ (size : Int) < pos + 12 + length then .ok (pos, next)
      else
        match readAt file (pos + 23) 4 with
        | none => .error (.error "EOF")
        | some delta =>
          let lastOffsetDelta := int32 (beUint delta)
          recoverLoop file size (pos + 12 + length.toNat) (int64 (next + lastOffsetDelta + 1))
  else .ok (pos, next)
termination_by size - pos

namespace Segment

def recover (s : Segment) : Except Failure Segment :=
  if s.size = 0 then .ok s
  else
    let file := s.logFile.getD []
    match recoverLoop file s.size 0 s.nextOffset with
    | .error failure => .error failure
    | .ok (pos, next) =>
      if pos ≠ s.size then
        .ok { s with nextOffset := next, logFile := some (file.take pos), size := pos }
      else .ok { s with nextOffset := next }

end Segment

def openSegment (dir : Dir) (baseOffset maxSegmentBytes indexInterval : Int) : Except Failure Segment :=
  let found := dir.find? (fun files => files.baseOffset == baseOffset)
  match found.bind SegmentFiles.remote with
  | some stub => .ok {
      baseOffset := baseOffset
      logFile := none
      index := none
      nextOffset := stub.nextOffset
      size := 0
      maxSegmentBytes := maxSegmentBytes
      indexInterval := indexInterval
      remote := some stub
      syncedOffset := 0
      syncedBytes := 0 }
  | none =>
    let logFile := (found.bind SegmentFiles.log).getD []
    match openIndex ((found.bind SegmentFiles.index).getD []) baseOffset indexInterval with
    | .error failure => .error (failure.within "open segment index: ")
    | .ok idx =>
      let seg : Segment := {
        baseOffset := baseOffset
        logFile := some logFile
        index := some idx
        nextOffset := baseOffset
        size := logFile.length
        maxSegmentBytes := maxSegmentBytes
        indexInterval := indexInterval
        remote := none
        syncedOffset := 0
        syncedBytes := 0 }
      match seg.recover with
      | .error failure => .error failure
      | .ok seg => .ok { seg with syncedOffset := seg.nextOffset, syncedBytes := seg.size }

def readLoop (file : Bytes) (size : Nat) (offset maxBytes : Int) (pos : Nat) (out : Bytes) :
    Bytes × Option Failure :=
  if pos < size ∧ int32 out.length < maxBytes then
    match readAt file pos 12 with
    | none => (out, none)
    | some head =>
      let length := int32 (beUint (slice head 8 12))
      if length ≤ 0 ∨ (size : Int) < pos + 12 + length then (out, none)
      else
        let total := 12 + length.toNat
        if total < batchHeaderSize then (out, none)
        else
          match readAt file pos total with
          | none => (out, some (.error "EOF"))
          | some data =>
            let baseOffset := int64 (beUint (slice data 0 8))
            let lastOffsetDelta := int32 (beUint (slice data 23 27))
            if int64 (baseOffset + lastOffsetDelta) < offset then
              readLoop file size offset maxBytes (pos + total) out
            else readLoop file size offset maxBytes (pos + total) (out ++ data)
  else (out, none)
termination_by size - pos

/-- Where a truncation to `target` cuts the file: before the first batch that reaches it. -/
def truncateLoop (file : Bytes) (size : Nat) (target : Int) (pos : Nat) : Except Failure Nat :=
  if pos < size then
    match readAt file pos 12 with
    | none => .error (.error "EOF")
    | some head =>
      let baseOffset := int64 (beUint (slice head 0 8))
      let length := int32 (beUint (slice head 8 12))
      if length ≤ 0 ∨ (size : Int) < pos + 12 + length then .ok pos
      else
        let lastOffsetDelta := match readAt file (pos + 23) 4 with
          | none => 0
          | some delta => int32 (beUint delta)
        if target ≤ int64 (baseOffset + lastOffsetDelta) then .ok pos
        else truncateLoop file size target (pos + 12 + length.toNat)
  else .ok pos
termination_by size - pos

def rebuildLoop (file : Bytes) (size : Nat) (idx : IndexFile) (scan : Nat) : IndexFile :=
  if scan < size then
    match readAt file scan 12 with
    | none => idx
    | some head =>
      let baseOffset := int64 (beUint (slice head 0 8))
      let length := int32 (beUint (slice head 8 12))
      if length ≤ 0 ∨ (size : Int) < scan + 12 + length then idx
      else rebuildLoop file size (idx.maybeAppend baseOffset scan) (scan + 12 + length.toNat)
  else idx
termination_by size - scan

namespace Segment

def append (s : Segment) (raw : Bytes) : Except Failure (Int × Segment) :=
  match parseRecordBatchHeader raw with
  | .error failure => .error failure
  | .ok h =>
    if 2147483647 < int64 (s.nextOffset + h.lastOffsetDelta + 1 - s.baseOffset) then
      .error (.error "segment offset overflow")
    else
      let assigned := s.nextOffset
      match s.logFile, s.index with
      | none, _ => .error (.error "invalid argument")
      | some _, none => .error (.panic "nil pointer dereference")
      | some file, some idx =>
        let pos := s.size
        .ok (assigned, { s with
          logFile := some (writeAt file pos (stamp raw assigned))
          size := pos + raw.length
          nextOffset := int64 (s.nextOffset + h.lastOffsetDelta + 1)
          index := some (idx.maybeAppend assigned pos) })

def full (s : Segment) : Bool := decide (s.maxSegmentBytes ≤ s.size)

def read (s : Segment) (offset maxBytes : Int) : Bytes × Option Failure :=
  if maxBytes ≤ 0 then ([], none)
  else
    match s.index with
    | none => ([], some (.panic "nil pointer dereference"))
    | some idx => readLoop (s.logFile.getD []) s.size offset maxBytes (idx.positionForOffset offset) []

def logEndOffset (s : Segment) : Int := s.nextOffset

def truncateTo (s : Segment) (target : Int) : Except Failure Segment :=
  if target ≤ s.baseOffset then
    .ok { s with
      logFile := s.logFile.map (fun _ => [])
      size := 0
      nextOffset := s.baseOffset
      index := s.index.map IndexFile.reset }
  else
    match s.index with
    | none => .error (.panic "nil pointer dereference")
    | some idx =>
      let file := s.logFile.getD []
      match truncateLoop file s.size target (idx.positionForOffset target) with
      | .error failure => .error failure
      | .ok pos => .ok { s with
          logFile := some (truncate file pos)
          size := pos
          nextOffset := target
          index := some (rebuildLoop (truncate file pos) pos idx.reset 0) }

def sizeBytes (s : Segment) : Nat := s.size

def isRemote (s : Segment) : Bool := s.remote.isSome

/-- The log is already on disk in this model; what changes is what is known to be durable. -/
def sync (s : Segment) : Segment :=
  match s.logFile with
  | none => s
  | some _ => { s with syncedOffset := s.nextOffset, syncedBytes := s.size }

def files (s : Segment) : SegmentFiles :=
  ⟨s.baseOffset, s.logFile, s.index.map IndexFile.file, s.remote⟩

def log (s : Segment) : Bytes := s.logFile.getD []

end Segment

end PocketKafka.Storage
