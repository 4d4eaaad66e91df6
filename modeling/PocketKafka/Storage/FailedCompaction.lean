import PocketKafka.Storage.StableOffsets
import PocketKafka.Storage.PartitionFiles
import PocketKafka.Storage.RepeatedCompaction

namespace PocketKafka.Storage

open Bytes

/-- The operation of `Compact` that fails. `done` counts the operations of the same loop that succeeded. -/
inductive CompactionFault where
  /-- Reading the log, or opening, writing, syncing or closing a staged segment, up to the end of `finish`. -/
  | staging
  | stageSwapFiles (done : Nat)
  | dirFileNames
  | writeManifest
  | closeSegments
  | applyCompactionSwap (done : Nat)
  | recover (done : Nat)

structure Machine where
  partition : Partition
  disk : Disk

/-- The state after `Compact` has failed. `w` is the finished writer, where the fault leaves time for one.
    Whatever failed, the error handler removes the staging directory. -/
def Partition.failedCompact (p : Partition) (w : CompactWriter) (fault : CompactionFault) : Machine :=
  let new := w.segments.map Segment.files
  let names := fileNames new
  let start : Disk := ⟨directory p.dir, some (directory new)⟩
  let ready := start.performAll (stageActions names ⟨Storage.dirFileNames start.dir, names⟩)
  match fault with
  | .staging => ⟨p, start.perform .removeAll⟩
  | .stageSwapFiles done => ⟨p, (start.performAll ((names.map .stage).take done)).perform .removeAll⟩
  | .dirFileNames => ⟨p, (start.performAll (names.map .stage)).perform .removeAll⟩
  | .writeManifest => ⟨p, ready.perform .removeAll⟩
  | .closeSegments => ⟨p.closeSegments, ready.perform .removeAll⟩
  | .applyCompactionSwap done => ⟨p.closeSegments, (ready.performAll (ready.swapActions.take done)).perform .removeAll⟩
  | .recover done =>
    let opened := (p.closeSegments.recover ready.applyCompactionSwap.dir.files).2.orderedSegments
    ⟨{ p.closeSegments with closedSegments := opened.take done }, ready.applyCompactionSwap.perform .removeAll⟩

/-- The partition serves these records, and no others, to reads. -/
def Partition.Serves (p : Partition) (contents : List Content) : Prop :=
  p.contents = contents ∧ ∀ start maxBytes : Int, p.earliestOffset ≤ start → 0 < maxBytes → maxBytes < 2147483648 →
    p.ReadsOn start maxBytes

/-- Nothing is lost: the open partition and the reopened one serve the same records, those from before or
    those of the compacted log, and the open one has an open active segment. -/
def Machine.Survives (m : Machine) (before after : List Content) : Prop :=
  ∃ contents, (contents = before ∨ contents = after) ∧ m.partition.Serves contents ∧
    (∃ active ∈ m.partition.activeSegment, active.logFile.isSome) ∧
    ∃ q, m.disk.openPartition m.partition.maxSegmentBytes m.partition.indexInterval = .ok q ∧ q.Serves contents

def CompactionFault.BeforeClose : CompactionFault → Prop
  | .staging | .stageSwapFiles _ | .dirFileNames | .writeManifest => True
  | .closeSegments | .applyCompactionSwap _ | .recover _ => False

theorem Partition.Sound.serves {p : Partition} (sound : p.Sound) : p.Serves p.contents := by
  obtain ⟨closed, active, last, holds, _⟩ := sound
  refine ⟨rfl, fun start maxBytes lower positive range => ?_⟩
  exact holds.readsOn_of_findsStart positive range (holds.findsStart_of_earliest_le lower)

theorem Partition.Sound.reopen_serves {p : Partition} (sound : p.Sound) :
    ∃ q, p.reopen = .ok q ∧ q.Serves p.contents := by
  obtain ⟨closed, active, last, holds, seamless⟩ := sound
  obtain ⟨q, active', opened, holds', seamless', _⟩ := holds.reopen_holds seamless
  have same : q.contents = p.contents := by
    rw [Partition.contents, Partition.contents, holds'.records_eq, holds.records_eq]
  have serves := Partition.Sound.serves ⟨closed, active', last, holds', seamless'⟩
  rw [same] at serves
  exact ⟨q, opened, serves⟩

theorem Disk.openPartition_of_dir {dir : Dir} (isLocal : LocalFiles dir) {d : Disk} (same : d.dir = directory dir)
    (gone : d.tmp = none) (maxSegmentBytes indexInterval : Int) :
    d.openPartition maxSegmentBytes indexInterval = Storage.openPartition dir maxSegmentBytes indexInterval := by
  have none : d.manifest = none := by
    rw [Disk.manifest, gone]
    rfl
  rw [Disk.openPartition, Disk.applyCompactionSwap_of_no_manifest none]
  show Storage.openPartition d.dir.files _ _ = _
  rw [same, isLocal.files_directory]

theorem dir_performAll_stage (d : Disk) (names : List Name) : (d.performAll (names.map .stage)).dir = d.dir := by
  induction names generalizing d with
  | nil => rfl
  | cons name names ih => exact ih (d.perform (.stage name))

theorem dir_performAll_stageActions (d : Disk) (names : List Name) (m : CompactionManifest) :
    (d.performAll (stageActions names m)).dir = d.dir := by
  rw [stageActions, Disk.performAll, List.foldl_append]
  exact dir_performAll_stage d names

theorem Partition.failedCompact_early {p : Partition} {w : CompactWriter} {fault : CompactionFault}
    (early : fault.BeforeClose) : (p.failedCompact w fault).partition = p ∧
      (p.failedCompact w fault).disk.dir = directory p.dir ∧ (p.failedCompact w fault).disk.tmp = none := by
  cases fault with
  | staging => exact ⟨rfl, rfl, rfl⟩
  | stageSwapFiles done =>
    refine ⟨rfl, ?_, rfl⟩
    show (Disk.performAll _ ((List.map SwapAction.stage _).take done)).dir = _
    rw [← List.map_take, dir_performAll_stage]
  | dirFileNames =>
    refine ⟨rfl, ?_, rfl⟩
    show (Disk.performAll _ (List.map SwapAction.stage _)).dir = _
    rw [dir_performAll_stage]
  | writeManifest =>
    refine ⟨rfl, ?_, rfl⟩
    show (Disk.performAll _ (stageActions _ _)).dir = _
    rw [dir_performAll_stageActions]
  | closeSegments | applyCompactionSwap | recover => exact early.elim

theorem Partition.failedCompact_late {p : Partition} {w : CompactWriter} {fault : CompactionFault}
    (late : ¬ fault.BeforeClose) : (p.failedCompact w fault).partition.activeSegment = none := by
  cases fault with
  | staging | stageSwapFiles | dirFileNames | writeManifest => exact absurd trivial late
  | closeSegments | applyCompactionSwap | recover => rfl

/-- A failed compaction loses nothing exactly if it fails before it closes the segments. -/
theorem failed_compaction_survives_iff {p : Partition} (sound : p.Sound) (w : CompactWriter) (fault : CompactionFault) :
    (p.failedCompact w fault).Survives p.contents w.view.contents ↔ fault.BeforeClose := by
  constructor
  · rintro ⟨_, _, _, ⟨active, found, _⟩, _⟩
    by_contra late
    rw [Partition.failedCompact_late late] at found
    cases found
  · intro early
    obtain ⟨same, dir, tmp⟩ := Partition.failedCompact_early (p := p) (w := w) early
    obtain ⟨q, opened, serves⟩ := sound.reopen_serves
    obtain ⟨closed, active, last, holds, _⟩ := sound
    refine ⟨p.contents, Or.inl rfl, ?_, ?_, q, ?_, serves⟩
    · rw [same]
      exact Partition.Sound.serves ⟨closed, active, last, holds, by assumption⟩
    · rw [same]
      refine ⟨active, holds.activeSegment, ?_⟩
      rw [holds.activeHolds.log]
      rfl
    · rw [same, Disk.openPartition_of_dir holds.localFiles dir tmp]
      exact opened

instance : DecidableEq Content := instDecidableEqProd

def Partition.finishedWriter (p : Partition) : Except Failure CompactWriter :=
  match p.planAndStage (fun _ => 0) with
  | .ok (some (w, _)) => w.finish (fun _ => 0)
  | .ok none => .error (.error "nothing to compact")
  | .error failure => .error failure

/-- Both old files are gone when the first rename fails, and the handler removes the new ones: the reopened
    log is empty, and the open partition cannot take an append. -/
theorem failed_rename_loses_log :
    ∃ (empty : Partition) (w : CompactWriter), openPartition [] 1000 100 = .ok empty ∧
      (empty.appendAll keyedBatches).Sound ∧ (empty.appendAll keyedBatches).finishedWriter = .ok w ∧
      (empty.appendAll keyedBatches).contents = [(some [7], some [1], []), (some [7], some [2], [])] ∧
      w.view.contents = [(some [7], some [2], [])] ∧
      (((empty.appendAll keyedBatches).failedCompact w (.applyCompactionSwap 2)).disk.openPartition 1000 100).map
        Partition.contents = .ok [] ∧
      (((empty.appendAll keyedBatches).failedCompact w (.applyCompactionSwap 2)).partition.append
        (oneRecord (some [7]) [3])).1 = .error (.panic "nil pointer dereference") ∧
      ¬ ((empty.appendAll keyedBatches).failedCompact w (.applyCompactionSwap 2)).Survives
        (empty.appendAll keyedBatches).contents w.view.contents := by
  obtain ⟨empty, opened, accepted, before⟩ : ∃ empty, openPartition [] 1000 100 = .ok empty ∧
      empty.AcceptsAll keyedBatches ∧
      (empty.appendAll keyedBatches).contents = [(some [7], some [1], []), (some [7], some [2], [])] :=
    exists_of_map (by decide +kernel)
  have outcome : ((openPartition [] 1000 100).bind fun empty => (empty.appendAll keyedBatches).finishedWriter.map fun w =>
      decide (w.view.contents = [(some [7], some [2], [])] ∧
        (((empty.appendAll keyedBatches).failedCompact w (.applyCompactionSwap 2)).disk.openPartition 1000 100).map
          Partition.contents = .ok [])) = .ok true := by decide +kernel
  rw [opened] at outcome
  obtain ⟨w, finished, after, lost⟩ := exists_of_map outcome
  refine ⟨empty, w, opened, sound_appendAll (by decide) opened accepted, finished, before, after, lost, rfl, ?_⟩
  rintro ⟨_, _, _, ⟨active, found, _⟩, _⟩
  cases found

theorem failed_compaction_survives_manifest :
    ∃ (empty : Partition) (w : CompactWriter), openPartition [] 1000 100 = .ok empty ∧
      (empty.appendAll keyedBatches).finishedWriter = .ok w ∧
      ((empty.appendAll keyedBatches).failedCompact w .writeManifest).Survives
        (empty.appendAll keyedBatches).contents w.view.contents := by
  have accepted : ((openPartition [] 1000 100).bind fun empty => (empty.appendAll keyedBatches).finishedWriter.map fun _ =>
      decide (empty.AcceptsAll keyedBatches)) = .ok true := by decide +kernel
  obtain ⟨empty, opened, _⟩ := openPartition_empty 100 (show (0 : Int) < 1000 by decide)
  rw [opened] at accepted
  obtain ⟨w, finished, accepts⟩ := exists_of_map accepted
  have sound := sound_appendAll (by decide) opened accepts
  exact ⟨empty, w, opened, finished, (failed_compaction_survives_iff sound w .writeManifest).mpr trivial⟩

end PocketKafka.Storage
