import PocketKafka.Storage.Compaction

namespace PocketKafka.Storage

open Bytes

theorem readAt_take {file : Bytes} {size pos n : Nat} (inside : pos + n ≤ size) :
    readAt (file.take size) pos n = readAt file pos n := by
  have bound : pos + n ≤ (file.take size).length ↔ pos + n ≤ file.length := by
    rw [List.length_take]
    omega
  have same : slice (file.take size) pos (pos + n) = slice file pos (pos + n) := by
    rw [slice_take _ _ _ _ inside]
  simp only [readAt, bound, same]

theorem readAt_take_none {file : Bytes} {size pos n : Nat} (outside : size < pos + n) :
    readAt (file.take size) pos n = none := by
  rw [readAt, if_neg]
  rw [List.length_take]
  omega

theorem readLoop_take (file : Bytes) (size : Nat) (offset maxBytes : Int) (pos : Nat) (out : Bytes) :
    readLoop (file.take size) size offset maxBytes pos out = readLoop file size offset maxBytes pos out := by
  fun_induction readLoop file size offset maxBytes pos out with
  | case1 pos out going missing =>
    have cut : readAt (file.take size) pos 12 = none := by
      rcases Nat.lt_or_ge size (pos + 12) with outside | inside
      · exact readAt_take_none outside
      · rw [readAt_take inside, missing]
    rw [readLoop, if_pos going, cut]
  | case2 pos out going head found length ends =>
    -- A head that reaches behind the size declares a batch that does.
    rcases Nat.lt_or_ge size (pos + 12) with outside | inside
    · rw [readLoop, if_pos going, readAt_take_none outside]
    · rw [readLoop, if_pos going, readAt_take inside, found]
      exact if_pos ends
  | case3 pos out going head found length fits total short =>
    rw [readLoop, if_pos going, readAt_take (by omega), found]
    exact (if_neg fits).trans (if_pos short)
  | case4 pos out going head found length fits total long missing =>
    rw [readLoop, if_pos going, readAt_take (by omega), found]
    refine (if_neg fits).trans ((if_neg long).trans ?_)
    rw [readAt_take (by omega), missing]
  | case5 pos out going head found length fits total long data whole baseOffset lastOffsetDelta early ih =>
    rw [readLoop, if_pos going, readAt_take (by omega), found]
    refine (if_neg fits).trans ((if_neg long).trans ?_)
    rw [readAt_take (by omega), whole]
    exact (if_pos early).trans ih
  | case6 pos out going head found length fits total long data whole baseOffset lastOffsetDelta late ih =>
    rw [readLoop, if_pos going, readAt_take (by omega), found]
    refine (if_neg fits).trans ((if_neg long).trans ?_)
    rw [readAt_take (by omega), whole]
    exact (if_neg late).trans ih
  | case7 pos out done => rw [readLoop, if_neg done]

def Segment.trim (s : Segment) : Segment := { s with logFile := s.logFile.map (List.take s.size) }

theorem Segment.read_trim (s : Segment) (offset maxBytes : Int) : s.trim.read offset maxBytes = s.read offset maxBytes := by
  unfold Segment.read
  split
  · rfl
  · cases found : s.index with
    | none => simp only [Segment.trim, found]
    | some idx =>
      have log : (s.logFile.map (List.take s.size)).getD [] = (s.logFile.getD []).take s.size := by
        cases s.logFile <;> simp
      simp only [Segment.trim, found, log]
      exact readLoop_take _ _ _ _ _ _

@[simp] theorem Segment.trim_trim (s : Segment) : s.trim.trim = s.trim := by
  unfold Segment.trim
  cases s.logFile <;> simp

namespace Partition

def trim (p : Partition) : Partition :=
  { p with activeSegment := p.activeSegment.map Segment.trim, closedSegments := p.closedSegments.map Segment.trim }

theorem orderedSegments_trim (p : Partition) : p.trim.orderedSegments = p.orderedSegments.map Segment.trim := by
  simp [orderedSegments, trim, Option.toList_map]

theorem readSegments_trim (maxBytes : Int) (segs : List Segment) (startOffset : Int) (out : Bytes) :
    readSegments maxBytes (segs.map Segment.trim) startOffset out = readSegments maxBytes segs startOffset out := by
  induction segs generalizing startOffset out with
  | nil => rfl
  | cons seg rest ih =>
    simp only [List.map_cons, readSegments, Segment.read_trim, ih]
    rfl

theorem readLocked_trim (p : Partition) (startOffset maxBytes : Int) :
    p.trim.readLocked startOffset maxBytes = p.readLocked startOffset maxBytes := by
  have dropped : p.trim.orderedSegments.dropWhile (fun seg => decide (¬ startOffset < seg.logEndOffset)) =
      (p.orderedSegments.dropWhile (fun seg => decide (¬ startOffset < seg.logEndOffset))).map Segment.trim := by
    rw [orderedSegments_trim, List.dropWhile_map]
    rfl
  simp only [readLocked, dropped, readSegments_trim]
  rfl

theorem restoreSegments_trim (p : Partition) (startOffset : Int) (segs : List Segment) :
    (p.trim.restoreSegments startOffset (segs.map Segment.trim)).1 = (p.restoreSegments startOffset segs).1 ∧
      (p.trim.restoreSegments startOffset (segs.map Segment.trim)).2.map Segment.trim =
        (p.restoreSegments startOffset segs).2.map Segment.trim := by
  induction segs with
  | nil => exact ⟨rfl, rfl⟩
  | cons seg rest ih =>
    have same : p.trim.restoreSegment seg.trim = p.restoreSegment seg := rfl
    have needed : (startOffset < seg.trim.logEndOffset ∧ seg.trim.isRemote) = (startOffset < seg.logEndOffset ∧
      seg.isRemote) :=
      rfl
    simp only [List.map_cons, restoreSegments, same, needed]
    split
    · cases p.restoreSegment seg with
      | error failure => simp
      | ok restored => exact ⟨ih.1, congrArg (List.cons restored.trim) ih.2⟩
    · exact ⟨ih.1, by simp [ih.2]⟩

theorem read_trim (p : Partition) (startOffset maxBytes : Int) :
    (p.trim.read startOffset maxBytes).1 = (p.read startOffset maxBytes).1 := by
  have remote (start : Int) :
      p.trim.orderedSegments.any (fun seg => decide (start < seg.logEndOffset) && seg.isRemote) =
        p.orderedSegments.any (fun seg => decide (start < seg.logEndOffset) && seg.isRemote) := by
    rw [orderedSegments_trim, List.any_map]
    rfl
  have watermark : p.trim.highWatermark = p.highWatermark := rfl
  unfold read
  generalize (if startOffset < 0 then 0 else startOffset) = start
  simp only [remote, watermark]
  split
  · rfl
  · split
    · obtain ⟨same, segments⟩ := p.restoreSegments_trim start p.orderedSegments
      rw [orderedSegments_trim]
      generalize p.trim.restoreSegments start (p.orderedSegments.map Segment.trim) = left at same segments
      generalize p.restoreSegments start p.orderedSegments = right at same segments
      obtain ⟨failure, left⟩ := left
      obtain ⟨_, right⟩ := right
      obtain rfl : failure = _ := same
      cases failure with
      | some failure => rfl
      | none =>
        have segments : left.map Segment.trim = right.map Segment.trim := segments
        have closed : p.trim.closedSegments.length = p.closedSegments.length := List.length_map _
        simp only [closed]
        rw [← readLocked_trim, ← readLocked_trim { p with
          closedSegments := right.take p.closedSegments.length
          activeSegment := right[p.closedSegments.length]? }]
        simp only [trim, List.map_take, ← List.getElem?_map, segments]
    · exact p.readLocked_trim start maxBytes

end Partition

def Segment.Backed (s : Segment) : Prop := s.size ≤ s.log.length

theorem writeAt_reaches (file : Bytes) (pos : Nat) (data : Bytes) : pos + data.length ≤ (writeAt file pos data).length := by
  simp only [writeAt, List.length_append, List.length_take, List.length_replicate]
  omega

theorem recoverLoop_le {file : Bytes} {size pos : Nat} {next : Int} {stop : Nat × Int}
    (done : recoverLoop file size pos next = .ok stop) (inside : pos ≤ size) : stop.1 ≤ size := by
  fun_induction recoverLoop file size pos next with
  | case1 => cases done
  | case2 =>
    cases done
    exact inside
  | case3 => cases done
  | case4 _ _ _ _ _ _ fits _ _ _ ih => exact ih done (by omega)
  | case5 =>
    cases done
    exact inside

theorem Segment.recover_backed {s s' : Segment} (size : s.size = s.log.length) (done : s.recover = .ok s') : s'.Backed := by
  unfold Segment.recover at done
  split at done
  · cases done
    exact size.le
  · dsimp only at done
    split at done
    · cases done
    · rename_i pos next loop
      have bound : pos ≤ s.size := recoverLoop_le loop (Nat.zero_le _)
      split at done
      · cases done
        show pos ≤ ((s.logFile.getD []).take pos).length
        rw [List.length_take]
        have inside : pos ≤ (s.logFile.getD []).length := bound.trans size.le
        omega
      · cases done
        exact size.le

theorem openSegment_backed {dir : Dir} {baseOffset maxSegmentBytes indexInterval : Int} {s : Segment}
    (opened : openSegment dir baseOffset maxSegmentBytes indexInterval = .ok s) : s.Backed := by
  unfold openSegment at opened
  dsimp only at opened
  split at opened
  · cases opened
    exact Nat.zero_le _
  · split at opened
    · cases opened
    · split at opened
      · cases opened
      · rename_i recovered
        cases opened
        have backed := Segment.recover_backed rfl recovered
        exact backed

namespace Segment.Backed

variable {s s' : Segment}

theorem of_append {raw : Bytes} {assigned : Int} (done : s.append raw = .ok (assigned, s')) : s'.Backed := by
  unfold Segment.append at done
  split at done
  · cases done
  · rename_i parsed
    have long := (parseRecordBatchHeader_ok parsed).1
    unfold batchHeaderSize at long
    split at done
    · cases done
    · split at done
      · cases done
      · cases done
      · rename_i file _ _ _
        cases done
        have reaches := writeAt_reaches file s.size (stamp raw s.nextOffset)
        rw [stamp_length _ (by omega)] at reaches
        exact reaches

theorem of_truncateTo {target : Int} (done : s.truncateTo target = .ok s') : s'.Backed := by
  unfold Segment.truncateTo at done
  split at done
  · cases done
    exact Nat.zero_le _
  · split at done
    · cases done
    · dsimp only at done
      split at done
      · cases done
      · cases done
        exact (truncate_length _ _).ge

end Segment.Backed

theorem openSegments_backed (dir : Dir) (maxSegmentBytes indexInterval : Int) (bases : List Int) {opened : List Segment}
    (start : ∀ seg ∈ opened, seg.Backed) :
    ∀ seg ∈ (openSegments dir maxSegmentBytes indexInterval bases opened).2, seg.Backed := by
  induction bases generalizing opened with
  | nil => exact start
  | cons base rest ih =>
    rw [openSegments]
    split
    · exact start
    · rename_i found
      apply ih
      intro seg member
      rcases List.mem_append.mp member with old | new
      · exact start seg old
      · rw [List.mem_singleton.mp new]
        exact openSegment_backed found

namespace Partition

structure Backed (p : Partition) : Prop where
  closed : ∀ seg ∈ p.closedSegments, seg.Backed
  active : ∀ seg ∈ p.activeSegment, seg.Backed

variable {p : Partition}

theorem Backed.of_empty (closed : p.closedSegments = []) (active : p.activeSegment = none) : p.Backed := by
  constructor
  · simp [closed]
  · simp [active]

theorem Backed.ordered (h : p.Backed) : ∀ seg ∈ p.orderedSegments, seg.Backed := by
  intro seg member
  rcases List.mem_append.mp member with old | last
  · exact h.closed seg old
  · exact h.active seg (Option.mem_toList.mp last)

theorem recover_backed (h : p.Backed) (dir : Dir) : (p.recover dir).2.Backed := by
  have opened := openSegments_backed dir p.maxSegmentBytes p.indexInterval
    (uniq ((listedBases dir).mergeSort (fun a b => decide (a ≤ b)))) h.closed
  unfold recover
  dsimp only
  split
  · rename_i result
    rw [result] at opened
    exact ⟨opened, h.active⟩
  · rename_i result
    rw [result] at opened
    split
    · rename_i last found
      refine ⟨fun seg member => opened seg (List.dropLast_subset _ member), ?_⟩
      rintro _ ⟨⟩
      exact opened last (List.mem_of_getLast? found)
    · split
      · exact ⟨opened, h.active⟩
      · rename_i fresh
        refine ⟨opened, ?_⟩
        rintro seg ⟨⟩
        exact openSegment_backed fresh

namespace Backed

theorem truncateTo (h : p.Backed) (target : Int) : (p.truncateTo target).2.Backed := by
  unfold Partition.truncateTo
  generalize (if target ≤ 0 then 0 else target) = goal
  have kept : ∀ seg ∈ p.closedSegments.filter (fun seg => decide (seg.baseOffset < goal)), seg.Backed :=
    fun seg member => h.closed seg (List.mem_of_mem_filter member)
  dsimp only
  split
  · exact h
  · split
    · exact ⟨kept, h.active⟩
    · rename_i active found
      generalize picked : (ite (goal ≤ active.baseOffset) _ _ : Except Failure Segment × Partition) = chosen
      have backed : chosen.2.Backed ∧ ∀ seg, chosen.1 = .ok seg → seg.Backed := by
        subst picked
        split
        · split
          · rename_i last ends
            have member := kept last (List.mem_of_getLast? ends)
            refine ⟨⟨fun seg inside => kept seg (List.dropLast_subset _ inside), ?_⟩, ?_⟩
            · rintro _ ⟨⟩
              exact member
            · rintro _ ⟨⟩
              exact member
          · split
            · exact ⟨⟨kept, h.active⟩, by simp⟩
            · rename_i fresh
              refine ⟨⟨kept, ?_⟩, ?_⟩
              · rintro _ ⟨⟩
                exact openSegment_backed fresh
              · rintro _ ⟨⟩
                exact openSegment_backed fresh
        · refine ⟨⟨kept, h.active⟩, ?_⟩
          rintro _ ⟨⟩
          exact h.active active found
      obtain ⟨outcome, q⟩ := chosen
      obtain ⟨rest, backed⟩ := backed
      cases outcome with
      | error failure => exact rest
      | ok seg =>
        dsimp only
        split
        · exact rest
        · rename_i cut
          refine ⟨rest.closed, ?_⟩
          rintro _ ⟨⟩
          exact Segment.Backed.of_truncateTo cut

theorem restoreSegments (p : Partition) (startOffset : Int) {segs : List Segment} (h : ∀ seg ∈ segs, seg.Backed) :
    ∀ seg ∈ (p.restoreSegments startOffset segs).2, seg.Backed := by
  induction segs with
  | nil => exact h
  | cons seg rest ih =>
    have later := ih fun other member => h other (List.mem_cons_of_mem _ member)
    rw [Partition.restoreSegments]
    split
    · split
      · exact h
      · rename_i restored done
        have backed : restored.Backed := by
          unfold Partition.restoreSegment at done
          split at done
          · cases done
          · cases done
          · split at done
            · cases done
            · cases done
            · exact openSegment_backed done
        exact List.forall_mem_cons.mpr ⟨backed, later⟩
    · exact List.forall_mem_cons.mpr ⟨h seg List.mem_cons_self, later⟩

theorem read (h : p.Backed) (startOffset maxBytes : Int) : (p.read startOffset maxBytes).2.Backed := by
  unfold Partition.read
  generalize (if startOffset < 0 then 0 else startOffset) = start
  dsimp only
  split
  · exact h
  · split
    · have segments := restoreSegments p start h.ordered
      have restored : ({ p with
          closedSegments := (p.restoreSegments start p.orderedSegments).2.take p.closedSegments.length
          activeSegment := (p.restoreSegments start p.orderedSegments).2[p.closedSegments.length]? } : Partition).Backed :=
        ⟨fun seg member => segments seg (List.mem_of_mem_take member),
          fun seg member => segments seg (List.mem_of_getElem? member)⟩
      split
      · exact restored
      · exact restored
    · exact h

theorem sync (h : p.Backed) (fsync : Fsync) : (p.sync fsync).2.Backed := by
  unfold Partition.sync
  split
  · exact h
  · rename_i active found
    split
    · exact h
    · split
      · exact h
      · refine ⟨h.closed, ?_⟩
        rintro _ ⟨⟩
        have backed := h.active active found
        unfold Segment.sync
        split <;> exact backed

theorem closeSegments (p : Partition) : p.closeSegments.Backed := of_empty rfl rfl

theorem compact (h : p.Backed) (clock : Clock) : (p.compact clock).2.Backed := by
  unfold Partition.compact
  split
  · exact h
  · split
    · exact h
    · exact h
    · unfold installCompaction
      split
      · exact h
      · split
        · exact h
        · split
          · exact h
          · exact recover_backed (closeSegments p) _

theorem openPartition {dir : Dir} {maxSegmentBytes indexInterval : Int}
    (opened : openPartition dir maxSegmentBytes indexInterval = .ok p) : p.Backed := by
  have start : (unopened maxSegmentBytes indexInterval).Backed := of_empty rfl rfl
  have backed := recover_backed start dir
  unfold Storage.openPartition at opened
  split at opened
  · cases opened
  · rename_i recovered
    cases opened
    rw [recovered] at backed
    exact backed

end Backed

end Partition

end PocketKafka.Storage
