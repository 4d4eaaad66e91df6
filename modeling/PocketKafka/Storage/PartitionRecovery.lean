import PocketKafka.Storage.PartitionLog

namespace PocketKafka.Storage

open Bytes Intervals

def Segment.contents (s : Segment) : Int × Int × Bytes := (s.baseOffset, s.nextOffset, s.log)

theorem Segment.Holds.log_eq {s : Segment} {bs : List Batch} (h : s.Holds bs) : s.log = logBytes bs := by
  rw [Segment.log, h.log, Option.getD_some]

theorem Segment.Holds.open_covered {s : Segment} {bs : List Batch} (h : s.Holds bs)
    (covered : Covered s.baseOffset bs s.nextOffset) {dir : Dir}
    (found : dir.find? (fun files => files.baseOffset == s.baseOffset) = some s.files)
    (maxSegmentBytes indexInterval : Int) :
    ∃ s', openSegment dir s.baseOffset maxSegmentBytes indexInterval = .ok s' ∧ s'.Holds bs ∧
      s'.contents = s.contents ∧ s'.maxSegmentBytes = maxSegmentBytes := by
  obtain ⟨idx, points, done⟩ := h.open_files found maxSegmentBytes indexInterval
  have base := h.base
  rw [Segment.Holds.recoveredEnd_covered covered (by omega) h.next] at done
  refine ⟨_, done, ?_, ?_, rfl⟩
  · exact ⟨rfl, rfl, rfl, h.base, h.next, h.ordered, h.near, h.starts, idx, rfl, points⟩
  · simp [Segment.contents, Segment.log, h.log]

theorem openSegments_covered {segs : List Segment} {bss : List (List Batch)} {dir : Dir}
    (hold : List.Forall₂ Segment.Holds segs bss)
    (covered : List.Forall₂ (fun s bs => Covered s.baseOffset bs s.nextOffset) segs bss)
    (found : ∀ s ∈ segs, dir.find? (fun files => files.baseOffset == s.baseOffset) = some s.files)
    (maxSegmentBytes indexInterval : Int) (opened : List Segment) :
    ∃ segs', openSegments dir maxSegmentBytes indexInterval (segs.map Segment.baseOffset) opened =
        (.ok (), opened ++ segs') ∧ List.Forall₂ Segment.Holds segs' bss ∧
      segs'.map Segment.contents = segs.map Segment.contents ∧ ∀ s ∈ segs', s.maxSegmentBytes = maxSegmentBytes := by
  induction hold generalizing opened with
  | nil => exact ⟨[], by simp [openSegments], .nil, rfl, by simp⟩
  | @cons s bs segs bss head tail ih =>
    obtain ⟨headCovered, tailCovered⟩ := List.forall₂_cons.mp covered
    obtain ⟨s', done, holds, same, sameMax⟩ := head.open_covered headCovered (found s (by simp)) maxSegmentBytes
      indexInterval
    obtain ⟨segs', rest, restHold, restSame, restMax⟩ := ih tailCovered
      (fun t member => found t (List.mem_cons_of_mem _ member)) (opened ++ [s'])
    refine ⟨s' :: segs', ?_, .cons holds restHold, ?_, ?_⟩
    · simp only [List.map_cons, openSegments, done, rest, List.append_assoc, List.singleton_append]
    · rw [List.map_cons, List.map_cons, same, restSame]
    · rintro t (_ | ⟨_, member⟩)
      · exact sameMax
      · exact restMax t member

theorem listedBases_files {segs : List Segment} {bss : List (List Batch)} (hold : List.Forall₂ Segment.Holds segs bss) :
    listedBases (segs.map Segment.files) = segs.map Segment.baseOffset := by
  induction hold with
  | nil => rfl
  | cons head tail ih =>
    rw [listedBases] at ih
    rw [listedBases, List.map_cons, List.flatMap_cons, ih]
    simp [Segment.files, head.log, head.isLocal]

theorem uniq_of_pairwise {bases : List Int} (sorted : bases.Pairwise (· < ·)) : uniq bases = bases := by
  induction bases with
  | nil => rfl
  | cons a rest ih =>
    obtain ⟨first, tail⟩ := List.pairwise_cons.mp sorted
    cases rest with
    | nil => rfl
    | cons b rest =>
      have different : a ≠ b := (first b (by simp)).ne
      rw [uniq, if_neg different, ih tail]

theorem sorted_bases {segs : List Segment} (sorted : segs.Pairwise (fun s t => s.baseOffset < t.baseOffset)) :
    uniq ((segs.map Segment.baseOffset).mergeSort (fun a b => decide (a ≤ b))) = segs.map Segment.baseOffset := by
  have strict : (segs.map Segment.baseOffset).Pairwise (· < ·) := List.pairwise_map.mpr sorted
  rw [List.mergeSort_of_pairwise (strict.imp fun less => by simpa using less.le), uniq_of_pairwise strict]

theorem recover_segments {front : List Segment} {seg : Segment} {bss : List (List Batch)} (p : Partition)
    (closed : p.closedSegments = []) (hold : List.Forall₂ Segment.Holds (front ++ [seg]) bss)
    (covered : List.Forall₂ (fun s bs => Covered s.baseOffset bs s.nextOffset) (front ++ [seg]) bss)
    (sorted : (front ++ [seg]).Pairwise (fun s t => s.baseOffset < t.baseOffset)) :
    ∃ front' seg', p.recover ((front ++ [seg]).map Segment.files) = (.ok (), { p with
        activeSegment := some seg'
        closedSegments := front'
        nextOffset := seg.nextOffset
        highWatermark := seg.nextOffset }) ∧
      List.Forall₂ Segment.Holds (front' ++ [seg']) bss ∧ front'.map Segment.contents = front.map Segment.contents ∧
      seg'.contents = seg.contents ∧ ∀ s ∈ front' ++ [seg'], s.maxSegmentBytes = p.maxSegmentBytes := by
  obtain ⟨segs', opened, holds, same, sameMax⟩ := openSegments_covered hold covered
    (fun s member => find_files sorted member) p.maxSegmentBytes p.indexInterval []
  rw [List.nil_append] at opened
  rw [List.map_append, List.map_singleton, List.map_eq_append_iff] at same
  obtain ⟨front', tail, rfl, sameFront, sameTail⟩ := same
  obtain ⟨seg', rfl, sameSeg⟩ := List.map_eq_singleton_iff.mp sameTail
  refine ⟨front', seg', ?_, holds, sameFront, sameSeg, sameMax⟩
  have end' : seg'.nextOffset = seg.nextOffset := congrArg (fun c => c.2.1) sameSeg
  simp only [Partition.recover, listedBases_files hold, sorted_bases sorted, closed, opened, List.getLast?_concat,
    List.dropLast_concat, end']

theorem gapless_contents {segs segs' : List Segment} (same : segs'.map Segment.contents = segs.map Segment.contents)
    {lo hi : Int} (linked : Gapless Segment.baseOffset Segment.nextOffset lo segs hi) :
    Gapless Segment.baseOffset Segment.nextOffset lo segs' hi := by
  induction segs generalizing segs' lo with
  | nil =>
    rw [List.map_nil, List.map_eq_nil_iff] at same
    subst same
    exact linked
  | cons s rest ih =>
    obtain ⟨s', rest', rfl, head, tail⟩ := List.map_eq_cons_iff.mp same
    have base : s'.baseOffset = s.baseOffset := congrArg Prod.fst head
    have next : s'.nextOffset = s.nextOffset := congrArg (fun c => c.2.1) head
    exact ⟨base.trans linked.1, next ▸ ih tail linked.2⟩

theorem covered_contents {segs segs' : List Segment} (same : segs'.map Segment.contents = segs.map Segment.contents)
    {bss : List (List Batch)} (covered : List.Forall₂ (fun s bs => Covered s.baseOffset bs s.nextOffset) segs bss) :
    List.Forall₂ (fun s bs => Covered s.baseOffset bs s.nextOffset) segs' bss := by
  induction covered generalizing segs' with
  | nil =>
    rw [List.map_nil, List.map_eq_nil_iff] at same
    subst same
    exact .nil
  | cons first _ ih =>
    obtain ⟨s', rest', rfl, head, tail⟩ := List.map_eq_cons_iff.mp same
    have base := congrArg Prod.fst head
    have next := congrArg (fun c => c.2.1) head
    simp only [Segment.contents] at base next
    refine .cons ?_ (ih tail)
    rw [base, next]
    exact first

namespace Partition.Holds

variable {p : Partition} {closed : List (List Batch)} {active : Segment} {last : List Batch}

theorem replace (h : p.Holds closed active last) {q : Partition} {front : List Segment} {seg : Segment}
    (closedSegments : q.closedSegments = front) (activeSegment : q.activeSegment = some seg)
    (holds : List.Forall₂ Segment.Holds (front ++ [seg]) (closed ++ [last]))
    (sameFront : front.map Segment.contents = p.closedSegments.map Segment.contents)
    (sameSeg : seg.contents = active.contents) (sameMax : ∀ s ∈ front ++ [seg], s.maxSegmentBytes = q.maxSegmentBytes)
    (positive : 0 < q.maxSegmentBytes) (next : q.nextOffset = p.nextOffset)
    (highWatermark : q.highWatermark = p.highWatermark) : q.Holds closed seg last := by
  obtain ⟨lo, linked⟩ := h.linked
  have base : seg.baseOffset = active.baseOffset := congrArg Prod.fst sameSeg
  have end' : seg.nextOffset = active.nextOffset := congrArg (fun c => c.2.1) sameSeg
  obtain ⟨as, b, cs, parts, frontHold, segHold, rest⟩ := forall₂_split holds
  cases rest
  obtain ⟨rfl, single⟩ := List.append_inj' parts rfl
  obtain rfl := List.singleton_inj.mp single
  constructor
  · exact activeSegment
  · rw [closedSegments]
    exact frontHold
  · exact segHold
  · rw [closedSegments, base]
    exact ⟨lo, gapless_contents sameFront linked⟩
  · rw [closedSegments]
    intro s member
    have inside : s.contents ∈ p.closedSegments.map Segment.contents := by
      rw [← sameFront]
      exact List.mem_map_of_mem member
    obtain ⟨t, old, same⟩ := List.mem_map.mp inside
    have start : t.baseOffset = s.baseOffset := congrArg Prod.fst same
    have stop : t.nextOffset = s.nextOffset := congrArg (fun c => c.2.1) same
    rw [← start, ← stop]
    exact h.advancing t old
  · rw [closedSegments]
    exact fun s member => sameMax s (List.mem_append_left _ member)
  · exact sameMax seg (by simp)
  · exact positive
  · rw [next, h.nextOffset, end']
  · rw [highWatermark, h.highWatermark, end']

theorem reopen_holds (h : p.Holds closed active last) (seamless : p.Seamless closed active last) :
    ∃ p' active', p.reopen = .ok p' ∧ p'.Holds closed active' last ∧ p'.Seamless closed active' last ∧
      p'.nextOffset = p.nextOffset ∧ p'.highWatermark = p.highWatermark ∧ p'.maxSegmentBytes = p.maxSegmentBytes ∧
      p'.orderedSegments.map Segment.contents = p.orderedSegments.map Segment.contents := by
  have hold := h.orderedHold
  have covered := h.orderedCovered seamless
  have sorted := h.bases_sorted
  rw [h.ordered] at hold covered
  obtain ⟨front, seg, done, holds, sameFront, sameSeg, sameMax⟩ :=
    recover_segments (unopened p.maxSegmentBytes p.indexInterval) rfl hold covered sorted
  have reopened : p.reopen = .ok { unopened p.maxSegmentBytes p.indexInterval with
      activeSegment := some seg
      closedSegments := front
      nextOffset := active.nextOffset
      highWatermark := active.nextOffset } := by
    simp only [Partition.reopen, openPartition, Partition.dir, h.ordered, done]
  refine ⟨_, seg, reopened, ?_, ?_, h.nextOffset.symm, h.highWatermark.symm, rfl, ?_⟩
  · exact h.replace rfl rfl holds sameFront sameSeg sameMax h.positive h.nextOffset.symm h.highWatermark.symm
  · refine ⟨covered_contents sameFront seamless.1, ?_⟩
    have single : [seg].map Segment.contents = [active].map Segment.contents := by simp [sameSeg]
    have lastCovered := covered_contents single (.cons seamless.2 .nil)
    exact (List.forall₂_cons.mp lastCovered).1
  · rw [h.ordered, Partition.orderedSegments, List.map_append, List.map_append, sameFront]
    simp [sameSeg]

end Partition.Holds

end PocketKafka.Storage
