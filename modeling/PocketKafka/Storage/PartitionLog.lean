import PocketKafka.Storage.SegmentLog
import PocketKafka.Storage.Retention

namespace PocketKafka.Storage

open Bytes Intervals

/-- The closed segments store `closed`, the active segment stores `last`, and the segments follow
    each other without a gap up to the next offset. -/
structure Partition.Holds (p : Partition) (closed : List (List Batch)) (active : Segment) (last : List Batch) :
    Prop where
  activeSegment : p.activeSegment = some active
  closedHold : List.Forall₂ Segment.Holds p.closedSegments closed
  activeHolds : active.Holds last
  linked : ∃ lo, Gapless Segment.baseOffset Segment.nextOffset lo p.closedSegments active.baseOffset
  advancing : ∀ s ∈ p.closedSegments, s.baseOffset < s.nextOffset
  closedMax : ∀ s ∈ p.closedSegments, s.maxSegmentBytes = p.maxSegmentBytes
  activeMax : active.maxSegmentBytes = p.maxSegmentBytes
  positive : 0 < p.maxSegmentBytes
  nextOffset : p.nextOffset = active.nextOffset
  highWatermark : p.highWatermark = active.nextOffset

def Partition.Seamless (p : Partition) (closed : List (List Batch)) (active : Segment) (last : List Batch) : Prop :=
  List.Forall₂ (fun s bs => Covered s.baseOffset bs s.nextOffset) p.closedSegments closed ∧
    Covered active.baseOffset last active.nextOffset

abbrev stored (closed : List (List Batch)) (last : List Batch) : List Batch := closed.flatten ++ last

theorem Segment.Holds.base_le_next {s : Segment} {bs : List Batch} (h : s.Holds bs) : s.baseOffset ≤ s.nextOffset :=
  Ascending.le Batch.proper h.ordered

theorem Segment.Holds.base_lt_next {s : Segment} {bs : List Batch} (h : s.Holds bs) (nonempty : bs ≠ []) :
    s.baseOffset < s.nextOffset := by
  obtain ⟨b, rest, rfl⟩ := List.exists_cons_of_ne_nil nonempty
  obtain ⟨lower, upper⟩ := Ascending.mem Batch.proper h.ordered List.mem_cons_self
  have proper := b.baseOffset_lt_nextOffset
  omega

theorem Segment.Holds.nonempty_of_full {s : Segment} {bs : List Batch} (h : s.Holds bs)
    (positive : 0 < s.maxSegmentBytes) (full : s.full = true) : bs ≠ [] := by
  rintro rfl
  have size := h.size
  rw [Segment.full, decide_eq_true_eq] at full
  simp only [logBytes_nil, List.length_nil] at size
  omega

theorem segments_ascend {segs : List Segment} {bss : List (List Batch)} {lo hi : Int}
    (hold : List.Forall₂ Segment.Holds segs bss) (linked : Gapless Segment.baseOffset Segment.nextOffset lo segs hi) :
    Ascends lo bss.flatten hi := by
  induction hold generalizing lo with
  | nil => exact linked.le
  | cons head tail ih =>
    rw [List.flatten_cons]
    exact (linked.1 ▸ head.ordered).append (ih linked.2)

theorem gapless_append_singleton {segs : List Segment} {s : Segment} {lo : Int}
    (linked : Gapless Segment.baseOffset Segment.nextOffset lo segs s.baseOffset) :
    Gapless Segment.baseOffset Segment.nextOffset lo (segs ++ [s]) s.nextOffset :=
  linked.append ⟨rfl, rfl⟩

theorem forall₂_split {α β : Type*} {R : α → β → Prop} {xs zs : List α} {y : α} {ws : List β}
    (related : List.Forall₂ R (xs ++ y :: zs) ws) :
    ∃ as b cs, ws = as ++ b :: cs ∧ List.Forall₂ R xs as ∧ R y b ∧ List.Forall₂ R zs cs := by
  induction xs generalizing ws with
  | nil =>
    cases related with
    | cons head tail => exact ⟨[], _, _, rfl, .nil, head, tail⟩
  | cons x xs ih =>
    cases related with
    | cons head tail =>
      obtain ⟨as, b, cs, rfl, left, middle, right⟩ := ih tail
      exact ⟨_ :: as, b, cs, rfl, .cons head left, middle, right⟩

namespace Partition.Holds

variable {p : Partition} {closed : List (List Batch)} {active : Segment} {last : List Batch}

theorem ordered (h : p.Holds closed active last) : p.orderedSegments = p.closedSegments ++ [active] := by
  rw [Partition.orderedSegments, h.activeSegment, Option.toList_some]

theorem orderedHold (h : p.Holds closed active last) :
    List.Forall₂ Segment.Holds p.orderedSegments (closed ++ [last]) := by
  rw [h.ordered]
  exact List.rel_append h.closedHold (.cons h.activeHolds .nil)

theorem orderedCovered (h : p.Holds closed active last) (seamless : p.Seamless closed active last) :
    List.Forall₂ (fun s bs => Covered s.baseOffset bs s.nextOffset) p.orderedSegments (closed ++ [last]) := by
  rw [h.ordered]
  exact List.rel_append seamless.1 (.cons seamless.2 .nil)

theorem orderedLinked (h : p.Holds closed active last) :
    Gapless Segment.baseOffset Segment.nextOffset p.earliestOffset p.orderedSegments p.nextOffset := by
  obtain ⟨lo, linked⟩ := h.linked
  have first : p.earliestOffset = lo := by
    rcases found : p.closedSegments with _ | ⟨s, rest⟩
    · rw [found] at linked
      simp only [Partition.earliestOffset, found, h.activeSegment]
      exact linked.symm
    · rw [found] at linked
      simp only [Partition.earliestOffset, found]
      exact linked.1
  rw [h.ordered, h.nextOffset, first]
  exact gapless_append_singleton linked

theorem ascends (h : p.Holds closed active last) : Ascends p.earliestOffset (stored closed last) p.nextOffset := by
  have all := segments_ascend h.orderedHold h.orderedLinked
  rwa [List.flatten_append, List.flatten_singleton] at all

theorem exists_earliest (h : p.Holds closed active last) : ∃ s ∈ p.orderedSegments, s.baseOffset = p.earliestOffset := by
  have linked := h.orderedLinked
  rcases found : p.orderedSegments with _ | ⟨s, rest⟩
  · simp [h.ordered] at found
  · rw [found] at linked
    exact ⟨s, by simp, linked.1⟩

theorem proper (h : p.Holds closed active last) : ∀ s ∈ p.closedSegments, s.baseOffset ≤ s.nextOffset :=
  fun s member => (h.advancing s member).le

theorem closed_le_active (h : p.Holds closed active last) {s : Segment} (member : s ∈ p.closedSegments) :
    s.nextOffset ≤ active.baseOffset := by
  obtain ⟨lo, linked⟩ := h.linked
  exact (Ascending.mem h.proper linked.ascending member).2

theorem base_le_active (h : p.Holds closed active last) {s : Segment} (member : s ∈ p.orderedSegments) :
    s.baseOffset ≤ active.baseOffset := by
  rw [h.ordered, List.mem_append, List.mem_singleton] at member
  rcases member with old | rfl
  · exact (h.proper s old).trans (h.closed_le_active old)
  · exact le_rfl

theorem bases_sorted (h : p.Holds closed active last) :
    (p.closedSegments ++ [active]).Pairwise (fun s t => s.baseOffset < t.baseOffset) := by
  obtain ⟨lo, linked⟩ := h.linked
  refine List.pairwise_append.mpr ⟨?_, List.pairwise_singleton _ _, ?_⟩
  · have advancing := h.advancing
    generalize p.closedSegments = segs at linked advancing
    induction segs generalizing lo with
    | nil => exact List.Pairwise.nil
    | cons s rest ih =>
      have later := fun t member => advancing t (List.mem_cons_of_mem s member)
      refine List.pairwise_cons.mpr ⟨fun t member => ?_, ih _ linked.2 later⟩
      have start := advancing s (by simp)
      have bound := (Ascending.mem (fun t member => (later t member).le) linked.2.ascending member).1
      omega
  · intro s member t single
    rw [List.mem_singleton] at single
    subst single
    have below := h.closed_le_active member
    have start := h.advancing s member
    omega

end Partition.Holds

theorem find_files {segs : List Segment} (sorted : segs.Pairwise (fun s t => s.baseOffset < t.baseOffset))
    {s : Segment} (member : s ∈ segs) :
    (segs.map Segment.files).find? (fun files => files.baseOffset == s.baseOffset) = some s.files := by
  induction segs with
  | nil => cases member
  | cons t rest ih =>
    obtain ⟨first, tail⟩ := List.pairwise_cons.mp sorted
    rcases List.mem_cons.mp member with rfl | later
    · simp [Segment.files]
    · have different : t.baseOffset ≠ s.baseOffset := (first s later).ne
      rw [List.map_cons, List.find?_cons_of_neg (by simpa [Segment.files] using different)]
      exact ih tail later

def Partition.storing (p : Partition) (s : Segment) : Partition :=
  { p with activeSegment := some s, nextOffset := s.nextOffset, highWatermark := s.nextOffset }

namespace Partition.Holds

variable {p : Partition} {closed : List (List Batch)} {active : Segment} {last : List Batch}

theorem roll_holds (h : p.Holds closed active last) (full : active.full = true) :
    ∃ new q, p.roll = (.ok (), q) ∧ q.Holds (closed ++ [last]) new [] ∧ new.baseOffset = p.nextOffset ∧
      q = { p with closedSegments := p.closedSegments ++ [active], activeSegment := some new } ∧
      openSegment p.dir p.nextOffset p.maxSegmentBytes p.indexInterval = .ok new := by
  have nonempty := h.activeHolds.nonempty_of_full (h.activeMax ▸ h.positive) full
  have advance := h.activeHolds.base_lt_next nonempty
  have base := h.activeHolds.base
  have upper := h.activeHolds.next
  have missing : p.dir.find? (fun files => files.baseOffset == p.nextOffset) = none := by
    rw [List.find?_eq_none, Partition.dir, h.ordered]
    intro files member
    obtain ⟨s, inside, rfl⟩ := List.mem_map.mp member
    have below : s.baseOffset < p.nextOffset := by
      rw [h.nextOffset]
      rcases List.mem_append.mp inside with old | same
      · have order := h.closed_le_active old
        have start := h.advancing s old
        omega
      · rw [List.mem_singleton] at same
        subst same
        exact advance
    simpa [Segment.files] using below.ne
  obtain ⟨new, opened, empty, newBase, newNext, newMax, _⟩ := Segment.Holds.open_new missing
    (by rw [h.nextOffset]; omega) (by rw [h.nextOffset]; exact upper) p.maxSegmentBytes p.indexInterval
  obtain ⟨lo, linked⟩ := h.linked
  refine ⟨new, { p with closedSegments := p.closedSegments ++ [active], activeSegment := some new }, ?_, ?_, newBase, rfl,
    opened⟩
  · simp [Partition.roll, opened, h.activeSegment]
  · constructor
    · rfl
    · exact List.rel_append h.closedHold (.cons h.activeHolds .nil)
    · exact empty
    · refine ⟨lo, ?_⟩
      rw [newBase, h.nextOffset]
      exact gapless_append_singleton linked
    · intro s member
      rcases List.mem_append.mp member with old | same
      · exact h.advancing s old
      · rw [List.mem_singleton] at same
        subst same
        exact advance
    · intro s member
      rcases List.mem_append.mp member with old | same
      · exact h.closedMax s old
      · rw [List.mem_singleton] at same
        subst same
        exact h.activeMax
    · exact newMax
    · exact h.positive
    · simp only
      rw [newNext]
    · simp only
      rw [newNext, h.highWatermark, h.nextOffset]

theorem rolled (h : p.Holds closed active last) :
    ∃ closed' active' last' q, (if active.full then p.roll else (.ok (), p)) = (.ok (), q) ∧
      q.Holds closed' active' last' ∧ stored closed' last' = stored closed last ∧
      ((active.full = false → active.size < 4294967296) → active'.size < 4294967296) ∧
      q.nextOffset = p.nextOffset ∧ (p.Seamless closed active last → q.Seamless closed' active' last') ∧
      q = { p with closedSegments := q.closedSegments, activeSegment := q.activeSegment } ∧
      active'.baseOffset = if active.full then p.nextOffset else active.baseOffset := by
  by_cases full : active.full = true
  · obtain ⟨new, q, done, holds, base, rfl, _⟩ := h.roll_holds full
    have empty := holds.activeHolds.size
    refine ⟨closed ++ [last], new, [], _, by rw [if_pos full, done], holds, by simp [stored], ?_, rfl, ?_, rfl,
      by rw [if_pos full, base]⟩
    · intro _
      rw [empty]
      simp
    · rintro ⟨covered, lastCovered⟩
      refine ⟨List.rel_append covered (.cons lastCovered .nil), ?_⟩
      have end' : p.nextOffset = new.nextOffset := holds.nextOffset
      change new.baseOffset = new.nextOffset
      rw [base, end']
  · exact ⟨closed, active, last, p, by rw [if_neg full], h, rfl, fun room => room (by simpa using full), rfl, id, rfl,
      by rw [if_neg full]⟩

theorem store_cases (h : p.Holds closed active last) (b : Batch) (small : active.size < 4294967296)
    (fits : p.nextOffset + lastOffsetDeltaField b.raw + 1 < 9223372036854775808) :
    active.append b.raw = .error (.error "segment offset overflow") ∨
      ∃ s', active.append b.raw = .ok (p.nextOffset, s') ∧
        (p.storing s').Holds closed s' (last ++ [b.stamped p.nextOffset]) ∧
        (p.Seamless closed active last → (p.storing s').Seamless closed s' (last ++ [b.stamped p.nextOffset])) ∧
        s'.nextOffset = p.nextOffset + lastOffsetDeltaField b.raw + 1 ∧ s'.baseOffset = active.baseOffset := by
  rw [h.nextOffset] at fits ⊢
  by_cases overflow : 2147483647 < active.nextOffset + lastOffsetDeltaField b.raw + 1 - active.baseOffset
  · exact Or.inl (h.activeHolds.append_overflow b fits overflow)
  · right
    obtain ⟨s', done, stores, base, newNext, newMax, _⟩ := h.activeHolds.append_holds b small fits (by omega)
    refine ⟨s', done, ?_, ?_, newNext, base⟩
    · constructor
      · rfl
      · exact h.closedHold
      · exact stores
      · rw [base]
        exact h.linked
      · exact h.advancing
      · exact h.closedMax
      · rw [newMax]
        exact h.activeMax
      · exact h.positive
      · rfl
      · rfl
    · rintro ⟨covered, lastCovered⟩
      refine ⟨covered, ?_⟩
      rw [base, newNext]
      exact lastCovered.append ⟨h.activeHolds.stamped_baseOffset b, h.activeHolds.stamped_nextOffset b⟩

theorem append_cases (h : p.Holds closed active last) (b : Batch)
    (room : active.full = false → active.size < 4294967296)
    (fits : p.nextOffset + lastOffsetDeltaField b.raw + 1 < 9223372036854775808) :
    ∃ closed' active' last' q more, q.Holds closed' active' last' ∧
      stored closed' last' = stored closed last ++ more ∧
      (p.Seamless closed active last → q.Seamless closed' active' last') ∧
      q.maxSegmentBytes = p.maxSegmentBytes ∧
      active'.baseOffset = (if active.full then p.nextOffset else active.baseOffset) ∧
      ((more = [] ∧ q.nextOffset = p.nextOffset ∧
          p.append b.raw = (.error (.error "segment offset overflow"), q)) ∨
        (more = [b.stamped p.nextOffset] ∧ q.nextOffset = p.nextOffset + lastOffsetDeltaField b.raw + 1 ∧
          p.append b.raw = (.ok p.nextOffset, q))) := by
  obtain ⟨closed', active', last', r, rolled, holds, same, small, next, seamless, frame, base⟩ := h.rolled
  have kept : r.maxSegmentBytes = p.maxSegmentBytes := by rw [frame]
  rcases holds.store_cases b (small room) (next ▸ fits) with refused | ⟨s', done, stores, seamless', newNext, base'⟩
  · refine ⟨closed', active', last', r, [], holds, by simpa using same, seamless, kept, base, Or.inl ⟨rfl, next, ?_⟩⟩
    simp only [Partition.append, h.activeSegment, rolled, holds.activeSegment, refused]
  · rw [next] at done stores seamless' newNext
    refine ⟨closed', s', last' ++ [b.stamped p.nextOffset], r.storing s', [b.stamped p.nextOffset], stores, ?_,
      fun before => seamless' (seamless before), kept, base'.trans base, Or.inr ⟨rfl, newNext, ?_⟩⟩
    · rw [stored, ← List.append_assoc]
      exact congrArg (· ++ _) same
    · simp only [Partition.append, h.activeSegment, rolled, holds.activeSegment, done, Partition.storing]

theorem append_assigned (h : p.Holds closed active last) {raw : Bytes} {assigned : Int} {q : Partition}
    (done : p.append raw = (.ok assigned, q)) : assigned = p.nextOffset := by
  obtain ⟨_, active', _, r, rolled, holds, _, _, next, _⟩ := h.rolled
  simp only [Partition.append, h.activeSegment, rolled, holds.activeSegment] at done
  rcases result : active'.append raw with failure | ⟨offset, s'⟩
  · simp [result] at done
  · simp only [result, Prod.mk.injEq, Except.ok.injEq] at done
    rw [← done.1, Segment.append_assigned result, ← holds.nextOffset, next]

theorem drop_holds (h : p.Holds closed active last) (n : Nat) :
    ({ p with closedSegments := p.closedSegments.drop n } : Partition).Holds (closed.drop n) active last := by
  obtain ⟨lo, linked⟩ := h.linked
  rw [← List.take_append_drop n p.closedSegments] at linked
  obtain ⟨middle, _, after⟩ := linked.split
  constructor
  · exact h.activeSegment
  · exact List.forall₂_drop n h.closedHold
  · exact h.activeHolds
  · exact ⟨middle, after⟩
  · exact fun s member => h.advancing s (List.mem_of_mem_drop member)
  · exact fun s member => h.closedMax s (List.mem_of_mem_drop member)
  · exact h.activeMax
  · exact h.positive
  · exact h.nextOffset
  · exact h.highWatermark

theorem enforceRetention_holds (h : p.Holds closed active last) (retention : Retention) (now : Int)
    (modTimes : ModTimes) :
    ∃ n, p.enforceRetention retention now modTimes = { p with closedSegments := p.closedSegments.drop n } ∧
      (p.enforceRetention retention now modTimes).Holds (closed.drop n) active last ∧
      (p.Seamless closed active last → (p.enforceRetention retention now modTimes).Seamless (closed.drop n) active
        last) := by
  obtain ⟨n, _, done⟩ := p.enforceRetention_eq retention now modTimes
  refine ⟨n, done, ?_, ?_⟩
  · rw [done]
    exact h.drop_holds n
  · rintro ⟨covered, lastCovered⟩
    rw [done]
    exact ⟨List.forall₂_drop n covered, lastCovered⟩

end Partition.Holds

theorem filter_eq_takeWhile {segs : List Segment} (sorted : segs.Pairwise (fun s t => s.baseOffset < t.baseOffset))
    (target : Int) :
    segs.filter (fun seg => decide (seg.baseOffset < target)) =
      segs.takeWhile (fun seg => decide (seg.baseOffset < target)) := by
  induction segs with
  | nil => rfl
  | cons s rest ih =>
    obtain ⟨first, tail⟩ := List.pairwise_cons.mp sorted
    by_cases less : s.baseOffset < target
    · rw [List.filter_cons_of_pos (by simpa using less), List.takeWhile_cons_of_pos (by simpa using less), ih tail]
    · rw [List.filter_cons_of_neg (by simpa using less), List.takeWhile_cons_of_neg (by simpa using less),
        List.filter_eq_nil_iff]
      intro t member
      have order := first t member
      simp only [decide_eq_true_eq]
      omega

theorem le_next_of_dropWhile {segs : List Segment} {lo hi target : Int}
    (linked : Gapless Segment.baseOffset Segment.nextOffset lo
      (segs.dropWhile (fun seg => decide (seg.baseOffset < target))) hi) (upper : target ≤ hi) : target ≤ lo := by
  rcases found : segs.dropWhile (fun seg => decide (seg.baseOffset < target)) with _ | ⟨s, rest⟩
  · rw [found] at linked
    have same : lo = hi := linked
    omega
  · have late := List.head_dropWhile_not (fun seg : Segment => decide (seg.baseOffset < target)) (l := segs)
      (by simp [found])
    simp only [found, List.head_cons, decide_eq_false_iff_not, not_lt] at late
    rw [found] at linked
    have start := linked.1
    omega

theorem below_append {target : Int} {front back : List Batch} (early : ∀ b ∈ front, b.lastOffset < target) :
    below target (front ++ back) = front ++ below target back :=
  List.takeWhile_append_of_pos (by simpa using early)

theorem below_eq_nil {target : Int} {bs : List Batch} (late : ∀ b ∈ bs, target ≤ b.lastOffset) : below target bs = [] := by
  cases bs with
  | nil => rfl
  | cons b rest =>
    have first := late b (by simp)
    exact List.takeWhile_cons_of_neg (by simpa using first)

theorem below_append_late {target : Int} {front back : List Batch} (late : ∀ b ∈ back, target ≤ b.lastOffset) :
    below target (front ++ back) = below target front := by
  induction front with
  | nil => exact below_eq_nil late
  | cons b rest ih =>
    by_cases less : b.lastOffset < target
    · rw [below, below, List.cons_append, List.takeWhile_cons_of_pos (by simpa using less),
        List.takeWhile_cons_of_pos (by simpa using less)]
      exact congrArg _ ih
    · rw [below, below, List.cons_append, List.takeWhile_cons_of_neg (by simpa using less),
        List.takeWhile_cons_of_neg (by simpa using less)]

theorem Ascends.late {lo hi : Int} {bs : List Batch} (ordered : Ascends lo bs hi) :
    ∀ b ∈ bs, lo ≤ b.lastOffset := by
  intro b member
  have lower := (Ascending.mem Batch.proper ordered member).1
  have delta := b.delta
  rw [Batch.lastOffset]
  omega

theorem Ascends.early {lo hi : Int} {bs : List Batch} (ordered : Ascends lo bs hi) :
    ∀ b ∈ bs, b.lastOffset < hi :=
  fun _ member => (Ascending.mem Batch.proper ordered member).2

abbrev clamped (target : Int) : Int := if target ≤ 0 then 0 else target

def Partition.endingAt (p : Partition) (front : List Segment) (seg : Segment) (target : Int) : Partition :=
  { p with closedSegments := front, activeSegment := some seg, nextOffset := target, highWatermark := target }

namespace Partition.Holds

variable {p : Partition} {closed : List (List Batch)} {active : Segment} {last : List Batch}

theorem truncateTo_cases (h : p.Holds closed active last) (target : Int) :
    (p.nextOffset ≤ clamped target ∧ p.truncateTo target = (.ok (), p)) ∨
      (clamped target < p.nextOffset ∧ ∃ front seg back, p.orderedSegments = front ++ seg :: back ∧
        seg.baseOffset < clamped target ∧ clamped target ≤ seg.nextOffset ∧
        ∀ seg', seg.truncateTo (clamped target) = .ok seg' →
          p.truncateTo target = (.ok (), p.endingAt front seg' (clamped target))) ∨
      (clamped target < p.nextOffset ∧ (∀ s ∈ p.orderedSegments, clamped target ≤ s.baseOffset) ∧
        ∀ new seg', openSegment [] 0 p.maxSegmentBytes p.indexInterval = .ok new →
          new.truncateTo (clamped target) = .ok seg' →
          p.truncateTo target = (.ok (), p.endingAt [] seg' (clamped target))) := by
  by_cases beyond : p.nextOffset ≤ clamped target
  · exact Or.inl ⟨beyond, by simp only [Partition.truncateTo, beyond, ↓reduceIte]⟩
  right
  have inside : clamped target < p.nextOffset := by omega
  have sorted := h.bases_sorted
  have kept := filter_eq_takeWhile (List.pairwise_append.mp sorted).1 (clamped target)
  by_cases below : clamped target ≤ active.baseOffset
  · rcases found : (p.closedSegments.filter (fun seg => decide (seg.baseOffset < clamped target))).getLast? with _ | seg
    · right
      have none := List.getLast?_eq_none_iff.mp found
      refine ⟨inside, ?_, ?_⟩
      · intro s member
        rw [h.ordered, List.mem_append, List.mem_singleton] at member
        rcases member with old | rfl
        · have late := List.filter_eq_nil_iff.mp none s old
          simpa using late
        · exact below
      · intro new seg' opened cut
        simp only [Partition.truncateTo, beyond, below, none, List.getLast?_nil, h.activeSegment, opened, cut, ↓reduceIte,
          Partition.endingAt]
    · left
      rw [kept] at found
      obtain ⟨front, same⟩ := List.getLast?_eq_some_iff.mp found
      have parts : p.closedSegments = front ++ seg ::
          p.closedSegments.dropWhile (fun seg => decide (seg.baseOffset < clamped target)) := by
        rw [← List.singleton_append, ← List.append_assoc, ← same, List.takeWhile_append_dropWhile]
      have early : seg.baseOffset < clamped target := by
        have member : seg ∈ p.closedSegments.takeWhile (fun seg => decide (seg.baseOffset < clamped target)) := by
          simp [same]
        simpa using List.mem_takeWhile_imp member
      refine ⟨inside, front, seg, _, by rw [h.ordered, parts, List.append_assoc, List.cons_append], early, ?_, ?_⟩
      · obtain ⟨lo, linked⟩ := h.linked
        rw [parts] at linked
        obtain ⟨_, _, _, after⟩ := linked.split
        exact le_next_of_dropWhile after below
      · intro seg' cut
        simp only [Partition.truncateTo, beyond, below, kept, same, List.getLast?_concat, List.dropLast_concat,
          h.activeSegment, cut, ↓reduceIte, Partition.endingAt]
  · left
    refine ⟨inside, p.closedSegments, active, [], h.ordered, by omega, by rw [← h.nextOffset]; omega, ?_⟩
    intro seg' cut
    have all : p.closedSegments.takeWhile (fun seg => decide (seg.baseOffset < clamped target)) = p.closedSegments := by
      rw [List.takeWhile_eq_self_iff]
      intro s member
      have order := h.closed_le_active member
      have start := h.advancing s member
      simp only [decide_eq_true_eq]
      omega
    simp only [Partition.truncateTo, beyond, below, kept, all, h.activeSegment, cut, ↓reduceIte,
      Partition.endingAt]

theorem stored_eq {as cs : List (List Batch)} {b : List Batch} (same : closed ++ [last] = as ++ b :: cs) :
    stored closed last = as.flatten ++ (b ++ cs.flatten) := by
  rw [stored, ← List.flatten_singleton (l := last), ← List.flatten_append, same, List.flatten_append, List.flatten_cons]

theorem exists_hold (h : p.Holds closed active last) {s : Segment} (member : s ∈ p.orderedSegments) :
    ∃ bs, s.Holds bs := by
  obtain ⟨front, back, parts⟩ := List.append_of_mem member
  have hold := h.orderedHold
  rw [parts] at hold
  obtain ⟨_, bs, _, _, _, segHold, _⟩ := forall₂_split hold
  exact ⟨bs, segHold⟩

theorem base_nonneg (h : p.Holds closed active last) {s : Segment} (member : s ∈ p.orderedSegments) :
    0 ≤ s.baseOffset := by
  obtain ⟨bs, holds⟩ := h.exists_hold member
  exact holds.base

theorem ordered_max (h : p.Holds closed active last) {s : Segment} (member : s ∈ p.orderedSegments) :
    s.maxSegmentBytes = p.maxSegmentBytes := by
  rw [h.ordered, List.mem_append, List.mem_singleton] at member
  rcases member with old | rfl
  · exact h.closedMax s old
  · exact h.activeMax

theorem closed_of_before (h : p.Holds closed active last) {front back : List Segment} {seg s : Segment}
    (parts : p.orderedSegments = front ++ seg :: back) (member : s ∈ front) : s ∈ p.closedSegments := by
  rw [h.ordered] at parts
  have same := congrArg List.dropLast parts
  rw [List.dropLast_concat, List.dropLast_append_cons] at same
  rw [same]
  exact List.mem_append_left _ member

theorem cut_holds (h : p.Holds closed active last) {front back : List Segment} {seg : Segment} {target : Int}
    (parts : p.orderedSegments = front ++ seg :: back) (early : seg.baseOffset < target)
    (inside : target ≤ seg.nextOffset) (less : target < p.nextOffset) :
    ∃ closed' seg' last', seg.truncateTo target = .ok seg' ∧
      (p.endingAt front seg' target).Holds closed' seg' last' ∧
      stored closed' last' = below target (stored closed last) ∧
      (p.Seamless closed active last → Boundary target (stored closed last) →
        (p.endingAt front seg' target).Seamless closed' seg' last') ∧ seg'.baseOffset = seg.baseOffset := by
  have hold := h.orderedHold
  rw [parts] at hold
  obtain ⟨as, b, cs, same, frontHold, segHold, backHold⟩ := forall₂_split hold
  have linked := h.orderedLinked
  rw [parts] at linked
  obtain ⟨_, before, rfl, after⟩ := linked.split
  have bound : target < 9223372036854775808 := by
    have upper := h.activeHolds.next
    rw [← h.nextOffset] at upper
    omega
  obtain ⟨seg', cut, stores, base, next, newMax, _⟩ := segHold.truncateTo_holds early bound (fun _ => inside)
  refine ⟨as, seg', below target b, cut, ?_, ?_, ?_, base⟩
  · constructor
    · rfl
    · exact frontHold
    · exact stores
    · rw [base]
      exact ⟨_, before⟩
    · exact fun s member => h.advancing s (h.closed_of_before parts member)
    · exact fun s member => h.closedMax s (h.closed_of_before parts member)
    · rw [newMax]
      exact h.ordered_max (by rw [parts]; simp)
    · exact h.positive
    · exact next.symm
    · exact next.symm
  · have early' : ∀ c ∈ as.flatten, c.lastOffset < target := by
      intro c member
      have less := (segments_ascend frontHold before).early c member
      omega
    have late : ∀ c ∈ cs.flatten, target ≤ c.lastOffset := by
      intro c member
      have less := (segments_ascend backHold after).late c member
      omega
    rw [stored_eq same, below_append early', below_append_late late]
  · intro seamless boundary
    have all := h.orderedCovered seamless
    rw [parts, same] at all
    have size := frontHold.length_eq
    have frontCovered := List.forall₂_take_append _ as (b :: cs) all
    have rest := List.forall₂_drop_append _ as (b :: cs) all
    rw [← size, List.take_left] at frontCovered
    rw [← size, List.drop_left] at rest
    obtain ⟨segCovered, _⟩ := List.forall₂_cons.mp rest
    refine ⟨frontCovered, ?_⟩
    rw [base, next]
    exact covered_below segCovered early.le inside (fun c member => boundary c (by rw [stored_eq same]; simp [member]))

theorem emptied_holds (h : p.Holds closed active last) {target : Int} (lower : 0 ≤ target) (less : target < p.nextOffset)
    (late : ∀ s ∈ p.orderedSegments, target ≤ s.baseOffset) :
    ∃ new seg', openSegment [] 0 p.maxSegmentBytes p.indexInterval = .ok new ∧ new.truncateTo target = .ok seg' ∧
      (p.endingAt [] seg' target).Holds [] seg' [] ∧ below target (stored closed last) = [] ∧
      (target = 0 → (p.endingAt [] seg' target).Seamless [] seg' []) ∧ seg'.baseOffset = 0 := by
  have missing : ([] : Dir).find? (fun files => files.baseOffset == 0) = none := rfl
  obtain ⟨new, opened, empty, base, next, newMax, _⟩ := Segment.Holds.open_new missing le_rfl (by omega)
    p.maxSegmentBytes p.indexInterval
  have bound : target < 9223372036854775808 := by
    have upper := h.activeHolds.next
    rw [← h.nextOffset] at upper
    omega
  have cut : ∃ seg', new.truncateTo target = .ok seg' ∧ seg'.Holds [] ∧ seg'.baseOffset = 0 ∧ seg'.nextOffset = target ∧
      seg'.maxSegmentBytes = p.maxSegmentBytes := by
    rcases lower.eq_or_lt with rfl | positive
    · obtain ⟨seg', done, stores, sameBase, sameNext, sameMax⟩ := empty.truncateTo_base base.ge
      exact ⟨seg', done, stores, by rw [sameBase, base], by rw [sameNext, base], by rw [sameMax, newMax]⟩
    · obtain ⟨seg', done, stores, sameBase, sameNext, sameMax, _⟩ :=
        empty.truncateTo_holds (by rw [base]; exact positive) bound (by simp)
      exact ⟨seg', done, stores, by rw [sameBase, base], sameNext, by rw [sameMax, newMax]⟩
  obtain ⟨seg', done, stores, newBase, newNext, sameMax⟩ := cut
  refine ⟨new, seg', opened, done, ?_, ?_, ?_, newBase⟩
  · constructor
    · rfl
    · exact .nil
    · exact stores
    · exact ⟨seg'.baseOffset, rfl⟩
    · simp [Partition.endingAt]
    · simp [Partition.endingAt]
    · exact sameMax
    · exact h.positive
    · exact newNext.symm
    · exact newNext.symm
  · refine below_eq_nil fun b member => ?_
    obtain ⟨s, inside, first⟩ := h.exists_earliest
    have start := late s inside
    have reached := h.ascends.late b member
    omega
  · rintro rfl
    refine ⟨.nil, ?_⟩
    change seg'.baseOffset = seg'.nextOffset
    rw [newBase, newNext]

theorem truncateTo_holds (h : p.Holds closed active last) (target : Int) :
    ∃ closed' active' last' q, p.truncateTo target = (.ok (), q) ∧ q.Holds closed' active' last' ∧
      stored closed' last' = below (clamped target) (stored closed last) ∧
      q.nextOffset = min p.nextOffset (clamped target) ∧ q.maxSegmentBytes = p.maxSegmentBytes ∧
      (p.Seamless closed active last →
        (clamped target < p.nextOffset → clamped target = 0 ∨
          p.earliestOffset < clamped target ∧ Boundary (clamped target) (stored closed last)) →
        q.Seamless closed' active' last') ∧ active'.baseOffset ≤ active.baseOffset := by
  have lower : 0 ≤ clamped target := by
    unfold clamped
    split <;> omega
  rcases h.truncateTo_cases target with ⟨beyond, done⟩ | ⟨less, front, seg, back, parts, early, inside, done⟩ |
    ⟨less, late, done⟩
  · refine ⟨closed, active, last, p, done, h, ?_, by omega, rfl, fun seamless _ => seamless, le_rfl⟩
    have all : ∀ b ∈ stored closed last, b.lastOffset < clamped target := by
      intro b member
      have upper := h.ascends.early b member
      omega
    rw [below, List.takeWhile_eq_self_iff.mpr (by simpa using all)]
  · obtain ⟨closed', seg', last', cut, holds, same, seamless, base⟩ := h.cut_holds parts early inside less
    refine ⟨closed', seg', last', _, done seg' cut, holds, same, ?_, rfl, ?_, ?_⟩
    · simp only [Partition.endingAt]
      omega
    · intro before condition
      rcases condition less with zero | ⟨_, boundary⟩
      · have base := h.base_nonneg (s := seg) (by rw [parts]; simp)
        omega
      · exact seamless before boundary
    · rw [base]
      exact h.base_le_active (by rw [parts]; simp)
  · obtain ⟨new, seg', opened, cut, holds, same, seamless, base⟩ := h.emptied_holds lower less late
    refine ⟨[], seg', [], _, done new seg' opened cut, holds, same.symm, ?_, rfl, ?_, ?_⟩
    · simp only [Partition.endingAt]
      omega
    · intro _ condition
      rcases condition less with zero | ⟨above, _⟩
      · exact seamless zero
      · obtain ⟨s, member, first⟩ := h.exists_earliest
        have start := late s member
        omega
    · rw [base]
      exact h.activeHolds.base

end Partition.Holds

end PocketKafka.Storage
