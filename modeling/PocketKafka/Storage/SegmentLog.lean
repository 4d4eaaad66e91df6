import PocketKafka.Storage.SegmentScan

namespace PocketKafka.Storage

open Bytes Intervals

/-- Offsets ascend from `lo`, leaving out what truncations inside a batch skipped. -/
abbrev Ascends (lo : Int) (bs : List Batch) (hi : Int) : Prop :=
  Ascending Batch.baseOffset Batch.nextOffset lo bs hi

/-- Offsets run from `lo` to `hi` with none left out. -/
abbrev Covered (lo : Int) (bs : List Batch) (hi : Int) : Prop :=
  Gapless Batch.baseOffset Batch.nextOffset lo bs hi

theorem Batch.proper {bs : List Batch} : ∀ b ∈ bs, b.baseOffset ≤ b.nextOffset :=
  fun b _ => b.baseOffset_lt_nextOffset.le

structure IndexFile.PointsInto (idx : IndexFile) (base : Int) (bs : List Batch) : Prop where
  baseOffset : idx.baseOffset = base
  file : idx.file = encodeEntries idx.entries
  writtenSize : idx.writtenSize = idx.file.length
  sorted : idx.entries.Pairwise (fun a b => a.relativeOffset < b.relativeOffset)
  fits : ∀ entry ∈ idx.entries, entry.Fits
  points : ∀ entry ∈ idx.entries, ∃ front b rest, bs = front ++ b :: rest ∧
    (entry.relativeOffset : Int) = b.baseOffset - base ∧ entry.position = (logBytes front).length

structure Segment.Holds (s : Segment) (bs : List Batch) : Prop where
  isLocal : s.remote = none
  log : s.logFile = some (logBytes bs)
  size : s.size = (logBytes bs).length
  base : 0 ≤ s.baseOffset
  next : s.nextOffset < 9223372036854775808
  ordered : Ascends s.baseOffset bs s.nextOffset
  near : bs ≠ [] → s.nextOffset - s.baseOffset < 2147483648
  starts : ∀ front b rest, bs = front ++ b :: rest → (logBytes front).length < 4294967296
  index : ∃ idx, s.index = some idx ∧ idx.PointsInto s.baseOffset bs

namespace IndexFile.PointsInto

variable {idx : IndexFile} {base : Int} {bs : List Batch}

theorem reset (baseOffset : idx.baseOffset = base) : idx.reset.PointsInto base [] where
  baseOffset := baseOffset
  file := rfl
  writtenSize := rfl
  sorted := List.Pairwise.nil
  fits := by simp [IndexFile.reset]
  points := by simp [IndexFile.reset]

theorem extend (h : idx.PointsInto base bs) (more : List Batch) : idx.PointsInto base (bs ++ more) where
  baseOffset := h.baseOffset
  file := h.file
  writtenSize := h.writtenSize
  sorted := h.sorted
  fits := h.fits
  points := by
    intro entry member
    obtain ⟨front, b, rest, same, relative, position⟩ := h.points entry member
    exact ⟨front, b, rest ++ more, by simp [same], relative, position⟩

theorem maybeAppend (h : idx.PointsInto base bs) (b : Batch)
    (later : ∀ a ∈ bs, a.baseOffset < b.baseOffset) (lower : base ≤ b.baseOffset)
    (upper : b.baseOffset - base < 4294967296) (position : (logBytes bs).length < 4294967296) :
    (idx.maybeAppend b.baseOffset (logBytes bs).length).PointsInto base (bs ++ [b]) := by
  rcases idx.maybeAppend_cases b.baseOffset (logBytes bs).length with same | added
  · rw [same]
    exact h.extend [b]
  · have relative := uint32_of_bounds (x := b.baseOffset - base) (by omega) upper
    have place := uint32_of_bounds (x := ((logBytes bs).length : Int)) (by omega) (by omega)
    have appended : idx.append b.baseOffset (logBytes bs).length = { idx with
        entries := idx.entries ++ [⟨uint32 (b.baseOffset - base), uint32 (logBytes bs).length⟩]
        file := encodeEntries (idx.entries ++ [⟨uint32 (b.baseOffset - base), uint32 (logBytes bs).length⟩])
        writtenSize := idx.writtenSize + 8 } := by
      simp only [IndexFile.append, h.baseOffset, h.writtenSize, writeAt_end, indexEntrySize]
      rw [encodeEntries_append, h.file]
      simp [encodeEntries, encodeEntry]
    rw [added, appended]
    constructor
    · exact h.baseOffset
    · rfl
    · simp only [encodeEntries_length, h.writtenSize, h.file, List.length_append, List.length_singleton]
      omega
    · simp only [List.pairwise_append, h.sorted, true_and, List.pairwise_singleton, List.mem_singleton]
      rintro entry member _ rfl
      obtain ⟨front, a, rest, same, earlier, _⟩ := h.points entry member
      have before := later a (by simp [same])
      simp only
      omega
    · intro entry member
      rcases List.mem_append.mp member with old | new
      · exact h.fits entry old
      · rw [List.mem_singleton] at new
        subst new
        exact ⟨uint32_lt _, uint32_lt _⟩
    · intro entry member
      rcases List.mem_append.mp member with old | new
      · exact (h.extend [b]).points entry old
      · rw [List.mem_singleton] at new
        subst new
        exact ⟨bs, b, [], rfl, relative, by simp only; omega⟩

theorem lookup (h : idx.PointsInto base bs) {hi : Int} (ordered : Ascends base bs hi) {target : Int}
    (lower : base ≤ target) :
    ∃ front rest, bs = front ++ rest ∧ idx.positionForOffset target = (logBytes front).length ∧
      ∀ b ∈ front, b.lastOffset < target := by
  rcases idx.positionForOffset_cases target h.sorted with ⟨zero, _⟩ | ⟨entry, member, below, found, _⟩
  · exact ⟨[], bs, rfl, by simpa using zero, by simp⟩
  · obtain ⟨front, b, rest, same, relative, position⟩ := h.points entry member
    refine ⟨front, b :: rest, same, by rw [found, position], fun a inFront => ?_⟩
    have across := Ascending.across Batch.proper (same ▸ ordered) inFront (List.mem_cons_self)
    have small : (uint32 (target - idx.baseOffset) : Int) ≤ target - base := by
      rw [h.baseOffset]
      unfold uint32
      omega
    unfold Batch.nextOffset at across
    omega

theorem position_le (h : idx.PointsInto base bs) {hi : Int} (ordered : Ascends base bs hi) {a b : IndexEntry}
    (memberA : a ∈ idx.entries) (memberB : b ∈ idx.entries) (order : a.relativeOffset ≤ b.relativeOffset) :
    a.position ≤ b.position := by
  obtain ⟨front, x, rest, same, relative, position⟩ := h.points a memberA
  obtain ⟨front', y, rest', same', relative', position'⟩ := h.points b memberB
  rw [position, position']
  rcases List.append_eq_append_iff.mp (same.symm.trans same') with ⟨more, rfl, _⟩ | ⟨more, rfl, tail⟩
  · rw [logBytes_append, List.length_append]
    omega
  · cases more with
    | nil => simp
    | cons z more =>
      obtain ⟨rfl, _⟩ := List.cons.inj tail
      have across := Ascending.across Batch.proper (same ▸ ordered) (x := y) (by simp) List.mem_cons_self
      have proper := y.baseOffset_lt_nextOffset
      omega

theorem lookup_any (h : idx.PointsInto base bs) (target : Int) :
    ∃ front rest, bs = front ++ rest ∧ idx.positionForOffset target = (logBytes front).length ∧
      (front ≠ [] → rest ≠ []) := by
  rcases idx.positionForOffset_cases target h.sorted with ⟨zero, _⟩ | ⟨entry, member, _, found, _⟩
  · exact ⟨[], bs, rfl, by simpa using zero, by simp⟩
  · obtain ⟨front, b, rest, same, _, position⟩ := h.points entry member
    exact ⟨front, b :: rest, same, by rw [found, position], by simp⟩

theorem position_eq_zero_iff (h : idx.PointsInto base bs) {hi : Int} (ordered : Ascends base bs hi) (target : Int) :
    idx.positionForOffset target = 0 ↔
      ∀ entry ∈ idx.entries, entry.relativeOffset ≤ uint32 (target - idx.baseOffset) → entry.position = 0 := by
  rcases idx.positionForOffset_cases target h.sorted with ⟨zero, beyond⟩ | ⟨entry, member, near, found, largest⟩
  · refine ⟨fun _ entry member near => ?_, fun _ => zero⟩
    have far := beyond entry member
    omega
  · rw [found]
    refine ⟨fun zero other inside less => ?_, fun all => all entry member near⟩
    have order := h.position_le ordered inside member (largest other inside less)
    omega

end IndexFile.PointsInto

theorem Segment.append_assigned {s s' : Segment} {raw : Bytes} {assigned : Int}
    (done : s.append raw = .ok (assigned, s')) : assigned = s.nextOffset := by
  unfold Segment.append at done
  split at done
  · cases done
  · split at done
    · cases done
    · split at done
      · cases done
      · cases done
      · simp only [Except.ok.injEq, Prod.mk.injEq] at done
        exact done.1.symm

def fromOffset (offset : Int) (bs : List Batch) : List Batch :=
  bs.dropWhile (fun b => decide (b.lastOffset < offset))

def below (target : Int) (bs : List Batch) : List Batch :=
  bs.takeWhile (fun b => decide (b.lastOffset < target))

theorem below_append_fromOffset (offset : Int) (bs : List Batch) : below offset bs ++ fromOffset offset bs = bs :=
  List.takeWhile_append_dropWhile

theorem below_subset {target : Int} {bs : List Batch} {b : Batch} (member : b ∈ below target bs) : b ∈ bs :=
  List.takeWhile_subset _ member

theorem fromOffset_subset {offset : Int} {bs : List Batch} {b : Batch} (member : b ∈ fromOffset offset bs) : b ∈ bs :=
  List.dropWhile_subset _ member

theorem lastOffset_lt_of_below {offset : Int} {bs : List Batch} {b : Batch} (member : b ∈ below offset bs) :
    b.lastOffset < offset := by
  simpa using List.mem_takeWhile_imp member

theorem le_lastOffset_of_fromOffset {lo hi offset : Int} {bs : List Batch} (ordered : Ascends lo bs hi) {b : Batch}
    (member : b ∈ fromOffset offset bs) : offset ≤ b.lastOffset := by
  induction bs generalizing lo with
  | nil => cases member
  | cons a rest ih =>
    rw [fromOffset, List.dropWhile_cons] at member
    split at member
    · exact ih ordered.2 member
    · rename_i reached
      rw [decide_eq_true_eq] at reached
      rcases List.mem_cons.mp member with rfl | later
      · omega
      · have after := (Ascending.mem Batch.proper ordered.2 later).1
        have delta := b.delta
        unfold Batch.nextOffset at after
        rw [Batch.lastOffset]
        omega

def collect (maxBytes : Int) : Nat → List Batch → List Batch
  | _, [] => []
  | n, b :: bs => if int32 n < maxBytes then b :: collect maxBytes (n + b.size) bs else []

theorem collect_stops (maxBytes : Int) (n : Nat) (bs : List Batch) :
    ∃ rest, bs = collect maxBytes n bs ++ rest ∧
      (rest = [] ∨ maxBytes ≤ int32 (n + (logBytes (collect maxBytes n bs)).length : Nat)) := by
  induction bs generalizing n with
  | nil => exact ⟨[], rfl, Or.inl rfl⟩
  | cons b bs ih =>
    by_cases room : int32 n < maxBytes
    · obtain ⟨rest, same, stopped⟩ := ih (n + b.size)
      refine ⟨rest, ?_, ?_⟩
      · rw [collect, if_pos room, List.cons_append, ← same]
      · rcases stopped with done | reached
        · exact Or.inl done
        · right
          rw [collect, if_pos room, logBytes_cons, List.length_append, ← Nat.add_assoc]
          exact reached
    · exact ⟨b :: bs, by simp [collect, room], Or.inr (by simp [collect, room]; omega)⟩

theorem Batch.int64_lastOffset (b : Batch) (lower : 0 ≤ b.baseOffset) (upper : b.lastOffset < 9223372036854775807) :
    int64 b.lastOffset = b.lastOffset := by
  have delta := b.delta
  exact int64_of_bounds (by unfold Batch.lastOffset; omega) (by omega)

theorem readLoop_collect (front : Bytes) (bs : List Batch) (offset maxBytes : Int) (out : Bytes)
    (reach : ∀ b ∈ bs, offset ≤ b.lastOffset ∧ b.lastOffset < 9223372036854775807) (base : ∀ b ∈ bs, 0 ≤ b.baseOffset) :
    readLoop (front ++ logBytes bs) (front ++ logBytes bs).length offset maxBytes front.length out =
      (out ++ logBytes (collect maxBytes out.length bs), none) := by
  induction bs generalizing front out with
  | nil => simpa [collect] using readLoop_end front offset maxBytes out
  | cons b rest ih =>
    by_cases room : int32 out.length < maxBytes
    · obtain ⟨reached, bound⟩ := reach b (by simp)
      rw [logBytes_cons, readLoop_batch front b (logBytes rest) offset maxBytes out room,
        b.int64_lastOffset (base b (by simp)) bound, if_neg (by omega),
        ih _ _ (fun c member => reach c (List.mem_cons_of_mem _ member))
          (fun c member => base c (List.mem_cons_of_mem _ member)),
        collect, if_pos room, List.length_append, ← Batch.size]
      simp
    · rw [readLoop, if_neg (fun h => room h.2), collect, if_neg room]
      simp

theorem readLoop_skip (front : Bytes) (skipped bs : List Batch) (offset maxBytes : Int) (out : Bytes)
    (room : int32 out.length < maxBytes) (early : ∀ b ∈ skipped, int64 b.lastOffset < offset) :
    readLoop (front ++ logBytes (skipped ++ bs)) (front ++ logBytes (skipped ++ bs)).length offset maxBytes
        front.length out =
      readLoop (front ++ logBytes skipped ++ logBytes bs) (front ++ logBytes skipped ++ logBytes bs).length offset
        maxBytes (front ++ logBytes skipped).length out := by
  induction skipped generalizing front with
  | nil => simp
  | cons b rest ih =>
    rw [List.cons_append, logBytes_cons, readLoop_batch front b _ offset maxBytes out room, if_pos (early b (by simp)),
      ih (front ++ b.raw) (fun c member => early c (List.mem_cons_of_mem _ member))]
    simp

namespace Segment.Holds

variable {s : Segment} {bs : List Batch}

theorem bounds (h : s.Holds bs) {b : Batch} (member : b ∈ bs) :
    0 ≤ b.baseOffset ∧ b.lastOffset < 9223372036854775807 := by
  obtain ⟨lower, upper⟩ := Ascending.mem Batch.proper h.ordered member
  have base := h.base
  have next := h.next
  unfold Batch.nextOffset at upper
  omega

theorem readLoop_at (h : s.Holds bs) {offset maxBytes : Int} {front rest : List Batch} (same : bs = front ++ rest)
    (positive : 0 < maxBytes) :
    readLoop (logBytes bs) (logBytes bs).length offset maxBytes (logBytes front).length [] =
      (logBytes (collect maxBytes 0 (fromOffset offset rest)), none) := by
  have restBounds : ∀ b ∈ rest, 0 ≤ b.baseOffset ∧ b.lastOffset < 9223372036854775807 :=
    fun b member => h.bounds (by simp [same, member])
  have zero : int32 ((([] : Bytes).length : Nat) : Int) < maxBytes := by
    rw [int32_of_bounds (by simp) (by simp)]
    simpa using positive
  have parts := below_append_fromOffset offset rest
  have scan := readLoop_skip (logBytes front) (below offset rest) (fromOffset offset rest) offset maxBytes [] zero
    (fun b member => by
      obtain ⟨lower, upper⟩ := restBounds b (below_subset member)
      rw [b.int64_lastOffset lower upper]
      exact lastOffset_lt_of_below member)
  obtain ⟨mid, _, after⟩ := Ascending.split (same ▸ h.ordered)
  have tail := readLoop_collect (logBytes front ++ logBytes (below offset rest)) (fromOffset offset rest) offset maxBytes
    [] (fun b member => ⟨le_lastOffset_of_fromOffset after member,
      (restBounds b (fromOffset_subset member)).2⟩)
    (fun b member => (restBounds b (fromOffset_subset member)).1)
  rw [parts, ← logBytes_append, ← same] at scan
  rw [scan, tail]
  simp

theorem read_at (h : s.Holds bs) {offset maxBytes : Int} {front rest : List Batch} (same : bs = front ++ rest)
    (position : ∀ idx, s.index = some idx → idx.positionForOffset offset = (logBytes front).length)
    (positive : 0 < maxBytes) :
    s.read offset maxBytes = (logBytes (collect maxBytes 0 (fromOffset offset rest)), none) := by
  obtain ⟨idx, indexed, _⟩ := h.index
  rw [Segment.read, if_neg (by omega), indexed]
  simp only [h.log, Option.getD_some, h.size, position idx indexed]
  exact h.readLoop_at same positive

theorem read_eq (h : s.Holds bs) {offset maxBytes : Int} (lower : s.baseOffset ≤ offset) (positive : 0 < maxBytes) :
    s.read offset maxBytes = (logBytes (collect maxBytes 0 (fromOffset offset bs)), none) := by
  obtain ⟨idx, indexed, points⟩ := h.index
  obtain ⟨front, rest, same, position, early⟩ := points.lookup h.ordered lower
  have dropped : fromOffset offset bs = fromOffset offset rest := by
    rw [same, fromOffset, fromOffset, List.dropWhile_append_of_pos]
    simpa using early
  rw [dropped]
  refine h.read_at same (fun other found => ?_) positive
  obtain rfl : idx = other := Option.some.inj (indexed.symm.trans found)
  exact position

end Segment.Holds

theorem ascends_below {lo hi target : Int} {bs : List Batch} (ordered : Ascends lo bs hi) (lower : lo ≤ target) :
    Ascends lo (below target bs) target := by
  induction bs generalizing lo with
  | nil => exact lower
  | cons b rest ih =>
    by_cases less : b.lastOffset < target
    · rw [below, List.takeWhile_cons_of_pos (by simpa using less)]
      exact ⟨ordered.1, ih ordered.2 less⟩
    · rw [below, List.takeWhile_cons_of_neg (by simpa using less)]
      exact lower

/-- No batch of the log has `target` inside it. -/
def Boundary (target : Int) (bs : List Batch) : Prop :=
  ∀ b ∈ bs, ¬ (b.baseOffset < target ∧ target ≤ b.lastOffset)

theorem covered_below {lo hi target : Int} {bs : List Batch} (ordered : Covered lo bs hi) (lower : lo ≤ target)
    (upper : target ≤ hi) (boundary : Boundary target bs) : Covered lo (below target bs) target := by
  induction bs generalizing lo with
  | nil =>
    have same : lo = hi := ordered
    change lo = target
    omega
  | cons b rest ih =>
    by_cases less : b.lastOffset < target
    · rw [below, List.takeWhile_cons_of_pos (by simpa using less)]
      exact ⟨ordered.1, ih ordered.2 less (fun c member => boundary c (List.mem_cons_of_mem _ member))⟩
    · rw [below, List.takeWhile_cons_of_neg (by simpa using less)]
      have outside := boundary b (by simp)
      have start := ordered.1
      change lo = target
      omega

theorem truncateLoop_below (front : Bytes) (bs : List Batch) (target : Int)
    (bounds : ∀ b ∈ bs, 0 ≤ b.baseOffset ∧ b.lastOffset < 9223372036854775807) :
    truncateLoop (front ++ logBytes bs) (front ++ logBytes bs).length target front.length =
      .ok (front ++ logBytes (below target bs)).length := by
  induction bs generalizing front with
  | nil => simpa [below] using truncateLoop_end front target
  | cons b rest ih =>
    obtain ⟨lower, upper⟩ := bounds b (by simp)
    rw [logBytes_cons, truncateLoop_batch, b.int64_lastOffset lower upper]
    by_cases reached : target ≤ b.lastOffset
    · have stop : ¬ b.lastOffset < target := by omega
      simp [reached, below, stop]
    · have less : b.lastOffset < target := by omega
      have next := ih (front ++ b.raw) (fun c member => bounds c (List.mem_cons_of_mem _ member))
      rw [if_neg reached, next]
      simp [below, less]

theorem rebuildLoop_points (done rest : List Batch) (base hi : Int) (idx : IndexFile)
    (points : idx.PointsInto base done) (ordered : Ascends base (done ++ rest) hi)
    (near : ∀ b ∈ done ++ rest, b.baseOffset - base < 4294967296)
    (starts : ∀ front b later, done ++ rest = front ++ b :: later → (logBytes front).length < 4294967296) :
    (rebuildLoop (logBytes done ++ logBytes rest) (logBytes done ++ logBytes rest).length idx
      (logBytes done).length).PointsInto base (done ++ rest) := by
  induction rest generalizing done idx with
  | nil =>
    rw [logBytes_nil, List.append_nil, rebuildLoop_end]
    simpa using points
  | cons b rest ih =>
    have later : ∀ a ∈ done, a.baseOffset < b.baseOffset := by
      intro a member
      have across := Ascending.across Batch.proper ordered member (List.mem_cons_self)
      have proper := a.baseOffset_lt_nextOffset
      omega
    have member : b ∈ done ++ b :: rest := by simp
    have extended := points.maybeAppend b later (Ascending.mem Batch.proper ordered member).1 (near b member)
      (starts done b rest rfl)
    rw [logBytes_cons, rebuildLoop_batch]
    have shifted : done ++ b :: rest = done ++ [b] ++ rest := by simp
    have next := ih (done ++ [b]) (idx.maybeAppend b.baseOffset (logBytes done).length) extended
      (shifted ▸ ordered) (shifted ▸ near) (shifted ▸ starts)
    rw [shifted]
    simpa using next

namespace Segment.Holds

variable {s : Segment} {bs : List Batch}

theorem shrink {s' : Segment} {front back : List Batch} (h : s.Holds bs) (parts : bs = front ++ back)
    (isLocal : s'.remote = none) (log : s'.logFile = some (logBytes front)) (size : s'.size = (logBytes front).length)
    (base : s'.baseOffset = s.baseOffset) (bound : s'.nextOffset < 9223372036854775808)
    (upper : bs ≠ [] → s'.nextOffset ≤ s.nextOffset) (ordered : Ascends s.baseOffset front s'.nextOffset)
    (index : ∃ idx, s'.index = some idx ∧ idx.PointsInto s.baseOffset front) : s'.Holds front where
  isLocal := isLocal
  log := log
  size := size
  base := base ▸ h.base
  next := bound
  ordered := by rw [base]; exact ordered
  near := by
    intro nonempty
    have some : bs ≠ [] := by simp [parts, nonempty]
    have near := h.near some
    have less := upper some
    rw [base]
    omega
  starts := fun before b after same => h.starts before b (after ++ back) (by simp [parts, same])
  index := by rw [base]; exact index

theorem truncateTo_eq (h : s.Holds bs) {target : Int} (above : s.baseOffset < target) :
    ∃ idx, idx.PointsInto s.baseOffset (below target bs) ∧ s.truncateTo target = .ok { s with
      logFile := some (logBytes (below target bs))
      size := (logBytes (below target bs)).length
      nextOffset := target
      index := some idx } := by
  obtain ⟨idx, indexed, points⟩ := h.index
  obtain ⟨front, rest, same, position, early⟩ := points.lookup h.ordered above.le
  have kept : below target bs = front ++ below target rest := by
    rw [same, below, below, List.takeWhile_append_of_pos]
    simpa using early
  have cut := truncateLoop_below (logBytes front) rest target (fun b member => h.bounds (by simp [same, member]))
  rw [← logBytes_append, ← logBytes_append, ← same, ← kept] at cut
  have parts := below_append_fromOffset target bs
  have taken : truncate (logBytes bs) (logBytes (below target bs)).length = logBytes (below target bs) := by
    have whole : logBytes bs = logBytes (below target bs) ++ logBytes (fromOffset target bs) := by
      rw [← logBytes_append, parts]
    rw [whole, truncate_append_left]
  have ordered := ascends_below h.ordered above.le
  have near : ∀ b ∈ [] ++ below target bs, b.baseOffset - s.baseOffset < 4294967296 := by
    intro b member
    have inside : b ∈ bs := below_subset (by simpa using member)
    have bound := h.near (List.ne_nil_of_mem inside)
    have upper := (Ascending.mem Batch.proper h.ordered inside).2
    have proper := b.baseOffset_lt_nextOffset
    omega
  have starts : ∀ front b later, [] ++ below target bs = front ++ b :: later →
      (logBytes front).length < 4294967296 := by
    intro before b after split
    rw [List.nil_append] at split
    refine h.starts before b (after ++ fromOffset target bs) ?_
    calc bs = below target bs ++ fromOffset target bs := parts.symm
      _ = before ++ b :: (after ++ fromOffset target bs) := by rw [split]; simp
  have rebuilt := rebuildLoop_points [] (below target bs) s.baseOffset target idx.reset
    (IndexFile.PointsInto.reset points.baseOffset) (by simpa using ordered) near starts
  simp only [logBytes_nil, List.nil_append, List.length_nil] at rebuilt
  refine ⟨_, rebuilt, ?_⟩
  rw [Segment.truncateTo, if_neg (by omega), indexed]
  simp only [h.log, Option.getD_some, h.size, position, cut, taken]

theorem truncateTo_holds (h : s.Holds bs) {target : Int} (above : s.baseOffset < target)
    (bound : target < 9223372036854775808) (upper : bs ≠ [] → target ≤ s.nextOffset) :
    ∃ s', s.truncateTo target = .ok s' ∧ s'.Holds (below target bs) ∧ s'.baseOffset = s.baseOffset ∧
      s'.nextOffset = target ∧ s'.maxSegmentBytes = s.maxSegmentBytes ∧ s'.indexInterval = s.indexInterval := by
  obtain ⟨idx, points, done⟩ := h.truncateTo_eq above
  refine ⟨_, done, ?_, rfl, rfl, rfl, rfl⟩
  exact h.shrink (below_append_fromOffset target bs).symm h.isLocal rfl rfl rfl bound upper
    (ascends_below h.ordered above.le) ⟨idx, rfl, points⟩

theorem truncateTo_base (h : s.Holds bs) {target : Int} (low : target ≤ s.baseOffset) :
    ∃ s', s.truncateTo target = .ok s' ∧ s'.Holds [] ∧ s'.baseOffset = s.baseOffset ∧
      s'.nextOffset = s.baseOffset ∧ s'.maxSegmentBytes = s.maxSegmentBytes := by
  obtain ⟨idx, indexed, points⟩ := h.index
  have order := Ascending.le Batch.proper h.ordered
  have next := h.next
  have done : s.truncateTo target = .ok { s with
      logFile := some []
      size := 0
      nextOffset := s.baseOffset
      index := some idx.reset } := by
    simp only [Segment.truncateTo, low, ↓reduceIte, h.log, indexed, Option.map_some]
  refine ⟨_, done, ?_, rfl, rfl, rfl⟩
  have parts : bs = [] ++ bs := rfl
  have bound : s.baseOffset < 9223372036854775808 := by omega
  exact h.shrink parts h.isLocal rfl rfl rfl bound (fun _ => order) le_rfl
    ⟨_, rfl, IndexFile.PointsInto.reset points.baseOffset⟩

theorem stamped_baseOffset (h : s.Holds bs) (b : Batch) : (b.stamped s.nextOffset).baseOffset = s.nextOffset := by
  have order := Ascending.le Batch.proper h.ordered
  have base := h.base
  exact baseOffsetField_stamp (by omega) h.next

theorem stamped_nextOffset (h : s.Holds bs) (b : Batch) :
    (b.stamped s.nextOffset).nextOffset = s.nextOffset + lastOffsetDeltaField b.raw + 1 := by
  rw [Batch.nextOffset, Batch.lastOffset, h.stamped_baseOffset, Batch.stamped_raw, lastOffsetDeltaField_stamp]

theorem append_overflow (h : s.Holds bs) (b : Batch)
    (fits : s.nextOffset + lastOffsetDeltaField b.raw + 1 < 9223372036854775808)
    (overflow : 2147483647 < s.nextOffset + lastOffsetDeltaField b.raw + 1 - s.baseOffset) :
    s.append b.raw = .error (.error "segment offset overflow") := by
  have base := h.base
  have same := int64_of_bounds (x := s.nextOffset + lastOffsetDeltaField b.raw + 1 - s.baseOffset)
    (by omega) (by omega)
  simp only [Segment.append, parseRecordBatchHeader_of_magic b.header b.magic, same, overflow, ↓reduceIte]

theorem append_holds (h : s.Holds bs) (b : Batch) (room : s.size < 4294967296)
    (fits : s.nextOffset + lastOffsetDeltaField b.raw + 1 < 9223372036854775808)
    (range : s.nextOffset + lastOffsetDeltaField b.raw + 1 - s.baseOffset ≤ 2147483647) :
    ∃ s', s.append b.raw = .ok (s.nextOffset, s') ∧ s'.Holds (bs ++ [b.stamped s.nextOffset]) ∧
      s'.baseOffset = s.baseOffset ∧ s'.nextOffset = s.nextOffset + lastOffsetDeltaField b.raw + 1 ∧
      s'.maxSegmentBytes = s.maxSegmentBytes ∧ s'.indexInterval = s.indexInterval := by
  obtain ⟨idx, indexed, points⟩ := h.index
  have base := h.base
  have delta := b.delta
  have order := Ascending.le Batch.proper h.ordered
  have stampedBase := h.stamped_baseOffset b
  have stampedNext := h.stamped_nextOffset b
  have long : 8 ≤ b.raw.length := by
    have header := b.header
    unfold batchHeaderSize at header
    omega
  have check := int64_of_bounds (x := s.nextOffset + lastOffsetDeltaField b.raw + 1 - s.baseOffset)
    (by omega) (by omega)
  have next := int64_of_bounds (x := s.nextOffset + lastOffsetDeltaField b.raw + 1) (by omega) fits
  have whole : logBytes (bs ++ [b.stamped s.nextOffset]) = logBytes bs ++ stamp b.raw s.nextOffset := by simp
  have done : s.append b.raw = .ok (s.nextOffset, { s with
      logFile := some (logBytes (bs ++ [b.stamped s.nextOffset]))
      size := (logBytes (bs ++ [b.stamped s.nextOffset])).length
      nextOffset := s.nextOffset + lastOffsetDeltaField b.raw + 1
      index := some (idx.maybeAppend s.nextOffset (logBytes bs).length) }) := by
    simp only [Segment.append, parseRecordBatchHeader_of_magic b.header b.magic, check, next,
      Int.not_lt.mpr range, ↓reduceIte, h.log, indexed, h.size, writeAt_end, whole, List.length_append,
      stamp_length _ long]
  refine ⟨_, done, ?_, rfl, rfl, rfl, rfl⟩
  have later : ∀ a ∈ bs, a.baseOffset < (b.stamped s.nextOffset).baseOffset := by
    intro a member
    have upper := (Ascending.mem Batch.proper h.ordered member).2
    have proper := a.baseOffset_lt_nextOffset
    omega
  have extended := points.maybeAppend (b.stamped s.nextOffset) later (by omega) (by omega) (by rw [← h.size]; exact room)
  rw [stampedBase] at extended
  constructor
  · exact h.isLocal
  · rfl
  · rfl
  · exact h.base
  · exact fits
  · refine h.ordered.append ⟨stampedBase.ge, ?_⟩
    rw [stampedNext]
    exact le_rfl
  · intro _
    simp only
    omega
  · intro front c rest split
    rcases List.eq_nil_or_concat rest with rfl | ⟨rest, last, rfl⟩
    · have parts := List.append_inj_left' split rfl
      rw [← parts, ← h.size]
      exact room
    · rw [List.concat_eq_append, ← List.cons_append, ← List.append_assoc] at split
      exact h.starts front c rest (List.append_inj_left' split rfl)
  · exact ⟨_, rfl, extended⟩

theorem recoveredEnd_covered {lo hi : Int} {bs : List Batch} (ordered : Covered lo bs hi)
    (lower : -9223372036854775808 ≤ lo) (upper : hi < 9223372036854775808) : recoveredEnd lo bs = hi := by
  induction bs generalizing lo with
  | nil => exact ordered
  | cons b rest ih =>
    have start := ordered.1
    have delta := b.delta
    have bound := Ascending.le Batch.proper ordered.2.ascending
    have next : lo + lastOffsetDeltaField b.raw + 1 = b.nextOffset := by
      rw [Batch.nextOffset, Batch.lastOffset, start]
    rw [recoveredEnd, List.foldl_cons, next, int64_of_bounds (by omega) (by omega)]
    exact ih ordered.2 (by omega)

theorem open_files (h : s.Holds bs) {dir : Dir}
    (found : dir.find? (fun files => files.baseOffset == s.baseOffset) = some s.files)
    (maxSegmentBytes indexInterval : Int) :
    ∃ idx, idx.PointsInto s.baseOffset bs ∧
      openSegment dir s.baseOffset maxSegmentBytes indexInterval = .ok {
        baseOffset := s.baseOffset
        logFile := some (logBytes bs)
        index := some idx
        nextOffset := recoveredEnd s.baseOffset bs
        size := (logBytes bs).length
        maxSegmentBytes := maxSegmentBytes
        indexInterval := indexInterval
        remote := none
        syncedOffset := recoveredEnd s.baseOffset bs
        syncedBytes := (logBytes bs).length } := by
  obtain ⟨idx, indexed, points⟩ := h.index
  refine ⟨⟨s.baseOffset, indexInterval, encodeEntries idx.entries, idx.entries, (encodeEntries idx.entries).length⟩,
    ⟨rfl, rfl, rfl, points.sorted, points.fits, points.points⟩, ?_⟩
  have loop := recoverLoop_batches [] bs s.baseOffset
  rw [List.nil_append, List.length_nil] at loop
  have opened := openIndex_encode idx.entries s.baseOffset indexInterval points.fits
  simp only [openSegment, found, Option.bind_some, Segment.files, h.isLocal, h.log, indexed, Option.map_some,
    Option.getD_some, points.file, opened, Segment.recover, loop]
  by_cases empty : (logBytes bs).length = 0
  · have none : bs = [] := by
      cases bs with
      | nil => rfl
      | cons b rest =>
        have long := b.size_lower
        rw [Batch.size] at long
        simp only [logBytes_cons, List.length_append] at empty
        omega
    subst none
    simp [recoveredEnd]
  · simp [empty]

theorem open_new {dir : Dir} {baseOffset : Int}
    (missing : dir.find? (fun files => files.baseOffset == baseOffset) = none)
    (lower : 0 ≤ baseOffset) (upper : baseOffset < 9223372036854775808) (maxSegmentBytes indexInterval : Int) :
    ∃ s : Segment, openSegment dir baseOffset maxSegmentBytes indexInterval = .ok s ∧ s.Holds [] ∧
      s.baseOffset = baseOffset ∧ s.nextOffset = baseOffset ∧ s.maxSegmentBytes = maxSegmentBytes ∧
      s.indexInterval = indexInterval := by
  have opened := openIndex_encode [] baseOffset indexInterval (by simp)
  rw [show encodeEntries [] = [] from rfl] at opened
  have done : openSegment dir baseOffset maxSegmentBytes indexInterval = .ok {
      baseOffset := baseOffset
      logFile := some []
      index := some ⟨baseOffset, indexInterval, [], [], 0⟩
      nextOffset := baseOffset
      size := 0
      maxSegmentBytes := maxSegmentBytes
      indexInterval := indexInterval
      remote := none
      syncedOffset := baseOffset
      syncedBytes := 0 } := by
    simp [openSegment, missing, opened, Segment.recover]
  refine ⟨_, done, ?_, rfl, rfl, rfl, rfl⟩
  constructor
  · rfl
  · rfl
  · rfl
  · exact lower
  · exact upper
  · exact le_rfl
  · simp
  · simp
  · exact ⟨_, rfl, rfl, rfl, rfl, List.Pairwise.nil, by simp, by simp⟩

end Segment.Holds

end PocketKafka.Storage
