import PocketKafka.Storage.StoredBatches

namespace PocketKafka.Storage

open Bytes Intervals

/-- With `n` bytes collected nothing more is read: the budget is reached, or what is left of it has
    wrapped around to nothing. -/
def Spent (maxBytes : Int) (n : Nat) : Prop := maxBytes ≤ int32 n ∨ int32 (maxBytes - int32 n) ≤ 0

theorem Spent.le {maxBytes : Int} {n : Nat} (range : maxBytes < 2147483648) (spent : Spent maxBytes n) :
    maxBytes ≤ n := by
  unfold Spent int32 at spent
  omega

theorem not_spent_zero {maxBytes : Int} (positive : 0 < maxBytes) (range : maxBytes < 2147483648) :
    ¬ Spent maxBytes 0 := by
  unfold Spent int32
  omega

theorem spent_add {maxBytes : Int} {n c : Nat} (positive : 0 < maxBytes) (range : maxBytes < 2147483648)
    (open' : ¬ Spent maxBytes n) (stopped : int32 (maxBytes - int32 n) ≤ int32 c) : Spent maxBytes (n + c) := by
  unfold Spent int32 at *
  push_cast
  omega

theorem readSegments_spent {maxBytes : Int} {segs : List Segment} {out : Bytes}
    (isLocal : ∀ s ∈ segs, s.remote = none) (spent : Spent maxBytes out.length) (start : Int) :
    Partition.readSegments maxBytes segs start out = (out, none) := by
  induction segs generalizing start with
  | nil => rfl
  | cons s segs ih =>
    by_cases reached : maxBytes ≤ int32 out.length
    · rw [Partition.readSegments, if_pos reached]
    · have left : int32 (maxBytes - int32 out.length) ≤ 0 := spent.resolve_left reached
      have nothing : s.read start (int32 (maxBytes - int32 out.length)) = ([], none) := by
        rw [Segment.read, if_pos left]
      rw [Partition.readSegments, if_neg reached, if_neg (by simp [Segment.isRemote, isLocal s (by simp)]), nothing]
      simpa using ih (fun t member => isLocal t (List.mem_cons_of_mem s member)) s.logEndOffset

theorem locals_of_hold {segs : List Segment} {bss : List (List Batch)} (hold : List.Forall₂ Segment.Holds segs bss) :
    ∀ s ∈ segs, s.remote = none := by
  induction hold with
  | nil => simp
  | cons head _ ih =>
    rintro s (_ | ⟨_, member⟩)
    · exact head.isLocal
    · exact ih s member

structure Yields (maxBytes : Int) (segs : List Segment) (start : Int) (out : Bytes) (bs selected after : List Batch) :
    Prop where
  parts : bs = selected ++ after
  result : Partition.readSegments maxBytes segs start out = (out ++ logBytes selected, none)
  stops : after = [] ∨ Spent maxBytes (out ++ logBytes selected).length
  first : ¬ Spent maxBytes out.length → bs ≠ [] → selected ≠ []

theorem collect_ne_nil {budget : Int} {bs : List Batch} (positive : 0 < budget) (nonempty : bs ≠ []) :
    collect budget 0 bs ≠ [] := by
  obtain ⟨b, more, rfl⟩ := List.exists_cons_of_ne_nil nonempty
  have zero : int32 ((0 : Nat) : Int) = 0 := int32_of_bounds (by simp) (by simp)
  rw [collect, if_pos (by rw [zero]; exact positive)]
  simp

theorem Yields.cons {maxBytes start : Int} {s : Segment} {segs : List Segment} {front bs : List Batch} (out : Bytes)
    (positive : 0 < maxBytes) (range : maxBytes < 2147483648) (isLocal : ∀ t ∈ s :: segs, t.remote = none)
    (reads : ∀ budget, 0 < budget → s.read start budget = (logBytes (collect budget 0 front), none))
    (rest : ∀ out, ∃ selected after, Yields maxBytes segs s.nextOffset out bs selected after) :
    ∃ selected after, Yields maxBytes (s :: segs) start out (front ++ bs) selected after := by
  by_cases spent : Spent maxBytes out.length
  · refine ⟨[], front ++ bs, rfl, ?_, Or.inr (by simpa using spent), fun left => absurd spent left⟩
    rw [readSegments_spent isLocal spent]
    simp
  have below : ¬ maxBytes ≤ int32 out.length := fun reached => spent (Or.inl reached)
  have budget : 0 < int32 (maxBytes - int32 out.length) := by
    by_contra none
    exact spent (Or.inr (by omega))
  have step : Partition.readSegments maxBytes (s :: segs) start out =
      Partition.readSegments maxBytes segs s.nextOffset
        (out ++ logBytes (collect (int32 (maxBytes - int32 out.length)) 0 front)) := by
    rw [Partition.readSegments, if_neg below, if_neg (by simp [Segment.isRemote, isLocal s (by simp)]), reads _ budget]
    rfl
  obtain ⟨skipped, split, stopped⟩ := collect_stops (int32 (maxBytes - int32 out.length)) 0 front
  rcases stopped with rfl | early
  · rw [List.append_nil] at split
    rw [← split] at step
    obtain ⟨selected, after, yields⟩ := rest (out ++ logBytes front)
    refine ⟨front ++ selected, after, ?_, ?_, by simpa using yields.stops, fun _ nonempty => ?_⟩
    · rw [yields.parts, List.append_assoc]
    · rw [step, yields.result]
      simp
    · cases front with
      | nil => simpa using yields.first (by simpa using spent) (by simpa using nonempty)
      | cons b more => simp
  · rw [Nat.zero_add] at early
    have full := spent_add positive range spent early
    have others := fun t member => isLocal t (List.mem_cons_of_mem s member)
    refine ⟨collect (int32 (maxBytes - int32 out.length)) 0 front, skipped ++ bs, ?_, ?_, ?_, fun _ _ => ?_⟩
    · rw [← List.append_assoc, ← split]
    · rw [step, readSegments_spent others (by simpa using full)]
    · exact Or.inr (by simpa using full)
    · intro none
      have zero : int32 ((0 : Nat) : Int) = 0 := int32_of_bounds (by simp) (by simp)
      rw [none, logBytes_nil, List.length_nil, zero] at early
      omega

theorem fromOffset_eq_self {offset : Int} {bs : List Batch} (late : ∀ b ∈ bs, offset ≤ b.lastOffset) :
    fromOffset offset bs = bs := by
  cases bs with
  | nil => rfl
  | cons b rest =>
    have first := late b (by simp)
    exact List.dropWhile_cons_of_neg (by simpa using first)

theorem readSegments_yields {maxBytes : Int} {segs : List Segment} {bss : List (List Batch)} {lo hi : Int}
    (positive : 0 < maxBytes) (range : maxBytes < 2147483648) (hold : List.Forall₂ Segment.Holds segs bss)
    (linked : Gapless Segment.baseOffset Segment.nextOffset lo segs hi) (out : Bytes) :
    ∃ selected after, Yields maxBytes segs lo out bss.flatten selected after := by
  induction hold generalizing lo out with
  | nil => exact ⟨[], [], rfl, by simp [Partition.readSegments], Or.inl rfl, by simp⟩
  | @cons s bs segs bss head tail ih =>
    rw [List.flatten_cons]
    refine Yields.cons out positive range (locals_of_hold (.cons head tail)) (fun budget enough => ?_)
      (fun out => ih linked.2 out)
    have start := linked.1
    have whole := fromOffset_eq_self (start ▸ head.ordered).late
    rw [head.read_eq start.le enough, whole]

theorem fromOffset_append {offset : Int} {front back : List Batch} (early : ∀ b ∈ front, b.lastOffset < offset) :
    fromOffset offset (front ++ back) = fromOffset offset back :=
  List.dropWhile_append_of_pos (by simpa using early)

theorem fromOffset_append_late {offset : Int} {front back : List Batch} (late : ∀ b ∈ back, offset ≤ b.lastOffset) :
    fromOffset offset (front ++ back) = fromOffset offset front ++ back := by
  induction front with
  | nil => exact fromOffset_eq_self late
  | cons b rest ih =>
    by_cases less : b.lastOffset < offset
    · rw [fromOffset, fromOffset, List.cons_append, List.dropWhile_cons_of_pos (by simpa using less),
        List.dropWhile_cons_of_pos (by simpa using less)]
      exact ih
    · rw [fromOffset, fromOffset, List.cons_append, List.dropWhile_cons_of_neg (by simpa using less),
        List.dropWhile_cons_of_neg (by simpa using less), List.cons_append]

abbrev clampedStart (start : Int) : Int := if start < 0 then 0 else start

/-- Where the read starts below the earliest segment, no index entry of that segment that is not at the
    start of its log has a relative offset up to the `uint32` that the start offset wraps around to. -/
def Partition.FindsStart (p : Partition) (start : Int) : Prop :=
  ∀ first ∈ p.orderedSegments.head?, clampedStart start < first.baseOffset → ∀ idx ∈ first.index,
    ∀ entry ∈ idx.entries, entry.relativeOffset ≤ uint32 (clampedStart start - idx.baseOffset) → entry.position = 0

instance (p : Partition) (start : Int) : Decidable (p.FindsStart start) := by
  unfold Partition.FindsStart
  infer_instance

namespace Partition.Holds

variable {p : Partition} {closed : List (List Batch)} {active : Segment} {last : List Batch}

theorem dropWhile_ordered (h : p.Holds closed active last) {start : Int} (inside : start < p.nextOffset) :
    ∃ front s back, p.orderedSegments = front ++ s :: back ∧ (∀ t ∈ front, t.nextOffset ≤ start) ∧
      start < s.nextOffset ∧
      p.orderedSegments.dropWhile (fun seg => decide (¬ start < seg.logEndOffset)) = s :: back := by
  have parts := List.takeWhile_append_dropWhile (p := fun seg : Segment => decide (¬ start < seg.logEndOffset))
    (l := p.orderedSegments)
  rcases found : p.orderedSegments.dropWhile (fun seg => decide (¬ start < seg.logEndOffset)) with _ | ⟨s, back⟩
  · have all := List.dropWhile_eq_nil_iff.mp found active (by rw [h.ordered]; simp)
    rw [h.nextOffset] at inside
    exact absurd inside (by simpa [Segment.logEndOffset] using all)
  · rw [found] at parts
    refine ⟨_, s, back, parts.symm, ?_, ?_, found⟩
    · intro t member
      have passed := List.mem_takeWhile_imp member
      simpa [Segment.logEndOffset] using passed
    · have stop := List.head_dropWhile_not (fun seg : Segment => decide (¬ start < seg.logEndOffset))
        (l := p.orderedSegments) (by rw [found]; simp)
      simp only [found, List.head_cons] at stop
      simpa [Segment.logEndOffset] using stop

theorem read_local (h : p.Holds closed active last) {start : Int} (inside : clampedStart start < p.nextOffset)
    (maxBytes : Int) : p.read start maxBytes = (p.readLocked (clampedStart start) maxBytes, p) := by
  have below : ¬ p.highWatermark ≤ clampedStart start := by
    rw [h.highWatermark, ← h.nextOffset]
    omega
  have locals : p.orderedSegments.any (fun seg => decide (clampedStart start < seg.logEndOffset) && seg.isRemote) =
      false := by
    rw [List.any_eq_false]
    intro s member
    simp [Segment.isRemote, locals_of_hold h.orderedHold s member]
  simp only [Partition.read, below, ↓reduceIte, locals, Bool.false_eq_true]

theorem read_yields (h : p.Holds closed active last) {start maxBytes : Int} (positive : 0 < maxBytes)
    (range : maxBytes < 2147483648) (inside : clampedStart start < p.nextOffset) {front back : List Segment} {s : Segment}
    (parts : p.orderedSegments = front ++ s :: back)
    (dropped : p.orderedSegments.dropWhile (fun seg => decide (¬ clampedStart start < seg.logEndOffset)) = s :: back)
    {bs skipped rest : List Batch} {bss : List (List Batch)} (holds : s.Holds bs)
    (backHold : List.Forall₂ Segment.Holds back bss) (same : bs = skipped ++ rest)
    (position : ∀ idx, s.index = some idx → idx.positionForOffset (clampedStart start) = (logBytes skipped).length) :
    ∃ selected after, fromOffset (clampedStart start) rest ++ bss.flatten = selected ++ after ∧
      (p.read start maxBytes).1 = (logBytes selected, p.highWatermark, none) ∧
      (after ≠ [] → maxBytes ≤ (logBytes selected).length) ∧
      (fromOffset (clampedStart start) rest ++ bss.flatten ≠ [] → selected ≠ []) := by
  have linked := h.orderedLinked
  rw [parts] at linked
  obtain ⟨_, _, _, after⟩ := linked.split
  obtain ⟨selected, after, yields⟩ := Yields.cons [] positive range
    (locals_of_hold (.cons holds backHold)) (fun budget enough => holds.read_at same position enough)
    (fun out => readSegments_yields positive range backHold after out)
  have result := yields.result
  rw [List.nil_append] at result
  refine ⟨selected, after, yields.parts, ?_, ?_, ?_⟩
  · rw [h.read_local inside, Partition.readLocked, dropped, result]
  · intro more
    rcases yields.stops with done | spent
    · exact absurd done more
    · simpa using spent.le range
  · exact yields.first (by simpa using not_spent_zero positive range)

theorem base_le_of_passed (h : p.Holds closed active last) {start : Int} {front back : List Segment} {s : Segment}
    (parts : p.orderedSegments = front ++ s :: back) (passed : ∀ t ∈ front, t.nextOffset ≤ start)
    (some : front ≠ []) : s.baseOffset ≤ start := by
  have linked := h.orderedLinked
  rw [parts] at linked
  obtain ⟨_, before, rfl, _⟩ := linked.split
  rcases List.eq_nil_or_concat front with none | ⟨init, t, rfl⟩
  · exact absurd none some
  · rw [List.concat_eq_append] at before
    obtain ⟨_, _, _, (stop : t.nextOffset = s.baseOffset)⟩ := before.split
    have bound := passed t (by simp)
    omega

theorem fromOffset_stored (h : p.Holds closed active last) {start : Int} {front back : List Segment} {s : Segment}
    (parts : p.orderedSegments = front ++ s :: back) (passed : ∀ t ∈ front, t.nextOffset ≤ start)
    (reached : start < s.nextOffset) :
    ∃ bs bss, s.Holds bs ∧ List.Forall₂ Segment.Holds back bss ∧
      fromOffset start (stored closed last) = fromOffset start bs ++ bss.flatten ∧
      (front = [] → stored closed last = bs ++ bss.flatten) := by
  have hold := h.orderedHold
  have linked := h.orderedLinked
  rw [parts] at hold linked
  obtain ⟨as, bs, bss, same, frontHold, holds, backHold⟩ := forall₂_split hold
  obtain ⟨_, before, rfl, after⟩ := linked.split
  refine ⟨bs, bss, holds, backHold, ?_, ?_⟩
  · have early : ∀ b ∈ as.flatten, b.lastOffset < start := by
      intro b member
      have less := (segments_ascend frontHold before).early b member
      have some : front ≠ [] := by
        rintro rfl
        cases frontHold
        simp at member
      have bound := h.base_le_of_passed parts passed some
      omega
    have late : ∀ b ∈ bss.flatten, start ≤ b.lastOffset := by
      intro b member
      have less := (segments_ascend backHold after).late b member
      omega
    rw [stored_eq same, fromOffset_append early, fromOffset_append_late late]
  · rintro rfl
    cases frontHold
    rw [stored_eq same, List.flatten_nil, List.nil_append]

end Partition.Holds

end PocketKafka.Storage
