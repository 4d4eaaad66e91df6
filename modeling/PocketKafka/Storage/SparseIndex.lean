import PocketKafka.Storage.TornIndex

namespace PocketKafka.Storage

open Bytes Intervals Runs

def Segment.scan (s : Segment) (offset maxBytes : Int) : Bytes × Option Failure :=
  readLoop s.log s.size offset maxBytes 0 []

theorem Segment.Holds.scan_eq {s : Segment} {bs : List Batch} (h : s.Holds bs) {offset maxBytes : Int}
    (positive : 0 < maxBytes) : s.scan offset maxBytes = (logBytes (collect maxBytes 0 (fromOffset offset bs)), none) := by
  rw [Segment.scan, Segment.log, h.log, h.size]
  exact h.readLoop_at (List.nil_append bs).symm positive

theorem Segment.Built.read_eq_scan {s : Segment} {bs : List Batch} (h : s.Built bs) {offset maxBytes : Int}
    (lower : s.baseOffset ≤ offset) (positive : 0 < maxBytes) : s.read offset maxBytes = s.scan offset maxBytes := by
  obtain ⟨_, stop, _, holds⟩ := h
  -- Neither looks at the end offset.
  exact (holds.read_eq lower positive).trans (holds.scan_eq positive).symm

/-- In every segment that appends and truncations have built, a read through the index returns what
    a scan from the start of the file returns. -/
theorem index_transparent {base maxSegmentBytes indexInterval : Int} {empty s : Segment}
    (fresh : Fresh base maxSegmentBytes indexInterval empty) (run : Reaches SegmentOp.Fits SegmentOp.Performs empty s)
    {offset maxBytes : Int} (lower : base ≤ offset) (positive : 0 < maxBytes) :
    s.read offset maxBytes = s.scan offset maxBytes := by
  obtain ⟨rfl, bs, built⟩ := builtAt_of_run fresh run
  exact built.read_eq_scan lower positive

theorem index_transparent_twoBlanks :
    (0 : Int) ≤ 1 ∧ (0 : Int) < 1000 ∧ twoBlanks.entries.length = 1 ∧ twoBlanks.read 1 1000 = twoBlanks.scan 1 1000 :=
  ⟨by decide, by decide, by decide +kernel,
    index_transparent emptySegment_fresh twoBlanks_reached (by decide) (by decide)⟩

def wrappedSegment : Segment :=
  ((emptySegment.perform (.truncateTo 9223372036854775807)).perform (.append (headerOnly 0))).perform
    (.append (headerOnly 0))

/-- The operations are well formed and every position fits an index entry. -/
def SegmentOp.Placed (s : Segment) : SegmentOp → Prop
  | .append raw => WellFormed raw ∧ s.size < 4294967296
  | .truncateTo target => target < 9223372036854775808

theorem wrappedSegment_reached : Reaches SegmentOp.Placed SegmentOp.Performs emptySegment wrappedSegment := by
  have first : Reaches SegmentOp.Placed SegmentOp.Performs emptySegment
      (emptySegment.perform (.truncateTo 9223372036854775807)) :=
    (Reaches.refl _).next (.truncateTo 9223372036854775807) (show (_ : Int) < _ by decide) rfl
  have second := first.next (.append (headerOnly 0)) ⟨by decide +kernel, by decide +kernel⟩ rfl
  exact second.next (.append (headerOnly 0)) ⟨by decide +kernel, by decide +kernel⟩ rfl

/-- The second batch has a negative offset and an entry that is not in order, and a lookup passes
    the first batch, which a scan returns. -/
theorem wrapped_lookup :
    Fresh 0 1000 61 emptySegment ∧ Reaches SegmentOp.Placed SegmentOp.Performs emptySegment wrappedSegment ∧
      (0 : Int) ≤ 5 ∧ (0 : Int) < 1000 ∧ wrappedSegment.read 5 1000 ≠ wrappedSegment.scan 5 1000 :=
  ⟨emptySegment_fresh, wrappedSegment_reached, by decide, by decide, by decide +kernel⟩

end PocketKafka.Storage
