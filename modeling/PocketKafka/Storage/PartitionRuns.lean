import PocketKafka.Lib.Runs
import PocketKafka.Storage.StoredBatches

namespace PocketKafka.Storage

open Bytes Intervals Runs

inductive Operation where
  | append (raw : Bytes)
  | truncateTo (target : Int)
  | enforceRetention (retention : Retention) (now : Int) (modTime : ModTimes)
  | reopen

def Performs (p : Partition) : Operation → Partition → Prop
  | .append raw, q => (p.append raw).2 = q
  | .truncateTo target, q => (p.truncateTo target).2 = q
  | .enforceRetention retention now modTime, q => p.enforceRetention retention now modTime = q
  | .reopen, q => p.reopen = .ok q

/-- The batch fits: its position fits the index and its offsets fit an `int64`. -/
def Partition.Accepts (p : Partition) (raw : Bytes) : Prop :=
  WellFormed raw ∧ p.nextOffset + lastOffsetDeltaField raw + 1 < 9223372036854775808 ∧
    ∀ active ∈ p.activeSegment, active.full = false → active.size < 4294967296

instance (p : Partition) (raw : Bytes) : Decidable (p.Accepts raw) := inferInstanceAs (Decidable (_ ∧ _ ∧ _))

/-- A truncation that removes something goes down to 0, or to a batch boundary above the earliest offset. -/
def Partition.CutsCleanly (p : Partition) (target : Int) : Prop :=
  clamped target < p.nextOffset → clamped target = 0 ∨ p.earliestOffset < clamped target ∧
    ∀ raw ∈ p.storedBatches, ¬ (baseOffsetField raw < clamped target ∧ clamped target ≤ lastOffsetField raw)

instance (p : Partition) (target : Int) : Decidable (p.CutsCleanly target) := inferInstanceAs (Decidable (_ → _))

def Operation.Clean (p : Partition) : Operation → Prop
  | .append raw => p.Accepts raw
  | .truncateTo target => p.CutsCleanly target
  | .enforceRetention .. => True
  | .reopen => True

def Operation.Running (p : Partition) : Operation → Prop
  | .append raw => p.Accepts raw
  | .truncateTo _ => True
  | .enforceRetention .. => True
  | .reopen => False

theorem Performs.holds {p q : Partition} {op : Operation} {closed : List (List Batch)} {active : Segment}
    {last : List Batch} (holds : p.Holds closed active last) (running : op.Running p) (done : Performs p op q) :
    ∃ closed' active' last', q.Holds closed' active' last' ∧
      (p.Seamless closed active last → op.Clean p → q.Seamless closed' active' last') := by
  cases op with
  | append raw =>
    obtain ⟨shape, fits, room⟩ := running
    obtain ⟨closed', active', last', q', _, holds', _, seamless', _, _, result⟩ := holds.append_cases (Batch.ofRaw shape)
      (room active holds.activeSegment) fits
    have same : (p.append raw).2 = q' := by
      rcases result with ⟨_, _, refused⟩ | ⟨_, _, stored⟩
      · exact congrArg Prod.snd refused
      · exact congrArg Prod.snd stored
    have reached : q = q' := done.symm.trans same
    subst reached
    exact ⟨closed', active', last', holds', fun seamless _ => seamless' seamless⟩
  | truncateTo target =>
    obtain ⟨closed', active', last', q', result, holds', _, _, _, seamless', _⟩ := holds.truncateTo_holds target
    have reached : q = q' := done.symm.trans (congrArg Prod.snd result)
    subst reached
    refine ⟨closed', active', last', holds', fun seamless clean => seamless' seamless fun inside => ?_⟩
    exact (clean inside).imp_right fun ⟨above, outside⟩ => ⟨above, holds.boundary_of_stored outside⟩
  | enforceRetention retention now modTime =>
    obtain ⟨n, _, holds', seamless'⟩ := holds.enforceRetention_holds retention now modTime
    have reached : p.enforceRetention retention now modTime = q := done
    subst reached
    exact ⟨closed.drop n, active, last, holds', fun seamless _ => seamless' seamless⟩
  | reopen => exact running.elim

def Partition.Stores (p : Partition) : Prop := ∃ closed active last, p.Holds closed active last

/-- The partition stores some batches and none of its segments has a hole. -/
def Partition.Sound (p : Partition) : Prop :=
  ∃ closed active last, p.Holds closed active last ∧ p.Seamless closed active last

theorem openPartition_new (indexInterval : Int) {maxSegmentBytes : Int} (positive : 0 < maxSegmentBytes) :
    ∃ p s, openPartition [] maxSegmentBytes indexInterval = .ok p ∧ p.Holds [] s [] ∧ s.baseOffset = 0 ∧
      s.nextOffset = 0 := by
  have missing : ([] : Dir).find? (fun files => files.baseOffset == 0) = none := rfl
  obtain ⟨s, opened, empty, base, next, sameMax, _⟩ := Segment.Holds.open_new missing le_rfl (by omega)
    maxSegmentBytes indexInterval
  have done : openPartition [] maxSegmentBytes indexInterval = .ok { unopened maxSegmentBytes indexInterval with
      activeSegment := some s
      nextOffset := s.nextOffset
      highWatermark := s.nextOffset } := by
    simp [openPartition, Partition.recover, listedBases, uniq, openSegments, unopened, opened]
  exact ⟨_, s, done, ⟨rfl, .nil, empty, ⟨_, rfl⟩, by simp [unopened], by simp [unopened], sameMax, positive, rfl, rfl⟩, base,
    next⟩

theorem openPartition_empty (indexInterval : Int) {maxSegmentBytes : Int} (positive : 0 < maxSegmentBytes) :
    ∃ p, openPartition [] maxSegmentBytes indexInterval = .ok p ∧ p.Sound := by
  obtain ⟨p, s, done, holds, base, next⟩ := openPartition_new indexInterval positive
  have closed : p.closedSegments = [] := List.forall₂_nil_right_iff.mp holds.closedHold
  refine ⟨p, done, [], s, [], holds, ?_, ?_⟩
  · rw [closed]
    exact .nil
  · change s.baseOffset = s.nextOffset
    rw [base, next]

theorem Partition.Sound.stores {p : Partition} (sound : p.Sound) : p.Stores := by
  obtain ⟨closed, active, last, holds, _⟩ := sound
  exact ⟨closed, active, last, holds⟩

theorem Performs.stores {p q : Partition} {op : Operation} (stores : p.Stores) (running : op.Running p)
    (done : Performs p op q) : q.Stores := by
  obtain ⟨closed, active, last, holds⟩ := stores
  obtain ⟨closed', active', last', holds', _⟩ := Performs.holds holds running done
  exact ⟨closed', active', last', holds'⟩

theorem Performs.sound {p q : Partition} {op : Operation} (sound : p.Sound) (clean : op.Clean p)
    (done : Performs p op q) : q.Sound := by
  obtain ⟨closed, active, last, holds, seamless⟩ := sound
  have running (other : op ≠ .reopen) : op.Running p := by
    cases op with
    | append raw => exact clean
    | truncateTo target => trivial
    | enforceRetention retention now modTime => trivial
    | reopen => exact absurd rfl other
  by_cases restart : op = .reopen
  · subst restart
    obtain ⟨p', active', result, holds', seamless', _⟩ := holds.reopen_holds seamless
    have reached : q = p' := Except.ok.inj (Eq.trans (Eq.symm done) result)
    subst reached
    exact ⟨closed, active', last, holds', seamless'⟩
  · obtain ⟨closed', active', last', holds', seamless'⟩ := Performs.holds holds (running restart) done
    exact ⟨closed', active', last', holds', seamless' seamless clean⟩

def Partition.appendAll (p : Partition) : List Bytes → Partition
  | [] => p
  | raw :: rest => (p.append raw).2.appendAll rest

def Partition.AcceptsAll (p : Partition) : List Bytes → Prop
  | [] => True
  | raw :: rest => p.Accepts raw ∧ (p.append raw).2.AcceptsAll rest

instance Partition.decidableAcceptsAll (p : Partition) : (raws : List Bytes) → Decidable (p.AcceptsAll raws)
  | [] => .isTrue trivial
  | raw :: rest =>
    have := (p.append raw).2.decidableAcceptsAll rest
    inferInstanceAs (Decidable (_ ∧ _))

theorem Partition.AcceptsAll.reaches {guard : Partition → Operation → Prop} {raws : List Bytes} {empty p : Partition}
    (run : Reaches guard Performs empty p) (accepted : p.AcceptsAll raws)
    (allows : ∀ q raw, q.Accepts raw → guard q (.append raw)) : Reaches guard Performs empty (p.appendAll raws) := by
  induction raws generalizing p with
  | nil => exact run
  | cons raw rest ih => exact ih (run.next (.append raw) (allows p raw accepted.1) rfl) accepted.2

theorem sound_appendAll {maxSegmentBytes indexInterval : Int} {empty : Partition} {raws : List Bytes}
    (positive : 0 < maxSegmentBytes) (opened : openPartition [] maxSegmentBytes indexInterval = .ok empty)
    (accepted : empty.AcceptsAll raws) : (empty.appendAll raws).Sound := by
  obtain ⟨first, started, sound⟩ := openPartition_empty indexInterval positive
  obtain rfl : empty = first := Except.ok.inj (opened.symm.trans started)
  have run : Reaches (fun q op => Operation.Clean q op) Performs empty (empty.appendAll raws) :=
    accepted.reaches (.refl empty) (fun _ _ => id)
  exact run.invariant sound (fun _ _ _ => Performs.sound)

theorem stores_appendAll {maxSegmentBytes indexInterval : Int} {empty : Partition} {raws : List Bytes}
    (positive : 0 < maxSegmentBytes) (opened : openPartition [] maxSegmentBytes indexInterval = .ok empty)
    (accepted : empty.AcceptsAll raws) : (empty.appendAll raws).Stores := (sound_appendAll positive opened accepted).stores

def headerOnly (lastOffsetDelta : Nat) : Bytes :=
  List.replicate 8 0 ++ putBE 4 49 ++ putBE 4 0 ++ [2] ++ putBE 4 0 ++ putBE 2 0 ++ putBE 4 lastOffsetDelta ++
    List.replicate 34 0

end PocketKafka.Storage
