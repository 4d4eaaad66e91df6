import PocketKafka.Storage.StableOffsets

namespace PocketKafka.Storage

open Bytes Intervals Protocol Runs Survivors

/-- The partition while a compaction is under way. Of what happened since the snapshot it knows the
    appended batches that are still in the log, and the batches that were cut off. -/
structure Window where
  partition : Partition
  appended : List Bytes
  truncated : List Bytes

namespace Window

def stores (p : Partition) : Operation → List Bytes
  | .append raw =>
    match (p.append raw).1 with
    | .ok assigned => [stamp raw assigned]
    | .error _ => []
  | .truncateTo _ => []
  | .enforceRetention .. => []
  | .reopen => []

def cuts (p q : Partition) : Operation → List Bytes
  | .append _ => []
  | .truncateTo _ => p.storedBatches.filter (· ∉ q.storedBatches)
  | .enforceRetention .. => []
  | .reopen => []

def Steps (v : Window) (op : Operation) (v' : Window) : Prop :=
  Performs v.partition op v'.partition ∧
    v'.appended = (v.appended ++ stores v.partition op).filter (· ∈ v'.partition.storedBatches) ∧
    v'.truncated = v.truncated ++ cuts v.partition v'.partition op

/-- What may happen in the window: no restart, and only batches that fit, decode and have keys. -/
def Takes (v : Window) : Operation → Prop
  | .append raw => v.partition.Accepts raw ∧ Decodes raw ∧ ∀ rec ∈ recordsOf raw, rec.key ≠ none
  | .truncateTo _ => True
  | .enforceRetention .. => True
  | .reopen => False

instance (v : Window) : (op : Operation) → Decidable (v.Takes op)
  | .append _ => inferInstanceAs (Decidable (_ ∧ _ ∧ _))
  | .truncateTo _ => .isTrue trivial
  | .enforceRetention .. => .isTrue trivial
  | .reopen => .isFalse id

/-- An append rolls only while nothing has been appended since the snapshot, and a truncation does not
    reach below the end of the snapshot. -/
def Guard (snapshotEnd : Int) (v : Window) : Operation → Prop
  | .append raw => v.Takes (.append raw) ∧
      ∀ active ∈ v.partition.activeSegment, active.full = true → v.partition.nextOffset = snapshotEnd
  | .truncateTo target => snapshotEnd ≤ clamped target
  | .enforceRetention .. => True
  | .reopen => False

instance (snapshotEnd : Int) (v : Window) : (op : Operation) → Decidable (v.Guard snapshotEnd op)
  | .append _ => inferInstanceAs (Decidable (_ ∧ _))
  | .truncateTo _ => inferInstanceAs (Decidable (_ ≤ _))
  | .enforceRetention .. => .isTrue trivial
  | .reopen => .isFalse id

end Window

theorem Partition.Holds.fromOffset_active {p : Partition} {closed : List (List Batch)} {active : Segment}
    {last : List Batch} (h : p.Holds closed active last) {offset : Int} (lower : active.baseOffset ≤ offset) :
    fromOffset offset (stored closed last) = fromOffset offset last := by
  apply fromOffset_append
  intro b member
  obtain ⟨lo, linked⟩ := h.linked
  have early := (segments_ascend h.closedHold linked).early b member
  omega

theorem mem_fromOffset {lo hi offset : Int} {bs : List Batch} (ordered : Ascends lo bs hi) {b : Batch} :
    b ∈ fromOffset offset bs ↔ b ∈ bs ∧ offset ≤ b.lastOffset := by
  constructor
  · exact fun member => ⟨fromOffset_subset member, le_lastOffset_of_fromOffset ordered member⟩
  · rintro ⟨member, reach⟩
    rw [← below_append_fromOffset offset bs, List.mem_append] at member
    rcases member with early | late
    · exact absurd (lastOffset_lt_of_below early) (not_lt.mpr reach)
    · exact late

theorem mem_below {lo hi offset : Int} {bs : List Batch} (ordered : Ascends lo bs hi) {b : Batch} :
    b ∈ below offset bs ↔ b ∈ bs ∧ b.lastOffset < offset := by
  constructor
  · exact fun member => ⟨below_subset member, lastOffset_lt_of_below member⟩
  · rintro ⟨member, less⟩
    rw [← below_append_fromOffset offset bs, List.mem_append] at member
    rcases member with early | late
    · exact early
    · exact absurd (le_lastOffset_of_fromOffset ordered late) (not_le.mpr less)

theorem below_eq_filter {lo hi offset : Int} {bs : List Batch} (ordered : Ascends lo bs hi) :
    below offset bs = bs.filter (fun b => decide (b.lastOffset < offset)) := by
  conv_rhs => rw [← below_append_fromOffset offset bs, List.filter_append]
  rw [List.filter_eq_self.mpr (fun b member => decide_eq_true (lastOffset_lt_of_below member)),
    List.filter_eq_nil_iff.mpr (fun b member => ?_), List.append_nil]
  simpa using le_lastOffset_of_fromOffset ordered member

theorem fromOffset_below {lo hi offset target : Int} {bs : List Batch} (ordered : Ascends lo bs hi)
    (less : offset ≤ target) : fromOffset offset (below target bs) = below target (fromOffset offset bs) := by
  have front : below target bs = below offset bs ++ below target (fromOffset offset bs) := by
    conv_lhs => rw [← below_append_fromOffset offset bs]
    apply below_append
    intro b member
    have early := lastOffset_lt_of_below member
    omega
  rw [front, fromOffset_append (fun b member => lastOffset_lt_of_below member), fromOffset_eq_self]
  intro b member
  exact le_lastOffset_of_fromOffset ordered (below_subset member)

theorem ascends_fromOffset {lo hi : Int} {bs : List Batch} (ordered : Ascends lo bs hi) (offset : Int) :
    ∃ mid, Ascends mid (fromOffset offset bs) hi := by
  rw [← below_append_fromOffset offset bs] at ordered
  obtain ⟨mid, _, after⟩ := ordered.split
  exact ⟨mid, after⟩

namespace Window

/-- What every step keeps: the batches from the end of the snapshot on are those appended since, and they
    are all in the active segment. -/
structure Valid (v : Window) (snapshotEnd maxSegmentBytes : Int) (closed : List (List Batch)) (active : Segment)
    (last : List Batch) : Prop where
  keeps : v.partition.Keeps closed active last
  lower : active.baseOffset ≤ snapshotEnd
  upper : snapshotEnd ≤ v.partition.nextOffset
  appended : v.appended = (fromOffset snapshotEnd (stored closed last)).map Batch.raw
  late : ∀ b ∈ fromOffset snapshotEnd (stored closed last), snapshotEnd ≤ b.baseOffset
  keyed : ∀ b ∈ fromOffset snapshotEnd (stored closed last), ∀ rec ∈ recordsOf b.raw, rec.key ≠ none
  truncated : ∀ raw ∈ v.truncated, snapshotEnd ≤ baseOffsetField raw
  sameMax : v.partition.maxSegmentBytes = maxSegmentBytes

variable {v v' : Window} {snapshotEnd max : Int} {closed : List (List Batch)} {active : Segment} {last : List Batch}

theorem filter_stored {p : Partition} (h : p.Holds closed active last) {bs : List Batch}
    (inside : ∀ b ∈ bs, b ∈ stored closed last) :
    (bs.map Batch.raw).filter (· ∈ p.storedBatches) = bs.map Batch.raw := by
  rw [List.filter_eq_self, h.storedBatches_eq]
  intro raw member
  obtain ⟨b, found, rfl⟩ := List.mem_map.mp member
  exact decide_eq_true (List.mem_map_of_mem (inside b found))

theorem Valid.append {raw : Bytes} (valid : v.Valid snapshotEnd max closed active last)
    (guard : v.Guard snapshotEnd (.append raw)) (done : v.Steps (.append raw) v') :
    ∃ closed' active' last', v'.Valid snapshotEnd max closed' active' last' := by
  obtain ⟨⟨⟨shape, fits, room⟩, decodes, keyed⟩, rolls⟩ := guard
  obtain ⟨performed, appended, truncated⟩ := done
  have active := valid.keeps.holds.activeSegment
  have upper := valid.upper
  obtain ⟨closed', active', last', q, more, holds, whole, _, sameMax, base, result⟩ :=
    valid.keeps.holds.append_cases (Batch.ofRaw shape) (room _ active) fits
  -- Whatever was put into the log comes last and lies behind the snapshot.
  have news : ∀ b ∈ more, b = (Batch.ofRaw shape).stamped v.partition.nextOffset := by
    rcases result with ⟨rfl, _⟩ | ⟨rfl, _⟩
    · simp
    · simp
  have start : ∀ b ∈ more, b.baseOffset = v.partition.nextOffset := by
    intro b member
    rw [news b member]
    exact valid.keeps.holds.stamped_baseOffset _
  have recent : fromOffset snapshotEnd (stored closed' last') = fromOffset snapshotEnd (stored closed last) ++ more := by
    rw [whole]
    apply fromOffset_append_late
    intro b member
    have first := start b member
    have delta := b.delta
    unfold Batch.lastOffset
    omega
  obtain ⟨reached, stores, grows⟩ : v'.partition = q ∧ Window.stores v.partition (.append raw) = more.map Batch.raw ∧
      v.partition.nextOffset ≤ q.nextOffset := by
    have delta : 0 ≤ lastOffsetDeltaField raw := shape.2.2.2
    have same : (Batch.ofRaw shape).raw = raw := rfl
    rcases result with ⟨rfl, next, refused⟩ | ⟨rfl, next, stored⟩
    · rw [same] at refused
      exact ⟨(performed.symm.trans (congrArg Prod.snd refused)), by simp [Window.stores, refused], next.ge⟩
    · rw [same] at stored next
      exact ⟨(performed.symm.trans (congrArg Prod.snd stored)), by simp [Window.stores, stored, same], by omega⟩
  rw [← reached] at holds grows sameMax
  have member : ∀ b ∈ fromOffset snapshotEnd (stored closed' last'), b ∈ fromOffset snapshotEnd (stored closed last) ∨
      b ∈ more := by
    intro b found
    rwa [recent, List.mem_append] at found
  refine ⟨closed', active', last', ⟨holds, ?_⟩, ?_, by omega, ?_, ?_, ?_, ?_, sameMax.trans valid.sameMax⟩
  · rw [whole]
    intro b member
    rcases List.mem_append.mp member with old | new
    · exact valid.keeps.decodes b old
    · rw [news b new]
      exact ((Batch.ofRaw shape).decodes_stamped _).mpr decodes
  · rw [base]
    split
    · rename_i full
      exact (rolls _ active full).le
    · exact valid.lower
  · rw [appended, stores, valid.appended, ← List.map_append, ← recent]
    exact filter_stored holds (fun b found => fromOffset_subset found)
  · intro b found
    rcases member b found with old | new
    · exact valid.late b old
    · rw [start b new]
      exact upper
  · intro b found
    rcases member b found with old | new
    · exact valid.keyed b old
    · rw [news b new, Batch.recordsOf_stamped]
      exact keyed
  · rw [truncated]
    simpa [cuts] using valid.truncated

theorem Valid.truncateTo {target : Int} (valid : v.Valid snapshotEnd max closed active last)
    (guard : snapshotEnd ≤ clamped target) (done : v.Steps (.truncateTo target) v') :
    ∃ closed' active' last', v'.Valid snapshotEnd max closed' active' last' := by
  obtain ⟨performed, appended, truncated⟩ := done
  have upper := valid.upper
  have ordered := valid.keeps.holds.ascends
  obtain ⟨closed', active', last', q, result, holds, whole, next, sameMax, _, base⟩ :=
    valid.keeps.holds.truncateTo_holds target
  obtain rfl : v'.partition = q := performed.symm.trans (congrArg Prod.snd result)
  have recent : fromOffset snapshotEnd (stored closed' last') =
      below (clamped target) (fromOffset snapshotEnd (stored closed last)) := by
    rw [whole, fromOffset_below ordered guard]
  have inLog : ∀ b ∈ stored closed last, b.raw ∈ v'.partition.storedBatches ↔ b.lastOffset < clamped target := by
    intro b member
    rw [holds.storedBatches_eq, whole, List.mem_map]
    constructor
    · rintro ⟨c, found, same⟩
      obtain rfl : c = b := Batch.ext same
      exact lastOffset_lt_of_below found
    · exact fun less => ⟨b, (mem_below ordered).mpr ⟨member, less⟩, rfl⟩
  refine ⟨closed', active', last', ⟨holds, ?_⟩,
    base.trans valid.lower, by omega, ?_, ?_, ?_, ?_, sameMax.trans valid.sameMax⟩
  · rw [whole]
    exact fun b member => valid.keeps.decodes b (below_subset member)
  · obtain ⟨mid, ascends⟩ := ascends_fromOffset ordered snapshotEnd
    rw [appended, valid.appended, Window.stores, List.append_nil, recent, below_eq_filter ascends, List.filter_map]
    refine congrArg (List.map Batch.raw) (List.filter_congr fun b member => ?_)
    exact decide_eq_decide.mpr (inLog b (fromOffset_subset member))
  · rw [recent]
    exact fun b member => valid.late b (below_subset member)
  · rw [recent]
    exact fun b member => valid.keyed b (below_subset member)
  · intro raw member
    rw [truncated, List.mem_append] at member
    rcases member with old | new
    · exact valid.truncated raw old
    · obtain ⟨found, gone⟩ := List.mem_filter.mp new
      rw [valid.keeps.holds.storedBatches_eq] at found
      obtain ⟨b, inside, rfl⟩ := List.mem_map.mp found
      have reach : ¬ b.lastOffset < clamped target := fun less => by simp [(inLog b inside).mpr less] at gone
      exact valid.late b ((mem_fromOffset ordered).mpr ⟨inside, by omega⟩)

theorem Valid.enforceRetention {retention : Retention} {now : Int} {modTime : ModTimes}
    (valid : v.Valid snapshotEnd max closed active last) (done : v.Steps (.enforceRetention retention now modTime) v') :
    ∃ closed' active' last', v'.Valid snapshotEnd max closed' active' last' := by
  obtain ⟨performed, appended, truncated⟩ := done
  obtain ⟨n, result, holds, _⟩ := valid.keeps.holds.enforceRetention_holds retention now modTime
  have fewer : (stored (closed.drop n) last).Sublist (stored closed last) :=
    ((List.drop_sublist n closed).flatten).append_right last
  have performed' : v.partition.enforceRetention retention now modTime = v'.partition := performed
  rw [performed'] at holds result
  have recent : fromOffset snapshotEnd (stored (closed.drop n) last) = fromOffset snapshotEnd (stored closed last) := by
    rw [holds.fromOffset_active valid.lower, valid.keeps.holds.fromOffset_active valid.lower]
  have next : v'.partition.nextOffset = v.partition.nextOffset := by rw [result]
  have sameMax : v'.partition.maxSegmentBytes = v.partition.maxSegmentBytes := by rw [result]
  refine ⟨closed.drop n, active, last, ⟨holds, fun b member => valid.keeps.decodes b (fewer.subset member)⟩, valid.lower,
    valid.upper.trans next.ge, ?_, ?_, ?_, ?_, sameMax.trans valid.sameMax⟩
  · rw [appended, valid.appended, Window.stores, List.append_nil, ← recent]
    exact filter_stored holds (fun b found => fromOffset_subset found)
  · rw [recent]
    exact valid.late
  · rw [recent]
    exact valid.keyed
  · rw [truncated]
    simpa [cuts] using valid.truncated

theorem Valid.step {op : Operation} (valid : v.Valid snapshotEnd max closed active last)
    (guard : v.Guard snapshotEnd op) (done : v.Steps op v') :
    ∃ closed' active' last', v'.Valid snapshotEnd max closed' active' last' := by
  cases op with
  | append raw => exact valid.append guard done
  | truncateTo target => exact valid.truncateTo guard done
  | enforceRetention retention now modTime => exact valid.enforceRetention done
  | reopen => exact guard.elim

end Window

/-- If every append that rolls finds nothing appended since the snapshot, and no truncation reaches below
    it, the log ends up with the survivors and behind them all that was appended and not removed. -/
theorem window_survives {p q : Partition} {clock clock' : Clock} {w : CompactWriter} {snapshotEnd : Int} {v : Window}
    (stores : p.Stores) (decodes : ∀ raw ∈ p.storedBatches, Decodes raw) (keyed : ∀ rec ∈ p.records, rec.key ≠ none)
    (segment : p.maxSegmentBytes ≤ 4294967296) (staged : p.planAndStage clock = .ok (some (w, snapshotEnd)))
    (run : Reaches (Window.Guard snapshotEnd) Window.Steps ⟨p, [], []⟩ v)
    (small : ∀ batch ∈ stagedBatches [] 0 (survivors Record.key p.records ++ v.appended.flatMap recordsOf), FitsLength batch)
    (count : (p.records ++ v.appended.flatMap recordsOf).length < 9223372036854775808)
    (installed : v.partition.installCompaction clock' w snapshotEnd = (.ok (), q)) :
    q.contents = (survivors Record.key p.records ++ v.appended.flatMap recordsOf).map content ∧
      ∀ raw ∈ v.truncated, snapshotEnd ≤ baseOffsetField raw := by
  obtain ⟨closed, active, last, holds⟩ := stores
  have keeps := holds.keeps decodes
  rcases holds.planAndStage_cases keeps.decodes staged with ⟨clash, _⟩ | ⟨w', w₀, same, _, opened, written⟩
  · cases clash
  · obtain ⟨rfl, rfl⟩ := Prod.mk.inj (Option.some.inj same)
    have none : fromOffset p.nextOffset (stored closed last) = [] := by
      rw [fromOffset, List.dropWhile_eq_nil_iff]
      intro b member
      simpa using holds.ascends.early b member
    have start : Window.Valid ⟨p, [], []⟩ p.nextOffset p.maxSegmentBytes closed active last := by
      refine ⟨keeps, ?_, le_rfl, by rw [none]; rfl, by simp [none], by simp [none], by simp, rfl⟩
      rw [holds.nextOffset]
      exact holds.activeHolds.base_le_next
    obtain ⟨closed₁, active₁, last₁, valid⟩ : ∃ closed₁ active₁ last₁,
        v.Valid p.nextOffset p.maxSegmentBytes closed₁ active₁ last₁ := by
      apply run.invariant ⟨closed, active, last, start⟩
      rintro s op t ⟨_, _, _, before⟩ guard done
      exact before.step guard done
    have recent := valid.keeps.holds.fromOffset_active valid.lower
    have records : v.appended.flatMap recordsOf =
        (fromOffset p.nextOffset last₁).flatMap (fun b => recordsOf b.raw) := by
      rw [valid.appended, recent, List.flatMap_map]
    rw [records] at small count ⊢
    rw [List.length_append] at count
    have fewer : (survivors Record.key p.records).length ≤ p.records.length := (survivors_sublist _).length_le
    obtain ⟨closed₂, last₂, wrote, sameMax, small'⟩ := keeps.staged_wrote segment (by omega) _ small opened written
    obtain ⟨_, _, _, _, _, contents, _⟩ := valid.keeps.installCompaction_keeps wrote valid.lower
      (by rw [sameMax]; exact segment) small' (by rw [List.length_append]; omega) installed
    refine ⟨?_, valid.truncated⟩
    rw [contents]
    apply List.map_congr_left
    intro rec member
    have found : rec.key ≠ Option.none := by
      rcases List.mem_append.mp member with old | new
      · exact keyed rec ((survivors_sublist _).subset old)
      · obtain ⟨b, inside, holds'⟩ := List.mem_flatMap.mp new
        exact valid.keyed b (by rw [recent]; exact inside) rec holds'
    obtain ⟨k, isKey⟩ := Option.ne_none_iff_exists'.mp found
    simp [rewritten, content, isKey]

def Window.appending (v : Window) (raw : Bytes) : Window :=
  let q := (v.partition.append raw).2
  ⟨q, (v.appended ++ Window.stores v.partition (.append raw)).filter (· ∈ q.storedBatches), v.truncated⟩

theorem Window.appending_steps (v : Window) (raw : Bytes) : v.Steps (.append raw) (v.appending raw) :=
  ⟨rfl, rfl, (List.append_nil _).symm⟩

def fillingWindow (empty : Partition) : Window :=
  Window.appending ⟨empty.appendAll keyedBatches, [], []⟩ (oneRecord (some [8]) [3])

def rollingWindow (empty : Partition) : Window := (fillingWindow empty).appending (oneRecord (some [9]) [4])

/-- What a log and a window have to meet, and what is left after the install. -/
def Window.Ends (p : Partition) (v : Window) (left : List Content) : Prop :=
  match p.planAndStage (fun _ => 0) with
  | .ok (some (w, snapshotEnd)) =>
    (∀ raw ∈ p.storedBatches, Decodes raw) ∧ (∀ rec ∈ p.records, rec.key ≠ none) ∧ p.maxSegmentBytes ≤ 4294967296 ∧
      (∀ batch ∈ stagedBatches [] 0 (survivors Record.key p.records ++ v.appended.flatMap recordsOf), FitsLength batch) ∧
      (p.records ++ v.appended.flatMap recordsOf).length < 9223372036854775808 ∧
      (v.partition.installCompaction (fun _ => 0) w snapshotEnd).1 = .ok () ∧
      (v.partition.installCompaction (fun _ => 0) w snapshotEnd).2.contents = left ∧ snapshotEnd = p.nextOffset
  | _ => False

instance (p : Partition) (v : Window) (left : List Content) : Decidable (Window.Ends p v left) := by
  unfold Window.Ends
  split <;> infer_instance

/-- The record with key 8 was acknowledged in the window and is gone: it lies in the segment that was active
    at the snapshot, and only the one that is active at the end is replayed. -/
theorem roll_in_window_loses_record :
    ¬ ∀ (p q : Partition) (clock clock' : Clock) (w : CompactWriter) (snapshotEnd : Int) (v : Window), p.Stores →
      (∀ raw ∈ p.storedBatches, Decodes raw) → (∀ rec ∈ p.records, rec.key ≠ none) →
      p.maxSegmentBytes ≤ 4294967296 → p.planAndStage clock = .ok (some (w, snapshotEnd)) →
      Reaches Window.Takes Window.Steps ⟨p, [], []⟩ v →
      (∀ batch ∈ stagedBatches [] 0 (survivors Record.key p.records ++ v.appended.flatMap recordsOf), FitsLength batch) →
      (p.records ++ v.appended.flatMap recordsOf).length < 9223372036854775808 →
      v.partition.installCompaction clock' w snapshotEnd = (.ok (), q) →
      q.contents = (survivors Record.key p.records ++ v.appended.flatMap recordsOf).map content := by
  intro everyWindow
  have accepted : (openPartition [] 200 100).map (fun empty => decide (empty.AcceptsAll keyedBatches ∧
      Window.Takes ⟨empty.appendAll keyedBatches, [], []⟩ (.append (oneRecord (some [8]) [3])) ∧
      (fillingWindow empty).Takes (.append (oneRecord (some [9]) [4])))) = .ok true := by decide +kernel
  have outcome : (openPartition [] 200 100).map (fun empty => decide (
      Window.Ends (empty.appendAll keyedBatches) (rollingWindow empty) [(some [7], some [2], []), (some [9], some [4], [])] ∧
      (survivors Record.key (empty.appendAll keyedBatches).records ++
        (rollingWindow empty).appended.flatMap recordsOf).map content =
        [(some [7], some [2], []), (some [8], some [3], []), (some [9], some [4], [])])) = .ok true := by decide +kernel
  rcases opened : openPartition [] 200 100 with failure | empty
  · rw [opened] at accepted
    cases accepted
  · rw [opened] at accepted outcome
    simp only [Except.map, Except.ok.injEq, decide_eq_true_eq] at accepted outcome
    obtain ⟨accepts, first, second⟩ := accepted
    obtain ⟨ends, expected⟩ := outcome
    have run : Reaches Window.Takes Window.Steps ⟨empty.appendAll keyedBatches, [], []⟩ (rollingWindow empty) :=
      ((Reaches.refl _).next _ first (Window.appending_steps _ _)).next _ second (Window.appending_steps _ _)
    rw [Window.Ends] at ends
    split at ends
    · rename_i w snapshotEnd staged
      obtain ⟨decodes, keyed, segment, small, count, done, contents, _⟩ := ends
      have result := everyWindow _ _ _ (fun _ => 0) w snapshotEnd _ (stores_appendAll (by decide) opened accepts)
        decodes keyed
        segment staged run small count (Prod.ext done rfl)
      rw [contents, expected] at result
      revert result
      decide
    · exact ends

theorem window_survives_one_append :
    ∃ (empty q : Partition), openPartition [] 200 100 = .ok empty ∧
      q.contents = [(some [7], some [2], []), (some [8], some [3], [])] ∧
      q.contents = (survivors Record.key (empty.appendAll keyedBatches).records ++
        (fillingWindow empty).appended.flatMap recordsOf).map content := by
  have accepted : (openPartition [] 200 100).map (fun empty => decide (empty.AcceptsAll keyedBatches ∧
      Window.Guard (empty.appendAll keyedBatches).nextOffset ⟨empty.appendAll keyedBatches, [], []⟩
        (.append (oneRecord (some [8]) [3])))) = .ok true := by decide +kernel
  have outcome : (openPartition [] 200 100).map (fun empty => decide (Window.Ends (empty.appendAll keyedBatches)
      (fillingWindow empty) [(some [7], some [2], []), (some [8], some [3], [])])) = .ok true := by decide +kernel
  rcases opened : openPartition [] 200 100 with failure | empty
  · rw [opened] at accepted
    cases accepted
  · rw [opened] at accepted outcome
    simp only [Except.map, Except.ok.injEq, decide_eq_true_eq] at accepted outcome
    obtain ⟨accepts, guard⟩ := accepted
    rw [Window.Ends] at outcome
    split at outcome
    · rename_i w snapshotEnd staged
      obtain ⟨decodes, keyed, segment, small, count, done, contents, rfl⟩ := outcome
      have run : Reaches (Window.Guard (empty.appendAll keyedBatches).nextOffset) Window.Steps
          ⟨empty.appendAll keyedBatches, [], []⟩ (fillingWindow empty) :=
        (Reaches.refl _).next _ guard (Window.appending_steps _ _)
      exact ⟨empty, _, rfl, contents, (window_survives (stores_appendAll (by decide) opened accepts) decodes keyed
        segment staged run small count (Prod.ext done rfl)).1⟩
    · exact outcome.elim

end PocketKafka.Storage
