import PocketKafka.Storage.ConsecutiveReads
import PocketKafka.Storage.RepeatedCompaction

namespace PocketKafka.Storage

open Bytes Intervals Protocol Runs Survivors

def offsetsOf (base : Int) (raw : Bytes) : List (Int × Content) :=
  (recordsOf raw).map fun rec => (base + rec.offsetDelta, content rec)

def Partition.offsetRecords (p : Partition) : List (Int × Content) :=
  p.storedBatches.flatMap fun raw => offsetsOf (baseOffsetField raw) raw

/-- A partition together with what its producers have been told: every appended batch at its offset. -/
structure Ledger where
  partition : Partition
  acknowledged : List (Int × Bytes)

inductive LedgerOperation where
  | append (raw : Bytes)
  | enforceRetention (retention : Retention) (now : Int) (modTime : ModTimes)
  | compact (clock : Clock)

namespace Ledger

def promised (l : Ledger) : List (Int × Content) := l.acknowledged.flatMap fun (base, raw) => offsetsOf base raw

def recorded (l : Ledger) (raw : Bytes) : Except Failure Int × Partition → Ledger
  | (.ok assigned, p) => ⟨p, l.acknowledged ++ [(assigned, raw)]⟩
  | (.error _, p) => { l with partition := p }

def perform (l : Ledger) : LedgerOperation → Ledger
  | .append raw => l.recorded raw (l.partition.append raw)
  | .enforceRetention retention now modTime =>
    { l with partition := l.partition.enforceRetention retention now modTime }
  | .compact clock => { l with partition := (l.partition.compact clock).2 }

def Takes (l : Ledger) : LedgerOperation → Prop
  | .append raw => l.partition.Accepts raw ∧ Decodes raw
  | .enforceRetention .. => True
  | .compact _ => True

/-- What keeps offsets stable: no compaction while there is a superseded record. -/
def Guard (l : Ledger) : LedgerOperation → Prop
  | .append raw => l.partition.Accepts raw ∧ Decodes raw
  | .enforceRetention .. => True
  | .compact _ => survivors Record.key l.partition.records = l.partition.records

def Steps (l : Ledger) (op : LedgerOperation) (l' : Ledger) : Prop := l.perform op = l'

def ofPartition (p : Partition) : Ledger := ⟨p, p.storedBatches.map fun raw => (baseOffsetField raw, raw)⟩

/-- Every record of the log stands at an offset it was acknowledged at, and a read from an offset of the
    log starts with the one batch that has this offset. -/
structure Stable (l : Ledger) : Prop where
  kept : l.partition.offsetRecords.Sublist l.promised
  found : ∀ raw ∈ l.partition.storedBatches, ∀ start maxBytes : Int, l.partition.earliestOffset ≤ start →
    0 < maxBytes → maxBytes < 2147483648 →
    ((∃ more, (l.partition.read start maxBytes).1 = (raw ++ more, l.partition.highWatermark, none)) ↔
      baseOffsetField raw ≤ start ∧ start ≤ lastOffsetField raw)

end Ledger

theorem segments_cover {segs : List Segment} {bss : List (List Batch)} {lo hi : Int}
    (covered : List.Forall₂ (fun s bs => Covered s.baseOffset bs s.nextOffset) segs bss)
    (linked : Gapless Segment.baseOffset Segment.nextOffset lo segs hi) : Covered lo bss.flatten hi := by
  induction covered generalizing lo with
  | nil => exact linked
  | cons head _ ih =>
    rw [List.flatten_cons]
    exact (linked.1 ▸ head).append (ih linked.2)

theorem lastOffsetField_append (b : Batch) (rest : Bytes) : lastOffsetField (b.raw ++ rest) = b.lastOffset := by
  rw [lastOffsetField, Partition.Holds.baseOffsetField_append, lastOffsetDeltaField_append, Batch.lastOffset]

namespace Partition.Holds

variable {p : Partition} {closed : List (List Batch)} {active : Segment} {last : List Batch}

theorem covers (h : p.Holds closed active last) (seamless : p.Seamless closed active last) :
    Covered p.earliestOffset (stored closed last) p.nextOffset := by
  have all := segments_cover (h.orderedCovered seamless) h.orderedLinked
  rwa [List.flatten_append, List.flatten_singleton] at all

theorem findsStart_of_earliest_le (h : p.Holds closed active last) {start : Int} (lower : p.earliestOffset ≤ start) :
    p.FindsStart start := by
  intro s head below
  have linked := h.orderedLinked
  obtain ⟨rest, parts⟩ := List.head?_eq_some_iff.mp head
  rw [parts] at linked
  have first := linked.1
  unfold clampedStart at below
  split at below <;> omega

theorem read_starts (h : p.Holds closed active last) {start maxBytes : Int} (lower : p.earliestOffset ≤ start)
    (positive : 0 < maxBytes) (range : maxBytes < 2147483648) {b : Batch} (member : b ∈ stored closed last)
    (inside : b.baseOffset ≤ start ∧ start ≤ b.lastOffset) :
    ∃ more, (p.read start maxBytes).1 = (b.raw ++ more, p.highWatermark, none) := by
  have reads := h.readsOn_of_findsStart positive range (h.findsStart_of_earliest_le lower)
  have stores : b.raw ∈ p.storedBatches := by
    rw [h.storedBatches_eq]
    exact List.mem_map_of_mem member
  obtain ⟨before, first, selected, after, parts, early, reach, _, result⟩ := reads ⟨b.raw, stores, inside.2⟩
  obtain ⟨front, back, split⟩ := List.append_of_mem member
  have ordered := h.ascends
  rw [split] at ordered
  have earlier : ∀ c ∈ front, c.lastOffset < start := by
    intro c found
    have order := ordered.across Batch.proper found List.mem_cons_self
    unfold Batch.nextOffset at order
    omega
  -- Both are the first stored batch that reaches the start offset.
  have found : p.storedBatches.find? (fun raw => decide (start ≤ lastOffsetField raw)) = some first := by
    rw [List.find?_eq_some_iff_append]
    exact ⟨by simpa using reach, before, selected ++ after, by simp [parts], by simpa using early⟩
  have found' : p.storedBatches.find? (fun raw => decide (start ≤ lastOffsetField raw)) = some b.raw := by
    rw [List.find?_eq_some_iff_append, h.storedBatches_eq, split]
    refine ⟨decide_eq_true inside.2, front.map Batch.raw, back.map Batch.raw, by simp, ?_⟩
    intro raw found
    obtain ⟨c, isFront, rfl⟩ := List.mem_map.mp found
    simp only [Bool.not_eq_true', decide_eq_false_iff_not, not_le]
    exact earlier c isFront
  obtain rfl : first = b.raw := Option.some.inj (found.symm.trans found')
  exact ⟨selected.flatten, result⟩

theorem read_starts_iff (h : p.Holds closed active last) (seamless : p.Seamless closed active last)
    {start maxBytes : Int} (lower : p.earliestOffset ≤ start) (positive : 0 < maxBytes) (range : maxBytes < 2147483648)
    {b : Batch} (member : b ∈ stored closed last) :
    (∃ more, (p.read start maxBytes).1 = (b.raw ++ more, p.highWatermark, none)) ↔
      b.baseOffset ≤ start ∧ start ≤ b.lastOffset := by
  constructor
  · rintro ⟨more, result⟩
    by_cases upper : start < p.nextOffset
    · obtain ⟨c, found, inside⟩ := (h.covers seamless).find lower upper
      obtain ⟨others, result'⟩ := h.read_starts lower positive range found ⟨inside.1, Int.le_of_lt_add_one inside.2⟩
      have same : b.raw ++ more = c.raw ++ others := congrArg Prod.fst (result.symm.trans result')
      have sameBase := congrArg baseOffsetField same
      have sameLast := congrArg lastOffsetField same
      rw [baseOffsetField_append, baseOffsetField_append] at sameBase
      rw [lastOffsetField_append, lastOffsetField_append] at sameLast
      rw [sameBase, sameLast]
      exact ⟨inside.1, Int.le_of_lt_add_one inside.2⟩
    · have long := b.header
      have past : p.highWatermark ≤ clampedStart start := by
        rw [h.highWatermark, ← h.nextOffset]
        unfold clampedStart
        split <;> omega
      have nothing : b.raw ++ more = [] := by
        rw [Partition.read, if_pos past] at result
        exact (congrArg Prod.fst result).symm
      simp only [List.append_eq_nil_iff] at nothing
      rw [nothing.1] at long
      cases long
  · exact h.read_starts lower positive range member

end Partition.Holds

theorem Batch.decode_stamped (b : Batch) (base : Int) :
    (decodeRecordBatch (b.stamped base).raw).map RecordBatch.records = (decodeRecordBatch b.raw).map
      RecordBatch.records := by
  have body : (stamp b.raw base).drop 61 = b.raw.drop 61 := by
    rw [stamp, List.drop_append, List.drop_drop]
    simp
  rw [decodeRecordBatch_records (b.stamped base).header (b.stamped base).magic, decodeRecordBatch_records b.header b.magic,
    stamped_raw, declaredCount_stamp, body]

theorem decodes_iff {raw : Bytes} : Decodes raw ↔ ∃ rs, (decodeRecordBatch raw).map RecordBatch.records = .ok rs := by
  rw [Decodes]
  cases decodeRecordBatch raw <;> simp [Except.map]

theorem recordsOf_eq (raw : Bytes) :
    recordsOf raw = ((decodeRecordBatch raw).map RecordBatch.records).toOption.getD [] := by
  rw [recordsOf]
  cases decodeRecordBatch raw <;> rfl

theorem Batch.recordsOf_stamped (b : Batch) (base : Int) : recordsOf (b.stamped base).raw = recordsOf b.raw := by
  rw [recordsOf_eq, recordsOf_eq, decode_stamped]

theorem Batch.decodes_stamped (b : Batch) (base : Int) : Decodes (b.stamped base).raw ↔ Decodes b.raw := by
  rw [decodes_iff, decodes_iff, decode_stamped]

theorem Partition.Holds.offsetRecords_eq {p : Partition} {closed : List (List Batch)} {active : Segment}
    {last : List Batch} (h : p.Holds closed active last) :
    p.offsetRecords = (stored closed last).flatMap (fun b => offsetsOf b.baseOffset b.raw) := by
  rw [Partition.offsetRecords, h.storedBatches_eq, List.flatMap_map]
  rfl

theorem Partition.Holds.stamped_baseOffset {p : Partition} {closed : List (List Batch)} {active : Segment}
    {last : List Batch} (h : p.Holds closed active last) (b : Batch) :
    (b.stamped p.nextOffset).baseOffset = p.nextOffset := by
  rw [h.nextOffset]
  exact h.activeHolds.stamped_baseOffset b

theorem Partition.Keeps.compact_unchanged {p : Partition} {closed : List (List Batch)} {active : Segment}
    {last : List Batch} (h : p.Keeps closed active last) (clock : Clock)
    (same : survivors Record.key p.records = p.records) : (p.compact clock).2 = p := by
  rw [Partition.compact]
  split
  · rfl
  · split
    · rfl
    · rfl
    · rename_i staged
      rcases h.holds.planAndStage_cases h.decodes staged with ⟨clash, _⟩ | ⟨_, _, _, different, _⟩
      · cases clash
      · exact absurd same different

/-- What every step keeps: a log of decodable batches without holes, each record at a promised offset. -/
structure Ledger.Valid (l : Ledger) : Prop where
  keeps : ∃ closed active last, l.partition.Keeps closed active last ∧ l.partition.Seamless closed active last
  kept : l.partition.offsetRecords.Sublist l.promised

namespace Ledger

variable {l : Ledger}

theorem Valid.append {raw : Bytes} (valid : l.Valid) (accepts : l.partition.Accepts raw) (decodes : Decodes raw) :
    (l.perform (.append raw)).Valid ∧ l.partition.nextOffset ≤ (l.perform (.append raw)).partition.nextOffset := by
  obtain ⟨closed, active, last, keeps, seamless⟩ := valid.keeps
  obtain ⟨shape, fits, room⟩ := accepts
  have kept := valid.kept
  have delta := shape.2.2.2
  obtain ⟨closed', active', last', q, more, holds, whole, seamless', _, _, result⟩ := keeps.holds.append_cases
    (Batch.ofRaw shape) (room active keeps.holds.activeSegment) fits
  rcases result with ⟨rfl, next, done⟩ | ⟨rfl, next, done⟩
  · have same : l.perform (.append raw) = { l with partition := q } :=
      congrArg (l.recorded raw) done
    rw [List.append_nil] at whole
    rw [same]
    refine ⟨⟨⟨closed', active', last', ⟨holds, by rw [whole]; exact keeps.decodes⟩, seamless' seamless⟩, ?_⟩, next.ge⟩
    change q.offsetRecords.Sublist l.promised
    rw [holds.offsetRecords_eq, whole, ← keeps.holds.offsetRecords_eq]
    exact kept
  · have same : l.perform (.append raw) = ⟨q, l.acknowledged ++ [(l.partition.nextOffset, raw)]⟩ :=
      congrArg (l.recorded raw) done
    have decodes' : Decodes ((Batch.ofRaw shape).stamped l.partition.nextOffset).raw :=
      ((Batch.ofRaw shape).decodes_stamped _).mpr decodes
    rw [same]
    refine ⟨⟨⟨closed', active', last', ⟨holds, ?_⟩, seamless' seamless⟩, ?_⟩, ?_⟩
    · rw [whole]
      intro b member
      rcases List.mem_append.mp member with old | new
      · exact keeps.decodes b old
      · rw [List.mem_singleton.mp new]
        exact decodes'
    · have log : q.offsetRecords = l.partition.offsetRecords ++ offsetsOf l.partition.nextOffset raw := by
        rw [holds.offsetRecords_eq, whole, List.flatMap_append, ← keeps.holds.offsetRecords_eq, List.flatMap_singleton,
          keeps.holds.stamped_baseOffset, offsetsOf, Batch.recordsOf_stamped]
        rfl
      have told : (Ledger.mk q (l.acknowledged ++ [(l.partition.nextOffset, raw)])).promised =
          l.promised ++ offsetsOf l.partition.nextOffset raw := by
        simp [promised]
      rw [told]
      change q.offsetRecords.Sublist _
      rw [log]
      exact kept.append_right _
    · change _ ≤ q.nextOffset
      rw [next]
      change _ ≤ _ + lastOffsetDeltaField raw + 1
      omega

theorem Valid.enforceRetention (valid : l.Valid) (retention : Retention) (now : Int) (modTime : ModTimes) :
    (l.perform (.enforceRetention retention now modTime)).Valid ∧
      l.partition.nextOffset ≤ (l.perform (.enforceRetention retention now modTime)).partition.nextOffset := by
  obtain ⟨closed, active, last, keeps, seamless⟩ := valid.keeps
  obtain ⟨n, done, holds, seamless'⟩ := keeps.holds.enforceRetention_holds retention now modTime
  have fewer : (stored (closed.drop n) last).Sublist (stored closed last) :=
    ((List.drop_sublist n closed).flatten).append_right last
  refine ⟨⟨⟨_, active, last, ⟨holds, fun b member => keeps.decodes b (fewer.subset member)⟩, seamless' seamless⟩, ?_⟩, ?_⟩
  · change (l.partition.enforceRetention retention now modTime).offsetRecords.Sublist l.promised
    rw [holds.offsetRecords_eq]
    refine List.Sublist.trans ?_ valid.kept
    rw [keeps.holds.offsetRecords_eq]
    exact fewer.flatMap _
  · change _ ≤ (l.partition.enforceRetention retention now modTime).nextOffset
    rw [done]

theorem Valid.perform {op : LedgerOperation} (valid : l.Valid) (guard : l.Guard op) :
    (l.perform op).Valid ∧ l.partition.nextOffset ≤ (l.perform op).partition.nextOffset := by
  cases op with
  | append raw => exact valid.append guard.1 guard.2
  | enforceRetention retention now modTime => exact valid.enforceRetention retention now modTime
  | compact clock =>
    obtain ⟨closed, active, last, keeps, _⟩ := valid.keeps
    have same : l.perform (.compact clock) = l := by
      rw [Ledger.perform, keeps.compact_unchanged clock guard]
    rw [same]
    exact ⟨valid, le_rfl⟩

theorem Valid.stable (valid : l.Valid) : l.Stable := by
  obtain ⟨closed, active, last, keeps, seamless⟩ := valid.keeps
  refine ⟨valid.kept, fun raw member start maxBytes lower positive range => ?_⟩
  rw [keeps.holds.storedBatches_eq] at member
  obtain ⟨b, inside, rfl⟩ := List.mem_map.mp member
  exact keeps.holds.read_starts_iff seamless lower positive range inside

theorem ofPartition_valid {p : Partition} (sound : p.Sound) (decodes : ∀ raw ∈ p.storedBatches, Decodes raw) :
    (ofPartition p).Valid := by
  obtain ⟨closed, active, last, holds, seamless⟩ := sound
  refine ⟨⟨closed, active, last, holds.keeps decodes, seamless⟩, ?_⟩
  rw [promised, ofPartition, List.flatMap_map]
  exact List.Sublist.refl _

theorem Valid.step {l' : Ledger} {op : LedgerOperation} (valid : l.Valid) (guard : l.Guard op) (done : l.Steps op l') :
    l'.Valid ∧ l.partition.nextOffset ≤ l'.partition.nextOffset := by
  obtain rfl : l.perform op = l' := done
  exact valid.perform guard

end Ledger

/-- As long as nothing superseded is compacted away, records stay at their offsets and the log end never
    moves back. -/
theorem offsets_stable {p : Partition} (sound : p.Sound) (decodes : ∀ raw ∈ p.storedBatches, Decodes raw) {l : Ledger}
    (run : Reaches Ledger.Guard Ledger.Steps (.ofPartition p) l) :
    l.Stable ∧ ∀ l', Reaches Ledger.Guard Ledger.Steps l l' → l.partition.logEndOffset ≤ l'.partition.logEndOffset := by
  have valid : l.Valid := run.invariant (Ledger.ofPartition_valid sound decodes)
    (fun _ _ _ valid guard done => (valid.step guard done).1)
  refine ⟨valid.stable, fun l' more => ?_⟩
  have both : l'.Valid ∧ l.partition.nextOffset ≤ l'.partition.nextOffset := by
    apply more.invariant ⟨valid, le_rfl⟩
    intro s op t before guard done
    obtain ⟨after, grows⟩ := before.1.step guard done
    exact ⟨after, before.2.trans grows⟩
  exact both.2

instance : DecidableEq (Int × Content) := instDecidableEqProd

def twoOfOneKey (empty : Partition) : Ledger :=
  ((Ledger.ofPartition empty).perform (.append (oneRecord (some [7]) [1]))).perform (.append (oneRecord (some [7]) [2]))

/-- The second record was acknowledged at offset 1. The compaction moves it to 0 and the log end to 1. -/
theorem compaction_moves_record :
    ∃ empty, openPartition [] 1000 100 = .ok empty ∧
      Reaches Ledger.Takes Ledger.Steps (.ofPartition empty) (twoOfOneKey empty) ∧
      (twoOfOneKey empty).promised = [(0, some [7], some [1], []), (1, some [7], some [2], [])] ∧
      ((twoOfOneKey empty).perform (.compact fun _ => 0)).partition.offsetRecords = [(0, some [7], some [2], [])] ∧
      ¬ ((twoOfOneKey empty).perform (.compact fun _ => 0)).Stable ∧
      ((twoOfOneKey empty).perform (.compact fun _ => 0)).partition.logEndOffset <
        (twoOfOneKey empty).partition.logEndOffset := by
  have accepted : (openPartition [] 1000 100).map (fun empty =>
      let l := (Ledger.ofPartition empty).perform (.append (oneRecord (some [7]) [1]))
      decide (empty.Accepts (oneRecord (some [7]) [1]) ∧ l.partition.Accepts (oneRecord (some [7]) [2]) ∧
        Decodes (oneRecord (some [7]) [1]) ∧ Decodes (oneRecord (some [7]) [2]))) = .ok true := by decide +kernel
  have outcome : (openPartition [] 1000 100).map (fun empty =>
      let after := (twoOfOneKey empty).perform (.compact fun _ => 0)
      decide ((twoOfOneKey empty).promised = [(0, some [7], some [1], []), (1, some [7], some [2], [])] ∧
        after.partition.offsetRecords = [(0, some [7], some [2], [])] ∧
        after.partition.logEndOffset < (twoOfOneKey empty).partition.logEndOffset)) = .ok true := by decide +kernel
  rcases opened : openPartition [] 1000 100 with failure | empty
  · rw [opened] at accepted
    cases accepted
  · rw [opened] at accepted outcome
    simp only [Except.map, Except.ok.injEq, decide_eq_true_eq] at accepted outcome
    obtain ⟨first, second, decodes, decodes'⟩ := accepted
    obtain ⟨promised, records, less⟩ := outcome
    have run : Reaches Ledger.Takes Ledger.Steps (.ofPartition empty) (twoOfOneKey empty) :=
      ((Reaches.refl _).next (.append (oneRecord (some [7]) [1])) ⟨first, decodes⟩ rfl).next
        (.append (oneRecord (some [7]) [2])) ⟨second, decodes'⟩ rfl
    refine ⟨empty, rfl, run, promised, records, fun stable => ?_, less⟩
    have kept := stable.kept
    rw [records] at kept
    change List.Sublist _ (twoOfOneKey empty).promised at kept
    rw [promised] at kept
    revert kept
    decide

theorem offsets_stable_single_record :
    ∃ empty l, openPartition [] 1000 100 = .ok empty ∧
      ((Ledger.ofPartition empty).perform (.append (oneRecord (some [7]) [1]))).perform (.compact fun _ => 0) = l ∧
      l.Stable := by
  have meets : (openPartition [] 1000 100).map (fun empty =>
      let l := (Ledger.ofPartition empty).perform (.append (oneRecord (some [7]) [1]))
      decide ((∀ raw ∈ empty.storedBatches, Decodes raw) ∧ empty.Accepts (oneRecord (some [7]) [1]) ∧
        Decodes (oneRecord (some [7]) [1]) ∧ survivors Record.key l.partition.records = l.partition.records)) =
      .ok true := by decide +kernel
  obtain ⟨empty, opened, sound⟩ := openPartition_empty 100 (show (0 : Int) < 1000 by decide)
  rw [opened] at meets
  simp only [Except.map, Except.ok.injEq, decide_eq_true_eq] at meets
  obtain ⟨decodes, accepts, decodes', same⟩ := meets
  have run : Reaches Ledger.Guard Ledger.Steps (.ofPartition empty)
      (((Ledger.ofPartition empty).perform (.append (oneRecord (some [7]) [1]))).perform (.compact fun _ => 0)) :=
    ((Reaches.refl _).next (.append (oneRecord (some [7]) [1])) ⟨accepts, decodes'⟩ rfl).next (.compact fun _ => 0) same rfl
  exact ⟨empty, _, opened, rfl, (offsets_stable sound decodes run).1⟩

end PocketKafka.Storage
