import PocketKafka.Storage.CompactionPlan

namespace PocketKafka.Storage

open Bytes Intervals Protocol Survivors

abbrev Content := Option Bytes × Option Bytes × List RecordHeader

def content (rec : Record) : Content := (rec.key, rec.value, rec.headers)

/-- The record as a rewritten batch gives it back: its null key has become an empty one. -/
def rewritten (rec : Record) : Content := (some (rec.key.getD []), rec.value, rec.headers)

def stagedBatches (pending : List Record) (bytes : Nat) : List Record → List (List Record)
  | [] => [pending]
  | rec :: rest =>
    let pending' := pending ++ [CompactWriter.renumbered rec pending.length]
    let bytes' := bytes + (rec.key.getD []).length + (rec.value.getD []).length
    if pending'.length < compactBatchSize ∧ bytes' < compactBatchBytes then stagedBatches pending' bytes' rest
    else pending' :: stagedBatches [] 0 rest

def FitsLength (batch : List Record) : Prop := (batch.flatMap (encodeRecord [])).length + 49 < 2147483648

instance (batch : List Record) : Decidable (FitsLength batch) := inferInstanceAs (Decidable (_ < _))

theorem renumbered_fits (rec : Record) (n : Nat) : (CompactWriter.renumbered rec n).Fits := by
  have bounds := int32_bounds n
  exact ⟨by simp [CompactWriter.renumbered], by simp [CompactWriter.renumbered], bounds⟩

theorem declaredCount_stamp (raw : Bytes) (base : Int) : declaredCount (stamp raw base) = declaredCount raw := by
  rw [declaredCount, declaredCount, slice_stamp _ _ _ _ (by omega), slice_stamp _ _ _ _ (by omega)]

theorem encoded_stamp {rs : List Record} {raw : Bytes} (encoded : Encoded rs raw) (base : Int) :
    Encoded rs (stamp raw base) := by
  have size := encoded.length
  have same : (stamp raw base).length = raw.length := stamp_length base (by omega)
  constructor
  · rw [same, size]
  · rw [slice_stamp _ _ _ _ (by omega), same, encoded.lengthField]
  · exact (magicField_stamp raw base).trans encoded.magic
  · rw [slice_stamp _ _ _ _ (by omega), encoded.lastOffsetDelta]
  · rw [declaredCount_stamp, encoded.count]
  · rw [← encoded.body, stamp, List.drop_append, List.drop_drop]
    simp

theorem encoded_recordsOf {rs : List Record} {raw : Bytes} (encoded : Encoded rs raw) (fits : ∀ rec ∈ rs, rec.Fits)
    (small : FitsLength rs) : Decodes raw ∧ recordsOf raw = rs.map Record.reread := by
  have size := encoded.length
  unfold FitsLength at small
  have decoded := encoded.decode fits (by omega)
  rcases done : decodeRecordBatch raw with failure | b
  · rw [done] at decoded
    cases decoded
  · rw [done] at decoded
    exact ⟨⟨b, done⟩, (Decodes.records done).trans (Except.ok.inj decoded)⟩

def encodedBatch {rs : List Record} {raw : Bytes} (encoded : Encoded rs raw) (some : rs ≠ []) : Batch where
  raw := raw
  header := by
    have size := encoded.length
    unfold batchHeaderSize
    omega
  magic := encoded.magic
  length := encoded.lengthField
  delta := by
    have positive := List.length_pos_of_ne_nil some
    have last : lastOffsetDeltaField raw = rs.length - 1 := encoded.lastOffsetDelta
    omega

theorem Segment.Holds.sync_eq {s : Segment} {bs : List Batch} (h : s.Holds bs) :
    s.sync = { s with syncedOffset := s.nextOffset, syncedBytes := s.size } := by
  unfold Segment.sync
  split
  · rename_i closed
    rw [h.log] at closed
    cases closed
  · rfl

theorem Segment.Holds.sync {s : Segment} {bs : List Batch} (h : s.Holds bs) : s.sync.Holds bs := by
  rw [h.sync_eq]
  exact ⟨h.isLocal, h.log, h.size, h.base, h.next, h.ordered, h.near, h.starts, h.index⟩

namespace CompactWriter

def view (w : CompactWriter) : Partition :=
  { unopened w.maxBytes w.interval with
    activeSegment := some w.seg
    closedSegments := w.done
    nextOffset := w.seg.nextOffset
    highWatermark := w.seg.nextOffset }

/-- The writer has taken the records `rs`; some of them may still wait in its batch. -/
structure Wrote (w : CompactWriter) (closed : List (List Batch)) (last : List Batch) (rs : List Record) : Prop where
  holds : w.view.Holds closed w.seg last
  seamless : w.view.Seamless closed w.seg last
  room : w.seg.full = false
  decodes : ∀ b ∈ stored closed last, Decodes b.raw
  fits : ∀ rec ∈ w.batch, rec.Fits
  nextOffset : w.seg.nextOffset = ((stored closed last).flatMap (fun b => recordsOf b.raw)).length
  written : ((stored closed last).flatMap (fun b => recordsOf b.raw)).map content ++
    w.batch.map (fun rec => content rec.reread) = rs.map rewritten

variable {w w' : CompactWriter} {closed : List (List Batch)} {last : List Batch} {rs : List Record} {clock : Clock}

theorem holds_synced (h : w.view.Holds closed w.seg last) :
    (view { w with seg := w.seg.sync }).Holds closed w.seg.sync last := by
  have stores := h.activeHolds.sync
  rw [h.activeHolds.sync_eq] at stores ⊢
  exact ⟨rfl, h.closedHold, stores, h.linked, h.advancing, h.closedMax, h.activeMax, h.positive, rfl, rfl⟩

theorem seamless_synced (h : w.view.Holds closed w.seg last) (seamless : w.view.Seamless closed w.seg last) :
    (view { w with seg := w.seg.sync }).Seamless closed w.seg.sync last := by
  rw [h.activeHolds.sync_eq]
  exact seamless

theorem Wrote.synced (h : w.Wrote closed last rs) : Wrote { w with seg := w.seg.sync } closed last rs := by
  have holds := holds_synced h.holds
  have seamless := seamless_synced h.holds h.seamless
  have same := h.holds.activeHolds.sync_eq
  refine ⟨holds, seamless, ?_, h.decodes, h.fits, ?_, h.written⟩
  · rw [same]
    exact h.room
  · rw [same]
    exact h.nextOffset

theorem roll_wrote (holds : w.view.Holds closed w.seg last) (seamless : w.view.Seamless closed w.seg last)
    (full : w.seg.full = true) (base : w.base = w.seg.nextOffset) :
    ∃ w', w.roll = .ok w' ∧ w'.view.Holds (closed ++ [last]) w'.seg [] ∧
      w'.view.Seamless (closed ++ [last]) w'.seg [] ∧ w'.seg.full = false ∧ w'.seg.nextOffset = w.seg.nextOffset ∧
      w' = { w with done := w.segments, seg := w'.seg } := by
  obtain ⟨new, q, _, stores, newBase, rfl, opened⟩ := holds.roll_holds full
  have next : w.seg.nextOffset = new.nextOffset := stores.nextOffset
  have rolled : w.roll = .ok { w with done := w.segments, seg := new } := by
    have found : openSegment (w.segments.map Segment.files) w.base w.maxBytes w.interval = .ok new := by
      rw [base]
      exact opened
    rw [roll, found]
  refine ⟨_, rolled, ?_, ⟨List.rel_append seamless.1 (.cons seamless.2 .nil), ?_⟩, ?_, next.symm, rfl⟩
  · exact ⟨rfl, stores.closedHold, stores.activeHolds, stores.linked, stores.advancing, stores.closedMax,
      stores.activeMax, stores.positive, rfl, rfl⟩
  · change new.baseOffset = new.nextOffset
    rw [newBase, ← next]
    rfl
  · have size := stores.activeHolds.size
    have sameMax : new.maxSegmentBytes = w.maxBytes := stores.activeMax
    have positive : 0 < w.maxBytes := stores.positive
    rw [Segment.full, decide_eq_false_iff_not]
    simp only [logBytes_nil, List.length_nil] at size
    rw [size, sameMax]
    omega

theorem Wrote.count_eq (h : w.Wrote closed last rs) :
    ((stored closed last).flatMap (fun b => recordsOf b.raw)).length + w.batch.length = rs.length := by
  have lengths := congrArg List.length h.written
  simpa only [List.length_append, List.length_map] using lengths

theorem Wrote.store (h : w.Wrote closed last rs) (some : w.batch ≠ []) (small : FitsLength w.batch)
    (segment : w.maxBytes ≤ 4294967296) (count : rs.length < 9223372036854775808) (now : Int) {seg : Segment}
    {raw : Bytes} {assigned : Int} (encoded : encodeRecordBatch (w.pending now) = .ok raw)
    (appended : w.seg.append raw = .ok (assigned, seg)) (flushes : Nat) :
    ∃ b : Batch,
      (view { w with seg := seg, batch := [], pendingBytes := 0, flushes := flushes }).Holds closed seg (last ++ [b]) ∧
      (view { w with seg := seg, batch := [], pendingBytes := 0, flushes := flushes }).Seamless closed seg (last ++ [b]) ∧
      Decodes b.raw ∧ recordsOf b.raw = w.batch.map Record.reread ∧
      seg.nextOffset = w.seg.nextOffset + w.batch.length := by
  obtain ⟨raw', same, shape⟩ := encodeRecordBatch_encoded (b := w.pending now) some rfl small
  obtain rfl : raw = raw' := Except.ok.inj (encoded.symm.trans same)
  have positive := List.length_pos_of_ne_nil some
  have delta : lastOffsetDeltaField raw = (w.batch.length : Int) - 1 := shape.lastOffsetDelta
  have total := h.count_eq
  have next := h.nextOffset
  have room : w.seg.size < 4294967296 := by
    have open' := h.room
    have sameMax : w.seg.maxSegmentBytes = w.maxBytes := h.holds.activeMax
    rw [Segment.full, decide_eq_false_iff_not, sameMax] at open'
    omega
  have fits : w.view.nextOffset + lastOffsetDeltaField (encodedBatch shape some).raw + 1 < 9223372036854775808 := by
    change w.seg.nextOffset + lastOffsetDeltaField raw + 1 < 9223372036854775808
    omega
  rcases h.holds.store_cases (encodedBatch shape some) room fits with refused | ⟨s', done, stores, seamless, newNext, _⟩
  · have clash : Except.error _ = Except.ok (assigned, seg) := refused.symm.trans appended
    cases clash
  · have result : Except.ok (assigned, seg) = Except.ok (w.view.nextOffset, s') := appended.symm.trans done
    obtain ⟨_, rfl⟩ := Prod.mk.inj (Except.ok.inj result)
    obtain ⟨decodes, records⟩ := encoded_recordsOf (encoded_stamp shape w.view.nextOffset) h.fits small
    refine ⟨(encodedBatch shape some).stamped w.view.nextOffset, stores, seamless h.seamless, decodes, records, ?_⟩
    rw [newNext]
    change w.seg.nextOffset + lastOffsetDeltaField raw + 1 = _
    omega

theorem Wrote.flush (h : w.Wrote closed last rs) (small : FitsLength w.batch) (segment : w.maxBytes ≤ 4294967296)
    (count : rs.length < 9223372036854775808) (done : w.flush clock = .ok w') :
    ∃ closed' last', w'.Wrote closed' last' rs ∧ w'.batch = [] ∧ (w.batch ≠ [] → w'.pendingBytes = 0) ∧
      w'.maxBytes = w.maxBytes := by
  by_cases some : w.batch = []
  · rw [CompactWriter.flush, if_pos some] at done
    obtain rfl := Except.ok.inj done
    exact ⟨closed, last, h, some, fun other => absurd some other, rfl⟩
  · rw [CompactWriter.flush, if_neg some] at done
    split at done
    · cases done
    · rename_i raw encoded
      split at done
      · cases done
      · rename_i assigned seg appended
        obtain ⟨b, holds, seamless, decodes, records, next⟩ := h.store some small segment count _ encoded appended
          (w.flushes + 1)
        have all : ∀ c ∈ stored closed (last ++ [b]), Decodes c.raw := by
          intro c member
          rw [stored, ← List.append_assoc, List.mem_append, List.mem_singleton] at member
          rcases member with old | rfl
          · exact h.decodes c old
          · exact decodes
        have flat : (stored closed (last ++ [b])).flatMap (fun b => recordsOf b.raw) =
            (stored closed last).flatMap (fun b => recordsOf b.raw) ++ w.batch.map Record.reread := by
          rw [stored, ← List.append_assoc, List.flatMap_append, List.flatMap_singleton, records]
        have written : ((stored closed (last ++ [b])).flatMap (fun b => recordsOf b.raw)).map content =
          rs.map rewritten := by
          rw [flat, List.map_append, List.map_map]
          exact h.written
        have total : seg.nextOffset = ((stored closed (last ++ [b])).flatMap (fun b => recordsOf b.raw)).length := by
          rw [next, h.nextOffset, flat, List.length_append, List.length_map]
          push_cast
          rfl
        by_cases full : seg.full = true
        · simp only [full, ↓reduceIte] at done
          have synced := holds.activeHolds.sync_eq
          obtain ⟨w'', rolled, holds', seamless', room, sameNext, frame⟩ := roll_wrote
            (w := ⟨w.maxBytes, w.interval, seg.nextOffset, seg.sync, w.done, [], 0, w.flushes + 1⟩)
            (holds_synced holds) (seamless_synced holds seamless) (by rw [synced]; exact full) (by rw [synced])
          obtain rfl : w'' = w' := Except.ok.inj (rolled.symm.trans done)
          have moved : stored (closed ++ [last ++ [b]]) [] = stored closed (last ++ [b]) := by simp [stored]
          have nothing : w''.batch = [] := by rw [frame]
          refine ⟨closed ++ [last ++ [b]], [], ⟨holds', seamless', room, by rwa [moved], by simp [nothing], ?_, ?_⟩,
            nothing, fun _ => by rw [frame], by rw [frame]⟩
          · rw [moved, sameNext, synced]
            exact total
          · rw [moved, nothing, written, List.map_nil, List.append_nil]
        · simp only [full, ↓reduceIte, Bool.false_eq_true] at done
          obtain rfl := Except.ok.inj done
          exact ⟨closed, last ++ [b], ⟨holds, seamless, by simpa using full, all, by simp, total, by simpa using written⟩,
            rfl, fun _ => rfl, rfl⟩

theorem Wrote.taking (h : w.Wrote closed last rs) (rec : Record) (pendingBytes : Nat) :
    Wrote { w with batch := w.batch ++ [renumbered rec w.batch.length], pendingBytes := pendingBytes } closed last
      (rs ++ [rec]) := by
  refine ⟨h.holds, h.seamless, h.room, h.decodes, ?_, h.nextOffset, ?_⟩
  · intro other member
    rcases List.mem_append.mp member with old | new
    · exact h.fits other old
    · rw [List.mem_singleton] at new
      subst new
      exact renumbered_fits rec _
  · rw [List.map_append, List.map_append, ← h.written, List.append_assoc]
    rfl

theorem Wrote.add (h : w.Wrote closed last rs) {rec : Record} {more : List Record}
    (small : ∀ batch ∈ stagedBatches w.batch w.pendingBytes (rec :: more), FitsLength batch)
    (segment : w.maxBytes ≤ 4294967296) (count : (rs ++ [rec]).length < 9223372036854775808)
    (done : w.add clock rec = .ok w') :
    ∃ closed' last', w'.Wrote closed' last' (rs ++ [rec]) ∧ w'.maxBytes = w.maxBytes ∧
      ∀ batch ∈ stagedBatches w'.batch w'.pendingBytes more, FitsLength batch := by
  simp only [CompactWriter.add] at done
  simp only [stagedBatches] at small
  have taken := h.taking rec (w.pendingBytes + (rec.key.getD []).length + (rec.value.getD []).length)
  split at done
  · rename_i waits
    obtain rfl := Except.ok.inj done
    rw [if_pos waits] at small
    exact ⟨closed, last, taken, rfl, small⟩
  · rename_i flushes
    rw [if_neg flushes] at small
    obtain ⟨closed', last', wrote, nothing, zero, sameMax⟩ := taken.flush (small _ (by simp)) segment count done
    refine ⟨closed', last', wrote, sameMax, ?_⟩
    rw [nothing, zero (by simp)]
    exact fun batch member => small batch (List.mem_cons_of_mem _ member)

theorem Wrote.addAll {xs ys : List Record} (h : w.Wrote closed last rs)
    (small : ∀ batch ∈ stagedBatches w.batch w.pendingBytes (xs ++ ys), FitsLength batch)
    (segment : w.maxBytes ≤ 4294967296) (count : (rs ++ xs).length < 9223372036854775808)
    (done : xs.foldlM (CompactWriter.add clock) w = .ok w') :
    ∃ closed' last', w'.Wrote closed' last' (rs ++ xs) ∧ w'.maxBytes = w.maxBytes ∧
      ∀ batch ∈ stagedBatches w'.batch w'.pendingBytes ys, FitsLength batch := by
  induction xs generalizing w closed last rs with
  | nil =>
    cases done
    exact ⟨closed, last, by simpa using h, rfl, small⟩
  | cons rec xs ih =>
    rw [List.foldlM_cons] at done
    obtain ⟨middle, first, rest⟩ := exists_of_bind done
    rw [← List.singleton_append, ← List.append_assoc] at count ⊢
    obtain ⟨closed', last', wrote, sameMax, small'⟩ := h.add small segment
      (by rw [List.length_append] at count; omega) first
    obtain ⟨closed'', last'', wrote', sameMax', small''⟩ := ih wrote small' (by rw [sameMax]; exact segment) count rest
    exact ⟨closed'', last'', wrote', sameMax'.trans sameMax, small''⟩

theorem Wrote.finish (h : w.Wrote closed last rs) (small : FitsLength w.batch) (segment : w.maxBytes ≤ 4294967296)
    (count : rs.length < 9223372036854775808) (done : w.finish clock = .ok w') :
    ∃ closed' last', w'.Wrote closed' last' rs ∧ w'.batch = [] ∧ w'.maxBytes = w.maxBytes := by
  rw [CompactWriter.finish] at done
  split at done
  · cases done
  · rename_i flushed result
    obtain ⟨closed', last', wrote, nothing, _, sameMax⟩ := h.flush small segment count result
    obtain rfl := Except.ok.inj done
    exact ⟨closed', last', wrote.synced, nothing, sameMax⟩

theorem newCompactWriter_wrote {maxBytes interval : Int} (positive : 0 < maxBytes)
    (done : newCompactWriter maxBytes interval = .ok w) :
    w.Wrote [] [] [] ∧ w.batch = [] ∧ w.pendingBytes = 0 ∧ w.maxBytes = maxBytes := by
  have missing : ([] : Dir).find? (fun files => files.baseOffset == 0) = none := rfl
  obtain ⟨s, opened, empty, base, next, sameMax, _⟩ := Segment.Holds.open_new missing le_rfl (by omega) maxBytes interval
  simp only [newCompactWriter, opened, Except.ok.injEq] at done
  subst done
  have size := empty.size
  simp only [logBytes_nil, List.length_nil] at size
  refine ⟨⟨?_, ⟨.nil, ?_⟩, ?_, by simp [stored], by simp, by simpa [stored] using next, rfl⟩, rfl, rfl, rfl⟩
  · exact ⟨rfl, .nil, empty, ⟨_, rfl⟩, by simp [view], by simp [view], sameMax, positive, rfl, rfl⟩
  · change s.baseOffset = s.nextOffset
    rw [base, next]
  · rw [Segment.full, decide_eq_false_iff_not, sameMax, size]
    omega

end CompactWriter

end PocketKafka.Storage
