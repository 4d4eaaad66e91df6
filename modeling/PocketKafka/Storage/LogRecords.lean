import PocketKafka.Storage.GaplessLog

namespace PocketKafka.Storage

open Bytes Intervals Protocol

structure Ordered (raw : Bytes) : Prop where
  decodes : Decodes raw
  ascending : (recordsOf raw).Pairwise (·.offsetDelta < ·.offsetDelta)
  inside : ∀ rec ∈ recordsOf raw, 0 ≤ rec.offsetDelta ∧ rec.offsetDelta ≤ lastOffsetDeltaField raw

instance (raw : Bytes) : Decidable (Ordered raw) :=
  decidable_of_iff (Decodes raw ∧ (recordsOf raw).Pairwise (·.offsetDelta < ·.offsetDelta) ∧
      ∀ rec ∈ recordsOf raw, 0 ≤ rec.offsetDelta ∧ rec.offsetDelta ≤ lastOffsetDeltaField raw)
    ⟨fun ⟨decodes, ascending, inside⟩ => ⟨decodes, ascending, inside⟩,
      fun ordered => ⟨ordered.decodes, ordered.ascending, ordered.inside⟩⟩

theorem Batch.ordered_stamped (b : Batch) (base : Int) : Ordered (b.stamped base).raw ↔ Ordered b.raw := by
  have records := b.recordsOf_stamped base
  have decodes := b.decodes_stamped base
  have delta : lastOffsetDeltaField (b.stamped base).raw = lastOffsetDeltaField b.raw := by
    rw [stamped_raw, lastOffsetDeltaField_stamp]
  constructor
  · rintro ⟨decoded, ascending, inside⟩
    rw [records] at ascending inside
    rw [delta] at inside
    exact ⟨decodes.mp decoded, ascending, inside⟩
  · rintro ⟨decoded, ascending, inside⟩
    refine ⟨decodes.mpr decoded, ?_, ?_⟩
    · rwa [records]
    · rwa [records, delta]

theorem around_unique {front back : List Batch} {b c : Batch} {lo hi : Int}
    (ascends : Ascends lo (front ++ b :: back) hi) {n : Int} (early : ∀ a ∈ front, a.nextOffset ≤ n)
    (reach : n < b.nextOffset) (member : c ∈ front ++ b :: back) (start : c.baseOffset ≤ n) (stop : n < c.nextOffset) :
      c = b := by
  obtain ⟨_, _, _, rest⟩ := ascends.split
  rcases List.mem_append.mp member with before | other
  · have := early c before
    omega
  · rcases List.mem_cons.mp other with same | behind
    · exact same
    · have := (Ascending.mem Batch.proper rest behind).1
      omega

/-- What a reader makes of a record, which shows the offset of the record. -/
structure View (α : Type) where
  render : RecordBatch → Record → α
  offset : α → Int
  placed : ∀ batch rec, offset (render batch rec) = int64 (batch.baseOffset + rec.offsetDelta)

/-- The batches of a page one after the other; one that does not decode is left out. -/
def decodePage {α : Type} (render : RecordBatch → Record → α) (raw : Bytes) : Except Failure (List α) :=
  if raw = [] then .ok []
  else
    match parseRecordBatchHeader raw with
    | .error _ => .ok []
    | .ok h =>
      let total := batchTotalSize h
      if (raw.length : Int) < total then .ok []
      else if total < 0 then .error (.panic "slice bounds out of range")
      else if total = 0 then .error .diverges
      else
        match decodeRecordBatch (raw.take total.toNat) with
        | .error (.error _) => decodePage render (raw.drop total.toNat)
        | .error failure => .error failure
        | .ok batch => (decodePage render (raw.drop total.toNat)).map (batch.records.map (render batch) ++ ·)
termination_by raw.length
decreasing_by
  all_goals
    rw [List.length_drop]
    have : raw.length ≠ 0 := fun none => by simp_all
    omega

namespace View

variable {α : Type} (v : View α)

def ofBatch (raw : Bytes) : List α :=
  match decodeRecordBatch raw with
  | .error _ => []
  | .ok batch => batch.records.map (v.render batch)

def records (bs : List Batch) : List α := bs.flatMap fun b => v.ofBatch b.raw

def since (n : Int) (xs : List α) : List α := xs.filter fun x => n ≤ v.offset x

theorem records_cons (b : Batch) (bs : List Batch) : v.records (b :: bs) = v.ofBatch b.raw ++ v.records bs := rfl

theorem records_append (bs cs : List Batch) : v.records (bs ++ cs) = v.records bs ++ v.records cs := List.flatMap_append

theorem since_append (n : Int) (xs ys : List α) : v.since n (xs ++ ys) = v.since n xs ++ v.since n ys :=
  List.filter_append ..

theorem since_all {n : Int} {xs : List α} (later : ∀ x ∈ xs, n ≤ v.offset x) : v.since n xs = xs :=
  List.filter_eq_self.mpr fun x member => decide_eq_true (later x member)

theorem since_none {n : Int} {xs : List α} (early : ∀ x ∈ xs, v.offset x < n) : v.since n xs = [] :=
  List.filter_eq_nil_iff.mpr fun x member => by
    have := early x member
    rw [decide_eq_true_eq]
    omega

theorem offset_render {b : Batch} (bounds : 0 ≤ b.baseOffset ∧ b.nextOffset < 9223372036854775808) {batch : RecordBatch}
    (done : decodeRecordBatch b.raw = .ok batch) {rec : Record}
    (inside : 0 ≤ rec.offsetDelta ∧ rec.offsetDelta ≤ lastOffsetDeltaField b.raw) :
    v.offset (v.render batch rec) = b.baseOffset + rec.offsetDelta := by
  have base : batch.baseOffset = b.baseOffset := (decodeRecordBatch_offsets done).1
  have stop : b.nextOffset = b.baseOffset + lastOffsetDeltaField b.raw + 1 := rfl
  rw [v.placed, base]
  exact int64_of_bounds (by omega) (by omega)

variable {b : Batch} {bs : List Batch}

theorem mem_ofBatch (ordered : Ordered b.raw) (bounds : 0 ≤ b.baseOffset ∧ b.nextOffset < 9223372036854775808) {x : α}
    (member : x ∈ v.ofBatch b.raw) :
    ∃ rec ∈ recordsOf b.raw, v.offset x = b.baseOffset + rec.offsetDelta ∧ b.baseOffset ≤ v.offset x ∧
      v.offset x < b.nextOffset := by
  obtain ⟨batch, done⟩ := ordered.decodes
  rw [ofBatch, done] at member
  obtain ⟨rec, listed, rfl⟩ := List.mem_map.mp member
  rw [← Decodes.records done] at listed
  obtain ⟨lower, upper⟩ := ordered.inside rec listed
  have stop : b.nextOffset = b.baseOffset + lastOffsetDeltaField b.raw + 1 := rfl
  have place := v.offset_render bounds done ⟨lower, upper⟩
  exact ⟨rec, listed, place, by omega, by omega⟩

theorem ofBatch_ascending (ordered : Ordered b.raw) (bounds : 0 ≤ b.baseOffset ∧ b.nextOffset < 9223372036854775808) :
    (v.ofBatch b.raw).Pairwise (v.offset · < v.offset ·) := by
  obtain ⟨batch, done⟩ := ordered.decodes
  have records := Decodes.records done
  have ascending := ordered.ascending
  have inside := ordered.inside
  rw [records] at ascending inside
  rw [ofBatch, done]
  refine List.pairwise_map.mpr (ascending.imp_of_mem fun {x y} first second less => ?_)
  rw [v.offset_render bounds done (inside x first), v.offset_render bounds done (inside y second)]
  omega

variable {lo hi : Int} (ascends : Ascends lo bs hi) (ordered : ∀ b ∈ bs, Ordered b.raw)
  (bounds : ∀ b ∈ bs, 0 ≤ b.baseOffset ∧ b.nextOffset < 9223372036854775808)
include ascends ordered bounds

theorem mem_records {x : α} (member : x ∈ v.records bs) : lo ≤ v.offset x ∧ v.offset x < hi := by
  obtain ⟨b, listed, inside⟩ := List.mem_flatMap.mp member
  obtain ⟨_, _, _, lower, upper⟩ := v.mem_ofBatch (ordered b listed) (bounds b listed) inside
  obtain ⟨first, last⟩ := Ascending.mem Batch.proper ascends listed
  omega

end View

namespace View

variable {α : Type} (v : View α) {front back : List Batch} {b : Batch} {lo hi : Int}

theorem since_around (ascends : Ascends lo (front ++ b :: back) hi) (ordered : ∀ c ∈ front ++ b :: back, Ordered c.raw)
    (bounds : ∀ c ∈ front ++ b :: back, 0 ≤ c.baseOffset ∧ c.nextOffset < 9223372036854775808) {n : Int}
    (early : ∀ c ∈ front, c.nextOffset ≤ n) (reach : n < b.nextOffset) :
    v.since n (v.records (front ++ b :: back)) = v.since n (v.ofBatch b.raw) ++ v.records back := by
  obtain ⟨mid, first, second⟩ := ascends.split
  rw [records_append, since_append, records_cons, since_append, since_none,
    since_all v (show ∀ x ∈ v.records back, _ from ?_),
    List.nil_append]
  · intro x member
    have lower :=
      (v.mem_records second.2 (fun c listed => ordered c (by simp [listed])) (fun c listed => bounds c (by simp [listed]))
      member).1
    omega
  · intro x member
    obtain ⟨c, listed, inside⟩ := List.mem_flatMap.mp member
    have whole := List.mem_append_left (b :: back) listed
    obtain ⟨_, _, _, _, upper⟩ := v.mem_ofBatch (ordered c whole) (bounds c whole) inside
    exact upper.trans_le (early c listed)

theorem ofBatch_ne_nil (ordered : Ordered b.raw) (filled : recordsOf b.raw ≠ []) : v.ofBatch b.raw ≠ [] := by
  obtain ⟨batch, done⟩ := ordered.decodes
  rw [Decodes.records done] at filled
  rw [ofBatch, done]
  exact List.map_eq_nil_iff.not.mpr filled

theorem le_head_iff (ordered : Ordered b.raw) (bounds : 0 ≤ b.baseOffset ∧ b.nextOffset < 9223372036854775808)
    {n : Int} {x : α}
    {rest : List α} (whole : v.ofBatch b.raw = x :: rest) :
    n ≤ v.offset x ↔ ∀ rec ∈ recordsOf b.raw, n ≤ b.baseOffset + rec.offsetDelta := by
  constructor
  · intro first rec listed
    obtain ⟨batch, done⟩ := ordered.decodes
    have place := v.offset_render bounds done (ordered.inside rec listed)
    rw [Decodes.records done] at listed
    have shown : v.render batch rec ∈ v.ofBatch b.raw := by
      rw [ofBatch, done]
      exact List.mem_map_of_mem listed
    have ascending := v.ofBatch_ascending ordered bounds
    rw [whole] at ascending shown
    rw [← place]
    rcases List.mem_cons.mp shown with same | behind
    · rw [same]
      exact first
    · exact first.trans (List.rel_of_pairwise_cons ascending behind).le
  · intro all
    obtain ⟨rec, listed, place, _, _⟩ := v.mem_ofBatch ordered bounds (show x ∈ v.ofBatch b.raw by rw [whole]; simp)
    rw [place]
    exact all rec listed

theorem head_page_iff {page : List Batch} (ascends : Ascends lo (front ++ b :: (page ++ back)) hi)
    (ordered : ∀ c ∈ front ++ b :: (page ++ back), Ordered c.raw)
    (bounds : ∀ c ∈ front ++ b :: (page ++ back), 0 ≤ c.baseOffset ∧ c.nextOffset < 9223372036854775808) {n : Int}
    (early : ∀ c ∈ front, c.nextOffset ≤ n) (reach : n < b.nextOffset) (filled : recordsOf b.raw ≠ []) :
    (v.records (b :: page)).head? = (v.since n (v.records (front ++ b :: (page ++ back)))).head? ↔
      ∀ rec ∈ recordsOf b.raw, n ≤ b.baseOffset + rec.offsetDelta := by
  have inside : b ∈ front ++ b :: (page ++ back) := by simp
  obtain ⟨x, rest, whole⟩ := List.exists_cons_of_ne_nil (v.ofBatch_ne_nil (ordered b inside) filled)
  have returned : (v.records (b :: page)).head? = some x := by
    rw [records_cons, whole]
    rfl
  rw [← v.le_head_iff (ordered b inside) (bounds b inside) whole, returned,
    v.since_around ascends ordered bounds early reach, whole]
  constructor
  · intro first
    have kept := List.mem_of_mem_head? first.symm
    rw [← whole, ← v.since_around ascends ordered bounds early reach] at kept
    exact of_decide_eq_true (List.mem_filter.mp kept).2
  · intro later
    rw [since, List.filter_cons, if_pos (decide_eq_true later)]
    rfl

theorem decodePage_logBytes {bs : List Batch} (decodes : ∀ b ∈ bs, Decodes b.raw) :
    decodePage v.render (logBytes bs) = .ok (v.records bs) := by
  induction bs with
  | nil =>
    rw [decodePage, if_pos (show logBytes [] = [] from rfl)]
    rfl
  | cons b bs ih =>
    obtain ⟨batch, done⟩ := decodes b List.mem_cons_self
    have long := b.header
    have length := b.length
    unfold batchHeaderSize at long
    have total : batchTotalSize ⟨b.baseOffset, lengthField b.raw, lastOffsetDeltaField b.raw, countField b.raw⟩ =
      b.raw.length := by
      change 12 + lengthField b.raw = _
      omega
    have some : b.raw ++ logBytes bs ≠ [] := by
      intro none
      rw [(List.append_eq_nil_iff.mp none).1] at long
      cases long
    have inside : ¬ ((b.raw ++ logBytes bs).length : Int) < b.raw.length := by
      rw [List.length_append]
      omega
    have positive : ¬ (b.raw.length : Int) < 0 ∧ ¬ (b.raw.length : Int) = 0 := by omega
    rw [logBytes_cons, decodePage, if_neg some, parseRecordBatchHeader_append]
    simp only [total, inside, positive.1, positive.2, ↓reduceIte, Int.toNat_natCast, List.take_left, List.drop_left, done]
    rw [ih fun c member => decodes c (List.mem_cons_of_mem b member), records_cons, ofBatch, done]
    rfl

end View

end PocketKafka.Storage
