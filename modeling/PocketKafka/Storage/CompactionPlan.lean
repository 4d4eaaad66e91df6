import PocketKafka.Storage.CompactionScan

namespace PocketKafka.Storage

open Bytes Intervals Protocol Survivors

theorem planRecord_ok {state state' : PlanState} {rec : Record} (done : planRecord state rec = .ok state') :
    state'.last = note Record.key state.last state.idx rec ∧ state'.idx = state.idx + 1 ∧
      state'.nulls = state.nulls + if rec.key.isNone then 1 else 0 := by
  unfold planRecord at done
  cases key : rec.key with
  | none =>
    simp only [key, Except.ok.injEq] at done
    subst done
    simp [note, key]
  | some k =>
    simp only [key] at done
    by_cases large : k ∉ state.last ∧
        compactMaxKeyBytes < if k ∈ state.last then state.keyBytes else state.keyBytes + k.length
    · rw [if_pos large] at done
      cases done
    · rw [if_neg large, Except.ok.injEq] at done
      subst done
      simp [note, key]

theorem planRecords_ok {rs : List Record} {state state' : PlanState} (done : rs.foldlM planRecord state = .ok state') :
    state'.last = noteAll Record.key state.last state.idx rs ∧ state'.idx = state.idx + rs.length ∧
      state'.nulls = state.nulls + (rs.filter (fun rec => rec.key.isNone)).length := by
  induction rs generalizing state with
  | nil =>
    cases done
    simp [noteAll]
  | cons rec rs ih =>
    rw [List.foldlM_cons] at done
    obtain ⟨middle, first, rest⟩ := exists_of_bind done
    obtain ⟨last, idx, nulls⟩ := planRecord_ok first
    obtain ⟨last', idx', nulls'⟩ := ih rest
    refine ⟨?_, ?_, ?_⟩
    · rw [last', last, idx, noteAll]
    · rw [idx', idx, List.length_cons]
      omega
    · rw [nulls', nulls, List.filter_cons]
      cases rec.key.isNone <;> simp; omega

theorem stageRecords_eq (clock : Clock) (plan : CompactionPlan) (front rs : List Record) (w : CompactWriter)
    (noted : ∀ k, plan.last.lookup k = lastIndex Record.key k 0 (front ++ rs)) :
    rs.foldlM (stageRecord clock plan) (front.length, w) =
      (survivors Record.key rs).foldlM (CompactWriter.add clock) w >>= fun w => .ok (front.length + rs.length, w) := by
  induction rs generalizing front w with
  | nil => rfl
  | cons rec rs ih =>
    have shifted : ∀ k, plan.last.lookup k = lastIndex Record.key k 0 ((front ++ [rec]) ++ rs) := by
      simpa using noted
    have kept := keeps_iff noted
    have count : front.length + 1 + rs.length = front.length + (rec :: rs).length := by
      rw [List.length_cons]
      omega
    have rest := fun w => ih (front ++ [rec]) w shifted
    simp only [List.length_append, List.length_singleton, count] at rest
    rw [List.foldlM_cons, stageRecord]
    by_cases keep : ∀ k, rec.key = some k → k ∉ keys Record.key rs
    · simp only [kept.mpr keep, ↓reduceIte]
      rw [survivors_keep keep, List.foldlM_cons, bind_assoc]
      cases w.add clock rec with
      | error failure => rfl
      | ok w => exact rest w
    · simp only [mt kept.mp keep, ↓reduceIte, Bool.false_eq_true]
      rw [survivors_drop keep]
      exact rest w

def Partition.records (p : Partition) : List Record := p.storedBatches.flatMap recordsOf

namespace Partition.Holds

variable {p : Partition} {closed : List (List Batch)} {active : Segment} {last : List Batch}

theorem records_eq (h : p.Holds closed active last) :
    p.records = (stored closed last).flatMap (fun b => recordsOf b.raw) := by
  rw [Partition.records, h.storedBatches_eq, List.flatMap_map]

theorem compactionSource_eq (h : p.Holds closed active last) : p.compactionSource = (p.orderedSegments, p.nextOffset) := by
  have locals : p.orderedSegments.any Segment.isRemote = false := by
    rw [List.any_eq_false]
    intro s member
    simp [Segment.isRemote, locals_of_hold h.orderedHold s member]
  rw [Partition.compactionSource, locals]
  rfl

theorem next_le (h : p.Holds closed active last) {s : Segment} (member : s ∈ p.orderedSegments) :
    s.nextOffset ≤ p.nextOffset := by
  rw [h.ordered, List.mem_append, List.mem_singleton] at member
  have order := h.activeHolds.base_le_next
  rw [h.nextOffset]
  rcases member with old | rfl
  · have below := h.closed_le_active old
    omega
  · exact le_rfl

theorem forEachBatch_records (h : p.Holds closed active last) (decodes : ∀ b ∈ stored closed last, Decodes b.raw)
    {σ : Type} (step : σ → Record → Except Failure σ) (state : σ) :
    forEachBatch (perRecord step) p.orderedSegments p.nextOffset state = p.records.foldlM step state := by
  have whole : (closed ++ [last]).flatten = stored closed last := by
    rw [List.flatten_append, List.flatten_singleton]
  rw [forEachBatch_eq step h.orderedHold (by rwa [whole]) (fun s member => h.next_le member), whole, h.records_eq]

theorem planCompaction_ok (h : p.Holds closed active last) (decodes : ∀ b ∈ stored closed last, Decodes b.raw)
    {plan : CompactionPlan} (done : planCompaction p.orderedSegments p.nextOffset = .ok plan) :
    plan.last = noteAll Record.key ∅ 0 p.records ∧ plan.total = p.records.length ∧
      plan.planned = (survivors Record.key p.records).length := by
  rw [planCompaction, h.forEachBatch_records decodes] at done
  split at done
  · cases done
  · rename_i state scanned
    obtain ⟨last, idx, nulls⟩ := planRecords_ok scanned
    simp only [Except.ok.injEq] at done
    subst done
    simp only [Nat.zero_add] at idx nulls
    refine ⟨last, idx, ?_⟩
    simp only [nulls, last, survivors_length, noteAll_length]

theorem stageCompaction_eq (h : p.Holds closed active last) (decodes : ∀ b ∈ stored closed last, Decodes b.raw)
    (clock : Clock) {plan : CompactionPlan} (noted : plan.last = noteAll Record.key ∅ 0 p.records) :
    stageCompaction clock p.maxSegmentBytes p.indexInterval p.orderedSegments p.nextOffset plan =
      newCompactWriter p.maxSegmentBytes p.indexInterval >>=
        (survivors Record.key p.records).foldlM (CompactWriter.add clock) := by
  rw [stageCompaction]
  cases newCompactWriter p.maxSegmentBytes p.indexInterval with
  | error failure => rfl
  | ok w =>
    have positions : ∀ k, plan.last.lookup k = lastIndex Record.key k 0 ([] ++ p.records) := by
      intro k
      rw [noted, lookup_noteAll]
      simp
    have staged := stageRecords_eq clock plan [] p.records w positions
    rw [List.length_nil] at staged
    simp only [h.forEachBatch_records decodes, staged]
    change _ = (survivors Record.key p.records).foldlM (CompactWriter.add clock) w
    cases (survivors Record.key p.records).foldlM (CompactWriter.add clock) w <;> rfl

theorem planAndStage_cases (h : p.Holds closed active last) (decodes : ∀ b ∈ stored closed last, Decodes b.raw)
    {clock : Clock} {result : Option (CompactWriter × Int)} (done : p.planAndStage clock = .ok result) :
    (result = none ∧ survivors Record.key p.records = p.records) ∨
      ∃ w w₀, result = some (w, p.nextOffset) ∧ survivors Record.key p.records ≠ p.records ∧
        newCompactWriter p.maxSegmentBytes p.indexInterval = .ok w₀ ∧
        (survivors Record.key p.records).foldlM (CompactWriter.add clock) w₀ = .ok w := by
  have some : p.orderedSegments ≠ [] := by simp [h.ordered]
  simp only [Partition.planAndStage, h.compactionSource_eq, some, ↓reduceIte] at done
  split at done
  · cases done
  · rename_i plan planned
    obtain ⟨last, total, count⟩ := h.planCompaction_ok decodes planned
    split at done
    · rename_i enough
      rw [total, count] at enough
      exact Or.inl ⟨(Except.ok.inj done).symm, survivors_eq_self_iff.mpr enough⟩
    · rename_i fewer
      rw [total, count] at fewer
      split at done
      · cases done
      · rename_i w staged
        rw [h.stageCompaction_eq decodes clock last] at staged
        obtain ⟨w₀, opened, written⟩ := exists_of_bind staged
        exact Or.inr ⟨w, w₀, (Except.ok.inj done).symm, fun same => fewer (survivors_eq_self_iff.mp same), opened, written⟩

end Partition.Holds

end PocketKafka.Storage
