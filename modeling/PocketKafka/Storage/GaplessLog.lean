import PocketKafka.Storage.Following
import PocketKafka.Storage.Store

namespace PocketKafka.Storage

open Bytes Intervals Protocol

/-- The partition stores the batches `bs`, which cover every offset that it has. -/
structure Partition.Log (p : Partition) (bs : List Batch) : Prop where
  sound : p.Sound
  stored : p.storedBatches = bs.map Batch.raw
  covered : Covered p.earliestOffset bs p.highWatermark
  bounds : ∀ b ∈ bs, 0 ≤ b.baseOffset ∧ b.nextOffset < 9223372036854775808

namespace Partition

variable {p : Partition} {bs : List Batch}

theorem covered_flatten {segs : List Segment} {bss : List (List Batch)} {lo hi : Int}
    (each : List.Forall₂ (fun s bs => Covered s.baseOffset bs s.nextOffset) segs bss)
    (linked : Gapless Segment.baseOffset Segment.nextOffset lo segs hi) : Covered lo bss.flatten hi := by
  induction each generalizing lo with
  | nil => exact linked
  | cons head _ ih =>
    obtain ⟨rfl, rest⟩ := linked
    exact head.append (ih rest)

theorem Sound.log (sound : p.Sound) : ∃ bs, p.Log bs := by
  obtain ⟨closed, active, last, holds, seamless⟩ := sound
  have covered := covered_flatten (holds.orderedCovered seamless) holds.orderedLinked
  rw [List.flatten_append, List.flatten_singleton, ← holds.watermark] at covered
  refine ⟨Storage.stored closed last, ⟨closed, active, last, holds, seamless⟩, holds.storedBatches_eq, covered, ?_⟩
  intro b member
  obtain ⟨lower, upper⟩ := holds.bounds member
  exact ⟨lower, by unfold Batch.nextOffset; omega⟩

theorem Log.ascends (log : p.Log bs) : Ascends p.earliestOffset bs p.highWatermark := log.covered.ascending

theorem Log.earliest_nonneg (log : p.Log bs) : 0 ≤ p.earliestOffset := by
  obtain ⟨_, _, _, holds, _⟩ := log.sound
  obtain ⟨s, inside, first⟩ := holds.exists_earliest
  rw [← first]
  exact holds.base_nonneg inside

theorem Log.read (log : p.Log bs) {n maxBytes : Int} (lower : p.earliestOffset ≤ n) (upper : n < p.highWatermark)
    (positive : 0 < maxBytes) (range : maxBytes < 2147483648) :
    ∃ front b page back, bs = front ++ b :: page ++ back ∧ (∀ c ∈ front, c.nextOffset ≤ n) ∧
      b.baseOffset ≤ n ∧ n < b.nextOffset ∧ (back ≠ [] → maxBytes ≤ (logBytes (b :: page)).length) ∧
      p.read n maxBytes = ((logBytes (b :: page), p.highWatermark, none), p) := by
  obtain ⟨closed, active, last, holds, _⟩ := log.sound
  have reads := holds.readsOn_of_findsStart positive range (holds.findsStart_of_earliest_le lower)
  obtain ⟨around, inside, starts, stops⟩ := log.covered.find lower upper
  obtain ⟨before, first, selected, after, parts, early, reach, budget, result⟩ := reads
    ⟨around.raw, by rw [log.stored]; exact List.mem_map_of_mem inside, Int.le_of_lt_add_one stops⟩
  rw [log.stored] at parts
  obtain ⟨shown, back, whole, mapped, rfl⟩ := List.map_eq_append_iff.mp parts
  obtain ⟨front, rest, rfl, rfl, read⟩ := List.map_eq_append_iff.mp mapped
  obtain ⟨b, page, rfl, rfl, rfl⟩ := List.map_eq_cons_iff.mp read
  have passed : ∀ c ∈ front, c.nextOffset ≤ n :=
    fun c member => Int.add_one_le_of_lt (early c.raw (List.mem_map_of_mem member))
  refine ⟨front, b, page, back, whole, passed, ?_, Int.lt_add_one_of_le reach, ?_, ?_⟩
  · -- The batches before it end at or before `n`, and nothing lies between them and it.
    have covered := log.covered
    rw [whole, List.append_assoc] at covered
    obtain ⟨mid, head, rest⟩ := covered.split
    rw [rest.1]
    rcases List.eq_nil_or_concat front with rfl | ⟨init, c, rfl⟩
    · exact head ▸ lower
    · rw [List.concat_eq_append] at head passed
      obtain ⟨_, _, tail⟩ := head.split
      rw [← tail.2]
      exact passed c (by simp)
  · intro some
    exact budget (by simpa using some)
  · have low : clampedStart n < p.nextOffset := by
      rw [← holds.watermark]
      have := log.earliest_nonneg
      unfold clampedStart
      split <;> omega
    rw [holds.read_local low] at result ⊢
    exact Prod.ext result rfl

theorem read_end {n maxBytes : Int} (nonneg : 0 ≤ n) (reached : p.highWatermark ≤ n) :
    p.read n maxBytes = (([], p.highWatermark, none), p) := by
  have kept : (if n < 0 then 0 else n) = n := if_neg (by omega)
  rw [Partition.read]
  dsimp only
  rw [kept, if_pos reached]

theorem Log.append {raw : Bytes} (log : p.Log bs) (accepts : p.Accepts raw) :
    (p.append raw).2.earliestOffset = p.earliestOffset ∧
      ((p.append raw).2.Log bs ∧ (p.append raw).2.highWatermark = p.highWatermark ∨
        (p.append raw).2.Log (bs ++ [(Batch.ofRaw accepts.1).stamped p.nextOffset])) := by
  obtain ⟨closed, active, last, holds, seamless⟩ := log.sound
  have kept := earliestOffset_append holds.activeSegment raw
  refine ⟨kept, ?_⟩
  obtain ⟨shape, fits, room⟩ := accepts
  obtain ⟨closed', active', last', q, more, holds', same, seamless', _, _, outcome⟩ := holds.append_cases (Batch.ofRaw shape)
    (room active holds.activeSegment) fits
  have reached : (p.append raw).2 = q := by
    rcases outcome with ⟨_, _, done⟩ | ⟨_, _, done⟩ <;> exact congrArg Prod.snd done
  obtain ⟨cs, grown⟩ := Sound.log ⟨closed', active', last', holds', seamless' seamless⟩
  have stored : cs = bs ++ more := by
    apply List.map_injective_iff.mpr (fun _ _ => Batch.ext)
    rw [← grown.stored, List.map_append, ← log.stored, holds'.storedBatches_eq, holds.storedBatches_eq, same,
      List.map_append]
  rw [stored] at grown
  rw [reached]
  rcases outcome with ⟨rfl, next, _⟩ | ⟨rfl, next, _⟩
  · rw [List.append_nil] at grown
    refine Or.inl ⟨grown, ?_⟩
    rw [holds'.watermark, holds.watermark, next]
  · exact Or.inr grown

/-- The partition was filled from the start, with batches that have `P`. -/
def FilledWith (P : Bytes → Prop) (p : Partition) : Prop :=
  ∃ (maxSegmentBytes indexInterval : Int) (empty : Partition) (raws : List Bytes), 0 < maxSegmentBytes ∧
    openPartition [] maxSegmentBytes indexInterval = .ok empty ∧ empty.AcceptsAll raws ∧ (∀ raw ∈ raws, P raw) ∧
    p = empty.appendAll raws

theorem FilledWith.log {P : Bytes → Prop} (stable : ∀ (b : Batch) (base : Int), P b.raw → P (b.stamped base).raw)
    (filled : p.FilledWith P) : p.earliestOffset = 0 ∧ ∃ bs, p.Log bs ∧ ∀ b ∈ bs, P b.raw := by
  obtain ⟨maxSegmentBytes, indexInterval, empty, raws, positive, opened, accepted, each, rfl⟩ := filled
  obtain ⟨first, started, sound⟩ := openPartition_empty indexInterval positive
  cases opened.symm.trans started
  obtain ⟨q, s, again, holds, base, _⟩ := openPartition_new indexInterval positive
  cases opened.symm.trans again
  have earliest : empty.earliestOffset = 0 := by
    rw [earliestOffset, List.forall₂_nil_right_iff.mp holds.closedHold, holds.activeSegment]
    exact base
  obtain ⟨bs, log⟩ := sound.log
  have none : bs = [] := List.map_eq_nil_iff.mp (log.stored.symm.trans holds.storedBatches_eq)
  subst none
  have build : ∀ (raws : List Bytes) (q : Partition) (bs : List Batch), q.Log bs → (∀ b ∈ bs, P b.raw) → q.AcceptsAll raws →
      (∀ raw ∈ raws, P raw) → (q.appendAll raws).earliestOffset = q.earliestOffset ∧
        ∃ bs, (q.appendAll raws).Log bs ∧ ∀ b ∈ bs, P b.raw := by
    intro raws
    induction raws with
    | nil => exact fun q bs log old _ _ => ⟨rfl, bs, log, old⟩
    | cons raw raws ih =>
      intro q bs log old accepted each
      have rest := fun other member => each other (List.mem_cons_of_mem raw member)
      obtain ⟨kept, ⟨grown, _⟩ | grown⟩ := log.append accepted.1
      · obtain ⟨same, last⟩ := ih _ bs grown old accepted.2 rest
        exact ⟨same.trans kept, last⟩
      · have all : ∀ b ∈ bs ++ [(Batch.ofRaw accepted.1.1).stamped q.nextOffset], P b.raw := by
          intro b member
          rcases List.mem_append.mp member with before | new
          · exact old b before
          · rw [List.mem_singleton.mp new]
            exact stable _ _ (each raw List.mem_cons_self)
        obtain ⟨same, last⟩ := ih _ _ grown all accepted.2 rest
        exact ⟨same.trans kept, last⟩
  obtain ⟨kept, last⟩ := build raws empty [] log (by simp) accepted each
  exact ⟨kept.trans earliest, last⟩

end Partition

def oneTopic (name : Bytes) (p : Partition) : Store := ⟨[(name, ⟨name, [(0, p)]⟩)], []⟩

theorem getPartition_oneTopic (name : Bytes) (p : Partition) : (oneTopic name p).getPartition name 0 = some p := by
  simp [oneTopic, Store.getPartition, Store.getTopic]

end PocketKafka.Storage
