import PocketKafka.Storage.Segment
import PocketKafka.Lib.Intervals

namespace PocketKafka.Storage

open Bytes

theorem readAt_head (front : Bytes) (b : Batch) (tail : Bytes) :
    readAt (front ++ (b.raw ++ tail)) front.length 12 = some (b.raw.take 12) := by
  have long := b.size_lower
  exact readAt_middle_zero _ _ _ _ (by unfold Batch.size at long; omega)

theorem readAt_delta (front : Bytes) (b : Batch) (tail : Bytes) :
    readAt (front ++ (b.raw ++ tail)) (front.length + 23) 4 = some (slice b.raw 23 27) := by
  have long := b.size_lower
  exact readAt_middle _ _ _ _ _ (by unfold Batch.size at long; omega)

theorem readAt_whole (front : Bytes) (b : Batch) (tail : Bytes) :
    readAt (front ++ (b.raw ++ tail)) front.length b.size = some b.raw := by
  rw [readAt_middle_zero _ _ _ _ (by unfold Batch.size; omega), Batch.size, List.take_length]

theorem head_length (b : Batch) : int32 (beUint (slice (b.raw.take 12) 8 12)) = (b.size : Int) - 12 := by
  rw [slice_take _ _ _ _ (by omega)]
  exact b.length

theorem head_baseOffset (b : Batch) : int64 (beUint (slice (b.raw.take 12) 0 8)) = b.baseOffset := by
  rw [slice_take _ _ _ _ (by omega)]
  rfl

theorem head_fits (front : Bytes) (b : Batch) (tail : Bytes) :
    ¬ ((b.size : Int) - 12 ≤ 0 ∨
      ((front ++ (b.raw ++ tail)).length : Int) < front.length + 12 + ((b.size : Int) - 12)) := by
  have long := b.size_lower
  simp only [List.length_append, Batch.size] at long ⊢
  omega

theorem head_inside (front : Bytes) (b : Batch) (tail : Bytes) :
    front.length < (front ++ (b.raw ++ tail)).length := by
  have long := b.size_lower
  simp only [List.length_append, Batch.size] at long ⊢
  omega

theorem head_advance (front : Bytes) (b : Batch) :
    front.length + 12 + ((b.size : Int) - 12).toNat = (front ++ b.raw).length := by
  have long := b.size_lower
  rw [List.length_append, ← Batch.size]
  omega

/-- What recovery adds up: each batch moves the end offset by its last offset delta plus one. -/
def recoveredEnd (next : Int) (bs : List Batch) : Int :=
  bs.foldl (fun n b => int64 (n + lastOffsetDeltaField b.raw + 1)) next

theorem recoverLoop_batch (front : Bytes) (b : Batch) (tail : Bytes) (next : Int) :
    recoverLoop (front ++ (b.raw ++ tail)) (front ++ (b.raw ++ tail)).length front.length next =
      recoverLoop (front ++ b.raw ++ tail) (front ++ b.raw ++ tail).length (front ++ b.raw).length
        (int64 (next + lastOffsetDeltaField b.raw + 1)) := by
  rw [recoverLoop, if_pos (head_inside front b tail), readAt_head, readAt_delta]
  simp only [head_length]
  rw [if_neg (head_fits front b tail), head_advance, List.append_assoc]
  rfl

theorem recoverLoop_batches (front : Bytes) (bs : List Batch) (next : Int) :
    recoverLoop (front ++ logBytes bs) (front ++ logBytes bs).length front.length next =
      .ok ((front ++ logBytes bs).length, recoveredEnd next bs) := by
  induction bs generalizing front next with
  | nil =>
    rw [recoverLoop]
    simp [recoveredEnd]
  | cons b rest ih =>
    rw [logBytes_cons, recoverLoop_batch, ih, List.append_assoc]
    rfl

theorem readLoop_end (file : Bytes) (offset maxBytes : Int) (out : Bytes) :
    readLoop file file.length offset maxBytes file.length out = (out, none) := by
  rw [readLoop]
  simp

theorem readLoop_batch (front : Bytes) (b : Batch) (tail : Bytes) (offset maxBytes : Int) (out : Bytes)
    (room : int32 out.length < maxBytes) :
    readLoop (front ++ (b.raw ++ tail)) (front ++ (b.raw ++ tail)).length offset maxBytes front.length out =
      readLoop (front ++ b.raw ++ tail) (front ++ b.raw ++ tail).length offset maxBytes
        (front ++ b.raw).length (if int64 b.lastOffset < offset then out else out ++ b.raw) := by
  have long := b.size_lower
  have whole : 12 + ((b.size : Int) - 12).toNat = b.size := by omega
  have advance : front.length + b.size = (front ++ b.raw).length := by simp [Batch.size]
  have total : ¬ b.size < batchHeaderSize := by
    unfold batchHeaderSize
    omega
  have fits := head_fits front b tail
  rw [readLoop, if_pos ⟨head_inside front b tail, room⟩, readAt_head]
  simp only [head_length]
  rw [if_neg fits, whole, if_neg total, readAt_whole]
  simp only [advance, ← List.append_assoc]
  change (if int64 b.lastOffset < offset then _ else _) = _
  split <;> rfl

theorem truncateLoop_end (file : Bytes) (target : Int) :
    truncateLoop file file.length target file.length = .ok file.length := by
  rw [truncateLoop]
  simp

theorem truncateLoop_batch (front : Bytes) (b : Batch) (tail : Bytes) (target : Int) :
    truncateLoop (front ++ (b.raw ++ tail)) (front ++ (b.raw ++ tail)).length target front.length =
      if target ≤ int64 b.lastOffset then .ok front.length
      else truncateLoop (front ++ b.raw ++ tail) (front ++ b.raw ++ tail).length target
        (front ++ b.raw).length := by
  rw [truncateLoop, if_pos (head_inside front b tail), readAt_head, readAt_delta]
  simp only [head_length, head_baseOffset]
  rw [if_neg (head_fits front b tail), head_advance, List.append_assoc]
  rfl

theorem rebuildLoop_end (file : Bytes) (idx : IndexFile) : rebuildLoop file file.length idx file.length = idx := by
  rw [rebuildLoop]
  simp

theorem rebuildLoop_batch (front : Bytes) (b : Batch) (tail : Bytes) (idx : IndexFile) :
    rebuildLoop (front ++ (b.raw ++ tail)) (front ++ (b.raw ++ tail)).length idx front.length =
      rebuildLoop (front ++ b.raw ++ tail) (front ++ b.raw ++ tail).length
        (idx.maybeAppend b.baseOffset front.length) (front ++ b.raw).length := by
  rw [rebuildLoop, if_pos (head_inside front b tail), readAt_head]
  simp only [head_length, head_baseOffset]
  rw [if_neg (head_fits front b tail), head_advance, List.append_assoc]

end PocketKafka.Storage
