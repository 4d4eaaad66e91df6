import PocketKafka.Lib.Bytes
import PocketKafka.Lib.Failure

namespace PocketKafka.Storage

open Bytes

structure ProducerSequenceState where
  lastSequence : Int
  lastOffset : Int
  lastEpoch : Int
  deriving DecidableEq, Repr

structure PartitionIdempotenceTracker where
  producerStates : Int → Option ProducerSequenceState

def newPartitionIdempotenceTracker : PartitionIdempotenceTracker := ⟨fun _ => none⟩

namespace PartitionIdempotenceTracker

def remember (t : PartitionIdempotenceTracker) (pid : Int) (state : ProducerSequenceState) :
    PartitionIdempotenceTracker :=
  ⟨Function.update t.producerStates pid (some state)⟩

/-- `appendFn` acts on a store of type `σ`. -/
def validateAndAppend {σ : Type*} (t : PartitionIdempotenceTracker) (pid epoch seq : Int)
    (appendFn : σ → Except Failure Int × σ) (store : σ) : Except Failure Int × PartitionIdempotenceTracker × σ :=
  if pid < 0 then
    let (result, store) := appendFn store
    (result, t, store)
  else
    match t.producerStates pid with
    | none =>
      match appendFn store with
      | (.error failure, store) => (.error failure, t, store)
      | (.ok offset, store) => (.ok offset, t.remember pid ⟨seq, offset, epoch⟩, store)
    | some state =>
      if epoch < state.lastEpoch then (.error (.error "producer epoch regression"), t, store)
      else if seq = int32 (state.lastSequence + 1) then
        match appendFn store with
        | (.error failure, store) => (.error failure, t, store)
        | (.ok offset, store) => (.ok offset, t.remember pid ⟨seq, offset, epoch⟩, store)
      else if seq ≤ state.lastSequence then (.ok state.lastOffset, t, store)
      else (.error (.error "out of order sequence number"), t, store)

section

variable {σ : Type*} {t : PartitionIdempotenceTracker} {pid epoch seq : Int} {appendFn : σ → Except Failure Int × σ}
  {store store' : σ} {state : ProducerSequenceState}

@[simp] theorem remember_self : (t.remember pid state).producerStates pid = some state := by
  rw [remember]
  exact Function.update_self ..

theorem remember_other {other : Int} (distinct : other ≠ pid) :
    (t.remember pid state).producerStates other = t.producerStates other := by
  rw [remember]
  exact Function.update_of_ne distinct ..

theorem validateAndAppend_first (known : 0 ≤ pid) (unknown : t.producerStates pid = none) {offset : Int}
    (done : appendFn store = (.ok offset, store')) :
    t.validateAndAppend pid epoch seq appendFn store = (.ok offset, t.remember pid ⟨seq, offset, epoch⟩, store') := by
  rw [validateAndAppend, if_neg (by omega), unknown, done]

theorem validateAndAppend_next (known : 0 ≤ pid) (found : t.producerStates pid = some state)
    (current : state.lastEpoch ≤ epoch) (next : seq = int32 (state.lastSequence + 1)) {offset : Int}
    (done : appendFn store = (.ok offset, store')) :
    t.validateAndAppend pid epoch seq appendFn store = (.ok offset, t.remember pid ⟨seq, offset, epoch⟩, store') := by
  rw [validateAndAppend, if_neg (by omega), found]
  simp only
  rw [if_neg (by omega), if_pos next, done]

theorem validateAndAppend_old_epoch (known : 0 ≤ pid) (found : t.producerStates pid = some state)
    (old : epoch < state.lastEpoch) :
    t.validateAndAppend pid epoch seq appendFn store = (.error (.error "producer epoch regression"), t, store) := by
  rw [validateAndAppend, if_neg (by omega), found]
  simp only
  rw [if_pos old]

theorem validateAndAppend_again (known : 0 ≤ pid) {offset : Int} (found : t.producerStates pid = some ⟨seq, offset, epoch⟩) :
    t.validateAndAppend pid epoch seq appendFn store = (.ok offset, t, store) := by
  have other : seq ≠ int32 (seq + 1) := by
    unfold int32
    omega
  rw [validateAndAppend, if_neg (by omega), found]
  simp only [lt_self_iff_false, if_false, if_neg other, le_refl, if_true]

theorem validateAndAppend_store : (t.validateAndAppend pid epoch seq appendFn store).2.2 = store ∨
    (t.validateAndAppend pid epoch seq appendFn store).2.2 = (appendFn store).2 := by
  unfold validateAndAppend
  generalize appendFn store = outcome
  obtain ⟨result, after⟩ := outcome
  cases result <;> (repeat' split) <;> simp_all

def Duplicate (t : PartitionIdempotenceTracker) (pid epoch seq : Int) : Prop :=
  0 ≤ pid ∧ ∃ state ∈ t.producerStates pid, state.lastEpoch ≤ epoch ∧ seq ≠ int32 (state.lastSequence + 1) ∧
    seq ≤ state.lastSequence

theorem validateAndAppend_ok {t' : PartitionIdempotenceTracker} {offset : Int}
    (done : t.validateAndAppend pid epoch seq appendFn store = (.ok offset, t', store')) :
    t.Duplicate pid epoch seq ∧ store' = store ∨
      ¬ t.Duplicate pid epoch seq ∧ appendFn store = (.ok offset, store') := by
  have appended : ∀ {next : Int → PartitionIdempotenceTracker},
      (match appendFn store with
        | (.error failure, store) => (.error failure, t, store)
        | (.ok offset, store) => (.ok offset, next offset, store)) = (Except.ok offset, t', store') →
      appendFn store = (.ok offset, store') := by
    intro next done
    cases outcome : appendFn store with
    | mk result after =>
      rw [outcome] at done
      cases result with
      | error failure => cases done
      | ok offset =>
        cases done
        rfl
  unfold validateAndAppend at done
  split at done
  · rename_i unnumbered
    right
    refine ⟨fun duplicate => absurd duplicate.1 (by omega), ?_⟩
    cases outcome : appendFn store
    rw [outcome] at done
    cases done
    rfl
  · cases known : t.producerStates pid with
    | none =>
      rw [known] at done
      right
      refine ⟨?_, appended done⟩
      rintro ⟨_, state, found, _⟩
      rw [known] at found
      cases found
    | some state =>
      rw [known] at done
      dsimp only at done
      split at done
      · cases done
      · split at done
        · rename_i next
          right
          refine ⟨?_, appended done⟩
          rintro ⟨_, other, found, _, different, _⟩
          rw [known] at found
          cases found
          exact different next
        · split at done
          · cases done
            left
            exact ⟨⟨by omega, state, known, by omega, by assumption, by assumption⟩, rfl⟩
          · cases done

theorem validateAndAppend_frame {other : Int} (distinct : other ≠ pid) :
    (t.validateAndAppend pid epoch seq appendFn store).2.1.producerStates other = t.producerStates other := by
  unfold validateAndAppend
  repeat' split
  all_goals first | rfl | exact remember_other distinct

end

end PartitionIdempotenceTracker

end PocketKafka.Storage
