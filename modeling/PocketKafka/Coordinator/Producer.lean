import PocketKafka.Lib.Bytes
import PocketKafka.Lib.Failure
import PocketKafka.Lib.Runs

namespace PocketKafka.Coordinator

open Bytes Runs

structure ProducerState where
  transactionalID : Bytes
  epoch : Int
  deriving DecidableEq

structure ProducerIDManager where
  byID : Int → Option ProducerState
  byTxnID : Bytes → Option Int
  lastPID : Int

def newProducerIDManager : ProducerIDManager := ⟨fun _ => none, fun _ => none, 1⟩

/-- The transactional id of a request that has one: the empty one counts as none. -/
def transactional (transactionalID : Option Bytes) : Option Bytes := transactionalID.filter fun id => id ≠ []

namespace ProducerIDManager

def fresh (m : ProducerIDManager) (transactionalID : Option Bytes) : (Int × Int) × ProducerIDManager :=
  let pid := int64 (m.lastPID + 1)
  match transactional transactionalID with
  | none => ((pid, 0), { m with lastPID := pid, byID := Function.update m.byID pid (some ⟨[], 0⟩) })
  | some id =>
    ((pid, 0), ⟨Function.update m.byID pid (some ⟨id, 0⟩), Function.update m.byTxnID id (some pid), pid⟩)

def next (m : ProducerIDManager) (transactionalID : Option Bytes) : Except Failure ((Int × Int) × ProducerIDManager) :=
  match (transactional transactionalID).bind m.byTxnID with
  | some pid =>
    match m.byID pid with
    | none => .error (.panic "invalid memory address or nil pointer dereference")
    | some st =>
      let epoch := int16 (st.epoch + 1)
      .ok ((pid, epoch), { m with byID := Function.update m.byID pid (some { st with epoch := epoch }) })
  | none => .ok (m.fresh transactionalID)

end ProducerIDManager

structure Issued where
  transactionalID : Option Bytes
  pid : Int
  epoch : Int
  deriving DecidableEq

structure Issuance where
  manager : ProducerIDManager
  answers : List Issued

namespace Issuance

def start : Issuance := ⟨newProducerIDManager, []⟩

def perform (s : Issuance) (transactionalID : Option Bytes) : Option Issuance :=
  match s.manager.next transactionalID with
  | .error _ => none
  | .ok ((pid, epoch), m) => some ⟨m, ⟨transactionalID, pid, epoch⟩ :: s.answers⟩

def Steps (s : Issuance) (transactionalID : Option Bytes) (t : Issuance) : Prop := s.perform transactionalID = some t

/-- A known transactional id has not come to its last epoch, and the next producer id is not in use. -/
def Unspent (s : Issuance) (transactionalID : Option Bytes) : Prop :=
  match (transactional transactionalID).bind s.manager.byTxnID with
  | some pid => ∀ st ∈ s.manager.byID pid, st.epoch < 32767
  | none => s.manager.byID (int64 (s.manager.lastPID + 1)) = none

instance (s : Issuance) (transactionalID : Option Bytes) : Decidable (s.Unspent transactionalID) := by
  unfold Unspent
  split <;> infer_instance

structure Succeeds (new old : Issued) : Prop where
  pair : (new.pid, new.epoch) ≠ (old.pid, old.epoch)
  same : ∀ id, transactional new.transactionalID = some id → transactional old.transactionalID = some id →
    new.pid = old.pid ∧ old.epoch < new.epoch
  other : ∀ id id', transactional new.transactionalID = some id → transactional old.transactionalID = some id' → id ≠ id' →
    new.pid ≠ old.pid

structure Covered (m : ProducerIDManager) (answer : Issued) : Prop where
  state : ∃ st, m.byID answer.pid = some st ∧ answer.epoch ≤ st.epoch
  mapped : ∀ id, transactional answer.transactionalID = some id → m.byTxnID id = some answer.pid

structure Sound (s : Issuance) : Prop where
  covered : ∀ answer ∈ s.answers, Covered s.manager answer
  owned : ∀ id pid, s.manager.byTxnID id = some pid → ∃ st, s.manager.byID pid = some st ∧ st.transactionalID = id ∧
    0 ≤ st.epoch
  ordered : s.answers.Pairwise Succeeds

theorem sound_start : start.Sound := ⟨nofun, nofun, List.Pairwise.nil⟩

variable {s t : Issuance} {transactionalID : Option Bytes}

theorem Sound.unique (h : s.Sound) {id id' : Bytes} {pid : Int} (mapped : s.manager.byTxnID id = some pid)
    (mapped' : s.manager.byTxnID id' = some pid) : id = id' := by
  obtain ⟨st, found, own, _⟩ := h.owned id pid mapped
  obtain ⟨st', found', own', _⟩ := h.owned id' pid mapped'
  rw [found] at found'
  cases found'
  exact own.symm.trans own'

theorem Sound.advance (h : s.Sound) {id : Bytes} {pid : Int} {st : ProducerState}
    (own : transactional transactionalID = some id)
    (mapped : s.manager.byTxnID id = some pid) (found : s.manager.byID pid = some st) (room : st.epoch < 32767) :
    Sound ⟨{ s.manager with byID := Function.update s.manager.byID pid (some { st with epoch := int16 (st.epoch + 1) }) },
      ⟨transactionalID, pid, int16 (st.epoch + 1)⟩ :: s.answers⟩ := by
  obtain ⟨_, found', owner, low⟩ := h.owned id pid mapped
  rw [found] at found'
  cases found'
  have next : int16 (st.epoch + 1) = st.epoch + 1 := by
    unfold int16
    omega
  rw [next]
  refine ⟨?_, ?_, ?_⟩
  · intro answer member
    rcases List.mem_cons.mp member with rfl | old
    · refine ⟨⟨_, Function.update_self _ _ _, le_rfl⟩, fun id' own' => ?_⟩
      rw [own] at own'
      cases own'
      exact mapped
    · obtain ⟨⟨st', found', below⟩, kept⟩ := h.covered answer old
      refine ⟨?_, kept⟩
      by_cases same : answer.pid = pid
      · rw [same, found] at found'
        cases found'
        refine ⟨_, by rw [same]; exact Function.update_self _ _ _, ?_⟩
        dsimp only
        omega
      · exact ⟨st', (Function.update_of_ne same _ _).trans found', below⟩
  · intro id' pid' mapped'
    by_cases same : pid' = pid
    · subst same
      have ids := h.unique mapped mapped'
      subst ids
      refine ⟨_, Function.update_self _ _ _, owner, ?_⟩
      dsimp only
      omega
    · obtain ⟨st', found', rest⟩ := h.owned id' pid' mapped'
      exact ⟨st', (Function.update_of_ne same _ _).trans found', rest⟩
  · refine List.pairwise_cons.mpr ⟨fun old member => ?_, h.ordered⟩
    obtain ⟨⟨st', found', below⟩, kept⟩ := h.covered old member
    have newer (same : old.pid = pid) : old.epoch < st.epoch + 1 := by
      rw [same, found] at found'
      cases found'
      omega
    refine ⟨fun pair => ?_, fun id' new' old' => ?_, fun id₁ id₂ new' old' different same => ?_⟩
    · obtain ⟨samePid, sameEpoch⟩ := Prod.mk.inj pair
      have less := newer samePid.symm
      dsimp only at sameEpoch
      omega
    · dsimp only at new'
      rw [own] at new'
      cases new'
      have pids : some pid = some old.pid := mapped.symm.trans (kept id old')
      exact ⟨Option.some.inj pids, newer (Option.some.inj pids).symm⟩
    · dsimp only at new' same
      rw [own] at new'
      cases new'
      have there := kept id₂ old'
      rw [← same] at there
      exact different (h.unique mapped there)

theorem Sound.unused (h : s.Sound) {pid : Int} (unused : s.manager.byID pid = none) : ∀ old ∈ s.answers, pid ≠ old.pid := by
  rintro old member rfl
  obtain ⟨⟨st, found, _⟩, _⟩ := h.covered old member
  rw [unused] at found
  cases found

theorem Sound.fresh (h : s.Sound) (unknown : (transactional transactionalID).bind s.manager.byTxnID = none)
    (unused : s.manager.byID (int64 (s.manager.lastPID + 1)) = none) :
    Sound ⟨(s.manager.fresh transactionalID).2, ⟨transactionalID, int64 (s.manager.lastPID + 1), 0⟩ :: s.answers⟩ := by
  have apart := h.unused unused
  unfold ProducerIDManager.fresh
  generalize int64 (s.manager.lastPID + 1) = pid at unused apart
  have kept (st : ProducerState) {other : Int} {st' : ProducerState} (found : s.manager.byID other = some st') :
      Function.update s.manager.byID pid (some st) other = some st' := by
    rw [Function.update_of_ne ?_]
    · exact found
    · rintro rfl
      rw [unused] at found
      cases found
  have ordered (different : ∀ id, transactional transactionalID = some id → ∀ old ∈ s.answers,
      transactional old.transactionalID ≠ some id) :
      ((⟨transactionalID, pid, 0⟩ : Issued) :: s.answers).Pairwise Succeeds := by
    refine List.pairwise_cons.mpr ⟨fun old member => ⟨fun pair => ?_, fun id new' old' => ?_, fun _ _ _ _ _ => ?_⟩,
      h.ordered⟩
    · exact apart old member (Prod.mk.inj pair).1
    · exact absurd old' (different id new' old member)
    · exact apart old member
  cases own : transactional transactionalID with
  | none =>
    refine ⟨?_, ?_, ordered (by rw [own]; nofun)⟩
    · intro answer member
      rcases List.mem_cons.mp member with rfl | old
      · refine ⟨⟨_, Function.update_self _ _ _, le_rfl⟩, fun id mine => ?_⟩
        rw [own] at mine
        cases mine
      · obtain ⟨⟨st, found, below⟩, mapped⟩ := h.covered answer old
        exact ⟨⟨st, kept _ found, below⟩, mapped⟩
    · intro id other mapped
      obtain ⟨st, found, rest⟩ := h.owned id other mapped
      exact ⟨st, kept _ found, rest⟩
  | some id =>
    rw [own, Option.bind_some] at unknown
    refine ⟨?_, ?_, ordered ?_⟩
    · intro answer member
      rcases List.mem_cons.mp member with rfl | old
      · refine ⟨⟨_, Function.update_self _ _ _, le_rfl⟩, fun id' mine => ?_⟩
        rw [own] at mine
        cases mine
        exact Function.update_self _ _ _
      · obtain ⟨⟨st, found, below⟩, mapped⟩ := h.covered answer old
        refine ⟨⟨st, kept _ found, below⟩, fun id' mine => ?_⟩
        have there := mapped id' mine
        refine (Function.update_of_ne ?_ _ _).trans there
        rintro rfl
        rw [unknown] at there
        cases there
    · intro id' other mapped
      by_cases same : id' = id
      · subst same
        cases (Function.update_self _ _ _).symm.trans mapped
        exact ⟨_, Function.update_self _ _ _, rfl, le_rfl⟩
      · obtain ⟨st, found, rest⟩ := h.owned id' other ((Function.update_of_ne same _ _).symm.trans mapped)
        exact ⟨st, kept _ found, rest⟩
    · intro id' mine old member theirs
      rw [own] at mine
      cases mine
      have there := (h.covered old member).mapped id theirs
      rw [unknown] at there
      cases there

theorem Sound.step (h : s.Sound) (unspent : s.Unspent transactionalID) (done : s.Steps transactionalID t) : t.Sound := by
  unfold Steps perform ProducerIDManager.next at done
  unfold Unspent at unspent
  cases known : (transactional transactionalID).bind s.manager.byTxnID with
  | none =>
    rw [known] at done unspent
    have sound := h.fresh known unspent
    have same : t = ⟨(s.manager.fresh transactionalID).2, ⟨transactionalID, int64 (s.manager.lastPID + 1), 0⟩ ::
      s.answers⟩ := by
      unfold ProducerIDManager.fresh at done ⊢
      cases own : transactional transactionalID with
      | none =>
        rw [own] at done
        exact (Option.some.inj done).symm
      | some id =>
        rw [own] at done
        exact (Option.some.inj done).symm
    rw [same]
    exact sound
  | some pid =>
    rw [known] at done unspent
    obtain ⟨id, own, mapped⟩ := Option.bind_eq_some_iff.mp known
    obtain ⟨st, found, _, _⟩ := h.owned id pid mapped
    simp only [found] at done unspent
    cases done
    exact h.advance own mapped found (unspent st rfl)

theorem Sound.answers (h : s.Sound) (transactionalID : Option Bytes) : ∃ t, s.Steps transactionalID t := by
  unfold Steps perform ProducerIDManager.next
  cases known : (transactional transactionalID).bind s.manager.byTxnID with
  | none => exact ⟨_, rfl⟩
  | some pid =>
    obtain ⟨id, own, mapped⟩ := Option.bind_eq_some_iff.mp known
    obtain ⟨st, found, _, _⟩ := h.owned id pid mapped
    simp only [found]
    exact ⟨_, rfl⟩

/-- While no transactional id is called for beyond its last epoch and no producer id comes round again, every call is
    answered, no answer is given twice, and transactional ids keep their producer ids to themselves, with rising epochs. -/
theorem identities_not_reissued {s : Issuance} (run : Reaches Unspent Steps start s) :
    s.answers.Pairwise Succeeds ∧ ∀ transactionalID, ∃ t, s.Steps transactionalID t := by
  have sound : s.Sound := run.invariant sound_start fun _ _ _ h unspent done => h.step unspent done
  exact ⟨sound.ordered, sound.answers⟩

theorem identities_not_reissued_mixed :
    ∃ s, Reaches Unspent Steps start s ∧
      s.answers = [⟨some (ascii "t"), 3, 1⟩, ⟨some [], 4, 0⟩, ⟨some (ascii "t"), 3, 0⟩, ⟨none, 2, 0⟩] ∧
      s.answers.Pairwise Succeeds := by
  obtain ⟨s, run, answers⟩ : ∃ s, Reaches Unspent Steps start s ∧
      s.answers = [⟨some (ascii "t"), 3, 1⟩, ⟨some [], 4, 0⟩, ⟨some (ascii "t"), 3, 0⟩, ⟨none, 2, 0⟩] :=
    exists_reaches [none, some (ascii "t"), some [], some (ascii "t")] (fun _ _ _ step => step) (by decide +kernel)
  exact ⟨s, run, answers, (identities_not_reissued run).1⟩

def again (s : Issuance) (epoch : Int) : Issuance :=
  ⟨{ s.manager with byID := Function.update s.manager.byID 2 (some ⟨ascii "t", epoch⟩) },
    ⟨some (ascii "t"), 2, epoch⟩ :: s.answers⟩

theorem steps_again {epoch : Int} (mapped : s.manager.byTxnID (ascii "t") = some 2)
    (found : s.manager.byID 2 = some ⟨ascii "t", epoch⟩) : s.Steps (some (ascii "t")) (s.again (int16 (epoch + 1))) := by
  have own : (transactional (some (ascii "t"))).bind s.manager.byTxnID = some 2 := by
    rw [show transactional (some (ascii "t")) = some (ascii "t") from by decide +kernel]
    exact mapped
  unfold Steps perform ProducerIDManager.next
  simp only [own, found]
  rfl

theorem repeated_calls (n : Nat) :
    ∃ s, Reaches (fun _ _ => True) Steps start s ∧ s.manager.byTxnID (ascii "t") = some 2 ∧
      s.manager.byID 2 = some ⟨ascii "t", int16 n⟩ ∧ s.answers.head? = some ⟨some (ascii "t"), 2, int16 n⟩ := by
  induction n with
  | zero => exact exists_reaches [some (ascii "t")] (fun _ _ _ step => step) (by decide +kernel)
  | succ n ih =>
    obtain ⟨s, run, mapped, found, _⟩ := ih
    have wraps : int16 (int16 n + 1) = int16 (n + 1 : Nat) := by
      unfold int16
      omega
    refine ⟨_, run.next (some (ascii "t")) trivial (steps_again mapped found), mapped, ?_, ?_⟩
    · rw [wraps]
      exact Function.update_self (2 : Int) _ s.manager.byID
    · rw [wraps]
      rfl

/-- After the epoch 32767 comes the epoch -32768. -/
theorem epoch_wraps :
    ∃ s t, Reaches (fun _ _ => True) Steps start s ∧ s.Steps (some (ascii "t")) t ∧
      s.answers.head? = some ⟨some (ascii "t"), 2, 32767⟩ ∧ t.answers.head? = some ⟨some (ascii "t"), 2, -32768⟩ := by
  obtain ⟨s, run, mapped, found, head⟩ := repeated_calls 32767
  have last : int16 (32767 : Nat) = 32767 := by
    unfold int16
    norm_num
  have wrapped : int16 (32767 + 1) = -32768 := by
    unfold int16
    norm_num
  rw [last] at found head
  refine ⟨s, _, run, steps_again mapped found, head, ?_⟩
  rw [wrapped]
  rfl

end Issuance

end PocketKafka.Coordinator
