import PocketKafka.Coordinator.ManagerSteps

namespace PocketKafka.Coordinator

open Bytes Runs Protocol

structure Group.Completes (g : Group) (cfg : Config) (seq : Nat) : Prop where
  left : ∀ gone, (g.drop gone).HasLeader
  expired : (g.remove g.absent).HasLeader
  joined : ∀ now req, (g.enroll cfg now (g.requested (nextMemberID (seq + 1)) req)
    (decide (g.members.lookup req.memberID = none)) req).HasLeader
  joinedLate : ∀ now req dead, ((g.enroll cfg now (g.requested (nextMemberID (seq + 1)) req)
    (decide (g.members.lookup req.memberID = none)) req).remove dead).HasLeader

theorem Group.Structured.completes {g : Group} {seq : Nat} (h : g.Structured) (issued : g.Issued seq) (cfg : Config) :
    g.Completes cfg seq := by
  have enrolled : ∀ now req, (g.enroll cfg now (g.requested (nextMemberID (seq + 1)) req)
      (decide (g.members.lookup req.memberID = none)) req).Enumerates :=
    fun now req => h.order.enroll (requested_new issued.absent)
  constructor
  · exact fun gone => (h.order.drop gone).hasLeader
  · exact (h.order.remove _).hasLeader
  · exact fun now req => (enrolled now req).hasLeader
  · exact fun now req dead => ((enrolled now req).remove dead).hasLeader

namespace GroupManager

def Below (gm : GroupManager) (_ : ManagerEvent) : Prop := ∀ object ∈ gm.objects, object.group.generation < 2147483647

instance (gm : GroupManager) (e : ManagerEvent) : Decidable (gm.Below e) := inferInstanceAs (Decidable (∀ _ ∈ _, _))

structure Orderly (gm : GroupManager) : Prop where
  structured : ∀ object ∈ gm.objects, object.group.Structured
  issued : ∀ object ∈ gm.objects, object.group.Issued gm.nextMemberSeq

theorem orderly_start (now : Time) : (start now).Orderly :=
  ⟨fun _ member => absurd member List.not_mem_nil, fun _ member => absurd member List.not_mem_nil⟩

theorem Orderly.step {cfg : Config} {gm gm' : GroupManager} {e : ManagerEvent} (h : gm.Orderly) (below : gm.Below e)
    (step : gm.Steps cfg e gm') : gm'.Orderly := by
  refine ⟨?_, step.change.issued h.issued⟩
  apply step.change.forall_groups (p := fun _ g => g.Structured)
  · exact Group.structured_new
  · exact fun _ => Group.structured_reset
  · exact fun _ _ structured => structured
  · exact fun object member g acts structured => acts.structured structured (h.issued object member) (below object member)
  · exact h.structured

theorem group_structured (cfg : Config) (now : Time) (gm : GroupManager)
    (run : Reaches Below (Steps cfg) (start now) gm) :
    ∀ object ∈ gm.objects, object.group.Structured ∧ object.group.Completes cfg gm.nextMemberSeq := by
  have orderly : gm.Orderly := run.invariant (orderly_start now) fun _ _ _ h below step => h.step below step
  intro object member
  have structured := orderly.structured object member
  exact ⟨structured, structured.completes (orderly.issued object member) cfg⟩

theorem group_structured_joined : ∃ gm : GroupManager, Reaches Below (Steps settings) (start 0) gm ∧
    gm.objects.length = 1 ∧ ∀ object ∈ gm.objects, object.group.Structured := by
  obtain ⟨gm, run, one⟩ : ∃ gm : GroupManager, Reaches Below (Steps settings) (start 0) gm ∧ gm.objects.length = 1 :=
    exists_reaches [.call (.join newcomer), .advance 0 false, .advance 0 false, .advance 0 false]
      (next_steps settings) (by decide +kernel)
  exact ⟨gm, run, one, fun object member => (group_structured settings 0 gm run object member).1⟩

def lone (generation : Int) (notify : Nat) : GroupManager where
  objects := [⟨newcomer.group, { newGroup with
    state := .completingRebalance
    generation := generation
    protocolType := newcomer.protocolType
    protocol := ascii "range"
    leaderID := nextMemberID 1
    members := AList.insert (nextMemberID 1) (Group.updated settings 0 (nextMemberID 1) newcomer) ∅
    joinOrder := [nextMemberID 1]
    joinNotify := notify }, false, false⟩]
  groups := Function.update (fun _ => none) newcomer.group (some 0)
  nextMemberSeq := 1
  offsets := fun _ => none
  now := 0
  calls := []

def firstJoin : List ManagerEvent := [.call (.join newcomer), .advance 0 false, .advance 0 false, .advance 0 false]

def rejoin : List ManagerEvent :=
  [.call (.join { newcomer with memberID := nextMemberID 1 }), .advance 0 false, .advance 0 false]

theorem firstJoin_lone : follow anything (next settings) (start 0) firstJoin = some (lone (int32 1) 1) := rfl

theorem rejoin_lone (generation : Int) (notify : Nat) :
    follow anything (next settings) (lone generation notify) rejoin =
      some (lone (int32 (generation + 1)) (notify + 1)) := rfl

theorem reaches_lone (n : Nat) :
    ∃ notify, Reaches anything (Steps settings) (start 0) (lone (int32 (n + 1)) notify) := by
  induction n with
  | zero => exact ⟨1, reaches_of_follow (next_steps settings) firstJoin_lone⟩
  | succ n ih =>
    obtain ⟨notify, run⟩ := ih
    have again := reaches_of_follow (next_steps settings) (rejoin_lone (int32 (n + 1)) notify)
    have wraps : int32 (int32 ((n : Int) + 1) + 1) = int32 ((n : Int) + 1 + 1) := by
      unfold int32
      omega
    rw [wraps] at again
    refine ⟨notify + 1, ?_⟩
    push_cast
    exact run.trans again

theorem generation_wraps : ∃ gm : GroupManager, Reaches anything (Steps settings) (start 0) gm ∧
    ∃ object ∈ gm.objects, object.group.state = .completingRebalance ∧ object.group.generation = -2147483648 := by
  obtain ⟨notify, run⟩ := reaches_lone 2147483647
  refine ⟨_, run, _, List.mem_singleton_self _, rfl, ?_⟩
  show int32 ((2147483647 : Nat) + 1) = -2147483648
  unfold int32
  norm_num

end GroupManager

end PocketKafka.Coordinator
