import PocketKafka.Coordinator.Liveness
import PocketKafka.Coordinator.ManagerSteps

namespace PocketKafka.Coordinator

open Bytes Runs Protocol

def Member.offers (m : Member) : List Bytes := m.protocols.map JoinGroupRequestProtocol.name

namespace Group

variable {g : Group} {cfg : Config} {now : Time}

def Shared (g : Group) (name : Bytes) : Prop := ∀ id m, g.members.lookup id = some m → name ∈ m.offers

def Settled (g : Group) : Prop := g.state = .completingRebalance ∨ g.state = .stable

/-- The entries are those of the members in the order of their joins, each with the member's metadata for the protocol
    of the group. -/
def Informs (g : Group) (entries : List JoinGroupResponseMember) : Prop :=
  List.Forall₂ (fun id entry => ∃ m p, g.members.lookup id = some m ∧
    m.protocols.find? (fun p => decide (p.name = g.protocol)) = some p ∧
    entry = ⟨m.id, m.instanceID, p.metadata.getD []⟩) g.joinOrder entries

structure Agreeing (g : Group) : Prop where
  order : g.Enumerates
  vacant : g.state = .empty → g.members.keys = []
  common : ∃ name, g.Shared name
  agreed : g.Settled → g.Shared g.protocol

theorem Shared.remove {name : Bytes} (shared : g.Shared name) (dead : List MemberID) : (g.remove dead).Shared name :=
  fun id m found => shared id m (lookup_remove found)

theorem Shared.drop {name : Bytes} (shared : g.Shared name) (gone : List MemberID) : (g.drop gone).Shared name :=
  shared.remove gone

theorem Shared.touch {name : Bytes} (shared : g.Shared name) (memberID : MemberID) (now : Time) :
    (g.touch memberID now).Shared name := by
  unfold Group.touch
  split
  · exact shared
  · rename_i member known
    intro id m found
    by_cases same : id = memberID
    · subst same
      rw [AList.lookup_insert] at found
      cases found
      exact shared id member known
    · rw [AList.lookup_insert_ne same] at found
      exact shared id m found

theorem shared_chooseProtocol (order : g.Enumerates) (common : ∃ name, g.Shared name) {first : MemberID} {leader : Member}
    (found : g.members.lookup first = some leader) : g.Shared (chooseProtocol g.members g.joinOrder leader) := by
  obtain ⟨name, shared⟩ := common
  obtain ⟨own, offered, named⟩ := List.mem_map.mp (shared first leader found)
  unfold chooseProtocol
  cases protocols : leader.protocols with
  | nil =>
    rw [protocols] at offered
    cases offered
  | cons top others =>
    rw [protocols] at offered
    dsimp only
    -- The shared protocol is among those of the leader, so that the search does not come to its end.
    generalize search : List.find? _ (top :: others) = result
    cases result with
    | none =>
      refine absurd (List.all_eq_true.mpr ?_) (List.find?_eq_none.mp search own offered)
      intro id _
      cases known : g.members.lookup id with
      | none => rfl
      | some m =>
        obtain ⟨p, inside, same⟩ := List.mem_map.mp (shared id m known)
        exact List.any_eq_true.mpr ⟨p, inside, by rw [same, named, decide_eq_true rfl]⟩
    | some chosen =>
      have passes := List.find?_some search
      rw [List.all_eq_true] at passes
      intro id m known
      have listed : id ∈ g.joinOrder := (order.listed id).mpr (AList.lookup_isSome.mp (by rw [known]; rfl))
      have here := passes id listed
      rw [known] at here
      obtain ⟨p, inside, same⟩ := List.any_eq_true.mp here
      exact List.mem_map.mpr ⟨p, inside, of_decide_eq_true same⟩

theorem agreeing_completeJoin (order : g.Enumerates) (common : ∃ name, g.Shared name) : g.completeJoinLocked.Agreeing := by
  obtain ⟨name, shared⟩ := common
  by_cases none : g.members.entries.length = 0
  · rw [completeJoinLocked, if_pos none]
    refine ⟨⟨order.nodup, order.listed⟩, fun _ => keys_eq_nil.mpr none, ⟨name, shared⟩, ?_⟩
    rintro (clash | clash) <;> cases clash
  · obtain ⟨first, rest, leader, starts, found⟩ := order.hasLeader none
    rw [completeJoinLocked, if_neg none]
    refine ⟨⟨order.nodup, order.listed⟩, GroupState.noConfusion, ⟨name, shared⟩, fun _ => ?_⟩
    have head : g.joinOrder.headD [] = first := by rw [starts]; rfl
    show g.Shared (chooseProtocol g.members g.joinOrder ((g.members.lookup (g.joinOrder.headD [])).getD _))
    rw [head, found]
    exact shared_chooseProtocol order ⟨name, shared⟩ found

theorem agreeing_new : newGroup.Agreeing := by
  refine ⟨structured_new.order, fun _ => rfl, ⟨[], fun id m found => ?_⟩, ?_⟩
  · cases found
  · rintro (clash | clash) <;> cases clash

theorem agreeing_preparing (order : g.Enumerates) (common : ∃ name, g.Shared name) (state : g.state = .preparingRebalance) :
    g.Agreeing := by
  refine ⟨order, ?_, common, ?_⟩
  · rw [state]
    exact GroupState.noConfusion
  · rw [Settled, state]
    rintro (clash | clash) <;> cases clash

theorem agreeing_begin (order : g.Enumerates) (common : ∃ name, g.Shared name) (now : Time) :
    (g.beginRebalanceLocked now).Agreeing :=
  agreeing_preparing ⟨order.nodup, order.listed⟩ common rfl

theorem agreeing_emptied (order : g.Enumerates) (common : ∃ name, g.Shared name) (none : g.members.entries.length = 0) :
    Agreeing { g with state := .empty, generation := 0, leaderID := [] } := by
  refine ⟨⟨order.nodup, order.listed⟩, fun _ => keys_eq_nil.mpr none, common, ?_⟩
  rintro (clash | clash) <;> cases clash

theorem Agreeing.touch (h : g.Agreeing) (memberID : MemberID) (now : Time) : (g.touch memberID now).Agreeing := by
  obtain ⟨name, shared⟩ := h.common
  have same : (g.touch memberID now).state = g.state ∧ (g.touch memberID now).protocol = g.protocol := by
    unfold Group.touch
    split <;> exact ⟨rfl, rfl⟩
  refine ⟨h.order.touch memberID now, fun empty => ?_, ⟨name, shared.touch memberID now⟩, fun settled => ?_⟩
  · rw [same.1] at empty
    have nobody := h.vacant empty
    apply List.eq_nil_iff_forall_not_mem.mpr
    intro id key
    have known := AList.mem_keys.mp (mem_of_mem_touch (AList.mem_keys.mpr key))
    rw [nobody] at known
    cases known
  · rw [Settled, same.1] at settled
    rw [same.2]
    exact (h.agreed settled).touch memberID now

theorem Agreeing.expire (h : g.Agreeing) : g.expireRebalanceLocked.Agreeing := by
  obtain ⟨name, shared⟩ := h.common
  exact agreeing_completeJoin (h.order.remove g.absent) ⟨name, shared.remove g.absent⟩

theorem Agreeing.joinWake (h : g.Agreeing) (now : Time) (wait : JoinWait) : (g.joinWake now wait).2.Agreeing := by
  rcases joinWake_group now wait with same | expired
  · rwa [same]
  · rw [expired]
    exact h.expire

/-- The request offers a protocol that all members but its own offer too. -/
def Compatible (g : Group) (req : JoinGroupRequest) : Prop :=
  ∃ p ∈ req.protocols, ∀ entry ∈ g.members.entries, entry.1 = req.memberID ∨ p.name ∈ entry.2.offers

instance (g : Group) (req : JoinGroupRequest) : Decidable (g.Compatible req) := inferInstanceAs (Decidable (∃ _ ∈ _, _))

theorem Compatible.enroll {req : JoinGroupRequest} (compatible : g.Compatible req) (next : MemberID) (fresh : Bool) :
    ∃ name, (g.enroll cfg now (g.requested next req) fresh req).Shared name := by
  obtain ⟨p, offered, others⟩ := compatible
  refine ⟨p.name, fun id m found => ?_⟩
  rw [enroll_members] at found
  by_cases own : id = g.requested next req
  · rw [own, AList.lookup_insert] at found
    cases found
    exact List.mem_map_of_mem offered
  · rw [AList.lookup_insert_ne own] at found
    rcases others ⟨id, m⟩ (AList.mem_lookup_iff.mp found) with same | shared
    · refine absurd ?_ own
      have known : id = req.memberID := same
      rw [requested, if_neg (by rw [← known, found]; exact Option.some_ne_none m), known]
    · exact shared

theorem Agreeing.joinGroup (h : g.Agreeing) {req : JoinGroupRequest} {next : MemberID} (absent : next ∉ g.members)
    (compatible : req.protocols.length ≠ 0 → g.unchanged req = false → g.Compatible req) :
    (g.joinGroup cfg now next req).2.Agreeing := by
  unfold Group.joinGroup
  split
  · exact h
  · rename_i offers
    split
    · exact h.touch req.memberID now
    · rename_i changed
      generalize isNew : decide (g.members.lookup req.memberID = none) = new
      have order : (g.enroll cfg now (g.requested next req) new req).Enumerates :=
        h.order.enroll (isNew ▸ requested_new absent)
      have common : ∃ name, (g.enroll cfg now (g.requested next req) new req).Shared name :=
        (compatible offers (Bool.eq_false_iff.mpr changed)).enroll next new
      rcases awaitOthers_group (g := g.enroll cfg now (g.requested next req) new req) now (g.requested next req)
        with same | ⟨dead, complete⟩
      · dsimp only
        rw [same]
        exact agreeing_preparing order common enroll_state
      · dsimp only
        rw [complete]
        obtain ⟨name, shared⟩ := common
        exact agreeing_completeJoin (order.remove dead) ⟨name, shared.remove dead⟩

theorem Agreeing.syncReturn (h : g.Agreeing) (memberID : MemberID) (generationID : Int) :
    (g.syncReturn memberID generationID).2.Agreeing := by
  unfold Group.syncReturn
  dsimp only
  split
  · rename_i completing
    exact ⟨⟨h.order.nodup, h.order.listed⟩, GroupState.noConfusion, h.common, fun _ => h.agreed (Or.inl completing.1)⟩
  · exact h

theorem Agreeing.syncLoop (h : g.Agreeing) (now : Time) (memberID : MemberID) (generationID : Int) (deadline : Time) :
    (g.syncLoop now memberID generationID deadline).2.Agreeing := by
  unfold Group.syncLoop
  split
  · exact h.syncReturn memberID generationID
  · exact h

theorem Agreeing.syncGroup (h : g.Agreeing) (now : Time) (req : SyncGroupRequest) : (g.syncGroup now req).2.Agreeing := by
  have same : ∀ assignments changed, Agreeing { g with assignments := assignments, assignmentsChanged := changed } :=
    fun _ _ => ⟨⟨h.order.nodup, h.order.listed⟩, h.vacant, h.common, h.agreed⟩
  unfold Group.syncGroup
  split
  · exact h
  · dsimp only
    split
    · exact (same _ _).syncLoop now req.memberID req.generationID _
    · exact (same _ _).syncReturn req.memberID req.generationID

theorem Agreeing.heartbeat (h : g.Agreeing) (now : Time) (memberID : MemberID) (generationID : Int) :
    (g.heartbeat now memberID generationID).2.Agreeing := by
  unfold Group.heartbeat
  repeat' split
  all_goals first | exact h | exact h.touch memberID now

theorem Agreeing.leaveGroup (h : g.Agreeing) (now : Time) (gone : List MemberID) : (g.leaveGroup now gone).Agreeing := by
  have order := h.order.drop gone
  have common := h.common.imp fun _ shared => shared.drop gone
  unfold Group.leaveGroup
  dsimp only
  split
  · exact agreeing_emptied order common (by assumption)
  · split
    · exact agreeing_completeJoin order common
    · exact agreeing_begin order common now

theorem Agreeing.reapExpired (h : g.Agreeing) (cfg : Config) (now clock : Time) :
    (g.reapExpired cfg now clock).Agreeing := by
  have order := h.order.drop (g.dead cfg now)
  have common := h.common.imp fun _ shared => shared.drop (g.dead cfg now)
  unfold Group.reapExpired
  dsimp only
  split
  · exact h
  · split
    · exact agreeing_emptied order common (by assumption)
    · split
      · rename_i preparing
        split
        · exact agreeing_completeJoin order common
        · exact agreeing_preparing order common preparing
      · exact agreeing_begin order common clock

theorem Agreeing.informs (h : g.Agreeing) (state : g.state ≠ .preparingRebalance) :
    g.Informs (g.fillJoinResponseLocked g.leaderID).members := by
  unfold Informs
  simp only [fillJoinResponseLocked, ↓reduceIte]
  have inside : ∀ id ∈ g.joinOrder, id ∈ g.members := fun id listed => (h.order.listed id).mp listed
  cases settled : g.state with
  | preparingRebalance => exact absurd settled state
  | empty =>
    have none : g.joinOrder = [] := by
      apply List.eq_nil_iff_forall_not_mem.mpr
      intro id listed
      have known := AList.mem_keys.mp (inside id listed)
      rw [h.vacant settled] at known
      cases known
    rw [none]
    exact .nil
  | completingRebalance | stable =>
    have shared := h.agreed (by unfold Settled; rw [settled]; simp)
    revert inside
    generalize g.joinOrder = order
    intro inside
    induction order with
    | nil => exact .nil
    | cons id rest ih =>
      obtain ⟨m, found⟩ := Option.isSome_iff_exists.mp (AList.lookup_isSome.mpr (inside id (by simp)))
      obtain ⟨offered, listed, named⟩ := List.mem_map.mp (shared id m found)
      rw [List.filterMap_cons, found]
      cases search : m.protocols.find? (fun p => decide (p.name = g.protocol)) with
      | none => exact absurd (decide_eq_true named) (List.find?_eq_none.mp search offered listed)
      | some p =>
        refine .cons ⟨m, p, found, search, ?_⟩ (ih fun other member => inside other (List.mem_cons_of_mem _ member))
        dsimp only
        rw [search, Option.bind_some]

theorem joinLoop_answer {memberID : MemberID} {deadline : Time} {resp : JoinGroupResponse} {expelled : List MemberID}
    (answer : (g.joinLoop now memberID deadline).1 = .returned resp expelled) :
    resp = (g.joinLoop now memberID deadline).2.fillJoinResponseLocked memberID ∧
      (g.joinLoop now memberID deadline).2.state ≠ .preparingRebalance := by
  unfold joinLoop at answer ⊢
  split at answer
  · rename_i preparing
    split at answer
    · rename_i late
      cases answer
      rw [if_pos preparing, if_pos late]
      exact ⟨rfl, completeJoinLocked_state⟩
    · cases answer
  · rename_i closed
    cases answer
    rw [if_neg closed]
    exact ⟨rfl, closed⟩

theorem joinWake_answer {wait : JoinWait} {resp : JoinGroupResponse} {expelled : List MemberID}
    (answer : (g.joinWake now wait).1 = .returned resp expelled) (success : resp.errorCode = errNone) :
    resp = (g.joinWake now wait).2.fillJoinResponseLocked wait.memberID ∧
      (g.joinWake now wait).2.state ≠ .preparingRebalance := by
  unfold joinWake at answer ⊢
  split at answer
  · cases answer
    exact absurd (show errUnknownMemberID = errNone from success) (by decide)
  · rename_i known
    rw [if_neg known]
    split at answer
    · rename_i late
      cases answer
      rw [if_pos late]
      exact ⟨rfl, completeJoinLocked_state⟩
    · rename_i early
      rw [if_neg early]
      exact joinLoop_answer answer

theorem joinGroup_answer {next : MemberID} {req : JoinGroupRequest} {resp : JoinGroupResponse} {expelled : List MemberID}
    (answer : (g.joinGroup cfg now next req).1 = .returned resp expelled) (success : resp.errorCode = errNone) :
    (∃ memberID, resp = (g.joinGroup cfg now next req).2.fillJoinResponseLocked memberID) ∧
      (g.joinGroup cfg now next req).2.state ≠ .preparingRebalance := by
  unfold joinGroup at answer ⊢
  split at answer
  · cases answer
    exact absurd (show errInconsistentGroupProtocol = errNone from success) (by decide)
  · rename_i offers
    rw [if_neg offers]
    split at answer
    · rename_i same
      cases answer
      rw [if_pos same]
      refine ⟨⟨_, rfl⟩, ?_⟩
      unfold unchanged at same
      split at same
      · cases same
      · have stable : g.state = .stable := of_decide_eq_true (Bool.and_eq_true_iff.mp same).1
        unfold Group.touch
        split <;> simp [stable]
    · rename_i changed
      rw [if_neg changed]
      dsimp only at answer ⊢
      unfold awaitOthers at answer ⊢
      split at answer
      · rename_i complete
        cases answer
        rw [if_pos complete]
        exact ⟨⟨_, rfl⟩, completeJoinLocked_state⟩
      · rename_i incomplete
        rw [if_neg incomplete]
        obtain ⟨same, closed⟩ := joinLoop_answer answer
        exact ⟨⟨_, same⟩, closed⟩

end Group

namespace System

variable {cfg : Config} {s s' : System} {e : Event} {effect : Effect}

/-- Whoever joins offers a protocol that all other members offer too. -/
def Compatible (s : System) : Event → Prop
  | .join req => s.admits req → s.group.Compatible req
  | _ => True

instance (s : System) : (e : Event) → Decidable (s.Compatible e)
  | .join req => inferInstanceAs (Decidable (s.admits req → s.group.Compatible req))
  | .tick _ | .elsewhere | .joinWake _ | .sync _ | .syncWake _ | .heartbeat _ _ | .leave _ | .reap _ => isTrue trivial

structure Agreeing (s : System) : Prop where
  group : s.group.Agreeing
  issued : s.group.Issued s.nextMemberSeq

theorem agreeing_start (now : Time) : (start now).Agreeing :=
  ⟨Group.agreeing_new, fun id member => absurd member (AList.notMem_empty id)⟩

@[simp] theorem joinEnds_nextMemberSeq (keep : Option JoinWait → List JoinWait) (outcome : JoinOutcome × Group) :
    (s.joinEnds keep outcome).1.nextMemberSeq = s.nextMemberSeq := by
  obtain ⟨result, g⟩ := outcome
  cases result <;> rfl

@[simp] theorem syncEnds_nextMemberSeq (memberID : MemberID) (election : Nat)
    (keep : Option (SyncWait × Nat) → List (SyncWait × Nat)) (outcome : SyncOutcome × Group) :
    (s.syncEnds memberID election keep outcome).1.nextMemberSeq = s.nextMemberSeq := by
  obtain ⟨result, g⟩ := outcome
  cases result <;> rfl

theorem recordSync_nextMemberSeq (req : SyncGroupRequest) : (s.recordSync req).nextMemberSeq = s.nextMemberSeq := by
  unfold recordSync
  split <;> rfl

theorem recordJoin_nextMemberSeq (req : JoinGroupRequest) :
    (s.recordJoin req).nextMemberSeq = s.nextMemberSeq + GroupManager.drawn s.group req := by
  unfold recordJoin GroupManager.drawn
  by_cases enrolled : s.admits req
  · rw [if_pos enrolled]
    dsimp only
    by_cases unknown : s.group.members.lookup req.memberID = none
    · rw [if_pos unknown, if_pos ⟨enrolled.1, enrolled.2, unknown⟩]
    · rw [if_neg unknown, if_neg fun drawn => unknown drawn.2.2]
      rfl
  · rw [if_neg enrolled, if_neg fun drawn => enrolled ⟨drawn.1, drawn.2.1⟩]
    rfl

theorem perform_section (done : s.perform cfg e = some (s', effect)) :
    s'.group = s.group ∧ s.nextMemberSeq ≤ s'.nextMemberSeq ∨
      Section cfg (s.nextMemberSeq, s.group) (s'.nextMemberSeq, s'.group) := by
  cases e with
  | tick passed =>
    cases done
    exact Or.inl ⟨rfl, le_rfl⟩
  | elsewhere =>
    cases done
    exact Or.inl ⟨rfl, Nat.le_succ _⟩
  | join req =>
    have result := congrArg Prod.fst (Option.some.inj done)
    dsimp only at result
    rw [← result, joinEnds_group, joinEnds_nextMemberSeq, recordJoin_nextMemberSeq]
    exact Or.inr (.join s.now req)
  | joinWake i =>
    simp only [perform] at done
    split at done
    · cases done
    · split at done
      · have result := congrArg Prod.fst (Option.some.inj done)
        dsimp only at result
        rw [← result, joinEnds_group, joinEnds_nextMemberSeq]
        exact Or.inr (.joinWake s.now _)
      · cases done
  | sync req =>
    have result := congrArg Prod.fst (Option.some.inj done)
    dsimp only at result
    rw [← result, syncEnds_group, syncEnds_nextMemberSeq, recordSync_nextMemberSeq]
    exact Or.inr (.sync s.now req)
  | syncWake i =>
    simp only [perform] at done
    split at done
    · cases done
    · split at done
      · have result := congrArg Prod.fst (Option.some.inj done)
        dsimp only at result
        rw [← result, syncEnds_group, syncEnds_nextMemberSeq]
        exact Or.inr (.syncWake s.now _)
      · cases done
  | heartbeat memberID generationID =>
    cases done
    exact Or.inr (.heartbeat s.now memberID generationID)
  | leave req =>
    cases done
    exact Or.inr (.leave s.now (toRemove req))
  | reap seen =>
    cases done
    exact Or.inr (.reap seen s.now)

theorem Agreeing.step (h : s.Agreeing) (compatible : s.Compatible e) (done : s.perform cfg e = some (s', effect)) :
    s'.Agreeing := by
  have issued : s'.group.Issued s'.nextMemberSeq := by
    rcases perform_section done with ⟨same, grown⟩ | acts
    · intro id member
      rw [same] at member
      obtain ⟨k, bound, eq⟩ := h.issued id member
      exact ⟨k, bound.trans grown, eq⟩
    · exact acts.issued h.issued
  refine ⟨?_, issued⟩
  cases e with
  | tick passed =>
    cases done
    exact h.group
  | elsewhere =>
    cases done
    exact h.group
  | join req =>
    have result := congrArg Prod.fst (Option.some.inj done)
    dsimp only at result
    rw [← result, joinEnds_group]
    exact h.group.joinGroup h.issued.absent fun offers changed => compatible ⟨offers, changed⟩
  | joinWake i =>
    simp only [perform] at done
    split at done
    · cases done
    · split at done
      · have result := congrArg Prod.fst (Option.some.inj done)
        dsimp only at result
        rw [← result, joinEnds_group]
        exact h.group.joinWake s.now _
      · cases done
  | sync req =>
    have result := congrArg Prod.fst (Option.some.inj done)
    dsimp only at result
    rw [← result, syncEnds_group]
    exact h.group.syncGroup s.now req
  | syncWake i =>
    simp only [perform] at done
    split at done
    · cases done
    · split at done
      · have result := congrArg Prod.fst (Option.some.inj done)
        dsimp only at result
        rw [← result, syncEnds_group]
        exact h.group.syncLoop s.now _ _ _
      · cases done
  | heartbeat memberID generationID =>
    cases done
    exact h.group.heartbeat s.now memberID generationID
  | leave req =>
    cases done
    exact h.group.leaveGroup s.now (toRemove req)
  | reap seen =>
    cases done
    exact h.group.reapExpired cfg seen s.now

theorem joinEnds_answer {keep : Option JoinWait → List JoinWait} {outcome : JoinOutcome × Group} {resp : JoinGroupResponse}
    (answer : (s.joinEnds keep outcome).2.joinAnswer = some resp) : ∃ expelled, outcome.1 = .returned resp expelled := by
  obtain ⟨result, g⟩ := outcome
  cases result with
  | returned other expelled =>
    cases answer
    exact ⟨expelled, rfl⟩
  | waiting wait => cases answer

theorem syncEnds_answer {memberID : MemberID} {election : Nat} {keep : Option (SyncWait × Nat) → List (SyncWait × Nat)}
    {outcome : SyncOutcome × Group} : (s.syncEnds memberID election keep outcome).2.joinAnswer = none := by
  obtain ⟨result, g⟩ := outcome
  cases result <;> rfl

theorem perform_answer {resp : JoinGroupResponse} (done : s.perform cfg e = some (s', effect))
    (answer : effect.joinAnswer = some resp) (success : resp.errorCode = errNone) :
    (∃ memberID, resp = s'.group.fillJoinResponseLocked memberID) ∧ s'.group.state ≠ .preparingRebalance := by
  cases e with
  | join req =>
    have result := Option.some.inj done
    obtain ⟨expelled, returned⟩ := joinEnds_answer ((congrArg (fun r => r.2.joinAnswer) result).trans answer)
    have group := congrArg (fun r => r.1.group) result
    dsimp only at group
    rw [← group, joinEnds_group]
    exact Group.joinGroup_answer returned success
  | joinWake i =>
    simp only [perform] at done
    split at done
    · cases done
    · split at done
      · have result := Option.some.inj done
        obtain ⟨expelled, returned⟩ := joinEnds_answer ((congrArg (fun r => r.2.joinAnswer) result).trans answer)
        have group := congrArg (fun r => r.1.group) result
        dsimp only at group
        rw [← group, joinEnds_group]
        obtain ⟨same, closed⟩ := Group.joinWake_answer returned success
        exact ⟨⟨_, same⟩, closed⟩
      · cases done
  | sync req =>
    have result := congrArg (fun r => r.2.joinAnswer) (Option.some.inj done)
    rw [syncEnds_answer, answer] at result
    cases result
  | syncWake i =>
    simp only [perform] at done
    split at done
    · cases done
    · split at done
      · have result := congrArg (fun r => r.2.joinAnswer) (Option.some.inj done)
        rw [syncEnds_answer, answer] at result
        cases result
      · cases done
  | tick passed =>
    cases done
    cases answer
  | elsewhere =>
    cases done
    cases answer
  | heartbeat memberID generationID =>
    cases done
    cases answer
  | leave req =>
    cases done
    cases answer
  | reap seen =>
    cases done
    cases answer

/-- While whoever joins offers a protocol that all other members offer too, the protocol of a generation is one of every
    member's, and the leader is told each member's metadata for it. -/
theorem protocol_agreement {cfg : Config} {now : Time} {s : System} (run : Reaches Compatible (Steps cfg) (start now) s) :
    (s.group.Settled → s.group.Shared s.group.protocol) ∧
    ∀ e s' effect resp, s.Compatible e → s.perform cfg e = some (s', effect) → effect.joinAnswer = some resp →
      resp.errorCode = errNone → resp.memberID = s'.group.leaderID →
      resp.protocolName = s'.group.protocol ∧ s'.group.Informs resp.members := by
  have agreeing : s.Agreeing := by
    apply run.invariant (agreeing_start now)
    rintro s e s' h compatible ⟨effect, done⟩
    exact h.step compatible done
  refine ⟨agreeing.group.agreed, fun e s' effect resp compatible done answer success leads => ?_⟩
  obtain ⟨⟨memberID, same⟩, closed⟩ := perform_answer done answer success
  subst same
  have leader : memberID = s'.group.leaderID := leads
  rw [leader]
  exact ⟨rfl, (agreeing.step compatible done).group.informs closed⟩

def consumer (memberID : MemberID) (offers : List Bytes) : Event :=
  .join ⟨0, ascii "g", 10000, 0, memberID, none, ascii "consumer", offers.map fun name => ⟨name, some name⟩⟩

theorem protocol_agreement_roundrobin :
    ∃ s : System, Reaches Compatible (Steps settings) (start 0) s ∧ s.group.Settled ∧
      s.group.members.keys.length = 2 ∧ s.group.protocol = ascii "roundrobin" ∧ s.group.Shared (ascii "roundrobin") := by
  obtain ⟨s, run, settled, members, chosen⟩ : ∃ s : System, Reaches Compatible (Steps settings) (start 0) s ∧
      (s.group.state = .completingRebalance ∨ s.group.state = .stable) ∧ s.group.members.keys.length = 2 ∧
      s.group.protocol = ascii "roundrobin" :=
    exists_reaches [consumer [] [ascii "range", ascii "roundrobin"], consumer [] [ascii "roundrobin"],
      consumer (nextMemberID 1) [ascii "range", ascii "roundrobin"]] next_steps (by decide +kernel)
  exact ⟨s, run, settled, members, chosen, chosen ▸ (protocol_agreement run).1 settled⟩

/-- The second member does not offer the only protocol of the first one: it is chosen all the same, and the leader is
    told no metadata for the second member. -/
theorem disjoint_protocols_chosen :
    ∃ s : System, Reaches (fun _ _ => True) (Steps settings) (start 0) s ∧ s.group.Settled ∧
      s.group.protocol = ascii "range" ∧ ¬ s.group.Shared s.group.protocol ∧
      (s.group.fillJoinResponseLocked s.group.leaderID).members.map JoinGroupResponseMember.metadata = [ascii "range",
        []] := by
  obtain ⟨s, run, settled, chosen, offered, told⟩ : ∃ s : System, Reaches (fun _ _ => True) (Steps settings) (start 0) s ∧
      (s.group.state = .completingRebalance ∨ s.group.state = .stable) ∧ s.group.protocol = ascii "range" ∧
      (s.group.members.lookup (nextMemberID 2)).map Member.offers = some [ascii "roundrobin"] ∧
      (s.group.fillJoinResponseLocked s.group.leaderID).members.map JoinGroupResponseMember.metadata = [ascii "range", []] :=
    exists_reaches [consumer [] [ascii "range"], consumer [] [ascii "roundrobin"], consumer (nextMemberID 1) [ascii "range"]]
      next_steps (by decide +kernel)
  refine ⟨s, run, settled, chosen, fun shared => ?_, told⟩
  obtain ⟨m, found, only⟩ := Option.map_eq_some_iff.mp offered
  have inside := shared (nextMemberID 2) m found
  rw [chosen, only] at inside
  exact absurd inside (by decide +kernel)

end System

end PocketKafka.Coordinator
