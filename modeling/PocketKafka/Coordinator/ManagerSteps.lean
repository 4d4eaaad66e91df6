import PocketKafka.Coordinator.GroupStructure

namespace PocketKafka.Coordinator

open Bytes Runs Protocol

/-- What a section does to the group that it has locked and to the counter of member numbers. -/
inductive Section (cfg : Config) : Nat × Group → Nat × Group → Prop
  | join {seq : Nat} {g : Group} (now : Time) (req : JoinGroupRequest) :
    Section cfg (seq, g) (seq + GroupManager.drawn g req, (g.joinGroup cfg now (nextMemberID (seq + 1)) req).2)
  | joinWake {seq : Nat} {g : Group} (now : Time) (wait : JoinWait) : Section cfg (seq, g) (seq, (g.joinWake now wait).2)
  | sync {seq : Nat} {g : Group} (now : Time) (req : SyncGroupRequest) : Section cfg (seq, g) (seq, (g.syncGroup now req).2)
  | syncWake {seq : Nat} {g : Group} (now : Time) (wait : SyncWait) : Section cfg (seq, g) (seq, (g.syncWake now wait).2)
  | heartbeat {seq : Nat} {g : Group} (now : Time) (memberID : MemberID) (generationID : Int) :
    Section cfg (seq, g) (seq, (g.heartbeat now memberID generationID).2)
  | leave {seq : Nat} {g : Group} (now : Time) (gone : List MemberID) : Section cfg (seq, g) (seq, g.leaveGroup now gone)
  | reap {seq : Nat} {g : Group} (seen now : Time) : Section cfg (seq, g) (seq, g.reapExpired cfg seen now)

namespace GroupManager

variable {cfg : Config} {gm gm' : GroupManager} {e : ManagerEvent} {fails : Bool} {answer : Option Answer}

inductive Change (cfg : Config) (gm : GroupManager) : List GroupObject → (Bytes → Option Nat) → Nat → Prop
  | same : Change cfg gm gm.objects gm.groups gm.nextMemberSeq
  | created (name : Bytes) (none : gm.get name = none) :
    Change cfg gm (gm.objects ++ [⟨name, newGroup, false, false⟩])
      (Function.update gm.groups name (some gm.objects.length)) gm.nextMemberSeq
  | acted {o seq : Nat} {object : GroupObject} {g : Group} (found : gm.objects[o]? = some object)
    (acts : Section cfg (gm.nextMemberSeq, object.group) (seq, g)) :
    Change cfg gm (gm.objects.set o { object with group := g }) gm.groups seq
  | marked {o : Nat} {object : GroupObject} (found : gm.objects[o]? = some object) :
    Change cfg gm (gm.objects.set o ⟨object.name, object.group.reset, true, true⟩) gm.groups gm.nextMemberSeq
  | unmapped {name : Bytes} {o : Nat} (call : Call.unmap name o ∈ gm.calls) (mapped : gm.groups name = some o) :
    Change cfg gm gm.objects (Function.update gm.groups name none) gm.nextMemberSeq
  | released {o : Nat} {object : GroupObject} (found : gm.objects[o]? = some object) :
    Change cfg gm (gm.objects.set o { object with held := false }) gm.groups gm.nextMemberSeq

theorem locked_some {o : Nat} {act : GroupObject → Option (Outcome × GroupManager)} {result : Outcome × GroupManager}
    (done : gm.locked o act = some result) :
    ∃ object, gm.objects[o]? = some object ∧ object.held = false ∧ act object = some result := by
  unfold locked at done
  split at done
  · cases done
  · rename_i object found
    split at done
    · cases done
    · rename_i free
      exact ⟨object, found, Bool.eq_false_iff.mpr free, done⟩

theorem getOrCreate_change (name : Bytes) : Change cfg gm (gm.getOrCreate name).2.objects (gm.getOrCreate name).2.groups
    (gm.getOrCreate name).2.nextMemberSeq := by
  unfold getOrCreate
  split
  · exact .same
  · exact .created name (by assumption)

theorem serve_change {o : Nat} {object : GroupObject} (found : gm.objects[o]? = some object) (request : GroupRequest) :
    Change cfg gm (gm.serve cfg o object fails request).2.objects (gm.serve cfg o object fails request).2.groups
      (gm.serve cfg o object fails request).2.nextMemberSeq := by
  cases request with
  | join req => exact .acted found (.join gm.now req)
  | sync req => exact .acted found (.sync gm.now req)
  | heartbeat req => exact .acted found (.heartbeat gm.now req.memberID req.generationID)
  | leave req => exact .acted found (.leave gm.now (toRemove req))
  | commit req =>
    unfold serve
    dsimp only
    split <;> exact .same
  | delete name =>
    unfold serve
    dsimp only
    split
    · exact .same
    · exact .marked found

theorem advance_change {call : Call} {result : Outcome × GroupManager} (pending : call ∈ gm.calls)
    (done : gm.advance cfg fails call = some result) :
    Change cfg gm result.2.objects result.2.groups result.2.nextMemberSeq := by
  cases call with
  | lookup request =>
    cases done
    exact .same
  | create request =>
    cases done
    exact getOrCreate_change request.name
  | serve request o =>
    obtain ⟨object, found, -, served⟩ := locked_some done
    cases served
    exact serve_change found request
  | joinWait req wait o =>
    obtain ⟨object, found, -, served⟩ := locked_some done
    split at served
    · cases served
      exact .acted found (.joinWake gm.now wait)
    · cases served
  | syncWait req wait o =>
    obtain ⟨object, found, -, served⟩ := locked_some done
    split at served
    · cases served
      exact .acted found (.syncWake gm.now wait)
    · cases served
  | unmap name o =>
    cases done
    dsimp only
    split
    · exact .unmapped pending (by assumption)
    · exact .same
  | eraseOffsets name o =>
    unfold advance at done
    dsimp only at done
    split at done
    · cases done
    · cases done
      exact .released (by assumption)
  | reap seen o =>
    obtain ⟨object, found, -, served⟩ := locked_some done
    cases served
    exact .acted found (.reap seen gm.now)

@[simp] theorem conclude_objects (i : Nat) (result : Outcome × GroupManager) :
    (conclude i result).1.objects = result.2.objects := by
  obtain ⟨outcome, mid⟩ := result
  cases outcome <;> rfl

@[simp] theorem conclude_groups (i : Nat) (result : Outcome × GroupManager) :
    (conclude i result).1.groups = result.2.groups := by
  obtain ⟨outcome, mid⟩ := result
  cases outcome <;> rfl

@[simp] theorem conclude_nextMemberSeq (i : Nat) (result : Outcome × GroupManager) :
    (conclude i result).1.nextMemberSeq = result.2.nextMemberSeq := by
  obtain ⟨outcome, mid⟩ := result
  cases outcome <;> rfl

@[simp] theorem conclude_offsets (i : Nat) (result : Outcome × GroupManager) :
    (conclude i result).1.offsets = result.2.offsets := by
  obtain ⟨outcome, mid⟩ := result
  cases outcome <;> rfl

theorem perform_advance {i : Nat} (done : gm.perform cfg (.advance i fails) = some (gm', answer)) :
    ∃ call result, gm.calls[i]? = some call ∧ gm.advance cfg fails call = some result ∧
      gm' = (conclude i result).1 ∧ answer = (conclude i result).2 := by
  unfold perform at done
  dsimp only at done
  split at done
  · cases done
  · rename_i call pending
    obtain ⟨result, advanced, concluded⟩ := Option.map_eq_some_iff.mp done
    exact ⟨call, result, pending, advanced, congrArg Prod.fst concluded.symm, congrArg Prod.snd concluded.symm⟩

theorem Steps.change (step : gm.Steps cfg e gm') : Change cfg gm gm'.objects gm'.groups gm'.nextMemberSeq := by
  obtain ⟨answer, done⟩ := step
  cases e with
  | tick passed =>
    cases done
    exact .same
  | call request =>
    cases done
    exact .same
  | reapExpiredSessions =>
    cases done
    exact .same
  | advance i fails =>
    obtain ⟨call, result, pending, advanced, rfl, -⟩ := perform_advance done
    rw [conclude_objects, conclude_groups, conclude_nextMemberSeq]
    exact advance_change (List.mem_of_getElem? pending) advanced

end GroupManager

def Group.Issued (seq : Nat) (g : Group) : Prop := ∀ id ∈ g.members, ∃ k ≤ seq, id = nextMemberID k

theorem Group.Issued.absent {seq : Nat} {g : Group} (issued : g.Issued seq) : nextMemberID (seq + 1) ∉ g.members := by
  intro member
  obtain ⟨k, bound, same⟩ := issued _ member
  have := nextMemberID_injective same
  omega

namespace Group

variable {g : Group} {cfg : Config} {now : Time} {id : MemberID}

theorem mem_of_mem_touch {memberID : MemberID} (member : id ∈ (g.touch memberID now).members) : id ∈ g.members := by
  unfold touch at member
  split at member
  · exact member
  · rename_i old found
    rcases (AList.mem_insert _).mp member with rfl | known
    · exact AList.lookup_isSome.mp (by rw [found]; rfl)
    · exact known

theorem mem_of_mem_expire (member : id ∈ g.expireRebalanceLocked.members) : id ∈ g.members :=
  (mem_expireRebalanceLocked.mp member).1

theorem mem_of_mem_joinWake {wait : JoinWait} (member : id ∈ (g.joinWake now wait).2.members) : id ∈ g.members := by
  rcases joinWake_group now wait with same | expired
  · rwa [same] at member
  · rw [expired] at member
    exact mem_of_mem_expire member

theorem mem_of_mem_awaitOthers {memberID : MemberID} (member : id ∈ (g.awaitOthers now memberID).2.members) :
    id ∈ g.members := by
  rcases awaitOthers_group now memberID with same | ⟨dead, complete⟩
  · rwa [same] at member
  · rw [complete, completeJoinLocked_members] at member
    exact (mem_remove.mp member).1

theorem syncLoop_members {memberID : MemberID} {generationID : Int} {deadline : Time} :
    (g.syncLoop now memberID generationID deadline).2.members = g.members := by
  unfold syncLoop syncReturn
  split
  · dsimp only
    split <;> rfl
  · rfl

theorem syncGroup_members {req : SyncGroupRequest} : (g.syncGroup now req).2.members = g.members := by
  unfold syncGroup
  split
  · rfl
  · dsimp only
    split
    · exact syncLoop_members
    · unfold syncReturn
      dsimp only
      split <;> rfl

theorem mem_of_mem_heartbeat {memberID : MemberID} {generationID : Int}
    (member : id ∈ (g.heartbeat now memberID generationID).2.members) : id ∈ g.members := by
  unfold heartbeat at member
  split at member
  · exact member
  · split at member
    · exact member
    · split at member
      · exact member
      · exact mem_of_mem_touch member

theorem leaveGroup_members {gone : List MemberID} : (g.leaveGroup now gone).members = (g.remove gone).members := by
  unfold leaveGroup
  dsimp only
  split
  · rfl
  · split
    · exact completeJoinLocked_members
    · rfl

theorem reapExpired_members {clock : Time} :
    (g.reapExpired cfg now clock).members = (g.remove (g.dead cfg now)).members := by
  unfold reapExpired
  dsimp only
  split
  · rename_i none
    rw [List.length_eq_zero_iff.mp none]
    rfl
  · split
    · rfl
    · split
      · split
        · exact completeJoinLocked_members
        · rfl
      · rfl

theorem mem_joinGroup {seq : Nat} {req : JoinGroupRequest}
    (member : id ∈ (g.joinGroup cfg now (nextMemberID (seq + 1)) req).2.members) :
    id ∈ g.members ∨ id = nextMemberID (seq + 1) ∧ GroupManager.drawn g req = 1 := by
  unfold joinGroup at member
  split at member
  · exact Or.inl member
  · rename_i protocols
    split at member
    · exact Or.inl (mem_of_mem_touch member)
    · rename_i changed
      have enrolled := mem_of_mem_awaitOthers member
      rw [enroll_members, AList.mem_insert, requested] at enrolled
      split at enrolled
      · rename_i unknown
        rcases enrolled with same | known
        · exact Or.inr ⟨same, if_pos ⟨protocols, Bool.eq_false_iff.mpr changed, unknown⟩⟩
        · exact Or.inl known
      · rename_i known
        rcases enrolled with rfl | inside
        · exact Or.inl (by_contra fun unknown => known (lookup_eq_none.mpr unknown))
        · exact Or.inl inside

end Group

namespace Section

variable {cfg : Config} {seq seq' : Nat} {g g' : Group} {id : MemberID}

theorem counter (acts : Section cfg (seq, g) (seq', g')) : seq ≤ seq' := by
  cases acts with
  | join => exact Nat.le_add_right _ _
  | _ => exact le_refl _

theorem members (acts : Section cfg (seq, g) (seq', g')) (member : id ∈ g'.members) :
    id ∈ g.members ∨ id = nextMemberID (seq + 1) ∧ seq' = seq + 1 := by
  cases acts with
  | join now req =>
    rcases Group.mem_joinGroup member with known | ⟨same, drawn⟩
    · exact Or.inl known
    · exact Or.inr ⟨same, by rw [drawn]⟩
  | joinWake now wait => exact Or.inl (Group.mem_of_mem_joinWake member)
  | sync now req =>
    rw [Group.syncGroup_members] at member
    exact Or.inl member
  | syncWake now wait =>
    rw [Group.syncWake, Group.syncLoop_members] at member
    exact Or.inl member
  | heartbeat now memberID generationID => exact Or.inl (Group.mem_of_mem_heartbeat member)
  | leave now gone =>
    rw [Group.leaveGroup_members] at member
    exact Or.inl (Group.mem_remove.mp member).1
  | reap seen now =>
    rw [Group.reapExpired_members] at member
    exact Or.inl (Group.mem_remove.mp member).1

theorem issued (acts : Section cfg (seq, g) (seq', g')) (issued : g.Issued seq) : g'.Issued seq' := by
  intro id member
  rcases acts.members member with known | ⟨same, drawn⟩
  · obtain ⟨k, bound, eq⟩ := issued id known
    exact ⟨k, bound.trans acts.counter, eq⟩
  · exact ⟨seq + 1, drawn.ge, same⟩

theorem structured (acts : Section cfg (seq, g) (seq', g')) (h : g.Structured) (issued : g.Issued seq)
    (high : g.generation < 2147483647) : g'.Structured := by
  cases acts with
  | join now req => exact h.joinGroup high issued.absent
  | joinWake now wait => exact h.joinWake high now wait
  | sync now req => exact h.syncGroup now req
  | syncWake now wait => exact h.syncLoop now wait.memberID wait.generationID wait.deadline
  | heartbeat now memberID generationID => exact h.heartbeat now memberID generationID
  | leave now gone => exact h.leaveGroup high now gone
  | reap seen now => exact h.reapExpired high cfg seen now

end Section

namespace GroupManager.Change

variable {cfg : Config} {gm : GroupManager} {objects : List GroupObject} {groups : Bytes → Option Nat} {seq : Nat}

theorem counter (h : Change cfg gm objects groups seq) : gm.nextMemberSeq ≤ seq := by
  cases h with
  | acted found acts => exact acts.counter
  | _ => exact le_refl _

theorem forall_groups {p : Nat → Group → Prop} (h : Change cfg gm objects groups seq)
    (new : p seq newGroup) (reset : ∀ g : Group, p seq g.reset)
    (grows : ∀ object ∈ gm.objects, p gm.nextMemberSeq object.group → p seq object.group)
    (acts : ∀ object ∈ gm.objects, ∀ g, Section cfg (gm.nextMemberSeq, object.group) (seq, g) →
      p gm.nextMemberSeq object.group → p seq g)
    (before : ∀ object ∈ gm.objects, p gm.nextMemberSeq object.group) : ∀ object ∈ objects, p seq object.group := by
  intro object member
  cases h with
  | same => exact before object member
  | created name none =>
    rcases List.mem_append.mp member with old | single
    · exact before object old
    · rw [List.mem_singleton.mp single]
      exact new
  | acted found acting =>
    rcases List.mem_or_eq_of_mem_set member with old | rfl
    · exact grows object old (before object old)
    · have old := List.mem_of_getElem? found
      exact acts _ old _ acting (before _ old)
  | marked found =>
    rcases List.mem_or_eq_of_mem_set member with old | rfl
    · exact before object old
    · exact reset _
  | unmapped call mapped => exact before object member
  | released found =>
    rcases List.mem_or_eq_of_mem_set member with old | rfl
    · exact before object old
    · have old := before _ (List.mem_of_getElem? found)
      exact old

theorem issued (h : Change cfg gm objects groups seq)
    (before : ∀ object ∈ gm.objects, object.group.Issued gm.nextMemberSeq) :
    ∀ object ∈ objects, object.group.Issued seq := by
  refine h.forall_groups ?_ ?_ ?_ ?_ before
  · exact fun id member => absurd member (AList.notMem_empty id)
  · exact fun _ id member => absurd member (AList.notMem_empty id)
  · intro object _ issued id member
    obtain ⟨k, bound, same⟩ := issued id member
    exact ⟨k, bound.trans h.counter, same⟩
  · exact fun _ _ _ acts issued => acts.issued issued

end GroupManager.Change

end PocketKafka.Coordinator
