import PocketKafka.Coordinator.ZombieFencing

namespace PocketKafka.Coordinator

open Bytes Runs Protocol

namespace Group

variable {g g' : Group} {cfg : Config} {now : Time} {resp : JoinGroupResponse} {expelled : List MemberID}

theorem joinLoop_member {memberID : MemberID} {deadline : Time} (known : memberID ∈ g.members)
    (stays : g.state = .preparingRebalance → deadline ≤ now → memberID ∈ g.joined)
    (returns : g.joinLoop now memberID deadline = (.returned resp expelled, g')) : resp.memberID ∈ g'.members := by
  unfold joinLoop at returns
  split at returns
  · rename_i preparing
    split at returns
    · rename_i passed
      cases returns
      exact mem_expireRebalanceLocked.mpr ⟨known, stays preparing passed⟩
    · cases returns
  · cases returns
    exact known

theorem awaitOthers_member {memberID : MemberID} (known : memberID ∈ g.members) (joined : memberID ∈ g.joined)
    (returns : g.awaitOthers now memberID = (.returned resp expelled, g')) : resp.memberID ∈ g'.members := by
  unfold awaitOthers at returns
  split at returns
  · cases returns
    rw [completeJoinLocked_members]
    exact known
  · exact joinLoop_member known (fun _ _ => joined) returns

theorem joinGroup_member {next : MemberID} {req : JoinGroupRequest} (none : resp.errorCode = errNone)
    (returns : g.joinGroup cfg now next req = (.returned resp expelled, g')) : resp.memberID ∈ g'.members := by
  unfold joinGroup at returns
  split at returns
  · cases returns
    cases none
  · split at returns
    · rename_i same
      cases returns
      show req.memberID ∈ (g.touch req.memberID now).members
      unfold unchanged at same
      unfold touch
      split at same
      · cases same
      · rename_i member found
        simp only [found]
        exact (AList.mem_insert _).mpr (Or.inl rfl)
    · refine awaitOthers_member ?_ ?_ returns
      · rw [enroll_members]
        exact (AList.mem_insert _).mpr (Or.inl rfl)
      · rw [enroll_joined]
        exact Finset.mem_insert_self _ _

theorem joinWake_member {wait : JoinWait} (none : resp.errorCode = errNone)
    (stays : wait.deadline ≤ now → wait.memberID ∈ g.members → wait.memberID ∈ g.joined)
    (returns : g.joinWake now wait = (.returned resp expelled, g')) :
    wait.memberID ∈ g.members ∧ resp.memberID ∈ g'.members := by
  unfold joinWake at returns
  split at returns
  · cases returns
    cases none
  · rename_i found
    have known : wait.memberID ∈ g.members := by_contra fun unknown => found (lookup_eq_none.mpr unknown)
    refine ⟨known, ?_⟩
    split at returns
    · rename_i passed
      cases returns
      exact mem_expireRebalanceLocked.mpr ⟨known, stays passed known⟩
    · exact joinLoop_member known (fun _ passed => stays passed known) returns

end Group

namespace GroupManager

variable {cfg : Config} {gm gm' : GroupManager} {e : ManagerEvent} {fails : Bool} {o : Nat}

/-- A join gets the lock of a group that is not marked, and a join that has waited and finds its deadline passed
    is still on record. -/
def Undisturbed (gm : GroupManager) : ManagerEvent → Prop
  | .advance i _ =>
    match gm.calls[i]? with
    | some (.serve (.join _) o) => ∀ object ∈ gm.objects[o]?, object.deleted = false
    | some (.joinWait _ wait o) => ∀ object ∈ gm.objects[o]?, wait.deadline ≤ gm.now →
        wait.memberID ∈ object.group.members → wait.memberID ∈ object.group.joined
    | _ => True
  | _ => True

instance (gm : GroupManager) (e : ManagerEvent) : Decidable (gm.Undisturbed e) := by
  unfold Undisturbed
  split
  · split <;> infer_instance
  · infer_instance

def Deserted (gm : GroupManager) : Prop :=
  ∀ (o : Nat) (object : GroupObject), gm.objects[o]? = some object → object.deleted = true → ∀ id, id ∉ object.group.members

theorem advance_seq {call : Call} {result : Outcome × GroupManager} (done : gm.advance cfg fails call = some result) :
    (∃ req o, call = .serve (.join req) o) ∨ result.2.nextMemberSeq = gm.nextMemberSeq := by
  cases call with
  | lookup request =>
    cases done
    exact Or.inr rfl
  | create request =>
    cases done
    right
    unfold getOrCreate
    split <;> rfl
  | serve request o =>
    obtain ⟨object, found, -, served⟩ := locked_some done
    cases served
    cases request with
    | join req => exact Or.inl ⟨req, o, rfl⟩
    | commit req | delete name =>
      right
      unfold serve
      dsimp only
      split <;> rfl
    | _ => exact Or.inr rfl
  | joinWait req wait o | syncWait req wait o =>
    obtain ⟨object, found, -, served⟩ := locked_some done
    split at served <;> cases served
    exact Or.inr rfl
  | unmap name o =>
    cases done
    right
    dsimp only
    split <;> rfl
  | eraseOffsets name o =>
    unfold advance at done
    dsimp only at done
    split at done <;> cases done
    exact Or.inr rfl
  | reap seen o =>
    obtain ⟨object, found, -, served⟩ := locked_some done
    cases served
    exact Or.inr rfl

theorem Deserted.change {objects : List GroupObject} {groups : Bytes → Option Nat} (h : gm.Deserted)
    (change : Change cfg gm objects groups gm.nextMemberSeq) {object' : GroupObject} (found : objects[o]? = some object')
    (deleted : object'.deleted = true) : ∀ id, id ∉ object'.group.members := by
  intro id member
  cases change with
  | same => exact h o object' found deleted id member
  | created name none =>
    rcases Nat.lt_or_ge o gm.objects.length with old | new
    · rw [List.getElem?_append_left old] at found
      exact h o object' found deleted id member
    · rw [List.getElem?_append_right new, List.getElem?_singleton] at found
      split at found <;> cases found
      cases deleted
  | acted before acts =>
    rcases of_getElem?_set found with ⟨rfl, rfl⟩ | ⟨-, old⟩
    · rcases acts.members member with known | ⟨-, drawn⟩
      · exact h _ _ before deleted id known
      · omega
    · exact h o object' old deleted id member
  | marked before =>
    rcases of_getElem?_set found with ⟨rfl, rfl⟩ | ⟨-, old⟩
    · exact AList.notMem_empty id member
    · exact h o object' old deleted id member
  | unmapped call mapped => exact h o object' found deleted id member
  | released before =>
    rcases of_getElem?_set found with ⟨rfl, rfl⟩ | ⟨-, old⟩
    · exact h _ _ before deleted id member
    · exact h o object' old deleted id member

theorem Deserted.step (h : gm.Deserted) (calm : gm.Undisturbed e) (step : gm.Steps cfg e gm') : gm'.Deserted := by
  intro o object' found deleted
  have change := step.change
  by_cases drawn : gm'.nextMemberSeq = gm.nextMemberSeq
  · rw [drawn] at change
    exact h.change change found deleted
  · -- the only step that draws an id is a join, on a group that is not marked
    obtain ⟨answer, done⟩ := step
    cases e with
    | tick passed =>
      cases done
      exact absurd rfl drawn
    | call request =>
      cases done
      exact absurd rfl drawn
    | reapExpiredSessions =>
      cases done
      exact absurd rfl drawn
    | advance i fails =>
      obtain ⟨call, result, pending, advanced, rfl, -⟩ := perform_advance done
      rcases advance_seq advanced with ⟨req, o', rfl⟩ | same
      · obtain ⟨object, before, -, served⟩ := locked_some advanced
        cases served
        rw [conclude_objects] at found
        rcases of_getElem?_set found with ⟨rfl, rfl⟩ | ⟨-, old⟩
        · simp only [Undisturbed, pending] at calm
          have clean : object.deleted = false := calm object before
          rw [show object.deleted = true from deleted] at clean
          cases clean
        · exact h o object' old deleted
      · rw [conclude_nextMemberSeq] at drawn
        exact absurd same drawn

theorem joinOutcome_returned {req own : JoinGroupRequest} {result : JoinOutcome} {resp : JoinGroupResponse}
    (returns : joinOutcome req o result = .returns (.join own resp)) : ∃ expelled, result = .returned resp expelled := by
  cases result with
  | returned own expelled =>
    cases returns
    exact ⟨expelled, rfl⟩
  | waiting wait => cases returns

theorem setGroup_found {object : GroupObject} {g : Group} (found : gm.objects[o]? = some object) :
    (gm.setGroup o object g).objects[o]? = some { object with group := g } :=
  List.getElem?_set_self (List.getElem?_eq_some_iff.mp found).1

theorem join_in_map (wired : gm.Wired) (deserted : gm.Deserted) {i : Nat} (calm : gm.Undisturbed (.advance i fails))
    {req : JoinGroupRequest} {resp : JoinGroupResponse} (none : resp.errorCode = errNone)
    (done : gm.perform cfg (.advance i fails) = some (gm', some (.join req resp))) :
    ∃ (o : Nat) (object : GroupObject), gm'.groups req.group = some o ∧ gm'.objects[o]? = some object ∧
      resp.memberID ∈ object.group.members := by
  have wired' : gm'.Wired := wired.step (e := .advance i fails) ⟨_, done⟩
  obtain ⟨call, mid, pending, advanced, rfl⟩ := perform_answers done
  rcases advance_returns advanced with ⟨request, o, object, rfl, found, -, served, kind⟩ |
    ⟨own, wait, o, object, _, rfl, found, -, woken, same⟩ |
    ⟨_, _, clash⟩ | ⟨_, clash⟩ | ⟨_, clash⟩ | ⟨_, _, clash⟩ | ⟨_, clash⟩
  · cases request with
    | join own =>
      cases kind
      obtain ⟨returns, rfl⟩ := Prod.mk.inj served
      obtain ⟨expelled, returned⟩ := joinOutcome_returned returns
      simp only [Undisturbed, pending] at calm
      obtain ⟨_, again, name⟩ := wired.calls _ (List.mem_of_getElem? pending)
      rw [found] at again
      cases again
      have after :=
        setGroup_found (g := (object.group.joinGroup cfg gm.now (nextMemberID (gm.nextMemberSeq + 1)) req).2) found
      have mapped := wired'.live o _ after (calm object found)
      rw [show object.name = req.group from name] at mapped
      exact ⟨o, _, mapped, after, Group.joinGroup_member none (Prod.ext returned rfl)⟩
    | _ => cases kind
  · cases same
    obtain ⟨returns, rfl⟩ := Prod.mk.inj woken
    obtain ⟨expelled, returned⟩ := joinOutcome_returned returns
    simp only [Undisturbed, pending] at calm
    obtain ⟨_, again, name⟩ := wired.calls _ (List.mem_of_getElem? pending)
    rw [found] at again
    cases again
    obtain ⟨known, stays⟩ := Group.joinWake_member none (calm object found) (Prod.ext returned rfl)
    have clean : object.deleted = false := by
      by_contra marked
      exact deserted o object found (Bool.eq_true_of_not_eq_false marked) _ known
    have after := setGroup_found (g := (object.group.joinWake gm.now wait).2) found
    have mapped := wired'.live o _ after clean
    rw [show object.name = req.group from name] at mapped
    exact ⟨o, _, mapped, after, stays⟩
  all_goals cases clash

def Deletes (name : Bytes) : Call → Prop
  | .lookup request | .create request | .serve request _ => request = .delete name
  | .unmap own _ | .eraseOffsets own _ => own = name
  | .joinWait _ _ _ | .syncWait _ _ _ | .reap _ _ => False

def Spares (name : Bytes) (_ : GroupManager) (e : ManagerEvent) : Prop := e ≠ .call (.delete name)

/-- No `OffsetCommit` of that group is served either. -/
def Leaves (name : Bytes) (gm : GroupManager) (e : ManagerEvent) : Prop :=
  e ≠ .call (.delete name) ∧ ∀ i fails req o, e = .advance i fails → gm.calls[i]? = some (.serve (.commit req) o) →
    req.group ≠ name

def NoDelete (name : Bytes) (gm : GroupManager) : Prop := ∀ call ∈ gm.calls, ¬ Deletes name call

theorem lookup_deletes {name : Bytes} {request : GroupRequest} {next : Call}
    (continues : gm.lookup request = .continues next)
    (deletes : Deletes name next) : request = .delete name := by
  cases request with
  | heartbeat req | leave req | delete own | join req | sync req | commit req =>
    unfold lookup at continues
    dsimp only at continues
    split at continues <;> cases continues
    all_goals exact deletes

theorem advance_deletes {name : Bytes} {call next : Call} {mid : GroupManager}
    (done : gm.advance cfg fails call = some (.continues next, mid)) (deletes : Deletes name next) : Deletes name call := by
  cases call with
  | lookup request =>
    obtain ⟨continues, -⟩ := Prod.mk.inj (Option.some.inj done)
    exact lookup_deletes continues deletes
  | create request =>
    cases done
    exact deletes
  | serve request o =>
    obtain ⟨object, found, -, served⟩ := locked_some done
    have own := Option.some.inj served
    cases request with
    | join req =>
      obtain ⟨continues, -⟩ := Prod.mk.inj own
      unfold joinOutcome at continues
      split at continues <;> cases continues
      exact deletes.elim
    | sync req =>
      obtain ⟨continues, -⟩ := Prod.mk.inj own
      unfold syncOutcome at continues
      split at continues <;> cases continues
      exact deletes.elim
    | heartbeat req | leave req => cases own
    | commit req =>
      unfold serve at own
      dsimp only at own
      split at own <;> cases own
    | delete other =>
      unfold serve at own
      dsimp only at own
      split at own <;> cases own
      exact congrArg GroupRequest.delete deletes
  | joinWait req wait o =>
    obtain ⟨object, found, -, served⟩ := locked_some done
    split at served
    · obtain ⟨continues, -⟩ := Prod.mk.inj (Option.some.inj served)
      unfold joinOutcome at continues
      split at continues <;> cases continues
      exact deletes.elim
    · cases served
  | syncWait req wait o =>
    obtain ⟨object, found, -, served⟩ := locked_some done
    split at served
    · obtain ⟨continues, -⟩ := Prod.mk.inj (Option.some.inj served)
      unfold syncOutcome at continues
      split at continues <;> cases continues
      exact deletes.elim
    · cases served
  | unmap own o =>
    cases done
    exact deletes
  | eraseOffsets own o =>
    unfold advance at done
    dsimp only at done
    split at done <;> cases done
  | reap seen o =>
    obtain ⟨object, found, -, served⟩ := locked_some done
    cases served

theorem NoDelete.step {name : Bytes} (h : gm.NoDelete name) (spares : Spares name gm e) (step : gm.Steps cfg e gm') :
    gm'.NoDelete name := by
  obtain ⟨answer, done⟩ := step
  intro call member deletes
  cases e with
  | tick passed =>
    cases done
    exact h call member deletes
  | call request =>
    cases done
    rcases List.mem_append.mp member with old | single
    · exact h call old deletes
    · rw [List.mem_singleton.mp single] at deletes
      exact spares (congrArg ManagerEvent.call deletes)
  | reapExpiredSessions =>
    cases done
    rcases List.mem_append.mp member with old | new
    · exact h call old deletes
    · obtain ⟨o, -, rfl⟩ := List.mem_map.mp new
      exact deletes.elim
  | advance i fails =>
    obtain ⟨own, ⟨outcome, mid⟩, pending, advanced, rfl, -⟩ := perform_advance done
    rcases mem_conclude member with old | left
    · rw [advance_calls advanced] at old
      exact h call old deletes
    · cases left
      exact h own (List.mem_of_getElem? pending) (advance_deletes advanced deletes)

theorem advance_offsets {call : Call} {result : Outcome × GroupManager} (done : gm.advance cfg fails call = some result) :
    result.2.offsets = gm.offsets ∨
      (∃ req o, call = .serve (.commit req) o ∧
        result.2.offsets = commitBatch gm.offsets (Int64.ofInt gm.now) (commitRecords req)) ∨
      ∃ name o, call = .eraseOffsets name o ∧ result.2.offsets = fun key => if key.group = name then none
        else gm.offsets key := by
  cases call with
  | lookup request =>
    cases done
    exact Or.inl rfl
  | create request =>
    cases done
    left
    unfold getOrCreate
    split <;> rfl
  | serve request o =>
    obtain ⟨object, found, -, served⟩ := locked_some done
    cases served
    cases request with
    | commit req =>
      unfold serve
      dsimp only
      split
      · exact Or.inr (Or.inl ⟨req, o, rfl, rfl⟩)
      · exact Or.inl rfl
    | delete name =>
      left
      unfold serve
      dsimp only
      split <;> rfl
    | _ => exact Or.inl rfl
  | joinWait req wait o | syncWait req wait o =>
    obtain ⟨object, found, -, served⟩ := locked_some done
    split at served <;> cases served
    exact Or.inl rfl
  | unmap name o =>
    cases done
    left
    dsimp only
    split <;> rfl
  | eraseOffsets name o =>
    unfold advance at done
    dsimp only at done
    split at done <;> cases done
    exact Or.inr (Or.inr ⟨name, o, rfl, rfl⟩)
  | reap seen o =>
    obtain ⟨object, found, -, served⟩ := locked_some done
    cases served
    exact Or.inl rfl

theorem commitRecords_group {req : OffsetCommitRequest} {r : OffsetCommitRecord} (member : r ∈ commitRecords req) :
    r.key.group = req.group := by
  obtain ⟨t, -, inside⟩ := List.mem_flatMap.mp member
  obtain ⟨p, -, rfl⟩ := List.mem_map.mp inside
  rfl

theorem commitBatch_present {offsets : Offsets} {now : Int64} {records : List OffsetCommitRecord} {key : OffsetKey}
    (present : offsets key ≠ none) : commitBatch offsets now records key ≠ none := by
  rcases Journal.replay_mem (records.map fun r => (r.key, r.stamped now)) offsets key with same | ⟨v, -, same⟩
  · rw [commitBatch, same]
    exact present
  · rw [commitBatch, same]
    exact Option.some_ne_none v

theorem commitBatch_other {offsets : Offsets} {now : Int64} {req : OffsetCommitRequest} {key : OffsetKey}
    (other : req.group ≠ key.group) : commitBatch offsets now (commitRecords req) key = offsets key := by
  apply Journal.replay_of_unwritten
  rw [Journal.written, List.map_eq_nil_iff, List.filter_eq_nil_iff]
  intro w member
  obtain ⟨r, inside, rfl⟩ := List.mem_map.mp member
  rw [decide_eq_true_eq]
  rintro rfl
  exact other (commitRecords_group inside).symm

theorem commitBatch_written {offsets : Offsets} {now : Int64} {records : List OffsetCommitRecord} {r : OffsetCommitRecord}
    (member : r ∈ records) : commitBatch offsets now records r.key ≠ none := by
  have some : Journal.written (records.map fun r => (r.key, r.stamped now)) r.key ≠ [] := by
    apply List.ne_nil_of_mem (a := r.stamped now)
    refine List.mem_map.mpr ⟨(r.key, r.stamped now), List.mem_filter.mpr ⟨?_, decide_eq_true rfl⟩, rfl⟩
    exact List.mem_map.mpr ⟨r, member, rfl⟩
  rw [commitBatch, Journal.replay_apply, List.getLast?_eq_some_getLast some]
  exact Option.some_ne_none _

theorem offsets_step {name : Bytes} {key : OffsetKey} (none : gm.NoDelete name) (own : key.group = name)
    (step : gm.Steps cfg e gm') :
    gm'.offsets key = gm.offsets key ∨
      ∃ i fails req o, e = .advance i fails ∧ gm.calls[i]? = some (.serve (.commit req) o) ∧
        gm'.offsets = commitBatch gm.offsets (Int64.ofInt gm.now) (commitRecords req) := by
  obtain ⟨answer, done⟩ := step
  cases e with
  | tick passed =>
    cases done
    exact Or.inl rfl
  | call request =>
    cases done
    exact Or.inl rfl
  | reapExpiredSessions =>
    cases done
    exact Or.inl rfl
  | advance i fails =>
    obtain ⟨call, result, pending, advanced, rfl, -⟩ := perform_advance done
    rw [conclude_offsets]
    rcases advance_offsets advanced with same | ⟨req, o, rfl, written⟩ | ⟨other, o, rfl, erased⟩
    · exact Or.inl (congrFun same key)
    · exact Or.inr ⟨i, fails, req, o, rfl, pending, written⟩
    · left
      rw [erased]
      apply if_neg
      rintro rfl
      exact none _ (List.mem_of_getElem? pending) own

def FullyAccepted (resp : OffsetCommitResponse) : Prop := ∀ t ∈ resp.topics, ∀ p ∈ t.partitions, p.2 = errNone

theorem commit_written {i : Nat} {req : OffsetCommitRequest} {resp : OffsetCommitResponse} {r : OffsetCommitRecord}
    (done : gm.perform cfg (.advance i fails) = some (gm', some (.commit req resp))) (accepted : FullyAccepted resp)
    (member : r ∈ commitRecords req) :
    gm'.offsets = commitBatch gm.offsets (Int64.ofInt gm.now) (commitRecords req) := by
  obtain ⟨call, mid, pending, advanced, rfl⟩ := perform_answers done
  rw [conclude_offsets]
  rcases advance_returns advanced with ⟨request, o, object, rfl, found, -, served, kind⟩ |
    ⟨_, _, _, _, _, -, -, -, -, clash⟩ |
    ⟨_, _, clash⟩ | ⟨_, clash⟩ | ⟨_, clash⟩ | ⟨_, _, clash⟩ | ⟨_, clash⟩
  · cases request with
    | commit own =>
      cases kind
      unfold serve at served
      dsimp only at served
      split at served
      · cases served
        rfl
      · rename_i refused
        cases served
        -- some partition is in the request, so the code of the fence shows
        obtain ⟨t, topic, inside⟩ := List.mem_flatMap.mp member
        obtain ⟨p, partition, rfl⟩ := List.mem_map.mp inside
        have code := accepted _ (List.mem_map_of_mem topic) _ (List.mem_map_of_mem partition)
        exact absurd ⟨code, List.ne_nil_of_mem member⟩ refused
    | _ => cases kind
  all_goals cases clash

structure Keeps (key : OffsetKey) (gm : GroupManager) : Prop where
  spared : gm.NoDelete key.group
  present : gm.offsets key ≠ none

theorem Keeps.step {key : OffsetKey} (h : gm.Keeps key) (spares : Spares key.group gm e) (step : gm.Steps cfg e gm') :
    gm'.Keeps key := by
  refine ⟨h.spared.step spares step, ?_⟩
  rcases offsets_step h.spared rfl step with same | ⟨_, _, req, _, -, -, written⟩
  · rw [same]
    exact h.present
  · rw [written]
    exact commitBatch_present h.present

structure KeepsAs (key : OffsetKey) (value : Option CommittedOffset) (gm : GroupManager) : Prop where
  spared : gm.NoDelete key.group
  value : gm.offsets key = value

theorem KeepsAs.step {key : OffsetKey} {value : Option CommittedOffset} (h : gm.KeepsAs key value)
    (leaves : Leaves key.group gm e) (step : gm.Steps cfg e gm') : gm'.KeepsAs key value := by
  refine ⟨h.spared.step leaves.1 step, ?_⟩
  rcases offsets_step h.spared rfl step with same | ⟨i, fails, req, o, event, pending, written⟩
  · rw [same]
    exact h.value
  · rw [written, commitBatch_other (leaves.2 i fails req o event pending)]
    exact h.value

theorem deserted_start (now : Time) : (start now).Deserted := fun _ _ found => by cases found

theorem no_lost_group (cfg : Config) (now : Time) :
    (∀ gm, Reaches Undisturbed (Steps cfg) (start now) gm →
      ∀ i fails gm' req resp, gm.Undisturbed (.advance i fails) →
        gm.perform cfg (.advance i fails) = some (gm', some (.join req resp)) → resp.errorCode = errNone →
        ∃ (o : Nat) (object : GroupObject), gm'.groups req.group = some o ∧ gm'.objects[o]? = some object ∧
          resp.memberID ∈ object.group.members) ∧
    ∀ gm, Reaches anything (Steps cfg) (start now) gm →
      ∀ i fails gm' req resp, gm.perform cfg (.advance i fails) = some (gm', some (.commit req resp)) →
        FullyAccepted resp → gm.NoDelete req.group → ∀ r ∈ commitRecords req,
          (∀ later, Reaches (Spares req.group) (Steps cfg) gm' later → later.offsets r.key ≠ none) ∧
          ∀ later, Reaches (Leaves req.group) (Steps cfg) gm' later → later.offsets r.key =
            commitBatch gm.offsets (Int64.ofInt gm.now) (commitRecords req) r.key := by
  constructor
  · intro gm run i fails gm' req resp calm done none
    have wired : gm.Wired := run.invariant (wired_start now) fun _ _ _ h _ step => h.step step
    have deserted : gm.Deserted := run.invariant (deserted_start now) fun _ _ _ h calm step => h.step calm step
    exact join_in_map wired deserted calm none done
  · intro gm run i fails gm' req resp done accepted spared r member
    have own := commitRecords_group member
    have written := commit_written done accepted member
    have spared' : gm'.NoDelete req.group := by
      refine spared.step (e := .advance i fails) ?_ ⟨_, done⟩
      exact fun clash => ManagerEvent.noConfusion clash
    constructor
    · intro later run'
      have start : gm'.Keeps r.key := by
        refine ⟨by rwa [own], ?_⟩
        rw [written]
        exact commitBatch_written member
      refine (run'.invariant start fun _ _ _ h spares step => h.step ?_ step).present
      rwa [own]
    · intro later run'
      have start : gm'.KeepsAs r.key (gm'.offsets r.key) := ⟨by rwa [own], rfl⟩
      rw [← written]
      refine (run'.invariant start fun _ _ _ h leaves step => h.step ?_ step).value
      rwa [own]

def keepOffset : OffsetCommitRequest := ⟨0, newcomer.group, -1, [], none, [⟨ascii "t", [⟨0, 5, -1, none⟩]⟩]⟩

def commitThenJoin : List ManagerEvent :=
  [.call (.commit keepOffset), .advance 0 false, .advance 0 false, .advance 0 false,
    .call (.join newcomer), .advance 0 false]

theorem no_lost_group_joined : ∃ gm gm' : GroupManager, Reaches Undisturbed (Steps settings) (start 0) gm ∧
    gm.Undisturbed (.advance 0 false) ∧
    ∃ resp, gm.perform settings (.advance 0 false) = some (gm', some (.join newcomer resp)) ∧ resp.errorCode = errNone ∧
      ∃ (o : Nat) (object : GroupObject), gm'.groups newcomer.group = some o ∧ gm'.objects[o]? = some object ∧
        resp.memberID ∈ object.group.members := by
  obtain ⟨gm, run, calm, joins⟩ : ∃ gm : GroupManager, Reaches Undisturbed (Steps settings) (start 0) gm ∧
      gm.Undisturbed (.advance 0 false) ∧
      (∃ answer ∈ (gm.perform settings (.advance 0 false)).bind Prod.snd, answer = Answer.join newcomer
        ⟨errNone, 1, ascii "range", nextMemberID 1, nextMemberID 1, [⟨nextMemberID 1, none, []⟩]⟩) :=
    exists_reaches commitThenJoin (next_steps settings) (by decide +kernel)
  obtain ⟨_, answered, rfl⟩ := joins
  obtain ⟨⟨gm', _⟩, done, rfl⟩ := Option.bind_eq_some_iff.mp answered
  refine ⟨gm, gm', run, calm, _, done, rfl, ?_⟩
  exact (no_lost_group settings 0).1 gm run 0 false gm' newcomer _ calm done rfl

/-- Between the lookup of the join and its section the group is deleted. -/
theorem orphan_joined : ∃ gm gm' : GroupManager, Reaches anything (Steps settings) (start 0) gm ∧
    ∃ resp, gm.perform settings (.advance 0 false) = some (gm', some (.join newcomer resp)) ∧ resp.errorCode = errNone ∧
      gm'.groups newcomer.group = none := by
  obtain ⟨gm, run, joins⟩ : ∃ gm : GroupManager, Reaches anything (Steps settings) (start 0) gm ∧
      (gm.perform settings (.advance 0 false)).map (fun done => (done.1.groups newcomer.group, done.2)) =
        some (none, some (.join newcomer
          ⟨errNone, 1, ascii "range", nextMemberID 1, nextMemberID 1, [⟨nextMemberID 1, none, []⟩]⟩)) :=
    exists_reaches (commitThenJoin ++ [.call (.delete newcomer.group), .advance 1 false, .advance 1 false, .advance 1 false,
      .advance 1 false]) (next_steps settings) (by decide +kernel)
  obtain ⟨⟨gm', answer⟩, done, same⟩ := Option.map_eq_some_iff.mp joins
  obtain ⟨unmapped, rfl⟩ := Prod.mk.inj same
  exact ⟨gm, gm', run, _, done, rfl, unmapped⟩

end GroupManager

end PocketKafka.Coordinator
