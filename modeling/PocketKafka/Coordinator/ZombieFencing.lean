import PocketKafka.Coordinator.GroupInvariant
import PocketKafka.Coordinator.GroupMap

namespace PocketKafka.Coordinator

open Bytes Runs Protocol

namespace GroupManager

variable {cfg : Config} {gm gm' : GroupManager} {e : ManagerEvent} {fails : Bool} {id : MemberID} {o : Nat}

theorem lookup_returns {request : GroupRequest} {answer : Answer} (returns : gm.lookup request = .returns answer) :
    (∃ req, answer = .heartbeat req errUnknownMemberID) ∨ (∃ req, answer = .leave req []) ∨
      ∃ name, answer = .delete name false := by
  cases request with
  | heartbeat req =>
    unfold lookup at returns
    dsimp only at returns
    split at returns <;> cases returns
    exact Or.inl ⟨req, rfl⟩
  | leave req =>
    unfold lookup at returns
    dsimp only at returns
    split at returns <;> cases returns
    exact Or.inr (Or.inl ⟨req, rfl⟩)
  | delete name =>
    unfold lookup at returns
    dsimp only at returns
    split at returns <;> cases returns
    exact Or.inr (Or.inr ⟨name, rfl⟩)
  | join req | sync req | commit req =>
    unfold lookup at returns
    dsimp only at returns
    split at returns <;> cases returns

def Answers : GroupRequest → Answer → Prop
  | .join req, .join own _ => own = req
  | .sync req, .sync own _ => own = req
  | .heartbeat req, .heartbeat own _ => own = req
  | .leave req, .leave own _ => own = req
  | .commit req, .commit own _ => own = req
  | .delete name, .delete own _ => own = name
  | _, _ => False

theorem serve_answers {object : GroupObject} {request : GroupRequest} {answer : Answer} {mid : GroupManager}
    (served : gm.serve cfg o object fails request = (.returns answer, mid)) : Answers request answer := by
  cases request with
  | join req =>
    obtain ⟨returns, -⟩ := Prod.mk.inj served
    unfold joinOutcome at returns
    split at returns <;> cases returns
    rfl
  | sync req =>
    obtain ⟨returns, -⟩ := Prod.mk.inj served
    unfold syncOutcome at returns
    split at returns <;> cases returns
    rfl
  | heartbeat req | leave req =>
    cases served
    rfl
  | commit req | delete name =>
    unfold serve at served
    dsimp only at served
    split at served <;> cases served
    all_goals rfl

theorem advance_returns {call : Call} {answer : Answer} {mid : GroupManager}
    (done : gm.advance cfg fails call = some (.returns answer, mid)) :
    (∃ request o object, call = .serve request o ∧ gm.objects[o]? = some object ∧ object.held = false ∧
        gm.serve cfg o object fails request = (.returns answer, mid) ∧ Answers request answer) ∨
      (∃ req wait o object resp, call = .joinWait req wait o ∧ gm.objects[o]? = some object ∧ object.held = false ∧
        (joinOutcome req o (object.group.joinWake gm.now wait).1,
          gm.setGroup o object (object.group.joinWake gm.now wait).2) =
          (.returns answer, mid) ∧ answer = .join req resp) ∨
      (∃ req resp, answer = .sync req resp) ∨ (∃ req, answer = .heartbeat req errUnknownMemberID) ∨
      (∃ req, answer = .leave req []) ∨ (∃ name error, answer = .delete name error) ∨
        ∃ removed, answer = .reaped removed := by
  cases call with
  | lookup request =>
    obtain ⟨returns, -⟩ := Prod.mk.inj (Option.some.inj done)
    rcases lookup_returns returns with ⟨req, same⟩ | ⟨req, same⟩ | ⟨name, same⟩
    · exact .inr (.inr (.inr (.inl ⟨req, same⟩)))
    · exact .inr (.inr (.inr (.inr (.inl ⟨req, same⟩))))
    · exact .inr (.inr (.inr (.inr (.inr (.inl ⟨name, false, same⟩)))))
  | create request => cases done
  | serve request o =>
    obtain ⟨object, found, free, served⟩ := locked_some done
    have own := Option.some.inj served
    exact Or.inl ⟨request, o, object, rfl, found, free, own, serve_answers own⟩
  | joinWait req wait o =>
    obtain ⟨object, found, free, served⟩ := locked_some done
    split at served
    · have own := Option.some.inj served
      cases result : (object.group.joinWake gm.now wait).1 with
      | returned resp expelled =>
        have returns := (Prod.mk.inj own).1
        rw [result] at returns
        exact .inr (.inl ⟨req, wait, o, object, resp, rfl, found, free, own, (Outcome.returns.inj returns).symm⟩)
      | waiting wait' =>
        have returns := (Prod.mk.inj own).1
        rw [result] at returns
        cases returns
    · cases served
  | syncWait req wait o =>
    obtain ⟨object, found, free, served⟩ := locked_some done
    split at served
    · obtain ⟨returns, -⟩ := Prod.mk.inj (Option.some.inj served)
      cases result : (object.group.syncWake gm.now wait).1 with
      | returned resp =>
        rw [result] at returns
        cases returns
        exact .inr (.inr (.inl ⟨req, resp, rfl⟩))
      | waiting wait' =>
        rw [result] at returns
        cases returns
    · cases served
  | unmap name o => cases done
  | eraseOffsets name o =>
    unfold advance at done
    dsimp only at done
    split at done <;> cases done
    exact .inr (.inr (.inr (.inr (.inr (.inl ⟨name, fails, rfl⟩)))))
  | reap seen o =>
    obtain ⟨object, found, free, served⟩ := locked_some done
    cases served
    exact .inr (.inr (.inr (.inr (.inr (.inr ⟨_, rfl⟩)))))

theorem perform_answers {i : Nat} {answer : Answer} (done : gm.perform cfg (.advance i fails) = some (gm', some answer)) :
    ∃ call mid, gm.calls[i]? = some call ∧ gm.advance cfg fails call = some (.returns answer, mid) ∧
      gm' = (conclude i (.returns answer, mid)).1 := by
  obtain ⟨call, ⟨outcome, mid⟩, pending, advanced, rfl, answered⟩ := perform_advance done
  cases outcome with
  | continues next => cases answered
  | returns own =>
    cases answered
    exact ⟨call, mid, pending, advanced, rfl⟩

def Accepted (resp : OffsetCommitResponse) : Prop := ∃ t ∈ resp.topics, ∃ p ∈ t.partitions, p.2 = errNone

theorem code_of_accepted {req : OffsetCommitRequest} {code : Int} (accepted : Accepted (commitResponse req code)) :
    code = errNone := by
  obtain ⟨t, topic, p, partition, none⟩ := accepted
  obtain ⟨t, -, rfl⟩ := List.mem_map.mp topic
  obtain ⟨p, -, rfl⟩ := List.mem_map.mp partition
  exact none

theorem commit_fence {i : Nat} {req : OffsetCommitRequest} {resp : OffsetCommitResponse}
    (done : gm.perform cfg (.advance i fails) = some (gm', some (.commit req resp))) (accepted : Accepted resp) :
    ∃ (o : Nat) (object : GroupObject), gm.calls[i]? = some (.serve (.commit req) o) ∧ gm.objects[o]? = some object ∧
      object.group.fence req = errNone := by
  obtain ⟨call, mid, pending, advanced, -⟩ := perform_answers done
  rcases advance_returns advanced with ⟨request, o, object, rfl, found, -, served, kind⟩ |
    ⟨_, _, _, _, _, -, -, -, -, clash⟩ |
    ⟨_, _, clash⟩ | ⟨_, clash⟩ | ⟨_, clash⟩ | ⟨_, _, clash⟩ | ⟨_, clash⟩
  · cases request with
    | commit own =>
      cases kind
      unfold serve at served
      dsimp only at served
      split at served
      · rename_i passed
        exact ⟨o, object, pending, found, passed.1⟩
      · cases served
        exact ⟨o, object, pending, found, code_of_accepted accepted⟩
    | _ => cases kind
  all_goals cases clash

theorem fence_none {g : Group} {req : OffsetCommitRequest} (passed : g.fence req = errNone) (current : 0 ≤ req.generation) :
    req.memberID ∈ g.members ∧ g.state ≠ .preparingRebalance ∧ req.generation = g.generation := by
  rw [Group.fence, if_pos current] at passed
  split at passed
  · cases passed
  · rename_i open_
    split at passed
    · cases passed
    · rename_i known
      split at passed
      · cases passed
      · rename_i same
        exact ⟨by_contra fun unknown => known (Group.lookup_eq_none.mpr unknown), open_, not_not.mp same⟩

theorem heartbeat_member {i : Nat} {req : HeartbeatRequest}
    (done : gm.perform cfg (.advance i fails) = some (gm', some (.heartbeat req errNone))) :
    ∃ (o : Nat) (object : GroupObject), gm.objects[o]? = some object ∧ req.memberID ∈ object.group.members := by
  obtain ⟨call, mid, pending, advanced, -⟩ := perform_answers done
  rcases advance_returns advanced with ⟨request, o, object, rfl, found, -, served, kind⟩ |
    ⟨_, _, _, _, _, -, -, -, -, clash⟩ |
    ⟨_, _, clash⟩ | ⟨_, clash⟩ | ⟨_, clash⟩ | ⟨_, _, clash⟩ | ⟨_, clash⟩
  · cases request with
    | heartbeat own =>
      cases kind
      have code := (Answer.heartbeat.inj (Outcome.returns.inj (Prod.mk.inj served).1)).2
      refine ⟨o, object, found, by_contra fun unknown => ?_⟩
      rw [Group.heartbeat, if_pos (Group.lookup_eq_none.mpr unknown)] at code
      cases code
    | _ => cases kind
  all_goals cases clash

def Holds (objects : List GroupObject) (o : Nat) (id : MemberID) : Prop :=
  ∃ object, objects[o]? = some object ∧ id ∈ object.group.members

def HandedOut (seq : Nat) (id : MemberID) : Prop := ∃ k ≤ seq, id = nextMemberID k

theorem HandedOut.mono {seq seq' : Nat} (h : HandedOut seq id) (grows : seq ≤ seq') : HandedOut seq' id := by
  obtain ⟨k, bound, same⟩ := h
  exact ⟨k, bound.trans grows, same⟩

theorem HandedOut.old {seq : Nat} (h : HandedOut seq id) : id ≠ nextMemberID (seq + 1) := by
  rintro rfl
  obtain ⟨k, bound, same⟩ := h
  have := nextMemberID_injective same
  omega

theorem Change.holds {objects : List GroupObject} {groups : Bytes → Option Nat} {seq : Nat}
    (h : Change cfg gm objects groups seq) :
    ∃ acting, ∀ o id, Holds objects o id → Holds gm.objects o id ∨
      o = acting ∧ id = nextMemberID (gm.nextMemberSeq + 1) ∧ seq = gm.nextMemberSeq + 1 := by
  cases h with
  | same => exact ⟨0, fun o id holds => Or.inl holds⟩
  | created name none =>
    refine ⟨0, ?_⟩
    rintro o id ⟨object, found, member⟩
    rcases Nat.lt_or_ge o gm.objects.length with old | new
    · rw [List.getElem?_append_left old] at found
      exact Or.inl ⟨object, found, member⟩
    · rw [List.getElem?_append_right new, List.getElem?_singleton] at found
      split at found <;> cases found
      exact absurd member (AList.notMem_empty id)
  | @acted acting seq object g before acts =>
    refine ⟨acting, ?_⟩
    rintro o id ⟨object', found, member⟩
    rcases of_getElem?_set found with ⟨rfl, rfl⟩ | ⟨-, old⟩
    · rcases acts.members member with known | ⟨fresh, drawn⟩
      · exact Or.inl ⟨object, before, known⟩
      · exact Or.inr ⟨rfl, fresh, drawn⟩
    · exact Or.inl ⟨object', old, member⟩
  | marked before =>
    refine ⟨0, ?_⟩
    rintro o id ⟨object', found, member⟩
    rcases of_getElem?_set found with ⟨rfl, rfl⟩ | ⟨-, old⟩
    · exact absurd member (AList.notMem_empty id)
    · exact Or.inl ⟨object', old, member⟩
  | unmapped call mapped => exact ⟨0, fun o id holds => Or.inl holds⟩
  | released before =>
    refine ⟨0, ?_⟩
    rintro o id ⟨object', found, member⟩
    rcases of_getElem?_set found with ⟨rfl, rfl⟩ | ⟨-, old⟩
    · exact Or.inl ⟨_, before, member⟩
    · exact Or.inl ⟨object', old, member⟩

structure Owned (gm : GroupManager) : Prop where
  issued : ∀ o id, Holds gm.objects o id → HandedOut gm.nextMemberSeq id
  single : ∀ o o' id, Holds gm.objects o id → Holds gm.objects o' id → o = o'

theorem owned_start (now : Time) : (start now).Owned := by
  constructor
  · rintro o id ⟨object, found, -⟩
    cases found
  · rintro o o' id ⟨object, found, -⟩
    cases found

theorem Owned.step (h : gm.Owned) (step : gm.Steps cfg e gm') : gm'.Owned := by
  have change := step.change
  obtain ⟨acting, holds⟩ := change.holds
  constructor
  · intro o id holding
    rcases holds o id holding with old | ⟨-, fresh, drawn⟩
    · exact (h.issued o id old).mono change.counter
    · exact ⟨_, drawn.ge, fresh⟩
  · intro o o' id holding other
    rcases holds o id holding with old | ⟨rfl, fresh, -⟩
    · rcases holds o' id other with old' | ⟨-, fresh', -⟩
      · exact h.single o o' id old old'
      · exact absurd fresh' (h.issued o id old).old
    · rcases holds o' id other with old' | ⟨rfl, -, -⟩
      · exact absurd fresh (h.issued o' id old').old
      · rfl

/-- The id was handed out, and of the objects at most those in `places` have a member of that id. -/
def Confined (places : Set Nat) (id : MemberID) (gm : GroupManager) : Prop :=
  HandedOut gm.nextMemberSeq id ∧ ∀ o, Holds gm.objects o id → o ∈ places

theorem Confined.step {places : Set Nat} (h : Confined places id gm) (step : gm.Steps cfg e gm') :
    Confined places id gm' := by
  obtain ⟨acting, holds⟩ := step.change.holds
  refine ⟨h.1.mono step.change.counter, fun o holding => ?_⟩
  rcases holds o id holding with old | ⟨-, fresh, -⟩
  · exact h.2 o old
  · exact absurd fresh h.1.old

theorem confined_of_gone {now : Time} {gone later : GroupManager} (run : Reaches anything (Steps cfg) (start now) gm)
    (member : Holds gm.objects o id) (left : Reaches anything (Steps cfg) gm gone) (absent : ¬ Holds gone.objects o id)
    (after : Reaches anything (Steps cfg) gone later) : Confined ∅ id later := by
  have owned : gm.Owned := run.invariant (owned_start now) fun _ _ _ h _ step => h.step step
  have only : Confined {o} id gone := by
    have before : Confined {o} id gm := ⟨owned.issued o id member, fun o' holds => owned.single o' o id holds member⟩
    exact left.invariant before fun _ _ _ h _ step => Confined.step h step
  have nowhere : Confined ∅ id gone := by
    refine ⟨only.1, fun o' holds => ?_⟩
    rw [show o' = o from only.2 o' holds] at holds
    exact absent holds
  exact after.invariant nowhere fun _ _ _ h _ step => Confined.step h step

/-- A commit gets the lock of a group that is not marked as deleted. -/
def CommitsLive (gm : GroupManager) : ManagerEvent → Prop
  | .advance i _ =>
    match gm.calls[i]? with
    | some (.serve (.commit _) o) => ∀ object ∈ gm.objects[o]?, object.deleted = false
    | _ => True
  | _ => True

theorem CommitsLive.clean {i : Nat} {req : OffsetCommitRequest} {object : GroupObject}
    (h : gm.CommitsLive (.advance i fails)) (pending : gm.calls[i]? = some (.serve (.commit req) o))
    (found : gm.objects[o]? = some object) : object.deleted = false := by
  simp only [CommitsLive, pending] at h
  exact h object found

theorem zombies_fenced (cfg : Config) (now : Time) (gm : GroupManager)
    (run : Reaches anything (Steps cfg) (start now) gm) :
    (∀ i fails gm' req resp, gm.CommitsLive (.advance i fails) →
      gm.perform cfg (.advance i fails) = some (gm', some (.commit req resp)) →
      0 ≤ req.generation → Accepted resp → ∃ o object, gm.groups req.group = some o ∧
        gm.objects[o]? = some object ∧ req.memberID ∈ object.group.members ∧
        object.group.state ≠ .preparingRebalance) ∧
    ∀ o id, Holds gm.objects o id →
      ∀ gone, Reaches anything (Steps cfg) gm gone → ¬ Holds gone.objects o id →
        ∀ later, Reaches anything (Steps cfg) gone later →
          (∀ i fails gm' req resp, later.perform cfg (.advance i fails) = some (gm', some (.commit req resp)) →
            req.memberID = id → 0 ≤ req.generation → ¬ Accepted resp) ∧
          ∀ i fails gm' req code, later.perform cfg (.advance i fails) = some (gm', some (.heartbeat req code)) →
            req.memberID = id → code ≠ errNone := by
  have wired : gm.Wired := run.invariant (wired_start now) fun _ _ _ h _ step => h.step step
  constructor
  · intro i fails gm' req resp live done current accepted
    obtain ⟨o, object, pending, found, passed⟩ := commit_fence done accepted
    obtain ⟨known, closed, -⟩ := fence_none passed current
    obtain ⟨own, same, name⟩ := wired.calls _ (List.mem_of_getElem? pending)
    rw [found] at same
    cases same
    have mapped := wired.live o object found (live.clean pending found)
    rw [name] at mapped
    exact ⟨o, object, mapped, found, known, closed⟩
  · intro o id member gone left absent later after
    have nowhere := confined_of_gone run member left absent after
    constructor
    · rintro i fails gm' req resp done rfl current accepted
      obtain ⟨o', object, -, found, passed⟩ := commit_fence done accepted
      exact nowhere.2 o' ⟨object, found, (fence_none passed current).1⟩
    · rintro i fails gm' req code done rfl rfl
      obtain ⟨o', object, found, known⟩ := heartbeat_member done
      exact nowhere.2 o' ⟨object, found, known⟩

def ownCommit : OffsetCommitRequest where
  version := 2
  group := newcomer.group
  generation := 1
  memberID := nextMemberID 1
  instanceID := none
  topics := [⟨ascii "t", [⟨0, 5, -1, none⟩]⟩]

def committing : GroupManager := { lone (int32 1) 1 with calls := [.serve (.commit ownCommit) 0] }

theorem firstJoin_committing :
    follow anything (next settings) (start 0) (firstJoin ++ [.call (.commit ownCommit), .advance 0 false]) =
      some committing := rfl

theorem zombies_fenced_left : ∃ gm' gone : GroupManager, Reaches anything (Steps settings) (start 0) committing ∧
    committing.CommitsLive (.advance 0 false) ∧
    committing.perform settings (.advance 0 false) =
      some (gm', some (.commit ownCommit (commitResponse ownCommit errNone))) ∧
    (∃ o object, committing.groups newcomer.group = some o ∧ committing.objects[o]? = some object ∧
      nextMemberID 1 ∈ object.group.members ∧ object.group.state ≠ .preparingRebalance) ∧
    Reaches anything (Steps settings) committing gone ∧ ¬ Holds gone.objects 0 (nextMemberID 1) ∧
    ∀ i fails gm' req code, gone.perform settings (.advance i fails) = some (gm', some (.heartbeat req code)) →
      req.memberID = nextMemberID 1 → code ≠ errNone := by
  have run := reaches_of_follow (next_steps settings) firstJoin_committing
  have member : Holds committing.objects 0 (nextMemberID 1) := ⟨_, rfl, by decide⟩
  have live : committing.CommitsLive (.advance 0 false) := by
    intro object found
    cases found
    rfl
  have accepted : Accepted (commitResponse ownCommit errNone) :=
    ⟨_, List.mem_singleton.mpr rfl, _, List.mem_singleton.mpr rfl, rfl⟩
  have answered : (committing.perform settings (.advance 0 false)).map Prod.snd =
      some (some (.commit ownCommit (commitResponse ownCommit errNone))) := by decide +kernel
  obtain ⟨⟨gm', _⟩, done, rfl⟩ := Option.map_eq_some_iff.mp answered
  obtain ⟨gone, left, nobody⟩ : ∃ gone : GroupManager, Reaches anything (Steps settings) committing gone ∧
      gone.objects.map (fun object => object.group.members.keys) = [[]] :=
    exists_reaches [.advance 0 false, .call (.leave ⟨0, newcomer.group, nextMemberID 1, []⟩), .advance 0 false,
      .advance 0 false] (next_steps settings) (by decide +kernel)
  have absent : ¬ Holds gone.objects 0 (nextMemberID 1) := by
    rintro ⟨object, found, known⟩
    have keys := List.mem_map_of_mem (f := fun object => object.group.members.keys) (List.mem_of_getElem? found)
    rw [nobody, List.mem_singleton] at keys
    rw [AList.mem_keys, keys] at known
    cases known
  obtain ⟨commits, zombies⟩ := zombies_fenced settings 0 committing run
  exact ⟨gm', gone, run, live, done, commits 0 false gm' ownCommit _ live done (by decide) accepted, left, absent,
    (zombies 0 _ member gone left absent gone (.refl gone)).2⟩

/-- A join and a commit have found the group when it is deleted; the join gets the lock of the orphan, and another
    one makes the group anew. -/
def orphaned : List ManagerEvent :=
  [.call (.join newcomer), .advance 0 false, .advance 0 false, .call (.commit ownCommit), .advance 1 false,
    .call (.delete newcomer.group), .advance 2 false, .advance 2 false, .advance 2 false, .advance 2 false,
    .advance 0 false, .call (.join newcomer), .advance 1 false, .advance 1 false, .advance 1 false]

theorem orphan_commit_accepted : ∃ gm gm' : GroupManager, Reaches anything (Steps settings) (start 0) gm ∧
    gm.perform settings (.advance 0 false) =
      some (gm', some (.commit ownCommit (commitResponse ownCommit errNone))) ∧
    gm.groups ownCommit.group = some 1 ∧
    (gm.objects[1]?).map (fun object => object.group.members.keys) = some [nextMemberID 2] ∧
    ownCommit.memberID = nextMemberID 1 := by
  obtain ⟨gm, run, answered, mapped, members⟩ : ∃ gm : GroupManager, Reaches anything (Steps settings) (start 0) gm ∧
      (gm.perform settings (.advance 0 false)).map Prod.snd =
        some (some (.commit ownCommit (commitResponse ownCommit errNone))) ∧
      gm.groups ownCommit.group = some 1 ∧
      (gm.objects[1]?).map (fun object => object.group.members.keys) = some [nextMemberID 2] :=
    exists_reaches orphaned (next_steps settings) (by decide +kernel)
  obtain ⟨⟨gm', answer⟩, done, rfl⟩ := Option.map_eq_some_iff.mp answered
  exact ⟨gm, gm', run, done, mapped, members, rfl⟩

end GroupManager

end PocketKafka.Coordinator
