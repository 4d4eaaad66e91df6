import PocketKafka.Coordinator.PendingJoins

namespace PocketKafka.Coordinator

open Bytes Runs Protocol

namespace Group

variable {g g' : Group}

def Carries (g g' : Group) : Prop :=
  g'.assignments = ∅ ∨
    g'.assignments = g.assignments ∧ ¬ (g'.joinNotify ≠ g.joinNotify ∧ g'.state = .completingRebalance)

theorem Carries.of_same (assignments : g'.assignments = g.assignments) (notify : g'.joinNotify = g.joinNotify) :
    g.Carries g' := Or.inr ⟨assignments, fun changed => changed.1 notify⟩

theorem carries_completeJoin (same : g'.assignments = g.assignments) : g.Carries g'.completeJoinLocked := by
  unfold completeJoinLocked
  split
  · exact Or.inr ⟨same, fun changed => GroupState.noConfusion changed.2⟩
  · exact Or.inl rfl

theorem carries_expire : g.Carries g.expireRebalanceLocked := carries_completeJoin rfl

theorem carries_touch (memberID : MemberID) (now : Time) : g.Carries (g.touch memberID now) := by
  unfold touch
  split <;> exact .of_same rfl rfl

theorem carries_joinGroup (gm : Config) (now : Time) (fresh : MemberID) (req : JoinGroupRequest) :
    g.Carries (g.joinGroup gm now fresh req).2 := by
  unfold joinGroup
  split
  · exact .of_same rfl rfl
  · split
    · exact carries_touch req.memberID now
    · generalize isNew : decide (g.members.lookup req.memberID = none) = new
      have assignments : (g.enroll gm now (g.requested fresh req) new req).assignments = g.assignments := by
        unfold enroll
        dsimp only
        split <;> rfl
      have notify : (g.enroll gm now (g.requested fresh req) new req).joinNotify = g.joinNotify := by
        unfold enroll
        dsimp only
        split <;> rfl
      rcases awaitOthers_group (g := g.enroll gm now (g.requested fresh req) new req) now (g.requested fresh req)
        with same | ⟨dead, complete⟩
      · rw [same]
        exact .of_same assignments notify
      · rw [complete]
        exact carries_completeJoin assignments

theorem carries_joinWake (now : Time) (wait : JoinWait) : g.Carries (g.joinWake now wait).2 := by
  rcases joinWake_group (g := g) now wait with same | expired
  · rw [same]
    exact .of_same rfl rfl
  · rw [expired]
    exact carries_expire

theorem carries_heartbeat (now : Time) (memberID : MemberID) (generationID : Int) :
    g.Carries (g.heartbeat now memberID generationID).2 := by
  unfold heartbeat
  repeat' split
  all_goals first | exact .of_same rfl rfl | exact carries_touch memberID now

theorem carries_leaveGroup (now : Time) (gone : List MemberID) : g.Carries (g.leaveGroup now gone) := by
  unfold leaveGroup
  dsimp only
  split
  · exact .of_same rfl rfl
  · split
    · exact carries_completeJoin rfl
    · exact .of_same rfl rfl

theorem carries_reapExpired (gm : Config) (now clock : Time) : g.Carries (g.reapExpired gm now clock) := by
  unfold reapExpired
  dsimp only
  split
  · exact .of_same rfl rfl
  · split
    · exact .of_same rfl rfl
    · split
      · split
        · exact carries_completeJoin rfl
        · exact .of_same rfl rfl
      · exact .of_same rfl rfl

@[simp] theorem syncReturn_assignments (memberID : MemberID) (generationID : Int) :
    (g.syncReturn memberID generationID).2.assignments = g.assignments := by
  unfold syncReturn
  dsimp only
  split <;> rfl

@[simp] theorem syncReturn_joinNotify (memberID : MemberID) (generationID : Int) :
    (g.syncReturn memberID generationID).2.joinNotify = g.joinNotify := by
  unfold syncReturn
  dsimp only
  split <;> rfl

theorem syncLoop_assignments (now : Time) (memberID : MemberID) (generationID : Int) (deadline : Time) :
    (g.syncLoop now memberID generationID deadline).2.assignments = g.assignments := by
  unfold syncLoop
  split
  · exact syncReturn_assignments memberID generationID
  · rfl

theorem syncLoop_joinNotify (now : Time) (memberID : MemberID) (generationID : Int) (deadline : Time) :
    (g.syncLoop now memberID generationID deadline).2.joinNotify = g.joinNotify := by
  unfold syncLoop
  split
  · exact syncReturn_joinNotify memberID generationID
  · rfl

theorem syncGroup_assignments {now : Time} {req : SyncGroupRequest} (accepted : g.syncRefusal req = none) :
    (g.syncGroup now req).2.assignments = assign g.assignments req.assignments := by
  unfold syncGroup
  rw [accepted]
  dsimp only
  split
  · exact syncLoop_assignments now req.memberID req.generationID _
  · exact syncReturn_assignments req.memberID req.generationID

theorem syncGroup_joinNotify (now : Time) (req : SyncGroupRequest) : (g.syncGroup now req).2.joinNotify = g.joinNotify := by
  unfold syncGroup
  split
  · rfl
  · dsimp only
    split
    · exact syncLoop_joinNotify now req.memberID req.generationID _
    · exact syncReturn_joinNotify req.memberID req.generationID

theorem syncGroup_refused {now : Time} {req : SyncGroupRequest} (refused : g.syncRefusal req ≠ none) :
    (g.syncGroup now req).2 = g := by
  unfold syncGroup
  split
  · rfl
  · contradiction

theorem assign_agrees {known submitted : Assignments} (xs : List SyncGroupRequestAssignment)
    (agree : ∀ id a, known.lookup id = some a → submitted.lookup id = some a) :
    ∀ id a, (assign known xs).lookup id = some a → (assign submitted xs).lookup id = some a := by
  induction xs generalizing known submitted with
  | nil => exact agree
  | cons x xs ih =>
    apply ih
    intro id a found
    by_cases same : id = x.memberID
    · rw [same, AList.lookup_insert] at found ⊢
      exact found
    · rw [AList.lookup_insert_ne same] at found ⊢
      exact agree id a found

theorem mem_assign {known : Assignments} {id : MemberID} (xs : List SyncGroupRequestAssignment)
    (member : id ∈ xs.map SyncGroupRequestAssignment.memberID ∨ id ∈ known) : id ∈ assign known xs := by
  induction xs generalizing known with
  | nil => exact member.resolve_left List.not_mem_nil
  | cons x xs ih =>
    apply ih
    rw [List.map_cons, List.mem_cons] at member
    rw [AList.mem_insert]
    tauto

end Group

/-- An answer without an error is what was submitted for the member. -/
def SyncOutcome.Sound (submitted : Assignments) (memberID : MemberID) : SyncOutcome → Prop
  | .returned resp => resp.errorCode = errNone → submitted.lookup memberID = some resp.assignment
  | .waiting _ => True

namespace Group

variable {g : Group} {submitted : Assignments} {memberID : MemberID}

theorem sound_syncReturn (agree : ∀ id a, g.assignments.lookup id = some a → submitted.lookup id = some a)
    (assigned : memberID ∈ g.assignments) (generationID : Int) :
    (g.syncReturn memberID generationID).1.Sound submitted memberID := by
  obtain ⟨a, found⟩ := Option.isSome_iff_exists.mp (AList.lookup_isSome.mpr assigned)
  intro _
  show submitted.lookup memberID = some ((g.assignments.lookup memberID).getD [])
  rw [found]
  exact agree memberID a found

theorem sound_syncLoop {now deadline : Time} {generationID : Int}
    (agree : memberID ∈ g.assignments → ∀ id a, g.assignments.lookup id = some a → submitted.lookup id = some a)
    (waits : memberID ∉ g.assignments → g.state = .completingRebalance ∧ g.generation = generationID ∧ now < deadline) :
    (g.syncLoop now memberID generationID deadline).1.Sound submitted memberID := by
  by_cases assigned : memberID ∈ g.assignments
  · unfold syncLoop
    split
    · exact sound_syncReturn (agree assigned) assigned generationID
    · trivial
  · obtain ⟨completing, same, early⟩ := waits assigned
    have missing : g.assignments.lookup memberID = none := AList.lookup_eq_none.mpr assigned
    unfold syncLoop
    rw [if_neg]
    · trivial
    · simp [syncDone, missing, completing, same, early]

/-- Only the leader submits assignments, one for itself among them; another member has its assignment or
    waits for it. -/
def ProperSync (g : Group) (req : SyncGroupRequest) : Prop :=
  if req.memberID = g.leaderID then req.memberID ∈ req.assignments.map SyncGroupRequestAssignment.memberID ∨
    req.memberID ∈ g.assignments.keys
  else req.assignments = [] ∧ (req.memberID ∈ g.assignments.keys ∨ g.state = .completingRebalance)

instance (g : Group) (req : SyncGroupRequest) : Decidable (g.ProperSync req) :=
  inferInstanceAs (Decidable (if req.memberID = g.leaderID then (_ ∨ _) else (_ ∧ _)))

theorem sound_syncGroup {now : Time} {req : SyncGroupRequest} (proper : g.syncRefusal req = none → g.ProperSync req)
    (agree : g.syncRefusal req = none →
      ∀ id a, (assign g.assignments req.assignments).lookup id = some a → submitted.lookup id = some a) :
    (g.syncGroup now req).1.Sound submitted req.memberID := by
  unfold syncGroup
  split
  · rename_i code refused
    intro accepted
    have nonzero : code ≠ errNone := by
      unfold syncRefusal at refused
      repeat' split at refused
      all_goals cases refused
      all_goals decide
    exact absurd accepted nonzero
  · rename_i accepted
    have proper := proper accepted
    have agree := agree accepted
    dsimp only
    by_cases leads : req.memberID = g.leaderID
    · rw [if_neg (fun waits => waits.2 leads)]
      rw [ProperSync, if_pos leads] at proper
      apply sound_syncReturn agree
      exact mem_assign req.assignments (proper.imp id AList.mem_keys.mpr)
    · rw [ProperSync, if_neg leads] at proper
      obtain ⟨nothing, assigned⟩ := proper
      have same : assign g.assignments req.assignments = g.assignments := by rw [nothing]; rfl
      split
      · rename_i waits
        apply sound_syncLoop (fun _ => agree)
        intro unassigned
        have generation : req.generationID = g.generation := by
          unfold syncRefusal at accepted
          repeat' split at accepted
          all_goals try cases accepted
          rename_i same
          exact not_not.mp same
        refine ⟨assigned.resolve_left ?_, generation.symm, ?_⟩
        · rw [same] at unassigned
          exact fun key => unassigned (AList.mem_keys.mpr key)
        · have positive : 0 < syncWaitTimeout := by decide
          exact Int.lt_add_of_pos_right now positive
      · rename_i returns
        apply sound_syncReturn agree
        by_contra unassigned
        exact returns ⟨AList.lookup_eq_none.mpr unassigned, leads⟩

end Group

namespace System

variable {gm : Config} {s s' : System} {effect : Effect}

def Agrees (s : System) : Prop :=
  ∀ id a, s.group.assignments.lookup id = some a → (s.submitted s.election).lookup id = some a

theorem agrees_start (now : Time) : (start now).Agrees := by
  intro id a found
  cases found

theorem Agrees.of_moved {g : Group} (h : s.Agrees) (carries : s.group.Carries g) : (s.moved g).Agrees := by
  intro id a found
  have found : g.assignments.lookup id = some a := found
  rcases carries with none | ⟨same, still⟩
  · rw [none] at found
    cases found
  · have election : (s.moved g).election = s.election := if_neg still
    rw [election]
    rw [same] at found
    exact h id a found

theorem Agrees.joinEnds (h : s.Agrees) (keep : Option JoinWait → List JoinWait) {outcome : JoinOutcome × Group}
    (carries : s.group.Carries outcome.2) : (s.joinEnds keep outcome).1.Agrees := by
  obtain ⟨result, g⟩ := outcome
  cases result <;> exact h.of_moved carries

theorem syncEnds_agrees (memberID : MemberID) (election : Nat) (keep : Option (SyncWait × Nat) → List (SyncWait × Nat))
    {outcome : SyncOutcome × Group} (notify : outcome.2.joinNotify = s.group.joinNotify)
    (agree : ∀ id a, outcome.2.assignments.lookup id = some a → (s.submitted s.election).lookup id = some a) :
    (s.syncEnds memberID election keep outcome).1.Agrees := by
  obtain ⟨result, g⟩ := outcome
  have same : (s.moved g).election = s.election := if_neg fun changed => changed.1 notify
  have moved : (s.moved g).Agrees := by
    intro id a found
    rw [same]
    exact agree id a found
  cases result <;> exact moved

@[simp] theorem recordSync_election (req : SyncGroupRequest) : (s.recordSync req).election = s.election := by
  unfold recordSync
  split <;> rfl

@[simp] theorem recordSync_group (req : SyncGroupRequest) : (s.recordSync req).group = s.group := by
  unfold recordSync
  split <;> rfl

@[simp] theorem recordJoin_group (req : JoinGroupRequest) : (s.recordJoin req).group = s.group := by
  unfold recordJoin
  split <;> rfl

theorem Agrees.recordJoin (h : s.Agrees) (req : JoinGroupRequest) : (s.recordJoin req).Agrees := by
  unfold System.recordJoin
  split <;> exact h

theorem Agrees.assign (h : s.Agrees) {req : SyncGroupRequest} (accepted : s.group.syncRefusal req = none)
    (proper : s.group.ProperSync req) : ∀ id a, (Group.assign s.group.assignments req.assignments).lookup id = some a →
      ((s.recordSync req).submitted s.election).lookup id = some a := by
  by_cases leads : req.memberID = s.group.leaderID
  · rw [recordSync, if_pos ⟨accepted, leads⟩]
    dsimp only
    rw [Function.update_self]
    exact Group.assign_agrees req.assignments h
  · rw [Group.ProperSync, if_neg leads] at proper
    rw [recordSync, if_neg fun both => leads both.2, proper.1]
    exact h

/-- No rebalance has been completed since the request of a waiter that has an assignment now; without one
    it goes on waiting. -/
def ProperWake (s : System) (wait : SyncWait) (election : Nat) : Prop :=
  (wait.memberID ∈ s.group.assignments.keys → election = s.election) ∧
    (wait.memberID ∉ s.group.assignments.keys →
      s.group.state = .completingRebalance ∧ s.group.generation = wait.generationID ∧ s.now < wait.deadline)

def GuardsSync (s : System) : Event → Prop
  | .sync req => s.group.syncRefusal req = none → s.group.ProperSync req
  | .syncWake i => ∀ wait ∈ s.syncs[i]?, s.ProperWake wait.1 wait.2
  | _ => True

instance (s : System) (wait : SyncWait) (election : Nat) : Decidable (s.ProperWake wait election) :=
  inferInstanceAs (Decidable (_ ∧ _))

instance (s : System) : (e : Event) → Decidable (s.GuardsSync e)
  | .sync req => inferInstanceAs (Decidable (s.group.syncRefusal req = none → s.group.ProperSync req))
  | .syncWake i => inferInstanceAs (Decidable (∀ wait ∈ s.syncs[i]?, _))
  | .tick _ | .elsewhere | .join _ | .joinWake _ | .heartbeat _ _ | .leave _ | .reap _ => isTrue trivial

theorem Agrees.sync (h : s.Agrees) {req : SyncGroupRequest}
    (proper : s.group.syncRefusal req = none → s.group.ProperSync req) :
    ((s.recordSync req).syncEnds req.memberID s.election (fun wait => s.syncs ++ wait.toList)
      (s.group.syncGroup s.now req)).1.Agrees := by
  apply syncEnds_agrees
  · rw [recordSync_group]
    exact Group.syncGroup_joinNotify s.now req
  · rw [recordSync_election]
    by_cases accepted : s.group.syncRefusal req = none
    · rw [Group.syncGroup_assignments accepted]
      exact h.assign accepted (proper accepted)
    · rw [Group.syncGroup_refused accepted, recordSync, if_neg fun both => accepted both.1]
      exact h

theorem Agrees.perform (h : s.Agrees) {e : Event} (guard : s.GuardsSync e)
    (done : s.perform gm e = some (s', effect)) : s'.Agrees := by
  cases e with
  | tick passed =>
    cases done
    exact h
  | elsewhere =>
    cases done
    exact h
  | join req =>
    have carries : (s.recordJoin req).group.Carries (s.group.joinGroup gm s.now s.freshID req).2 := by
      rw [recordJoin_group]
      exact Group.carries_joinGroup gm s.now s.freshID req
    have agrees := (h.recordJoin req).joinEnds (fun wait => s.joins ++ wait.toList) carries
    rw [Option.some.inj done] at agrees
    exact agrees
  | joinWake i =>
    unfold System.perform at done
    dsimp only at done
    split at done
    · cases done
    · rename_i wait _
      split at done
      · have agrees := h.joinEnds (resume s.joins i) (Group.carries_joinWake s.now wait)
        rw [Option.some.inj done] at agrees
        exact agrees
      · cases done
  | sync req =>
    have agrees := h.sync guard
    rw [Option.some.inj done] at agrees
    exact agrees
  | syncWake i =>
    unfold System.perform at done
    dsimp only at done
    split at done
    · cases done
    · rename_i wait election _
      split at done
      · have agrees : (s.syncEnds wait.memberID election (resume s.syncs i) (s.group.syncWake s.now wait)).1.Agrees := by
          apply syncEnds_agrees
          · exact Group.syncLoop_joinNotify s.now wait.memberID wait.generationID wait.deadline
          · rw [Group.syncWake, Group.syncLoop_assignments]
            exact h
        rw [Option.some.inj done] at agrees
        exact agrees
      · cases done
  | heartbeat memberID generationID =>
    cases done
    exact h.of_moved (Group.carries_heartbeat s.now memberID generationID)
  | leave req =>
    cases done
    exact Agrees.of_moved h (Group.carries_leaveGroup s.now (toRemove req))
  | reap seen =>
    cases done
    exact Agrees.of_moved h (Group.carries_reapExpired gm seen s.now)

def AnswersSync (s' : System) (effect : Effect) : Prop :=
  ∀ memberID election resp, effect.syncAnswer = some (memberID, election, resp) → resp.errorCode = errNone →
    (s'.submitted election).lookup memberID = some resp.assignment

theorem answersSync_joinEnds (keep : Option JoinWait → List JoinWait) (outcome : JoinOutcome × Group) :
    AnswersSync (s.joinEnds keep outcome).1 (s.joinEnds keep outcome).2 := by
  obtain ⟨result, g⟩ := outcome
  intro memberID election resp answer
  cases result <;> cases answer

theorem answersSync_syncEnds {memberID : MemberID} {election : Nat} (keep : Option (SyncWait × Nat) → List (SyncWait × Nat))
    {outcome : SyncOutcome × Group} (sound : outcome.1.Sound (s.submitted election) memberID) :
    AnswersSync (s.syncEnds memberID election keep outcome).1 (s.syncEnds memberID election keep outcome).2 := by
  obtain ⟨result, g⟩ := outcome
  intro id e resp answer
  cases result with
  | returned returned =>
    cases answer
    exact sound
  | waiting wait => cases answer

theorem Agrees.answersSync (h : s.Agrees) {e : Event} (guard : s.GuardsSync e)
    (done : s.perform gm e = some (s', effect)) : AnswersSync s' effect := by
  cases e with
  | sync req =>
    have sound : (s.group.syncGroup s.now req).1.Sound ((s.recordSync req).submitted s.election) req.memberID :=
      Group.sound_syncGroup guard fun accepted => h.assign accepted (guard accepted)
    have answers := answersSync_syncEnds (fun wait => s.syncs ++ wait.toList) sound
    rw [Option.some.inj done] at answers
    exact answers
  | syncWake i =>
    unfold System.perform at done
    dsimp only at done
    split at done
    · cases done
    · rename_i wait election found
      obtain ⟨current, waits⟩ := guard _ found
      split at done
      · have sound : (s.group.syncWake s.now wait).1.Sound (s.submitted election) wait.memberID := by
          apply Group.sound_syncLoop
          · intro assigned
            have current : election = s.election := current (AList.mem_keys.mp assigned)
            rw [current]
            exact h
          · intro unassigned
            exact waits fun key => unassigned (AList.mem_keys.mpr key)
        have answers := answersSync_syncEnds (resume s.syncs i) sound
        rw [Option.some.inj done] at answers
        exact answers
      · cases done
  | join req =>
    have answers := answersSync_joinEnds (s := s.recordJoin req) (fun wait => s.joins ++ wait.toList)
      (s.group.joinGroup gm s.now s.freshID req)
    rw [Option.some.inj done] at answers
    exact answers
  | joinWake i =>
    unfold System.perform at done
    dsimp only at done
    split at done
    · cases done
    · rename_i wait _
      split at done
      · have answers := answersSync_joinEnds (s := s) (resume s.joins i) (s.group.joinWake s.now wait)
        rw [Option.some.inj done] at answers
        exact answers
      · cases done
  | tick passed =>
    cases done
    exact fun _ _ _ answer => by cases answer
  | elsewhere =>
    cases done
    exact fun _ _ _ answer => by cases answer
  | heartbeat memberID generationID =>
    cases done
    exact fun _ _ _ answer => by cases answer
  | leave req =>
    cases done
    exact fun _ _ _ answer => by cases answer
  | reap seen =>
    cases done
    exact fun _ _ _ answer => by cases answer

end System

/-- A `SyncGroup` that is answered without an error gets what the leader of its generation has submitted for
    the member: in every run in which only leaders submit assignments, their own among them, and no waiter
    returns without an assignment or after a further rebalance. -/
theorem sync_answers_submitted {gm : Config} {start : Time} {s s' : System} {e : Event} {effect : Effect}
    {memberID : MemberID} {election : Nat} {resp : SyncGroupResponse}
    (run : Reaches System.GuardsSync (System.Steps gm) (System.start start) s) (guard : s.GuardsSync e)
    (done : s.perform gm e = some (s', effect)) (answer : effect.syncAnswer = some (memberID, election, resp))
    (accepted : resp.errorCode = errNone) : (s'.submitted election).lookup memberID = some resp.assignment := by
  have agrees : s.Agrees := by
    apply run.invariant (System.agrees_start start)
    rintro s e s' h guard ⟨effect, done⟩
    exact h.perform guard done
  exact agrees.answersSync guard done memberID election resp answer accepted

def followerWaits : List Event :=
  [.join newcomer, .join newcomer, .join { newcomer with memberID := nextMemberID 1 },
    .sync ⟨0, ascii "g", 2, nextMemberID 2, none, []⟩]

theorem sync_answers_submitted_follower :
    ∃ (s s' : System) (effect : Effect), Reaches System.GuardsSync (System.Steps settings) (System.start 0) s ∧
      s.perform settings (.syncWake 0) = some (s', effect) ∧
      effect.syncAnswer = some (nextMemberID 2, 2, ⟨errNone, [7]⟩) ∧
      (s'.submitted 2).lookup (nextMemberID 2) = some [7] := by
  obtain ⟨s, run, guard, wakes⟩ : ∃ s : System,
      Reaches System.GuardsSync (System.Steps settings) (System.start 0) s ∧ s.GuardsSync (.syncWake 0) ∧
        (s.perform settings (.syncWake 0)).map (fun done => done.2.syncAnswer) =
          some (some (nextMemberID 2, 2, ⟨errNone, [7]⟩)) :=
    exists_reaches (followerWaits ++ [.sync ⟨0, ascii "g", 2, nextMemberID 1, none,
      [⟨nextMemberID 1, some [6]⟩, ⟨nextMemberID 2, some [7]⟩]⟩])
      System.next_steps (by decide +kernel)
  obtain ⟨⟨s', effect⟩, done, answer⟩ := Option.map_eq_some_iff.mp wakes
  exact ⟨s, s', effect, run, done, answer, sync_answers_submitted run guard done answer rfl⟩

/-- The follower's time is up before the leader has synced: it is told, without an error, that nothing is
    assigned to it. -/
theorem sync_answers_unassigned :
    ∃ (s s' : System) (effect : Effect), Reaches (fun _ _ => True) (System.Steps settings) (System.start 0) s ∧
      s.perform settings (.syncWake 0) = some (s', effect) ∧
      effect.syncAnswer = some (nextMemberID 2, 2, ⟨errNone, []⟩) ∧ (s'.submitted 2).lookup (nextMemberID 2) = none := by
  obtain ⟨s, run, wakes⟩ : ∃ s : System, Reaches (fun _ _ => True) (System.Steps settings) (System.start 0) s ∧
      (s.perform settings (.syncWake 0)).map (fun done =>
        decide (done.2.syncAnswer = some (nextMemberID 2, 2, ⟨errNone, []⟩) ∧
          (done.1.submitted 2).lookup (nextMemberID 2) = none)) = some true :=
    exists_reaches (followerWaits ++ [.tick 10000000000]) System.next_steps (by decide +kernel)
  obtain ⟨⟨s', effect⟩, done, seen⟩ := Option.map_eq_some_iff.mp wakes
  obtain ⟨answer, nothing⟩ := of_decide_eq_true seen
  exact ⟨s, s', effect, run, done, answer, nothing⟩

end PocketKafka.Coordinator
