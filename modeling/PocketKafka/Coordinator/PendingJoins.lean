import PocketKafka.Coordinator.GroupRuns

namespace PocketKafka.Coordinator

open Bytes Runs Protocol

namespace Group

variable {g : Group}

theorem completeJoinLocked_state : g.completeJoinLocked.state ≠ .preparingRebalance := by
  unfold completeJoinLocked
  split <;> exact GroupState.noConfusion

@[simp] theorem completeJoinLocked_joined : g.completeJoinLocked.joined = ∅ := by
  unfold completeJoinLocked
  split <;> rfl

@[simp] theorem completeJoinLocked_members : g.completeJoinLocked.members = g.members := by
  unfold completeJoinLocked
  split <;> rfl

theorem mem_remove {dead : List MemberID} {id : MemberID} : id ∈ (g.remove dead).members ↔ id ∈ g.members ∧ id ∉ dead := by
  show id ∈ dead.foldl (fun members id => members.erase id) g.members ↔ _
  generalize g.members = members
  induction dead generalizing members with
  | nil => simp
  | cons first rest ih =>
    rw [List.foldl_cons, ih, AList.mem_erase, List.mem_cons, not_or]
    tauto

theorem mem_absent {id : MemberID} : id ∈ g.absent ↔ id ∈ g.members ∧ id ∉ g.joined := by
  rw [absent, List.mem_filter, decide_eq_true_eq, AList.mem_keys]

theorem mem_expireRebalanceLocked {id : MemberID} :
    id ∈ g.expireRebalanceLocked.members ↔ id ∈ g.members ∧ id ∈ g.joined := by
  rw [expireRebalanceLocked, completeJoinLocked_members, mem_remove, mem_absent]
  tauto

structure Tracks (g : Group) : Prop where
  closed : g.state ≠ .preparingRebalance → g.joined = ∅
  known : ∀ id ∈ g.joined, id ∈ g.members

theorem Tracks.of_none (none : g.joined = ∅) : g.Tracks :=
  ⟨fun _ => none, fun id member => by rw [none] at member; cases member⟩

theorem tracks_completeJoin : g.completeJoinLocked.Tracks :=
  .of_none completeJoinLocked_joined

theorem tracks_expire : g.expireRebalanceLocked.Tracks := tracks_completeJoin

theorem tracks_begin (now : Time) : (g.beginRebalanceLocked now).Tracks :=
  ⟨fun clash => absurd rfl clash, fun id member => by cases member⟩

theorem Tracks.of_same {g' : Group} (h : g.Tracks) (state : g'.state = g.state) (joined : g'.joined = g.joined)
    (members : ∀ id ∈ g.members, id ∈ g'.members) : g'.Tracks := by
  constructor
  · rw [state, joined]
    exact h.closed
  · rw [joined]
    exact fun id member => members id (h.known id member)

theorem Tracks.touch (h : g.Tracks) (memberID : MemberID) (now : Time) : (g.touch memberID now).Tracks := by
  unfold Group.touch
  split
  · exact h
  · exact h.of_same rfl rfl fun id member => (AList.mem_insert _).mpr (Or.inr member)

theorem Tracks.syncReturn (h : g.Tracks) (memberID : MemberID) (generationID : Int) :
    (g.syncReturn memberID generationID).2.Tracks := by
  unfold Group.syncReturn
  dsimp only
  split
  · rename_i completing
    apply Tracks.of_none
    apply h.closed
    rw [completing.1]
    exact GroupState.noConfusion
  · exact h

theorem Tracks.syncLoop (h : g.Tracks) (now : Time) (memberID : MemberID) (generationID : Int) (deadline : Time) :
    (g.syncLoop now memberID generationID deadline).2.Tracks := by
  unfold Group.syncLoop
  split
  · exact h.syncReturn memberID generationID
  · exact h

theorem Tracks.syncGroup (h : g.Tracks) (now : Time) (req : SyncGroupRequest) : (g.syncGroup now req).2.Tracks := by
  have same : ∀ assignments changed, Tracks { g with assignments := assignments, assignmentsChanged := changed } :=
    fun _ _ => h.of_same rfl rfl fun _ => id
  unfold Group.syncGroup
  split
  · exact h
  · dsimp only
    split
    · exact (same _ _).syncLoop now req.memberID req.generationID _
    · exact (same _ _).syncReturn req.memberID req.generationID

theorem Tracks.drop (h : g.Tracks) (gone : List MemberID) : (g.drop gone).Tracks := by
  constructor
  · intro closed
    show g.joined.filter _ = ∅
    rw [h.closed closed]
    rfl
  · intro id member
    obtain ⟨joined, present⟩ := Finset.mem_filter.mp member
    have inside := h.known id joined
    apply mem_remove.mpr ⟨inside, ?_⟩
    exact fun left => present ⟨AList.mem_keys.mp inside, left⟩

theorem Tracks.emptied (h : g.Tracks) (none : g.members.entries.length = 0) :
    Tracks { g with state := .empty, generation := 0, leaderID := [] } := by
  apply Tracks.of_none
  apply Finset.eq_empty_of_forall_notMem
  intro id member
  have inside := AList.mem_keys.mp (h.known id member)
  rw [AList.keys, List.length_eq_zero_iff.mp none] at inside
  cases inside

theorem Tracks.leaveGroup (h : g.Tracks) (now : Time) (gone : List MemberID) : (g.leaveGroup now gone).Tracks := by
  unfold Group.leaveGroup
  dsimp only
  split
  · exact (h.drop gone).emptied (by assumption)
  · split
    · exact tracks_completeJoin
    · exact tracks_begin now

theorem Tracks.reapExpired (h : g.Tracks) (gm : Config) (now clock : Time) : (g.reapExpired gm now clock).Tracks := by
  unfold Group.reapExpired
  dsimp only
  split
  · exact h
  · split
    · exact (h.drop _).emptied (by assumption)
    · split
      · split
        · exact tracks_completeJoin
        · exact h.drop _
      · exact tracks_begin clock

variable {gm : Config} {now : Time} {memberID : MemberID} {fresh : Bool} {req : JoinGroupRequest}

@[simp] theorem enroll_state : (g.enroll gm now memberID fresh req).state = .preparingRebalance := by
  unfold enroll
  dsimp only
  split
  · assumption
  · rfl

theorem enroll_joined : (g.enroll gm now memberID fresh req).joined =
    insert memberID (if g.state = .preparingRebalance then g.joined else ∅) := by
  unfold enroll
  dsimp only
  split <;> rfl

theorem enroll_members :
    (g.enroll gm now memberID fresh req).members = g.members.insert memberID (updated gm now memberID req) := by
  unfold enroll
  dsimp only
  split <;> rfl

theorem Tracks.enroll (h : g.Tracks) : (g.enroll gm now memberID fresh req).Tracks := by
  constructor
  · intro clash
    exact absurd enroll_state clash
  · intro id member
    rw [enroll_joined] at member
    rw [enroll_members, AList.mem_insert]
    rcases Finset.mem_insert.mp member with rfl | earlier
    · exact Or.inl rfl
    · split at earlier
      · exact Or.inr (h.known id earlier)
      · cases earlier

def Quiet (g g' : Group) : Prop :=
  g'.state = .preparingRebalance → g.state = .preparingRebalance ∧ g'.joined = g.joined

theorem Quiet.refl (g : Group) : g.Quiet g := fun preparing => ⟨preparing, rfl⟩

theorem quiet_completeJoin {g' : Group} : g.Quiet g'.completeJoinLocked := fun clash => absurd clash completeJoinLocked_state

theorem quiet_expire : g.Quiet g.expireRebalanceLocked := quiet_completeJoin

theorem quiet_touch (memberID : MemberID) (now : Time) : g.Quiet (g.touch memberID now) := by
  unfold touch
  split <;> exact fun preparing => ⟨preparing, rfl⟩

theorem quiet_syncReturn (memberID : MemberID) (generationID : Int) : g.Quiet (g.syncReturn memberID generationID).2 := by
  unfold syncReturn
  dsimp only
  split
  · exact fun clash => GroupState.noConfusion clash
  · exact Quiet.refl g

theorem quiet_syncLoop (now : Time) (memberID : MemberID) (generationID : Int) (deadline : Time) :
    g.Quiet (g.syncLoop now memberID generationID deadline).2 := by
  unfold syncLoop
  split
  · exact quiet_syncReturn memberID generationID
  · exact Quiet.refl g

theorem quiet_syncGroup (now : Time) (req : SyncGroupRequest) : g.Quiet (g.syncGroup now req).2 := by
  unfold syncGroup
  split
  · exact Quiet.refl g
  · dsimp only
    split
    · exact quiet_syncLoop now req.memberID req.generationID _
    · exact quiet_syncReturn req.memberID req.generationID

theorem quiet_heartbeat (now : Time) (memberID : MemberID) (generationID : Int) :
    g.Quiet (g.heartbeat now memberID generationID).2 := by
  unfold heartbeat
  repeat' split
  all_goals first | exact Quiet.refl g | exact quiet_touch memberID now

theorem Tracks.heartbeat (h : g.Tracks) (now : Time) (memberID : MemberID) (generationID : Int) :
    (g.heartbeat now memberID generationID).2.Tracks := by
  unfold Group.heartbeat
  repeat' split
  all_goals first | exact h | exact h.touch memberID now

theorem joinLoop_group (now : Time) (memberID : MemberID) (deadline : Time) :
    (g.joinLoop now memberID deadline).2 = g ∨ (g.joinLoop now memberID deadline).2 = g.expireRebalanceLocked := by
  unfold joinLoop
  split
  · split
    · exact Or.inr rfl
    · exact Or.inl rfl
  · exact Or.inl rfl

theorem joinWake_group (now : Time) (wait : JoinWait) :
    (g.joinWake now wait).2 = g ∨ (g.joinWake now wait).2 = g.expireRebalanceLocked := by
  unfold joinWake
  split
  · exact Or.inl rfl
  · split
    · exact Or.inr rfl
    · exact joinLoop_group now wait.memberID wait.deadline

theorem awaitOthers_group (now : Time) (memberID : MemberID) :
    (g.awaitOthers now memberID).2 = g ∨
      ∃ dead, (g.awaitOthers now memberID).2 = (g.remove dead).completeJoinLocked := by
  unfold awaitOthers
  split
  · exact Or.inr ⟨[], by simp [remove, filterOrder]⟩
  · rcases joinLoop_group now memberID g.rebalanceDeadline with same | expired
    · exact Or.inl same
    · exact Or.inr ⟨_, expired⟩

end Group

/-- In an open rebalance the leaving members are all members, all that have not joined, or all that have. -/
def Group.KeepsJoins (g : Group) (gone : List MemberID) : Prop :=
  g.state = .preparingRebalance →
    (∀ id ∈ g.members.keys, id ∈ gone) ∨ (∀ id ∈ g.members.keys, id ∉ gone → id ∈ g.joined) ∨ ∀ id ∈ g.joined, id ∈ gone

instance (g : Group) (gone : List MemberID) : Decidable (g.KeepsJoins gone) := inferInstanceAs (Decidable (_ → _))

theorem Group.drop_none {g : Group} {gone : List MemberID} (all : ∀ id ∈ g.members.keys, id ∈ gone) :
    (g.drop gone).members.entries.length = 0 := by
  rw [List.length_eq_zero_iff]
  apply List.map_eq_nil_iff.mp
  apply List.eq_nil_iff_forall_not_mem.mpr
  intro id key
  obtain ⟨member, stays⟩ := Group.mem_remove.mp (AList.mem_keys.mpr key)
  exact stays (all id (AList.mem_keys.mp member))

theorem Group.drop_complete {g : Group} {gone : List MemberID} (all : ∀ id ∈ g.members.keys, id ∉ gone → id ∈ g.joined) :
    (g.drop gone).members.entries.length ≤ (g.drop gone).joined.card := by
  have distinct := List.toFinset_card_of_nodup (g.drop gone).members.keys_nodup
  rw [AList.keys, List.keys, List.length_map] at distinct
  rw [← distinct]
  apply Finset.card_le_card
  intro id key
  obtain ⟨member, stays⟩ := Group.mem_remove.mp (AList.mem_keys.mpr (List.mem_toFinset.mp key))
  exact Finset.mem_filter.mpr ⟨all id (AList.mem_keys.mp member) stays, fun left => stays left.2⟩

theorem Group.drop_nobody {g : Group} {gone : List MemberID} (h : g.Tracks) (all : ∀ id ∈ g.joined, id ∈ gone) :
    (g.drop gone).joined = ∅ := by
  apply Finset.eq_empty_of_forall_notMem
  intro id member
  obtain ⟨joined, stays⟩ := Finset.mem_filter.mp member
  exact stays ⟨AList.mem_keys.mp (h.known id joined), all id joined⟩

namespace System

variable {gm : Config} {s s' : System} {effect : Effect}

@[simp] theorem joinEnds_group (keep : Option JoinWait → List JoinWait) (outcome : JoinOutcome × Group) :
    (s.joinEnds keep outcome).1.group = outcome.2 := by
  obtain ⟨result, g⟩ := outcome
  cases result <;> rfl

@[simp] theorem joinEnds_attending (keep : Option JoinWait → List JoinWait) (outcome : JoinOutcome × Group) :
    (s.joinEnds keep outcome).1.attending = s.attending := by
  obtain ⟨result, g⟩ := outcome
  cases result <;> rfl

@[simp] theorem syncEnds_group (memberID : MemberID) (election : Nat)
    (keep : Option (SyncWait × Nat) → List (SyncWait × Nat)) (outcome : SyncOutcome × Group) :
    (s.syncEnds memberID election keep outcome).1.group = outcome.2 := by
  obtain ⟨result, g⟩ := outcome
  cases result <;> rfl

@[simp] theorem syncEnds_attending (memberID : MemberID) (election : Nat)
    (keep : Option (SyncWait × Nat) → List (SyncWait × Nat)) (outcome : SyncOutcome × Group) :
    (s.syncEnds memberID election keep outcome).1.attending = s.attending := by
  obtain ⟨result, g⟩ := outcome
  cases result <;> rfl

@[simp] theorem recordSync_attending (req : SyncGroupRequest) : (s.recordSync req).attending = s.attending := by
  unfold recordSync
  split <;> rfl

structure Remembers (s : System) : Prop where
  tracks : s.group.Tracks
  recorded : s.group.state = .preparingRebalance → s.attending ⊆ s.group.joined

theorem remembers_start (now : Time) : (start now).Remembers := by
  refine ⟨Group.Tracks.of_none rfl, ?_⟩
  intro _ id member
  cases member

theorem Remembers.quiet (h : s.Remembers) (tracks : s'.group.Tracks) (quiet : s.group.Quiet s'.group)
    (same : s'.attending = s.attending) : s'.Remembers := by
  refine ⟨tracks, ?_⟩
  intro preparing
  obtain ⟨before, joined⟩ := quiet preparing
  rw [same, joined]
  exact h.recorded before

theorem Remembers.join (h : s.Remembers) (gm : Config) (req : JoinGroupRequest) :
    ((s.recordJoin req).joinEnds (fun wait => s.joins ++ wait.toList)
      (s.group.joinGroup gm s.now s.freshID req)).1.Remembers := by
  by_cases admitted : s.admits req
  · have unchanged : ¬ s.group.unchanged req = true := by
      rw [admitted.2]
      exact Bool.noConfusion
    have group : s.group.joinGroup gm s.now s.freshID req =
        (s.group.enroll gm s.now (s.group.requested s.freshID req) (decide (s.group.members.lookup req.memberID = none))
          req).awaitOthers s.now (s.group.requested s.freshID req) := by
      rw [Group.joinGroup, if_neg admitted.1, if_neg unchanged]
    have attending : (s.recordJoin req).attending = insert (s.group.requested s.freshID req)
        (if s.group.state = .preparingRebalance then s.attending else ∅) := by
      rw [recordJoin, if_pos admitted]
    rw [group]
    have tracks : (s.group.enroll gm s.now (s.group.requested s.freshID req)
        (decide (s.group.members.lookup req.memberID = none)) req).Tracks := h.tracks.enroll
    rcases Group.awaitOthers_group (g := s.group.enroll gm s.now (s.group.requested s.freshID req)
        (decide (s.group.members.lookup req.memberID = none)) req) s.now (s.group.requested s.freshID req)
      with same | ⟨dead, complete⟩
    · constructor
      · rw [joinEnds_group, same]
        exact tracks
      · intro _
        rw [joinEnds_group, same, joinEnds_attending, attending, Group.enroll_joined]
        apply Finset.insert_subset_insert
        split
        · exact h.recorded (by assumption)
        · exact Finset.Subset.refl _
    · constructor
      · rw [joinEnds_group, complete]
        exact Group.tracks_completeJoin
      · intro clash
        rw [joinEnds_group, complete] at clash
        exact absurd clash Group.completeJoinLocked_state
  · have attending : (s.recordJoin req).attending = s.attending := by
      rw [recordJoin, if_neg admitted]
    have group : (s.group.joinGroup gm s.now s.freshID req).2 = s.group ∨
        (s.group.joinGroup gm s.now s.freshID req).2 = s.group.touch req.memberID s.now := by
      unfold Group.joinGroup
      split
      · exact Or.inl rfl
      · rename_i some
        rw [if_pos]
        · exact Or.inr rfl
        · by_contra changed
          exact admitted ⟨some, by simpa using changed⟩
    rcases group with same | touched
    · exact h.quiet (by rw [joinEnds_group, same]; exact h.tracks) (by rw [joinEnds_group, same]; exact .refl _)
        (by rw [joinEnds_attending, attending])
    · exact h.quiet (by rw [joinEnds_group, touched]; exact h.tracks.touch _ _)
        (by rw [joinEnds_group, touched]; exact Group.quiet_touch _ _) (by rw [joinEnds_attending, attending])

theorem Remembers.joinWake (h : s.Remembers) (wait : JoinWait) (i : Nat) :
    (s.joinEnds (resume s.joins i) (s.group.joinWake s.now wait)).1.Remembers := by
  rcases Group.joinWake_group (g := s.group) s.now wait with same | expired
  · exact h.quiet (by rw [joinEnds_group, same]; exact h.tracks) (by rw [joinEnds_group, same]; exact .refl _)
      (joinEnds_attending _ _)
  · exact h.quiet (by rw [joinEnds_group, expired]; exact Group.tracks_expire)
      (by rw [joinEnds_group, expired]; exact Group.quiet_expire) (joinEnds_attending _ _)

theorem Remembers.gone (h : s.Remembers) {gone : List MemberID} {g : Group} (tracks : g.Tracks)
    (kept : s.group.state = .preparingRebalance → g.state = .preparingRebalance →
      s.group.joined.filter (fun id => id ∉ gone) ⊆ g.joined) : ((s.recordGone gone g).moved g).Remembers := by
  refine ⟨tracks, ?_⟩
  intro preparing
  have preparing : g.state = .preparingRebalance := preparing
  show (s.recordGone gone g).attending ⊆ g.joined
  by_cases before : s.group.state = .preparingRebalance
  · have attending : (s.recordGone gone g).attending = s.attending.filter (fun id => id ∉ gone) := by
      simp [recordGone, before]
    rw [attending]
    exact (Finset.filter_subset_filter _ (h.recorded before)).trans (kept before preparing)
  · have attending : (s.recordGone gone g).attending = ∅ := by simp [recordGone, before, preparing]
    rw [attending]
    exact Finset.empty_subset _

theorem filter_subset_drop (g : Group) (gone : List MemberID) :
    g.joined.filter (fun id => id ∉ gone) ⊆ (g.drop gone).joined := by
  intro id member
  obtain ⟨joined, stays⟩ := Finset.mem_filter.mp member
  exact Finset.mem_filter.mpr ⟨joined, fun left => stays left.2⟩

theorem Remembers.leave (h : s.Remembers) {gone : List MemberID} (keeps : s.group.KeepsJoins gone) :
    ((s.recordGone gone (s.group.leaveGroup s.now gone)).moved (s.group.leaveGroup s.now gone)).Remembers := by
  apply h.gone (h.tracks.leaveGroup s.now gone)
  intro before
  have same : (s.group.drop gone).state = .preparingRebalance := before
  unfold Group.leaveGroup
  dsimp only
  split
  · exact fun clash => GroupState.noConfusion clash
  · rename_i some
    split
    · exact fun clash => absurd clash Group.completeJoinLocked_state
    · rename_i incomplete
      intro _
      rcases keeps before with all | all | all
      · exact absurd (Group.drop_none all) some
      · exact absurd ⟨same, Group.drop_complete all⟩ incomplete
      · have rest := filter_subset_drop s.group gone
        rw [Group.drop_nobody h.tracks all] at rest
        exact rest

theorem Remembers.reap (h : s.Remembers) (gm : Config) (seen : Time) :
    ((s.recordGone (s.group.dead gm seen) (s.group.reapExpired gm seen s.now)).moved
      (s.group.reapExpired gm seen s.now)).Remembers := by
  apply h.gone (h.tracks.reapExpired gm seen s.now)
  intro before
  have same : (s.group.drop (s.group.dead gm seen)).state = .preparingRebalance := before
  unfold Group.reapExpired
  dsimp only
  split
  · exact fun _ => Finset.filter_subset _ _
  · split
    · exact fun clash => GroupState.noConfusion clash
    · split
      · exact fun clash => absurd clash Group.completeJoinLocked_state
      · exact fun _ => filter_subset_drop s.group _

/-- A `LeaveGroup` does not begin a rebalance again that members wait in. -/
def GuardsJoins (s : System) : Event → Prop
  | .leave req => s.group.KeepsJoins (toRemove req)
  | _ => True

instance (s : System) : (e : Event) → Decidable (s.GuardsJoins e)
  | .leave req => inferInstanceAs (Decidable (s.group.KeepsJoins (toRemove req)))
  | .tick _ | .elsewhere | .join _ | .joinWake _ | .sync _ | .syncWake _ | .heartbeat _ _ | .reap _ => isTrue trivial

theorem Remembers.perform (h : s.Remembers) {e : Event} (guard : s.GuardsJoins e)
    (done : s.perform gm e = some (s', effect)) : s'.Remembers := by
  cases e with
  | tick passed =>
    cases done
    exact ⟨h.tracks, h.recorded⟩
  | elsewhere =>
    cases done
    exact ⟨h.tracks, h.recorded⟩
  | join req =>
    have remembers := h.join gm req
    rw [Option.some.inj done] at remembers
    exact remembers
  | joinWake i =>
    unfold System.perform at done
    dsimp only at done
    split at done
    · cases done
    · rename_i wait _
      split at done
      · have remembers := h.joinWake wait i
        rw [Option.some.inj done] at remembers
        exact remembers
      · cases done
  | sync req =>
    have ends := Option.some.inj done
    have group := syncEnds_group (s := s.recordSync req) req.memberID s.election (fun wait => s.syncs ++ wait.toList)
      (s.group.syncGroup s.now req)
    have attending := syncEnds_attending (s := s.recordSync req) req.memberID s.election
      (fun wait => s.syncs ++ wait.toList) (s.group.syncGroup s.now req)
    rw [ends] at group attending
    dsimp only at group attending
    exact h.quiet (by rw [group]; exact h.tracks.syncGroup s.now req) (by rw [group]; exact Group.quiet_syncGroup s.now req)
      (attending.trans (recordSync_attending req))
  | syncWake i =>
    unfold System.perform at done
    dsimp only at done
    split at done
    · cases done
    · rename_i wait election _
      split at done
      · have ends := Option.some.inj done
        have group := syncEnds_group (s := s) wait.memberID election (resume s.syncs i) (s.group.syncWake s.now wait)
        have attending := syncEnds_attending (s := s) wait.memberID election (resume s.syncs i)
          (s.group.syncWake s.now wait)
        rw [ends] at group attending
        dsimp only at group attending
        exact h.quiet (by rw [group]; exact h.tracks.syncLoop _ _ _ _) (by rw [group]; exact Group.quiet_syncLoop _ _ _ _)
          attending
      · cases done
  | heartbeat memberID generationID =>
    cases done
    exact h.quiet (h.tracks.heartbeat _ _ _) (Group.quiet_heartbeat _ _ _) rfl
  | leave req =>
    cases done
    exact h.leave guard
  | reap seen =>
    cases done
    exact h.reap gm seen

end System

/-- As long as its rebalance is open, a recorded join is kept: in every run in which no `LeaveGroup` begins
    the open rebalance again while a remaining member has joined. -/
theorem pending_join_kept {gm : Config} {start : Time} {s : System}
    (run : Reaches System.GuardsJoins (System.Steps gm) (System.start start) s)
    (preparing : s.group.state = .preparingRebalance) : s.attending ⊆ s.group.joined := by
  have remembers : s.Remembers := by
    apply run.invariant (System.remembers_start start)
    rintro s e s' h guard ⟨effect, done⟩
    exact h.perform guard done
  exact remembers.recorded preparing

def newcomer : JoinGroupRequest where
  version := 0
  group := ascii "g"
  sessionTimeoutMs := 10000
  rebalanceTimeoutMs := 10000
  memberID := []
  instanceID := none
  protocolType := ascii "consumer"
  protocols := [⟨ascii "range", some []⟩]

def settings : Config := ⟨10000, 10 * second⟩

theorem pending_join_kept_second_member :
    ∃ s : System, Reaches System.GuardsJoins (System.Steps settings) (System.start 0) s ∧
      s.group.state = .preparingRebalance ∧ s.attending = {nextMemberID 2} ∧ s.attending ⊆ s.group.joined := by
  obtain ⟨s, run, preparing, attending⟩ : ∃ s : System,
      Reaches System.GuardsJoins (System.Steps settings) (System.start 0) s ∧
        s.group.state = .preparingRebalance ∧ s.attending = {nextMemberID 2} :=
    exists_reaches [.join newcomer, .join newcomer] System.next_steps (by decide +kernel)
  exact ⟨s, run, preparing, attending, pending_join_kept run preparing⟩

/-- The second member waits for the first one when a member that the group does not know leaves: the join
    is gone from the rebalance that is still open. -/
theorem pending_join_forgotten :
    ∃ s : System, Reaches (fun _ _ => True) (System.Steps settings) (System.start 0) s ∧
      s.group.state = .preparingRebalance ∧ s.joins.map JoinWait.memberID = [nextMemberID 2] ∧
      nextMemberID 2 ∈ s.group.members.keys ∧ s.attending = {nextMemberID 2} ∧ s.group.joined = ∅ := by
  apply exists_reaches [.join newcomer, .join newcomer, .leave ⟨0, ascii "g", ascii "gone", []⟩] System.next_steps
  decide +kernel

/-- The answer is about a member in its generation, and only absentees were removed for it. -/
def JoinOutcome.Sound (g : Group) (attending : Finset MemberID) : JoinOutcome → Prop
  | .returned resp expelled => (∀ id ∈ expelled, id ∉ attending) ∧
      (resp.errorCode = errNone → resp.memberID ∈ g.members ∧ g.generation = resp.generationID)
  | .waiting _ => True

namespace Group

variable {g : Group} {memberID : MemberID} {attending : Finset MemberID}

theorem sound_fill (member : memberID ∈ g.members) :
    (JoinOutcome.returned (g.fillJoinResponseLocked memberID) []).Sound g attending :=
  ⟨fun _ none => absurd none List.not_mem_nil, fun _ => ⟨member, rfl⟩⟩

theorem sound_refused {code : Int} (refused : code ≠ errNone) :
    (JoinOutcome.returned (refusedJoin code memberID) []).Sound g attending :=
  ⟨fun _ none => absurd none List.not_mem_nil, fun accepted => absurd accepted refused⟩

theorem sound_expire (h : g.Tracks) (joined : memberID ∈ g.joined) (recorded : attending ⊆ g.joined) :
    (JoinOutcome.returned (g.expireRebalanceLocked.fillJoinResponseLocked memberID) g.absent).Sound
      g.expireRebalanceLocked attending := by
  constructor
  · intro id absent attends
    exact (mem_absent.mp absent).2 (recorded attends)
  · intro _
    exact ⟨mem_expireRebalanceLocked.mpr ⟨h.known memberID joined, joined⟩, rfl⟩

theorem sound_joinLoop (h : g.Tracks) {now deadline : Time} (member : memberID ∈ g.members)
    (joined : g.state = .preparingRebalance → deadline ≤ now → memberID ∈ g.joined)
    (recorded : g.state = .preparingRebalance → attending ⊆ g.joined) :
    (g.joinLoop now memberID deadline).1.Sound (g.joinLoop now memberID deadline).2 attending := by
  unfold joinLoop
  split
  · rename_i preparing
    split
    · rename_i late
      exact sound_expire h (joined preparing late) (recorded preparing)
    · trivial
  · exact sound_fill member

theorem sound_awaitOthers (h : g.Tracks) {now : Time} (joined : memberID ∈ g.joined)
    (recorded : g.state = .preparingRebalance → attending ⊆ g.joined) :
    (g.awaitOthers now memberID).1.Sound (g.awaitOthers now memberID).2 attending := by
  unfold awaitOthers
  split
  · apply sound_fill
    rw [completeJoinLocked_members]
    exact h.known memberID joined
  · exact sound_joinLoop h (h.known memberID joined) (fun _ _ => joined) recorded

theorem mem_touch {id : MemberID} {now : Time} (member : id ∈ g.members) : id ∈ (g.touch memberID now).members := by
  unfold touch
  split
  · exact member
  · exact (AList.mem_insert _).mpr (Or.inr member)

theorem mem_of_unchanged {req : JoinGroupRequest} (same : g.unchanged req = true) : req.memberID ∈ g.members := by
  unfold unchanged at same
  split at same
  · cases same
  · rename_i found
    exact AList.lookup_isSome.mp (by rw [found]; rfl)

theorem sound_joinWake (h : g.Tracks) {now : Time} {wait : JoinWait}
    (inTime : wait.memberID ∈ g.members → wait.deadline ≤ now → wait.memberID ∈ g.joined)
    (recorded : g.state = .preparingRebalance → attending ⊆ g.joined) :
    (g.joinWake now wait).1.Sound (g.joinWake now wait).2 attending := by
  unfold joinWake
  split
  · exact sound_refused (by decide)
  · rename_i known
    have member : wait.memberID ∈ g.members := AList.lookup_isSome.mp (Option.isSome_iff_ne_none.mpr known)
    split
    · rename_i late
      have joined := inTime member late
      apply sound_expire h joined
      apply recorded
      by_contra closed
      rw [h.closed closed] at joined
      cases joined
    · rename_i early
      exact sound_joinLoop h member (fun _ late => absurd late early) recorded

end Group

namespace System

variable {gm : Config} {s s' : System} {effect : Effect}

def AnswersJoin (s' : System) (effect : Effect) : Prop :=
  (∀ id ∈ effect.expelled, id ∉ s'.attending) ∧
    ∀ resp ∈ effect.joinAnswer, resp.errorCode = errNone →
      resp.memberID ∈ s'.group.members ∧ s'.group.generation = resp.generationID

theorem answersJoin_none {expelled : List MemberID} {answer : Option (MemberID × Nat × SyncGroupResponse)}
    (none : expelled = []) : AnswersJoin s' ⟨.none, expelled, answer⟩ := by
  subst none
  exact ⟨fun _ empty => absurd empty List.not_mem_nil, fun _ empty => by cases empty⟩

theorem answersJoin_joinEnds (keep : Option JoinWait → List JoinWait) {outcome : JoinOutcome × Group}
    (sound : outcome.1.Sound outcome.2 s.attending) :
    AnswersJoin (s.joinEnds keep outcome).1 (s.joinEnds keep outcome).2 := by
  obtain ⟨result, g⟩ := outcome
  cases result with
  | returned resp expelled =>
    refine ⟨sound.1, ?_⟩
    intro answer same
    cases same
    exact sound.2
  | waiting wait => exact answersJoin_none rfl

theorem answersJoin_syncEnds (memberID : MemberID) (election : Nat)
    (keep : Option (SyncWait × Nat) → List (SyncWait × Nat)) (outcome : SyncOutcome × Group) :
    AnswersJoin (s.syncEnds memberID election keep outcome).1 (s.syncEnds memberID election keep outcome).2 := by
  obtain ⟨result, g⟩ := outcome
  cases result <;> exact answersJoin_none rfl

theorem Remembers.sound_join (h : s.Remembers) (gm : Config) (req : JoinGroupRequest) :
    (s.group.joinGroup gm s.now s.freshID req).1.Sound (s.group.joinGroup gm s.now s.freshID req).2
      (s.recordJoin req).attending := by
  unfold Group.joinGroup
  split
  · exact Group.sound_refused (by decide)
  · rename_i protocols
    split
    · rename_i same
      exact Group.sound_fill (Group.mem_touch (Group.mem_of_unchanged same))
    · rename_i changed
      have admitted : s.admits req := ⟨protocols, by simpa using changed⟩
      apply Group.sound_awaitOthers h.tracks.enroll
      · rw [Group.enroll_joined]
        exact Finset.mem_insert_self _ _
      · intro _
        rw [recordJoin, if_pos admitted, Group.enroll_joined]
        apply Finset.insert_subset_insert
        split
        · exact h.recorded (by assumption)
        · exact Finset.Subset.refl _

/-- No `LeaveGroup` begins a rebalance again that members wait in, and a waiter whose time is up has its
    join still recorded. -/
def GuardsExpiry (s : System) : Event → Prop
  | .leave req => s.group.KeepsJoins (toRemove req)
  | .joinWake i => ∀ wait ∈ s.joins[i]?, wait.memberID ∈ s.group.members.keys → wait.deadline ≤ s.now →
      wait.memberID ∈ s.group.joined
  | _ => True

instance (s : System) : (e : Event) → Decidable (s.GuardsExpiry e)
  | .leave req => inferInstanceAs (Decidable (s.group.KeepsJoins (toRemove req)))
  | .joinWake i => inferInstanceAs (Decidable (∀ wait ∈ s.joins[i]?, _))
  | .tick _ | .elsewhere | .join _ | .sync _ | .syncWake _ | .heartbeat _ _ | .reap _ => isTrue trivial

theorem GuardsExpiry.guardsJoins {e : Event} (guard : s.GuardsExpiry e) : s.GuardsJoins e := by
  cases e <;> first | exact guard | trivial

theorem Remembers.answersJoin (h : s.Remembers) {e : Event} (guard : s.GuardsExpiry e)
    (done : s.perform gm e = some (s', effect)) : AnswersJoin s' effect := by
  cases e with
  | join req =>
    have answers := answersJoin_joinEnds (fun wait => s.joins ++ wait.toList) (h.sound_join gm req)
    rw [Option.some.inj done] at answers
    exact answers
  | joinWake i =>
    unfold System.perform at done
    dsimp only at done
    split at done
    · cases done
    · rename_i wait found
      split at done
      · have answers := answersJoin_joinEnds (resume s.joins i)
          (Group.sound_joinWake h.tracks (fun member => guard wait found (AList.mem_keys.mp member)) h.recorded)
        rw [Option.some.inj done] at answers
        exact answers
      · cases done
  | sync req =>
    have answers := answersJoin_syncEnds (s := s.recordSync req) req.memberID s.election
      (fun wait => s.syncs ++ wait.toList) (s.group.syncGroup s.now req)
    rw [Option.some.inj done] at answers
    exact answers
  | syncWake i =>
    unfold System.perform at done
    dsimp only at done
    split at done
    · cases done
    · rename_i wait election _
      split at done
      · have answers := answersJoin_syncEnds (s := s) wait.memberID election (resume s.syncs i)
          (s.group.syncWake s.now wait)
        rw [Option.some.inj done] at answers
        exact answers
      · cases done
  | tick passed =>
    cases done
    exact answersJoin_none rfl
  | elsewhere =>
    cases done
    exact answersJoin_none rfl
  | heartbeat memberID generationID =>
    cases done
    exact answersJoin_none rfl
  | leave req =>
    cases done
    exact answersJoin_none rfl
  | reap seen =>
    cases done
    exact answersJoin_none rfl

end System

/-- The expiry of a rebalance removes absentees only, and a `JoinGroup` answered without an error names a
    member and the running generation: in every run in which a waiter whose time is up still has its join
    recorded and no `LeaveGroup` begins the open rebalance again while a remaining member has joined. -/
theorem expiry_removes_absentees {gm : Config} {start : Time} {s s' : System} {e : Event} {effect : Effect}
    (run : Reaches System.GuardsExpiry (System.Steps gm) (System.start start) s) (guard : s.GuardsExpiry e)
    (done : s.perform gm e = some (s', effect)) :
    (∀ id ∈ effect.expelled, id ∉ s'.attending) ∧
      ∀ resp ∈ effect.joinAnswer, resp.errorCode = errNone →
        resp.memberID ∈ s'.group.members ∧ s'.group.generation = resp.generationID := by
  have remembers : s.Remembers := by
    apply run.invariant (System.remembers_start start)
    rintro s e s' h guard ⟨effect, done⟩
    exact h.perform guard.guardsJoins done
  exact remembers.answersJoin guard done

def overdue : List Event := [.join newcomer, .join newcomer, .join newcomer, .tick 10000000000]

theorem expiry_removes_absentees_overdue :
    ∃ (s s' : System) (effect : Effect), Reaches System.GuardsExpiry (System.Steps settings) (System.start 0) s ∧
      s.perform settings (.joinWake 0) = some (s', effect) ∧ effect.expelled = [nextMemberID 1] ∧
      nextMemberID 1 ∉ s'.attending := by
  obtain ⟨s, run, guard, expelled⟩ : ∃ s : System,
      Reaches System.GuardsExpiry (System.Steps settings) (System.start 0) s ∧ s.GuardsExpiry (.joinWake 0) ∧
        (s.perform settings (.joinWake 0)).map (fun done => done.2.expelled) = some [nextMemberID 1] :=
    exists_reaches overdue System.next_steps (by decide +kernel)
  obtain ⟨⟨s', effect⟩, done, expelled⟩ := Option.map_eq_some_iff.mp expelled
  refine ⟨s, s', effect, run, done, expelled, ?_⟩
  apply (expiry_removes_absentees run guard done).1
  rw [expelled]
  exact List.mem_singleton_self _

/-- When the first waiter has ended the rebalance, the second one ends it once more: nobody has joined since,
    so both are removed as absentees, and the second one is told that it is a member. -/
theorem expiry_removes_joined :
    ∃ (s s' : System) (effect : Effect), Reaches (fun _ _ => True) (System.Steps settings) (System.start 0) s ∧
      s.perform settings (.joinWake 0) = some (s', effect) ∧
      effect.expelled = [nextMemberID 3, nextMemberID 2] ∧ s'.attending = {nextMemberID 2, nextMemberID 3} ∧
      ∃ resp ∈ effect.joinAnswer, resp.errorCode = errNone ∧ resp.memberID = nextMemberID 3 ∧
        resp.memberID ∉ s'.group.members := by
  obtain ⟨s, run, wakes⟩ : ∃ s : System, Reaches (fun _ _ => True) (System.Steps settings) (System.start 0) s ∧
      (s.perform settings (.joinWake 0)).map (fun done =>
        decide (done.2.expelled = [nextMemberID 3, nextMemberID 2] ∧ done.1.attending = {nextMemberID 2, nextMemberID 3} ∧
          done.2.joinAnswer.map (fun resp => decide (resp.errorCode = errNone ∧ resp.memberID = nextMemberID 3 ∧
            resp.memberID ∉ done.1.group.members.keys)) = some true)) = some true :=
    exists_reaches (overdue ++ [.joinWake 0]) System.next_steps (by decide +kernel)
  obtain ⟨⟨s', effect⟩, done, seen⟩ := Option.map_eq_some_iff.mp wakes
  obtain ⟨expelled, attending, answer⟩ := of_decide_eq_true seen
  obtain ⟨resp, returned, wrong⟩ := Option.map_eq_some_iff.mp answer
  obtain ⟨accepted, third, gone⟩ := of_decide_eq_true wrong
  refine ⟨s, s', effect, run, done, expelled, attending, resp, returned, accepted, third, ?_⟩
  exact fun member => gone (AList.mem_keys.mp member)

end PocketKafka.Coordinator
