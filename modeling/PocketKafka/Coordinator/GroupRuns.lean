import PocketKafka.Lib.Runs
import PocketKafka.Coordinator.Group

namespace PocketKafka.Coordinator

open Bytes Runs Protocol

/-- The last three fields record what happened: who joined in the open rebalance or, when none is open, in
    the last completed one; how many generations have begun; what the leader of each has submitted. -/
structure System where
  group : Group
  nextMemberSeq : Nat
  now : Time
  joins : List JoinWait
  syncs : List (SyncWait × Nat)
  attending : Finset MemberID
  election : Nat
  submitted : Nat → Assignments

inductive Event where
  | tick (passed : Nat)
  | elsewhere
  | join (req : JoinGroupRequest)
  | joinWake (i : Nat)
  | sync (req : SyncGroupRequest)
  | syncWake (i : Nat)
  | heartbeat (memberID : MemberID) (generationID : Int)
  | leave (req : LeaveGroupRequest)
  | reap (seen : Time)

structure Effect where
  joinAnswer : Option JoinGroupResponse
  expelled : List MemberID
  syncAnswer : Option (MemberID × Nat × SyncGroupResponse)

def silent : Effect := ⟨none, [], none⟩

namespace System

def start (now : Time) : System := ⟨newGroup, 0, now, [], [], ∅, 0, fun _ => ∅⟩

def moved (s : System) (g : Group) : System :=
  { s with
    group := g
    election := if g.joinNotify ≠ s.group.joinNotify ∧ g.state = .completingRebalance then s.election + 1 else s.election }

def resume {α : Type*} (waits : List α) (i : Nat) : Option α → List α
  | some wait => waits.set i wait
  | none => waits.eraseIdx i

def joinEnds (s : System) (keep : Option JoinWait → List JoinWait) : JoinOutcome × Group → System × Effect
  | (.returned resp expelled, g) => ({ s.moved g with joins := keep none }, ⟨some resp, expelled, none⟩)
  | (.waiting wait, g) => ({ s.moved g with joins := keep (some wait) }, silent)

def syncEnds (s : System) (memberID : MemberID) (election : Nat) (keep : Option (SyncWait × Nat) → List (SyncWait × Nat)) :
    SyncOutcome × Group → System × Effect
  | (.returned resp, g) => ({ s.moved g with syncs := keep none }, ⟨none, [], some (memberID, election, resp)⟩)
  | (.waiting wait, g) => ({ s.moved g with syncs := keep (some (wait, election)) }, silent)

def admits (s : System) (req : JoinGroupRequest) : Prop := req.protocols.length ≠ 0 ∧ s.group.unchanged req = false

instance (s : System) (req : JoinGroupRequest) : Decidable (s.admits req) := inferInstanceAs (Decidable (_ ∧ _))

def freshID (s : System) : MemberID := nextMemberID (s.nextMemberSeq + 1)

/-- The record of a join: the first one opens a rebalance. -/
def recordJoin (s : System) (req : JoinGroupRequest) : System :=
  if s.admits req then
    { s with
      nextMemberSeq := if s.group.members.lookup req.memberID = none then s.nextMemberSeq + 1 else s.nextMemberSeq
      attending := insert (s.group.requested s.freshID req)
        (if s.group.state = .preparingRebalance then s.attending else ∅) }
  else s

def recordGone (s : System) (gone : List MemberID) (g : Group) : System :=
  { s with
    attending :=
      if s.group.state ≠ .preparingRebalance ∧ g.state = .preparingRebalance then ∅
      else s.attending.filter (fun id => id ∉ gone) }

/-- What the leader submits in a request that is not refused. -/
def recordSync (s : System) (req : SyncGroupRequest) : System :=
  if s.group.syncRefusal req = none ∧ req.memberID = s.group.leaderID then
    { s with
      submitted := Function.update s.submitted s.election (Group.assign (s.submitted s.election) req.assignments) }
  else s

def joinWakes (s : System) (wait : JoinWait) : Prop := wait.ch ≠ s.group.joinNotify ∨ wait.deadline ≤ s.now

def syncWakes (s : System) (wait : SyncWait) : Prop := wait.changed ≠ s.group.assignmentsChanged ∨ wait.timer ≤ s.now

instance (s : System) (wait : JoinWait) : Decidable (s.joinWakes wait) := inferInstanceAs (Decidable (_ ∨ _))
instance (s : System) (wait : SyncWait) : Decidable (s.syncWakes wait) := inferInstanceAs (Decidable (_ ∨ _))

def perform (gm : Config) (s : System) : Event → Option (System × Effect)
  | .tick passed => some ({ s with now := s.now + passed }, silent)
  | .elsewhere => some ({ s with nextMemberSeq := s.nextMemberSeq + 1 }, silent)
  | .join req =>
    some ((s.recordJoin req).joinEnds (fun wait => s.joins ++ wait.toList) (s.group.joinGroup gm s.now s.freshID req))
  | .joinWake i =>
    match s.joins[i]? with
    | none => none
    | some wait =>
      if s.joinWakes wait then some (s.joinEnds (resume s.joins i) (s.group.joinWake s.now wait)) else none
  | .sync req =>
    some ((s.recordSync req).syncEnds req.memberID s.election (fun wait => s.syncs ++ wait.toList)
      (s.group.syncGroup s.now req))
  | .syncWake i =>
    match s.syncs[i]? with
    | none => none
    | some (wait, election) =>
      if s.syncWakes wait then
        some (s.syncEnds wait.memberID election (resume s.syncs i) (s.group.syncWake s.now wait))
      else none
  | .heartbeat memberID generationID => some (s.moved (s.group.heartbeat s.now memberID generationID).2, silent)
  | .leave req =>
    let g := s.group.leaveGroup s.now (toRemove req)
    some ((s.recordGone (toRemove req) g).moved g, silent)
  | .reap seen =>
    let g := s.group.reapExpired gm seen s.now
    some ((s.recordGone (s.group.dead gm seen) g).moved g, silent)

def Steps (gm : Config) (s : System) (e : Event) (s' : System) : Prop := ∃ effect, s.perform gm e = some (s', effect)

def next (gm : Config) (s : System) (e : Event) : Option System := (s.perform gm e).map Prod.fst

theorem next_steps {gm : Config} (s : System) (e : Event) (s' : System) (done : s.next gm e = some s') :
    s.Steps gm e s' := by
  obtain ⟨⟨_, effect⟩, performed, rfl⟩ := Option.map_eq_some_iff.mp done
  exact ⟨effect, performed⟩

end System

end PocketKafka.Coordinator
