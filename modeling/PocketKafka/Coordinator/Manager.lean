import PocketKafka.Coordinator.GroupRuns
import PocketKafka.Coordinator.OffsetStore
import PocketKafka.Protocol.Responses

namespace PocketKafka.Coordinator

open Bytes Runs Protocol

def errUnknownServerError : Int := -1

namespace Group

/-- `OffsetCommit` answers every partition with this code unless the store fails. -/
def fence (g : Group) (req : OffsetCommitRequest) : Int :=
  if 0 ≤ req.generation then
    if g.state = .preparingRebalance then errRebalanceInProgress
    else if g.members.lookup req.memberID = none then errUnknownMemberID
    else if req.generation ≠ g.generation then errIllegalGeneration
    else errNone
  else errNone

def reset (g : Group) : Group :=
  { g with state := .empty, generation := 0, leaderID := [], members := ∅, joinOrder := [], assignments := ∅, joined := ∅ }

end Group

def commitRecords (req : OffsetCommitRequest) : List OffsetCommitRecord :=
  req.topics.flatMap fun t => t.partitions.map fun p =>
    ⟨⟨req.group, t.topic, Int32.ofInt p.partition⟩,
      ⟨Int64.ofInt p.offset, p.metadata, Int32.ofInt p.leaderEpoch, 0⟩⟩

def commitBatch (offsets : Offsets) (now : Int64) (records : List OffsetCommitRecord) : Offsets :=
  Journal.replay (records.map fun r => (r.key, r.stamped now)) offsets

def commitResponse (req : OffsetCommitRequest) (code : Int) : OffsetCommitResponse where
  version := req.version
  throttleTimeMs := 0
  topics := req.topics.map fun t => ⟨t.topic, t.partitions.map fun p => ⟨p.partition, code⟩⟩

/-- A group object with the name that it was made for; `held` while a `DeleteGroup` keeps its lock. -/
structure GroupObject where
  name : Bytes
  group : Group
  deleted : Bool
  held : Bool

inductive GroupRequest where
  | join (req : JoinGroupRequest)
  | sync (req : SyncGroupRequest)
  | heartbeat (req : HeartbeatRequest)
  | leave (req : LeaveGroupRequest)
  | commit (req : OffsetCommitRequest)
  | delete (name : Bytes)
  deriving DecidableEq

def GroupRequest.name : GroupRequest → Bytes
  | .join req => req.group
  | .sync req => req.group
  | .heartbeat req => req.group
  | .leave req => req.group
  | .commit req => req.group
  | .delete name => name

/-- The section that a call runs next. An object is named by its place in the list of all objects. -/
inductive Call where
  | lookup (request : GroupRequest)
  | create (request : GroupRequest)
  | serve (request : GroupRequest) (object : Nat)
  | joinWait (req : JoinGroupRequest) (wait : JoinWait) (object : Nat)
  | syncWait (req : SyncGroupRequest) (wait : SyncWait) (object : Nat)
  | unmap (name : Bytes) (object : Nat)
  | eraseOffsets (name : Bytes) (object : Nat)
  | reap (seen : Time) (object : Nat)

inductive Answer where
  | join (req : JoinGroupRequest) (resp : JoinGroupResponse)
  | sync (req : SyncGroupRequest) (resp : SyncGroupResponse)
  | heartbeat (req : HeartbeatRequest) (code : Int)
  | leave (req : LeaveGroupRequest) (removed : List MemberID)
  | commit (req : OffsetCommitRequest) (resp : OffsetCommitResponse)
  | delete (name : Bytes) (error : Bool)
  | reaped (removed : Nat)
  deriving DecidableEq

inductive Outcome where
  | continues (call : Call)
  | returns (answer : Answer)

structure GroupManager where
  objects : List GroupObject
  groups : Bytes → Option Nat
  nextMemberSeq : Nat
  offsets : Offsets
  now : Time
  calls : List Call

/-- `advance` runs the next section of a call; `fails` says whether a write to the files of the
    offset store in it fails. -/
inductive ManagerEvent where
  | tick (passed : Nat)
  | call (request : GroupRequest)
  | reapExpiredSessions
  | advance (i : Nat) (fails : Bool)

namespace GroupManager

variable (cfg : Config) (gm : GroupManager)

def start (now : Time) : GroupManager := ⟨[], fun _ => none, 0, fun _ => none, now, []⟩

def get (name : Bytes) : Option Nat :=
  (gm.groups name).filter fun o => ((gm.objects[o]?).map GroupObject.deleted).getD true = false

def setGroup (o : Nat) (object : GroupObject) (g : Group) : GroupManager :=
  { gm with objects := gm.objects.set o { object with group := g } }

def getOrCreate (name : Bytes) : Nat × GroupManager :=
  match gm.get name with
  | some o => (o, gm)
  | none =>
    (gm.objects.length, { gm with
      objects := gm.objects ++ [⟨name, newGroup, false, false⟩]
      groups := Function.update gm.groups name (some gm.objects.length) })

/-- The first section of a call: `Heartbeat` and `LeaveGroup` give up when there is no group, `DeleteGroup` does
    not ask whether it is marked. -/
def lookup (request : GroupRequest) : Outcome :=
  match request with
  | .heartbeat req =>
    match gm.get req.group with
    | some o => .continues (.serve request o)
    | none => .returns (.heartbeat req errUnknownMemberID)
  | .leave req =>
    match gm.get req.group with
    | some o => .continues (.serve request o)
    | none => .returns (.leave req [])
  | .delete name =>
    match gm.groups name with
    | some o => .continues (.serve request o)
    | none => .returns (.delete name false)
  | .join _ | .sync _ | .commit _ =>
    match gm.get request.name with
    | some o => .continues (.serve request o)
    | none => .continues (.create request)

def joinOutcome (req : JoinGroupRequest) (o : Nat) : JoinOutcome → Outcome
  | .returned resp _ => .returns (.join req resp)
  | .waiting wait => .continues (.joinWait req wait o)

def syncOutcome (req : SyncGroupRequest) (o : Nat) : SyncOutcome → Outcome
  | .returned resp => .returns (.sync req resp)
  | .waiting wait => .continues (.syncWait req wait o)

def drawn (g : Group) (req : JoinGroupRequest) : Nat :=
  if req.protocols.length ≠ 0 ∧ g.unchanged req = false ∧ g.members.lookup req.memberID = none then 1 else 0

def serve (o : Nat) (object : GroupObject) (fails : Bool) : GroupRequest → Outcome × GroupManager
  | .join req =>
    let result := object.group.joinGroup cfg gm.now (nextMemberID (gm.nextMemberSeq + 1)) req
    (joinOutcome req o result.1,
      { gm.setGroup o object result.2 with nextMemberSeq := gm.nextMemberSeq + drawn object.group req })
  | .sync req =>
    let result := object.group.syncGroup gm.now req
    (syncOutcome req o result.1, gm.setGroup o object result.2)
  | .heartbeat req =>
    let result := object.group.heartbeat gm.now req.memberID req.generationID
    (.returns (.heartbeat req result.1), gm.setGroup o object result.2)
  | .leave req =>
    (.returns (.leave req (removed req object.group)),
      gm.setGroup o object (object.group.leaveGroup gm.now (toRemove req)))
  | .commit req =>
    -- the offsets in memory change before the log is written
    if object.group.fence req = errNone ∧ commitRecords req ≠ [] then
      (.returns (.commit req (commitResponse req (if fails then errUnknownServerError else errNone))),
        { gm with offsets := commitBatch gm.offsets (Int64.ofInt gm.now) (commitRecords req) })
    else (.returns (.commit req (commitResponse req (object.group.fence req))), gm)
  | .delete name =>
    if object.group.members.entries.length ≠ 0 then (.returns (.delete name true), gm)
    else
      (.continues (.unmap name o),
        { gm with objects := gm.objects.set o ⟨object.name, object.group.reset, true, true⟩ })

def locked (o : Nat) (act : GroupObject → Option (Outcome × GroupManager)) : Option (Outcome × GroupManager) :=
  match gm.objects[o]? with
  | none => none
  | some object => if object.held then none else act object

def joinWakes (g : Group) (wait : JoinWait) : Prop := wait.ch ≠ g.joinNotify ∨ wait.deadline ≤ gm.now

def syncWakes (g : Group) (wait : SyncWait) : Prop := wait.changed ≠ g.assignmentsChanged ∨ wait.timer ≤ gm.now

instance (g : Group) (wait : JoinWait) : Decidable (gm.joinWakes g wait) := inferInstanceAs (Decidable (_ ∨ _))
instance (g : Group) (wait : SyncWait) : Decidable (gm.syncWakes g wait) := inferInstanceAs (Decidable (_ ∨ _))

def advance (fails : Bool) : Call → Option (Outcome × GroupManager)
  | .lookup request => some (gm.lookup request, gm)
  | .create request => some (.continues (.serve request (gm.getOrCreate request.name).1), (gm.getOrCreate request.name).2)
  | .serve request o => gm.locked o fun object => some (gm.serve cfg o object fails request)
  | .joinWait req wait o => gm.locked o fun object =>
    if gm.joinWakes object.group wait then
      let result := object.group.joinWake gm.now wait
      some (joinOutcome req o result.1, gm.setGroup o object result.2)
    else none
  | .syncWait req wait o => gm.locked o fun object =>
    if gm.syncWakes object.group wait then
      let result := object.group.syncWake gm.now wait
      some (syncOutcome req o result.1, gm.setGroup o object result.2)
    else none
  | .unmap name o =>
    some (.continues (.eraseOffsets name o),
      if gm.groups name = some o then { gm with groups := Function.update gm.groups name none } else gm)
  | .eraseOffsets name o =>
    -- the lock of the group is given up at the end
    match gm.objects[o]? with
    | none => none
    | some object =>
      some (.returns (.delete name fails), { gm with
        objects := gm.objects.set o { object with held := false }
        offsets := fun key => if key.group = name then none else gm.offsets key })
  | .reap seen o => gm.locked o fun object =>
    some (.returns (.reaped (object.group.dead cfg seen).length),
      gm.setGroup o object (object.group.reapExpired cfg seen gm.now))

/-- The groups that `ReapExpiredSessions` sees. It goes through them one after another in any order; here each
    is a call of its own. -/
def mapped : List Nat :=
  (List.range gm.objects.length).filter fun o => (gm.objects[o]?).all fun object => gm.groups object.name = some o

def conclude (i : Nat) : Outcome × GroupManager → GroupManager × Option Answer
  | (.continues call, gm) => ({ gm with calls := gm.calls.set i call }, none)
  | (.returns answer, gm) => ({ gm with calls := gm.calls.eraseIdx i }, some answer)

def perform : ManagerEvent → Option (GroupManager × Option Answer)
  | .tick passed => some ({ gm with now := gm.now + passed }, none)
  | .call request => some ({ gm with calls := gm.calls ++ [.lookup request] }, none)
  | .reapExpiredSessions => some ({ gm with calls := gm.calls ++ gm.mapped.map (.reap gm.now) }, none)
  | .advance i fails =>
    match gm.calls[i]? with
    | none => none
    | some call => (gm.advance cfg fails call).map (conclude i)

def Steps (gm : GroupManager) (e : ManagerEvent) (gm' : GroupManager) : Prop :=
  ∃ answer, gm.perform cfg e = some (gm', answer)

def next (gm : GroupManager) (e : ManagerEvent) : Option GroupManager := (gm.perform cfg e).map Prod.fst

theorem next_steps (cfg : Config) (gm : GroupManager) (e : ManagerEvent) (gm' : GroupManager)
    (done : gm.next cfg e = some gm') : gm.Steps cfg e gm' := by
  obtain ⟨⟨_, answer⟩, performed, rfl⟩ := Option.map_eq_some_iff.mp done
  exact ⟨answer, performed⟩

def anything (_ : GroupManager) (_ : ManagerEvent) : Prop := True

instance (gm : GroupManager) (e : ManagerEvent) : Decidable (anything gm e) := inferInstanceAs (Decidable True)

end GroupManager

end PocketKafka.Coordinator
