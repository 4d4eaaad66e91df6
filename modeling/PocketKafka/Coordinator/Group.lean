import PocketKafka.Protocol.Requests

namespace PocketKafka.Coordinator

open Bytes Protocol

abbrev MemberID := Bytes

abbrev Time := Int

def millisecond : Time := 1000000
def second : Time := 1000 * millisecond

inductive GroupState where
  | empty
  | preparingRebalance
  | completingRebalance
  | stable
  deriving DecidableEq, Repr

def errNone : Int := 0
def errIllegalGeneration : Int := 22
def errInconsistentGroupProtocol : Int := 23
def errUnknownMemberID : Int := 25
def errRebalanceInProgress : Int := 27

structure JoinGroupResponseMember where
  memberID : MemberID
  instanceID : Option Bytes
  metadata : Bytes
  deriving DecidableEq, Repr

structure JoinGroupResponse where
  errorCode : Int
  generationID : Int
  protocolName : Bytes
  leaderID : MemberID
  memberID : MemberID
  members : List JoinGroupResponseMember
  deriving DecidableEq, Repr

structure Member where
  id : MemberID
  instanceID : Option Bytes
  sessionTimeout : Int
  rebalanceTimeout : Time
  protocolType : Bytes
  protocols : List JoinGroupRequestProtocol
  lastHeartbeat : Time
  deriving DecidableEq, Repr

abbrev Members := AList (fun _ : MemberID => Member)
abbrev Assignments := AList (fun _ : MemberID => Bytes)

/-- A group. Of the two channels only how often they were closed matters: a waiter that holds an older
    count is notified. -/
structure Group where
  state : GroupState
  generation : Int
  protocolType : Bytes
  protocol : Bytes
  leaderID : MemberID
  members : Members
  joinOrder : List MemberID
  assignments : Assignments
  assignmentsChanged : Nat
  joined : Finset MemberID
  rebalanceDeadline : Time
  joinNotify : Nat

structure Config where
  defaultSession : Int
  defaultRebalance : Time

def newGroup : Group := ⟨.empty, 0, [], [], [], ∅, [], ∅, 0, ∅, 0, 0⟩

def nextMemberID (seq : Nat) : MemberID :=
  ascii "pocketkafka-" ++ (Nat.digits 10 seq).reverse.map (fun d => UInt8.ofNat (48 + d))

def Config.rebalanceTimeout (gm : Config) (req : JoinGroupRequest) : Time :=
  let ms := if req.rebalanceTimeoutMs ≤ 0 then req.sessionTimeoutMs else req.rebalanceTimeoutMs
  if ms ≤ 0 then
    if 0 < gm.defaultRebalance then gm.defaultRebalance else 10000 * millisecond
  else ms * millisecond

def filterOrder (order remove : List MemberID) : List MemberID := order.filter (fun id => decide (id ∉ remove))

def sameMemberMetadata (m : Member) (req : JoinGroupRequest) : Bool :=
  decide (m.protocolType = req.protocolType ∧ m.instanceID = req.instanceID ∧
    m.protocols.map (fun p => (p.name, p.metadata.getD [])) = req.protocols.map (fun p => (p.name, p.metadata.getD [])))

/-- The first protocol of the leader that every member supports. -/
def chooseProtocol (members : Members) (order : List MemberID) (leader : Member) : Bytes :=
  let supported (name : Bytes) : Bool := order.all fun id =>
    match members.lookup id with
    | none => true
    | some m => m.protocols.any (fun p => decide (p.name = name))
  match leader.protocols with
  | [] => []
  | first :: others => (((first :: others).find? (fun cand => supported cand.name)).getD first).name

namespace Group

def closeJoinWaitersLocked (g : Group) : Group := { g with joinNotify := g.joinNotify + 1 }

def waitTime (m : Member) : Time :=
  if m.rebalanceTimeout ≤ 0 then m.sessionTimeout * millisecond else m.rebalanceTimeout

def laterDeadline (now : Time) : Time × Bool → Member → Time × Bool
  | (deadline, first), m =>
    if waitTime m ≤ 0 then (deadline, first)
    else if first ∨ deadline < now + waitTime m then (now + waitTime m, false)
    else (deadline, first)

def beginRebalanceLocked (g : Group) (now : Time) : Group :=
  { g with
    state := .preparingRebalance
    joined := ∅
    rebalanceDeadline := ((g.members.entries.map Sigma.snd).foldl (laterDeadline now) (now + 10 * second, true)).1 }

/-- A group with members has a first one in its join order, so the leader is always found. -/
def completeJoinLocked (g : Group) : Group :=
  if g.members.entries.length = 0 then
    closeJoinWaitersLocked { g with state := .empty, leaderID := [], joined := ∅, rebalanceDeadline := 0 }
  else
    let leaderID := g.joinOrder.headD []
    let leader := (g.members.lookup leaderID).getD ⟨[], none, 0, 0, [], [], 0⟩
    closeJoinWaitersLocked { g with
      generation := int32 (g.generation + 1)
      state := .completingRebalance
      leaderID := leaderID
      protocolType := leader.protocolType
      protocol := chooseProtocol g.members g.joinOrder leader
      assignments := ∅
      joined := ∅
      rebalanceDeadline := 0 }

def absent (g : Group) : List MemberID := g.members.keys.filter (fun id => decide (id ∉ g.joined))

def remove (g : Group) (dead : List MemberID) : Group :=
  { g with
    members := dead.foldl (fun members id => members.erase id) g.members
    joinOrder := filterOrder g.joinOrder dead }

def expireRebalanceLocked (g : Group) : Group := (g.remove g.absent).completeJoinLocked

def fillJoinResponseLocked (g : Group) (memberID : MemberID) : JoinGroupResponse where
  errorCode := errNone
  generationID := g.generation
  protocolName := g.protocol
  leaderID := g.leaderID
  memberID := memberID
  members :=
    if memberID = g.leaderID then
      g.joinOrder.filterMap fun id => (g.members.lookup id).map fun m =>
        ⟨m.id, m.instanceID, ((m.protocols.find? (fun p => decide (p.name = g.protocol))).bind
          JoinGroupRequestProtocol.metadata).getD []⟩
    else []

end Group

structure JoinWait where
  memberID : MemberID
  deadline : Time
  ch : Nat

/-- Where a `JoinGroup` stands when it gives up the lock. `expelled` are the members that it removed as
    absentees. -/
inductive JoinOutcome where
  | returned (resp : JoinGroupResponse) (expelled : List MemberID)
  | waiting (wait : JoinWait)

namespace Group

def joinLoop (g : Group) (now : Time) (memberID : MemberID) (deadline : Time) : JoinOutcome × Group :=
  if g.state = .preparingRebalance then
    if deadline ≤ now then
      (.returned (g.expireRebalanceLocked.fillJoinResponseLocked memberID) g.absent, g.expireRebalanceLocked)
    else (.waiting ⟨memberID, deadline, g.joinNotify⟩, g)
  else (.returned (g.fillJoinResponseLocked memberID) [], g)

def updated (gm : Config) (now : Time) (memberID : MemberID) (req : JoinGroupRequest) : Member where
  id := memberID
  instanceID := req.instanceID
  sessionTimeout := req.sessionTimeoutMs
  rebalanceTimeout := gm.rebalanceTimeout req
  protocolType := req.protocolType
  protocols := req.protocols
  lastHeartbeat := now

/-- Records the member in the open rebalance, which is opened if there is none. -/
def enroll (g : Group) (gm : Config) (now : Time) (memberID : MemberID) (fresh : Bool) (req : JoinGroupRequest) : Group :=
  let g := { g with
    members := g.members.insert memberID (updated gm now memberID req)
    joinOrder := if fresh then g.joinOrder ++ [memberID] else g.joinOrder }
  let g := if g.state = .preparingRebalance then g else g.beginRebalanceLocked now
  { g with joined := insert memberID g.joined }

/-- From the recorded join up to the return or the first wait. -/
def awaitOthers (g : Group) (now : Time) (memberID : MemberID) : JoinOutcome × Group :=
  if g.members.entries.length ≤ g.joined.card then
    (.returned (g.completeJoinLocked.fillJoinResponseLocked memberID) [], g.completeJoinLocked)
  else g.joinLoop now memberID g.rebalanceDeadline

/-- The member that a request is for: a known one, or a new one with the given id. -/
def requested (g : Group) (fresh : MemberID) (req : JoinGroupRequest) : MemberID :=
  if g.members.lookup req.memberID = none then fresh else req.memberID

def refusedJoin (code : Int) (memberID : MemberID) : JoinGroupResponse := ⟨code, -1, [], [], memberID, []⟩

/-- The request is answered from the running generation. -/
def unchanged (g : Group) (req : JoinGroupRequest) : Bool :=
  match g.members.lookup req.memberID with
  | none => false
  | some member => decide (g.state = .stable) && sameMemberMetadata member req

def touch (g : Group) (memberID : MemberID) (now : Time) : Group :=
  match g.members.lookup memberID with
  | none => g
  | some member => { g with members := g.members.insert memberID { member with lastHeartbeat := now } }

/-- `JoinGroup` up to its return or its first wait; `fresh` is the id that a new member gets. -/
def joinGroup (g : Group) (gm : Config) (now : Time) (fresh : MemberID) (req : JoinGroupRequest) : JoinOutcome × Group :=
  if req.protocols.length = 0 then (.returned (refusedJoin errInconsistentGroupProtocol req.memberID) [], g)
  else if g.unchanged req then
    (.returned ((g.touch req.memberID now).fillJoinResponseLocked req.memberID) [], g.touch req.memberID now)
  else
    let memberID := g.requested fresh req
    (g.enroll gm now memberID (decide (g.members.lookup req.memberID = none)) req).awaitOthers now memberID

/-- A waiting `JoinGroup` has the lock again. The clock is read once: had it passed the deadline between
    the two readings of the loop, the outcome would be that of the later reading. -/
def joinWake (g : Group) (now : Time) (wait : JoinWait) : JoinOutcome × Group :=
  if g.members.lookup wait.memberID = none then (.returned (refusedJoin errUnknownMemberID wait.memberID) [], g)
  else if wait.deadline ≤ now then
    (.returned (g.expireRebalanceLocked.fillJoinResponseLocked wait.memberID) g.absent, g.expireRebalanceLocked)
  else g.joinLoop now wait.memberID wait.deadline

end Group

structure SyncGroupResponse where
  errorCode : Int
  assignment : Bytes
  deriving DecidableEq, Repr

def syncWaitTimeout : Time := 10 * second

structure SyncWait where
  memberID : MemberID
  generationID : Int
  deadline : Time
  changed : Nat
  timer : Time

inductive SyncOutcome where
  | returned (resp : SyncGroupResponse)
  | waiting (wait : SyncWait)

namespace Group

def syncReturn (g : Group) (memberID : MemberID) (generationID : Int) : SyncOutcome × Group :=
  (.returned ⟨errNone, (g.assignments.lookup memberID).getD []⟩,
    if g.state = .completingRebalance ∧ generationID = g.generation then { g with state := .stable } else g)

def syncDone (g : Group) (now : Time) (memberID : MemberID) (generationID : Int) (deadline : Time) : Bool :=
  decide (g.assignments.lookup memberID ≠ none ∨ g.state ≠ .completingRebalance ∨ g.generation ≠ generationID ∨
    deadline ≤ now)

def syncLoop (g : Group) (now : Time) (memberID : MemberID) (generationID : Int) (deadline : Time) : SyncOutcome × Group :=
  if g.syncDone now memberID generationID deadline then g.syncReturn memberID generationID
  else (.waiting ⟨memberID, generationID, deadline, g.assignmentsChanged, now + min (deadline - now) (250 * millisecond)⟩, g)

def assign (assignments : Assignments) (submitted : List SyncGroupRequestAssignment) : Assignments :=
  submitted.foldl (fun assignments a => assignments.insert a.memberID (a.assignment.getD [])) assignments

def syncRefusal (g : Group) (req : SyncGroupRequest) : Option Int :=
  if g.state = .preparingRebalance then some errRebalanceInProgress
  else if g.members.lookup req.memberID = none then some errUnknownMemberID
  else if req.generationID ≠ g.generation then some errIllegalGeneration
  else none

def syncGroup (g : Group) (now : Time) (req : SyncGroupRequest) : SyncOutcome × Group :=
  match g.syncRefusal req with
  | some code => (.returned ⟨code, []⟩, g)
  | none =>
    let g := { g with
      assignments := assign g.assignments req.assignments
      assignmentsChanged := g.assignmentsChanged + 1 }
    if g.assignments.lookup req.memberID = none ∧ req.memberID ≠ g.leaderID then
      g.syncLoop now req.memberID req.generationID (now + syncWaitTimeout)
    else g.syncReturn req.memberID req.generationID

def syncWake (g : Group) (now : Time) (wait : SyncWait) : SyncOutcome × Group :=
  g.syncLoop now wait.memberID wait.generationID wait.deadline

def heartbeat (g : Group) (now : Time) (memberID : MemberID) (generationID : Int) : Int × Group :=
  if g.members.lookup memberID = none then (errUnknownMemberID, g)
  else if g.state = .preparingRebalance then (errRebalanceInProgress, g)
  else if generationID ≠ g.generation then (errIllegalGeneration, g)
  else (errNone, g.touch memberID now)

def drop (g : Group) (gone : List MemberID) : Group :=
  { g.remove gone with joined := g.joined.filter (fun id => ¬ (id ∈ g.members.keys ∧ id ∈ gone)) }

def leaveGroup (g : Group) (now : Time) (toRemove : List MemberID) : Group :=
  let g := g.drop toRemove
  if g.members.entries.length = 0 then { g with state := .empty, generation := 0, leaderID := [] }
  else if g.state = .preparingRebalance ∧ g.members.entries.length ≤ g.joined.card then g.completeJoinLocked
  else g.beginRebalanceLocked now

def expired (gm : Config) (now : Time) (m : Member) : Bool :=
  let timeout := if m.sessionTimeout ≤ 0 then gm.defaultSession else m.sessionTimeout
  decide (0 < timeout ∧ timeout * millisecond < now - m.lastHeartbeat)

def dead (g : Group) (gm : Config) (now : Time) : List MemberID :=
  (g.members.entries.filter (fun entry => expired gm now entry.2)).map Sigma.fst

/-- `now` was read before the lock was taken, `clock` is the time under the lock. -/
def reapExpired (g : Group) (gm : Config) (now clock : Time) : Group :=
  let dead := g.dead gm now
  if dead.length = 0 then g
  else
    let g := g.drop dead
    if g.members.entries.length = 0 then { g with state := .empty, generation := 0, leaderID := [] }
    else if g.state = .preparingRebalance then
      if g.members.entries.length ≤ g.joined.card then g.completeJoinLocked else g
    else g.beginRebalanceLocked clock

end Group

def toRemove (req : LeaveGroupRequest) : List MemberID :=
  if req.version < 3 then [req.memberID] else req.members.map LeaveGroupRequestMember.memberID

def removed (req : LeaveGroupRequest) (g : Group) : List MemberID :=
  (toRemove req).dedup.filter (fun id => decide (id ∈ g.members.keys))

end PocketKafka.Coordinator
