import PocketKafka.Fleet.Jobs
import PocketKafka.Lib.Text

namespace PocketKafka.Fleet

open Bytes Runs Text

/-- `key` is what the sealed key opens to. A time that has not been set is `none`. -/
structure Agent where
  id : Bytes
  serverID : Bytes
  key : Bytes
  revoked : Bool
  revokedAt : Option Time
  enrolledAt : Time
  deriving DecidableEq, Repr

structure Enrollment where
  token : Bytes
  serverID : Bytes
  createdAt : Time
  expiresAt : Option Time
  used : Bool
  usedAt : Option Time
  deriving DecidableEq, Repr

inductive ServerStatus where
  | online
  | revoked
  deriving DecidableEq, Repr

structure Server where
  id : Bytes
  agentID : Bytes
  status : ServerStatus
  createdAt : Time
  updatedAt : Time
  deriving DecidableEq, Repr

/-- The maps of the registry as lists with one entry for each key. -/
structure RegistryData where
  agents : List Agent
  enrollments : List Enrollment
  servers : List Server
  deriving DecidableEq, Repr

structure Registry where
  data : RegistryData
  file : RegistryData
  maxAgents : Int
  deriving DecidableEq, Repr

inductive RegistryError where
  | serverRequired
  | tokenInvalid
  | tokenUsed
  | tokenExpired
  | limitExceeded
  | notFound
  | revoked
  | write
  deriving DecidableEq, Repr

namespace RegistryData

variable (d : RegistryData)

def agent (id : Bytes) : Option Agent := d.agents.find? fun a => a.id = id

def enrollment (token : Bytes) : Option Enrollment := d.enrollments.find? fun e => e.token = token

def putAgent (a : Agent) : RegistryData := { d with agents := d.agents.filter (fun old => old.id ≠ a.id) ++ [a] }

def putEnrollment (e : Enrollment) : RegistryData :=
  { d with enrollments := d.enrollments.filter (fun old => old.token ≠ e.token) ++ [e] }

def deleteEnrollment (token : Bytes) : RegistryData :=
  { d with enrollments := d.enrollments.filter fun e => e.token ≠ token }

def active : Nat := d.agents.countP fun a => !a.revoked

def authorizeStream (id : Bytes) : Except RegistryError Agent :=
  match d.agent id with
  | none => .error .notFound
  | some a => if a.revoked then .error .revoked else .ok a

def agentKey (id : Bytes) : Except RegistryError Bytes := (d.authorizeStream id).map Agent.key

def putServer (now : Time) (serverID agentID : Bytes) : RegistryData :=
  { d with
    servers :=
      if d.servers.any (fun s => s.id = serverID) then
        d.servers.map fun s =>
          if s.id = serverID then { s with agentID := agentID, status := .online, updatedAt := now } else s
      else d.servers ++ [⟨serverID, agentID, .online, now, now⟩] }

def touchServer (now : Time) (serverID : Bytes) : RegistryData :=
  { d with
    servers := d.servers.map fun s =>
      if s.id = serverID then
        { s with updatedAt := now, status := if s.status ≠ .revoked then .online else s.status }
      else s }

end RegistryData

def agentName (serverID suffix : Bytes) : Bytes := ascii "agent-" ++ serverID ++ ascii "-" ++ suffix

def Agent.enroll (now : Time) (serverID secret suffix : Bytes) : Agent :=
  ⟨agentName serverID suffix, serverID, secret, false, none, now⟩

def Agent.revoke (a : Agent) (now : Time) : Agent := { a with revoked := true, revokedAt := some now }

def Server.revoke (s : Server) (now : Time) : Server := { s with status := .revoked, updatedAt := now }

def Enrollment.use (e : Enrollment) (now : Time) : Enrollment := { e with used := true, usedAt := some now }

def Enrollment.expired (e : Enrollment) (now : Time) : Bool := e.expiresAt.any fun expiry => expiry < now

/-- A token that is issued now. A duration of zero stands for no end. -/
def Enrollment.issue (now duration : Time) (token serverID : Bytes) : Enrollment :=
  ⟨token, serverID, now, if duration ≠ 0 then some (now + duration) else none, false, none⟩

namespace Registry

variable (r : Registry)

def newRegistry (maxAgents : Int) : Registry := ⟨⟨[], [], []⟩, ⟨[], [], []⟩, maxAgents⟩

def full : Bool := 0 < r.maxAgents ∧ r.maxAgents ≤ r.data.active

/-- The end of an operation that has changed the data: `persistLocked`, and its result or an error. -/
def persist {α : Type} (fails : Bool) (d : RegistryData) (result : α) : Except RegistryError α × Registry :=
  if fails then (.error .write, { r with data := d }) else (.ok result, { r with data := d, file := d })

def enrollWithExpiry (now : Time) (fails : Bool) (serverID : Bytes) (duration : Time) (token : Bytes) :
    Except RegistryError Bytes × Registry :=
  if trimSpace serverID = [] then (.error .serverRequired, r)
  else if r.full then (.error .limitExceeded, r)
  else r.persist fails (r.data.putEnrollment (.issue now duration token serverID)) token

def consumeToken (now : Time) (fails : Bool) (token secret suffix : Bytes) : Except RegistryError Agent × Registry :=
  match r.data.enrollment token with
  | none => (.error .tokenInvalid, r)
  | some e =>
    if e.used then (.error .tokenUsed, r)
    else if e.expired now then (.error .tokenExpired, r)
    else if r.full then (.error .limitExceeded, r)
    else
      let agent := Agent.enroll now e.serverID secret suffix
      let used : RegistryData :=
        { r.data with enrollments := r.data.enrollments.map fun e => if e.token = token then e.use now else e }
      r.persist fails ((used.putAgent agent).putServer now e.serverID agent.id) agent

def revoke (now : Time) (fails : Bool) (agentID : Bytes) : Except RegistryError Unit × Registry :=
  match r.data.agent agentID with
  | none => (.error .notFound, r)
  | some a =>
    if a.revoked then (.ok (), r)
    else
      r.persist fails
        { r.data with agents := r.data.agents.map fun a => if a.id = agentID then a.revoke now else a } ()

/-- Changes the memory only. -/
def touchServer (now : Time) (serverID : Bytes) : Registry := { r with data := r.data.touchServer now serverID }

def revokeServer (now : Time) (fails : Bool) (serverID : Bytes) : Except RegistryError Unit × Registry :=
  if r.data.agents.any (fun a => a.serverID = serverID ∧ a.revoked = false) ∨
    r.data.servers.any (fun s => s.id = serverID) then
    r.persist fails
      { r.data with
        agents := r.data.agents.map fun a => if a.serverID = serverID ∧ a.revoked = false then a.revoke now else a
        servers := r.data.servers.map fun s => if s.id = serverID then s.revoke now else s } ()
  else (.error .notFound, r)

def deleteServer (fails : Bool) (serverID : Bytes) : Except RegistryError Unit × Registry :=
  if r.data.agents.any (fun a => a.serverID = serverID) ∨ r.data.servers.any (fun s => s.id = serverID) ∨
      r.data.enrollments.any (fun e => e.serverID = serverID) then
    r.persist fails
      ⟨r.data.agents.filter fun a => a.serverID ≠ serverID, r.data.enrollments.filter fun e => e.serverID ≠ serverID,
        r.data.servers.filter fun s => s.id ≠ serverID⟩ ()
  else (.error .notFound, r)

/-- The token that a loop over the map meets first among those that begin with `front`. -/
def picked (front : Bytes) (choice : Nat) : Option Enrollment :=
  let found := r.data.enrollments.filter fun e => startsWith e.token front
  found[choice % found.length]?

def revokeEnrollment (fails : Bool) (front : Bytes) (choice : Nat) : Except RegistryError Unit × Registry :=
  let front := trimSpace front
  if front = [] then (.error .tokenInvalid, r)
  else
    match r.picked front choice with
    | none => (.error .notFound, r)
    | some e => r.persist fails (r.data.deleteEnrollment e.token) ()

def reissueEnrollment (now : Time) (fails : Bool) (front : Bytes) (choice : Nat) (duration : Time) (token : Bytes) :
    Except RegistryError (Bytes × Bytes) × Registry :=
  let front := trimSpace front
  if front = [] then (.error .tokenInvalid, r)
  else
    match r.picked front choice with
    | none => (.error .notFound, r)
    | some e =>
      r.persist fails ((r.data.deleteEnrollment e.token).putEnrollment (.issue now duration token e.serverID))
        (token, e.serverID)

def listEnrollments (now : Time) (fails : Bool) : List Enrollment × Registry :=
  let kept := r.data.enrollments.filter fun e => !(e.used || e.expired now)
  if kept.length < r.data.enrollments.length then
    (kept, (r.persist fails { r.data with enrollments := kept } ()).2)
  else (kept, r)

def reload : Registry := { r with data := r.file }

section

variable {r} {now : Time} {fails : Bool} {choice : Nat} {duration : Time}
    {serverID agentID token front secret suffix : Bytes}

theorem persist_maxAgents {α : Type} (d : RegistryData) (result : α) :
    (r.persist fails d result).2.maxAgents = r.maxAgents := by
  cases fails <;> rfl

theorem enrollWithExpiry_maxAgents : (r.enrollWithExpiry now fails serverID duration token).2.maxAgents = r.maxAgents := by
  unfold enrollWithExpiry
  split
  · rfl
  · split
    · rfl
    · exact persist_maxAgents ..

theorem consumeToken_maxAgents : (r.consumeToken now fails token secret suffix).2.maxAgents = r.maxAgents := by
  unfold consumeToken
  split
  · rfl
  · split
    · rfl
    · split
      · rfl
      · split
        · rfl
        · exact persist_maxAgents ..

theorem revoke_maxAgents : (r.revoke now fails agentID).2.maxAgents = r.maxAgents := by
  unfold revoke
  split
  · rfl
  · split
    · rfl
    · exact persist_maxAgents ..

theorem revokeServer_maxAgents : (r.revokeServer now fails serverID).2.maxAgents = r.maxAgents := by
  unfold revokeServer
  split
  · exact persist_maxAgents ..
  · rfl

theorem deleteServer_maxAgents : (r.deleteServer fails serverID).2.maxAgents = r.maxAgents := by
  unfold deleteServer
  split
  · exact persist_maxAgents ..
  · rfl

theorem revokeEnrollment_maxAgents : (r.revokeEnrollment fails front choice).2.maxAgents = r.maxAgents := by
  simp only [revokeEnrollment]
  split
  · rfl
  · split
    · rfl
    · exact persist_maxAgents ..

theorem reissueEnrollment_maxAgents :
    (r.reissueEnrollment now fails front choice duration token).2.maxAgents = r.maxAgents := by
  simp only [reissueEnrollment]
  split
  · rfl
  · split
    · rfl
    · exact persist_maxAgents ..

theorem listEnrollments_maxAgents : (r.listEnrollments now fails).2.maxAgents = r.maxAgents := by
  simp only [listEnrollments]
  split
  · exact persist_maxAgents ..
  · rfl

end

end Registry

end PocketKafka.Fleet
