import PocketKafka.Lib.Bytes
import PocketKafka.Lib.Runs

namespace PocketKafka.Fleet

open Bytes Runs

abbrev Time := Int

def zeroTime : Time := -62135596800 * 1000000000

/-- A status is a string, which messages may fill with anything. -/
inductive JobStatus where
  | queued
  | accepted
  | running
  | succeeded
  | failed
  | other (text : Bytes)
  deriving DecidableEq, Repr

def JobStatus.terminal : JobStatus → Bool
  | .succeeded | .failed => true
  | _ => false

def JobStatus.active : JobStatus → Bool
  | .queued | .accepted | .running => true
  | _ => false

structure Job where
  id : Bytes
  serverID : Bytes
  action : Bytes
  target : Bytes
  actor : Bytes
  idempotencyKey : Bytes
  force : Bool
  result : Bytes
  tailLines : Int
  status : JobStatus
  error : Bytes
  createdAt : Time
  startedAt : Time
  completedAt : Time
  deriving DecidableEq, Repr

inductive JobError where
  | notFound
  | illegalTransition
  | limitExceeded
  | write
  deriving DecidableEq, Repr

/-- What a submission asks for. `id` is the identifier that is generated for it. -/
structure Submission where
  id : Bytes
  serverID : Bytes
  action : Bytes
  target : Bytes
  actor : Bytes
  idempotencyKey : Bytes
  deriving DecidableEq, Repr

/-- The keys of the map of jobs are those in `order`. `timeoutError` is the text that names `timeout`. -/
structure Jobs where
  jobs : Bytes → Option Job
  order : List Bytes
  idempotencyIndex : Bytes → Option Bytes
  timeout : Time
  timeoutError : Bytes
  maxActiveJobs : Int

namespace Jobs

variable (j : Jobs)

def newJobs : Jobs := ⟨fun _ => none, [], fun _ => none, 0, [], 1000⟩

/-- A job as it is loaded: it replaces the older one of its id. -/
def put (job : Job) : Jobs :=
  { j with
    jobs := Function.update j.jobs job.id (some job)
    order := if j.jobs job.id = none then j.order ++ [job.id] else j.order
    idempotencyIndex :=
      if job.idempotencyKey ≠ [] then Function.update j.idempotencyIndex job.idempotencyKey (some job.id)
      else j.idempotencyIndex }

def set (job : Job) : Jobs := { j with jobs := Function.update j.jobs job.id (some job) }

@[simp] theorem set_self (job : Job) : (j.set job).jobs job.id = some job := Function.update_self ..

theorem set_of_ne {job : Job} {id : Bytes} (other : id ≠ job.id) : (j.set job).jobs id = j.jobs id :=
  Function.update_of_ne other ..

def submit (now : Time) (s : Submission) : Except JobError (Bytes ⊕ Job) :=
  match (if s.idempotencyKey ≠ [] then j.idempotencyIndex s.idempotencyKey else none) with
  | some existing => .ok (.inl existing)
  | none =>
    if 0 < j.maxActiveJobs ∧ j.maxActiveJobs ≤ j.order.countP (fun id => (j.jobs id).any fun job => job.status.active) then
      .error .limitExceeded
    else
      .ok (.inr ⟨s.id, s.serverID, s.action, s.target, s.actor, s.idempotencyKey, false, [], 0, .queued, [], now, zeroTime,
        zeroTime⟩)

def start (now : Time) (id : Bytes) : Except JobError Job :=
  match j.jobs id with
  | none => .error .notFound
  | some job =>
    if job.status ≠ .queued then .error .illegalTransition
    else .ok { job with status := .running, startedAt := now }

def complete (now : Time) (id : Bytes) (status : JobStatus) (errMsg : Option Bytes) : Except JobError Job :=
  match j.jobs id with
  | none => .error .notFound
  | some job =>
    if status.terminal = false then .error .illegalTransition
    else if job.status = .queued then .error .illegalTransition
    else if job.status.terminal then .error .illegalTransition
    else
      .ok { job with
        status := status
        completedAt := now
        error := if status = .failed then errMsg.getD job.error else job.error }

def setResult (id result : Bytes) : Except JobError Job :=
  match j.jobs id with
  | none => .error .notFound
  | some job => .ok { job with result := result }

def cancel (now : Time) (id errMsg : Bytes) : Except JobError Job :=
  match j.jobs id with
  | none => .error .notFound
  | some job =>
    if job.status ≠ .queued then .error .illegalTransition
    else .ok { job with status := .failed, completedAt := now, error := errMsg }

def timedOut (now : Time) (job : Job) : Option Job :=
  if job.status = .running ∧ 0 < j.timeout ∧ j.timeout < now - job.startedAt then
    some { job with status := .failed, completedAt := now, error := j.timeoutError }
  else none

/-- `checkTimeoutLocked`: a failed append is only logged. -/
def checkTimeout (now : Time) (id : Bytes) : Jobs :=
  match (j.jobs id).bind (j.timedOut now) with
  | some job => j.set job
  | none => j

def commit (written : Bool) (job : Job) : Jobs := if written then j.set job else j

/-- The time of completion is not put back but cleared. -/
def commitCancel (written : Bool) (job : Job) : Jobs :=
  if written then j.set job
  else
    match j.jobs job.id with
    | none => j
    | some old => j.set { old with completedAt := zeroTime }

end Jobs

structure JobResultMessage where
  jobID : Bytes
  status : JobStatus
  result : Bytes
  error : Bytes
  deriving DecidableEq, Repr

/-- `jobRunning` and `jobResult` are messages of an agent, with the server of its session. -/
inductive JobsRequest where
  | submit (s : Submission)
  | submitForce (s : Submission) (force : Bool)
  | submitWithTail (s : Submission) (tail : Int)
  | start (id : Bytes)
  | complete (id : Bytes) (status : JobStatus) (errMsg : Option Bytes)
  | setResult (id result : Bytes)
  | cancel (id errMsg : Bytes)
  | get (id : Bytes)
  | list
  | listByServer (serverID : Bytes)
  | jobRunning (serverID : Bytes) (res : JobResultMessage)
  | jobResult (serverID : Bytes) (res : JobResultMessage)
  deriving DecidableEq

inductive JobsCall where
  | request (request : JobsRequest)
  | setForce (id : Bytes) (force : Bool)
  | setTail (id : Bytes) (tail : Int)
  | start (id : Bytes)
  | setResult (id result : Bytes)
  | complete (id : Bytes) (status : JobStatus) (errMsg : Option Bytes)
  deriving DecidableEq

structure JobsSystem where
  jobs : Jobs
  now : Time
  calls : List JobsCall

/-- `advance` runs the next section of a call; `written` says whether its appends succeed. -/
inductive JobsEvent where
  | tick (passed : Nat)
  | call (request : JobsRequest)
  | advance (i : Nat) (written : Bool)

namespace JobsSystem

variable (s : JobsSystem)

def initial (timeout : Time) (timeoutError : Bytes) (maxActiveJobs : Int) (now : Time) : JobsSystem :=
  ⟨{ Jobs.newJobs with timeout := timeout, timeoutError := timeoutError, maxActiveJobs := maxActiveJobs }, now, []⟩

/-- The result of a submission: the jobs and the id that is returned. -/
def submitted (written : Bool) (sub : Submission) : Option Bytes × Jobs :=
  match s.jobs.submit s.now sub with
  | .error _ => (none, s.jobs)
  | .ok (.inl existing) => (some existing, s.jobs)
  | .ok (.inr job) => if written then (some job.id, s.jobs.put job) else (none, s.jobs)

def update (commit : Job → Jobs) : Except JobError Job → Jobs
  | .error _ => s.jobs
  | .ok job => commit job

def owned (jobs : Jobs) (serverID id : Bytes) : Option Job := (jobs.jobs id).filter fun job => job.serverID = serverID

/-- One section: the jobs after it and what is left of the call. -/
def serve (written : Bool) : JobsCall → Jobs × Option JobsCall
  | .request (.submit sub) => ((s.submitted written sub).2, none)
  | .request (.submitForce sub force) =>
    ((s.submitted written sub).2, (s.submitted written sub).1.map fun id => .setForce id force)
  | .request (.submitWithTail sub tail) =>
    ((s.submitted written sub).2, (s.submitted written sub).1.map fun id => .setTail id tail)
  | .request (.start id) | .start id => (s.update (s.jobs.commit written) (s.jobs.start s.now id), none)
  | .request (.complete id status errMsg) | .complete id status errMsg =>
    (s.update (s.jobs.commit written) (s.jobs.complete s.now id status errMsg), none)
  | .request (.setResult id result) => (s.update s.jobs.set (s.jobs.setResult id result), none)
  | .request (.cancel id errMsg) => (s.update (s.jobs.commitCancel written) (s.jobs.cancel s.now id errMsg), none)
  | .request (.get id) => (s.jobs.checkTimeout s.now id, none)
  | .request .list => (s.jobs.order.foldl (fun jobs id => jobs.checkTimeout s.now id) s.jobs, none)
  | .request (.listByServer serverID) =>
    (s.jobs.order.foldl (fun jobs id =>
      if (jobs.jobs id).any (fun job => job.serverID = serverID) then jobs.checkTimeout s.now id else jobs) s.jobs, none)
  | .request (.jobRunning serverID res) =>
    let jobs := s.jobs.checkTimeout s.now res.jobID
    (jobs, (owned jobs serverID res.jobID).map fun _ => .start res.jobID)
  | .request (.jobResult serverID res) =>
    let jobs := s.jobs.checkTimeout s.now res.jobID
    (jobs, (owned jobs serverID res.jobID).bind fun _ =>
      match res.status with
      | .succeeded => some (.setResult res.jobID res.result)
      | .failed => some (.complete res.jobID .failed (some res.error))
      | _ => none)
  | .setForce id force =>
    (match s.jobs.jobs id with
      | some job => s.jobs.set { job with force := force }
      | none => s.jobs, none)
  | .setTail id tail =>
    (match s.jobs.jobs id with
      | some job => s.jobs.set { job with tailLines := tail }
      | none => s.jobs, none)
  | .setResult id result =>
    (s.update s.jobs.set (s.jobs.setResult id result), some (.complete id .succeeded none))

def perform : JobsEvent → Option JobsSystem
  | .tick passed => some { s with now := s.now + passed }
  | .call request => some { s with calls := s.calls ++ [.request request] }
  | .advance i written =>
    match s.calls[i]? with
    | none => none
    | some call =>
      let (jobs, left) := s.serve written call
      some { s with
        jobs := jobs
        calls := match left with
          | some next => s.calls.set i next
          | none => s.calls.eraseIdx i }

def Steps (s : JobsSystem) (e : JobsEvent) (s' : JobsSystem) : Prop := s.perform e = some s'

end JobsSystem

end PocketKafka.Fleet
