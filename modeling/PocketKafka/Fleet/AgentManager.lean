import PocketKafka.Fleet.Envelope
import PocketKafka.Fleet.JobLifecycle
import PocketKafka.Fleet.RegistryRuns

namespace PocketKafka.Fleet

open Bytes Runs

/-- How the payloads of messages are written and read. `γ` is what is reported of a container. -/
structure Messages (γ : Type) where
  heartbeat : Bytes → Option (List γ)
  jobResult : Bytes → Option JobResultMessage
  dispatch : Job → Bytes

/-- An envelope as `Sign` makes it, `ttl` seconds before its end. -/
def sign (crypto : Crypto) (key direction op payload : Bytes) (now ttl : Int) (messageID : Bytes) : Envelope :=
  ⟨1, messageID, [], direction, now, now + ttl, op, crypto.sha256 payload,
    computeHMAC crypto key direction op (crypto.sha256 payload) now messageID, payload⟩

/-- A session keeps what the registry said of its agent when it was opened. -/
structure Session (γ : Type) where
  serverID : Bytes
  secret : Bytes
  verifier : Verifier
  containers : List γ

structure AgentManager (γ : Type) where
  registry : RegistryData
  jobs : Jobs
  sessions : Bytes → Option (Session γ)
  channels : List Bytes

inductive DispatchError where
  | revoked (reason : RegistryError)
  | noSession
  deriving DecidableEq, Repr

def seconds (now : Time) : Int := now.ediv 1000000000

namespace AgentManager

variable {γ : Type} (crypto : Crypto) (messages : Messages γ) (m : AgentManager γ)

def dispatchJob (now : Time) (messageID agentID : Bytes) (job : Job) : Except DispatchError Envelope :=
  match m.registry.authorizeStream agentID with
  | .error e => .error (.revoked e)
  | .ok _ =>
    match m.sessions agentID with
    | none => .error .noSession
    | some session =>
      let env :=
        sign crypto session.secret controlToAgent (ascii "job.dispatch") (messages.dispatch job) (seconds now) 60 messageID
      .ok { env with agentID := agentID }

end AgentManager

end PocketKafka.Fleet
