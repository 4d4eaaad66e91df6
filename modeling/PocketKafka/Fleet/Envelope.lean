import PocketKafka.Fleet.Registry

namespace PocketKafka.Fleet

open Bytes Text

structure Crypto where
  sha256 : Bytes → Bytes
  hmac : Bytes → Bytes → Bytes

structure Envelope where
  protocolVersion : Int
  messageID : Bytes
  agentID : Bytes
  direction : Bytes
  issuedAt : Int
  expiry : Int
  op : Bytes
  bodySHA256 : Bytes
  hmac : Bytes
  payload : Bytes
  deriving DecidableEq, Repr

def agentToControl : Bytes := ascii "agent" ++ [0xe2, 0x86, 0x92] ++ ascii "control"

def controlToAgent : Bytes := ascii "control" ++ [0xe2, 0x86, 0x92] ++ ascii "agent"

def signingData (direction op bodySHA256 : Bytes) (issuedAt : Int) (messageID : Bytes) : Bytes :=
  direction ++ 10 :: (op ++ 10 :: (bodySHA256 ++ 10 :: (formatInt issuedAt ++ 10 :: messageID)))

def computeHMAC (crypto : Crypto) (key direction op bodySHA256 : Bytes) (issuedAt : Int) (messageID : Bytes) : Bytes :=
  crypto.hmac key (signingData direction op bodySHA256 issuedAt messageID)

def Envelope.expectedHMAC (crypto : Crypto) (key : Bytes) (env : Envelope) : Bytes :=
  computeHMAC crypto key env.direction env.op (crypto.sha256 env.payload) env.issuedAt env.messageID

inductive VerifyError where
  | version
  | crossEndpoint
  | expired
  | invalidTimestamp
  | invalidBodyHash
  | keyUnavailable (reason : RegistryError)
  | invalidHMAC
  | unauthorized (reason : RegistryError)
  | replay
  deriving DecidableEq, Repr

/-- A verifier may look agents up in the registry. `seen` holds until when a message is remembered. -/
structure Verifier where
  key : Bytes
  window : Time
  direction : Bytes
  registered : Bool
  seen : Bytes → Option Int

def newVerifier (key : Bytes) (window : Time) (direction : Bytes) (registered : Bool) : Verifier :=
  ⟨key, window, direction, registered, fun _ => none⟩

namespace Verifier

variable (crypto : Crypto) (registry : RegistryData) (v : Verifier) (now : Int) (env : Envelope)

def windowSeconds : Int := v.window.tdiv 1000000000

def checkTimes : Except VerifyError Unit :=
  if 0 < env.expiry ∧ env.expiry < now then .error .expired
  else if 0 < env.issuedAt ∧ now + 30 < env.issuedAt then .error .invalidTimestamp
  else if 0 < env.issuedAt ∧ 0 < v.window ∧ v.windowSeconds < now - env.issuedAt then .error .expired
  else .ok ()

def verificationKey : Except VerifyError Bytes :=
  if v.key = [] ∧ v.registered = true ∧ env.agentID ≠ [] then
    match registry.agentKey env.agentID with
    | .error reason => .error (.keyUnavailable reason)
    | .ok key => .ok key
  else .ok v.key

/-- The part of `Verify` in front of the replay cache. -/
def authenticate : Except VerifyError Unit :=
  if env.protocolVersion ≠ 0 ∧ env.protocolVersion ≠ 1 then .error .version
  else if v.direction ≠ [] ∧ env.direction ≠ [] ∧ env.direction ≠ v.direction then .error .crossEndpoint
  else
    match v.checkTimes now env with
    | .error e => .error e
    | .ok () =>
      if env.bodySHA256 ≠ [] ∧ env.bodySHA256 ≠ crypto.sha256 env.payload then .error .invalidBodyHash
      else
        match v.verificationKey registry env with
        | .error e => .error e
        | .ok key =>
          if env.hmac ≠ env.expectedHMAC crypto key then .error .invalidHMAC
          else if v.registered = true ∧ env.agentID ≠ [] then
            match registry.authorizeStream env.agentID with
            | .error reason => .error (.unauthorized reason)
            | .ok _ => .ok ()
          else .ok ()

def pruned : Bytes → Option Int := fun id => (v.seen id).filter fun expiry => now ≤ expiry

def remembered : Int := if env.expiry ≤ 0 then now + v.windowSeconds else env.expiry

def verify : Except VerifyError Unit × Verifier :=
  match v.authenticate crypto registry now env with
  | .error e => (.error e, v)
  | .ok () =>
    if (v.pruned now env.messageID).isSome then (.error .replay, { v with seen := v.pruned now })
    else (.ok (), { v with seen := Function.update (v.pruned now) env.messageID (some (v.remembered now env)) })

variable {crypto registry v now env}

theorem authenticate_ok (accepted : v.authenticate crypto registry now env = .ok ()) :
    (v.direction = [] ∨ env.direction = [] ∨ env.direction = v.direction) ∧
    (0 < env.issuedAt → 0 < v.window → now - env.issuedAt ≤ v.windowSeconds) ∧
    (∃ key, v.verificationKey registry env = .ok key ∧ env.hmac = env.expectedHMAC crypto key) ∧
    (v.registered = true → env.agentID ≠ [] → ∃ agent, registry.authorizeStream env.agentID = .ok agent) := by
  unfold authenticate at accepted
  split at accepted
  · cases accepted
  · split at accepted
    · cases accepted
    · rename_i direction
      split at accepted
      · cases accepted
      · rename_i times
        split at accepted
        · cases accepted
        · split at accepted
          · cases accepted
          · rename_i key found
            split at accepted
            · cases accepted
            · rename_i signed
              refine ⟨?_, ?_, ⟨key, found, not_not.mp signed⟩, ?_⟩
              · by_cases any : v.direction = []
                · exact .inl any
                · by_cases none : env.direction = []
                  · exact .inr (.inl none)
                  · exact .inr (.inr (not_not.mp fun other => direction ⟨any, none, other⟩))
              · intro issued limited
                by_contra late
                unfold checkTimes at times
                split at times
                · cases times
                · split at times
                  · cases times
                  · rw [if_pos ⟨issued, limited, by omega⟩] at times
                    cases times
              · intro registered named
                rw [if_pos ⟨registered, named⟩] at accepted
                split at accepted
                · cases accepted
                · exact ⟨_, by assumption⟩

end Verifier

end PocketKafka.Fleet
