import PocketKafka.Lib.Runs
import PocketKafka.Protocol.Client
import PocketKafka.Server.Scram

namespace PocketKafka.Server

open Bytes Text Protocol Decoder

structure SecurityUser where
  username : Bytes
  password : Bytes
  passwordHash : Bytes
  scramVerifier : Bytes
  deriving DecidableEq, Repr

structure Config where
  enabled : Bool
  requireTLSForPlain : Bool
  users : List SecurityUser
  scramIterations : Int
  authSecret : Bytes
  maxReqSize : Int
  preAuthSize : Int
  deriving DecidableEq, Repr

structure ConnState where
  authed : Bool
  principal : Bytes
  mechanism : Bytes
  scram : Option ScramSession
  scramUsername : Bytes
  tls : Bool
  saslFailures : Nat
  deriving DecidableEq, Repr

def maxSASLFailuresPerConn : Nat := 3

def errIllegalSaslState : Int := 34

def errSaslAuthenticationFailed : Int := 58

structure RequestHeader where
  apiKey : Int
  apiVersion : Int
  correlationID : Int
  clientID : Bytes
  deriving DecidableEq, Repr

def decodeRequestHeader : Decoder RequestHeader := do
  let apiKey ← readInt16
  let apiVersion ← readInt16
  let correlationID ← readInt32
  let clientID ← readString
  pure ⟨apiKey, apiVersion, correlationID, clientID⟩

def readRequestFrame (frame : Bytes) (maxSize : Int) : Except Failure (RequestHeader × Bytes) :=
  if frame.length = 0 then .error (.error s!"invalid frame length {frame.length}")
  else if 0 < maxSize ∧ maxSize < frame.length then
    .error (.error s!"frame length {frame.length} exceeds max {maxSize}")
  else (decodeRequestHeader ⟨frame, 0⟩).map fun (hdr, r) => (hdr, frame.drop r.off)

def requestFrame (hdr : RequestHeader) (body : Bytes) : Bytes :=
  (Writer.seq [[.int16 hdr.apiKey], [.int16 hdr.apiVersion], [.int32 hdr.correlationID], [.string hdr.clientID]]).bytes
    ++ body

theorem recovers_requestHeader (hdr : RequestHeader) :
    Recovers decodeRequestHeader
      (.seq [[.int16 hdr.apiKey], [.int16 hdr.apiVersion], [.int32 hdr.correlationID], [.string hdr.clientID]]) hdr :=
  .next (recovers_int16 _) <| .next (recovers_int16 _) <| .next (recovers_int32 _) <| .next (recovers_string _) <|
  recovers_done _

theorem readRequestFrame_requestFrame {hdr : RequestHeader} {body : Bytes} {maxSize : Int}
    (typed : Writer.InRange
      (.seq [[.int16 hdr.apiKey], [.int16 hdr.apiVersion], [.int32 hdr.correlationID], [.string hdr.clientID]]))
    (fits : ¬ (0 < maxSize ∧ maxSize < (requestFrame hdr body).length)) :
    readRequestFrame (requestFrame hdr body) maxSize = .ok (hdr, body) := by
  have read := recovers_requestHeader hdr typed [] body
  rw [List.nil_append, List.length_nil, Nat.zero_add] at read
  have some : 0 < (requestFrame hdr body).length := by
    rw [requestFrame, List.length_append]
    apply Nat.lt_of_lt_of_le _ (Nat.le_add_right _ _)
    exact Nat.zero_lt_succ _
  rw [readRequestFrame, if_neg (by omega), if_neg fits, requestFrame, read]
  show Except.ok (hdr, _) = _
  rw [List.drop_left]

def SecurityUser.stored (user : SecurityUser) : Bytes := if user.password = [] then user.passwordHash else user.password

namespace Config

variable (crypto : Crypto) (cfg : Config)

def plain : Bytes := ascii "PLAIN"

def supportedMechanisms (encrypted : Bool) : Option (List Bytes) :=
  if !cfg.enabled then none
  else if cfg.requireTLSForPlain && !encrypted then some [ascii "SCRAM-SHA-256", ascii "SCRAM-SHA-512"]
  else some [plain, ascii "SCRAM-SHA-256", ascii "SCRAM-SHA-512"]

def findUser (username : Bytes) : Option SecurityUser := cfg.users.find? fun u => decide (u.username = username)

def scramSalt (mech : Mechanism) (username : Bytes) : Bytes :=
  (crypto.hmacSum .sha256 cfg.authSecret
    (ascii "pocketkafka-scram-salt|" ++ mech.name ++ ascii "|" ++ username)).take 32

def iterations : Int := if 0 < cfg.scramIterations then cfg.scramIterations else defaultSCRAMIterations

/-- The verifier of a configured user, derived from the password if none is stored. -/
def verifierOf (mech : Mechanism) (user : SecurityUser) : Except String Verifier :=
  let salt := cfg.scramSalt crypto mech user.username
  if user.scramVerifier ≠ [] then
    match parseVerifier user.scramVerifier with
    | .error text => .error text
    | .ok v =>
      if v.mechanism.name ≠ mech.name then .error "stored SCRAM verifier is of another mechanism"
      else
        match deriveVerifier crypto mech (ascii "pocketkafka-step1-padding-" ++ user.username) salt v.iterations with
        | .error text => .error text
        | .ok _ => .ok v
  else if user.password ≠ [] then deriveVerifier crypto mech user.password salt cfg.iterations
  else .error "user has no SCRAM credential"

/-- The verifier that stands in for a missing user. -/
def decoyVerifier (mech : Mechanism) (username : Bytes) : Except String Verifier :=
  deriveVerifier crypto mech (ascii "pocketkafka-decoy-" ++ username) (cfg.scramSalt crypto mech username) cfg.iterations

def scramVerifierFor (mech : Mechanism) (username : Bytes) : Except String Verifier :=
  match cfg.findUser username with
  | none => cfg.decoyVerifier crypto mech username
  | some user => cfg.verifierOf crypto mech user

def authenticatePlain (token : Bytes) : Option Bytes :=
  match splitN 0 3 token with
  | [_, username, password] =>
    match cfg.users.find? (fun u => decide (u.username = username ∧ u.username ≠ [])) with
    | none => none
    | some u =>
      if u.password = [] ∧ u.passwordHash = [] then none
      else if passwordMatches crypto u.stored password then some username
      else none
  | _ => none

end Config

structure Answer where
  resp : SaslAuthenticateResponse
  ok : Bool
  failed : Bool
  deriving DecidableEq, Repr

def saslReject (version : Int) (reason : String) : Answer :=
  ⟨⟨version, errSaslAuthenticationFailed, some (ascii reason), [], 0⟩, false, true⟩

namespace ConnState

variable (crypto : Crypto) (cfg : Config) (st : ConnState)

def UsesScram : Prop := st.mechanism = ascii "SCRAM-SHA-256" ∨ st.mechanism = ascii "SCRAM-SHA-512"

instance : Decidable st.UsesScram :=
  inferInstanceAs (Decidable (st.mechanism = ascii "SCRAM-SHA-256" ∨ st.mechanism = ascii "SCRAM-SHA-512"))

def handleSASLHandshake (version : Int) (body : Bytes) : Except Failure (SASLHandshakeResponse × ConnState) :=
  match decode (decodeSASLHandshakeRequest version) body with
  | .error failure => .error failure
  | .ok req =>
    let offered := cfg.supportedMechanisms st.tls
    if req.mechanism ∈ offered.getD [] then .ok (⟨version, 0, offered⟩, { st with mechanism := req.mechanism })
    else .ok (⟨version, errIllegalSaslState, offered⟩, st)

def handleSCRAM (version : Int) (msg : Bytes) (nonce : Option Bytes) : Except Failure (Answer × ConnState) :=
  match st.scram with
  | none =>
    match mechanismByName st.mechanism with
    | none => .ok (saslReject version "unsupported SASL mechanism", st)
    | some mech =>
      let username := Server.scramUsername msg
      match cfg.scramVerifierFor crypto mech username with
      | .error _ => .ok (saslReject version "authentication failed", st)
      | .ok verifier =>
        match newScramSession mech verifier msg nonce with
        | .error _ => .ok (saslReject version "authentication failed", st)
        | .ok (session, serverFirst) =>
          .ok (⟨⟨version, 0, none, serverFirst, 0⟩, false, false⟩,
            { st with scram := some session, scramUsername := username })
  | some session =>
    match session.finish crypto msg with
    | .error (.error _) => .ok (saslReject version "authentication failed", st)
    | .error failure => .error failure
    | .ok final => .ok (⟨⟨version, 0, none, final, 0⟩, true, false⟩, { st with principal := st.scramUsername })

def authenticate (version : Int) (authBytes : Bytes) (nonce : Option Bytes) : Except Failure (Answer × ConnState) :=
  if st.mechanism = [] then .ok (saslReject version "SASL handshake required before authentication", st)
  else if st.mechanism = Config.plain then
    if cfg.requireTLSForPlain = true ∧ st.tls = false then
      .ok (saslReject version "SASL/PLAIN requires TLS: use SCRAM or connect over the TLS listener", st)
    else
      match cfg.authenticatePlain crypto authBytes with
      | some user => .ok (⟨⟨version, 0, none, [], 0⟩, true, false⟩, { st with principal := user })
      | none => .ok (saslReject version "SASL authentication failed", st)
  else if st.UsesScram then st.handleSCRAM crypto cfg version authBytes nonce
  else .ok (saslReject version "no SASL mechanism selected", st)

def handleSASLAuthenticate (version : Int) (body : Bytes) (nonce : Option Bytes) :
    Except Failure (Bytes × Answer × ConnState) :=
  match decode (decodeSaslAuthenticateRequest version) body with
  | .error failure => .error failure
  | .ok req =>
    let authBytes := req.authBytes.getD []
    (st.authenticate crypto cfg version authBytes nonce).map fun done => (authBytes, done)

end ConnState

inductive Action where
  | handled (authed : Bool) (hdr : RequestHeader) (body principal : Bytes)
  | authenticated (st : ConnState) (authBytes principal : Bytes)
  | failed
  deriving DecidableEq, Repr

structure Conn where
  st : ConnState
  alive : Bool
  history : List Action
  deriving DecidableEq, Repr

inductive Event where
  | frame (bytes : Bytes) (nonce : Option Bytes) (handleFails : Bool)
  | gone
  deriving DecidableEq, Repr

inductive Peer where
  | plain
  | tls (certPrincipal : Bytes)
  deriving DecidableEq, Repr

def Peer.certPrincipal : Peer → Bytes
  | .plain => []
  | .tls principal => principal

def Peer.isTLS : Peer → Bool
  | .plain => false
  | .tls _ => true

namespace Conn

variable (crypto : Crypto) (cfg : Config)

/-- The start of `handleConn`. A source in backoff is not served. -/
def accept (peer : Peer) (allowed : Bool) : Conn where
  st :=
    if peer.certPrincipal ≠ [] then ⟨true, peer.certPrincipal, ascii "mTLS", none, [], peer.isTLS, 0⟩
    else ⟨!cfg.enabled, [], [], none, [], peer.isTLS, 0⟩
  alive := !cfg.enabled || allowed
  history := []

def close (c : Conn) : Conn := { c with alive := false }

def record (c : Conn) (action : Action) : Conn := { c with history := action :: c.history }

def handle (c : Conn) (hdr : RequestHeader) (body : Bytes) (handleFails : Bool) : Conn :=
  let c := c.record (.handled c.st.authed hdr body c.st.principal)
  if handleFails then c.close else c

def answered (c : Conn) (authBytes : Bytes) (answer : Answer) (st : ConnState) : Conn :=
  if answer.failed then
    let c := { c with st := { st with authed := answer.ok, saslFailures := st.saslFailures + 1 } }.record .failed
    if maxSASLFailuresPerConn ≤ st.saslFailures + 1 then c.close else c
  else if answer.ok then { c with st := { st with authed := true } }.record (.authenticated c.st authBytes st.principal)
  else { c with st := { st with authed := false } }

def unauthenticated (c : Conn) (hdr : RequestHeader) (body : Bytes) (nonce : Option Bytes) (handleFails : Bool) : Conn :=
  if hdr.apiKey = apkApiVersions then c.handle hdr body handleFails
  else if hdr.apiKey = apkSaslHandshake then
    match c.st.handleSASLHandshake cfg hdr.apiVersion body with
    | .error _ => c.close
    | .ok (_, st) => { c with st := st }
  else if hdr.apiKey = apkSaslAuthenticate then
    match c.st.handleSASLAuthenticate crypto cfg hdr.apiVersion body nonce with
    | .error _ => c.close
    | .ok (authBytes, answer, st) => c.answered authBytes answer st
  else c.close

def step (c : Conn) : Event → Conn
  | .gone => c.close
  | .frame bytes nonce handleFails =>
    if c.alive then
      match readRequestFrame bytes (if c.st.authed then cfg.maxReqSize else cfg.preAuthSize) with
      | .error _ => c.close
      | .ok (hdr, body) =>
        if c.st.authed then c.handle hdr body handleFails else c.unauthenticated crypto cfg hdr body nonce handleFails
    else c

end Conn

end PocketKafka.Server
