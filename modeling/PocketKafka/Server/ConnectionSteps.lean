import PocketKafka.Server.Connection

namespace PocketKafka.Server

open Bytes Text Protocol Decoder

variable {crypto : Crypto} {cfg : Config}

inductive ConnState.Judged (crypto : Crypto) (cfg : Config) (st : ConnState) (auth : Bytes) : Answer → ConnState → Prop
  | rejected (resp : SaslAuthenticateResponse) : Judged crypto cfg st auth ⟨resp, false, true⟩ st
  | plain (resp : SaslAuthenticateResponse) {user : Bytes} (chosen : st.mechanism = Config.plain)
      (permitted : ¬ (cfg.requireTLSForPlain = true ∧ st.tls = false))
      (accepted : cfg.authenticatePlain crypto auth = some user) :
      Judged crypto cfg st auth ⟨resp, true, false⟩ { st with principal := user }
  | opened (resp : SaslAuthenticateResponse) {verifier : Verifier} {session : ScramSession} (chosen : st.UsesScram)
      (fresh : st.scram = none)
      (found : cfg.scramVerifierFor crypto session.mech (Server.scramUsername auth) = .ok verifier)
      (holds : session.verifier = verifier) :
      Judged crypto cfg st auth ⟨resp, false, false⟩
        { st with scram := some session, scramUsername := Server.scramUsername auth }
  | finished (resp : SaslAuthenticateResponse) {session : ScramSession} (chosen : st.UsesScram)
      (running : st.scram = some session) (proven : session.ProvenBy crypto auth) :
      Judged crypto cfg st auth ⟨resp, true, false⟩ { st with principal := st.scramUsername }

theorem ConnState.handleSCRAM_judged {st st' : ConnState} {version : Int} {auth : Bytes} {nonce : Option Bytes}
    {answer : Answer} (chosen : st.UsesScram)
    (done : st.handleSCRAM crypto cfg version auth nonce = .ok (answer, st')) :
    st.Judged crypto cfg auth answer st' := by
  simp only [handleSCRAM] at done
  split at done
  case h_1 fresh =>
    split at done
    · cases done
      exact .rejected _
    split at done
    · cases done
      exact .rejected _
    rename_i verifier found
    split at done
    · cases done
      exact .rejected _
    rename_i session serverFirst created
    cases done
    obtain ⟨rfl, holds⟩ := newScramSession_ok created
    exact .opened _ chosen fresh found holds
  case h_2 session running =>
    split at done
    · cases done
      exact .rejected _
    · cases done
    · rename_i final finished
      cases done
      exact .finished _ chosen running (ScramSession.finish_ok finished)

theorem ConnState.authenticate_judged {st st' : ConnState} {version : Int} {auth : Bytes} {nonce : Option Bytes}
    {answer : Answer} (done : st.authenticate crypto cfg version auth nonce = .ok (answer, st')) :
    st.Judged crypto cfg auth answer st' := by
  unfold authenticate at done
  split at done
  · cases done
    exact .rejected _
  split at done
  case isTrue chosen =>
    split at done
    · cases done
      exact .rejected _
    rename_i permitted
    split at done
    · rename_i accepted
      cases done
      exact .plain _ chosen permitted accepted
    · cases done
      exact .rejected _
  case isFalse =>
    split at done
    · rename_i chosen
      exact handleSCRAM_judged chosen done
    · cases done
      exact .rejected _

def authBytesOf (version : Int) (body : Bytes) : Option Bytes :=
  ((decode (decodeSaslAuthenticateRequest version) body).toOption).map fun req => req.authBytes.getD []

theorem ConnState.handleSASLAuthenticate_judged {st st' : ConnState} {version : Int} {body auth : Bytes}
    {nonce : Option Bytes} {answer : Answer}
    (done : st.handleSASLAuthenticate crypto cfg version body nonce = .ok (auth, answer, st')) :
    authBytesOf version body = some auth ∧ st.Judged crypto cfg auth answer st' := by
  simp only [handleSASLAuthenticate] at done
  unfold authBytesOf
  split at done
  · cases done
  rename_i req decoded
  rw [decoded]
  cases judged : st.authenticate crypto cfg version (req.authBytes.getD []) nonce with
  | error failure =>
    rw [judged] at done
    cases done
  | ok result =>
    rw [judged] at done
    cases done
    exact ⟨rfl, authenticate_judged judged⟩

/-- What is sent to an exchange: the bytes of a SaslAuthenticate request while a SCRAM mechanism is chosen. -/
def Conn.scramBytes (cfg : Config) (c : Conn) : Event → Option Bytes
  | .gone => none
  | .frame bytes _ _ =>
    match readRequestFrame bytes cfg.preAuthSize with
    | .error _ => none
    | .ok (hdr, body) =>
      if hdr.apiKey = apkSaslAuthenticate ∧ c.st.UsesScram then authBytesOf hdr.apiVersion body else none

inductive Conn.Steps (crypto : Crypto) (cfg : Config) (c : Conn) (e : Event) : Conn → Prop
  | idle (alive : Bool) (later : alive = true → c.alive = true) : Steps crypto cfg c e { c with alive := alive }
  | handled (hdr : RequestHeader) (body : Bytes) (alive : Bool) (later : alive = true → c.alive = true)
      (gate : c.st.authed = true ∨ hdr.apiKey = apkApiVersions) :
      Steps crypto cfg c e ⟨c.st, alive, .handled c.st.authed hdr body c.st.principal :: c.history⟩
  | chosen {mechanism : Bytes} (outside : c.st.authed = false)
      (offered : mechanism ∈ (cfg.supportedMechanisms c.st.tls).getD []) :
      Steps crypto cfg c e { c with st := { c.st with mechanism := mechanism } }
  | failed (outside : c.st.authed = false) (alive : Bool) (served : c.alive = true)
      (later : alive = true → c.st.saslFailures + 1 < maxSASLFailuresPerConn) :
      Steps crypto cfg c e ⟨{ c.st with authed := false, saslFailures := c.st.saslFailures + 1 }, alive,
        .failed :: c.history⟩
  | opened {auth : Bytes} {session : ScramSession} (outside : c.st.authed = false)
      (first : c.scramBytes cfg e = some auth)
      (found : cfg.scramVerifierFor crypto session.mech (scramUsername auth) = .ok session.verifier) :
      Steps crypto cfg c e { c with
        st := { c.st with authed := false, scram := some session, scramUsername := scramUsername auth } }
  | plain {auth user : Bytes} (outside : c.st.authed = false) (chosen : c.st.mechanism = Config.plain)
      (permitted : ¬ (cfg.requireTLSForPlain = true ∧ c.st.tls = false))
      (accepted : cfg.authenticatePlain crypto auth = some user) :
      Steps crypto cfg c e ⟨{ c.st with authed := true, principal := user }, c.alive,
        .authenticated c.st auth user :: c.history⟩
  | finished {auth : Bytes} {session : ScramSession} (outside : c.st.authed = false) (chosen : c.st.UsesScram)
      (final : c.scramBytes cfg e = some auth) (running : c.st.scram = some session)
      (proven : session.ProvenBy crypto auth) :
      Steps crypto cfg c e ⟨{ c.st with authed := true, principal := c.st.scramUsername }, c.alive,
        .authenticated c.st auth c.st.scramUsername :: c.history⟩

namespace Conn

variable {c : Conn} {e : Event}

theorem close_steps : c.Steps crypto cfg e c.close := .idle false nofun

theorem handle_steps {hdr : RequestHeader} {body : Bytes} {handleFails : Bool}
    (gate : c.st.authed = true ∨ hdr.apiKey = apkApiVersions) : c.Steps crypto cfg e (c.handle hdr body handleFails) := by
  unfold handle
  split
  · exact .handled hdr body false nofun gate
  · exact .handled hdr body c.alive id gate

theorem answered_steps {auth : Bytes} {answer : Answer} {st : ConnState} (outside : c.st.authed = false)
    (served : c.alive = true) (judged : c.st.Judged crypto cfg auth answer st)
    (sent : c.st.UsesScram → c.scramBytes cfg e = some auth) :
    c.Steps crypto cfg e (c.answered auth answer st) := by
  cases judged with
  | rejected resp =>
    show Steps crypto cfg c e (if _ ≤ _ then _ else _)
    split
    · exact .failed outside false served nofun
    · rename_i below
      exact .failed outside c.alive served fun _ => Nat.lt_of_not_le below
  | plain resp chosen permitted accepted => exact .plain outside chosen permitted accepted
  | opened resp chosen fresh found holds =>
    subst holds
    exact .opened outside (sent chosen) found
  | finished resp chosen running proven => exact .finished outside chosen (sent chosen) running proven

theorem unauthenticated_steps {bytes : Bytes} {hdr : RequestHeader} {body : Bytes} {nonce : Option Bytes}
    {handleFails : Bool} (outside : c.st.authed = false) (served : c.alive = true)
    (read : readRequestFrame bytes cfg.preAuthSize = .ok (hdr, body)) :
    c.Steps crypto cfg (.frame bytes nonce handleFails) (c.unauthenticated crypto cfg hdr body nonce handleFails) := by
  unfold unauthenticated
  split
  case isTrue key => exact handle_steps (Or.inr key)
  split
  · split
    · exact close_steps
    · rename_i chosen
      simp only [ConnState.handleSASLHandshake] at chosen
      split at chosen
      · cases chosen
      split at chosen
      · rename_i offered
        cases chosen
        exact .chosen outside offered
      · cases chosen
        exact .idle c.alive id
  split
  case isTrue key =>
    split
    · exact close_steps
    · rename_i auth answer st done
      obtain ⟨bytes, judged⟩ := ConnState.handleSASLAuthenticate_judged done
      apply answered_steps outside served judged
      intro chosen
      simp only [scramBytes, read]
      rw [if_pos ⟨key, chosen⟩]
      exact bytes
  case isFalse => exact close_steps

theorem step_steps (c : Conn) (e : Event) : c.Steps crypto cfg e (c.step crypto cfg e) := by
  cases e with
  | gone => exact close_steps
  | frame bytes nonce handleFails =>
    by_cases served : c.alive = true
    · simp only [step, if_pos served]
      split
      · exact close_steps
      · rename_i hdr body read
        split
        · rename_i authed
          exact handle_steps (Or.inl authed)
        · rename_i outside
          rw [if_neg outside] at read
          exact unauthenticated_steps (Bool.eq_false_iff.mpr outside) served read
    · simp only [step, if_neg served]
      exact .idle c.alive id

end Conn

end PocketKafka.Server
