import PocketKafka.Server.Gate

namespace PocketKafka.Server

open Bytes Text Protocol Decoder Runs Conn

variable {crypto : Crypto} {cfg : Config}

/-- The bytes show a credential that is configured for the user: the password, or a proof by the key of the user's
    verifier. -/
inductive Shows (crypto : Crypto) (cfg : Config) (st : ConnState) (auth : Bytes) (user : SecurityUser) : Prop
  | password (chosen : st.mechanism = Config.plain) {identity password : Bytes}
      (token : splitN 0 3 auth = [identity, user.username, password]) (set : user.stored ≠ [])
      (correct : passwordMatches crypto user.stored password = true)
  | proof {session : ScramSession} (running : st.scram = some session)
      (verifier : cfg.verifierOf crypto session.mech user = .ok session.verifier)
      (proven : session.ProvenBy crypto auth)

def Legitimate (crypto : Crypto) (cfg : Config) (st : ConnState) (auth principal : Bytes) : Prop :=
  ∃ user ∈ cfg.users, user.username = principal ∧ Shows crypto cfg st auth user

theorem findUser_some {username : Bytes} {user : SecurityUser} (found : cfg.findUser username = some user) :
    user ∈ cfg.users ∧ user.username = username := by
  have test := List.find?_some found
  exact ⟨List.mem_of_find?_eq_some found, of_decide_eq_true test⟩

theorem legitimate_plain {st : ConnState} {auth principal : Bytes} (chosen : st.mechanism = Config.plain)
    (accepted : cfg.authenticatePlain crypto auth = some principal) : Legitimate crypto cfg st auth principal := by
  unfold Config.authenticatePlain at accepted
  split at accepted
  case h_2 => cases accepted
  rename_i identity username password token
  split at accepted
  · cases accepted
  rename_i user found
  split at accepted
  · cases accepted
  rename_i empty
  split at accepted
  case isFalse => cases accepted
  rename_i correct
  cases accepted
  have test := List.find?_some found
  have named := of_decide_eq_true test
  refine ⟨user, List.mem_of_find?_eq_some found, named.1, .password chosen (named.1 ▸ token) ?_ correct⟩
  intro blank
  apply empty
  unfold SecurityUser.stored at blank
  split at blank
  · rename_i none
    exact ⟨none, blank⟩
  · contradiction

/-- An exchange that is under way was opened with the verifier of the name it is for. -/
def Exchanging (crypto : Crypto) (cfg : Config) (st : ConnState) : Prop :=
  ∀ session, st.scram = some session →
    cfg.scramVerifierFor crypto session.mech st.scramUsername = .ok session.verifier

/-- What a client sends to an exchange for a name that is not configured is no proof by the key of the decoy. -/
def ProvesNoDecoy (crypto : Crypto) (cfg : Config) (c : Conn) (e : Event) : Prop :=
  ∀ session ∈ c.st.scram, cfg.findUser c.st.scramUsername = none → ∀ auth ∈ c.scramBytes cfg e,
    ∀ decoy ∈ (cfg.decoyVerifier crypto session.mech c.st.scramUsername).toOption,
      ¬ { session with verifier := decoy }.ProvenBy crypto auth

instance (cfg : Config) (c : Conn) (e : Event) : Decidable (ProvesNoDecoy crypto cfg c e) :=
  inferInstanceAs (Decidable (∀ session ∈ c.st.scram, cfg.findUser c.st.scramUsername = none →
    ∀ auth ∈ c.scramBytes cfg e, ∀ decoy ∈ (cfg.decoyVerifier crypto session.mech c.st.scramUsername).toOption,
      ¬ { session with verifier := decoy }.ProvenBy crypto auth))

theorem Exchanging.configured {c : Conn} {e : Event} {session : ScramSession} {auth : Bytes}
    (h : Exchanging crypto cfg c.st) (secret : ProvesNoDecoy crypto cfg c e) (running : c.st.scram = some session)
    (sent : c.scramBytes cfg e = some auth) (proven : session.ProvenBy crypto auth) :
    ∃ user, cfg.findUser c.st.scramUsername = some user ∧
      cfg.verifierOf crypto session.mech user = .ok session.verifier := by
  have verifier := h session running
  rw [Config.scramVerifierFor] at verifier
  cases known : cfg.findUser c.st.scramUsername with
  | some user =>
    rw [known] at verifier
    exact ⟨user, rfl, verifier⟩
  | none =>
    simp only [known] at verifier
    have decoy : session.verifier ∈ (cfg.decoyVerifier crypto session.mech c.st.scramUsername).toOption := by
      rw [verifier]
      rfl
    exact absurd proven (secret session running known auth sent _ decoy)

def Earned (crypto : Crypto) (cfg : Config) (_ : List Action) : Action → Prop
  | .authenticated st auth principal => Legitimate crypto cfg st auth principal
  | _ => True

structure Sound (crypto : Crypto) (cfg : Config) (c : Conn) : Prop where
  exchanging : Exchanging crypto cfg c.st
  earned : Justified (Earned crypto cfg) c.history

theorem accept_sound (peer : Peer) (allowed : Bool) : Sound crypto cfg (accept cfg peer allowed) := by
  refine ⟨?_, trivial⟩
  intro session running
  have none : (accept cfg peer allowed).st.scram = none := by
    simp only [accept]
    split <;> rfl
  rw [none] at running
  cases running

variable {c c' : Conn} {e : Event}

theorem Sound.next (h : Sound crypto cfg c) (secret : ProvesNoDecoy crypto cfg c e)
    (step : c.Steps crypto cfg e c') : Sound crypto cfg c' := by
  cases step with
  | idle | chosen => exact ⟨h.exchanging, h.earned⟩
  | handled | failed => exact ⟨h.exchanging, trivial, h.earned⟩
  | opened outside first found =>
    refine ⟨?_, h.earned⟩
    intro session running
    cases running
    exact found
  | plain outside chosen permitted accepted =>
    exact ⟨h.exchanging, legitimate_plain chosen accepted, h.earned⟩
  | finished outside chosen final running proven =>
    refine ⟨h.exchanging, ?_, h.earned⟩
    obtain ⟨user, known, verifier⟩ := h.exchanging.configured secret running final proven
    obtain ⟨member, named⟩ := findUser_some known
    exact ⟨user, member, named, .proof running verifier proven⟩

def attempt (auth : Bytes) (nonce : Option Bytes) : Event :=
  .frame (requestFrame ⟨apkSaslAuthenticate, 0, 3, []⟩ (encodeSaslAuthenticateRequest ⟨0, some auth⟩).bytes) nonce false

def handshake : Event :=
  .frame (requestFrame ⟨apkSaslHandshake, 1, 2, []⟩
    (encodeSASLHandshakeRequest ⟨1, ascii "SCRAM-SHA-256"⟩).bytes) none false

def clientFirst : Bytes := ascii "n,,n=eve,r=abc"

def impostor : List Event :=
  [handshake, attempt clientFirst (some (ascii "xyz")), attempt (ascii "c=biws,r=abcxyz,p=AAAA") none] ++ plainClient

theorem sasl_sound {peer : Peer} {allowed : Bool} {c : Conn} (enabled : cfg.enabled = true)
    (uncertified : peer.certPrincipal = [])
    (run : Follows crypto cfg (ProvesNoDecoy crypto cfg) (accept cfg peer allowed) c) :
    (c.st.authed = true → ∃ st auth, .authenticated st auth c.st.principal ∈ c.history) ∧
    ∀ st auth principal, .authenticated st auth principal ∈ c.history → Legitimate crypto cfg st auth principal := by
  have sound : Sound crypto cfg c := by
    have start : Sound crypto cfg (accept cfg peer allowed) := accept_sound peer allowed
    apply run.invariant start
    intro c e _ h secret done
    rw [← done]
    exact h.next secret (step_steps c e)
  constructor
  · intro authed
    have gated := Follows.gated run (accept_gated enabled allowed)
    cases gated.vouched authed with
    | inl certified =>
      obtain ⟨named, same⟩ := certified
      rw [uncertified] at same
      exact absurd same.symm named
    | inr exchange => exact exchange
  · intro st auth principal member
    obtain ⟨_, earned⟩ := sound.earned.mem member
    exact earned

theorem sasl_sound_impostor :
    ∃ c, Follows constantCrypto oneUser (ProvesNoDecoy constantCrypto oneUser) (accept oneUser (.tls []) true) c ∧
      (c.st.authed = true ∧ .failed ∈ c.history) ∧
      (c.st.authed = true → ∃ st auth, .authenticated st auth c.st.principal ∈ c.history) ∧
      ∀ st auth principal, .authenticated st auth principal ∈ c.history →
        Legitimate constantCrypto oneUser st auth principal := by
  have reached : ∃ c, Follows constantCrypto oneUser (ProvesNoDecoy constantCrypto oneUser)
      (accept oneUser (.tls []) true) c ∧ (c.st.authed = true ∧ .failed ∈ c.history) :=
    exists_reaches impostor (steps_of_next constantCrypto oneUser) (by decide +kernel)
  obtain ⟨c, run, shape⟩ := reached
  exact ⟨c, run, shape, sasl_sound rfl rfl run⟩

theorem step_request {c : Conn} {hdr : RequestHeader} {body : Bytes} {nonce : Option Bytes} {handleFails : Bool}
    (served : c.alive = true) (outside : c.st.authed = false)
    (typed : Writer.InRange
      (.seq [[.int16 hdr.apiKey], [.int16 hdr.apiVersion], [.int32 hdr.correlationID], [.string hdr.clientID]]))
    (fits : ¬ (0 < cfg.preAuthSize ∧ cfg.preAuthSize < (requestFrame hdr body).length)) :
    c.step crypto cfg (.frame (requestFrame hdr body) nonce handleFails) =
      c.unauthenticated crypto cfg hdr body nonce handleFails := by
  simp only [step, served, outside, if_pos, if_neg Bool.false_ne_true, readRequestFrame_requestFrame typed fits]

theorem handleSASLAuthenticate_encoded {st : ConnState} {version : Int} {auth : Bytes} (short : auth.length < 2147483648)
    (nonce : Option Bytes) :
    st.handleSASLAuthenticate crypto cfg version (encodeSaslAuthenticateRequest ⟨version, some auth⟩).bytes nonce =
      (st.authenticate crypto cfg version auth nonce).map fun done => (auth, done) := by
  have typed : Writer.InRange (encodeSaslAuthenticateRequest ⟨version, some auth⟩) := by
    intro f member
    rw [List.mem_singleton.mp member]
    exact short
  have decoded : decode (decodeSaslAuthenticateRequest version) (encodeSaslAuthenticateRequest ⟨version, some auth⟩).bytes =
      .ok ⟨version, some auth⟩ := Decoder.Recovers.decode ((recovers_bytes _).map _) typed
  simp only [ConnState.handleSASLAuthenticate, decoded, Option.getD_some]

theorem step_attempt {c : Conn} {auth : Bytes} {nonce : Option Bytes} {answer : Answer} {st : ConnState}
    (served : c.alive = true) (outside : c.st.authed = false) (short : auth.length < 65000)
    (fits : 65536 ≤ cfg.preAuthSize)
    (judged : c.st.authenticate crypto cfg 0 auth nonce = .ok (answer, st)) :
    c.step crypto cfg (attempt auth nonce) = c.answered auth answer st := by
  have size : (requestFrame ⟨apkSaslAuthenticate, 0, 3, []⟩
      (encodeSaslAuthenticateRequest ⟨0, some auth⟩).bytes).length = 14 + auth.length := by
    simp [requestFrame, encodeSaslAuthenticateRequest, Writer.bytes, Writer.seq, Field.written, writeInt16, writeInt32]
    omega
  rw [attempt, step_request served outside (by decide) (by omega), unauthenticated, if_neg (by decide),
    if_neg (by decide), if_pos rfl, handleSASLAuthenticate_encoded (by omega), judged]
  rfl

def decoyKey (crypto : Crypto) : Bytes :=
  crypto.hmacSum .sha256
    (crypto.pbkdf2 .sha256 (ascii "pocketkafka-decoy-eve") (oneUser.scramSalt crypto .sha256 (ascii "eve")) 15000 32)
    (ascii "Client Key")

theorem eve_missing : oneUser.findUser (ascii "eve") = none := by decide +kernel

theorem exists_decoyVerifier (crypto : Crypto) :
    ∃ v, oneUser.scramVerifierFor crypto .sha256 (ascii "eve") = .ok v ∧ v.mechanism = .sha256 ∧
      v.storedKey = crypto.hash .sha256 (decoyKey crypto) := by
  rw [Config.scramVerifierFor, eve_missing]
  exact ⟨_, rfl, rfl, rfl⟩

theorem handshake_done (crypto : Crypto) :
    (accept oneUser .plain true).step crypto oneUser handshake =
      ⟨⟨false, [], ascii "SCRAM-SHA-256", none, [], false, 0⟩, true, []⟩ := by
  have chosen : (accept oneUser .plain true).st.handleSASLHandshake oneUser 1
      (encodeSASLHandshakeRequest ⟨1, ascii "SCRAM-SHA-256"⟩).bytes =
        .ok (⟨1, 0, some [ascii "SCRAM-SHA-256", ascii "SCRAM-SHA-512"]⟩,
          ⟨false, [], ascii "SCRAM-SHA-256", none, [], false, 0⟩) := by
    decide +kernel
  rw [handshake, step_request rfl rfl (by decide) (by decide), unauthenticated, if_neg (by decide), if_pos rfl, chosen]
  rfl

theorem authenticate_scram {st : ConnState} {version : Int} {auth : Bytes} {nonce : Option Bytes} (chosen : st.UsesScram) :
    st.authenticate crypto cfg version auth nonce = st.handleSCRAM crypto cfg version auth nonce := by
  have named : st.mechanism ≠ [] ∧ st.mechanism ≠ Config.plain := by
    cases chosen with
    | inl same | inr same =>
      rw [same]
      decide
  rw [ConnState.authenticate, if_neg named.1, if_neg named.2, if_pos chosen]

theorem clientFirst_answered {crypto : Crypto} {session : ScramSession} {serverFirst : Bytes}
    (found : oneUser.scramVerifierFor crypto .sha256 (ascii "eve") = .ok session.verifier)
    (created : newScramSession .sha256 session.verifier clientFirst (some (ascii "xyz")) = .ok (session, serverFirst)) :
    Conn.step crypto oneUser ⟨⟨false, [], ascii "SCRAM-SHA-256", none, [], false, 0⟩, true, []⟩
        (attempt clientFirst (some (ascii "xyz"))) =
      ⟨⟨false, [], ascii "SCRAM-SHA-256", some session, ascii "eve", false, 0⟩, true, []⟩ := by
  have mech : mechanismByName (ascii "SCRAM-SHA-256") = some .sha256 := by decide +kernel
  have name : scramUsername clientFirst = ascii "eve" := by decide +kernel
  have judged : ConnState.authenticate crypto oneUser ⟨false, [], ascii "SCRAM-SHA-256", none, [], false, 0⟩ 0 clientFirst
      (some (ascii "xyz")) = .ok (⟨⟨0, 0, none, serverFirst, 0⟩, false, false⟩,
        ⟨false, [], ascii "SCRAM-SHA-256", some session, ascii "eve", false, 0⟩) := by
    rw [authenticate_scram (Or.inl rfl)]
    simp only [ConnState.handleSCRAM, mech, name, found, created]
  rw [step_attempt rfl rfl (by decide) (by decide) judged]
  rfl

theorem clientFinal_answered {crypto : Crypto} {session : ScramSession} {auth out : Bytes} (short : auth.length < 65000)
    (finished : session.finish crypto auth = .ok out) :
    Settled (ascii "eve")
      (Conn.step crypto oneUser ⟨⟨false, [], ascii "SCRAM-SHA-256", some session, ascii "eve", false, 0⟩, true, []⟩
        (attempt auth none)) := by
  have judged : ConnState.authenticate crypto oneUser
      ⟨false, [], ascii "SCRAM-SHA-256", some session, ascii "eve", false, 0⟩ 0 auth none =
        .ok (⟨⟨0, 0, none, out, 0⟩, true, false⟩,
          ⟨false, ascii "eve", ascii "SCRAM-SHA-256", some session, ascii "eve", false, 0⟩) := by
    rw [authenticate_scram (Or.inl rfl)]
    simp only [ConnState.handleSCRAM, finished]
  rw [step_attempt rfl rfl short (by decide) judged]
  exact ⟨rfl, rfl⟩

/-- A client that knows how decoys are made authenticates as a user that does not exist. -/
theorem decoy_authenticates :
    oneUser.findUser (ascii "eve") = none ∧ ∀ crypto : Crypto, ∃ events : List Event,
      Settled (ascii "eve") (events.foldl (Conn.step crypto oneUser) (accept oneUser .plain true)) := by
  refine ⟨eve_missing, ?_⟩
  intro crypto
  obtain ⟨v, found, kind, stored⟩ := exists_decoyVerifier crypto
  obtain ⟨session, serverFirst, created, mech, rfl, own, drawn⟩ :=
    exists_newScramSession .sha256 v (ascii "xyz") (show scramNonce clientFirst ≠ [] by decide +kernel)
  have nonce : session.clientNonce ++ session.serverNonce = ascii "abcxyz" := by
    rw [own, drawn]
    decide +kernel
  have keySize : (decoyKey crypto).length = session.mech.keySize := by
    rw [mech]
    exact crypto.hmacSum_length _ _ _
  have same : session.verifier.mechanism = session.mech := kind.trans mech.symm
  obtain ⟨out, finished⟩ := ScramSession.finish_clientFinal same keySize (by rw [stored, mech])
    (by rw [nonce]; decide)
  have short : (session.clientFinal crypto (decoyKey crypto)).length < 65000 := by
    have size : (session.proof crypto (decoyKey crypto)).length = _ := ScramSession.proof_length same keySize
    rw [mech] at size
    rw [ScramSession.clientFinal, ScramSession.withoutProof, nonce]
    simp only [List.length_append, List.length_cons, Base64.encode_length, size]
    decide
  refine ⟨[handshake, attempt clientFirst (some (ascii "xyz")),
    attempt (session.clientFinal crypto (decoyKey crypto)) none], ?_⟩
  rw [List.foldl_cons, handshake_done, List.foldl_cons, clientFirst_answered found created, List.foldl_cons]
  exact clientFinal_answered short finished

end PocketKafka.Server
