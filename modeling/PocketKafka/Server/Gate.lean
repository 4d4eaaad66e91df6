import PocketKafka.Server.ConnectionSteps

namespace PocketKafka.Server

open Bytes Protocol Runs

namespace Conn

abbrev Follows (crypto : Crypto) (cfg : Config) (guard : Conn → Event → Prop) : Conn → Conn → Prop :=
  Reaches guard fun c e c' => c.step crypto cfg e = c'

abbrev anything : Conn → Event → Prop := fun _ _ => True

def next (crypto : Crypto) (cfg : Config) (c : Conn) (e : Event) : Option Conn := some (c.step crypto cfg e)

theorem steps_of_next (crypto : Crypto) (cfg : Config) (c : Conn) (e : Event) (c' : Conn)
    (done : c.next crypto cfg e = some c') : c.step crypto cfg e = c' := Option.some.inj done

/-- Someone stands behind a principal: the certificate of the connection, or an exchange on it. -/
def Vouched (peer : Peer) (actions : List Action) (principal : Bytes) : Prop :=
  (principal ≠ [] ∧ peer.certPrincipal = principal) ∨ ∃ st auth, .authenticated st auth principal ∈ actions

/-- What an action needs, given the actions before it. -/
def Due (cfg : Config) (peer : Peer) (earlier : List Action) : Action → Prop
  | .handled authed hdr _ principal =>
    (authed = false → hdr.apiKey = apkApiVersions) ∧ (hdr.apiKey ≠ apkApiVersions → Vouched peer earlier principal)
  | .authenticated st _ _ => cfg.requireTLSForPlain = true → peer = .plain → st.mechanism ≠ Config.plain
  | .failed => True

structure Gated (cfg : Config) (peer : Peer) (c : Conn) : Prop where
  due : Justified (Due cfg peer) c.history
  vouched : c.st.authed = true → Vouched peer c.history c.st.principal
  counted : c.history.count .failed = c.st.saslFailures
  limited : c.st.saslFailures ≤ maxSASLFailuresPerConn
  below : c.alive = true → c.st.saslFailures < maxSASLFailuresPerConn
  tls : c.st.tls = peer.isTLS

variable {crypto : Crypto} {cfg : Config} {peer : Peer} {c c' : Conn} {e : Event} {guard : Conn → Event → Prop}

theorem accept_gated (enabled : cfg.enabled = true) (allowed : Bool) : Gated cfg peer (accept cfg peer allowed) := by
  by_cases named : peer.certPrincipal ≠ []
  · have start : (accept cfg peer allowed).st = ⟨true, peer.certPrincipal, ascii "mTLS", none, [], peer.isTLS, 0⟩ :=
      if_pos named
    exact {
      due := trivial
      vouched _ := by
        rw [start]
        exact Or.inl ⟨named, rfl⟩
      counted := by rw [start]; rfl
      limited := by rw [start]; exact Nat.zero_le _
      below _ := by rw [start]; exact Nat.zero_lt_succ _
      tls := by rw [start] }
  · have start : (accept cfg peer allowed).st = ⟨!cfg.enabled, [], [], none, [], peer.isTLS, 0⟩ := if_neg named
    exact {
      due := trivial
      vouched authed := by
        rw [start, enabled] at authed
        cases authed
      counted := by rw [start]; rfl
      limited := by rw [start]; exact Nat.zero_le _
      below _ := by rw [start]; exact Nat.zero_lt_succ _
      tls := by rw [start] }

theorem Vouched.later {actions : List Action} {principal : Bytes} (h : Vouched peer actions principal) (a : Action) :
    Vouched peer (a :: actions) principal :=
  h.imp id fun ⟨st, auth, member⟩ => ⟨st, auth, List.mem_cons_of_mem _ member⟩

theorem Gated.authenticate (h : Gated cfg peer c) (auth principal : Bytes)
    (due : Due cfg peer c.history (.authenticated c.st auth principal)) :
    Gated cfg peer ⟨{ c.st with authed := true, principal := principal }, c.alive,
      .authenticated c.st auth principal :: c.history⟩ :=
  { h with
    due := ⟨due, h.due⟩
    vouched := fun _ => Or.inr ⟨c.st, auth, List.mem_cons_self⟩
    counted := by
      rw [List.count_cons_of_ne (by nofun)]
      exact h.counted }

theorem Steps.gated (h : Gated cfg peer c) (step : c.Steps crypto cfg e c') : Gated cfg peer c' := by
  cases step with
  | idle alive later => exact { h with below := fun served => h.below (later served) }
  | handled hdr body alive later gate =>
    have due : Due cfg peer c.history (.handled c.st.authed hdr body c.st.principal) := by
      constructor
      · intro outside
        exact gate.resolve_left (by rw [outside]; nofun)
      · intro other
        exact h.vouched (gate.resolve_right other)
    exact { h with
      due := ⟨due, h.due⟩
      vouched := fun authed => (h.vouched authed).later _
      counted := by
        rw [List.count_cons_of_ne (by nofun)]
        exact h.counted
      below := fun served => h.below (later served) }
  | chosen outside offered =>
    exact { h with vouched := fun authed => absurd (outside.symm.trans authed) nofun }
  | failed outside alive served later =>
    exact { h with
      due := ⟨trivial, h.due⟩
      vouched := nofun
      counted := by rw [List.count_cons_self, h.counted]
      limited := h.below served
      below := later }
  | opened outside first found => exact { h with vouched := nofun }
  | plain outside chosen permitted accepted =>
    apply h.authenticate
    intro required unencrypted _
    apply permitted
    rw [h.tls, unencrypted]
    exact ⟨required, rfl⟩
  | finished outside chosen final running proven =>
    apply h.authenticate
    intro _ _ plain
    rw [ConnState.UsesScram, plain] at chosen
    revert chosen
    decide

def Settled (principal : Bytes) (c : Conn) : Prop := c.st.authed = true ∧ c.st.principal = principal

theorem Steps.settled (authed : c.st.authed = true) (step : c.Steps crypto cfg e c') :
    Settled c.st.principal c' := by
  cases step with
  | idle | handled => exact ⟨authed, rfl⟩
  | chosen outside | failed outside | opened outside | plain outside | finished outside =>
    rw [outside] at authed
    cases authed

theorem Follows.gated (run : Follows crypto cfg guard c c') (h : Gated cfg peer c) : Gated cfg peer c' := by
  apply run.invariant h
  intro c e _ h _ done
  rw [← done]
  exact (step_steps c e).gated h

theorem Follows.settled (run : Follows crypto cfg guard c c') (authed : c.st.authed = true) :
    Settled c.st.principal c' := by
  have start : Settled c.st.principal c := ⟨authed, rfl⟩
  apply run.invariant start
  intro c e _ h _ done
  rw [← done]
  have next : Settled c.st.principal (c.step crypto cfg e) := (step_steps c e).settled h.1
  exact ⟨next.1, next.2.trans h.2⟩

end Conn

open Conn

theorem served_after_authentication {crypto : Crypto} {cfg : Config} {peer : Peer} {allowed : Bool} {c : Conn}
    (enabled : cfg.enabled = true) (run : Follows crypto cfg anything (accept cfg peer allowed) c) :
    (∀ hdr body principal, .handled false hdr body principal ∈ c.history → hdr.apiKey = apkApiVersions) ∧
    (∀ later earlier authed hdr body principal,
      c.history = later ++ .handled authed hdr body principal :: earlier → hdr.apiKey ≠ apkApiVersions →
      Vouched peer earlier principal) ∧
    (c.st.authed = true → ∀ c', Follows crypto cfg anything c c' → c'.st.authed = true ∧ c'.st.principal = c.st.principal) ∧
    c.history.count .failed ≤ maxSASLFailuresPerConn ∧
    (cfg.requireTLSForPlain = true → peer = .plain → ∀ st auth principal,
      .authenticated st auth principal ∈ c.history → st.mechanism ≠ Config.plain) := by
  have gated := run.gated (accept_gated enabled allowed)
  refine ⟨?_, ?_, fun authed c' later => later.settled authed, ?_, ?_⟩
  · intro hdr body principal member
    obtain ⟨_, due⟩ := gated.due.mem member
    exact due.1 rfl
  · intro later earlier authed hdr body principal same other
    have due := gated.due
    rw [same] at due
    exact due.entry.2 other
  · rw [gated.counted]
    exact gated.limited
  · intro required unencrypted st auth principal member
    obtain ⟨_, due⟩ := gated.due.mem member
    exact due required unencrypted

def constantCrypto : Crypto where
  hash m _ := List.replicate m.keySize 0
  hmacSum m _ _ := List.replicate m.keySize 0
  pbkdf2 _ _ _ _ width := List.replicate width 0
  hash_length _ _ := List.length_replicate
  hmacSum_length _ _ _ := List.length_replicate

def oneUser : Config where
  enabled := true
  requireTLSForPlain := true
  users := [⟨ascii "ann", ascii "staple-47", [], []⟩]
  scramIterations := 0
  authSecret := ascii "secret"
  maxReqSize := 1048576
  preAuthSize := 65536

def plainClient : List Event :=
  [.frame (requestFrame ⟨apkApiVersions, 0, 1, []⟩ []) none false,
    .frame (requestFrame ⟨apkSaslHandshake, 1, 2, []⟩ (encodeSASLHandshakeRequest ⟨1, Config.plain⟩).bytes) none false,
    .frame (requestFrame ⟨apkSaslAuthenticate, 0, 3, []⟩
      (encodeSaslAuthenticateRequest ⟨0, some ([0] ++ ascii "ann" ++ [0] ++ ascii "staple-47")⟩).bytes) none false,
    .frame (requestFrame ⟨apkProduce, 0, 4, []⟩ []) none false]

theorem served_after_authentication_plain :
    ∃ c, Follows constantCrypto oneUser anything (accept oneUser (.tls []) true) c ∧
      c.history.head? = some (.handled true ⟨apkProduce, 0, 4, []⟩ [] (ascii "ann")) ∧
      ∀ hdr body principal, .handled false hdr body principal ∈ c.history → hdr.apiKey = apkApiVersions := by
  have reached : ∃ c, Follows constantCrypto oneUser anything (accept oneUser (.tls []) true) c ∧
      c.history.head? = some (.handled true ⟨apkProduce, 0, 4, []⟩ [] (ascii "ann")) :=
    exists_reaches plainClient (steps_of_next constantCrypto oneUser) (by decide +kernel)
  obtain ⟨c, run, last⟩ := reached
  exact ⟨c, run, last, (served_after_authentication rfl run).1⟩

end PocketKafka.Server
