import PocketKafka.Fleet.Envelope
import PocketKafka.Lib.Runs

namespace PocketKafka.Fleet

open Bytes Runs

structure VerifierRun where
  verifier : Verifier
  now : Int
  accepted : List Envelope

/-- What the registry holds may be different at every call. -/
inductive VerifierEvent where
  | tick (passed : Nat)
  | verify (registry : RegistryData) (env : Envelope)

namespace VerifierRun

def initial (key : Bytes) (window : Time) (direction : Bytes) (registered : Bool) (now : Int) : VerifierRun :=
  ⟨newVerifier key window direction registered, now, []⟩

def perform (crypto : Crypto) (s : VerifierRun) : VerifierEvent → VerifierRun
  | .tick passed => { s with now := s.now + passed }
  | .verify registry env =>
    match s.verifier.verify crypto registry s.now env with
    | (.ok (), v) => { s with verifier := v, accepted := env :: s.accepted }
    | (.error _, v) => { s with verifier := v }

def Steps (crypto : Crypto) (s : VerifierRun) (e : VerifierEvent) (s' : VerifierRun) : Prop := s' = s.perform crypto e

def Signed (crypto : Crypto) (v : Verifier) (registry : RegistryData) (env : Envelope) : Prop :=
  ∃ key, v.verificationKey registry env = .ok key ∧ env.hmac = env.expectedHMAC crypto key

/-- A message is signed for one instant, `issued`, and with one that is set; and an envelope that carries it has it
    remembered until it is too old to be accepted. -/
def Remembered (crypto : Crypto) (issued : Bytes → Int) (s : VerifierRun) : VerifierEvent → Prop
  | .tick _ => True
  | .verify registry env => Signed crypto s.verifier registry env →
      env.issuedAt = issued env.messageID ∧ 0 < env.issuedAt ∧
        env.issuedAt + s.verifier.windowSeconds ≤ (if env.expiry ≤ 0 then s.now + s.verifier.windowSeconds else env.expiry)

structure Guarded (issued : Bytes → Int) (s : VerifierRun) : Prop where
  limited : 0 < s.verifier.window
  seen : ∀ env ∈ s.accepted, s.now ≤ issued env.messageID + s.verifier.windowSeconds →
    ∃ expiry, s.verifier.seen env.messageID = some expiry ∧ issued env.messageID + s.verifier.windowSeconds ≤ expiry
  nodup : (s.accepted.map Envelope.messageID).Nodup

variable {crypto : Crypto} {issued : Bytes → Int} {s s' : VerifierRun}

theorem Guarded.pruned (guarded : s.Guarded issued) {env : Envelope} (member : env ∈ s.accepted)
    (recent : s.now ≤ issued env.messageID + s.verifier.windowSeconds) :
    ∃ expiry, s.verifier.pruned s.now env.messageID = some expiry ∧
      issued env.messageID + s.verifier.windowSeconds ≤ expiry := by
  obtain ⟨expiry, found, long⟩ := guarded.seen env member recent
  refine ⟨expiry, ?_, long⟩
  rw [Verifier.pruned, found, Option.filter_some, if_pos]
  simp only [decide_eq_true_eq]
  omega

theorem Guarded.verify (guarded : s.Guarded issued) {registry : RegistryData} {env : Envelope}
    (remembered : s.Remembered crypto issued (.verify registry env)) :
    (s.perform crypto (.verify registry env)).Guarded issued := by
  simp only [perform, Verifier.verify]
  cases checked : s.verifier.authenticate crypto registry s.now env with
  | error e => exact ⟨guarded.limited, guarded.seen, guarded.nodup⟩
  | ok _ =>
    obtain ⟨-, age, signed, -⟩ := Verifier.authenticate_ok checked
    obtain ⟨same, set, long⟩ := remembered signed
    have recent : s.now ≤ issued env.messageID + s.verifier.windowSeconds := by
      have := age set guarded.limited
      omega
    cases known : s.verifier.pruned s.now env.messageID with
    | some expiry => exact ⟨guarded.limited, fun _ member recent => guarded.pruned member recent, guarded.nodup⟩
    | none =>
      have new : ∀ old ∈ s.accepted, old.messageID ≠ env.messageID := by
        intro old member equal
        obtain ⟨expiry, found, -⟩ := guarded.pruned member (equal ▸ recent)
        rw [equal, known] at found
        cases found
      refine ⟨guarded.limited, ?_, ?_⟩
      · intro old member still
        rcases List.mem_cons.mp member with rfl | past
        · exact ⟨_, Function.update_self .., by rw [← same]; exact long⟩
        · obtain ⟨expiry, found, long⟩ := guarded.pruned past still
          exact ⟨expiry, (Function.update_of_ne (new old past) ..).trans found, long⟩
      · show ((env :: s.accepted).map Envelope.messageID).Nodup
        rw [List.map_cons, List.nodup_cons]
        refine ⟨fun member => ?_, guarded.nodup⟩
        obtain ⟨old, past, equal⟩ := List.mem_map.mp member
        exact new old past equal

theorem Guarded.step (guarded : s.Guarded issued) {e : VerifierEvent} (remembered : s.Remembered crypto issued e)
    (step : s.Steps crypto e s') : s'.Guarded issued := by
  subst step
  cases e with
  | tick passed =>
    refine ⟨guarded.limited, fun env member recent => guarded.seen env member ?_, guarded.nodup⟩
    have later : s.now + passed ≤ issued env.messageID + s.verifier.windowSeconds := recent
    omega
  | verify registry env => exact guarded.verify remembered

/-- No two accepted envelopes carry the same message. -/
theorem messages_accepted_once (crypto : Crypto) (issued : Bytes → Int) (key : Bytes) (window : Time) (direction : Bytes)
    (registered : Bool) (now : Int) (limited : 0 < window) {s : VerifierRun}
    (run : Reaches (Remembered crypto issued) (Steps crypto) (initial key window direction registered now) s) :
    (s.accepted.map Envelope.messageID).Nodup := by
  have start : (initial key window direction registered now).Guarded issued :=
    ⟨limited, nofun, List.nodup_nil⟩
  have guarded : s.Guarded issued := run.invariant start fun _ _ _ guarded remembered step => guarded.step remembered step
  exact guarded.nodup

private def heartbeat (crypto : Crypto) (expiry : Int) : Envelope :=
  let env : Envelope := ⟨1, ascii "m", [], agentToControl, 1000, expiry, ascii "heartbeat", [], [], []⟩
  { env with hmac := env.expectedHMAC crypto (ascii "secret") }

private def listening (seen : Bytes → Option Int) : Verifier := ⟨ascii "secret", 60000000000, agentToControl, false, seen⟩

private theorem heartbeat_authentic (crypto : Crypto) (seen : Bytes → Option Int) {now expiry : Int} (lower : 1000 ≤ now)
    (upper : now ≤ 1060) (valid : now ≤ expiry) :
    (listening seen).authenticate crypto ⟨[], [], []⟩ now (heartbeat crypto expiry) = .ok () := by
  have times : (listening seen).checkTimes now (heartbeat crypto expiry) = .ok () := by
    have window : (listening seen).windowSeconds = 60 := rfl
    have issued : (heartbeat crypto expiry).issuedAt = 1000 := rfl
    have until_ : (heartbeat crypto expiry).expiry = expiry := rfl
    rw [Verifier.checkTimes, window, issued, until_, if_neg (by omega), if_neg (by omega), if_neg (by omega)]
  have key : (listening seen).verificationKey ⟨[], [], []⟩ (heartbeat crypto expiry) = .ok (ascii "secret") := rfl
  have signed : (heartbeat crypto expiry).hmac = (heartbeat crypto expiry).expectedHMAC crypto (ascii "secret") := rfl
  simp only [Verifier.authenticate, times, key]
  rw [if_neg (fun bad => bad.2 rfl), if_neg (fun bad => bad.2.2 rfl), if_neg (fun bad => bad.1 rfl),
    if_neg (fun bad => bad signed), if_neg (fun bad => nomatch bad.1)]

private theorem heartbeat_verified (crypto : Crypto) (seen : Bytes → Option Int) {now expiry : Int} (lower : 1000 ≤ now)
    (upper : now ≤ 1060) (valid : now ≤ expiry) (unknown : (listening seen).pruned now (ascii "m") = none) :
    (listening seen).verify crypto ⟨[], [], []⟩ now (heartbeat crypto expiry) =
      (.ok (), listening (Function.update ((listening seen).pruned now) (ascii "m") (some expiry))) := by
  have later : ¬expiry ≤ 0 := by omega
  have name : (heartbeat crypto expiry).messageID = ascii "m" := rfl
  have until_ : (listening seen).remembered now (heartbeat crypto expiry) = expiry := if_neg later
  rw [Verifier.verify, heartbeat_authentic crypto seen lower upper valid]
  simp only [name, unknown, until_]
  rfl

theorem messages_accepted_once_heartbeat : ∃ crypto, ∃ s,
    Reaches (Remembered crypto fun _ => 1000) (Steps crypto) (initial (ascii "secret") 60000000000 agentToControl false
      1000) s ∧
      s.accepted.map Envelope.messageID = [ascii "m"] ∧ (s.accepted.map Envelope.messageID).Nodup := by
  let crypto : Crypto := ⟨id, fun key data => key ++ data⟩
  have run : Reaches (Remembered crypto fun _ => 1000) (Steps crypto)
      (initial (ascii "secret") 60000000000 agentToControl false 1000)
      ((initial (ascii "secret") 60000000000 agentToControl false 1000).perform crypto
        (.verify ⟨[], [], []⟩ (heartbeat crypto 1060))) :=
    (Reaches.refl _).next _ (fun _ => ⟨rfl, by decide, by decide +kernel⟩) rfl
  exact ⟨crypto, _, run, by decide +kernel, messages_accepted_once crypto _ _ _ _ _ _ (by decide) run⟩

/-- The envelope is sent again, a second later and with another expiry, which is not signed. -/
theorem message_replayed : ∃ first : Crypto → Envelope, ∀ crypto, ∃ v v',
    (newVerifier (ascii "secret") 60000000000 agentToControl false).verify crypto ⟨[], [], []⟩ 1000
      (first crypto) = (.ok (), v) ∧
      v.verify crypto ⟨[], [], []⟩ 1001 { first crypto with expiry := 2000 } = (.ok (), v') := by
  refine ⟨fun crypto => heartbeat crypto 1000, fun crypto => ?_⟩
  have accepted := heartbeat_verified crypto (fun _ => none) (by decide : (1000 : Int) ≤ 1000) (by decide) (le_refl 1000) rfl
  have again := heartbeat_verified crypto
    (Function.update ((listening fun _ => none).pruned 1000) (ascii "m") (some 1000))
    (by decide : (1000 : Int) ≤ 1001) (by decide) (by decide : (1001 : Int) ≤ 2000) (by decide +kernel)
  exact ⟨_, _, accepted, again⟩

end VerifierRun

end PocketKafka.Fleet
