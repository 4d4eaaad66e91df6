import PocketKafka.Fleet.AgentManager

namespace PocketKafka.Fleet

open Bytes Runs Text

/-- The server was revoked or deleted, and no token has been issued for it since. -/
def Closed (serverID : Bytes) : List RegistryEntry → Prop
  | [] => False
  | .closed server :: earlier => server = serverID ∨ Closed serverID earlier
  | .issued _ server _ :: earlier => server ≠ serverID ∧ Closed serverID earlier
  | _ :: earlier => Closed serverID earlier

def Unserved : List RegistryEntry → Prop
  | [] => True
  | .served agentID :: earlier => .revoked agentID ∉ earlier ∧ Unserved earlier
  | _ :: earlier => Unserved earlier

def WasEnrolled (agentID : Bytes) (trace : List RegistryEntry) : Prop :=
  ∃ token agent returned, .enrolled token agent returned ∈ trace ∧ agent.id = agentID

theorem WasEnrolled.cons {agentID : Bytes} {trace : List RegistryEntry} (was : WasEnrolled agentID trace)
    (entry : RegistryEntry) : WasEnrolled agentID (entry :: trace) := by
  obtain ⟨token, agent, returned, member, same⟩ := was
  exact ⟨token, agent, returned, List.mem_cons_of_mem _ member, same⟩

def RegistryEntry.enrolledID : RegistryEntry → Option Bytes
  | .enrolled _ agent _ => some agent.id
  | _ => none

namespace RegistryData

structure Final (trace : List RegistryEntry) (d : RegistryData) : Prop where
  agents : ∀ agentID, .revoked agentID ∈ trace → ∀ a ∈ d.agents, a.id = agentID → a.revoked = true
  servers : ∀ serverID, Closed serverID trace →
    (∀ a ∈ d.agents, a.serverID = serverID → a.revoked = true) ∧ ∀ e ∈ d.enrollments, e.serverID = serverID → e.used = true
  enrolled : ∀ a ∈ d.agents, WasEnrolled a.id trace
  unique : (d.agents.map Agent.id).Nodup

variable {trace : List RegistryEntry} {d d' : RegistryData}

theorem Final.shrinks (final : d.Final trace) (small : d.Shrinks d') : d'.Final trace := by
  constructor
  · intro agentID revoked a' held named
    obtain ⟨a, there, id, -, -, stays⟩ := small.agents a' held
    exact stays (final.agents agentID revoked a there (id.symm.trans named))
  · intro serverID closed
    obtain ⟨agents, tokens⟩ := final.servers serverID closed
    constructor
    · intro a' held server
      obtain ⟨a, there, -, same, -, stays⟩ := small.agents a' held
      exact stays (agents a there (same.symm.trans server))
    · intro e' held server
      obtain ⟨e, there, -, same, -, stays⟩ := small.enrollments e' held
      exact stays (tokens e there (same.symm.trans server))
  · intro a' held
    obtain ⟨a, there, id, -⟩ := small.agents a' held
    rw [id]
    exact final.enrolled a there
  · exact small.names.nodup final.unique

theorem Final.authorizeStream (final : d.Final trace) {agentID : Bytes} (revoked : .revoked agentID ∈ trace) :
    ∃ e, d.authorizeStream agentID = .error e := by
  unfold RegistryData.authorizeStream
  split
  · exact ⟨_, rfl⟩
  · rename_i a found
    have named : a.id = agentID := by simpa using List.find?_some found
    rw [if_pos (final.agents agentID revoked a (List.mem_of_find?_eq_some found) named)]
    exact ⟨_, rfl⟩

theorem Final.add (final : d.Final trace) (entry : RegistryEntry) (revoked : ∀ agentID, entry ≠ .revoked agentID)
    (closed : ∀ serverID, entry ≠ .closed serverID) (issued : ∀ token server expiry, entry ≠ .issued token server expiry) :
    d.Final (entry :: trace) := by
  constructor
  · intro agentID member
    rcases List.mem_cons.mp member with new | old
    · exact absurd new.symm (revoked agentID)
    · exact final.agents agentID old
  · intro serverID shut
    apply final.servers serverID
    cases entry with
    | closed server => exact absurd rfl (closed server)
    | issued token server expiry => exact absurd rfl (issued token server expiry)
    | enrolled token agent returned => exact shut
    | cancelled front token => exact shut
    | revoked agentID => exact absurd rfl (revoked agentID)
    | served agentID => exact shut
  · exact fun a held => (final.enrolled a held).cons _
  · exact final.unique

theorem Final.issue (final : d.Final trace) {token server : Bytes} {expiry : Option Time} :
    d.Final (.issued token server expiry :: trace) := by
  constructor
  · intro agentID member
    rcases List.mem_cons.mp member with new | old
    · cases new
    · exact final.agents agentID old
  · exact fun serverID shut => final.servers serverID shut.2
  · exact fun a held => (final.enrolled a held).cons _
  · exact final.unique

theorem Final.cancel (final : d.Final trace) (token : Bytes) {front : Bytes} :
    (d.deleteEnrollment token).Final (.cancelled front token :: trace) := by
  have kept : (d.deleteEnrollment token).Final trace := final.shrinks (.of_filter rfl rfl)
  exact kept.add _ (by simp) (by simp) (by simp)

theorem Final.put (final : d.Final trace) (e : Enrollment) :
    (d.putEnrollment e).Final (.issued e.token e.serverID e.expiresAt :: trace) := by
  have issued : d.Final (.issued e.token e.serverID e.expiresAt :: trace) := final.issue
  refine ⟨issued.agents, fun serverID shut => ⟨(issued.servers serverID shut).1, fun e' held server => ?_⟩, issued.enrolled,
    issued.unique⟩
  rcases List.mem_append.mp held with old | new
  · exact (issued.servers serverID shut).2 e' (List.mem_filter.mp old).1 server
  · rw [List.mem_singleton.mp new] at server
    exact absurd server shut.1

theorem Final.revoke (final : d.Final trace) {agentID : Bytes} (all : ∀ a ∈ d.agents, a.id = agentID → a.revoked = true) :
    d.Final (.revoked agentID :: trace) := by
  constructor
  · intro other member
    rcases List.mem_cons.mp member with new | old
    · cases new
      exact all
    · exact final.agents other old
  · exact fun serverID shut => final.servers serverID shut
  · exact fun a held => (final.enrolled a held).cons _
  · exact final.unique

theorem Final.close (final : d.Final trace) {serverID : Bytes}
    (agents : ∀ a ∈ d.agents, a.serverID = serverID → a.revoked = true)
    (tokens : ∀ e ∈ d.enrollments, e.serverID = serverID → e.used = true) : d.Final (.closed serverID :: trace) := by
  constructor
  · intro other member
    rcases List.mem_cons.mp member with new | old
    · cases new
    · exact final.agents other old
  · intro other shut
    rcases shut with rfl | earlier
    · exact ⟨agents, tokens⟩
    · exact final.servers other earlier
  · exact fun a held => (final.enrolled a held).cons _
  · exact final.unique

end RegistryData

namespace RegistryRun

variable {s s' : RegistryRun} {event : RegistryEvent}

/-- The name of an agent that is enrolled has not been drawn before. -/
def FreshAgents (s : RegistryRun) : RegistryEvent → Prop
  | .consume _ _ token _ suffix => ∀ e ∈ s.registry.data.enrollments, e.token = token →
      ∀ entry ∈ s.trace, entry.enrolledID ≠ some (agentName e.serverID suffix)
  | _ => True

/-- What is revoked for good: an agent that is on record as revoked already is so in the file as well, and is not being
    served; a server that is revoked has no token left that could be used. -/
def Settled (s : RegistryRun) : RegistryEvent → Prop
  | .revoke _ _ agentID => agentID ∉ s.pending ∧ ((∀ a ∈ s.registry.data.agents, a.id = agentID → a.revoked = true) →
      ∀ a ∈ s.registry.file.agents, a.id = agentID → a.revoked = true)
  | .revokeServer _ _ serverID => ∀ e ∈ s.registry.data.enrollments, e.serverID = serverID → e.used = true
  | _ => True

def Lasting (s : RegistryRun) (event : RegistryEvent) : Prop := s.FreshAgents event ∧ s.Settled event

/-- Nothing that was revoked is in the data or in the file, nor is it being served. -/
structure Sealed (s : RegistryRun) : Prop where
  data : s.registry.data.Final s.trace
  file : s.registry.file.Final s.trace
  known : ∀ agentID, .revoked agentID ∈ s.trace → WasEnrolled agentID s.trace
  named : ∀ agentID, WasEnrolled agentID s.trace → agentID ≠ []
  idle : ∀ agentID, .revoked agentID ∈ s.trace → agentID ∉ s.pending
  unserved : Unserved s.trace

theorem Steps.pending (step : s.Steps event s') :
    s'.pending = s.pending ∨ (∃ agentID, event = .authorize agentID) ∨ ∃ i, event = .finish i := by
  cases event with
  | authorize agentID => exact .inr (.inl ⟨agentID, rfl⟩)
  | finish i => exact .inr (.inr ⟨i, rfl⟩)
  | reissue now fails front choice duration token =>
    simp only [Steps, perform] at step
    split at step <;> cases step <;> exact .inl rfl
  | revokeEnrollment fails front choice =>
    simp only [Steps, perform] at step
    split at step <;> cases step <;> exact .inl rfl
  | consume now fails token secret suffix =>
    simp only [Steps, perform] at step
    split at step <;> cases step <;> exact .inl rfl
  | enroll now fails serverID duration token =>
    cases step
    exact .inl rfl
  | list now fails =>
    cases step
    exact .inl rfl
  | revoke now fails agentID =>
    cases step
    exact .inl rfl
  | revokeServer now fails serverID =>
    cases step
    exact .inl rfl
  | deleteServer fails serverID =>
    cases step
    exact .inl rfl
  | touch now serverID =>
    cases step
    exact .inl rfl
  | reload =>
    cases step
    exact .inl rfl

theorem Sealed.quiet (h : s.Sealed) (pending : s'.pending = s.pending) (entries : List RegistryEntry)
    (trace : s'.trace = entries ++ s.trace)
    (plain : ∀ entry ∈ entries, (∃ token server expiry, entry = .issued token server expiry) ∨
      (∃ front token, entry = .cancelled front token) ∨ ∃ serverID, entry = .closed serverID)
    (data : s'.registry.data.Final s'.trace) (file : s'.registry.file.Final s'.trace) : s'.Sealed := by
  have revoked : ∀ agentID, .revoked agentID ∈ s'.trace → .revoked agentID ∈ s.trace := by
    intro agentID member
    rw [trace] at member
    rcases List.mem_append.mp member with new | old
    · rcases plain _ new with ⟨_, _, _, same⟩ | ⟨_, _, same⟩ | ⟨_, same⟩ <;> cases same
    · exact old
  have enrolled : ∀ agentID, WasEnrolled agentID s'.trace → WasEnrolled agentID s.trace := by
    rintro agentID ⟨token, agent, returned, member, same⟩
    rw [trace] at member
    rcases List.mem_append.mp member with new | old
    · rcases plain _ new with ⟨_, _, _, same⟩ | ⟨_, _, same⟩ | ⟨_, same⟩ <;> cases same
    · exact ⟨token, agent, returned, old, same⟩
  refine ⟨data, file, fun agentID member => ?_, fun agentID was => h.named agentID (enrolled agentID was), ?_, ?_⟩
  · obtain ⟨token, agent, returned, there, same⟩ := h.known agentID (revoked agentID member)
    refine ⟨token, agent, returned, ?_, same⟩
    rw [trace]
    exact List.mem_append_right _ there
  · rw [pending]
    exact fun agentID member => h.idle agentID (revoked agentID member)
  · rw [trace]
    clear trace
    induction entries with
    | nil => exact h.unserved
    | cons entry rest ih =>
      have later := ih fun entry member => plain entry (List.mem_cons_of_mem _ member)
      rcases plain entry List.mem_cons_self with ⟨_, _, _, rfl⟩ | ⟨_, _, rfl⟩ | ⟨_, rfl⟩ <;> exact later

theorem Written.final {trace : List RegistryEntry} (written : Written s s') (file : s.registry.file.Final trace)
    (data : s'.registry.data.Final trace) : s'.registry.file.Final trace := by
  rcases written with old | new
  · rw [old]
    exact file
  · rw [new]
    exact data

theorem Sealed.shrink (h : s.Sealed) (waiting : s'.pending = s.pending)
    (small : s.registry.data.Shrinks s'.registry.data ∨ s'.registry.data = s.registry.file) (file : Written s s')
    (trace : s'.trace = s.trace) : s'.Sealed := by
  have data : s'.registry.data.Final s.trace := by
    rcases small with small | reloaded
    · exact h.data.shrinks small
    · rw [reloaded]
      exact h.file
  apply h.quiet waiting [] trace (by simp) <;> rw [trace]
  · exact data
  · exact file.final h.file data

theorem Sealed.issue (h : s.Sealed) (waiting : s'.pending = s.pending) {e : Enrollment} {d : RegistryData}
    (small : s.registry.data.Shrinks d) (put : s'.registry.data = d.putEnrollment e) (file : Written s s')
    (trace : s'.trace = .issued e.token e.serverID e.expiresAt :: s.trace) : s'.Sealed := by
  have data : s'.registry.data.Final s'.trace := by
    rw [put, trace]
    exact (h.data.shrinks small).put e
  apply h.quiet waiting [_] trace (by simp) data (file.final _ data)
  rw [trace]
  exact h.file.issue

theorem Sealed.reissue (h : s.Sealed) (waiting : s'.pending = s.pending) {e old : Enrollment} {front : Bytes}
    (put : s'.registry.data = (s.registry.data.deleteEnrollment old.token).putEnrollment e)
    (file : s'.registry.file = s'.registry.data)
    (trace : s'.trace = .issued e.token e.serverID e.expiresAt :: .cancelled front old.token :: s.trace) : s'.Sealed := by
  have data : s'.registry.data.Final s'.trace := by
    rw [put, trace]
    exact (h.data.cancel old.token).put e
  exact h.quiet waiting [_, _] trace (by simp) data (file ▸ data)

theorem Sealed.cancel (h : s.Sealed) (waiting : s'.pending = s.pending) {token front : Bytes}
    (removed : s'.registry.data = s.registry.data.deleteEnrollment token) (file : s'.registry.file = s'.registry.data)
    (trace : s'.trace = .cancelled front token :: s.trace) : s'.Sealed := by
  have data : s'.registry.data.Final s'.trace := by
    rw [removed, trace]
    exact h.data.cancel token
  exact h.quiet waiting [_] trace (by simp) data (file ▸ data)

theorem Sealed.close (h : s.Sealed) (waiting : s'.pending = s.pending) {serverID : Bytes}
    (small : s.registry.data.Shrinks s'.registry.data)
    (agents : ∀ a ∈ s'.registry.data.agents, a.serverID = serverID → a.revoked = true)
    (tokens : ∀ e ∈ s'.registry.data.enrollments, e.serverID = serverID → e.used = true)
    (file : s'.registry.file = s'.registry.data) (trace : s'.trace = .closed serverID :: s.trace) : s'.Sealed := by
  have data : s'.registry.data.Final s'.trace := by
    rw [trace]
    exact (h.data.shrinks small).close agents tokens
  exact h.quiet waiting [_] trace (by simp) data (file ▸ data)

theorem Sealed.final_enrolled (h : s.Sealed) {now : Time} {e : Enrollment} {agent : Agent} (returned : Bool)
    (held : e ∈ s.registry.data.enrollments) (unused : e.used = false) (server : agent.serverID = e.serverID)
    (fresh : ∀ entry ∈ s.trace, entry.enrolledID ≠ some agent.id)
    (enrollments : s'.registry.data.enrollments =
      s.registry.data.enrollments.map fun old => if old.token = e.token then old.use now else old)
    (agents : s'.registry.data.agents = (s.registry.data.putAgent agent).agents) :
    s'.registry.data.Final (.enrolled e.token agent returned :: s.trace) := by
  have before : s.registry.data.Final (.enrolled e.token agent returned :: s.trace) :=
    h.data.add _ (by simp) (by simp) (by simp)
  have inside : ∀ a ∈ s'.registry.data.agents, a ∈ s.registry.data.agents ∨ a = agent := by
    intro a member
    rw [agents] at member
    rcases List.mem_append.mp member with old | new
    · exact .inl (List.mem_filter.mp old).1
    · exact .inr (List.mem_singleton.mp new)
  constructor
  · intro agentID revoked a member named
    rcases inside a member with old | rfl
    · exact before.agents agentID revoked a old named
    · rcases List.mem_cons.mp revoked with new | old
      · cases new
      · obtain ⟨token, agent, returned, there, same⟩ := h.known agentID old
        refine absurd ?_ (fresh _ there)
        rw [RegistryEntry.enrolledID, same, ← named]
  · intro serverID shut
    obtain ⟨live, tokens⟩ := before.servers serverID shut
    constructor
    · intro a member own
      rcases inside a member with old | rfl
      · exact live a old own
      · have used := tokens e held (server.symm.trans own)
        rw [unused] at used
        cases used
    · intro e' member own
      rw [enrollments] at member
      obtain ⟨old, there, rfl⟩ := List.mem_map.mp member
      split
      · rfl
      · exact tokens old there (by simpa [*] using own)
  · intro a member
    rcases inside a member with old | rfl
    · exact before.enrolled a old
    · exact ⟨_, _, _, List.mem_cons_self, rfl⟩
  · rw [agents, RegistryData.putAgent, List.map_append, List.nodup_append]
    refine ⟨(List.filter_sublist.map Agent.id).nodup h.data.unique, by simp, ?_⟩
    intro name old last new same
    obtain ⟨a, member, rfl⟩ := List.mem_map.mp old
    have other := (List.mem_filter.mp member).2
    rw [List.map_singleton, List.mem_singleton] at new
    rw [new] at same
    simp [same] at other

theorem Sealed.enroll (h : s.Sealed) (waiting : s'.pending = s.pending) {e : Enrollment} {agent : Agent} {returned : Bool}
    (named : agent.id ≠ []) (data : s'.registry.data.Final (.enrolled e.token agent returned :: s.trace))
    (file : s'.registry.file = if returned then s'.registry.data else s.registry.file)
    (trace : s'.trace = .enrolled e.token agent returned :: s.trace) : s'.Sealed := by
  have past : ∀ agentID, .revoked agentID ∈ s'.trace → .revoked agentID ∈ s.trace := by
    intro agentID member
    rw [trace] at member
    rcases List.mem_cons.mp member with now | old
    · cases now
    · exact old
  constructor
  · rw [trace]
    exact data
  · rw [trace, file]
    cases returned with
    | true => exact data
    | false => exact h.file.add _ (by simp) (by simp) (by simp)
  · intro agentID member
    rw [trace]
    exact (h.known agentID (past agentID member)).cons _
  · rintro agentID ⟨token, agent, returned, member, own⟩
    rw [trace] at member
    rcases List.mem_cons.mp member with now | old
    · cases now
      exact own ▸ named
    · exact h.named agentID ⟨token, agent, returned, old, own⟩
  · rw [waiting]
    exact fun agentID member => h.idle agentID (past agentID member)
  · rw [trace]
    exact h.unserved

theorem Sealed.authorize (h : s.Sealed) {agentID : Bytes} (registry : s'.registry = s.registry)
    (authorized : done (s.registry.data.authorizeStream agentID) = true) (pending : s'.pending = s.pending ++ [agentID])
    (trace : s'.trace = s.trace) : s'.Sealed := by
  refine ⟨?_, ?_, ?_, ?_, ?_, ?_⟩ <;> simp only [registry, trace, pending]
  · exact h.data
  · exact h.file
  · exact h.known
  · exact h.named
  · intro other revoked waits
    rcases List.mem_append.mp waits with old | new
    · exact h.idle other revoked old
    · rw [List.mem_singleton.mp new] at revoked
      obtain ⟨e, refused⟩ := h.data.authorizeStream revoked
      rw [refused] at authorized
      cases authorized
  · exact h.unserved

theorem Sealed.finish (h : s.Sealed) {i : Nat} {agentID : Bytes} (registry : s'.registry = s.registry)
    (waits : s.pending[i]? = some agentID) (pending : s'.pending = s.pending.eraseIdx i)
    (trace : s'.trace = .served agentID :: s.trace) : s'.Sealed := by
  have revoked : ∀ other, .revoked other ∈ s'.trace → .revoked other ∈ s.trace := by
    intro other member
    rw [trace] at member
    rcases List.mem_cons.mp member with new | old
    · cases new
    · exact old
  refine ⟨?_, ?_, ?_, ?_, ?_, ?_⟩
  · rw [registry, trace]
    exact h.data.add _ (by simp) (by simp) (by simp)
  · rw [registry, trace]
    exact h.file.add _ (by simp) (by simp) (by simp)
  · intro other member
    rw [trace]
    exact (h.known other (revoked other member)).cons _
  · rintro other ⟨token, agent, returned, member, same⟩
    rw [trace] at member
    rcases List.mem_cons.mp member with new | old
    · cases new
    · exact h.named other ⟨token, agent, returned, old, same⟩
  · intro other member still
    rw [pending] at still
    exact h.idle other (revoked other member) (List.mem_of_mem_eraseIdx still)
  · rw [trace]
    exact ⟨fun member => h.idle agentID member (List.mem_of_getElem? waits), h.unserved⟩

theorem Sealed.revoked (h : s.Sealed) {agentID : Bytes} (waiting : s'.pending = s.pending) (idle : agentID ∉ s.pending)
    (held : ∃ a ∈ s.registry.data.agents, a.id = agentID) (trace : s'.trace = .revoked agentID :: s.trace)
    (data : s'.registry.data.Final s'.trace) (file : s'.registry.file.Final s'.trace) : s'.Sealed := by
  obtain ⟨a, there, same⟩ := held
  refine ⟨data, file, ?_, ?_, ?_, ?_⟩
  · intro other member
    rw [trace] at member ⊢
    rcases List.mem_cons.mp member with new | old
    · cases new
      rw [← same]
      exact (h.data.enrolled a there).cons _
    · exact (h.known other old).cons _
  · rintro other ⟨token, agent, returned, member, named⟩
    rw [trace] at member
    rcases List.mem_cons.mp member with new | old
    · cases new
    · exact h.named other ⟨token, agent, returned, old, named⟩
  · intro other member
    rw [trace] at member
    rw [waiting]
    rcases List.mem_cons.mp member with new | old
    · cases new
      exact idle
    · exact h.idle other old
  · rw [trace]
    exact h.unserved

theorem Final.found {trace : List RegistryEntry} {d : RegistryData} (final : d.Final trace) {agentID : Bytes} {a : Agent}
    (found : d.agent agentID = some a) (revoked : a.revoked = true) : ∀ b ∈ d.agents, b.id = agentID → b.revoked = true := by
  intro b member named
  have own : a.id = agentID := by simpa using List.find?_some found
  have same : b = a := List.inj_on_of_nodup_map final.unique member (List.mem_of_find?_eq_some found) (named.trans own.symm)
  rw [same, revoked]

theorem Sealed.revoke (h : s.Sealed) {now : Time} {fails : Bool} {agentID : Bytes} (waiting : s'.pending = s.pending)
    (settled : s.Settled (.revoke now fails agentID)) (held : ∃ a ∈ s.registry.data.agents, a.id = agentID)
    (small : s.registry.data.Shrinks s'.registry.data)
    (file : s'.registry.file = s'.registry.data ∧ (∀ a ∈ s'.registry.data.agents, a.id = agentID → a.revoked = true) ∨
      s'.registry = s.registry ∧ ∃ a, s.registry.data.agent agentID = some a ∧ a.revoked = true)
    (trace : s'.trace = .revoked agentID :: s.trace) : s'.Sealed := by
  rcases file with ⟨written, all⟩ | ⟨unchanged, a, found, revoked⟩
  · have data : s'.registry.data.Final s'.trace := by
      rw [trace]
      exact (h.data.shrinks small).revoke all
    exact h.revoked waiting settled.1 held trace data (written ▸ data)
  · have all := Final.found h.data found revoked
    apply h.revoked waiting settled.1 held trace <;> rw [unchanged, trace]
    · exact h.data.revoke all
    · exact h.file.revoke (settled.2 all)

theorem Sealed.step (h : s.Sealed) (lasting : s.Lasting event) (step : s.Steps event s') : s'.Sealed := by
  obtain ⟨fresh, settled⟩ := lasting
  rcases step.pending with waiting | ⟨agentID, rfl⟩ | ⟨i, rfl⟩
  · cases step.change with
    | shrink small file trace => exact h.shrink waiting small file trace
    | issue e small drawn unused data file trace => exact h.issue waiting small data file trace
    | reissue e held begins drawn unused data file trace => exact h.reissue waiting data file trace
    | cancel held begins data file trace => exact h.cancel waiting data file trace
    | enroll returned same held unused valid room enrollments agents file trace =>
      subst same
      have data := h.final_enrolled returned held unused rfl (fresh _ held rfl) enrollments agents
      exact h.enroll waiting (by simp [Agent.enroll, agentName, ascii]) data file trace
    | revoke same held small file trace =>
      subst same
      exact h.revoke waiting settled held small file trace
    | close small agents tokens file trace =>
      apply h.close waiting small agents _ file trace
      intro e member server
      obtain ⟨now, fails, rfl, there⟩ := tokens e member server
      exact settled e there server
    | authorize same registry authorized pending trace => exact h.authorize registry authorized pending trace
    | finish same registry waits pending trace => exact h.finish registry waits pending trace
  · simp only [Steps, perform] at step
    split at step
    · cases step
      exact h.authorize rfl (by assumption) rfl rfl
    · cases step
  · simp only [Steps, perform] at step
    split at step
    · cases step
    · cases step
      exact h.finish rfl (by assumption) rfl rfl

theorem initial_sealed (maxAgents : Int) : (initial maxAgents).Sealed := by
  have empty : RegistryData.Final [] ⟨[], [], []⟩ := ⟨nofun, nofun, nofun, List.nodup_nil⟩
  refine ⟨empty, empty, nofun, ?_, nofun, trivial⟩
  rintro agentID ⟨token, agent, returned, member, -⟩
  cases member

theorem refused {d : RegistryData} {agentID : Bytes} (named : agentID ≠ []) {reason : RegistryError}
    (refused : d.authorizeStream agentID = .error reason) (crypto : Crypto) :
    (∀ v now env, v.registered = true → env.agentID = agentID → (Verifier.verify crypto d v now env).1 ≠ .ok ()) ∧
    ∀ (γ : Type) (messages : Messages γ) (m : AgentManager γ) now messageID job, m.registry = d →
      m.dispatchJob crypto messages now messageID agentID job = .error (.revoked reason) := by
  constructor
  · rintro v now env registered rfl accepted
    unfold Verifier.verify at accepted
    split at accepted
    · cases accepted
    · rename_i passed
      obtain ⟨-, -, -, authorized⟩ := Verifier.authenticate_ok passed
      obtain ⟨agent, found⟩ := authorized registered named
      rw [refused] at found
      cases found
  · rintro γ messages m now messageID job rfl
    rw [AgentManager.dispatchJob, refused]

/-- What was revoked stays so: no envelope of a revoked agent passes and no job is dispatched to it, also none that was
under way; and no agent of a server that was revoked or deleted is authorised before a new token is issued for it. -/
theorem revocation_final (maxAgents : Int) {s : RegistryRun} (run : Reaches Lasting Steps (initial maxAgents) s) :
    (∀ agentID, .revoked agentID ∈ s.trace → ∃ reason, s.registry.data.authorizeStream agentID = .error reason ∧
      ∀ crypto, (∀ v now env, v.registered = true → env.agentID = agentID →
          (Verifier.verify crypto s.registry.data v now env).1 ≠ .ok ()) ∧
        ∀ (γ : Type) (messages : Messages γ) (m : AgentManager γ) now messageID job, m.registry = s.registry.data →
          m.dispatchJob crypto messages now messageID agentID job = .error (.revoked reason)) ∧
    Unserved s.trace ∧
    ∀ serverID, Closed serverID s.trace → ∀ agentID agent, s.registry.data.authorizeStream agentID = .ok agent →
      agent.serverID ≠ serverID := by
  have h : s.Sealed := run.invariant (initial_sealed maxAgents) fun _ _ _ h lasting step => h.step lasting step
  refine ⟨fun agentID revoked => ?_, h.unserved, fun serverID shut agentID agent authorized server => ?_⟩
  · obtain ⟨reason, error⟩ := h.data.authorizeStream revoked
    exact ⟨reason, error, refused (h.named agentID (h.known agentID revoked)) error⟩
  · unfold RegistryData.authorizeStream at authorized
    split at authorized
    · cases authorized
    · rename_i a found
      split at authorized
      · cases authorized
      · rename_i live
        cases authorized
        exact live ((h.data.servers serverID shut).1 agent (List.mem_of_find?_eq_some found) server)

instance (s : RegistryRun) (event : RegistryEvent) : Decidable (FreshAgents s event) := by
  unfold FreshAgents
  split <;> infer_instance

instance (s : RegistryRun) (event : RegistryEvent) : Decidable (Settled s event) := by
  unfold Settled
  split <;> infer_instance

instance (s : RegistryRun) (event : RegistryEvent) : Decidable (Lasting s event) := inferInstanceAs (Decidable (_ ∧ _))

private def worker (suffix : Bytes) : Agent := .enroll 0 (ascii "s") (ascii "secret") suffix

theorem revocation_final_revoked : ∃ s, Reaches Lasting Steps (initial 5) s ∧ .revoked (worker (ascii "0")).id ∈ s.trace ∧
    ∃ reason, s.registry.data.authorizeStream (worker (ascii "0")).id = .error reason := by
  obtain ⟨s, run, revoked⟩ : ∃ s, Reaches Lasting Steps (initial 5) s ∧ .revoked (worker (ascii "0")).id ∈ s.trace :=
    exists_reaches [.enroll 0 false (ascii "s") 0 (ascii "t"), .consume 0 false (ascii "t") (ascii "secret") (ascii "0"),
      .authorize (worker (ascii "0")).id, .finish 0, .revoke 1 false (worker (ascii "0")).id,
      .consume 0 false (ascii "t") (ascii "secret") (ascii "1"), .reload] (fun _ _ _ step => step) (by decide +kernel)
  obtain ⟨reason, error, -⟩ := (revocation_final 5 run).1 _ revoked
  exact ⟨s, run, revoked, reason, error⟩

/-- A second call reports a revocation that was never written, and a token that was left over lets a new agent in. -/
theorem revoked_again :
    (∃ s, Reaches FreshAgents Steps (initial 5) s ∧ .revoked (worker (ascii "0")).id ∈ s.trace ∧
      s.registry.data.authorizeStream (worker (ascii "0")).id = .ok (worker (ascii "0"))) ∧
    ∃ s, Reaches FreshAgents Steps (initial 5) s ∧ Closed (ascii "s") s.trace ∧
      s.registry.data.authorizeStream (worker (ascii "1")).id = .ok (worker (ascii "1")) := by
  constructor
  · exact exists_reaches [.enroll 0 false (ascii "s") 0 (ascii "t"),
      .consume 0 false (ascii "t") (ascii "secret") (ascii "0"), .revoke 1 true (worker (ascii "0")).id,
      .revoke 1 false (worker (ascii "0")).id, .reload] (fun _ _ _ step => step) (by decide +kernel)
  · obtain ⟨s, run, trace, authorized⟩ : ∃ s, Reaches FreshAgents Steps (initial 5) s ∧
        s.trace.take 2 = [.enrolled (ascii "t2") (worker (ascii "1")) true, .closed (ascii "s")] ∧
        s.registry.data.authorizeStream (worker (ascii "1")).id = .ok (worker (ascii "1")) :=
      exists_reaches [.enroll 0 false (ascii "s") 0 (ascii "t1"), .enroll 0 false (ascii "s") 0 (ascii "t2"),
        .consume 0 false (ascii "t1") (ascii "secret") (ascii "0"), .revokeServer 1 false (ascii "s"),
        .consume 0 false (ascii "t2") (ascii "secret") (ascii "1")] (fun _ _ _ step => step) (by decide +kernel)
    refine ⟨s, run, ?_, authorized⟩
    rw [← List.take_append_drop 2 s.trace, trace]
    exact .inl rfl

end RegistryRun

end PocketKafka.Fleet
