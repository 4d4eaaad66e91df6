import PocketKafka.Fleet.Registry

namespace PocketKafka.Fleet

open Bytes Runs Text

/-- What a run has brought about. A token counts as issued and an agent as enrolled once they are in memory, an
    enrollment as returned, and the others as done, when the call has returned no error. `served` is an envelope that was
    accepted from an agent or a job that was dispatched to it. -/
inductive RegistryEntry where
  | issued (token serverID : Bytes) (expiresAt : Option Time)
  | enrolled (token : Bytes) (agent : Agent) (returned : Bool)
  | cancelled (front token : Bytes)
  | revoked (agentID : Bytes)
  | closed (serverID : Bytes)
  | served (agentID : Bytes)
  deriving DecidableEq

/-- `authorize` is the call of `AuthorizeStream` in the verification of an envelope or in `DispatchJob`, `finish` what
    either does behind it. -/
inductive RegistryEvent where
  | enroll (now : Time) (fails : Bool) (serverID : Bytes) (duration : Time) (token : Bytes)
  | reissue (now : Time) (fails : Bool) (front : Bytes) (choice : Nat) (duration : Time) (token : Bytes)
  | revokeEnrollment (fails : Bool) (front : Bytes) (choice : Nat)
  | list (now : Time) (fails : Bool)
  | consume (now : Time) (fails : Bool) (token secret suffix : Bytes)
  | revoke (now : Time) (fails : Bool) (agentID : Bytes)
  | revokeServer (now : Time) (fails : Bool) (serverID : Bytes)
  | deleteServer (fails : Bool) (serverID : Bytes)
  | touch (now : Time) (serverID : Bytes)
  | reload
  | authorize (agentID : Bytes)
  | finish (i : Nat)

structure RegistryRun where
  registry : Registry
  pending : List Bytes
  trace : List RegistryEntry

namespace RegistryRun

variable (s : RegistryRun)

def initial (maxAgents : Int) : RegistryRun := ⟨.newRegistry maxAgents, [], []⟩

def stored {α : Type} : Except RegistryError α → Bool
  | .ok _ | .error .write => true
  | .error _ => false

def done {α : Type} : Except RegistryError α → Bool
  | .ok _ => true
  | .error _ => false

def recordIf (condition : Bool) (registry : Registry) (entries : List RegistryEntry) : RegistryRun :=
  { s with registry := registry, trace := (if condition then entries else []) ++ s.trace }

def perform : RegistryEvent → Option RegistryRun
  | .enroll now fails serverID duration token =>
    let (result, r) := s.registry.enrollWithExpiry now fails serverID duration token
    let e := Enrollment.issue now duration token serverID
    some (s.recordIf (stored result) r [.issued e.token e.serverID e.expiresAt])
  | .reissue now fails front choice duration token =>
    let (result, r) := s.registry.reissueEnrollment now fails front choice duration token
    match s.registry.picked (trimSpace front) choice with
    | none => some { s with registry := r }
    | some old =>
      let e := Enrollment.issue now duration token old.serverID
      some (s.recordIf (stored result) r
        (.issued e.token e.serverID e.expiresAt :: if done result then [.cancelled (trimSpace front) old.token] else []))
  | .revokeEnrollment fails front choice =>
    let (result, r) := s.registry.revokeEnrollment fails front choice
    match s.registry.picked (trimSpace front) choice with
    | none => some { s with registry := r }
    | some old => some (s.recordIf (done result) r [.cancelled (trimSpace front) old.token])
  | .list now fails => some { s with registry := (s.registry.listEnrollments now fails).2 }
  | .consume now fails token secret suffix =>
    let (result, r) := s.registry.consumeToken now fails token secret suffix
    match s.registry.data.enrollment token with
    | none => some { s with registry := r }
    | some e =>
      some (s.recordIf (stored result) r
        [.enrolled token (.enroll now e.serverID secret suffix) (done result)])
  | .revoke now fails agentID =>
    let (result, r) := s.registry.revoke now fails agentID
    some (s.recordIf (done result) r [.revoked agentID])
  | .revokeServer now fails serverID =>
    let (result, r) := s.registry.revokeServer now fails serverID
    some (s.recordIf (done result) r [.closed serverID])
  | .deleteServer fails serverID =>
    let (result, r) := s.registry.deleteServer fails serverID
    some (s.recordIf (done result) r [.closed serverID])
  | .touch now serverID => some { s with registry := s.registry.touchServer now serverID }
  | .reload => some { s with registry := s.registry.reload }
  | .authorize agentID =>
    if done (s.registry.data.authorizeStream agentID) then some { s with pending := s.pending ++ [agentID] } else none
  | .finish i =>
    match s.pending[i]? with
    | none => none
    | some agentID => some { s with pending := s.pending.eraseIdx i, trace := .served agentID :: s.trace }

def Steps (s : RegistryRun) (e : RegistryEvent) (s' : RegistryRun) : Prop := s.perform e = some s'

end RegistryRun

namespace RegistryData

/-- Nothing is added: tokens may be gone or used, agents gone or revoked. -/
structure Shrinks (d d' : RegistryData) : Prop where
  enrollments : ∀ e' ∈ d'.enrollments, ∃ e ∈ d.enrollments,
    e'.token = e.token ∧ e'.serverID = e.serverID ∧ e'.expiresAt = e.expiresAt ∧ (e.used = true → e'.used = true)
  agents : ∀ a' ∈ d'.agents, ∃ a ∈ d.agents,
    a'.id = a.id ∧ a'.serverID = a.serverID ∧ a'.key = a.key ∧ (a.revoked = true → a'.revoked = true)
  names : (d'.agents.map Agent.id).Sublist (d.agents.map Agent.id)
  active : d'.active ≤ d.active

variable {d d' d'' : RegistryData}

theorem Shrinks.refl (d : RegistryData) : d.Shrinks d :=
  ⟨fun e held => ⟨e, held, rfl, rfl, rfl, id⟩, fun a held => ⟨a, held, rfl, rfl, rfl, id⟩, .refl _, le_refl _⟩

theorem Shrinks.of_agents (agents : d'.agents = d.agents)
    (enrollments : ∀ e' ∈ d'.enrollments, ∃ e ∈ d.enrollments,
      e'.token = e.token ∧ e'.serverID = e.serverID ∧ e'.expiresAt = e.expiresAt ∧ (e.used = true → e'.used = true)) :
    d.Shrinks d' := by
  refine ⟨enrollments, ?_, ?_, ?_⟩
  · rw [agents]
    exact (Shrinks.refl d).agents
  · rw [agents]
  · rw [RegistryData.active, agents]
    exact le_refl _

theorem Shrinks.of_eq (enrollments : d'.enrollments = d.enrollments) (agents : d'.agents = d.agents) : d.Shrinks d' := by
  apply of_agents agents
  rw [enrollments]
  exact (Shrinks.refl d).enrollments

theorem Shrinks.of_filter {keep : Enrollment → Bool} (enrollments : d'.enrollments = d.enrollments.filter keep)
    (agents : d'.agents = d.agents) : d.Shrinks d' := by
  apply of_agents agents
  intro e' held
  rw [enrollments] at held
  exact ⟨e', List.mem_of_mem_filter held, rfl, rfl, rfl, id⟩

theorem Shrinks.of_use {now : Time} {token : Bytes} (agents : d'.agents = d.agents)
    (enrollments : d'.enrollments = d.enrollments.map fun e => if e.token = token then e.use now else e) :
    d.Shrinks d' := by
  apply of_agents agents
  intro e' held
  rw [enrollments] at held
  obtain ⟨e, inside, rfl⟩ := List.mem_map.mp held
  refine ⟨e, inside, ?_⟩
  split
  · exact ⟨rfl, rfl, rfl, fun _ => rfl⟩
  · exact ⟨rfl, rfl, rfl, id⟩

theorem Shrinks.of_revoke {now : Time} (picks : Agent → Prop) [DecidablePred picks]
    (enrollments : d'.enrollments = d.enrollments)
    (agents : d'.agents = d.agents.map fun a => if picks a then a.revoke now else a) : d.Shrinks d' := by
  refine ⟨?_, ?_, ?_, ?_⟩
  · rw [enrollments]
    exact (Shrinks.refl d).enrollments
  · intro a' held
    rw [agents] at held
    obtain ⟨a, inside, rfl⟩ := List.mem_map.mp held
    refine ⟨a, inside, ?_⟩
    split
    · exact ⟨rfl, rfl, rfl, fun _ => rfl⟩
    · exact ⟨rfl, rfl, rfl, id⟩
  · have same : Agent.id ∘ (fun a => if picks a then a.revoke now else a) = Agent.id := by
      funext a
      simp only [Function.comp_apply]
      split <;> rfl
    rw [agents, List.map_map, same]
  · rw [RegistryData.active, agents, List.countP_map]
    apply List.countP_mono_left
    intro a _ live
    by_cases picked : picks a
    · simp [picked, Agent.revoke] at live
    · simpa [picked] using live

theorem Shrinks.delete_server (d : RegistryData) (keepAgent : Agent → Bool) (keepToken : Enrollment → Bool)
    (servers : List Server) : d.Shrinks ⟨d.agents.filter keepAgent, d.enrollments.filter keepToken, servers⟩ := by
  refine ⟨fun e' held => ?_, fun a' held => ?_, ?_, ?_⟩
  · exact ⟨e', (List.mem_filter.mp held).1, rfl, rfl, rfl, id⟩
  · exact ⟨a', (List.mem_filter.mp held).1, rfl, rfl, rfl, id⟩
  · exact List.filter_sublist.map Agent.id
  · exact List.filter_sublist.countP_le

end RegistryData

def RegistryEvent.token : RegistryEvent → Option Bytes
  | .enroll _ _ _ _ token | .reissue _ _ _ _ _ token => some token
  | _ => none

namespace RegistryRun

def Written (s s' : RegistryRun) : Prop := s'.registry.file = s.registry.file ∨ s'.registry.file = s'.registry.data

inductive Change (s : RegistryRun) (event : RegistryEvent) (s' : RegistryRun) : Prop where
  | shrink (small : s.registry.data.Shrinks s'.registry.data ∨ s'.registry.data = s.registry.file) (file : Written s s')
      (trace : s'.trace = s.trace)
  | issue (e : Enrollment) {d : RegistryData} (small : s.registry.data.Shrinks d) (drawn : event.token = some e.token)
      (unused : e.used = false) (data : s'.registry.data = d.putEnrollment e) (file : Written s s')
      (trace : s'.trace = .issued e.token e.serverID e.expiresAt :: s.trace)
  | reissue (e : Enrollment) {old : Enrollment} {front : Bytes} (held : old ∈ s.registry.data.enrollments)
      (begins : startsWith old.token front = true) (drawn : event.token = some e.token) (unused : e.used = false)
      (data : s'.registry.data = (s.registry.data.deleteEnrollment old.token).putEnrollment e)
      (file : s'.registry.file = s'.registry.data)
      (trace : s'.trace = .issued e.token e.serverID e.expiresAt :: .cancelled front old.token :: s.trace)
  | cancel {old : Enrollment} {front : Bytes} (held : old ∈ s.registry.data.enrollments)
      (begins : startsWith old.token front = true) (data : s'.registry.data = s.registry.data.deleteEnrollment old.token)
      (file : s'.registry.file = s'.registry.data) (trace : s'.trace = .cancelled front old.token :: s.trace)
  | enroll {now : Time} {fails : Bool} {e : Enrollment} {secret suffix : Bytes} (returned : Bool)
      (same : event = .consume now fails e.token secret suffix) (held : e ∈ s.registry.data.enrollments)
      (unused : e.used = false) (fresh : e.expired now = false) (room : s.registry.full = false)
      (enrollments : s'.registry.data.enrollments =
        s.registry.data.enrollments.map fun old => if old.token = e.token then old.use now else old)
      (agents : s'.registry.data.agents = (s.registry.data.putAgent (.enroll now e.serverID secret suffix)).agents)
      (file : s'.registry.file = if returned then s'.registry.data else s.registry.file)
      (trace : s'.trace = .enrolled e.token (.enroll now e.serverID secret suffix) returned :: s.trace)
  | revoke {now : Time} {fails : Bool} {agentID : Bytes} (same : event = .revoke now fails agentID)
      (held : ∃ a ∈ s.registry.data.agents, a.id = agentID) (small : s.registry.data.Shrinks s'.registry.data)
      (file : s'.registry.file = s'.registry.data ∧ (∀ a ∈ s'.registry.data.agents, a.id = agentID → a.revoked = true) ∨
        s'.registry = s.registry ∧ ∃ a, s.registry.data.agent agentID = some a ∧ a.revoked = true)
      (trace : s'.trace = .revoked agentID :: s.trace)
  | close {serverID : Bytes} (small : s.registry.data.Shrinks s'.registry.data)
      (agents : ∀ a ∈ s'.registry.data.agents, a.serverID = serverID → a.revoked = true)
      (tokens : ∀ e ∈ s'.registry.data.enrollments, e.serverID = serverID →
        ∃ now fails, event = .revokeServer now fails serverID ∧ e ∈ s.registry.data.enrollments)
      (file : s'.registry.file = s'.registry.data) (trace : s'.trace = .closed serverID :: s.trace)
  | authorize {agentID : Bytes} (same : event = .authorize agentID) (registry : s'.registry = s.registry)
      (authorized : done (s.registry.data.authorizeStream agentID) = true) (pending : s'.pending = s.pending ++ [agentID])
      (trace : s'.trace = s.trace)
  | finish {i : Nat} {agentID : Bytes} (same : event = .finish i) (registry : s'.registry = s.registry)
      (waits : s.pending[i]? = some agentID) (pending : s'.pending = s.pending.eraseIdx i)
      (trace : s'.trace = .served agentID :: s.trace)

variable {s s' : RegistryRun} {event : RegistryEvent}

theorem Change.none (registry : s'.registry = s.registry) (trace : s'.trace = s.trace) : Change s event s' := by
  refine .shrink (.inl ?_) (.inl ?_) trace
  · rw [registry]
    exact .refl _
  · rw [registry]

theorem picked_mem {r : Registry} {front : Bytes} {choice : Nat} {e : Enrollment} (found : r.picked front choice = some e) :
    e ∈ r.data.enrollments ∧ startsWith e.token front = true := by
  have inside := List.mem_of_getElem? found
  rw [List.mem_filter] at inside
  exact inside

theorem change_enroll {now : Time} {fails : Bool} {serverID : Bytes} {duration : Time} {token : Bytes}
    (step : s.Steps (.enroll now fails serverID duration token) s') :
    Change s (.enroll now fails serverID duration token) s' := by
  unfold Steps perform Registry.enrollWithExpiry at step
  simp only [Option.some.injEq] at step
  subst step
  split
  · exact .none rfl rfl
  · split
    · exact .none rfl rfl
    · cases fails with
      | true => exact .issue (.issue now duration token serverID) (.refl _) rfl rfl rfl (.inl rfl) rfl
      | false => exact .issue (.issue now duration token serverID) (.refl _) rfl rfl rfl (.inr rfl) rfl

theorem change_reissue {now : Time} {fails : Bool} {front : Bytes} {choice : Nat} {duration : Time} {token : Bytes}
    (step : s.Steps (.reissue now fails front choice duration token) s') :
    Change s (.reissue now fails front choice duration token) s' := by
  unfold Steps perform Registry.reissueEnrollment at step
  dsimp only at step
  cases found : s.registry.picked (trimSpace front) choice with
  | none =>
    simp only [found, Option.some.injEq] at step
    subst step
    split
    · exact .none rfl rfl
    · exact .none rfl rfl
  | some old =>
    simp only [found, Option.some.injEq] at step
    subst step
    split
    · exact .none rfl rfl
    · cases fails with
      | true =>
        exact .issue (.issue now duration token old.serverID) (d := s.registry.data.deleteEnrollment old.token)
          (.of_filter rfl rfl) rfl rfl rfl (.inl rfl) rfl
      | false =>
        exact .reissue (.issue now duration token old.serverID) (picked_mem found).1 (picked_mem found).2 rfl rfl rfl rfl
          rfl

theorem change_revokeEnrollment {fails : Bool} {front : Bytes} {choice : Nat}
    (step : s.Steps (.revokeEnrollment fails front choice) s') : Change s (.revokeEnrollment fails front choice) s' := by
  unfold Steps perform Registry.revokeEnrollment at step
  dsimp only at step
  cases found : s.registry.picked (trimSpace front) choice with
  | none =>
    simp only [found, Option.some.injEq] at step
    subst step
    split
    · exact .none rfl rfl
    · exact .none rfl rfl
  | some old =>
    simp only [found, Option.some.injEq] at step
    subst step
    split
    · exact .none rfl rfl
    · cases fails with
      | true => exact .shrink (.inl (.of_filter rfl rfl)) (.inl rfl) rfl
      | false => exact .cancel (picked_mem found).1 (picked_mem found).2 rfl rfl rfl

theorem change_list {now : Time} {fails : Bool} (step : s.Steps (.list now fails) s') : Change s (.list now fails) s' := by
  unfold Steps perform Registry.listEnrollments at step
  simp only [Option.some.injEq] at step
  subst step
  split
  · cases fails with
    | true => exact .shrink (.inl (.of_filter rfl rfl)) (.inl rfl) rfl
    | false => exact .shrink (.inl (.of_filter rfl rfl)) (.inr rfl) rfl
  · exact .none rfl rfl

theorem change_consume {now : Time} {fails : Bool} {token secret suffix : Bytes}
    (step : s.Steps (.consume now fails token secret suffix) s') : Change s (.consume now fails token secret suffix) s' := by
  unfold Steps perform Registry.consumeToken at step
  dsimp only at step
  cases found : s.registry.data.enrollment token with
  | none =>
    simp only [found] at step
    cases step
    exact .none rfl rfl
  | some e =>
    simp only [found, Option.some.injEq] at step
    have named : e.token = token := by simpa using List.find?_some found
    have held : e ∈ s.registry.data.enrollments := List.mem_of_find?_eq_some found
    subst named
    subst step
    split
    · exact .none rfl rfl
    · rename_i unused
      split
      · exact .none rfl rfl
      · rename_i fresh
        split
        · exact .none rfl rfl
        · rename_i room
          have unused : e.used = false := by simpa using unused
          have fresh : e.expired now = false := by simpa using fresh
          have room : s.registry.full = false := by simpa using room
          cases fails with
          | true => exact .enroll false rfl held unused fresh room rfl rfl rfl rfl
          | false => exact .enroll true rfl held unused fresh room rfl rfl rfl rfl

theorem change_revoke {now : Time} {fails : Bool} {agentID : Bytes} (step : s.Steps (.revoke now fails agentID) s') :
    Change s (.revoke now fails agentID) s' := by
  unfold Steps perform Registry.revoke at step
  simp only [Option.some.injEq] at step
  subst step
  cases found : s.registry.data.agent agentID with
  | none => exact .none rfl rfl
  | some a =>
    have held : ∃ a ∈ s.registry.data.agents, a.id = agentID :=
      ⟨a, List.mem_of_find?_eq_some found, by simpa using List.find?_some found⟩
    simp only
    split
    · rename_i already
      exact .revoke rfl held (.refl _) (.inr ⟨rfl, a, found, already⟩) rfl
    · cases fails with
      | true => exact .shrink (.inl (.of_revoke (fun a => a.id = agentID) rfl rfl)) (.inl rfl) rfl
      | false =>
        refine .revoke rfl held (.of_revoke (fun a => a.id = agentID) rfl rfl) (.inl ⟨rfl, ?_⟩) rfl
        intro b inside named
        obtain ⟨b, -, rfl⟩ := List.mem_map.mp inside
        split at named
        · simp [*, Agent.revoke]
        · exact absurd named (by assumption)

theorem change_revokeServer {now : Time} {fails : Bool} {serverID : Bytes}
    (step : s.Steps (.revokeServer now fails serverID) s') : Change s (.revokeServer now fails serverID) s' := by
  unfold Steps perform Registry.revokeServer at step
  simp only [Option.some.injEq] at step
  subst step
  split
  · have small {r : Registry} (agents : r.data.agents = s.registry.data.agents.map fun a =>
        if a.serverID = serverID ∧ a.revoked = false then a.revoke now else a)
        (enrollments : r.data.enrollments = s.registry.data.enrollments) : s.registry.data.Shrinks r.data :=
      .of_revoke (fun a => a.serverID = serverID ∧ a.revoked = false) enrollments agents
    cases fails with
    | true => exact .shrink (.inl (small rfl rfl)) (.inl rfl) rfl
    | false =>
      refine .close (small rfl rfl) ?_ (fun e held _ => ⟨now, false, rfl, held⟩) rfl rfl
      intro b inside named
      obtain ⟨b, -, rfl⟩ := List.mem_map.mp inside
      split at named
      · simp [*, Agent.revoke]
      · simp_all
  · exact .none rfl rfl

theorem change_deleteServer {fails : Bool} {serverID : Bytes} (step : s.Steps (.deleteServer fails serverID) s') :
    Change s (.deleteServer fails serverID) s' := by
  unfold Steps perform Registry.deleteServer at step
  simp only [Option.some.injEq] at step
  subst step
  split
  · cases fails with
    | true => exact .shrink (.inl (.delete_server _ _ _ _)) (.inl rfl) rfl
    | false =>
      refine .close (.delete_server _ _ _ _) ?_ ?_ rfl rfl
      · intro a inside named
        have other := (List.mem_filter.mp inside).2
        simp [named] at other
      · intro e inside named
        have other := (List.mem_filter.mp inside).2
        simp [named] at other
  · exact .none rfl rfl

theorem Steps.change (step : s.Steps event s') : Change s event s' := by
  cases event with
  | enroll now fails serverID duration token => exact change_enroll step
  | reissue now fails front choice duration token => exact change_reissue step
  | revokeEnrollment fails front choice => exact change_revokeEnrollment step
  | list now fails => exact change_list step
  | consume now fails token secret suffix => exact change_consume step
  | revoke now fails agentID => exact change_revoke step
  | revokeServer now fails serverID => exact change_revokeServer step
  | deleteServer fails serverID => exact change_deleteServer step
  | touch now serverID =>
    cases step
    exact .shrink (.inl (.of_eq rfl rfl)) (.inl rfl) rfl
  | reload =>
    cases step
    exact .shrink (.inr rfl) (.inl rfl) rfl
  | authorize agentID =>
    unfold Steps perform at step
    dsimp only at step
    split at step
    · cases step
      exact .authorize rfl rfl (by assumption) rfl rfl
    · cases step
  | finish i =>
    unfold Steps perform at step
    dsimp only at step
    split at step
    · cases step
    · cases step
      exact .finish rfl rfl (by assumption) rfl rfl

end RegistryRun

end PocketKafka.Fleet
