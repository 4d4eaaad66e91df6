import PocketKafka.Fleet.RegistryRuns

namespace PocketKafka.Fleet

open Bytes Runs Text

namespace RegistryData

/-- What the data may hold after what has happened: tokens that were issued, whose use is on record, and that no call has
    taken back. -/
structure Honest (trace : List RegistryEntry) (maxAgents : Int) (d : RegistryData) : Prop where
  issued : ∀ e ∈ d.enrollments, .issued e.token e.serverID e.expiresAt ∈ trace
  spent : ∀ e ∈ d.enrollments, ∀ agent, .enrolled e.token agent true ∈ trace → e.used = true
  live : ∀ e ∈ d.enrollments, ∀ front, .cancelled front e.token ∉ trace
  bound : 0 < maxAgents → d.active ≤ maxAgents

variable {trace : List RegistryEntry} {maxAgents : Int} {d d' : RegistryData}

theorem Honest.shrinks (honest : d.Honest trace maxAgents) (small : d.Shrinks d') : d'.Honest trace maxAgents := by
  constructor
  · intro e' held
    obtain ⟨e, there, token, server, expiry, -⟩ := small.enrollments e' held
    rw [token, server, expiry]
    exact honest.issued e there
  · intro e' held agent returned
    obtain ⟨e, there, token, -, -, used⟩ := small.enrollments e' held
    rw [token] at returned
    exact used (honest.spent e there agent returned)
  · intro e' held front
    obtain ⟨e, there, token, -⟩ := small.enrollments e' held
    rw [token]
    exact honest.live e there front
  · intro limited
    have := honest.bound limited
    have := small.active
    omega

theorem Honest.add (honest : d.Honest trace maxAgents) (entry : RegistryEntry)
    (spent : ∀ token agent, entry = .enrolled token agent true → ∀ e ∈ d.enrollments, e.token = token → e.used = true)
    (live : ∀ front token, entry = .cancelled front token → ∀ e ∈ d.enrollments, e.token ≠ token) :
    d.Honest (entry :: trace) maxAgents := by
  constructor
  · exact fun e held => List.mem_cons_of_mem _ (honest.issued e held)
  · intro e held agent returned
    rcases List.mem_cons.mp returned with new | old
    · exact spent e.token agent new.symm e held rfl
    · exact honest.spent e held agent old
  · intro e held front cancelled
    rcases List.mem_cons.mp cancelled with new | old
    · exact live front e.token new.symm e held rfl
    · exact honest.live e held front old
  · exact honest.bound

end RegistryData

/-- The tokens of a run are distinct, and nothing is on record of one that was not issued. -/
structure Issues (trace : List RegistryEntry) : Prop where
  unique : ∀ {token server expiry server' expiry'}, .issued token server expiry ∈ trace →
    .issued token server' expiry' ∈ trace →
    expiry' = expiry
  length : ∀ {token server expiry}, .issued token server expiry ∈ trace → token.length = 64
  enrolled : ∀ {token agent returned}, .enrolled token agent returned ∈ trace →
    ∃ server expiry, .issued token server expiry ∈ trace
  cancelled : ∀ {front token}, .cancelled front token ∈ trace →
    startsWith token front = true ∧ ∃ server expiry, .issued token server expiry ∈ trace

def RegistryEntry.issuedToken : RegistryEntry → Option Bytes
  | .issued token _ _ => some token
  | _ => none

def Unissued (trace : List RegistryEntry) (token : Bytes) : Prop := ∀ server expiry, .issued token server expiry ∉ trace

theorem unissued_iff {trace : List RegistryEntry} {token : Bytes} :
    Unissued trace token ↔ ∀ entry ∈ trace, entry.issuedToken ≠ some token := by
  constructor
  · rintro unissued entry member same
    cases entry with
    | issued t server expiry =>
      cases same
      exact unissued server expiry member
    | _ => cases same
  · exact fun none server expiry member => none _ member rfl

instance (trace : List RegistryEntry) (token : Bytes) : Decidable (Unissued trace token) := decidable_of_iff' _ unissued_iff

namespace Issues

variable {trace : List RegistryEntry}

theorem add (issues : Issues trace) (entry : RegistryEntry)
    (other : ∀ token server expiry, entry ≠ .issued token server expiry)
    (enrolled : ∀ token agent returned, entry = .enrolled token agent returned → ∃ server expiry,
      .issued token server expiry ∈ trace)
    (cancelled : ∀ front token, entry = .cancelled front token →
      startsWith token front = true ∧ ∃ server expiry, .issued token server expiry ∈ trace) : Issues (entry :: trace) := by
  have old : ∀ {token server expiry}, .issued token server expiry ∈ entry :: trace →
    .issued token server expiry ∈ trace := by
    intro token server expiry member
    rcases List.mem_cons.mp member with new | old
    · exact absurd new.symm (other token server expiry)
    · exact old
  have lift : ∀ {token}, (∃ server expiry, .issued token server expiry ∈ trace) →
      ∃ server expiry, .issued token server expiry ∈ entry :: trace :=
    fun ⟨server, expiry, member⟩ => ⟨server, expiry, List.mem_cons_of_mem _ member⟩
  constructor
  · exact fun first second => issues.unique (old first) (old second)
  · exact fun member => issues.length (old member)
  · intro token agent returned member
    rcases List.mem_cons.mp member with new | past
    · exact lift (enrolled token agent returned new.symm)
    · exact lift (issues.enrolled past)
  · intro front token member
    rcases List.mem_cons.mp member with new | past
    · exact ⟨(cancelled front token new.symm).1, lift (cancelled front token new.symm).2⟩
    · exact ⟨(issues.cancelled past).1, lift (issues.cancelled past).2⟩

theorem cancel (issues : Issues trace) {front token server : Bytes} {expiry : Option Time}
    (begins : startsWith token front = true) (issued : .issued token server expiry ∈ trace) :
    Issues (.cancelled front token :: trace) := by
  apply issues.add (.cancelled front token) (by simp) (by simp)
  intro _ _ same
  cases same
  exact ⟨begins, server, expiry, issued⟩

theorem issue (issues : Issues trace) {token server : Bytes} {expiry : Option Time} (fresh : Unissued trace token)
    (long : token.length = 64) : Issues (.issued token server expiry :: trace) := by
  have lift : ∀ {t}, (∃ server expiry, .issued t server expiry ∈ trace) →
      ∃ server' expiry', .issued t server' expiry' ∈ .issued token server expiry :: trace :=
    fun ⟨server, expiry, member⟩ => ⟨server, expiry, List.mem_cons_of_mem _ member⟩
  constructor
  · intro t server₁ expiry₁ server₂ expiry₂ first second
    rcases List.mem_cons.mp first with new | old <;> rcases List.mem_cons.mp second with new' | old'
    · cases new
      cases new'
      rfl
    · cases new
      exact absurd old' (fresh _ _)
    · cases new'
      exact absurd old (fresh _ _)
    · exact issues.unique old old'
  · intro t server₁ expiry₁ member
    rcases List.mem_cons.mp member with new | old
    · cases new
      exact long
    · exact issues.length old
  · intro t agent returned member
    rcases List.mem_cons.mp member with new | old
    · cases new
    · exact lift (issues.enrolled old)
  · intro front t member
    rcases List.mem_cons.mp member with new | old
    · cases new
    · exact ⟨(issues.cancelled old).1, lift (issues.cancelled old).2⟩

end Issues

namespace RegistryData

variable {trace : List RegistryEntry} {maxAgents : Int} {d d' : RegistryData}

theorem Honest.put (honest : d.Honest trace maxAgents) (issues : Issues trace) {e : Enrollment}
    (fresh : Unissued trace e.token) :
      (d.putEnrollment e).Honest (.issued e.token e.serverID e.expiresAt :: trace) maxAgents := by
  have added : d.Honest (.issued e.token e.serverID e.expiresAt :: trace) maxAgents :=
    honest.add _ (fun _ _ same => nomatch same) (fun _ _ same => nomatch same)
  have cases_ : ∀ e' ∈ (d.putEnrollment e).enrollments, e' ∈ d.enrollments ∨ e' = e := by
    intro e' held
    rcases List.mem_append.mp held with old | new
    · exact .inl (List.mem_filter.mp old).1
    · exact .inr (List.mem_singleton.mp new)
  constructor
  · intro e' held
    rcases cases_ e' held with old | rfl
    · exact added.issued e' old
    · exact List.mem_cons_self
  · intro e' held agent returned
    rcases cases_ e' held with old | rfl
    · exact added.spent e' old agent returned
    · rcases List.mem_cons.mp returned with new | past
      · cases new
      · obtain ⟨server, expiry, member⟩ := issues.enrolled past
        exact absurd member (fresh server expiry)
  · intro e' held front cancelled
    rcases cases_ e' held with old | rfl
    · exact added.live e' old front cancelled
    · rcases List.mem_cons.mp cancelled with new | past
      · cases new
      · obtain ⟨-, server, expiry, member⟩ := issues.cancelled past
        exact fresh server expiry member
  · exact honest.bound

theorem Honest.delete (honest : d.Honest trace maxAgents) (front token : Bytes) :
    (d.deleteEnrollment token).Honest (.cancelled front token :: trace) maxAgents := by
  have kept : (d.deleteEnrollment token).Honest trace maxAgents := honest.shrinks (.of_filter rfl rfl)
  apply kept.add
  · intro _ _ same
    cases same
  · intro _ _ same e held
    cases same
    simpa using (List.mem_filter.mp held).2

theorem active_putAgent (d : RegistryData) (a : Agent) : (d.putAgent a).active ≤ d.active + 1 := by
  have fewer : (d.agents.filter fun old => old.id ≠ a.id).countP (fun a => !a.revoked) ≤ d.active :=
    List.filter_sublist.countP_le
  simp only [RegistryData.active, putAgent, List.countP_append, List.countP_singleton] at fewer ⊢
  split <;> omega

theorem Honest.enroll (honest : d.Honest trace maxAgents) {now : Time} {token : Bytes} {agent : Agent} (returned : Bool)
    (room : 0 < maxAgents → d.active < maxAgents)
    (enrollments : d'.enrollments = d.enrollments.map fun e => if e.token = token then e.use now else e)
    (agents : d'.agents = (d.putAgent agent).agents) : d'.Honest (.enrolled token agent returned :: trace) maxAgents := by
  let marked : RegistryData := { d with enrollments := d'.enrollments }
  have small : d.Shrinks marked := .of_use rfl enrollments
  have used : marked.Honest (.enrolled token agent returned :: trace) maxAgents := by
    apply (honest.shrinks small).add
    · intro _ _ same e held named
      cases same
      rw [show marked.enrollments = _ from enrollments] at held
      obtain ⟨old, -, rfl⟩ := List.mem_map.mp held
      split at named
      · rw [if_pos (by assumption)]
        rfl
      · exact absurd named (by assumption)
    · simp
  refine ⟨used.issued, used.spent, used.live, fun limited => ?_⟩
  have more := d.active_putAgent agent
  rw [RegistryData.active, ← agents, ← RegistryData.active] at more
  have below := room limited
  omega

end RegistryData

namespace RegistryRun

variable {s s' : RegistryRun} {event : RegistryEvent}

/-- A token that is drawn is new and has the length of all tokens. -/
def FreshTokens (s : RegistryRun) (event : RegistryEvent) : Prop :=
  ∀ token ∈ event.token, token.length = 64 ∧ Unissued s.trace token

structure Accounted (s : RegistryRun) : Prop where
  issues : Issues s.trace
  data : s.registry.data.Honest s.trace s.registry.maxAgents
  file : s.registry.file.Honest s.trace s.registry.maxAgents

theorem Steps.maxAgents (step : s.Steps event s') : s'.registry.maxAgents = s.registry.maxAgents := by
  cases event with
  | enroll now fails serverID duration token =>
    cases step
    exact Registry.enrollWithExpiry_maxAgents ..
  | reissue now fails front choice duration token =>
    simp only [Steps, perform] at step
    split at step <;> cases step <;> exact Registry.reissueEnrollment_maxAgents ..
  | revokeEnrollment fails front choice =>
    simp only [Steps, perform] at step
    split at step <;> cases step <;> exact Registry.revokeEnrollment_maxAgents ..
  | list now fails =>
    cases step
    exact Registry.listEnrollments_maxAgents ..
  | consume now fails token secret suffix =>
    simp only [Steps, perform] at step
    split at step <;> cases step <;> exact Registry.consumeToken_maxAgents ..
  | revoke now fails agentID =>
    cases step
    exact Registry.revoke_maxAgents ..
  | revokeServer now fails serverID =>
    cases step
    exact Registry.revokeServer_maxAgents ..
  | deleteServer fails serverID =>
    cases step
    exact Registry.deleteServer_maxAgents ..
  | touch now serverID =>
    cases step
    rfl
  | reload =>
    cases step
    rfl
  | authorize agentID =>
    simp only [Steps, perform] at step
    split at step <;> cases step
    rfl
  | finish i =>
    simp only [Steps, perform] at step
    split at step <;> cases step
    rfl

theorem Written.honest {trace : List RegistryEntry} {maxAgents : Int} (written : Written s s')
    (file : s.registry.file.Honest trace maxAgents) (data : s'.registry.data.Honest trace maxAgents) :
    s'.registry.file.Honest trace maxAgents := by
  rcases written with old | new
  · rw [old]
    exact file
  · rw [new]
    exact data

theorem honest_quiet {trace : List RegistryEntry} {maxAgents : Int} {d : RegistryData} (honest : d.Honest trace maxAgents)
    {entry : RegistryEntry} (enrolled : ∀ token agent returned, entry ≠ .enrolled token agent returned)
    (cancelled : ∀ front token, entry ≠ .cancelled front token) : d.Honest (entry :: trace) maxAgents :=
  honest.add entry (fun token agent same => absurd same (enrolled token agent true))
    (fun front token same => absurd same (cancelled front token))

theorem issues_quiet {trace : List RegistryEntry} (issues : Issues trace) {entry : RegistryEntry}
    (issued : ∀ token server expiry, entry ≠ .issued token server expiry)
    (enrolled : ∀ token agent returned, entry ≠ .enrolled token agent returned)
    (cancelled : ∀ front token, entry ≠ .cancelled front token) : Issues (entry :: trace) :=
  issues.add entry issued (fun token agent returned same => absurd same (enrolled token agent returned))
    (fun front token same => absurd same (cancelled front token))

namespace Accounted

theorem of_trace {trace : List RegistryEntry} (limit : s'.registry.maxAgents = s.registry.maxAgents)
    (same : s'.trace = trace) (issues : Issues trace) (data : s'.registry.data.Honest trace s.registry.maxAgents)
    (file : s'.registry.file.Honest trace s.registry.maxAgents) : s'.Accounted := by
  subst same
  rw [← limit] at data file
  exact ⟨issues, data, file⟩

theorem shrink (h : s.Accounted) (limit : s'.registry.maxAgents = s.registry.maxAgents)
    (small : s.registry.data.Shrinks s'.registry.data ∨ s'.registry.data = s.registry.file) (file : Written s s')
    (trace : s'.trace = s.trace) : s'.Accounted := by
  have data : s'.registry.data.Honest s.trace s.registry.maxAgents := by
    rcases small with small | reloaded
    · exact h.data.shrinks small
    · rw [reloaded]
      exact h.file
  exact of_trace limit trace h.issues data (file.honest h.file data)

theorem quiet (h : s.Accounted) (limit : s'.registry.maxAgents = s.registry.maxAgents) {entry : RegistryEntry}
    (issued : ∀ token server expiry, entry ≠ .issued token server expiry)
    (enrolled : ∀ token agent returned, entry ≠ .enrolled token agent returned)
    (cancelled : ∀ front token, entry ≠ .cancelled front token) (small : s.registry.data.Shrinks s'.registry.data)
    (file : Written s s') (trace : s'.trace = entry :: s.trace) : s'.Accounted := by
  have data := honest_quiet (h.data.shrinks small) enrolled cancelled
  apply of_trace limit trace (issues_quiet h.issues issued enrolled cancelled) data
  exact file.honest (honest_quiet h.file enrolled cancelled) data

theorem issue (h : s.Accounted) (limit : s'.registry.maxAgents = s.registry.maxAgents) (fresh : FreshTokens s event)
    {e : Enrollment} {d : RegistryData} (small : s.registry.data.Shrinks d) (drawn : event.token = some e.token)
    (put : s'.registry.data = d.putEnrollment e) (file : Written s s')
    (trace : s'.trace = .issued e.token e.serverID e.expiresAt :: s.trace) : s'.Accounted := by
  obtain ⟨long, new⟩ := fresh e.token drawn
  have data : s'.registry.data.Honest (.issued e.token e.serverID e.expiresAt :: s.trace) s.registry.maxAgents := by
    rw [put]
    exact (h.data.shrinks small).put h.issues new
  apply of_trace limit trace (h.issues.issue new long) data
  exact file.honest (honest_quiet h.file (by simp) (by simp)) data

theorem reissue (h : s.Accounted) (limit : s'.registry.maxAgents = s.registry.maxAgents) (fresh : FreshTokens s event)
    {e old : Enrollment} {front : Bytes} (held : old ∈ s.registry.data.enrollments)
    (begins : startsWith old.token front = true) (drawn : event.token = some e.token)
    (put : s'.registry.data = (s.registry.data.deleteEnrollment old.token).putEnrollment e)
    (file : s'.registry.file = s'.registry.data)
    (trace : s'.trace = .issued e.token e.serverID e.expiresAt :: .cancelled front old.token :: s.trace) :
    s'.Accounted := by
  obtain ⟨long, new⟩ := fresh e.token drawn
  have issues := h.issues.cancel begins (h.data.issued old held)
  have new : Unissued (.cancelled front old.token :: s.trace) e.token := by
    intro server expiry member
    rcases List.mem_cons.mp member with same | past
    · cases same
    · exact new server expiry past
  have data := (h.data.delete front old.token).put issues new
  rw [← put] at data
  exact of_trace limit trace (issues.issue new long) data (file ▸ data)

theorem cancel (h : s.Accounted) (limit : s'.registry.maxAgents = s.registry.maxAgents) {old : Enrollment} {front : Bytes}
    (held : old ∈ s.registry.data.enrollments) (begins : startsWith old.token front = true)
    (removed : s'.registry.data = s.registry.data.deleteEnrollment old.token) (file : s'.registry.file = s'.registry.data)
    (trace : s'.trace = .cancelled front old.token :: s.trace) : s'.Accounted := by
  have data := h.data.delete front old.token
  rw [← removed] at data
  exact of_trace limit trace (h.issues.cancel begins (h.data.issued old held)) data (file ▸ data)

theorem enroll (h : s.Accounted) (limit : s'.registry.maxAgents = s.registry.maxAgents) {now : Time} {e : Enrollment}
    {agent : Agent} {returned : Bool} (held : e ∈ s.registry.data.enrollments) (room : s.registry.full = false)
    (enrollments : s'.registry.data.enrollments =
      s.registry.data.enrollments.map fun old => if old.token = e.token then old.use now else old)
    (agents : s'.registry.data.agents = (s.registry.data.putAgent agent).agents)
    (file : s'.registry.file = if returned then s'.registry.data else s.registry.file)
    (trace : s'.trace = .enrolled e.token agent returned :: s.trace) : s'.Accounted := by
  have below : 0 < s.registry.maxAgents → (s.registry.data.active : Int) < s.registry.maxAgents := by
    intro limited
    by_contra above
    simp [Registry.full, limited, not_lt.mp above] at room
  have data := h.data.enroll returned below enrollments agents
  apply of_trace limit trace _ data
  · rw [file]
    cases returned with
    | true => exact data
    | false => exact h.file.add _ (by simp) (by simp)
  · apply h.issues.add (.enrolled e.token agent returned) (by simp) _ (by simp)
    intro _ _ _ same
    cases same
    exact ⟨_, _, h.data.issued e held⟩

theorem step (h : s.Accounted) (fresh : FreshTokens s event) (step : s.Steps event s') : s'.Accounted := by
  have limit := step.maxAgents
  cases step.change with
  | shrink small file trace => exact h.shrink limit small file trace
  | issue e small drawn unused data file trace => exact h.issue limit fresh small drawn data file trace
  | reissue e held begins drawn unused data file trace => exact h.reissue limit fresh held begins drawn data file trace
  | cancel held begins data file trace => exact h.cancel limit held begins data file trace
  | enroll returned same held unused valid room enrollments agents file trace =>
    exact h.enroll limit held room enrollments agents file trace
  | revoke same held small file trace =>
    apply h.quiet limit (by simp) (by simp) (by simp) small _ trace
    rcases file with ⟨written, -⟩ | ⟨unchanged, -⟩
    · exact .inr written
    · exact .inl (congrArg Registry.file unchanged)
  | close small agents tokens file trace => exact h.quiet limit (by simp) (by simp) (by simp) small (.inr file) trace
  | authorize same registry authorized pending trace =>
    exact h.shrink limit (.inl (registry ▸ .refl _)) (.inl (congrArg Registry.file registry)) trace
  | finish same registry waits pending trace =>
    exact h.quiet limit (by simp) (by simp) (by simp) (registry ▸ .refl _) (.inl (congrArg Registry.file registry)) trace

end Accounted

theorem initial_accounted (maxAgents : Int) : (initial maxAgents).Accounted := by
  have empty : RegistryData.Honest [] maxAgents ⟨[], [], []⟩ :=
    ⟨nofun, nofun, nofun, fun limited => le_of_lt limited⟩
  exact ⟨⟨nofun, nofun, nofun, nofun⟩, empty, empty⟩

theorem consumeToken_ok {r : Registry} {now : Time} {fails : Bool} {token secret suffix : Bytes} {agent : Agent}
    (done : (r.consumeToken now fails token secret suffix).1 = .ok agent) :
    ∃ e ∈ r.data.enrollments, e.token = token ∧ e.used = false ∧ e.expired now = false := by
  unfold Registry.consumeToken at done
  split at done
  · cases done
  · rename_i e found
    split at done
    · cases done
    · rename_i unused
      split at done
      · cases done
      · rename_i fresh
        exact ⟨e, List.mem_of_find?_eq_some found, by simpa using List.find?_some found, by simpa using unused,
          by simpa using fresh⟩

/-- In every reached state the agents that are not revoked are within the limit, and a token that is accepted has never
been accepted before, has not expired, and no call has revoked or reissued it. -/
theorem enrollment_once (maxAgents : Int) {s : RegistryRun} (run : Reaches FreshTokens Steps (initial maxAgents) s) :
    (0 < maxAgents → s.registry.data.active ≤ maxAgents) ∧
    ∀ now fails token secret suffix agent, (s.registry.consumeToken now fails token secret suffix).1 = .ok agent →
      (∀ earlier, .enrolled token earlier true ∉ s.trace) ∧
      (∀ server expiry, .issued token server (some expiry) ∈ s.trace → now ≤ expiry) ∧
      (∀ front cancelled, .cancelled front cancelled ∈ s.trace → front ≠ token ∧ cancelled ≠ token) := by
  have both : s.Accounted ∧ s.registry.maxAgents = maxAgents := by
    apply run.invariant ⟨initial_accounted maxAgents, rfl⟩
    rintro s event s' ⟨h, limit⟩ fresh step
    exact ⟨h.step fresh step, step.maxAgents.trans limit⟩
  obtain ⟨h, limit⟩ := both
  refine ⟨limit ▸ h.data.bound, fun now fails token secret suffix agent done => ?_⟩
  obtain ⟨e, held, rfl, unused, fresh⟩ := consumeToken_ok done
  refine ⟨fun earlier returned => ?_, fun server expiry issued => ?_, fun front cancelled taken => ?_⟩
  · rw [h.data.spent e held earlier returned] at unused
    cases unused
  · have expiry := h.issues.unique (h.data.issued e held) issued
    simp only [Enrollment.expired, ← expiry, Option.any_some, decide_eq_false_iff_not, not_lt] at fresh
    exact fresh
  · have other : cancelled ≠ e.token := by
      rintro rfl
      exact h.data.live e held front taken
    refine ⟨?_, other⟩
    rintro rfl
    obtain ⟨begins, server, expiry, issued⟩ := h.issues.cancelled taken
    have lengths := (h.issues.length issued).trans (h.issues.length (h.data.issued e held)).symm
    rw [startsWith, List.isPrefixOf_iff_prefix] at begins
    exact other (begins.eq_of_length lengths.symm).symm

instance (s : RegistryRun) (event : RegistryEvent) : Decidable (FreshTokens s event) := by
  unfold FreshTokens
  infer_instance

private def token : Bytes := List.replicate 64 97

theorem enrollment_once_alone : ∃ s, Reaches FreshTokens Steps (initial 1) s ∧ s.registry.data.active ≤ 1 ∧
    (s.registry.consumeToken 5 false token (ascii "secret") (ascii "0123")).1 =
      .ok ⟨ascii "agent-s-0123", ascii "s", ascii "secret", false, none, 5⟩ ∧
    ∀ front cancelled, .cancelled front cancelled ∈ s.trace → front ≠ token ∧ cancelled ≠ token := by
  obtain ⟨s, run, accepted⟩ : ∃ s, Reaches FreshTokens Steps (initial 1) s ∧
      (s.registry.consumeToken 5 false token (ascii "secret") (ascii "0123")).1 =
        .ok ⟨ascii "agent-s-0123", ascii "s", ascii "secret", false, none, 5⟩ :=
    exists_reaches [.enroll 0 false (ascii "s") 10 token, .consume 5 true token (ascii "lost") (ascii "4567"), .reload]
      (fun _ _ _ step => step) (by decide +kernel)
  have result := enrollment_once 1 run
  exact ⟨s, run, by exact_mod_cast result.1 (by decide), accepted, (result.2 _ _ _ _ _ _ accepted).2.2⟩

end RegistryRun

end PocketKafka.Fleet
