import PocketKafka.Fleet.Registry

namespace PocketKafka.Fleet

open Bytes Text

inductive RegistryCall where
  | enroll (now : Time) (serverID token : Bytes)
  | reissueEnrollment (now : Time) (front : Bytes) (choice : Nat) (duration : Time) (token : Bytes)
  | revokeEnrollment (front : Bytes) (choice : Nat)
  | consumeToken (now : Time) (token secret suffix : Bytes)
  | revoke (now : Time) (agentID : Bytes)
  | revokeServer (now : Time) (serverID : Bytes)
  | deleteServer (serverID : Bytes)

/-- The same agents, enrollments and servers, in any order. -/
structure RegistryData.Same (d d' : RegistryData) : Prop where
  agents : d.agents.Perm d'.agents
  enrollments : d.enrollments.Perm d'.enrollments
  servers : d.servers.Perm d'.servers

instance (d d' : RegistryData) : Decidable (d.Same d') :=
  decidable_of_iff (d.agents.Perm d'.agents ∧ d.enrollments.Perm d'.enrollments ∧ d.servers.Perm d'.servers)
    ⟨fun h => ⟨h.1, h.2.1, h.2.2⟩, fun h => ⟨h.agents, h.enrollments, h.servers⟩⟩

namespace RegistryData.Same

variable {d d' d'' : RegistryData}

theorem refl (d : RegistryData) : d.Same d := ⟨.refl _, .refl _, .refl _⟩

theorem symm (h : d.Same d') : d'.Same d := ⟨h.agents.symm, h.enrollments.symm, h.servers.symm⟩

theorem trans (h : d.Same d') (h' : d'.Same d'') : d.Same d'' :=
  ⟨h.agents.trans h'.agents, h.enrollments.trans h'.enrollments, h.servers.trans h'.servers⟩

end RegistryData.Same

namespace Registry

variable (r : Registry)

def fails {α : Type} : Except RegistryError α × Registry → Bool × Registry
  | (.ok _, r) => (false, r)
  | (.error _, r) => (true, r)

def enroll (now : Time) (fails : Bool) (serverID token : Bytes) : Except RegistryError Bytes × Registry :=
  r.enrollWithExpiry now fails serverID (15 * 60 * 10 ^ 9) token

/-- Whether the call returns an error, and the registry after it. `broken` says that the file cannot be written. -/
def call (broken : Bool) : RegistryCall → Bool × Registry
  | .enroll now serverID token => fails (r.enroll now broken serverID token)
  | .reissueEnrollment now front choice duration token => fails (r.reissueEnrollment now broken front choice duration token)
  | .revokeEnrollment front choice => fails (r.revokeEnrollment broken front choice)
  | .consumeToken now token secret suffix => fails (r.consumeToken now broken token secret suffix)
  | .revoke now agentID => fails (r.revoke now broken agentID)
  | .revokeServer now serverID => fails (r.revokeServer now broken serverID)
  | .deleteServer serverID => fails (r.deleteServer broken serverID)

/-- If the call returns an error, the memory is as before and as the file, and a call with a file that can be written
returns what it would have returned. -/
def Traceless (broken : Bool) (c : RegistryCall) : Prop :=
  (r.call broken c).1 = true →
    (r.call broken c).2.data.Same r.data ∧ (r.call broken c).2.data.Same (r.call broken c).2.file ∧
      ((r.call broken c).2.call false c).1 = (r.call false c).1

def accepted : RegistryCall → Bool
  | .enroll _ serverID _ => trimSpace serverID ≠ [] && !r.full
  | .reissueEnrollment _ front choice _ _ | .revokeEnrollment front choice =>
    trimSpace front ≠ [] && (r.picked (trimSpace front) choice).isSome
  | .consumeToken now token _ _ => (r.data.enrollment token).any fun e => !e.used && !e.expired now && !r.full
  | .revoke _ agentID => (r.data.agent agentID).any fun a => !a.revoked
  | .revokeServer _ serverID =>
    r.data.agents.any (fun a => a.serverID = serverID ∧ a.revoked = false) || r.data.servers.any (fun s => s.id = serverID)
  | .deleteServer serverID =>
    r.data.agents.any (fun a => a.serverID = serverID) || r.data.servers.any (fun s => s.id = serverID) ||
      r.data.enrollments.any (fun e => e.serverID = serverID)

/-- The agent is revoked already, and the call has nothing to do. -/
def idle : RegistryCall → Bool
  | .revoke _ agentID => (r.data.agent agentID).any Agent.revoked
  | _ => false

def holds (e : Enrollment) : Bool := r.data.enrollments.filter (fun old => old.token = e.token) = [e]

/-- What the call would write is there already: a server that was revoked at the same instant, or an enrollment that is
drawn a second time. -/
def settled : RegistryCall → Bool
  | .enroll now serverID token => r.holds (.issue now (15 * 60 * 10 ^ 9) token serverID)
  | .reissueEnrollment now front choice duration token =>
    (r.picked (trimSpace front) choice).any fun e => token = e.token && r.holds (.issue now duration token e.serverID)
  | .revokeServer now serverID =>
    r.data.agents.all (fun a => a.serverID ≠ serverID ∨ a.revoked) &&
      r.data.servers.all (fun s => s.id ≠ serverID ∨ s.status = .revoked ∧ s.updatedAt = now)
  | _ => false

/-- A call that cannot return without an error finds the memory as the file is, and, past its checks, nothing to change. -/
def Clean (broken : Bool) (c : RegistryCall) : Prop :=
  r.idle c = false → (r.accepted c = true → broken = true) →
    r.data.Same r.file ∧ (r.accepted c = true → r.settled c = true)

variable {r} {broken : Bool} {now duration : Time} {choice : Nat} {serverID agentID token front secret suffix : Bytes}

/-- The call gets to its write: what the data become, which is what they were exactly if all is settled. -/
def Attempts (r : Registry) (c : RegistryCall) : Prop :=
  ∃ d, (∀ broken, r.call broken c = (broken, if broken then { r with data := d } else { r with data := d, file := d })) ∧
    (d.Same r.data ↔ r.settled c = true)

theorem fails_persist {α : Type} (d : RegistryData) (result : α) :
    fails (r.persist broken d result) =
      (broken, if broken then { r with data := d } else { r with data := d, file := d }) := by
  cases broken <;> rfl

theorem perm_put (l : List Enrollment) (e : Enrollment) :
    (l.filter (fun old => old.token ≠ e.token) ++ [e]).Perm l ↔ l.filter (fun old => old.token = e.token) = [e] := by
  have parts : (l.filter (fun old => old.token = e.token) ++ l.filter (fun old => old.token ≠ e.token)).Perm l := by
    simpa using List.filter_append_perm (fun old : Enrollment => decide (old.token = e.token)) l
  have swapped : (l.filter (fun old => old.token ≠ e.token) ++ [e]).Perm
    ([e] ++ l.filter (fun old => old.token ≠ e.token)) :=
    List.perm_append_comm
  constructor
  · intro same
    have := (swapped.symm.trans same).trans parts.symm
    exact List.perm_singleton.mp ((List.perm_append_right_iff _).mp this).symm
  · intro only
    rw [only] at parts
    exact swapped.trans parts

theorem attempts_enroll (passes : r.accepted (.enroll now serverID token) = true) :
    r.Attempts (.enroll now serverID token) := by
  simp only [accepted, Bool.and_eq_true, decide_eq_true_eq, Bool.not_eq_true'] at passes
  refine ⟨r.data.putEnrollment (.issue now (15 * 60 * 10 ^ 9) token serverID), fun broken => ?_, ?_⟩
  · rw [call, enroll, enrollWithExpiry, if_neg passes.1, passes.2]
    exact fails_persist ..
  · rw [settled, holds, decide_eq_true_eq, ← perm_put]
    exact ⟨fun same => same.enrollments, fun same => ⟨.refl _, same, .refl _⟩⟩

theorem picked_mem {e : Enrollment} (found : r.picked front choice = some e) : e ∈ r.data.enrollments :=
  List.mem_of_mem_filter (List.mem_of_getElem? found)

theorem not_mem_deleteEnrollment (e : Enrollment) : e ∉ (r.data.deleteEnrollment e.token).enrollments := by
  simp [RegistryData.deleteEnrollment]

theorem attempts_reissue (passes : r.accepted (.reissueEnrollment now front choice duration token) = true) :
    r.Attempts (.reissueEnrollment now front choice duration token) := by
  simp only [accepted, Bool.and_eq_true, decide_eq_true_eq] at passes
  obtain ⟨e, found⟩ := Option.isSome_iff_exists.mp passes.2
  refine ⟨(r.data.deleteEnrollment e.token).putEnrollment (.issue now duration token e.serverID), fun broken => ?_, ?_⟩
  · rw [call, reissueEnrollment, if_neg passes.1, found]
    exact fails_persist ..
  · rw [settled, found, Option.any_some, Bool.and_eq_true, decide_eq_true_eq]
    by_cases again : token = e.token
    · subst again
      have twice : ((r.data.deleteEnrollment e.token).putEnrollment (.issue now duration e.token e.serverID)) =
          r.data.putEnrollment (.issue now duration e.token e.serverID) := by
        simp [RegistryData.deleteEnrollment, RegistryData.putEnrollment, Enrollment.issue, List.filter_filter]
      rw [twice, holds, decide_eq_true_eq, ← perm_put]
      exact ⟨fun same => ⟨rfl, same.enrollments⟩, fun same => ⟨.refl _, same.2, .refl _⟩⟩
    · constructor
      · intro same
        have inside := same.enrollments.mem_iff.mpr (picked_mem found)
        rw [RegistryData.putEnrollment, List.mem_append, List.mem_singleton] at inside
        rcases inside with kept | new
        · exact absurd (List.mem_of_mem_filter kept) (not_mem_deleteEnrollment e)
        · exact absurd (congrArg Enrollment.token new).symm again
      · intro both
        exact absurd both.1 again

theorem attempts_revokeEnrollment (passes : r.accepted (.revokeEnrollment front choice) = true) :
    r.Attempts (.revokeEnrollment front choice) := by
  simp only [accepted, Bool.and_eq_true, decide_eq_true_eq] at passes
  obtain ⟨e, found⟩ := Option.isSome_iff_exists.mp passes.2
  refine ⟨r.data.deleteEnrollment e.token, fun broken => ?_, ?_⟩
  · rw [call, revokeEnrollment, if_neg passes.1, found]
    exact fails_persist ..
  · constructor
    · intro same
      exact absurd (same.enrollments.mem_iff.mpr (picked_mem found)) (not_mem_deleteEnrollment e)
    · simp [settled]

theorem marked_of_mem {α : Type} {l : List α} {picks : α → Prop} (marked : α → Prop) [DecidablePred picks] {mark : α → α}
    (marks : ∀ a, marked (mark a)) {x : α} (member : x ∈ l.map fun a => if picks a then mark a else a) :
      marked x ∨ ¬ picks x := by
  obtain ⟨old, _, same⟩ := List.mem_map.mp member
  split at same
  · exact Or.inl (same ▸ marks old)
  · rename_i other
    exact Or.inr (same ▸ other)

theorem attempts_consumeToken (passes : r.accepted (.consumeToken now token secret suffix) = true) :
    r.Attempts (.consumeToken now token secret suffix) := by
  obtain ⟨e, found, checks⟩ := (Option.any_eq_true ..).mp passes
  simp only [Bool.and_eq_true, Bool.not_eq_true'] at checks
  have present : e.token = token := by simpa using List.find?_some found
  let agent := Agent.enroll now e.serverID secret suffix
  let used : RegistryData :=
    { r.data with enrollments := r.data.enrollments.map fun e => if e.token = token then e.use now else e }
  refine ⟨(used.putAgent agent).putServer now e.serverID agent.id, fun broken => ?_, ?_⟩
  · rw [call, consumeToken, found]
    dsimp only
    rw [checks.1.1, checks.1.2, checks.2]
    exact fails_persist ..
  · constructor
    · intro same
      have inside := same.enrollments.mem_iff.mpr (List.mem_of_find?_eq_some found)
      rcases marked_of_mem (fun e : Enrollment => e.used = true) (fun _ => rfl) inside with marked | other
      · cases checks.1.1.symm.trans marked
      · exact absurd present other
    · nofun

theorem attempts_revoke (passes : r.accepted (.revoke now agentID) = true) : r.Attempts (.revoke now agentID) := by
  obtain ⟨a, found, active⟩ := (Option.any_eq_true ..).mp passes
  rw [Bool.not_eq_true'] at active
  have present : a.id = agentID := by simpa using List.find?_some found
  refine ⟨{ r.data with agents := r.data.agents.map fun a => if a.id = agentID then a.revoke now else a },
    fun broken => ?_, ?_⟩
  · rw [call, Registry.revoke, found]
    dsimp only
    rw [active]
    exact fails_persist ..
  · constructor
    · intro same
      have inside := same.agents.mem_iff.mpr (List.mem_of_find?_eq_some found)
      rcases marked_of_mem (fun a => a.revoked = true) (fun _ => rfl) inside with marked | other
      · cases active.symm.trans marked
      · exact absurd present other
    · nofun

theorem attempts_revokeServer (passes : r.accepted (.revokeServer now serverID) = true) :
    r.Attempts (.revokeServer now serverID) := by
  refine ⟨{ r.data with
    agents := r.data.agents.map fun a => if a.serverID = serverID ∧ a.revoked = false then a.revoke now else a
    servers := r.data.servers.map fun s => if s.id = serverID then s.revoke now else s }, fun broken => ?_, ?_⟩
  · rw [call, revokeServer, if_pos (by simpa only [accepted, Bool.or_eq_true] using passes)]
    exact fails_persist ..
  · simp only [settled, Bool.and_eq_true, List.all_eq_true, decide_eq_true_eq]
    constructor
    · intro same
      constructor
      · intro a member
        have marked := marked_of_mem (fun a : Agent => a.revoked = true) (fun _ => rfl) (same.agents.mem_iff.mpr member)
        grind
      · intro s member
        exact (marked_of_mem (fun s => s.status = .revoked ∧ s.updatedAt = now) (fun _ => ⟨rfl, rfl⟩)
          (same.servers.mem_iff.mpr member)).symm
    · rintro ⟨agents, servers⟩
      refine ⟨.of_eq ?_, .refl _, .of_eq ?_⟩
      · apply (List.map_congr_left _).trans (List.map_id _)
        intro a member
        rw [if_neg]
        · rfl
        · rintro ⟨own, live⟩
          rw [(agents a member).resolve_left (not_not.mpr own)] at live
          cases live
      · apply (List.map_congr_left _).trans (List.map_id _)
        intro s member
        split
        · rename_i own
          obtain ⟨revoked, updated⟩ := (servers s member).resolve_left (not_not.mpr own)
          rw [Server.revoke, ← revoked, ← updated]
          rfl
        · rfl

theorem attempts_deleteServer (passes : r.accepted (.deleteServer serverID) = true) :
    r.Attempts (.deleteServer serverID) := by
  have found : r.data.agents.any (fun a => a.serverID = serverID) = true ∨
    r.data.servers.any (fun s => s.id = serverID) = true ∨
      r.data.enrollments.any (fun e => e.serverID = serverID) = true := by
    simpa only [accepted, Bool.or_eq_true, or_assoc] using passes
  refine ⟨⟨r.data.agents.filter fun a => a.serverID ≠ serverID, r.data.enrollments.filter fun e => e.serverID ≠ serverID,
    r.data.servers.filter fun s => s.id ≠ serverID⟩, fun broken => ?_, ?_⟩
  · rw [call, deleteServer, if_pos found]
    exact fails_persist ..
  · constructor
    · intro same
      exfalso
      simp only [List.any_eq_true, decide_eq_true_eq] at found
      rcases found with ⟨a, member, own⟩ | ⟨s, member, own⟩ | ⟨e, member, own⟩
      · exact of_decide_eq_true (List.mem_filter.mp (same.agents.mem_iff.mpr member)).2 own
      · exact of_decide_eq_true (List.mem_filter.mp (same.servers.mem_iff.mpr member)).2 own
      · exact of_decide_eq_true (List.mem_filter.mp (same.enrollments.mem_iff.mpr member)).2 own
    · nofun

theorem attempts_of_accepted {c : RegistryCall} (passes : r.accepted c = true) : r.Attempts c := by
  cases c with
  | enroll now serverID token => exact attempts_enroll passes
  | reissueEnrollment now front choice duration token => exact attempts_reissue passes
  | revokeEnrollment front choice => exact attempts_revokeEnrollment passes
  | consumeToken now token secret suffix => exact attempts_consumeToken passes
  | revoke now agentID => exact attempts_revoke passes
  | revokeServer now serverID => exact attempts_revokeServer passes
  | deleteServer serverID => exact attempts_deleteServer passes

theorem blank_or_unpicked (stops : (decide (trimSpace front ≠ []) && (r.picked (trimSpace front) choice).isSome) = false) :
    trimSpace front = [] ∨ r.picked (trimSpace front) choice = none := by
  simpa only [Bool.and_eq_false_iff, decide_eq_false_iff_not, not_not, Option.isSome_eq_false_iff,
    Option.isNone_iff_eq_none] using stops

theorem call_of_not_accepted {c : RegistryCall} (stops : r.accepted c = false) : r.call broken c = (!r.idle c, r) := by
  cases c with
  | enroll now serverID token =>
    rw [call, enroll, enrollWithExpiry]
    simp only [accepted, Bool.and_eq_false_iff, decide_eq_false_iff_not, not_not, Bool.not_eq_false'] at stops
    rcases stops with blank | full
    · rw [if_pos blank]
      rfl
    · rw [if_pos full]
      split <;> rfl
  | reissueEnrollment now front choice duration token =>
    rw [call, reissueEnrollment]
    rcases blank_or_unpicked stops with blank | missing
    · rw [if_pos blank]
      rfl
    · rw [missing]
      split <;> rfl
  | revokeEnrollment front choice =>
    rw [call, revokeEnrollment]
    rcases blank_or_unpicked stops with blank | missing
    · rw [if_pos blank]
      rfl
    · rw [missing]
      split <;> rfl
  | consumeToken now token secret suffix =>
    rw [call, consumeToken]
    rw [accepted] at stops
    split
    · rfl
    · rename_i e found
      rw [found, Option.any_some] at stops
      split
      · rfl
      split
      · rfl
      split
      · rfl
      · simp_all
  | revoke now agentID =>
    rw [call, Registry.revoke, idle]
    rw [accepted] at stops
    split
    · rename_i missing
      rw [missing]
      rfl
    · rename_i a found
      rw [found, Option.any_some, Bool.not_eq_false'] at stops
      rw [found, if_pos stops, Option.any_some, stops]
      rfl
  | revokeServer now serverID =>
    rw [call, revokeServer, if_neg]
    · rfl
    · simpa only [accepted, Bool.or_eq_true, Bool.not_eq_true] using Bool.not_eq_true _ |>.mpr stops
  | deleteServer serverID =>
    rw [call, deleteServer, if_neg]
    · rfl
    · simpa only [accepted, Bool.or_eq_true, or_assoc, Bool.not_eq_true] using Bool.not_eq_true _ |>.mpr stops

theorem picked_isSome : (r.picked front choice).isSome = r.data.enrollments.any fun e => startsWith e.token front := by
  rw [picked, Bool.eq_iff_iff, List.any_eq_true, isSome_getElem?]
  constructor
  · intro inside
    obtain ⟨e, member⟩ := List.exists_mem_of_length_pos (Nat.zero_lt_of_lt inside)
    exact ⟨e, List.mem_filter.mp member⟩
  · rintro ⟨e, member, starts⟩
    exact Nat.mod_lt _ (List.length_pos_of_mem (List.mem_filter.mpr ⟨member, starts⟩))

theorem accepted_retry {c : RegistryCall} {d : RegistryData} (done : r.settled c = true) (same : d.Same r.data) :
    accepted { r with data := d } c = r.accepted c := by
  have active : d.active = r.data.active := same.agents.countP_eq _
  cases c with
  | enroll now serverID token => simp only [accepted, full, active]
  | reissueEnrollment now front choice duration token =>
    simp only [accepted, picked_isSome]
    rw [same.enrollments.any_eq]
  | revokeServer now serverID =>
    simp only [accepted]
    rw [same.agents.any_eq, same.servers.any_eq]
  | revokeEnrollment | consumeToken | revoke | deleteServer => cases done

theorem call_of_accepted {c : RegistryCall} (passes : r.accepted c = true) : (r.call broken c).1 = broken := by
  obtain ⟨d, does, _⟩ := attempts_of_accepted passes
  rw [does]

end Registry

open Registry in
/-- A call leaves no trace exactly if it can only fail with the memory as the file is, and only before it changes
anything or with nothing to change. -/
theorem traceless_iff (r : Registry) (broken : Bool) (c : RegistryCall) : r.Traceless broken c ↔ r.Clean broken c := by
  cases passes : r.accepted c with
  | false =>
    rw [Traceless, Clean, call_of_not_accepted passes, passes]
    simp only [Bool.not_eq_true', Bool.false_eq_true, false_implies, true_implies, and_true]
    constructor
    · intro traceless waits
      exact (traceless waits).2
    · intro clean waits
      exact ⟨.refl _, clean waits⟩
  | true =>
    have busy : r.idle c = false := by
      cases c with
      | revoke now agentID =>
        obtain ⟨a, found, active⟩ := (Option.any_eq_true ..).mp passes
        rw [idle, found, Option.any_some]
        exact Bool.not_eq_true' _ ▸ active
      | _ => rfl
    obtain ⟨d, does, unchanged⟩ := attempts_of_accepted passes
    rw [Traceless, Clean, does, passes, busy]
    cases broken with
    | false => simp
    | true =>
      simp only [if_true, true_implies]
      constructor
      · rintro ⟨same, filed, _⟩
        exact ⟨same.symm.trans filed, unchanged.mp same⟩
      · rintro ⟨filed, done⟩
        have same := unchanged.mpr done
        refine ⟨same, same.trans filed, ?_⟩
        rw [call_of_accepted passes, call_of_accepted ((accepted_retry done same).trans passes)]

instance (r : Registry) (broken : Bool) (c : RegistryCall) : Decidable (r.Clean broken c) :=
  inferInstanceAs (Decidable (_ → _ → _ ∧ _))

/-- An agent enrolled at 1, and its server was revoked at 2. -/
def revokedServer : Registry :=
  ((((Registry.newRegistry 0).enrollWithExpiry 0 false (ascii "s") 0 (ascii "t")).2.consumeToken 1 false (ascii "t")
    (ascii "k") (ascii "a")).2.revokeServer 2 false (ascii "s")).2

theorem traceless_iff_revoked :
    revokedServer.Traceless true (.revokeServer 2 (ascii "s")) ∧
    ¬ revokedServer.Traceless true (.revokeServer 3 (ascii "s")) ∧
    revokedServer.Traceless false (.revoke 3 (ascii "nobody")) ∧
    ¬ (revokedServer.touchServer 3 (ascii "s")).Traceless false (.revoke 3 (ascii "nobody")) := by
  simp only [traceless_iff]
  decide +kernel

def oneToken : Registry := ((Registry.newRegistry 0).enroll 0 false (ascii "s") (ascii "t")).2

def consumeIt : RegistryCall := .consumeToken 1 (ascii "t") (ascii "k") (ascii "a")

/-- The file cannot be written when an agent enrolls: the token is used up, and a second try is refused. -/
theorem token_used_up :
    ¬ oneToken.Traceless true consumeIt ∧ (oneToken.call false consumeIt).1 = false ∧
      ((oneToken.call true consumeIt).2.call false consumeIt).1 = true := by
  refine ⟨?_, by decide +kernel, by decide +kernel⟩
  intro traceless
  exact absurd (traceless (by decide +kernel)).1 (by decide +kernel)

end PocketKafka.Fleet
