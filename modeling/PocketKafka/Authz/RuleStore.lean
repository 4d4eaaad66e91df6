import PocketKafka.Authz.Rules
import PocketKafka.Lib.Runs
import PocketKafka.Lib.Snapshots

namespace PocketKafka.Authz

open Bytes Runs Snapshots

/-- Where a call stands: before its checks, before its change, before it takes the snapshot of the rules,
    before it writes the snapshot that it took at a version, or at its end. -/
inductive RulePhase where
  | starting
  | prepared (change : RuleRequest)
  | changed
  | holding (version : Nat)
  | returned (result : Except Failure Unit)
  deriving DecidableEq

/-- A call of `Upsert`, `Delete` or `Replace`. `effect` are the rules before and after its change. -/
structure RuleCall where
  request : RuleRequest
  phase : RulePhase
  effect : Option (List Rule × List Rule)
  deriving DecidableEq

structure RuleStore where
  versions : Versions (List Rule)
  allowWildcardAdmin : Bool
  calls : List RuleCall

/-- A call is made, or goes on with its next section. If that is its write, `fault` says whether the write
    fails. -/
inductive RuleEvent where
  | call (request : RuleRequest)
  | advance (i : Nat) (fault : Option Failure)
  | setAllowWildcardAdmin (allow : Bool)

namespace RuleStore

/-- `NewStore` on a file with these rules. -/
def newStore (file : List Rule) (allowWildcardAdmin : Bool) : RuleStore := ⟨.start file, allowWildcardAdmin, []⟩

def rules (s : RuleStore) : List Rule := s.versions.memory

def setPhase (s : RuleStore) (i : Nat) (call : RuleCall) (phase : RulePhase) : RuleStore :=
  { s with calls := s.calls.set i { call with phase := phase } }

def advance (s : RuleStore) (i : Nat) (call : RuleCall) (fault : Option Failure) : Option RuleStore :=
  match call.phase with
  | .starting =>
    match call.request.prepare s.allowWildcardAdmin with
    | .error failure => some (s.setPhase i call (.returned (.error failure)))
    | .ok change => some (s.setPhase i call (.prepared change))
  | .prepared change =>
    let rules := change.apply s.rules
    let call := { call with effect := some (s.rules, rules) }
    some ({ s with versions := s.versions.change rules }.setPhase i call .changed)
  | .changed => some (s.setPhase i call (.holding s.versions.current))
  | .holding version =>
    match fault with
    | none => some ({ s with versions := s.versions.save version }.setPhase i call (.returned (.ok ())))
    | some failure => some (s.setPhase i call (.returned (.error failure)))
  | .returned _ => none

def perform (s : RuleStore) : RuleEvent → Option RuleStore
  | .call request => some { s with calls := s.calls ++ [⟨request, .starting, none⟩] }
  | .advance i fault => s.calls[i]?.bind fun call => s.advance i call fault
  | .setAllowWildcardAdmin allow => some { s with allowWildcardAdmin := allow }

def Steps (s : RuleStore) (event : RuleEvent) (t : RuleStore) : Prop := s.perform event = some t

def Healthy (_ : RuleStore) : RuleEvent → Prop
  | .advance _ fault => fault = none
  | _ => True

def writing (s : RuleStore) (i : Nat) : Option Nat :=
  s.calls[i]?.bind fun call =>
    match call.phase with
    | .holding version => some version
    | _ => none

def InOrder (s : RuleStore) : RuleEvent → Prop
  | .advance i _ => ∀ version ∈ s.writing i, s.versions.saved ≤ version
  | _ => True

/-- The file is behind the rules only as long as a call is going to write them. -/
structure Sound (s : RuleStore) : Prop where
  saved : s.versions.saved ≤ s.versions.current
  held : ∀ call ∈ s.calls, ∀ version, call.phase = .holding version → version ≤ s.versions.current
  owed : s.versions.saved < s.versions.current →
    ∃ call ∈ s.calls, call.phase = .changed ∨ call.phase = .holding s.versions.current
  clean : ∀ call ∈ s.calls, call.phase = .starting ∨ (∃ change, call.phase = .prepared change) ∨
    (∃ failure, call.phase = .returned (.error failure)) → call.effect = none

variable {s t : RuleStore} {event : RuleEvent} {i : Nat} {call : RuleCall} {phase : RulePhase}

theorem sound_newStore (file : List Rule) (allow : Bool) : (newStore file allow).Sound :=
  ⟨le_rfl, nofun, fun less => absurd less (lt_irrefl _), nofun⟩

theorem Sound.setPhase (h : s.Sound) (found : s.calls[i]? = some call) (phase : RulePhase)
    (held : ∀ version, phase = .holding version → version ≤ s.versions.current)
    (owed : call.phase = .changed ∨ call.phase = .holding s.versions.current → phase = .holding s.versions.current)
    (clean : phase = .starting ∨ (∃ change, phase = .prepared change) ∨ (∃ failure, phase = .returned (.error failure)) →
      call.effect = none) :
    (s.setPhase i call phase).Sound := by
  refine ⟨h.saved, ?_, ?_, ?_⟩
  · intro other member version holding
    rcases List.mem_or_eq_of_mem_set member with old | rfl
    · exact h.held other old version holding
    · exact held version holding
  · intro behind
    obtain ⟨other, member, writes⟩ := h.owed behind
    rcases mem_set_of_mem found member with rfl | stays
    · exact ⟨_, mem_set_self found _, Or.inr (owed writes)⟩
    · exact ⟨other, stays, writes⟩
  · intro other member early
    rcases List.mem_or_eq_of_mem_set member with old | rfl
    · exact h.clean other old early
    · exact clean early

theorem Sound.change (h : s.Sound) (found : s.calls[i]? = some call) (rules : List Rule)
    (effect : Option (List Rule × List Rule)) :
    ({ s with versions := s.versions.change rules }.setPhase i { call with effect := effect } .changed).Sound := by
  refine ⟨Nat.le_succ_of_le h.saved, ?_, ?_, ?_⟩
  · intro other member version holding
    rcases List.mem_or_eq_of_mem_set member with old | rfl
    · exact Nat.le_succ_of_le (h.held other old version holding)
    · cases holding
  · exact fun _ => ⟨_, mem_set_self found _, Or.inl rfl⟩
  · intro other member early
    rcases List.mem_or_eq_of_mem_set member with old | rfl
    · exact h.clean other old early
    · rcases early with early | ⟨_, early⟩ | ⟨_, early⟩ <;> cases early

theorem Sound.save (h : s.Sound) (found : s.calls[i]? = some call) {version : Nat} (phase : call.phase = .holding version)
    (inOrder : s.versions.saved ≤ version) :
    ({ s with versions := s.versions.save version }.setPhase i call (.returned (.ok ()))).Sound := by
  have bound := h.held call (List.mem_of_getElem? found) version phase
  refine ⟨bound, ?_, ?_, ?_⟩
  · intro other member held holding
    rcases List.mem_or_eq_of_mem_set member with old | rfl
    · exact h.held other old held holding
    · cases holding
  · intro behind
    have before : s.versions.saved < s.versions.current := inOrder.trans_lt behind
    obtain ⟨other, member, writes⟩ := h.owed before
    rcases mem_set_of_mem found member with rfl | stays
    · rw [phase] at writes
      rcases writes with clash | latest
      · cases clash
      · cases latest
        exact absurd behind (lt_irrefl _)
    · exact ⟨other, stays, writes⟩
  · intro other member early
    rcases List.mem_or_eq_of_mem_set member with old | rfl
    · exact h.clean other old early
    · rcases early with early | ⟨_, early⟩ | ⟨_, early⟩ <;> cases early

theorem Sound.advance (h : s.Sound) (found : s.calls[i]? = some call)
    (inOrder : ∀ version, call.phase = .holding version → s.versions.saved ≤ version)
    (step : s.advance i call none = some t) : t.Sound := by
  have clean := h.clean call (List.mem_of_getElem? found)
  unfold RuleStore.advance at step
  split at step
  · rename_i phase
    rw [phase] at clean
    have untouched : call.effect = none := clean (Or.inl rfl)
    split at step
    · cases step
      exact h.setPhase found _ nofun (by rw [phase]; nofun) (fun _ => untouched)
    · cases step
      exact h.setPhase found _ nofun (by rw [phase]; nofun) (fun _ => untouched)
  · cases step
    exact h.change found _ _
  · rename_i phase
    cases step
    refine h.setPhase found _ ?_ (fun _ => rfl) ?_
    · rintro version ⟨⟩
      exact le_rfl
    · rintro (early | ⟨_, early⟩ | ⟨_, early⟩) <;> cases early
  · rename_i version phase
    cases step
    exact h.save found phase (inOrder version phase)
  · cases step

theorem Sound.step (h : s.Sound) (healthy : s.Healthy event) (inOrder : s.InOrder event) (step : Steps s event t) :
    t.Sound := by
  unfold Steps perform at step
  cases event with
  | call request =>
    cases step
    refine ⟨h.saved, ?_, ?_, ?_⟩
    · intro other member version holding
      rcases List.mem_append.mp member with old | new
      · exact h.held other old version holding
      · rw [List.mem_singleton.mp new] at holding
        cases holding
    · intro behind
      obtain ⟨other, member, writes⟩ := h.owed behind
      exact ⟨other, List.mem_append_left _ member, writes⟩
    · intro other member early
      rcases List.mem_append.mp member with old | new
      · exact h.clean other old early
      · rw [List.mem_singleton.mp new]
  | advance i fault =>
    obtain ⟨call, found, done⟩ := Option.bind_eq_some_iff.mp step
    have none : fault = none := healthy
    subst none
    refine h.advance found (fun version phase => inOrder version ?_) done
    rw [writing, found, Option.bind_some, phase]
    rfl
  | setAllowWildcardAdmin allow =>
    cases step
    exact ⟨h.saved, h.held, h.owed, h.clean⟩

/-- As long as no write fails and none replaces a file that was written from newer rules, a call that
    returns an error has changed nothing, and when no call is in progress a restart comes back with the
    rules in memory. -/
theorem acl_changes_durable (file : List Rule) (allow : Bool)
    (run : Reaches (fun s event => s.Healthy event ∧ s.InOrder event) Steps (newStore file allow) t) :
    (∀ call ∈ t.calls, ∀ failure, call.phase = .returned (.error failure) →
      ∀ before after, call.effect = some (before, after) → after = before) ∧
    ((∀ call ∈ t.calls, ∃ result, call.phase = .returned result) →
      t.versions.file = t.rules ∧ ∀ allow, (newStore t.versions.file allow).rules = t.rules) := by
  have sound : t.Sound := run.invariant (sound_newStore file allow) (fun _ _ _ h meets step => h.step meets.1 meets.2 step)
  constructor
  · intro call member failure phase before after effect
    rw [sound.clean call member (Or.inr (Or.inr ⟨failure, phase⟩))] at effect
    cases effect
  · intro quiet
    have saved : t.versions.saved = t.versions.current := by
      refine le_antisymm sound.saved (not_lt.mp fun behind => ?_)
      obtain ⟨call, member, writes⟩ := sound.owed behind
      obtain ⟨result, phase⟩ := quiet call member
      rw [phase] at writes
      rcases writes with clash | clash <;> cases clash
    have same : t.versions.file = t.rules := by
      rw [rules, Versions.file, saved, Versions.memory]
    exact ⟨same, fun _ => same⟩

instance (s : RuleStore) (event : RuleEvent) : Decidable (s.Healthy event) := by
  unfold Healthy
  split <;> infer_instance

instance (s : RuleStore) (event : RuleEvent) : Decidable (s.InOrder event) := by
  unfold InOrder
  split <;> infer_instance

def readsOrders (principal : String) : Rule := ⟨ascii principal, resourceTopic, ascii "orders", [ascii "Read"]⟩

def revokeAlice : RuleRequest := .delete (ascii "alice") resourceTopic (ascii "orders")

def mayRead (rules : List Rule) (principal : String) : Bool :=
  authorize rules (ascii principal) .read ⟨resourceTopic, ascii "orders"⟩

theorem acl_changes_durable_revoked :
    ∃ t, Reaches (fun s event => s.Healthy event ∧ s.InOrder event) Steps (newStore [readsOrders "alice"] false) t ∧
      (∀ call ∈ t.calls, ∃ result, call.phase = .returned result) ∧ t.versions.file = t.rules ∧
        mayRead t.rules "alice" = false := by
  obtain ⟨t, run, quiet, revoked⟩ : ∃ t, Reaches (fun s event => s.Healthy event ∧ s.InOrder event) Steps
      (newStore [readsOrders "alice"] false) t ∧ t.calls.map (·.phase) = [.returned (.ok ()), .returned (.ok ())] ∧
      mayRead t.rules "alice" = false :=
    exists_reaches [.call (.upsert (readsOrders "bob")), .call revokeAlice, .advance 0 none, .advance 0 none,
      .advance 0 none,
      .advance 1 none, .advance 1 none, .advance 0 none, .advance 1 none, .advance 1 none] (fun _ _ _ step => step)
      (by decide +kernel)
  have done : ∀ call ∈ t.calls, ∃ result, call.phase = .returned result := by
    intro call member
    have phase := List.mem_map_of_mem (f := fun c : RuleCall => c.phase) member
    rw [quiet] at phase
    simp only [List.mem_cons, List.not_mem_nil, or_false, or_self] at phase
    exact ⟨_, phase⟩
  exact ⟨t, run, done, ((acl_changes_durable _ false run).2 done).1, revoked⟩

/-- A failed write leaves the change in memory. And with the two calls the other way round, both return
    nil, but the older snapshot is written last and the revoked permission comes back with the next start. -/
theorem acl_change_half_done :
    (∃ t, Reaches (fun _ _ => True) Steps (newStore [readsOrders "alice"] false) t ∧
      t.calls.map (fun c => (c.phase, c.effect)) =
        [(.returned (.error (.error "no space left on device")), some ([readsOrders "alice"], []))] ∧
      t.rules = [] ∧ t.versions.file = [readsOrders "alice"]) ∧
    ∃ t, Reaches Healthy Steps (newStore [readsOrders "alice"] false) t ∧
      t.calls.map (·.phase) = [.returned (.ok ()), .returned (.ok ())] ∧
      mayRead t.rules "alice" = false ∧ mayRead (newStore t.versions.file false).rules "alice" = true := by
  constructor
  · exact exists_reaches [.call revokeAlice, .advance 0 none, .advance 0 none, .advance 0 none,
      .advance 0 (some (.error "no space left on device"))] (fun _ _ _ step => step) (by decide +kernel)
  · exact exists_reaches [.call (.upsert (readsOrders "bob")), .call revokeAlice, .advance 0 none, .advance 0 none,
      .advance 0 none, .advance 1 none, .advance 1 none, .advance 1 none, .advance 1 none, .advance 0 none]
      (fun _ _ _ step => step) (by decide +kernel)

end RuleStore

end PocketKafka.Authz
