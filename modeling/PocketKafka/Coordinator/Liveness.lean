import PocketKafka.Coordinator.ManagerSteps

namespace PocketKafka.Coordinator

open Bytes Runs Protocol

/-- A group and what one of its members knows: when it was last in touch, and the generation that it learned from
    its last join. -/
structure Watched where
  system : System
  contact : Time
  learned : Int

namespace System

variable (s : System) (id : MemberID)

def contacts : Event → Prop
  | .join req => req.protocols.length ≠ 0 ∧ s.group.requested s.freshID req = id
  | .heartbeat memberID _ => memberID = id
  | _ => False

instance (e : Event) : Decidable (s.contacts id e) := by
  unfold contacts
  split <;> infer_instance

end System

namespace Watched

variable (cfg : Config) (id : MemberID)

def start (now : Time) : Watched := ⟨System.start now, now, -1⟩

def learns (learned : Int) (effect : Effect) : Int :=
  match effect.joinAnswer with
  | some resp => if resp.memberID = id ∧ resp.errorCode = errNone then resp.generationID else learned
  | none => learned

def after (w : Watched) (e : Event) (done : System × Effect) : Watched where
  system := done.1
  contact := if w.system.contacts id e then w.system.now else w.contact
  learned := learns id w.learned done.2

def next (w : Watched) (e : Event) : Option Watched := (w.system.perform cfg e).map (w.after id e)

def Steps (w : Watched) (e : Event) (w' : Watched) : Prop := w.next cfg id e = some w'

end Watched

def Config.session (cfg : Config) (m : Member) : Time :=
  (if m.sessionTimeout ≤ 0 then cfg.defaultSession else m.sessionTimeout) * millisecond

/-- Each heartbeat of the member finds no rebalance open and carries the current generation. -/
def Timely (id : MemberID) (w : Watched) : Event → Prop
  | .heartbeat memberID generationID => memberID = id → id ∈ w.system.group.members →
      w.system.group.state ≠ .preparingRebalance ∧ generationID = w.system.group.generation
  | _ => True

instance (id : MemberID) (w : Watched) (e : Event) : Decidable (Timely id w e) := by
  unfold Timely
  split <;> infer_instance

namespace Group

variable {g : Group} {cfg : Config} {now : Time} {id : MemberID} {m : Member}

theorem lookup_remove {dead : List MemberID} (found : (g.remove dead).members.lookup id = some m) :
    g.members.lookup id = some m := by
  revert found
  show (dead.foldl (fun members id => members.erase id) g.members).lookup id = some m → _
  generalize g.members = members
  induction dead generalizing members with
  | nil => exact fun found => found
  | cons first rest ih =>
    intro found
    have later := ih _ found
    by_cases same : id = first
    · rw [same, AList.lookup_erase] at later
      cases later
    · rwa [AList.lookup_erase_ne same] at later

theorem lookup_expire (found : g.expireRebalanceLocked.members.lookup id = some m) : g.members.lookup id = some m := by
  rw [expireRebalanceLocked, completeJoinLocked_members] at found
  exact lookup_remove found

theorem lookup_joinWake {wait : JoinWait} (found : (g.joinWake now wait).2.members.lookup id = some m) :
    g.members.lookup id = some m := by
  rcases joinWake_group now wait with same | expired
  · rwa [same] at found
  · rw [expired] at found
    exact lookup_expire found

theorem lookup_awaitOthers {memberID : MemberID} (found : (g.awaitOthers now memberID).2.members.lookup id = some m) :
    g.members.lookup id = some m := by
  rcases awaitOthers_group now memberID with same | ⟨dead, complete⟩
  · rwa [same] at found
  · rw [complete, completeJoinLocked_members] at found
    exact lookup_remove found

theorem lookup_touch {memberID : MemberID} (found : (g.touch memberID now).members.lookup id = some m) :
    memberID ≠ id ∧ g.members.lookup id = some m ∨ memberID = id ∧ m.lastHeartbeat = now ∨ g.members.lookup memberID = none ∧
      g.members.lookup id = some m := by
  unfold touch at found
  split at found
  · exact Or.inr (Or.inr ⟨by assumption, found⟩)
  · by_cases same : memberID = id
    · subst same
      rw [AList.lookup_insert] at found
      cases found
      exact Or.inr (Or.inl ⟨rfl, rfl⟩)
    · rw [AList.lookup_insert_ne (Ne.symm same)] at found
      exact Or.inl ⟨same, found⟩

theorem lookup_joinGroup {next : MemberID} {req : JoinGroupRequest}
    (found : (g.joinGroup cfg now next req).2.members.lookup id = some m) :
    g.members.lookup id = some m ∧ ¬ (req.protocols.length ≠ 0 ∧ g.requested next req = id) ∨ m.lastHeartbeat = now := by
  unfold joinGroup at found
  split at found
  · rename_i none
    exact Or.inl ⟨found, fun some => some.1 none⟩
  · split at found
    · rename_i same
      unfold unchanged at same
      split at same
      · cases same
      · rename_i member known
        rcases lookup_touch found with ⟨other, old⟩ | ⟨-, fresh⟩ | ⟨unknown, -⟩
        · refine Or.inl ⟨old, fun asked => other ?_⟩
          rw [← asked.2, requested, if_neg (by rw [known]; exact Option.some_ne_none _)]
        · exact Or.inr fresh
        · rw [known] at unknown
          cases unknown
    · have enrolled := lookup_awaitOthers found
      rw [enroll_members] at enrolled
      by_cases same : g.requested next req = id
      · subst same
        rw [AList.lookup_insert] at enrolled
        cases enrolled
        exact Or.inr rfl
      · rw [AList.lookup_insert_ne (Ne.symm same)] at enrolled
        exact Or.inl ⟨enrolled, fun asked => same asked.2⟩

theorem lookup_heartbeat {memberID : MemberID} {generationID : Int}
    (found : (g.heartbeat now memberID generationID).2.members.lookup id = some m) :
    g.members.lookup id = some m ∧ (memberID = id → g.state = .preparingRebalance ∨ generationID ≠ g.generation) ∨
      m.lastHeartbeat = now := by
  unfold heartbeat at found
  split at found
  · rename_i unknown
    refine Or.inl ⟨found, ?_⟩
    rintro rfl
    rw [unknown] at found
    cases found
  · rename_i known
    split at found
    · exact Or.inl ⟨found, fun _ => Or.inl (by assumption)⟩
    · split at found
      · exact Or.inl ⟨found, fun _ => Or.inr (by assumption)⟩
      · rcases lookup_touch found with ⟨other, old⟩ | ⟨-, fresh⟩ | ⟨unknown, -⟩
        · exact Or.inl ⟨old, fun same => absurd same other⟩
        · exact Or.inr fresh
        · exact absurd unknown known

theorem not_dead {contact seen : Time} (found : g.members.lookup id = some m) (recent : contact ≤ m.lastHeartbeat)
    (live : seen - contact ≤ cfg.session m) : id ∉ g.dead cfg seen := by
  intro dead
  obtain ⟨⟨own, member⟩, entry, rfl⟩ := List.mem_map.mp dead
  obtain ⟨inside, out⟩ := List.mem_filter.mp entry
  have same : g.members.lookup own = some member := AList.mem_lookup_iff.mpr inside
  rw [found] at same
  cases same
  have passed : cfg.session m < seen - m.lastHeartbeat := (of_decide_eq_true out).2
  have silence : seen - m.lastHeartbeat ≤ seen - contact := Int.sub_le_sub_left recent seen
  exact lt_irrefl _ (passed.trans_le (silence.trans live))

end Group

def Watched.Noted (id : MemberID) (w : Watched) : Prop :=
  ∀ m, w.system.group.members.lookup id = some m → w.contact ≤ m.lastHeartbeat

namespace Watched

variable {cfg : Config} {id : MemberID} {w w' : Watched} {e : Event}

theorem contact_of_quiet {done : System × Effect} (quiet : ¬ w.system.contacts id e) :
    (w.after id e done).contact = w.contact := if_neg quiet

theorem Noted.of_same (h : w.Noted id) {done : System × Effect} (quiet : ¬ w.system.contacts id e)
    (shrinks : ∀ m, done.1.group.members.lookup id = some m → w.system.group.members.lookup id = some m) :
    (w.after id e done).Noted id := by
  intro m found
  rw [contact_of_quiet quiet]
  exact h m (shrinks m found)

theorem contact_le {done : System × Effect} {m : Member} (fresh : m.lastHeartbeat = w.system.now)
    (before : w.contact ≤ w.system.now) : (w.after id e done).contact ≤ m.lastHeartbeat := by
  rw [fresh]
  show (if _ then _ else _) ≤ _
  split
  · exact le_refl _
  · exact before

structure Faithful (id : MemberID) (w : Watched) : Prop where
  past : w.contact ≤ w.system.now
  noted : w.Noted id

theorem system_now {s s' : System} {effect : Effect} (done : s.perform cfg e = some (s', effect)) : s.now ≤ s'.now := by
  have joins : ∀ (t : System) keep outcome, (t.joinEnds keep outcome).1.now = t.now := by
    rintro t keep ⟨result, g⟩
    cases result <;> rfl
  have syncs : ∀ (t : System) memberID election keep outcome, (t.syncEnds memberID election keep outcome).1.now = t.now := by
    rintro t memberID election keep ⟨result, g⟩
    cases result <;> rfl
  cases e with
  | tick passed =>
    cases done
    exact Int.le_add_of_nonneg_right (Int.natCast_nonneg passed)
  | join req =>
    have same := congrArg (fun done => done.1.now) (Option.some.inj done)
    rw [joins] at same
    rw [← same]
    unfold System.recordJoin
    split <;> exact le_refl _
  | joinWake i =>
    unfold System.perform at done
    dsimp only at done
    split at done
    · cases done
    · split at done
      · have same := congrArg (fun done => done.1.now) (Option.some.inj done)
        rw [joins] at same
        exact same.le
      · cases done
  | sync req =>
    have same := congrArg (fun done => done.1.now) (Option.some.inj done)
    rw [syncs] at same
    rw [← same]
    unfold System.recordSync
    split <;> exact le_refl _
  | syncWake i =>
    unfold System.perform at done
    dsimp only at done
    split at done
    · cases done
    · split at done
      · have same := congrArg (fun done => done.1.now) (Option.some.inj done)
        rw [syncs] at same
        exact same.le
      · cases done
  | elsewhere | heartbeat memberID generationID | leave req | reap seen =>
    cases done
    exact le_refl _

theorem Noted.step (h : w.Faithful id) (timely : Timely id w e) {s : System} {effect : Effect}
    (performed : w.system.perform cfg e = some (s, effect)) : (w.after id e (s, effect)).Noted id := by
  cases e with
  | tick passed =>
    cases performed
    exact h.noted.of_same (by exact not_false) fun _ found => found
  | elsewhere =>
    cases performed
    exact h.noted.of_same (by exact not_false) fun _ found => found
  | join req =>
    have group := congrArg (fun done => done.1.group) (Option.some.inj performed)
    rw [System.joinEnds_group] at group
    intro m found
    rw [show (w.after id (.join req) (s, effect)).system.group = s.group from rfl, ← group] at found
    rcases Group.lookup_joinGroup found with ⟨old, quiet⟩ | fresh
    · rw [contact_of_quiet (show ¬ w.system.contacts id (.join req) from quiet)]
      exact h.noted m old
    · exact contact_le fresh h.past
  | joinWake i =>
    unfold System.perform at performed
    dsimp only at performed
    split at performed
    · cases performed
    · split at performed
      · have group := congrArg (fun done => done.1.group) (Option.some.inj performed)
        rw [System.joinEnds_group] at group
        refine h.noted.of_same (by exact not_false) fun m found => ?_
        rw [← group] at found
        exact Group.lookup_joinWake found
      · cases performed
  | sync req =>
    have group := congrArg (fun done => done.1.group) (Option.some.inj performed)
    rw [System.syncEnds_group] at group
    refine h.noted.of_same (by exact not_false) fun m found => ?_
    rwa [← group, Group.syncGroup_members] at found
  | syncWake i =>
    unfold System.perform at performed
    dsimp only at performed
    split at performed
    · cases performed
    · split at performed
      · have group := congrArg (fun done => done.1.group) (Option.some.inj performed)
        rw [System.syncEnds_group] at group
        refine h.noted.of_same (by exact not_false) fun m found => ?_
        rwa [← group, Group.syncWake, Group.syncLoop_members] at found
      · cases performed
  | heartbeat memberID generationID =>
    cases performed
    intro m found
    rcases Group.lookup_heartbeat found with ⟨old, missed⟩ | fresh
    · have other : memberID ≠ id := by
        rintro rfl
        obtain ⟨closed, current⟩ := timely rfl (AList.lookup_isSome.mp (by rw [old]; rfl))
        rcases missed rfl with preparing | stale
        · exact closed preparing
        · exact stale current
      rw [contact_of_quiet (show ¬ w.system.contacts id (.heartbeat memberID generationID) from other)]
      exact h.noted m old
    · exact contact_le fresh h.past
  | leave req =>
    cases performed
    refine h.noted.of_same (by exact not_false) fun m found => ?_
    change (w.system.group.leaveGroup w.system.now (toRemove req)).members.lookup id = some m at found
    rw [Group.leaveGroup_members] at found
    exact Group.lookup_remove found
  | reap seen =>
    cases performed
    refine h.noted.of_same (by exact not_false) fun m found => ?_
    change (w.system.group.reapExpired cfg seen w.system.now).members.lookup id = some m at found
    rw [Group.reapExpired_members] at found
    exact Group.lookup_remove found

theorem faithful_start (now : Time) : (start now).Faithful id :=
  ⟨le_refl _, fun m found => by cases found⟩

theorem Faithful.step (h : w.Faithful id) (timely : Timely id w e) (step : w.Steps cfg id e w') : w'.Faithful id := by
  obtain ⟨⟨s, effect⟩, performed, rfl⟩ := Option.map_eq_some_iff.mp step
  have later := system_now performed
  refine ⟨?_, Noted.step h timely performed⟩
  show (if _ then _ else _) ≤ s.now
  split
  · exact later
  · exact h.past.trans later

theorem next_steps (cfg : Config) (id : MemberID) (w : Watched) (e : Event) (w' : Watched)
    (done : w.next cfg id e = some w') : w.Steps cfg id e w' := done

def patient : JoinGroupRequest := { newcomer with rebalanceTimeoutMs := 60000 }

def beats : List Event := [.tick 4000000000, .heartbeat (nextMemberID 1) 1]

/-- The member is in touch within its session and sends the generation that it learned. -/
def Regular (id : MemberID) (w : Watched) : Event → Prop
  | .tick passed => ∀ m ∈ w.system.group.members.lookup id, w.system.now + passed - w.contact ≤ settings.session m
  | .heartbeat memberID generationID => memberID = id → generationID = w.learned
  | _ => True

instance (id : MemberID) (w : Watched) (e : Event) : Decidable (Regular id w e) := by
  unfold Regular
  split <;> infer_instance

end Watched

end PocketKafka.Coordinator
