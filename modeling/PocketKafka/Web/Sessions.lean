import PocketKafka.Lib.Bytes
import PocketKafka.Lib.Pruning
import PocketKafka.Lib.Runs

namespace PocketKafka.Web

open Bytes Pruning Runs

structure Session where
  user : Bytes
  expires : Int
  idle : Int

structure SessionStore where
  byID : AList fun _ : Bytes => Session
  ttl : Int
  idle : Int
  lastGC : Option Int

def minute : Int := 60 * 10 ^ 9

def newSessionStore (ttl idle : Int) : SessionStore :=
  let ttl := if ttl ≤ 0 then 1440 * minute else ttl
  let idle := if idle ≤ 0 then 120 * minute else idle
  ⟨∅, ttl, if ttl < idle then ttl else idle, none⟩

def Session.isOver (s : Session) (now : Int) : Bool := s.expires < now || s.idle < now

namespace SessionStore

def gcLocked (st : SessionStore) (now : Int) : SessionStore :=
  if st.lastGC.any fun last => decide (now - last < minute) then st
  else { st with lastGC := some now, byID := prune (fun _ s => s.isOver now) st.byID }

/-- `random` is the id that was drawn; there is none if `rand.Read` fails. -/
def create (st : SessionStore) (random : Option Bytes) (user : Bytes) (now : Int) : SessionStore × Option (Bytes × Int) :=
  match random with
  | none => (st, none)
  | some id =>
    let st := st.gcLocked now
    ({ st with byID := st.byID.insert id ⟨user, now + st.ttl, now + st.idle⟩ }, some (id, now + st.ttl))

def validate (st : SessionStore) (id user : Bytes) (now : Int) : SessionStore × Bool :=
  if id = [] ∨ user = [] then (st, false)
  else
    match st.byID.lookup id with
    | none => (st, false)
    | some s =>
      if s.user ≠ user then (st, false)
      else if s.isOver now then ({ st with byID := st.byID.erase id }, false)
      else ({ st with byID := st.byID.insert id { s with idle := now + st.idle } }, true)

def revoke (st : SessionStore) (id : Bytes) : SessionStore :=
  if id = [] then st else { st with byID := st.byID.erase id }

def revokeUser (st : SessionStore) (user : Bytes) : SessionStore :=
  { st with byID := prune (fun _ s => decide (s.user = user)) st.byID }

end SessionStore

inductive SessionCall where
  | create (random : Option Bytes) (user : Bytes)
  | validate (id user : Bytes)
  | revoke (id : Bytes)
  | revokeUser (user : Bytes)

inductive SessionEvent where
  | created (id user : Bytes) (time : Int)
  | validated (id user : Bytes) (time : Int) (ok : Bool)
  | revoked (id : Bytes)
  | revokedUser (user : Bytes)
  deriving DecidableEq

structure SessionRun where
  store : SessionStore
  history : List SessionEvent
  time : Int

namespace SessionRun

def start (ttl idle time : Int) : SessionRun := ⟨newSessionStore ttl idle, [], time⟩

def perform (s : SessionRun) (call : SessionCall) (now : Int) : SessionRun :=
  match call with
  | .create random user =>
    let (store, done) := s.store.create random user now
    ⟨store, (match done with
      | some (id, _) => [.created id user now]
      | none => []) ++ s.history, now⟩
  | .validate id user =>
    let (store, ok) := s.store.validate id user now
    ⟨store, .validated id user now ok :: s.history, now⟩
  | .revoke id => ⟨s.store.revoke id, .revoked id :: s.history, now⟩
  | .revokeUser user => ⟨s.store.revokeUser user, .revokedUser user :: s.history, now⟩

def Steps (s : SessionRun) (label : SessionCall × Int) (t : SessionRun) : Prop := s.perform label.1 label.2 = t

theorem perform_steps (s : SessionRun) (label : SessionCall × Int) (t : SessionRun)
    (done : some (s.perform label.1 label.2) = some t) :
    s.Steps label t := Option.some.inj done

def createdID : SessionEvent → Option Bytes
  | .created id _ _ => some id
  | _ => none

/-- The clock does not go back, a drawn id is new and not empty, and so is no user. -/
def Regular (s : SessionRun) (label : SessionCall × Int) : Prop :=
  s.time ≤ label.2 ∧ match label.1 with
    | .create (some id) user => id ≠ [] ∧ id ∉ s.history.filterMap createdID ∧ user ≠ []
    | _ => True

instance (s : SessionRun) (label : SessionCall × Int) : Decidable (s.Regular label) :=
  match label with
  | (.create (some _) _, _) => inferInstanceAs (Decidable (_ ∧ _ ∧ _ ∧ _))
  | (.create none _, _) => inferInstanceAs (Decidable (_ ∧ True))
  | (.validate _ _, _) => inferInstanceAs (Decidable (_ ∧ True))
  | (.revoke _, _) => inferInstanceAs (Decidable (_ ∧ True))
  | (.revokeUser _, _) => inferInstanceAs (Decidable (_ ∧ True))

end SessionRun

def successOf (id : Bytes) : SessionEvent → Option Int
  | .validated i _ t true => if i = id then some t else none
  | _ => none

def successes (id : Bytes) (events : List SessionEvent) : List Int := (events.filterMap (successOf id)).reverse

/-- The session was created for the user at `t0` and not revoked since; `uses` are its successful validations. -/
def Granted (history : List SessionEvent) (id user : Bytes) (t0 : Int) (uses : List Int) : Prop :=
  ∃ since before, history = since ++ .created id user t0 :: before ∧ .revoked id ∉ since ∧ .revokedUser user ∉ since ∧
    uses = successes id since

/-- The session was created for the user and not revoked since, has not expired, and was never idle for too long. -/
def ValidAt (ttl idle : Int) (history : List SessionEvent) (id user : Bytes) (t : Int) : Prop :=
  ∃ t0 uses, Granted history id user t0 uses ∧ t ≤ t0 + ttl ∧ List.IsChain (fun a b => b - a ≤ idle) (t0 :: (uses ++ [t]))

section

variable {history : List SessionEvent} {id user : Bytes} {t0 : Int} {uses : List Int}

theorem successes_cons (id : Bytes) (e : SessionEvent) (events : List SessionEvent) :
    successes id (e :: events) = successes id events ++ (successOf id e).toList := by
  rw [successes, successes, List.filterMap_cons]
  cases successOf id e with
  | none => exact (List.append_nil _).symm
  | some t => exact List.reverse_cons

theorem granted_cons (e : SessionEvent) :
    Granted (e :: history) id user t0 uses ↔
      (e = .created id user t0 ∧ uses = []) ∨
        e ≠ .revoked id ∧ e ≠ .revokedUser user ∧ ∃ earlier, Granted history id user t0 earlier ∧
          uses = earlier ++ (successOf id e).toList := by
  constructor
  · rintro ⟨since, before, whole, kept, own, rfl⟩
    cases since with
    | nil =>
      cases whole
      exact Or.inl ⟨rfl, rfl⟩
    | cons first since =>
      obtain ⟨rfl, rfl⟩ := List.cons.inj whole
      rw [List.mem_cons, not_or] at kept own
      refine Or.inr ⟨Ne.symm kept.1, Ne.symm own.1, _, ⟨since, before, rfl, kept.2, own.2, rfl⟩, successes_cons _ _ _⟩
  · rintro (⟨rfl, rfl⟩ | ⟨other, stays, earlier, ⟨since, before, rfl, kept, own, rfl⟩, rfl⟩)
    · exact ⟨[], history, rfl, List.not_mem_nil, List.not_mem_nil, rfl⟩
    · refine ⟨e :: since, before, rfl, ?_, ?_, (successes_cons _ _ _).symm⟩
      · exact List.not_mem_cons_of_ne_of_not_mem (Ne.symm other) kept
      · exact List.not_mem_cons_of_ne_of_not_mem (Ne.symm stays) own

theorem Granted.created (granted : Granted history id user t0 uses) : .created id user t0 ∈ history := by
  obtain ⟨since, before, rfl, _⟩ := granted
  simp

theorem granted_quiet {e : SessionEvent} (quiet : ∀ id user time, e ≠ .created id user time) (kept : ∀ id, e ≠ .revoked id)
    (own : ∀ user, e ≠ .revokedUser user) (none : successOf id e = none) :
    Granted (e :: history) id user t0 uses ↔ Granted history id user t0 uses := by
  rw [granted_cons, none]
  constructor
  · rintro (⟨same, _⟩ | ⟨_, _, earlier, granted, rfl⟩)
    · exact absurd same (quiet _ _ _)
    · rwa [Option.toList_none, List.append_nil]
  · intro granted
    exact Or.inr ⟨kept _, own _, uses, granted, (List.append_nil _).symm⟩

theorem Granted.unique (fresh : (history.filterMap SessionRun.createdID).Nodup) {user' : Bytes} {t0' : Int}
    {uses' : List Int}
    (granted : Granted history id user t0 uses) (other : Granted history id user' t0' uses') :
    user = user' ∧ t0 = t0' ∧ uses = uses' := by
  induction history generalizing uses uses' with
  | nil => cases granted.created
  | cons e history ih =>
    have new : ∀ {user t0 user' t0' uses'}, e = .created id user t0 → ¬ Granted history id user' t0' uses' := by
      rintro user t0 user' t0' uses' rfl again
      exact (List.nodup_cons.mp fresh).1 (List.mem_filterMap.mpr ⟨_, again.created, rfl⟩)
    have rest : (history.filterMap SessionRun.createdID).Nodup :=
      fresh.sublist ((List.sublist_cons_self e history).filterMap _)
    rcases (granted_cons e).mp granted with ⟨here, rfl⟩ | ⟨_, _, earlier, before, rfl⟩
    · rcases (granted_cons e).mp other with ⟨same, rfl⟩ | ⟨_, _, _, again, _⟩
      · rw [here] at same
        cases same
        exact ⟨rfl, rfl, rfl⟩
      · exact absurd again (new here)
    · rcases (granted_cons e).mp other with ⟨same, _⟩ | ⟨_, _, earlier', again, rfl⟩
      · exact absurd before (new same)
      · obtain ⟨one, two, three⟩ := ih rest before again
        exact ⟨one, two, by rw [three]⟩

end

def lastUse (t0 : Int) (uses : List Int) : Int := uses.getLast?.getD t0

theorem isChain_concat {idle t0 : Int} {uses : List Int} (t : Int) :
    List.IsChain (fun a b => b - a ≤ idle) (t0 :: (uses ++ [t])) ↔
      List.IsChain (fun a b => b - a ≤ idle) (t0 :: uses) ∧ t ≤ lastUse t0 uses + idle := by
  rw [← List.cons_append, List.isChain_append, List.getLast?_cons]
  simp only [List.isChain_singleton, true_and, List.head?_cons, Option.mem_def, Option.some.injEq, forall_eq', lastUse]
  apply and_congr_right
  intro _
  omega

namespace SessionRun

structure Faithful (ttl idle : Int) (s : SessionRun) : Prop where
  limits : s.store.ttl = ttl ∧ s.store.idle = idle
  fresh : (s.history.filterMap createdID).Nodup
  named : ∀ id user t, .created id user t ∈ s.history → id ≠ [] ∧ user ≠ []
  present : ∀ id sess, s.store.byID.lookup id = some sess → ∃ t0 uses, Granted s.history id sess.user t0 uses ∧
    sess.expires = t0 + ttl ∧ sess.idle = lastUse t0 uses + idle ∧ List.IsChain (fun a b => b - a ≤ idle) (t0 :: uses)
  absent : ∀ id user t0 uses, s.store.byID.lookup id = none → Granted s.history id user t0 uses →
    t0 + ttl < s.time ∨ lastUse t0 uses + idle < s.time

variable {ttl idle now : Int} {s : SessionRun} {store : SessionStore} {id user : Bytes}

theorem isOver_iff {sess : Session} : sess.isOver now = true ↔ sess.expires < now ∨ sess.idle < now := by
  simp [Session.isOver]

namespace Faithful

theorem forget (h : s.Faithful ttl idle) (later : s.time ≤ now) (store : SessionStore)
    (limits : store.ttl = s.store.ttl ∧ store.idle = s.store.idle)
    (lookups : ∀ id, store.byID.lookup id = s.store.byID.lookup id ∨
      store.byID.lookup id = none ∧ ∃ sess, s.store.byID.lookup id = some sess ∧ sess.isOver now = true) :
    Faithful ttl idle ⟨store, s.history, now⟩ := by
  refine ⟨⟨limits.1.trans h.limits.1, limits.2.trans h.limits.2⟩, h.fresh, h.named, ?_, ?_⟩
  · intro id sess found
    rcases lookups id with same | ⟨gone, _⟩
    · exact h.present id sess (same ▸ found)
    · cases found.symm.trans gone
  · intro id user t0 uses missing granted
    rcases lookups id with same | ⟨_, sess, found, ended⟩
    · have := h.absent id user t0 uses (same ▸ missing) granted
      dsimp only
      omega
    · obtain ⟨t1, used, owned, expires, deadline, _⟩ := h.present id sess found
      obtain ⟨_, rfl, rfl⟩ := Granted.unique h.fresh granted owned
      rw [isOver_iff, expires, deadline] at ended
      exact ended

theorem gc (h : s.Faithful ttl idle) (later : s.time ≤ now) : Faithful ttl idle ⟨s.store.gcLocked now, s.history, now⟩ := by
  rw [SessionStore.gcLocked]
  split
  · exact h.forget later _ ⟨rfl, rfl⟩ fun id => Or.inl rfl
  · refine h.forget later _ ⟨rfl, rfl⟩ fun id => ?_
    dsimp only
    rw [lookup_prune]
    split
    · rename_i swept
      exact Or.inr ⟨rfl, (mem_pruned id).mp swept⟩
    · exact Or.inl rfl

theorem create (h : s.Faithful ttl idle) (later : s.time ≤ now) (filled : id ≠ []) (new : id ∉ s.history.filterMap createdID)
    (someone : user ≠ []) : Faithful ttl idle (s.perform (.create (some id) user) now) := by
  have swept := h.gc later
  have unseen : ∀ {user t0 uses}, ¬ Granted s.history id user t0 uses :=
    fun granted => new (List.mem_filterMap.mpr ⟨_, granted.created, rfl⟩)
  refine ⟨swept.limits, List.nodup_cons.mpr ⟨new, h.fresh⟩, ?_, ?_, ?_⟩
  · intro other owner t member
    rcases List.mem_cons.mp member with same | earlier
    · cases same
      exact ⟨filled, someone⟩
    · exact h.named other owner t earlier
  · intro other sess found
    by_cases same : other = id
    · subst same
      cases (AList.lookup_insert _).symm.trans found
      refine ⟨now, [], (granted_cons _).mpr (Or.inl ⟨rfl, rfl⟩), ?_, ?_, List.isChain_singleton _⟩
      · rw [swept.limits.1]
      · rw [swept.limits.2]
        rfl
    · obtain ⟨t0, uses, granted, rest⟩ := swept.present other sess ((AList.lookup_insert_ne same).symm.trans found)
      exact ⟨t0, uses, (granted_cons _).mpr (Or.inr ⟨nofun, nofun, uses, granted, (List.append_nil _).symm⟩), rest⟩
  · intro other owner t0 uses missing granted
    by_cases same : other = id
    · subst same
      cases (AList.lookup_insert _).symm.trans missing
    · rcases (granted_cons _).mp granted with ⟨here, _⟩ | ⟨_, _, earlier, before, rfl⟩
      · cases here
        exact absurd rfl same
      · rw [show successOf other (.created id user now) = none from rfl, Option.toList_none, List.append_nil]
        exact swept.absent other owner t0 earlier ((AList.lookup_insert_ne same).symm.trans missing) before

theorem refuse (h : Faithful ttl idle ⟨store, s.history, now⟩) (id user : Bytes) :
    Faithful ttl idle ⟨store, .validated id user now false :: s.history, now⟩ := by
  have same : ∀ {other owner t0 uses}, Granted (.validated id user now false :: s.history) other owner t0 uses ↔
      Granted s.history other owner t0 uses := granted_quiet nofun nofun nofun rfl
  refine ⟨h.limits, h.fresh, ?_, ?_, ?_⟩
  · intro other owner t member
    exact h.named other owner t ((List.mem_cons.mp member).resolve_left nofun)
  · intro other sess found
    obtain ⟨t0, uses, granted, rest⟩ := h.present other sess found
    exact ⟨t0, uses, same.mpr granted, rest⟩
  · intro other owner t0 uses missing granted
    exact h.absent other owner t0 uses missing (same.mp granted)

theorem refresh (h : s.Faithful ttl idle) (later : s.time ≤ now) {sess : Session}
    (found : s.store.byID.lookup id = some sess)
    (valid : sess.isOver now = false) :
    Faithful ttl idle ⟨{ s.store with byID := s.store.byID.insert id { sess with idle := now + s.store.idle } },
      .validated id sess.user now true :: s.history, now⟩ := by
  have others : ∀ {other owner t0 uses}, other ≠ id →
      (Granted (.validated id sess.user now true :: s.history) other owner t0 uses ↔
        Granted s.history other owner t0 uses) :=
    fun differs => granted_quiet nofun nofun nofun (if_neg (Ne.symm differs))
  refine ⟨h.limits, h.fresh, ?_, ?_, ?_⟩
  · intro other owner t member
    exact h.named other owner t ((List.mem_cons.mp member).resolve_left nofun)
  · intro other sess' here
    by_cases same : other = id
    · subst same
      cases (AList.lookup_insert _).symm.trans here
      obtain ⟨t0, uses, granted, expires, deadline, chain⟩ := h.present other sess found
      have inTime : now ≤ lastUse t0 uses + idle := by
        have := mt isOver_iff.mpr (Bool.not_eq_true _ |>.mpr valid)
        omega
      refine ⟨t0, uses ++ [now], (granted_cons _).mpr (Or.inr ⟨nofun, nofun, uses, granted, ?_⟩), expires, ?_, ?_⟩
      · rw [show successOf other (.validated other sess.user now true) = some now from if_pos rfl]
        rfl
      · rw [lastUse, List.getLast?_concat, h.limits.2]
        rfl
      · exact (isChain_concat now).mpr ⟨chain, inTime⟩
    · obtain ⟨t0, uses, granted, rest⟩ := h.present other sess' ((AList.lookup_insert_ne same).symm.trans here)
      exact ⟨t0, uses, (others same).mpr granted, rest⟩
  · intro other owner t0 uses missing granted
    by_cases same : other = id
    · subst same
      cases (AList.lookup_insert _).symm.trans missing
    · have := h.absent other owner t0 uses ((AList.lookup_insert_ne same).symm.trans missing) ((others same).mp granted)
      dsimp only
      omega

theorem validate (h : s.Faithful ttl idle) (later : s.time ≤ now) (id user : Bytes) :
    Faithful ttl idle (s.perform (.validate id user) now) := by
  have unchanged := h.forget later s.store ⟨rfl, rfl⟩ fun _ => Or.inl rfl
  change Faithful ttl idle ⟨(s.store.validate id user now).1,
    .validated id user now (s.store.validate id user now).2 :: s.history, now⟩
  rw [SessionStore.validate]
  split
  · exact unchanged.refuse id user
  · split
    · exact unchanged.refuse id user
    · rename_i sess found
      split
      · exact unchanged.refuse id user
      · rename_i own
        cases not_not.mp own
        split
        · rename_i ended
          have erased : Faithful ttl idle ⟨{ s.store with byID := s.store.byID.erase id }, s.history, now⟩ := by
            refine h.forget later _ ⟨rfl, rfl⟩ fun other => ?_
            by_cases same : other = id
            · subst same
              exact Or.inr ⟨AList.lookup_erase .., sess, found, ended⟩
            · exact Or.inl (AList.lookup_erase_ne same)
          exact erased.refuse id sess.user
        · rename_i going
          exact h.refresh later found (Bool.eq_false_of_not_eq_true going)

theorem revoke (h : s.Faithful ttl idle) (later : s.time ≤ now) (id : Bytes) :
    Faithful ttl idle (s.perform (.revoke id) now) := by
  have others : ∀ {other owner t0 uses}, other ≠ id →
      (Granted (.revoked id :: s.history) other owner t0 uses ↔ Granted s.history other owner t0 uses) := by
    intro other owner t0 uses differs
    rw [granted_cons]
    constructor
    · rintro (⟨same, _⟩ | ⟨_, _, earlier, granted, rfl⟩)
      · cases same
      · exact (List.append_nil earlier).symm ▸ granted
    · intro granted
      refine Or.inr ⟨?_, nofun, uses, granted, (List.append_nil _).symm⟩
      rintro same
      cases same
      exact differs rfl
  have gone : ∀ {owner t0 uses}, ¬ Granted (.revoked id :: s.history) id owner t0 uses := by
    intro owner t0 uses granted
    rcases (granted_cons _).mp granted with ⟨same, _⟩ | ⟨other, _⟩
    · cases same
    · exact other rfl
  have lookups : ∀ other, other ≠ id → (s.store.revoke id).byID.lookup other = s.store.byID.lookup other := by
    intro other differs
    rw [SessionStore.revoke]
    split
    · rfl
    · exact AList.lookup_erase_ne differs
  have removed : (s.store.revoke id).byID.lookup id = none := by
    rw [SessionStore.revoke]
    split
    · rename_i none
      cases found : s.store.byID.lookup id with
      | none => rfl
      | some sess =>
        obtain ⟨_, _, granted, _⟩ := h.present id sess found
        exact absurd none (h.named _ _ _ granted.created).1
    · exact AList.lookup_erase ..
  refine ⟨?_, h.fresh, ?_, ?_, ?_⟩
  · rw [perform, SessionStore.revoke]
    split <;> exact h.limits
  · intro other owner t member
    exact h.named other owner t ((List.mem_cons.mp member).resolve_left nofun)
  · intro other sess found
    by_cases same : other = id
    · subst same
      cases found.symm.trans removed
    · obtain ⟨t0, uses, granted, rest⟩ := h.present other sess ((lookups other same).symm.trans found)
      exact ⟨t0, uses, (others same).mpr granted, rest⟩
  · intro other owner t0 uses missing granted
    by_cases same : other = id
    · subst same
      exact absurd granted gone
    · have := h.absent other owner t0 uses ((lookups other same).symm.trans missing) ((others same).mp granted)
      exact this.imp later.trans_lt' later.trans_lt'

theorem lookup_revokeUser (st : SessionStore) (user other : Bytes) :
    (st.revokeUser user).byID.lookup other = none ∧ (∃ sess, st.byID.lookup other = some sess ∧ sess.user = user) ∨
      (st.revokeUser user).byID.lookup other = st.byID.lookup other ∧ ∀ sess, st.byID.lookup other = some sess →
        sess.user ≠ user := by
  rw [SessionStore.revokeUser]
  dsimp only
  rw [lookup_prune]
  split
  · rename_i swept
    obtain ⟨sess, found, owned⟩ := (mem_pruned other).mp swept
    exact Or.inl ⟨rfl, sess, found, of_decide_eq_true owned⟩
  · rename_i kept
    exact Or.inr ⟨rfl, fun sess found own => kept ((mem_pruned other).mpr ⟨sess, found, decide_eq_true own⟩)⟩

theorem revokeUser (h : s.Faithful ttl idle) (later : s.time ≤ now) (user : Bytes) :
    Faithful ttl idle (s.perform (.revokeUser user) now) := by
  have before : ∀ {other owner t0 uses}, Granted (.revokedUser user :: s.history) other owner t0 uses →
      owner ≠ user ∧ Granted s.history other owner t0 uses := by
    intro other owner t0 uses granted
    rcases (granted_cons _).mp granted with ⟨same, _⟩ | ⟨_, stays, earlier, again, rfl⟩
    · cases same
    · refine ⟨?_, (List.append_nil earlier).symm ▸ again⟩
      rintro rfl
      exact stays rfl
  refine ⟨h.limits, h.fresh, ?_, ?_, ?_⟩
  · intro other owner t member
    exact h.named other owner t ((List.mem_cons.mp member).resolve_left nofun)
  · intro other sess found
    rcases lookup_revokeUser s.store user other with ⟨gone, _⟩ | ⟨same, others⟩
    · cases found.symm.trans gone
    · have held := same.symm.trans found
      obtain ⟨t0, uses, granted, rest⟩ := h.present other sess held
      refine ⟨t0, uses, (granted_cons _).mpr (Or.inr ⟨nofun, ?_, uses, granted, (List.append_nil _).symm⟩), rest⟩
      intro revoked
      cases revoked
      exact others sess held rfl
  · intro other owner t0 uses missing granted
    obtain ⟨differs, again⟩ := before granted
    rcases lookup_revokeUser s.store user other with ⟨_, sess, found, owned⟩ | ⟨same, _⟩
    · obtain ⟨_, _, own, _⟩ := h.present other sess found
      obtain ⟨one, _⟩ := Granted.unique h.fresh again own
      exact absurd (one.trans owned) differs
    · exact (h.absent other owner t0 uses (same.symm.trans missing) again).imp later.trans_lt' later.trans_lt'

theorem step {label : SessionCall × Int} {t : SessionRun} (h : s.Faithful ttl idle) (regular : s.Regular label)
    (done : s.Steps label t) : t.Faithful ttl idle := by
  obtain ⟨call, now⟩ := label
  obtain ⟨later, own⟩ := regular
  cases done
  cases call with
  | create random user =>
    cases random with
    | none => exact h.forget later s.store ⟨rfl, rfl⟩ fun _ => Or.inl rfl
    | some id => exact h.create later own.1 own.2.1 own.2.2
  | validate id user => exact h.validate later id user
  | revoke id => exact h.revoke later id
  | revokeUser user => exact h.revokeUser later user

end Faithful

theorem start_faithful (ttl idle time : Int) :
    (start ttl idle time).Faithful (newSessionStore ttl idle).ttl (newSessionStore ttl idle).idle := by
  refine ⟨⟨rfl, rfl⟩, List.nodup_nil, nofun, ?_, ?_⟩
  · intro id sess found
    cases found.symm.trans (AList.lookup_empty id)
  · intro id user t0 uses _ granted
    cases granted.created

end SessionRun

/-- A session is valid exactly as its history says. -/
theorem session_valid_iff (ttl idle first : Int) (s : SessionRun)
    (run : Reaches SessionRun.Regular SessionRun.Steps (SessionRun.start ttl idle first) s) (id user : Bytes) (t : Int)
    (later : s.time ≤ t) :
    (s.store.validate id user t).2 = true ↔
      ValidAt (newSessionStore ttl idle).ttl (newSessionStore ttl idle).idle s.history id user t := by
  have h := run.invariant (SessionRun.start_faithful ttl idle first) fun _ _ _ h regular done => h.step regular done
  constructor
  · intro accepted
    rw [SessionStore.validate] at accepted
    split at accepted
    · cases accepted
    · split at accepted
      · cases accepted
      · rename_i sess found
        split at accepted
        · cases accepted
        · rename_i own
          cases not_not.mp own
          split at accepted
          · cases accepted
          · rename_i going
            obtain ⟨t0, uses, granted, expires, deadline, chain⟩ := h.present id sess found
            rw [SessionRun.isOver_iff, expires, deadline] at going
            exact ⟨t0, uses, granted, by omega, (isChain_concat t).mpr ⟨chain, by omega⟩⟩
  · rintro ⟨t0, uses, granted, alive, chain⟩
    obtain ⟨_, inTime⟩ := (isChain_concat t).mp chain
    obtain ⟨filled, someone⟩ := h.named id user t0 granted.created
    cases found : s.store.byID.lookup id with
    | none =>
      have := h.absent id user t0 uses found granted
      omega
    | some sess =>
      obtain ⟨t1, used, owned, expires, deadline, _⟩ := h.present id sess found
      obtain ⟨rfl, rfl, rfl⟩ := Granted.unique h.fresh granted owned
      have going : ¬ sess.isOver t = true := by
        rw [SessionRun.isOver_iff, expires, deadline]
        omega
      rw [SessionStore.validate, if_neg (not_or.mpr ⟨filled, someone⟩), found]
      dsimp only
      rw [if_neg (not_not.mpr rfl), if_neg going]

theorem session_valid_iff_used :
    ∃ s : SessionRun, Reaches SessionRun.Regular SessionRun.Steps (SessionRun.start (5 * minute) (2 * minute) 0) s ∧
      (s.store.validate (ascii "b") (ascii "ann") (3 * minute)).2 = true ∧
      ValidAt (5 * minute) (2 * minute) s.history (ascii "b") (ascii "ann") (3 * minute) := by
  obtain ⟨s, run, time, accepted⟩ : ∃ s : SessionRun,
      Reaches SessionRun.Regular SessionRun.Steps (SessionRun.start (5 * minute) (2 * minute) 0) s ∧
        s.time ≤ 3 * minute ∧ (s.store.validate (ascii "b") (ascii "ann") (3 * minute)).2 = true :=
    exists_reaches [(.create (some (ascii "a")) (ascii "bob"), 0), (.create (some (ascii "b")) (ascii "ann"), 0),
      (.validate (ascii "b") (ascii "ann"), 2 * minute), (.revoke (ascii "a"), 2 * minute)] SessionRun.perform_steps
        (by decide +kernel)
  exact ⟨s, run, accepted, (session_valid_iff (5 * minute) (2 * minute) 0 s run _ _ _ time).mp accepted⟩

end PocketKafka.Web
