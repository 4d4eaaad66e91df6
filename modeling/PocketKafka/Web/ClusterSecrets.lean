import PocketKafka.Lib.Runs
import PocketKafka.Web.Clusters

namespace PocketKafka.Web

open Bytes Text Runs

/-- What a cluster is reached by: the URL of a peer, or brokers and the user that logs in there. -/
inductive Target where
  | peer (url : Bytes)
  | kafka (brokers : Multiset Bytes) (saslUser : Bytes)
  deriving DecidableEq

namespace ClusterEntry

def peerTarget (e : ClusterEntry) : Target := .peer (normalizeClusterURL e.url)

def kafkaTarget (e : ClusterEntry) : Target := .kafka (e.brokers.map trimSpace) (trimSpace e.saslUser)

def target (e : ClusterEntry) : Target :=
  if normalizeKind e.kind = clusterKindKafka then e.kafkaTarget else e.peerTarget

end ClusterEntry

/-- The rest of a request that is being served: each read of a secret is a section of its own under the lock. -/
inductive Task where
  | read (kind : SecretKind) (next : Option Secret → Task)
  | send (secret : Option Secret)
  | external
  | done

structure Pending where
  name : Bytes
  target : Target
  task : Task

structure External where
  target : Target
  secret : Option Secret

/-- A stored secret that was handed to a client for a target: of a Kafka cluster, the list of brokers that the client is
given, not those that the cluster advertises to it. User and brokers are taken without the blanks around them. -/
structure Sent where
  secret : Secret
  target : Target
  deriving DecidableEq

structure Dashboard where
  store : ClusterStore
  external : AList fun _ : Bytes => External
  pending : List Pending
  sent : List Sent

def overviewTask (e : ClusterEntry) : Pending where
  name := e.name
  target := e.target
  task :=
    if normalizeKind e.kind = clusterKindKafka then .external
    else .read .token fun healthToken => .read .dashboard fun token => .send (token.or healthToken)

/-- The part of a request to a target that decides how it is served: what `peerTargetRouteAllowed` or
    `kafkaReadEndpoint` say of its path, whether its method changes something, and whether security and ACLs are on. -/
structure TargetRequest where
  name : Bytes
  allowed : Bool
  mutating : Bool
  secured : Bool
  deriving DecidableEq, Repr

def targetTask (e : ClusterEntry) (r : TargetRequest) : Pending where
  name := r.name
  target := e.target
  task :=
    if !r.allowed then .done
    else if normalizeKind e.kind = clusterKindKafka then .external
    else if normalizeKind e.kind ≠ clusterKindPeer then .done
    else
      .read .dashboard fun token =>
        if r.mutating then
          if !r.secured then .done else if token = none then .done else .send token
        else if token = none then .read .token .send
        else .send token

def healthTask (e : ClusterEntry) (name : Bytes) : Pending where
  name := name
  target := e.target
  task := if normalizeKind e.kind = clusterKindKafka then .external else .read .token .send

structure TestRequest where
  entry : ClusterEntry
  saslPassword : Bytes
  token : Bytes
  clearToken : Bool
  dashboardToken : Bytes
  clearDashboardToken : Bool
  deriving DecidableEq, Repr

/-- `handleTestCluster`. Secrets that the request brings along are not stored ones. -/
def testTask (lib : NetLibrary) (s : ClusterStore) (req : TestRequest) : Option Pending :=
  let e := req.entry
  if normalizeKind e.kind = clusterKindKafka then
    match validateKafkaEntry lib e with
    | .error _ => none
    | .ok () =>
      if req.saslPassword = [] ∧ e.name ≠ [] then
        (s.get e.name).bind fun stored =>
          if sameKafkaTarget stored e then some ⟨e.name, e.kafkaTarget, .read .sasl .send⟩ else none
      else none
  else
    match validateClusterURL lib e.url with
    | .error _ => none
    | .ok () =>
      let wantHealthToken := !req.clearToken && decide (req.token = [])
      let wantDashboard := !req.clearDashboardToken && decide (req.dashboardToken = [])
      let given := !req.clearDashboardToken && decide (req.dashboardToken ≠ [])
      if e.name ≠ [] ∧ (wantHealthToken || wantDashboard) then
        (s.get e.name).bind fun stored =>
          if samePeerTarget stored e then
            -- a dashboard token of the request is used in the place of any stored one
            some ⟨e.name, e.peerTarget,
              if wantHealthToken then
                .read .token fun healthToken =>
                  if wantDashboard then .read .dashboard fun token => .send (token.or healthToken)
                  else if given then .done else .send healthToken
              else .read .dashboard fun token => .send token⟩
          else none
      else none

inductive ClusterEvent where
  | upsert (req : UpsertRequest) (wrote : Writes)
  | remove (name : Bytes) (wroteTokens wroteEntries : Bool)
  | drop (name : Bytes)
  | overview
  | target (r : TargetRequest)
  | health (name : Bytes)
  | test (req : TestRequest)
  | goOn (i : Nat)
  | sample (name : Bytes)
  deriving DecidableEq, Repr

namespace Dashboard

variable (d : Dashboard)

def start (p : Option Pending) : Dashboard := { d with pending := d.pending ++ p.toList }

def record (secret : Option Secret) (target : Target) : Dashboard :=
  { d with sent := (secret.map fun secret => ⟨secret, target⟩).toList ++ d.sent }

/-- `externalFor`: the client of the name that there is, or a new one. It goes to its brokers at once. -/
def externalFor (name : Bytes) (target : Target) : Dashboard :=
  match d.external.lookup name with
  | some ec => d.record ec.secret ec.target
  | none =>
    let ec : External := ⟨target, d.store.secret name .sasl⟩
    { d with external := d.external.insert name ec }.record ec.secret ec.target

def goOn (i : Nat) : Dashboard :=
  match d.pending[i]? with
  | none => d
  | some p =>
    let ended := { d with pending := d.pending.eraseIdx i }
    match p.task with
    | .read kind next => { d with pending := d.pending.set i { p with task := next (d.store.secret p.name kind) } }
    | .send secret => ended.record secret p.target
    | .external => ended.externalFor p.name p.target
    | .done => ended

def step (lib : NetLibrary) : ClusterEvent → Dashboard
  | .upsert req wrote => { d with store := (handleUpsertCluster lib d.store req wrote).1 }
  | .remove name wroteTokens wroteEntries => { d with store := (d.store.remove name wroteTokens wroteEntries).1 }
  | .drop name => { d with external := d.external.erase name }
  | .overview => { d with pending := d.pending ++ d.store.entries.map overviewTask }
  | .target r => d.start ((d.store.get r.name).map fun e => targetTask e r)
  | .health name => d.start ((d.store.get name).map fun e => healthTask e name)
  | .test req => d.start (testTask lib d.store req)
  | .goOn i => d.goOn i
  | .sample name =>
    match d.external.lookup name with
    | none => d
    | some ec => d.record ec.secret ec.target

end Dashboard

theorem mem_trimLeft {among : List Bytes} {fuel : Nat} {s : Bytes} {c : UInt8} (member : c ∈ s) :
    c ∈ trimLeft among fuel s ∨ c ∈ among.flatten := by
  induction fuel generalizing s with
  | zero => exact .inl member
  | succ fuel ih =>
    rw [trimLeft]
    split
    · exact .inl member
    · rename_i space found
      have starts := List.find?_some found
      obtain ⟨rest, rfl⟩ := List.isPrefixOf_iff_prefix.mp starts
      rw [List.drop_left]
      rcases List.mem_append.mp member with inside | later
      · exact .inr (List.mem_flatten.mpr ⟨space, List.mem_of_find?_eq_some found, inside⟩)
      · exact ih later

theorem mem_trimSpace {s : Bytes} {c : UInt8} (member : c ∈ s) : c ∈ trimSpace s ∨ c ∈ spaces.flatten := by
  rcases mem_trimLeft member with left | space
  · rcases mem_trimLeft (List.mem_reverse.mpr left) with right | space
    · exact .inl (List.mem_reverse.mpr right)
    · refine .inr ?_
      obtain ⟨_, listed, inside⟩ := List.mem_flatten.mp space
      obtain ⟨word, known, rfl⟩ := List.mem_map.mp listed
      exact List.mem_flatten.mpr ⟨word, known, List.mem_reverse.mp inside⟩
  · exact .inr space

theorem validateClusterName_plain {name : Bytes} (valid : validateClusterName name = .ok ()) : 58 ∉ name := by
  intro member
  have letters : (trimSpace name).all nameByte = true := by
    simp only [validateClusterName] at valid
    split at valid
    · cases valid
    split at valid
    · cases valid
    split at valid
    · assumption
    · cases valid
  rcases mem_trimSpace member with inside | space
  · exact absurd (List.all_eq_true.mp letters 58 inside) (by decide)
  · exact absurd space (by decide)

theorem validateEntry_plain {lib : NetLibrary} {e : ClusterEntry} (valid : validateEntry lib e = .ok ()) :
    58 ∉ e.name := by
  cases named : validateClusterName e.name with
  | ok => exact validateClusterName_plain named
  | error err =>
    rw [validateEntry, named] at valid
    cases valid

theorem SecretKind.key_inj {n m : Bytes} {k k' : SecretKind} (left : 58 ∉ n) (right : 58 ∉ m)
    (same : k.key n = k'.key m) : k = k' ∧ n = m := by
  have colon : ∀ {front name : Bytes}, 58 ∈ front → 58 ∈ front ++ name := List.mem_append_left _
  cases k <;> cases k'
  case token.token => exact ⟨rfl, same⟩
  case sasl.sasl | dashboard.dashboard => exact ⟨rfl, List.append_cancel_left same⟩
  case sasl.dashboard | dashboard.sasl => exact absurd (List.cons.inj same).1 (by decide)
  case token.sasl | token.dashboard =>
    refine absurd ?_ left
    rw [show n = _ from same]
    exact colon (by decide)
  case sasl.token | dashboard.token =>
    refine absurd ?_ right
    rw [show m = _ from same.symm]
    exact colon (by decide)

theorem takesAll_iff {seen : Bytes → Nat} {b : List Bytes} :
    takesAll seen b = true ↔ ∀ key, (b.map trimSpace).count key ≤ seen key := by
  induction b generalizing seen with
  | nil => simp [takesAll]
  | cons v rest ih =>
    rw [takesAll]
    by_cases none : seen (trimSpace v) = 0
    · simp only [none, if_true, Bool.false_eq_true, false_iff, not_forall]
      refine ⟨trimSpace v, ?_⟩
      rw [List.map_cons, List.count_cons_self, none]
      omega
    · simp only [none, if_false, ih]
      apply forall_congr'
      intro key
      by_cases same : key = trimSpace v
      · subst same
        rw [Function.update_self, List.map_cons, List.count_cons_self]
        omega
      · rw [Function.update_of_ne same, List.map_cons, List.count_cons_of_ne (Ne.symm same)]

theorem sameStringSet_eq {a b : List Bytes} (same : sameStringSet a b = true) :
    (a.map trimSpace : Multiset Bytes) = b.map trimSpace := by
  unfold sameStringSet at same
  split at same
  · cases same
  rename_i length
  have inside : (b.map trimSpace).Subperm (a.map trimSpace) := by
    rw [List.subperm_ext_iff]
    exact fun key _ => takesAll_iff.mp same key
  refine Multiset.coe_eq_coe.mpr (inside.perm_of_length_le ?_).symm
  rw [List.length_map, List.length_map]
  omega

theorem samePeerTarget_eq {stored want : ClusterEntry} (same : samePeerTarget stored want = true) :
    stored.target = want.peerTarget := by
  obtain ⟨kind, url⟩ := of_decide_eq_true same
  have other : clusterKindPeer ≠ clusterKindKafka := by decide
  rw [ClusterEntry.target, kind, if_neg other, ClusterEntry.peerTarget, url, ClusterEntry.peerTarget]

theorem sameKafkaTarget_eq {stored want : ClusterEntry} (same : sameKafkaTarget stored want = true) :
    stored.target = want.kafkaTarget := by
  unfold sameKafkaTarget at same
  split at same
  · cases same
  rename_i kind
  split at same
  · cases same
  rename_i user
  rw [ClusterEntry.target, if_pos (not_not.mp kind), ClusterEntry.kafkaTarget, sameStringSet_eq same, not_not.mp user,
    ClusterEntry.kafkaTarget]

namespace ClusterStore

variable {s : ClusterStore} {e : ClusterEntry} {name : Bytes} {kind k : SecretKind}

theorem secret_setSecret_self (value : Bytes) :
    (s.setSecret e kind value).secret e.name kind = if value = [] then none else some ⟨value, e⟩ := by
  rw [secret, setSecret]
  split
  · exact AList.lookup_erase _ _
  · exact AList.lookup_insert _

theorem secret_setSecret_ne (value : Bytes) (other : k.key name ≠ kind.key e.name) :
    (s.setSecret e kind value).secret name k = s.secret name k := by
  rw [secret, setSecret]
  show AList.lookup _ (if _ then _ else _) = _
  split
  · exact AList.lookup_erase_ne other
  · exact AList.lookup_insert_ne other

theorem setSecrets_other (own : 58 ∉ e.name) (plain : 58 ∉ name) (other : name ≠ e.name)
    (changes : List (SecretKind × Option Bytes × Bool)) :
    (setSecrets e s changes).1.secret name k = s.secret name k := by
  induction changes generalizing s with
  | nil => rfl
  | cons change rest ih =>
    obtain ⟨kind, value, wrote⟩ := change
    cases value with
    | none => exact ih
    | some value =>
      have kept : (s.setSecret e kind value).secret name k = s.secret name k :=
        secret_setSecret_ne value fun same => other (SecretKind.key_inj plain own same).2
      rw [setSecrets]
      split
      · exact kept
      · rw [ih, kept]

theorem setSecrets_own (own : 58 ∉ e.name) {changes : List (SecretKind × Option Bytes × Bool)} {secret : Secret}
    (stored : (setSecrets e s changes).1.secret e.name k = some secret) :
    secret.origin = e ∨ s.secret e.name k = some secret := by
  induction changes generalizing s with
  | nil => exact .inr stored
  | cons change rest ih =>
    obtain ⟨kind, value, wrote⟩ := change
    cases value with
    | none => exact ih stored
    | some value =>
      have set : ∀ {secret}, (s.setSecret e kind value).secret e.name k = some secret →
          secret.origin = e ∨ s.secret e.name k = some secret := by
        intro secret stored
        by_cases same : k = kind
        · subst same
          rw [secret_setSecret_self] at stored
          split at stored
          · cases stored
          · cases stored
            exact .inl rfl
        · rw [secret_setSecret_ne value fun equal => same (SecretKind.key_inj own own equal).1] at stored
          exact .inr stored
      rw [setSecrets] at stored
      split at stored
      · exact set stored
      · rcases ih stored with fresh | before
        · exact .inl fresh
        · exact set before

/-- The tokens can be written to their file, whatever they are. -/
def Writable (s : ClusterStore) (wrote : Writes) : Prop :=
  s.persistent = false ∨ s.hasBox = true ∧ wrote.token = true ∧ wrote.sasl = true ∧ wrote.dashboard = true

theorem setSecrets_given (own : 58 ∉ e.name) {changes : List (SecretKind × Option Bytes × Bool)} {secret : Secret}
    (written : s.persistent = false ∨ s.hasBox = true ∧ ∀ change ∈ changes, change.2.2 = true)
    (given : ∃ change ∈ changes, change.1 = k ∧ change.2.1 ≠ none)
    (stored : (setSecrets e s changes).1.secret e.name k = some secret) : secret.origin = e := by
  induction changes generalizing s with
  | nil =>
    obtain ⟨_, member, _⟩ := given
    cases member
  | cons change rest ih =>
    obtain ⟨kind, value, wrote⟩ := change
    have later : s.persistent = false ∨ s.hasBox = true ∧ ∀ change ∈ rest, change.2.2 = true :=
      written.imp_right fun h => ⟨h.1, fun change member => h.2 change (List.mem_cons_of_mem _ member)⟩
    cases value with
    | none =>
      refine ih later ?_ stored
      obtain ⟨change, member, same, some⟩ := given
      rcases List.mem_cons.mp member with rfl | inside
      · exact absurd rfl some
      · exact ⟨change, inside, same, some⟩
    | some value =>
      have persisted : (s.setSecret e kind value).persistTokens wrote = none := by
        unfold persistTokens
        show (if !s.persistent then none else if !s.hasBox then _ else _) = none
        rcases written with memory | ⟨box, all⟩
        · rw [memory]
          rfl
        · rw [show wrote = true from all _ List.mem_cons_self, box]
          split <;> rfl
      rw [setSecrets, persisted] at stored
      by_cases same : k = kind
      · subst same
        rcases setSecrets_own own stored with fresh | before
        · exact fresh
        · rw [secret_setSecret_self] at before
          split at before
          · cases before
          · cases before
            rfl
      · refine ih (s := s.setSecret e kind value) later ?_ stored
        obtain ⟨change, member, kinds, some⟩ := given
        rcases List.mem_cons.mp member with rfl | inside
        · exact absurd kinds.symm same
        · exact ⟨change, inside, kinds, some⟩

theorem setSecrets_entries (changes : List (SecretKind × Option Bytes × Bool)) :
    (setSecrets e s changes).1.entries = s.entries := by
  induction changes generalizing s with
  | nil => rfl
  | cons change rest ih =>
    obtain ⟨kind, value, wrote⟩ := change
    cases value with
    | none => exact ih
    | some value =>
      rw [setSecrets]
      split
      · rfl
      · rw [ih]
        rfl

theorem mem_replaceEntry {entries : List ClusterEntry} {x : ClusterEntry} (unique : (entries.map (·.name)).Nodup)
    (member : x ∈ replaceEntry e entries) : x = e ∨ x ∈ entries ∧ x.name ≠ e.name := by
  induction entries with
  | nil => exact .inl (List.mem_singleton.mp member)
  | cons head rest ih =>
    obtain ⟨fresh, later⟩ := List.nodup_cons.mp unique
    rw [replaceEntry] at member
    split at member
    · rename_i same
      rcases List.mem_cons.mp member with rfl | inside
      · exact .inl rfl
      · refine .inr ⟨List.mem_cons_of_mem _ inside, ?_⟩
        intro equal
        apply fresh
        show head.name ∈ _
        rw [same, ← equal]
        exact List.mem_map_of_mem inside
    · rename_i differs
      rcases List.mem_cons.mp member with rfl | inside
      · exact .inr ⟨List.mem_cons_self, differs⟩
      · exact (ih later inside).imp_right fun h => ⟨List.mem_cons_of_mem _ h.1, h.2⟩

theorem replaceEntry_unique {entries : List ClusterEntry} (unique : (entries.map (·.name)).Nodup) :
    ((replaceEntry e entries).map (·.name)).Nodup := by
  induction entries with
  | nil => exact List.nodup_singleton _
  | cons head rest ih =>
    obtain ⟨fresh, later⟩ := List.nodup_cons.mp unique
    rw [replaceEntry]
    split
    · rename_i same
      rw [List.map_cons, ← same]
      exact unique
    · rename_i differs
      rw [List.map_cons, List.nodup_cons]
      refine ⟨?_, ih later⟩
      intro member
      obtain ⟨x, inside, equal⟩ := List.mem_map.mp member
      rcases mem_replaceEntry later inside with rfl | ⟨before, _⟩
      · exact differs equal.symm
      · exact fresh (List.mem_map.mpr ⟨x, before, equal⟩)

end ClusterStore

/-- The secret, if there is one, was stored with the target. -/
def Belongs (target : Target) (found : Option Secret) : Prop := ∀ secret ∈ found, secret.origin.target = target

/-- The secrets of the name were stored with the target. -/
def ClusterStore.Holds (s : ClusterStore) (name : Bytes) (target : Target) : Prop :=
  ∀ kind, Belongs target (s.secret name kind)

/-- If it reads secrets of the target only, it sends no others. -/
def Task.Safe (target : Target) : Task → Prop
  | .read _ next => ∀ found, Belongs target found → (next found).Safe target
  | .send secret => Belongs target secret
  | .external => True
  | .done => True

/-- An `upsert` that moves a cluster to another target replaces or clears the secrets stored for it, in files that can
    be written, and comes when no request for the cluster is under way. -/
def Keeps (d : Dashboard) : ClusterEvent → Prop
  | .upsert req wrote =>
    (∀ kind, ∀ secret ∈ d.store.secret req.entry.trimmed.name kind,
      secret.origin.target = req.entry.trimmed.target ∨ req.supply.of kind ≠ none ∧ d.store.Writable wrote) ∧
    ∀ p ∈ d.pending, p.name = req.entry.trimmed.name → p.target = req.entry.trimmed.target
  | _ => True

instance : Fintype SecretKind := ⟨{.token, .sasl, .dashboard}, fun kind => by cases kind <;> decide⟩

instance (s : ClusterStore) (wrote : Writes) : Decidable (s.Writable wrote) :=
  inferInstanceAs (Decidable (_ ∨ _ ∧ _ ∧ _ ∧ _))

instance (d : Dashboard) (event : ClusterEvent) : Decidable (Keeps d event) := by
  unfold Keeps
  split <;> infer_instance

structure Dashboard.Paired (d : Dashboard) : Prop where
  unique : (d.store.entries.map (·.name)).Nodup
  plain : ∀ e ∈ d.store.entries, 58 ∉ e.name
  stored : ∀ e ∈ d.store.entries, d.store.Holds e.name e.target
  waiting : ∀ p ∈ d.pending, 58 ∉ p.name ∧ d.store.Holds p.name p.target ∧ p.task.Safe p.target
  external : ∀ name ec, d.external.lookup name = some ec → Belongs ec.target ec.secret
  sent : ∀ record ∈ d.sent, record.secret.origin.target = record.target

variable {lib : NetLibrary} {d : Dashboard}

theorem Belongs.or {target : Target} {a b : Option Secret} (first : Belongs target a) (second : Belongs target b) :
    Belongs target (a.or b) := by
  cases a with
  | none => exact second
  | some secret => exact first

theorem overviewTask_safe (e : ClusterEntry) : (overviewTask e).task.Safe (overviewTask e).target := by
  unfold overviewTask
  dsimp only
  split
  · trivial
  · intro healthToken health token dashboard
    exact Belongs.or dashboard health

theorem targetTask_safe (e : ClusterEntry) (r : TargetRequest) : (targetTask e r).task.Safe (targetTask e r).target := by
  unfold targetTask
  dsimp only
  split
  · trivial
  split
  · trivial
  split
  · trivial
  intro token paired
  dsimp only
  split
  · split
    · trivial
    show Task.Safe _ (if token = none then _ else _)
    split
    · trivial
    · exact paired
  · show Task.Safe _ (if token = none then _ else _)
    split
    · exact fun healthToken health => health
    · exact paired

theorem healthTask_safe (e : ClusterEntry) (name : Bytes) : (healthTask e name).task.Safe (healthTask e name).target := by
  unfold healthTask
  dsimp only
  split
  · trivial
  · exact fun token paired => paired

theorem testTask_found {s : ClusterStore} {req : TestRequest} {p : Pending} (begun : testTask lib s req = some p) :
    ∃ stored, s.get p.name = some stored ∧ stored.target = p.target ∧ p.task.Safe p.target := by
  unfold testTask at begun
  dsimp only at begun
  split at begun
  · split at begun
    · cases begun
    split at begun
    · obtain ⟨stored, found, checked⟩ := Option.bind_eq_some_iff.mp begun
      split at checked
      · rename_i same
        cases checked
        exact ⟨stored, found, sameKafkaTarget_eq same, fun password paired => paired⟩
      · cases checked
    · cases begun
  · split at begun
    · cases begun
    split at begun
    · obtain ⟨stored, found, checked⟩ := Option.bind_eq_some_iff.mp begun
      split at checked
      · rename_i same
        cases checked
        refine ⟨stored, found, samePeerTarget_eq same, ?_⟩
        dsimp only
        split
        · intro healthToken health
          split
          · exact fun token dashboard => Belongs.or dashboard health
          split
          · trivial
          · exact health
        · exact fun token dashboard => dashboard
      · cases checked
    · cases begun

theorem get_some {s : ClusterStore} {name : Bytes} {e : ClusterEntry} (found : s.get name = some e) :
    e ∈ s.entries ∧ e.name = name := by
  have test := List.find?_some found
  exact ⟨List.mem_of_find?_eq_some found, of_decide_eq_true test⟩

namespace ClusterStore

variable {s : ClusterStore} {name : Bytes} {kind : SecretKind}

theorem upsert_cases (lib : NetLibrary) (s : ClusterStore) (entry : ClusterEntry) (supply : Supply) (wrote : Writes) :
    (s.upsert lib entry supply wrote).1 = s ∨ 58 ∉ entry.trimmed.name ∧
      (s.upsert lib entry supply wrote).1 =
        (setSecrets entry.trimmed { s with entries := replaceEntry entry.trimmed s.entries } (supply.changes wrote)).1 := by
  unfold upsert
  dsimp only
  split
  · exact .inl rfl
  rename_i valid
  split
  · exact .inl rfl
  refine .inr ⟨validateEntry_plain valid, ?_⟩
  split
  · rename_i result
    rw [result]
  · rename_i result
    rw [result]

theorem remove_secret {other : Bytes} {wroteTokens wroteEntries : Bool} {secret : Secret}
    (stored : (s.remove name wroteTokens wroteEntries).1.secret other kind = some secret) :
    s.secret other kind = some secret := by
  have erased : ∀ {tokens : AList fun _ : Bytes => Secret} {key removed : Bytes},
      (tokens.erase removed).lookup key = some secret → tokens.lookup key = some secret := by
    intro tokens key removed found
    by_cases same : key = removed
    · rw [same, AList.lookup_erase] at found
      cases found
    · rw [AList.lookup_erase_ne same] at found
      exact found
  unfold remove at stored
  split at stored
  · exact stored
  dsimp only at stored
  split at stored
  · exact erased (erased (erased stored))
  · exact erased (erased (erased stored))

theorem remove_entries {wroteTokens wroteEntries : Bool} :
    (s.remove name wroteTokens wroteEntries).1.entries.Sublist s.entries := by
  unfold remove
  split
  · exact List.Sublist.refl _
  dsimp only
  split
  · exact List.filter_sublist
  · exact List.filter_sublist

end ClusterStore

theorem Supply.mem_changes {supply : Supply} {kind : SecretKind} (some : supply.of kind ≠ none) (wrote : Writes) :
    ∃ change ∈ supply.changes wrote, change.1 = kind ∧ change.2.1 ≠ none := by
  unfold changes
  cases kind
  · exact ⟨_, List.mem_cons_self, rfl, some⟩
  · exact ⟨_, List.mem_cons_of_mem _ List.mem_cons_self, rfl, some⟩
  · exact ⟨_, List.mem_cons_of_mem _ (List.mem_cons_of_mem _ List.mem_cons_self), rfl, some⟩

theorem ClusterStore.Writable.changes {s : ClusterStore} {wrote : Writes} (writable : s.Writable wrote) (supply : Supply) :
    s.persistent = false ∨ s.hasBox = true ∧ ∀ change ∈ supply.changes wrote, change.2.2 = true := by
  refine writable.imp_right fun ⟨box, token, sasl, dashboard⟩ => ⟨box, ?_⟩
  simp [Supply.changes, token, sasl, dashboard]

namespace Dashboard

variable {req : UpsertRequest} {wrote : Writes}

theorem setSecrets_holds (entries : List ClusterEntry) (own : 58 ∉ req.entry.trimmed.name)
    (keeps : Keeps d (.upsert req wrote)) :
    (ClusterStore.setSecrets req.entry.trimmed { d.store with entries := entries } (req.supply.changes wrote)).1.Holds
      req.entry.trimmed.name req.entry.trimmed.target := by
  intro kind secret stored
  rcases ClusterStore.setSecrets_own own stored with fresh | before
  · rw [fresh]
  · rcases keeps.1 kind secret before with same | ⟨given, writable⟩
    · exact same
    · have written := writable.changes req.supply
      rw [ClusterStore.setSecrets_given (s := { d.store with entries := entries }) own written
        (Supply.mem_changes given wrote) stored]

theorem Paired.upsert (h : d.Paired) (keeps : Keeps d (.upsert req wrote)) :
    Paired { d with store := (d.store.upsert lib req.entry req.supply wrote).1 } := by
  rcases d.store.upsert_cases lib req.entry req.supply wrote with same | ⟨own, after⟩
  · rw [same]
    exact h
  have holds := setSecrets_holds (ClusterStore.replaceEntry req.entry.trimmed d.store.entries) own keeps
  have others : ∀ {name : Bytes} {target : Target}, 58 ∉ name → name ≠ req.entry.trimmed.name →
      d.store.Holds name target →
      (ClusterStore.setSecrets req.entry.trimmed
        { d.store with entries := ClusterStore.replaceEntry req.entry.trimmed d.store.entries }
        (req.supply.changes wrote)).1.Holds name target := by
    intro name target plain other before kind
    rw [ClusterStore.setSecrets_other own plain other]
    exact before kind
  rw [after]
  refine ⟨?_, ?_, ?_, ?_, h.external, h.sent⟩
  · rw [ClusterStore.setSecrets_entries]
    exact ClusterStore.replaceEntry_unique h.unique
  · rw [ClusterStore.setSecrets_entries]
    intro e member
    rcases ClusterStore.mem_replaceEntry h.unique member with rfl | ⟨before, _⟩
    · exact own
    · exact h.plain e before
  · rw [ClusterStore.setSecrets_entries]
    intro e member
    rcases ClusterStore.mem_replaceEntry h.unique member with rfl | ⟨before, other⟩
    · exact holds
    · exact others (h.plain e before) other (h.stored e before)
  · intro p member
    obtain ⟨plain, before, safe⟩ := h.waiting p member
    refine ⟨plain, ?_, safe⟩
    by_cases same : p.name = req.entry.trimmed.name
    · rw [same, keeps.2 p member same]
      exact holds
    · exact others plain same before

theorem Paired.remove (h : d.Paired) (name : Bytes) (wroteTokens wroteEntries : Bool) :
    Paired { d with store := (d.store.remove name wroteTokens wroteEntries).1 } where
  unique := h.unique.sublist (ClusterStore.remove_entries.map _)
  plain e member := h.plain e (ClusterStore.remove_entries.subset member)
  stored e member kind secret stored :=
    h.stored e (ClusterStore.remove_entries.subset member) kind secret (ClusterStore.remove_secret stored)
  waiting p member := by
    obtain ⟨plain, before, safe⟩ := h.waiting p member
    exact ⟨plain, fun kind secret stored => before kind secret (ClusterStore.remove_secret stored), safe⟩
  external := h.external
  sent := h.sent

theorem Paired.start (h : d.Paired) {request : Option Pending}
    (begun : ∀ p ∈ request, 58 ∉ p.name ∧ d.store.Holds p.name p.target ∧ p.task.Safe p.target) : (d.start request).Paired :=
  { h with
    waiting := by
      intro q member
      rcases List.mem_append.mp member with before | new
      · exact h.waiting q before
      · exact begun q (Option.mem_toList.mp new) }

theorem Paired.found (h : d.Paired) {name : Bytes} {e : ClusterEntry} (found : d.store.get name = some e) :
    58 ∉ name ∧ d.store.Holds name e.target := by
  obtain ⟨member, rfl⟩ := get_some found
  exact ⟨h.plain e member, h.stored e member⟩

theorem Paired.record (h : d.Paired) {secret : Option Secret} {target : Target} (belongs : Belongs target secret) :
    (d.record secret target).Paired :=
  { h with
    sent := by
      intro record member
      rcases List.mem_append.mp member with new | before
      · obtain ⟨found, present, rfl⟩ := Option.map_eq_some_iff.mp (Option.mem_toList.mp new)
        exact belongs found present
      · exact h.sent record before }

theorem Paired.externalFor (h : d.Paired) {name : Bytes} {target : Target} (holds : d.store.Holds name target) :
    (d.externalFor name target).Paired := by
  unfold Dashboard.externalFor
  split
  · rename_i ec found
    exact h.record (h.external name ec found)
  · have opened : Paired { d with external := d.external.insert name ⟨target, d.store.secret name .sasl⟩ } :=
      { h with
        external := by
          intro other ec found
          by_cases same : other = name
          · subst same
            rw [AList.lookup_insert] at found
            cases found
            exact holds .sasl
          · rw [AList.lookup_insert_ne same] at found
            exact h.external other ec found }
    exact opened.record (holds .sasl)

theorem Paired.goOn (h : d.Paired) (i : Nat) : (d.goOn i).Paired := by
  unfold Dashboard.goOn
  split
  · exact h
  rename_i p found
  obtain ⟨plain, holds, safe⟩ := h.waiting p (List.mem_of_getElem? found)
  have ended : Paired { d with pending := d.pending.eraseIdx i } :=
    { h with waiting := fun q member => h.waiting q (List.mem_of_mem_eraseIdx member) }
  dsimp only
  split
  · rename_i kind next task
    rw [task] at safe
    refine { h with waiting := ?_ }
    intro q member
    rcases List.mem_or_eq_of_mem_set member with before | rfl
    · exact h.waiting q before
    · exact ⟨plain, holds, safe _ (holds kind)⟩
  · rename_i secret task
    rw [task] at safe
    exact ended.record safe
  · exact ended.externalFor holds
  · exact ended

theorem Paired.step (h : d.Paired) {event : ClusterEvent} (keeps : Keeps d event) : (d.step lib event).Paired := by
  cases event with
  | upsert req wrote =>
    unfold Dashboard.step handleUpsertCluster
    dsimp only
    split
    · exact h
    · exact h.upsert keeps
  | remove name wroteTokens wroteEntries => exact h.remove name wroteTokens wroteEntries
  | drop name =>
    refine { h with external := ?_ }
    intro other ec found
    change (d.external.erase name).lookup other = some ec at found
    by_cases same : other = name
    · rw [same, AList.lookup_erase] at found
      cases found
    · rw [AList.lookup_erase_ne same] at found
      exact h.external other ec found
  | overview =>
    refine { h with waiting := ?_ }
    intro p member
    rcases List.mem_append.mp member with before | new
    · exact h.waiting p before
    · obtain ⟨e, inside, rfl⟩ := List.mem_map.mp new
      exact ⟨h.plain e inside, h.stored e inside, overviewTask_safe e⟩
  | target r =>
    apply h.start
    intro p begun
    obtain ⟨e, found, rfl⟩ := Option.map_eq_some_iff.mp begun
    obtain ⟨plain, holds⟩ := h.found found
    exact ⟨plain, holds, targetTask_safe e r⟩
  | health name =>
    apply h.start
    intro p begun
    obtain ⟨e, found, rfl⟩ := Option.map_eq_some_iff.mp begun
    obtain ⟨plain, holds⟩ := h.found found
    exact ⟨plain, holds, healthTask_safe e name⟩
  | test req =>
    apply h.start
    intro p begun
    obtain ⟨stored, found, same, safe⟩ := testTask_found begun
    obtain ⟨plain, holds⟩ := h.found found
    exact ⟨plain, same ▸ holds, safe⟩
  | goOn i => exact h.goOn i
  | sample name =>
    unfold Dashboard.step
    dsimp only
    split
    · exact h
    · rename_i ec found
      exact h.record (h.external name ec found)

end Dashboard

def Dashboard.initial (seed : List ClusterEntry) (persistent hasBox : Bool) (boxErr : Option String) : Dashboard :=
  ⟨.newClusterStore seed persistent hasBox boxErr, ∅, [], []⟩

abbrev Serves (lib : NetLibrary) (guard : Dashboard → ClusterEvent → Prop) : Dashboard → Dashboard → Prop :=
  Reaches guard fun d event d' => d.step lib event = d'

theorem initial_paired {seed : List ClusterEntry} (valid : ∀ e ∈ seed, validateEntry lib e = .ok ())
    (unique : (seed.map (·.name)).Nodup) (persistent hasBox : Bool) (boxErr : Option String) :
    (Dashboard.initial seed persistent hasBox boxErr).Paired where
  unique := unique
  plain e member := validateEntry_plain (valid e member)
  stored e member kind secret stored := by cases stored
  waiting := nofun
  external name ec found := by cases found
  sent := nofun

/-- Secrets go only to the targets that they were stored with, as long as no cluster is moved away under them. -/
theorem secrets_reach_own_target {seed : List ClusterEntry} {persistent hasBox : Bool} {boxErr : Option String}
    (valid : ∀ e ∈ seed, validateEntry lib e = .ok ()) (unique : (seed.map (·.name)).Nodup)
    (run : Serves lib Keeps (.initial seed persistent hasBox boxErr) d) :
    ∀ record ∈ d.sent, record.target = record.secret.origin.target := by
  have paired : d.Paired := by
    apply run.invariant (initial_paired valid unique persistent hasBox boxErr)
    intro d event _ h keeps done
    rw [← done]
    exact h.step keeps
  intro record member
  exact (paired.sent record member).symm

def lenientLibrary : NetLibrary where
  parseURL _ := .ok ⟨ascii "http", ascii "host", false⟩
  splitHostPort _ := some (ascii "host", ascii "9092")

def peerRequest (url token : String) : UpsertRequest :=
  ⟨⟨ascii "west", ascii "peer", ascii url, [], [], []⟩, [], false, ascii token, false, [], false⟩

def written : Writes := ⟨true, true, true, true⟩

def overviewOfOne : List ClusterEvent := [.overview, .goOn 0, .goOn 0, .goOn 0]

def Dashboard.next (lib : NetLibrary) (d : Dashboard) (event : ClusterEvent) : Option Dashboard := some (d.step lib event)

theorem serves_of_next (lib : NetLibrary) (d : Dashboard) (event : ClusterEvent) (d' : Dashboard)
    (done : d.next lib event = some d') : d.step lib event = d' := Option.some.inj done

theorem secrets_reach_own_target_west :
    ∃ d, Serves lenientLibrary Keeps (.initial [] true true none) d ∧
      d.sent = [⟨⟨ascii "secret", (peerRequest "http://west" "").entry⟩, .peer (ascii "http://west")⟩] ∧
      ∀ record ∈ d.sent, record.target = record.secret.origin.target := by
  have reached : ∃ d, Serves lenientLibrary Keeps (.initial [] true true none) d ∧
      d.sent = [⟨⟨ascii "secret", (peerRequest "http://west" "").entry⟩, .peer (ascii "http://west")⟩] :=
    exists_reaches (.upsert (peerRequest "http://west" "secret") written :: overviewOfOne) (serves_of_next lenientLibrary)
      (by decide +kernel)
  obtain ⟨d, run, sent⟩ := reached
  have valid : ∀ e ∈ ([] : List ClusterEntry), validateEntry lenientLibrary e = .ok () := nofun
  exact ⟨d, run, sent, secrets_reach_own_target valid List.nodup_nil run⟩

/-- The token of a peer goes to another URL once the entry is edited. -/
theorem token_follows_edited_url :
    ∃ d, Serves lenientLibrary (fun _ _ => True) (.initial [] true true none) d ∧
      ∃ record ∈ d.sent, record.secret = ⟨ascii "secret", (peerRequest "http://west" "").entry⟩ ∧
        record.target = .peer (ascii "http://elsewhere") ∧ record.target ≠ record.secret.origin.target :=
  exists_reaches (.upsert (peerRequest "http://west" "secret") written ::
    .upsert (peerRequest "http://elsewhere" "") written :: overviewOfOne) (serves_of_next lenientLibrary) (by decide +kernel)

end PocketKafka.Web
