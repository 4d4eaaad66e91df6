import PocketKafka.Web.ClusterSecrets

namespace PocketKafka.Web

open Bytes Text Runs

/-- An `externalCluster`. Its sampler runs until `stopped`. -/
structure ExternalCluster where
  name : Bytes
  seeds : List Bytes
  saslUser : Bytes
  saslPassword : Bytes
  stopped : Bool
  deriving DecidableEq

def ClusterStore.saslPassword (s : ClusterStore) (name : Bytes) : Bytes := ((s.secret name .sasl).map Secret.value).getD []

/-- `clients` are all that were ever made; `external` has their places by name. `looked` are the entries that requests
have found, and `dropping` the clusters that are removed from the store by a request that has not come to `dropExternal`. -/
structure Monitor where
  store : ClusterStore
  clients : List ExternalCluster
  external : AList fun _ : Bytes => Nat
  looked : List ClusterEntry
  dropping : List Bytes

inductive MonitorEvent where
  | upsert (req : UpsertRequest) (wrote : Writes)
  | remove (name : Bytes) (wroteTokens wroteEntries : Bool)
  | drop (name : Bytes)
  | look (name : Bytes)
  | list
  | use (e : ClusterEntry)
  deriving DecidableEq

def isKafka (e : ClusterEntry) : Bool := normalizeKind e.kind = clusterKindKafka

namespace Monitor

variable (lib : NetLibrary) (m : Monitor)

def initial (store : ClusterStore) : Monitor := ⟨store, [], ∅, [], []⟩

/-- The place of the client, which is made and started if there is none. -/
def externalFor (e : ClusterEntry) : Nat × Monitor :=
  match m.external.lookup e.name with
  | some i => (i, m)
  | none =>
    let ec : ExternalCluster := ⟨e.name, e.brokers, e.saslUser, m.store.saslPassword e.name, false⟩
    (m.clients.length, { m with clients := m.clients ++ [ec], external := m.external.insert e.name m.clients.length })

def dropExternal (name : Bytes) : Monitor :=
  match m.external.lookup name with
  | none => m
  | some i =>
    { m with
      external := m.external.erase name
      clients := m.clients.modify i fun ec => { ec with stopped := true } }

/-- A deletion drops the client in a section of its own, if `Remove` has returned no error. A request uses an entry of
any kind but Kafka in another way. -/
def perform : MonitorEvent → Option Monitor
  | .upsert req wrote => some { m with store := (handleUpsertCluster lib m.store req wrote).1 }
  | .remove name wroteTokens wroteEntries =>
    let (store, err) := m.store.remove name wroteTokens wroteEntries
    some { m with store := store, dropping := (if err = none then [name] else []) ++ m.dropping }
  | .drop name => if name ∈ m.dropping then some { m.dropExternal name with dropping := m.dropping.erase name } else none
  | .look name => (m.store.get name).bind fun e => if isKafka e then some { m with looked := e :: m.looked } else none
  | .list => some { m with looked := m.store.entries.filter isKafka ++ m.looked }
  | .use e => if e ∈ m.looked then some (m.externalFor e).2 else none

def Steps (m : Monitor) (event : MonitorEvent) (m' : Monitor) : Prop := m.perform lib event = some m'

theorem perform_steps (m : Monitor) (event : MonitorEvent) (m' : Monitor) (done : m.perform lib event = some m') :
    m.Steps lib event m' := done

/-- The client was made with the brokers, the user and the password of the entry. -/
def Fits (store : ClusterStore) (ec : ExternalCluster) (e : ClusterEntry) : Prop :=
  ec.seeds = e.brokers ∧ ec.saslUser = e.saslUser ∧ ec.saslPassword = store.saslPassword e.name

instance (store : ClusterStore) (ec : ExternalCluster) (e : ClusterEntry) : Decidable (Fits store ec e) :=
  inferInstanceAs (Decidable (_ ∧ _ ∧ _))

/-- A call of `externalFor` with the stored entry of a name gives a client that fits it. -/
def Current : Prop :=
  ∀ name e, m.store.get name = some e → ∃ ec, (m.externalFor e).2.clients[(m.externalFor e).1]? = some ec ∧ Fits m.store ec e

def OfStored (ec : ExternalCluster) : Prop := ∃ e, m.store.get ec.name = some e ∧ isKafka e = true ∧ Fits m.store ec e

/-- A sampler runs for a stored entry, or its cluster is being deleted. -/
def Sampled : Prop :=
  ∀ ec ∈ m.clients, ec.stopped = false → m.OfStored ec ∨ m.store.get ec.name = none ∧ ec.name ∈ m.dropping

/-- While there is a client of the name, an `upsert` leaves kind, brokers, user and password as they are and a removal
can write its files; the entry that is used is the stored one. -/
def Unedited : MonitorEvent → Prop
  | .upsert req _ =>
    m.external.lookup req.entry.trimmed.name = none ∨
      (∃ old, m.store.get req.entry.trimmed.name = some old ∧ isKafka old = isKafka req.entry.trimmed ∧
        old.brokers = req.entry.trimmed.brokers ∧ old.saslUser = req.entry.trimmed.saslUser) ∧
      ∀ password, req.supply.sasl = some password → password = m.store.saslPassword req.entry.trimmed.name
  | .remove name wroteTokens wroteEntries =>
    m.external.lookup name = none ∨ m.store.persistent = false ∨
      (m.store.hasBox = true ∨ m.store.tokens.entries = []) ∧ wroteTokens = true ∧ wroteEntries = true
  | .use e => m.store.get e.name = some e
  | _ => True

end Monitor

namespace ClusterStore

variable {s : ClusterStore} {e : ClusterEntry} {name : Bytes}

theorem get_replaceEntry (entries : List ClusterEntry) (name : Bytes) :
    (replaceEntry e entries).find? (fun x => decide (x.name = name)) =
      if name = e.name then some e else entries.find? fun x => decide (x.name = name) := by
  induction entries with
  | nil =>
    rw [replaceEntry, List.find?_singleton]
    by_cases same : name = e.name
    · rw [if_pos same, if_pos (decide_eq_true same.symm)]
    · rw [if_neg same, if_neg (by simpa using Ne.symm same)]
      rfl
  | cons head rest ih =>
    rw [replaceEntry]
    by_cases own : head.name = e.name
    · rw [if_pos own]
      by_cases same : name = e.name
      · rw [if_pos same, List.find?_cons_of_pos (by simpa using same.symm)]
      · rw [if_neg same, List.find?_cons_of_neg (by simpa using Ne.symm same),
          List.find?_cons_of_neg (by simpa [own] using Ne.symm same)]
    · rw [if_neg own]
      by_cases same : head.name = name
      · have other : name ≠ e.name := same ▸ own
        rw [if_neg other, List.find?_cons_of_pos (by simpa using same), List.find?_cons_of_pos (by simpa using same)]
      · rw [List.find?_cons_of_neg (by simpa using same), List.find?_cons_of_neg (by simpa using same), ih]

theorem mem_of_mem_replaceEntry {entries : List ClusterEntry} {x : ClusterEntry} (member : x ∈ replaceEntry e entries) :
    x = e ∨ x ∈ entries := by
  induction entries with
  | nil => exact Or.inl (List.mem_singleton.mp member)
  | cons head rest ih =>
    rw [replaceEntry] at member
    split at member
    · rcases List.mem_cons.mp member with same | inside
      · exact Or.inl same
      · exact Or.inr (List.mem_cons_of_mem _ inside)
    · rcases List.mem_cons.mp member with same | inside
      · exact Or.inr (same ▸ List.mem_cons_self)
      · exact (ih inside).imp_right (List.mem_cons_of_mem _)

theorem setSecrets_saslPassword (own : 58 ∉ e.name) {changes : List (SecretKind × Option Bytes × Bool)}
    (again : ∀ change ∈ changes, change.1 = .sasl → ∀ password, change.2.1 = some password →
      password = s.saslPassword e.name) :
    (setSecrets e s changes).1.saslPassword e.name = s.saslPassword e.name := by
  induction changes generalizing s with
  | nil => rfl
  | cons change rest ih =>
    obtain ⟨kind, value, wrote⟩ := change
    have later : ∀ change ∈ rest, change.1 = .sasl → ∀ password, change.2.1 = some password →
      password = s.saslPassword e.name :=
      fun change member => again change (List.mem_cons_of_mem _ member)
    cases value with
    | none => exact ih later
    | some value =>
      have kept : (s.setSecret e kind value).saslPassword e.name = s.saslPassword e.name := by
        by_cases sasl : kind = .sasl
        · subst sasl
          rw [← again _ List.mem_cons_self rfl value rfl, saslPassword, secret_setSecret_self]
          split
          · rename_i blank
            rw [blank]
            rfl
          · rfl
        · rw [saslPassword, secret_setSecret_ne value fun same => sasl (SecretKind.key_inj own own same).1.symm,
            saslPassword]
      rw [setSecrets]
      split
      · exact kept
      · rw [ih (by rw [kept]; exact later), kept]

theorem handleUpsertCluster_cases (lib : NetLibrary) (s : ClusterStore) (req : UpsertRequest) (wrote : Writes) :
    (handleUpsertCluster lib s req wrote).1 = s ∨ 58 ∉ req.entry.trimmed.name ∧
      (handleUpsertCluster lib s req wrote).1 = (setSecrets req.entry.trimmed
        { s with entries := replaceEntry req.entry.trimmed s.entries } (req.supply.changes wrote)).1 := by
  rw [handleUpsertCluster]
  split
  · exact Or.inl rfl
  · exact upsert_cases lib s req.entry req.supply wrote

theorem get_remove {wroteTokens wroteEntries : Bool} (other : Bytes) :
    (s.remove name wroteTokens wroteEntries).1.get other = if other = name then none else s.get other := by
  have filtered : (s.entries.filter fun e => decide (e.name ≠ name)).find? (fun e => decide (e.name = other)) =
      if other = name then none else s.get other := by
    rw [List.find?_filter]
    split
    · rename_i same
      rw [List.find?_eq_none]
      intro e _
      simp [same]
    · rename_i differs
      rw [get]
      congr 1
      funext e
      by_cases same : e.name = other
      · simp [same, differs]
      · simp [same]
  rw [remove]
  split
  · rename_i missing
    split
    · rename_i same
      rw [same, missing]
    · rfl
  · dsimp only
    split
    · exact filtered
    · exact filtered

theorem saslPassword_remove {wroteTokens wroteEntries : Bool} {other : Bytes} (plain : ∀ e ∈ s.entries, 58 ∉ e.name)
    (own : 58 ∉ other)
    (differs : other ≠ name) : (s.remove name wroteTokens wroteEntries).1.saslPassword other = s.saslPassword other := by
  rw [remove]
  split
  · rfl
  rename_i known
  obtain ⟨e, found⟩ := Option.ne_none_iff_exists'.mp known
  obtain ⟨member, named⟩ := get_some found
  have away : ∀ kind : SecretKind, SecretKind.sasl.key other ≠ kind.key name :=
    fun kind same => differs (SecretKind.key_inj own (named ▸ plain e member) same).2
  have kept : (((s.tokens.erase (SecretKind.token.key name)).erase (SecretKind.sasl.key name)).erase
    (SecretKind.dashboard.key name)).lookup
      (SecretKind.sasl.key other) = s.tokens.lookup (SecretKind.sasl.key other) := by
    rw [AList.lookup_erase_ne (away .dashboard), AList.lookup_erase_ne (away .sasl), AList.lookup_erase_ne (away .token)]
  dsimp only
  split
  · rw [saslPassword, secret, kept]
    rfl
  · rw [saslPassword, secret, kept]
    rfl

theorem remove_written {wroteTokens wroteEntries : Bool} (known : s.get name ≠ none)
    (writes : s.persistent = false ∨ (s.hasBox = true ∨ s.tokens.entries = []) ∧ wroteTokens = true ∧ wroteEntries = true) :
    (s.remove name wroteTokens wroteEntries).2 = none := by
  have gone : ∀ (tokens : AList fun _ : Bytes => Secret) (key : Bytes), tokens.entries = [] →
    (tokens.erase key).entries = [] := by
    intro tokens key blank
    rw [AList.erase]
    dsimp only
    rw [blank]
    rfl
  rw [remove, if_neg known]
  dsimp only
  rcases writes with memory | ⟨box | blank, rfl, rfl⟩
  · simp [persistTokens, persistEntries, memory]
  · simp [persistTokens, persistEntries, box]
  · simp [persistTokens, persistEntries, gone _ _ (gone _ _ (gone _ _ blank))]

end ClusterStore

namespace Monitor

open ClusterStore

variable {lib : NetLibrary} {m m' : Monitor}

structure Aligned (m : Monitor) : Prop where
  plain : ∀ e ∈ m.store.entries, 58 ∉ e.name
  cached : ∀ name i, m.external.lookup name = some i → ∃ ec, m.clients[i]? = some ec ∧ ec.name = name ∧ 58 ∉ name ∧
    (m.OfStored ec ∨ m.store.get name = none ∧ name ∈ m.dropping)
  running : ∀ i ec, m.clients[i]? = some ec → ec.stopped = false → m.external.lookup ec.name = some i
  looked : ∀ e ∈ m.looked, isKafka e = true

theorem OfStored.congr {ec : ExternalCluster} (h : m.OfStored ec) (get : m'.store.get ec.name = m.store.get ec.name)
    (password : m'.store.saslPassword ec.name = m.store.saslPassword ec.name) : m'.OfStored ec := by
  obtain ⟨e, found, kafka, seeds, user, own⟩ := h
  refine ⟨e, get.trans found, kafka, seeds, user, ?_⟩
  rw [(get_some found).2] at own ⊢
  rw [own, password]

namespace Aligned

theorem initial {store : ClusterStore} (valid : ∀ e ∈ store.entries, validateEntry lib e = .ok ()) :
    (Monitor.initial store).Aligned :=
  ⟨fun e member => validateEntry_plain (valid e member), nofun, nofun, nofun⟩

theorem current (h : m.Aligned) : m.Current := by
  intro name e found
  obtain ⟨_, rfl⟩ := get_some found
  cases place : m.external.lookup e.name with
  | some i =>
    rw [externalFor, place]
    obtain ⟨ec, there, named, _, state⟩ := h.cached e.name i place
    refine ⟨ec, there, ?_⟩
    rcases state with ⟨stored, again, _, fits⟩ | ⟨missing, _⟩
    · rw [named, found] at again
      cases again
      exact fits
    · cases found.symm.trans missing
  | none =>
    rw [externalFor, place]
    exact ⟨_, List.getElem?_concat_length, rfl, rfl, rfl⟩

theorem sampled (h : m.Aligned) : m.Sampled := by
  intro ec member going
  obtain ⟨i, there⟩ := List.mem_iff_getElem?.mp member
  obtain ⟨ec', again, _, _, state⟩ := h.cached ec.name i (h.running i ec there going)
  cases there.symm.trans again
  exact state

theorem restore (h : m.Aligned) {store : ClusterStore} {dropping : List Bytes} (plain : ∀ e ∈ store.entries, 58 ∉ e.name)
    (clients : ∀ ec i, m.external.lookup ec.name = some i → 58 ∉ ec.name →
      m.OfStored ec ∨ m.store.get ec.name = none ∧ ec.name ∈ m.dropping →
      ({ m with store := store, dropping := dropping } : Monitor).OfStored ec ∨ store.get ec.name = none ∧
        ec.name ∈ dropping) :
    ({ m with store := store, dropping := dropping } : Monitor).Aligned := by
  refine ⟨plain, ?_, h.running, h.looked⟩
  intro name i place
  obtain ⟨ec, there, rfl, own, state⟩ := h.cached name i place
  exact ⟨ec, there, rfl, own, clients ec i place own state⟩

theorem upsert (h : m.Aligned) {req : UpsertRequest} {wrote : Writes} (unedited : m.Unedited (.upsert req wrote)) :
    ({ m with store := (handleUpsertCluster lib m.store req wrote).1 } : Monitor).Aligned := by
  rcases handleUpsertCluster_cases lib m.store req wrote with same | ⟨own, changed⟩
  · rw [same]
    exact h
  rw [changed]
  have entries : ∀ changes,
      (setSecrets req.entry.trimmed { m.store with entries := replaceEntry req.entry.trimmed m.store.entries }
        changes).1.entries = replaceEntry req.entry.trimmed m.store.entries := fun changes => setSecrets_entries changes
  have lookups : ∀ changes name,
      (setSecrets req.entry.trimmed { m.store with entries := replaceEntry req.entry.trimmed m.store.entries }
        changes).1.get name = if name = req.entry.trimmed.name then some req.entry.trimmed else m.store.get name := by
    intro changes name
    rw [ClusterStore.get, entries, get_replaceEntry]
    rfl
  apply h.restore
  · intro e member
    rw [entries] at member
    rcases mem_of_mem_replaceEntry member with rfl | before
    · exact own
    · exact h.plain e before
  intro ec i place plain state
  rw [lookups]
  by_cases edited : ec.name = req.entry.trimmed.name
  · -- the client of the edited cluster: what it was made from is given again
    rcases unedited with missing | ⟨⟨old, found, kind, brokers, user⟩, again⟩
    · rw [← edited, place] at missing
      cases missing
    · rcases state with ⟨e, stored, kafka, seeds, login, secret⟩ | ⟨missing, _⟩
      · rw [edited, found] at stored
        cases stored
        refine Or.inl ⟨req.entry.trimmed, ?_, kind ▸ kafka, seeds.trans brokers, login.trans user, ?_⟩
        · rw [lookups, if_pos edited]
        · rw [secret, (get_some found).2]
          refine (setSecrets_saslPassword (s :=
            { m.store with entries := replaceEntry req.entry.trimmed m.store.entries }) own ?_).symm
          intro change member sasl password given
          simp only [Supply.changes, List.mem_cons, List.not_mem_nil, or_false] at member
          rcases member with rfl | rfl | rfl
          · cases sasl
          · exact again password given
          · cases sasl
      · rw [edited, found] at missing
        cases missing
  · rw [if_neg edited]
    refine state.imp_left fun stored => stored.congr ?_ ?_
    · rw [lookups, if_neg edited]
    · rw [saslPassword, setSecrets_other own plain edited]
      rfl

theorem remove (h : m.Aligned) {name : Bytes} {wroteTokens wroteEntries : Bool}
    (unedited : m.Unedited (.remove name wroteTokens wroteEntries)) :
    ({ m with
      store := (m.store.remove name wroteTokens wroteEntries).1
      dropping := (if (m.store.remove name wroteTokens wroteEntries).2 = none then [name] else []) ++ m.dropping } :
        Monitor).Aligned := by
  apply h.restore
  · exact fun e member => h.plain e (remove_entries.subset member)
  intro ec i place plain state
  rw [get_remove]
  by_cases same : ec.name = name
  · refine Or.inr ⟨if_pos same, ?_⟩
    rcases state with ⟨e, stored, _⟩ | ⟨_, dropping⟩
    · have known : m.store.get name ≠ none := by
        rw [← same, stored]
        nofun
      rw [remove_written known (unedited.resolve_left (by rw [← same, place]; nofun)), same]
      exact List.mem_append_left _ (List.mem_singleton.mpr rfl)
    · exact List.mem_append_right _ dropping
  · rw [if_neg same]
    rcases state with stored | ⟨missing, dropping⟩
    · refine Or.inl (stored.congr ?_ (saslPassword_remove h.plain plain same))
      rw [get_remove, if_neg same]
    · exact Or.inr ⟨missing, List.mem_append_right _ dropping⟩

theorem drop (h : m.Aligned) (name : Bytes) :
    ({ m.dropExternal name with dropping := m.dropping.erase name } : Monitor).Aligned := by
  rw [dropExternal]
  cases place : m.external.lookup name with
  | none =>
    apply h.restore h.plain
    intro ec i found _ state
    have other : ec.name ≠ name := by
      intro same
      rw [same, place] at found
      cases found
    exact state.imp_right fun dropped => ⟨dropped.1, (List.mem_erase_of_ne other).mpr dropped.2⟩
  | some i =>
    obtain ⟨gone, there, named, _, _⟩ := h.cached name i place
    dsimp only
    have others : ∀ j, j ≠ i → (m.clients.modify i fun ec => { ec with stopped := true })[j]? = m.clients[j]? := by
      intro j differs
      simp [Ne.symm differs]
    refine ⟨h.plain, ?_, ?_, h.looked⟩
    · intro other j found
      have differs : other ≠ name := by
        rintro rfl
        rw [AList.lookup_erase] at found
        cases found
      rw [AList.lookup_erase_ne differs] at found
      obtain ⟨ec, client, rfl, plain, state⟩ := h.cached other j found
      have apart : j ≠ i := by
        rintro rfl
        rw [there] at client
        cases client
        exact differs named
      refine ⟨ec, (others j apart).trans client, rfl, plain, ?_⟩
      exact state.imp_right fun dropped => ⟨dropped.1, (List.mem_erase_of_ne differs).mpr dropped.2⟩
    · intro j ec client going
      by_cases same : j = i
      · subst same
        rw [List.getElem?_modify, there] at client
        cases client
        simp at going
      · rw [others j same] at client
        have found := h.running j ec client going
        have differs : ec.name ≠ name := by
          intro own
          rw [own, place] at found
          exact same (Option.some.inj found).symm
        rw [AList.lookup_erase_ne differs]
        exact found

theorem use (h : m.Aligned) {e : ClusterEntry} (kafka : isKafka e = true) (stored : m.store.get e.name = some e) :
    (m.externalFor e).2.Aligned := by
  rw [externalFor]
  cases place : m.external.lookup e.name with
  | some i => exact h
  | none =>
    dsimp only
    refine ⟨h.plain, ?_, ?_, h.looked⟩
    · intro name i found
      by_cases same : name = e.name
      · subst same
        cases (AList.lookup_insert _).symm.trans found
        refine ⟨_, List.getElem?_concat_length, rfl, h.plain e (get_some stored).1, Or.inl ⟨e, stored, kafka, rfl, rfl, rfl⟩⟩
      · rw [AList.lookup_insert_ne same] at found
        obtain ⟨ec, there, named, plain, state⟩ := h.cached name i found
        exact ⟨ec, (List.getElem?_append_left (List.getElem?_eq_some_iff.mp there).1).trans there, named, plain, state⟩
    · intro i ec client going
      rw [List.getElem?_append] at client
      split at client
      · have found := h.running i ec client going
        have differs : ec.name ≠ e.name := by
          intro own
          rw [own, place] at found
          cases found
        rw [AList.lookup_insert_ne differs]
        exact found
      · rename_i last
        rw [List.getElem?_singleton] at client
        split at client
        · cases client
          have here : i = m.clients.length := by omega
          rw [here]
          exact AList.lookup_insert _
        · cases client

theorem perform (h : m.Aligned) {event : MonitorEvent} (unedited : m.Unedited event) (done : m.Steps lib event m') :
    m'.Aligned := by
  cases event with
  | upsert req wrote =>
    cases done
    exact h.upsert unedited
  | remove name wroteTokens wroteEntries =>
    cases done
    exact h.remove unedited
  | drop name =>
    obtain ⟨_, same⟩ := Option.ite_none_right_eq_some.mp done
    cases same
    exact h.drop name
  | look name =>
    obtain ⟨e, _, found⟩ := Option.bind_eq_some_iff.mp done
    obtain ⟨kafka, same⟩ := Option.ite_none_right_eq_some.mp found
    cases same
    exact ⟨h.plain, h.cached, h.running, List.forall_mem_cons.mpr ⟨kafka, h.looked⟩⟩
  | list =>
    cases done
    refine ⟨h.plain, h.cached, h.running, fun e member => ?_⟩
    rcases List.mem_append.mp member with listed | before
    · exact (List.mem_filter.mp listed).2
    · exact h.looked e before
  | use e =>
    obtain ⟨looked, same⟩ := Option.ite_none_right_eq_some.mp done
    cases same
    exact h.use (h.looked e looked) unedited

end Aligned
end Monitor

open Monitor in
/-- As long as no cluster with a client is edited, clients are of the stored entries. -/
theorem clients_follow_entries {lib : NetLibrary} {store : ClusterStore} {m : Monitor}
    (valid : ∀ e ∈ store.entries, validateEntry lib e = .ok ())
    (run : Reaches Unedited (Steps lib) (initial store) m) : m.Current ∧ m.Sampled := by
  have aligned : m.Aligned := by
    apply run.invariant (Aligned.initial valid)
    intro m event m' h unedited done
    exact h.perform unedited done
  exact ⟨aligned.current, aligned.sampled⟩

def kafkaRequest (broker password : String) : UpsertRequest :=
  ⟨⟨ascii "east", ascii "kafka", [], [ascii broker], ascii "ann", []⟩, ascii password, false, [], false, [], false⟩

def eastEntry (broker : String) : ClusterEntry := (kafkaRequest broker "").entry.trimmed

def emptyStore : ClusterStore := .newClusterStore [] true true none

open Monitor in
theorem clients_follow_entries_east :
    ∃ m, Reaches Unedited (Steps lenientLibrary) (initial emptyStore) m ∧ m.clients.length = 1 ∧ m.Current ∧ m.Sampled := by
  have start : Reaches Unedited (Steps lenientLibrary) (initial emptyStore) (initial emptyStore) := .refl _
  have stored := start.next (.upsert (kafkaRequest "h:1" "p") written) (Or.inl rfl) rfl
  have looked := stored.next (.look (ascii "east")) trivial rfl
  have used := looked.next (.use (eastEntry "h:1")) rfl rfl
  exact ⟨_, used, rfl, clients_follow_entries (fun _ member => absurd member List.not_mem_nil) used⟩

open Monitor in
/-- The brokers of a cluster are edited while its client runs: the next use gets the client of the old brokers. -/
theorem client_of_old_brokers :
    ∃ m, Reaches (fun _ _ => True) (Steps lenientLibrary) (initial emptyStore) m ∧ ¬ m.Current ∧ ¬ m.Sampled := by
  have reached : ∃ m, Reaches (fun _ _ => True) (Steps lenientLibrary) (initial emptyStore) m ∧
      (m.store.get (ascii "east") = some (eastEntry "h:2") ∧
        m.external.lookup (ascii "east") = some 0 ∧ m.dropping = [] ∧
        m.clients = [⟨ascii "east", [ascii "h:1"], ascii "ann", ascii "p", false⟩]) :=
    exists_reaches [.upsert (kafkaRequest "h:1" "p") written, .look (ascii "east"), .use (eastEntry "h:1"),
      .upsert (kafkaRequest "h:2" "") written] (perform_steps lenientLibrary) (by decide +kernel)
  obtain ⟨m, run, stored, place, dropping, clients⟩ := reached
  have stale : ¬ Fits m.store ⟨ascii "east", [ascii "h:1"], ascii "ann", ascii "p", false⟩ (eastEntry "h:2") :=
    fun fits => absurd fits.1 (by decide +kernel)
  refine ⟨m, run, ?_, ?_⟩
  · intro current
    obtain ⟨ec, there, fits⟩ := current _ _ stored
    rw [externalFor, show (eastEntry "h:2").name = ascii "east" by decide +kernel, place] at there
    dsimp only at there
    rw [clients] at there
    cases there
    exact stale fits
  · intro sampled
    rcases sampled _ (clients ▸ List.mem_singleton.mpr rfl) rfl with ⟨e, found, _, fits⟩ | ⟨missing, _⟩
    · cases stored.symm.trans found
      exact stale fits
    · cases stored.symm.trans missing

end PocketKafka.Web
