import PocketKafka.Lib.Hex
import PocketKafka.Lib.Pruning
import PocketKafka.Lib.Runs
import PocketKafka.Lib.Text

namespace PocketKafka.Web

open Bytes Pruning Runs Text

structure DelegatedTokenRecord where
  id : Bytes
  principal : Bytes
  digest : Bytes
  deriving DecidableEq

/-- `sum` is `sha256.Sum256`, and `marshal` and `unmarshal` are those of json. `Data` is what a file contains. -/
structure TokenCodec (Data : Type) where
  sum : Bytes → Bytes
  size : ∀ raw, (sum raw).length = 32
  marshal : List DelegatedTokenRecord → Data
  unmarshal : Data → Except String (List DelegatedTokenRecord)
  undoes : ∀ records, unmarshal (marshal records) = .ok records

structure DelegatedTokenStore where
  path : Bytes
  records : AList fun _ : Bytes => DelegatedTokenRecord
  byDigest : AList fun _ : Bytes => Bytes
  loadErr : Option String

section

variable {Data : Type} (c : TokenCodec Data)

def TokenCodec.digest (raw : Bytes) : Bytes := Hex.encode (c.sum raw)

def DelegatedTokenRecord.invalid (record : DelegatedTokenRecord) : Bool :=
  record.id = [] || record.principal = [] ||
    match Hex.decode record.digest with
    | none => true
    | some decoded => decoded.length ≠ 32

namespace DelegatedTokenStore

def empty (path : Bytes) : DelegatedTokenStore := ⟨path, ∅, ∅, none⟩

def failed (path : Bytes) (err : String) : DelegatedTokenStore := ⟨path, ∅, ∅, some err⟩

def put (s : DelegatedTokenStore) (record : DelegatedTokenRecord) : DelegatedTokenStore :=
  { s with records := s.records.insert record.id record, byDigest := s.byDigest.insert record.digest record.id }

def delete (s : DelegatedTokenStore) (record : DelegatedTokenRecord) : DelegatedTokenStore :=
  { s with records := s.records.erase record.id, byDigest := s.byDigest.erase record.digest }

def load (s : DelegatedTokenStore) : List DelegatedTokenRecord → DelegatedTokenStore
  | [] => s
  | record :: rest =>
    if record.invalid then failed s.path "invalid delegated token record"
    else if (s.records.lookup record.id).isSome then failed s.path "duplicate delegated token ID"
    else if (s.byDigest.lookup record.digest).isSome then failed s.path "duplicate delegated token digest"
    else load (s.put record) rest

/-- `data` is what is read from the file; there is nothing if there is no file. -/
def newDelegatedTokenStore (path : Bytes) (data : Except String (Option Data)) : DelegatedTokenStore :=
  if path = [] then empty path
  else
    match data with
    | .ok none => empty path
    | .error err => failed path ("read delegated tokens: " ++ err)
    | .ok (some data) =>
      match c.unmarshal data with
      | .error err => failed path ("decode delegated tokens: " ++ err)
      | .ok records => (empty path).load records

def persistLocked (s : DelegatedTokenStore) (file : Option Data) (writes : Bool) : Option (Option Data) :=
  if s.path = [] then some file
  else if writes then
    some (some (c.marshal ((s.records.entries.map Sigma.snd).mergeSort fun a b => !decide (b.id < a.id))))
  else none

def errPersist : String := "persist delegated tokens"

/-- `drawn` are the texts of the id and of the token, of which there are none if `rand.Read` fails. -/
def issue (s : DelegatedTokenStore) (file : Option Data) (principal : Bytes) (drawn : Option (Bytes × Bytes))
    (writes : Bool) :
    Except String (Bytes × Bytes) × DelegatedTokenStore × Option Data :=
  let principal := trimSpace principal
  if principal = [] then (.error "principal is required", s, file)
  else
    match drawn with
    | none => (.error "generate delegated token", s, file)
    | some (idText, rawText) =>
      let id := ascii "dt_" ++ idText
      let raw := ascii "pka_" ++ rawText
      let record : DelegatedTokenRecord := ⟨id, principal, c.digest raw⟩
      match s.loadErr with
      | some err => (.error err, s, file)
      | none =>
        if (s.records.lookup id).isSome then (.error "delegated token ID collision", s, file)
        else
          match (s.put record).persistLocked c file writes with
          | none => (.error errPersist, (s.put record).delete record, file)
          | some file => (.ok (id, raw), s.put record, file)

def principal (s : DelegatedTokenStore) (raw : Bytes) : Option Bytes :=
  if s.loadErr.isSome then none
  else
    match s.byDigest.lookup (c.digest raw) with
    | none => none
    | some id => (s.records.lookup id).map DelegatedTokenRecord.principal

def revoke (s : DelegatedTokenStore) (file : Option Data) (id : Bytes) (writes : Bool) :
    Except String Unit × DelegatedTokenStore × Option Data :=
  match s.loadErr with
  | some err => (.error err, s, file)
  | none =>
    match s.records.lookup id with
    | none => (.error "unknown delegated token", s, file)
    | some record =>
      let deleted := { s with records := s.records.erase id, byDigest := s.byDigest.erase record.digest }
      match deleted.persistLocked c file writes with
      | none =>
        (.error errPersist,
          { deleted with
            records := deleted.records.insert id record
            byDigest := deleted.byDigest.insert record.digest id }, file)
      | some file => (.ok (), deleted, file)

end DelegatedTokenStore

inductive TokenCall where
  | issue (principal : Bytes) (drawn : Option (Bytes × Bytes)) (writes : Bool)
  | revoke (id : Bytes) (writes : Bool)
  | reload

inductive TokenEvent where
  | issued (id raw principal : Bytes)
  | revoked (id : Bytes)
  deriving DecidableEq

structure TokenRun (Data : Type) where
  store : DelegatedTokenStore
  file : Option Data
  history : List TokenEvent

namespace TokenRun

def start (path : Bytes) : TokenRun Data := ⟨.newDelegatedTokenStore c path (.ok none), none, []⟩

/-- The state after the call, and whether the call has returned no error. -/
def perform (s : TokenRun Data) : TokenCall → TokenRun Data × Bool
  | .issue principal drawn writes =>
    match s.store.issue c s.file principal drawn writes with
    | (.ok (id, raw), store, file) => (⟨store, file, .issued id raw principal :: s.history⟩, true)
    | (.error _, store, file) => (⟨store, file, s.history⟩, false)
  | .revoke id writes =>
    match s.store.revoke c s.file id writes with
    | (.ok (), store, file) => (⟨store, file, .revoked id :: s.history⟩, true)
    | (.error _, store, file) => (⟨store, file, s.history⟩, false)
  | .reload => (⟨.newDelegatedTokenStore c s.store.path (.ok s.file), s.file, s.history⟩, true)

def Steps (s : TokenRun Data) (call : TokenCall) (t : TokenRun Data) : Prop := (s.perform c call).1 = t

/-- What is drawn has neither the id nor the digest of a token that was issued. -/
def Distinct (s : TokenRun Data) : TokenCall → Prop
  | .issue _ (some (idText, rawText)) _ => ∀ id raw principal, .issued id raw principal ∈ s.history →
    id ≠ ascii "dt_" ++ idText ∧ c.digest raw ≠ c.digest (ascii "pka_" ++ rawText)
  | _ => True

def inFile (file : Option Data) : Except String (List DelegatedTokenRecord) :=
  match file with
  | none => .ok []
  | some data => c.unmarshal data

/-- The file has each record that is in memory once, and no other. -/
def FileHolds (file : Option Data) (records : AList fun _ : Bytes => DelegatedTokenRecord) : Prop :=
  ∃ stored, inFile c file = .ok stored ∧ (stored.map DelegatedTokenRecord.id).Nodup ∧
    ∀ id r, records.lookup id = some r ↔ r ∈ stored ∧ r.id = id

end TokenRun

def IssuedToken (history : List TokenEvent) (id raw principal : Bytes) : Prop :=
  ∃ since before, history = since ++ .issued id raw principal :: before ∧ .revoked id ∉ since

/-- One map is the inverse of the digests in the other. -/
def DelegatedTokenStore.Inverse (s : DelegatedTokenStore) : Prop :=
  ∀ d id, s.byDigest.lookup d = some id ↔ ∃ r, s.records.lookup id = some r ∧ r.digest = d

end

section

variable {history : List TokenEvent} {id raw principal : Bytes}

theorem issuedToken_cons (e : TokenEvent) :
    IssuedToken (e :: history) id raw principal ↔
      e = .issued id raw principal ∨ e ≠ .revoked id ∧ IssuedToken history id raw principal := by
  constructor
  · rintro ⟨since, before, whole, kept⟩
    cases since with
    | nil =>
      cases whole
      exact Or.inl rfl
    | cons first since =>
      obtain ⟨rfl, rfl⟩ := List.cons.inj whole
      rw [List.mem_cons, not_or] at kept
      exact Or.inr ⟨Ne.symm kept.1, since, before, rfl, kept.2⟩
  · rintro (rfl | ⟨other, since, before, rfl, kept⟩)
    · exact ⟨[], history, rfl, List.not_mem_nil⟩
    · exact ⟨e :: since, before, rfl, List.not_mem_cons_of_ne_of_not_mem (Ne.symm other) kept⟩

theorem IssuedToken.issued (h : IssuedToken history id raw principal) : .issued id raw principal ∈ history := by
  obtain ⟨since, before, rfl, _⟩ := h
  simp

theorem not_issuedToken_nil : ¬ IssuedToken [] id raw principal := fun h => List.not_mem_nil h.issued

end

namespace DelegatedTokenStore

variable {s : DelegatedTokenStore} {stored : List DelegatedTokenRecord}

theorem load_of_distinct (opened : s.loadErr = none) (valid : ∀ r ∈ stored, r.invalid = false)
    (ids : (stored.map DelegatedTokenRecord.id).Nodup) (digests : (stored.map DelegatedTokenRecord.digest).Nodup)
    (new : ∀ r ∈ stored, s.records.lookup r.id = none ∧ s.byDigest.lookup r.digest = none) :
    (s.load stored).loadErr = none ∧ (s.load stored).path = s.path ∧
      (∀ id r, (s.load stored).records.lookup id = some r ↔ s.records.lookup id = some r ∨ r ∈ stored ∧ r.id = id) ∧
      ∀ d id, (s.load stored).byDigest.lookup d = some id ↔ s.byDigest.lookup d = some id ∨
        ∃ r ∈ stored, r.digest = d ∧ r.id = id := by
  induction stored generalizing s with
  | nil => simp [load, opened]
  | cons r rest ih =>
    rw [List.map_cons, List.nodup_cons] at ids digests
    obtain ⟨noID, noDigest⟩ := new r List.mem_cons_self
    have step : s.load (r :: rest) = (s.put r).load rest := by
      rw [load, valid r List.mem_cons_self, noID, noDigest]
      rfl
    have later : ∀ x ∈ rest, (s.put r).records.lookup x.id = none ∧ (s.put r).byDigest.lookup x.digest = none := by
      intro x member
      have otherID : x.id ≠ r.id := fun same => ids.1 (same ▸ List.mem_map_of_mem member)
      have otherDigest : x.digest ≠ r.digest := fun same => digests.1 (same ▸ List.mem_map_of_mem member)
      have := new x (List.mem_cons_of_mem r member)
      exact ⟨(AList.lookup_insert_ne otherID).trans this.1, (AList.lookup_insert_ne otherDigest).trans this.2⟩
    obtain ⟨noErr, samePath, records, byDigest⟩ :=
      ih (s := s.put r) opened (fun x member => valid x (List.mem_cons_of_mem r member)) ids.2 digests.2 later
    rw [step]
    refine ⟨noErr, samePath, ?_, ?_⟩
    · intro id x
      rw [records, List.mem_cons]
      by_cases same : id = r.id
      · subst same
        rw [show (s.put r).records.lookup r.id = some r from AList.lookup_insert _, noID]
        constructor
        · rintro (found | ⟨member, own⟩)
          · cases found
            exact Or.inr ⟨Or.inl rfl, rfl⟩
          · exact Or.inr ⟨Or.inr member, own⟩
        · rintro (found | ⟨rfl | member, own⟩)
          · cases found
          · exact Or.inl rfl
          · exact Or.inr ⟨member, own⟩
      · rw [show (s.put r).records.lookup id = s.records.lookup id from AList.lookup_insert_ne same]
        constructor
        · rintro (found | ⟨member, own⟩)
          · exact Or.inl found
          · exact Or.inr ⟨Or.inr member, own⟩
        · rintro (found | ⟨rfl | member, own⟩)
          · exact Or.inl found
          · exact absurd own.symm same
          · exact Or.inr ⟨member, own⟩
    · intro d id
      rw [byDigest, List.exists_mem_cons_iff]
      by_cases same : d = r.digest
      · subst same
        rw [show (s.put r).byDigest.lookup r.digest = some r.id from AList.lookup_insert _, noDigest]
        simp
      · rw [show (s.put r).byDigest.lookup d = s.byDigest.lookup d from AList.lookup_insert_ne same]
        have other : ¬ (r.digest = d ∧ r.id = id) := fun h => same h.1.symm
        simp only [other, false_or]

structure Alike (s t : DelegatedTokenStore) : Prop where
  path : t.path = s.path
  loadErr : t.loadErr = s.loadErr
  records : ∀ id, t.records.lookup id = s.records.lookup id
  byDigest : ∀ d, t.byDigest.lookup d = s.byDigest.lookup d

theorem Alike.principal {Data : Type} {t : DelegatedTokenStore} (alike : s.Alike t) (c : TokenCodec Data) (raw : Bytes) :
    t.principal c raw = s.principal c raw := by
  simp only [DelegatedTokenStore.principal, alike.loadErr, alike.byDigest, alike.records]

theorem delete_put {r : DelegatedTokenRecord} (noID : s.records.lookup r.id = none)
    (noDigest : s.byDigest.lookup r.digest = none) :
    s.Alike ((s.put r).delete r) :=
  ⟨rfl, rfl, lookup_erase_insert noID r, lookup_erase_insert noDigest r.id⟩

end DelegatedTokenStore

namespace TokenRun

open DelegatedTokenStore

variable {Data : Type} {c : TokenCodec Data} {s : TokenRun Data}

def recordOf (c : TokenCodec Data) (id raw principal : Bytes) : DelegatedTokenRecord :=
  ⟨id, trimSpace principal, c.digest raw⟩

structure Sound (c : TokenCodec Data) (s : TokenRun Data) : Prop where
  path : s.store.path ≠ []
  opened : s.store.loadErr = none
  inverse : s.store.Inverse
  known : ∀ id r, s.store.records.lookup id = some r ↔
    ∃ raw principal, IssuedToken s.history id raw principal ∧ r = recordOf c id raw principal
  named : ∀ id raw principal, .issued id raw principal ∈ s.history → id ≠ [] ∧ trimSpace principal ≠ []
  held : FileHolds c s.file s.store.records

theorem recordOf_valid {id raw principal : Bytes} (filled : id ≠ []) (someone : trimSpace principal ≠ []) :
    (recordOf c id raw principal).invalid = false := by
  simp [DelegatedTokenRecord.invalid, recordOf, filled, someone, TokenCodec.digest, c.size]

namespace Sound

theorem valid (h : s.Sound c) {id : Bytes} {r : DelegatedTokenRecord} (found : s.store.records.lookup id = some r) :
    r.invalid = false := by
  obtain ⟨raw, principal, issued, rfl⟩ := (h.known id r).mp found
  obtain ⟨filled, someone⟩ := h.named id raw principal issued.issued
  exact recordOf_valid filled someone

theorem digest_unique (h : s.Sound c) {id other : Bytes} {r x : DelegatedTokenRecord}
    (found : s.store.records.lookup id = some r)
    (again : s.store.records.lookup other = some x) (same : r.digest = x.digest) : other = id := by
  have here := (h.inverse r.digest id).mpr ⟨r, found, rfl⟩
  have there := (h.inverse r.digest other).mpr ⟨x, again, same.symm⟩
  exact Option.some.inj (there.symm.trans here)

theorem alike (h : s.Sound c) {store : DelegatedTokenStore} (same : s.store.Alike store) :
    Sound c ⟨store, s.file, s.history⟩ := by
  refine ⟨same.path ▸ h.path, same.loadErr.trans h.opened, ?_, ?_, h.named, ?_⟩
  · intro d id
    rw [same.byDigest, same.records]
    exact h.inverse d id
  · intro id r
    rw [same.records]
    exact h.known id r
  · obtain ⟨stored, read, ids, all⟩ := h.held
    refine ⟨stored, read, ids, fun id r => ?_⟩
    rw [same.records]
    exact all id r

end Sound

theorem fileHolds_persist {store : DelegatedTokenStore} {file written : Option Data} {writes : Bool}
    (done : store.persistLocked c file writes = some written) (path : store.path ≠ [])
    (keyed : ∀ id r, store.records.lookup id = some r → r.id = id) : FileHolds c written store.records := by
  rw [persistLocked, if_neg path] at done
  split at done
  · cases done
    refine ⟨_, c.undoes _, ?_, ?_⟩
    · have keys : (store.records.entries.map Sigma.snd).map DelegatedTokenRecord.id = store.records.keys := by
        rw [List.map_map]
        apply List.map_congr_left
        intro e member
        exact keyed e.1 e.2 (AList.mem_lookup_iff.mpr member)
      apply ((List.mergeSort_perm _ _).map _).nodup_iff.mpr
      rw [keys]
      exact store.records.keys_nodup
    · intro id r
      rw [(List.mergeSort_perm _ _).mem_iff, List.mem_map]
      constructor
      · intro found
        exact ⟨⟨⟨id, r⟩, AList.mem_lookup_iff.mp found, rfl⟩, keyed id r found⟩
      · rintro ⟨⟨⟨key, r⟩, member, rfl⟩, rfl⟩
        have found := AList.mem_lookup_iff.mpr member
        rwa [keyed key r found]
  · cases done

theorem sound_start {path : Bytes} (filled : path ≠ []) : Sound c (start c path) := by
  have store : (start c path).store = empty path := by
    rw [start, newDelegatedTokenStore, if_neg filled]
  refine ⟨?_, ?_, ?_, ?_, ?_, ?_⟩
  · rwa [store]
  · rw [store]
    rfl
  · intro d id
    rw [store]
    simp [empty]
  · intro id r
    rw [store]
    constructor
    · intro found
      cases found
    · rintro ⟨raw, principal, issued, _⟩
      exact absurd issued not_issuedToken_nil
  · intro id raw principal member
    cases member
  · rw [store]
    refine ⟨[], rfl, List.nodup_nil, fun id r => ?_⟩
    simp [empty]

namespace Sound

theorem reload (h : s.Sound c) : s.store.Alike (newDelegatedTokenStore c s.store.path (.ok s.file)) := by
  obtain ⟨stored, read, ids, all⟩ := h.held
  have loaded : newDelegatedTokenStore c s.store.path (.ok s.file) = (empty s.store.path).load stored := by
    rw [newDelegatedTokenStore.eq_def, if_neg h.path]
    cases file : s.file with
    | none =>
      rw [file] at read
      cases read
      rfl
    | some data =>
      rw [file] at read
      dsimp only
      rw [show c.unmarshal data = .ok stored from read]
  have inside : ∀ r ∈ stored, s.store.records.lookup r.id = some r := fun r member => (all r.id r).mpr ⟨member, rfl⟩
  have digests : (stored.map DelegatedTokenRecord.digest).Nodup := by
    apply List.Nodup.map_on _ ids.of_map
    intro x first y second same
    have ids := h.digest_unique (inside x first) (inside y second) same
    have found := inside y second
    rw [ids, inside x first] at found
    exact Option.some.inj found
  obtain ⟨noErr, path, records, byDigest⟩ :=
    load_of_distinct (s := empty s.store.path) rfl (fun r member => h.valid (inside r member)) ids
    digests (fun r _ => ⟨rfl, rfl⟩)
  rw [loaded]
  refine ⟨path, noErr.trans h.opened.symm, ?_, ?_⟩
  · intro id
    apply Option.ext
    intro r
    rw [records, all]
    simp [empty]
  · intro d
    apply Option.ext
    intro id
    rw [byDigest, h.inverse]
    simp only [empty, AList.lookup_empty, reduceCtorEq, false_or, all]
    constructor
    · rintro ⟨r, member, own, named⟩
      exact ⟨r, ⟨member, named⟩, own⟩
    · rintro ⟨r, ⟨member, named⟩, own⟩
      exact ⟨r, member, own, named⟩

theorem put (h : s.Sound c) {id raw principal : Bytes} {file : Option Data} {writes : Bool} (filled : id ≠ [])
    (someone : trimSpace principal ≠ [])
    (new : ∀ other given owner, .issued other given owner ∈ s.history → other ≠ id ∧ c.digest given ≠ c.digest raw)
    (done : (s.store.put (recordOf c id raw principal)).persistLocked c s.file writes = some file) :
    Sound c ⟨s.store.put (recordOf c id raw principal), file, .issued id raw principal :: s.history⟩ := by
  have here : (s.store.put (recordOf c id raw principal)).records.lookup id = some (recordOf c id raw principal) :=
    AList.lookup_insert _
  have others : ∀ {other}, other ≠ id → (s.store.put (recordOf c id raw principal)).records.lookup other =
    s.store.records.lookup other :=
    fun differs => AList.lookup_insert_ne differs
  have known : ∀ other r, (s.store.put (recordOf c id raw principal)).records.lookup other = some r ↔
      ∃ given owner, IssuedToken (.issued id raw principal :: s.history) other given owner ∧
        r = recordOf c other given owner := by
    intro other r
    simp only [issuedToken_cons]
    by_cases same : other = id
    · subst same
      rw [here]
      constructor
      · intro found
        cases found
        exact ⟨raw, principal, Or.inl rfl, rfl⟩
      · rintro ⟨given, owner, issued | ⟨_, issued⟩, rfl⟩
        · cases issued
          rfl
        · exact absurd rfl (new _ _ _ issued.issued).1
    · rw [others same, h.known]
      constructor
      · rintro ⟨given, owner, issued, rfl⟩
        exact ⟨given, owner, Or.inr ⟨nofun, issued⟩, rfl⟩
      · rintro ⟨given, owner, issued | ⟨_, issued⟩, rfl⟩
        · cases issued
          exact absurd rfl same
        · exact ⟨given, owner, issued, rfl⟩
  refine ⟨h.path, h.opened, ?_, known, ?_, ?_⟩
  · intro d other
    by_cases own : d = c.digest raw
    · subst own
      rw [show (s.store.put (recordOf c id raw principal)).byDigest.lookup (c.digest raw) =
        some id from AList.lookup_insert _]
      constructor
      · intro found
        cases found
        exact ⟨_, here, rfl⟩
      · rintro ⟨r, found, digest⟩
        by_cases same : other = id
        · rw [same]
        · rw [others same] at found
          obtain ⟨given, owner, issued, rfl⟩ := (h.known other r).mp found
          exact absurd digest (new _ _ _ issued.issued).2
    · rw [show (s.store.put (recordOf c id raw principal)).byDigest.lookup d = s.store.byDigest.lookup d
        from AList.lookup_insert_ne own,
        h.inverse]
      apply exists_congr
      intro r
      by_cases same : other = id
      · subst same
        rw [here]
        constructor
        · rintro ⟨found, digest⟩
          obtain ⟨given, owner, issued, _⟩ := (h.known _ r).mp found
          exact absurd rfl (new _ _ _ issued.issued).1
        · rintro ⟨found, rfl⟩
          cases found
          exact absurd rfl own
      · rw [others same]
  · intro other given owner member
    rcases List.mem_cons.mp member with same | earlier
    · cases same
      exact ⟨filled, someone⟩
    · exact h.named other given owner earlier
  · apply fileHolds_persist done h.path
    intro other r found
    obtain ⟨given, owner, _, rfl⟩ := (known other r).mp found
    rfl

theorem delete (h : s.Sound c) {r : DelegatedTokenRecord} {id : Bytes} {file : Option Data} {writes : Bool}
    (found : s.store.records.lookup id = some r) {deleted : DelegatedTokenStore}
    (whole : deleted = { s.store with records := s.store.records.erase id, byDigest := s.store.byDigest.erase r.digest })
    (done : deleted.persistLocked c s.file writes = some file) : Sound c ⟨deleted, file, .revoked id :: s.history⟩ := by
  subst whole
  have known : ∀ other x, (s.store.records.erase id).lookup other = some x ↔
      ∃ given owner, IssuedToken (.revoked id :: s.history) other given owner ∧ x = recordOf c other given owner := by
    intro other x
    simp only [issuedToken_cons]
    by_cases same : other = id
    · subst same
      rw [AList.lookup_erase]
      simp
    · rw [AList.lookup_erase_ne same, h.known]
      have differs : TokenEvent.revoked id ≠ .revoked other := fun eq => same (TokenEvent.revoked.inj eq).symm
      simp [differs]
  refine ⟨h.path, h.opened, ?_, known, ?_, ?_⟩
  · intro d other
    dsimp only
    by_cases own : d = r.digest
    · subst own
      rw [AList.lookup_erase]
      constructor
      · nofun
      · rintro ⟨x, again, digest⟩
        by_cases same : other = id
        · subst same
          rw [AList.lookup_erase] at again
          cases again
        · rw [AList.lookup_erase_ne same] at again
          exact absurd (h.digest_unique found again digest.symm) same
    · rw [AList.lookup_erase_ne own, h.inverse]
      by_cases same : other = id
      · subst same
        rw [AList.lookup_erase, found]
        simp [Ne.symm own]
      · rw [AList.lookup_erase_ne same]
  · intro other given owner member
    exact h.named other given owner ((List.mem_cons.mp member).resolve_left nofun)
  · apply fileHolds_persist done h.path
    intro other x again
    obtain ⟨given, owner, _, rfl⟩ := (known other x).mp again
    rfl

theorem issue_cases (h : s.Sound c) (principal : Bytes) (drawn : Option (Bytes × Bytes)) (writes : Bool)
    (new : s.Distinct c (.issue principal drawn writes)) :
    (∃ err store, s.store.issue c s.file principal drawn writes = (.error err, store, s.file) ∧ s.store.Alike store) ∨
      ∃ id raw store file, s.store.issue c s.file principal drawn writes = (.ok (id, raw), store, file) ∧
        Sound c ⟨store, file, .issued id raw principal :: s.history⟩ := by
  have unchanged : s.store.Alike s.store := ⟨rfl, rfl, fun _ => rfl, fun _ => rfl⟩
  rw [issue.eq_def]
  dsimp only
  split
  · exact Or.inl ⟨_, _, rfl, unchanged⟩
  rename_i someone
  split
  · exact Or.inl ⟨_, _, rfl, unchanged⟩
  rename_i idText rawText
  split
  · exact Or.inl ⟨_, _, rfl, unchanged⟩
  split
  · exact Or.inl ⟨_, _, rfl, unchanged⟩
  rename_i unused
  have noID : s.store.records.lookup (ascii "dt_" ++ idText) = none := Option.not_isSome_iff_eq_none.mp unused
  split
  · refine Or.inl ⟨_, _, rfl, delete_put noID ?_⟩
    apply Option.eq_none_iff_forall_ne_some.mpr
    intro id found
    obtain ⟨r, inside, digest⟩ := (h.inverse _ id).mp found
    obtain ⟨raw, owner, issued, rfl⟩ := (h.known id r).mp inside
    exact (new id raw owner issued.issued).2 digest
  · rename_i file done
    exact Or.inr ⟨_, _, _, file, rfl, h.put (by simp [ascii]) someone new done⟩

theorem revoke_cases (h : s.Sound c) (id : Bytes) (writes : Bool) :
    (∃ err store, s.store.revoke c s.file id writes = (.error err, store, s.file) ∧ s.store.Alike store) ∨
      ∃ store file, s.store.revoke c s.file id writes = (.ok (), store, file) ∧
        Sound c ⟨store, file, .revoked id :: s.history⟩ := by
  have unchanged : s.store.Alike s.store := ⟨rfl, rfl, fun _ => rfl, fun _ => rfl⟩
  rw [revoke]
  split
  · exact Or.inl ⟨_, _, rfl, unchanged⟩
  split
  · exact Or.inl ⟨_, _, rfl, unchanged⟩
  rename_i r found
  dsimp only
  split
  · refine Or.inl ⟨_, _, rfl, ⟨rfl, rfl, lookup_insert_erase found, lookup_insert_erase ?_⟩⟩
    exact (h.inverse r.digest id).mpr ⟨r, found, rfl⟩
  · rename_i file done
    exact Or.inr ⟨_, file, rfl, h.delete found rfl done⟩

theorem perform (h : s.Sound c) (call : TokenCall) (new : s.Distinct c call) :
    Sound c (s.perform c call).1 ∧ ((s.perform c call).2 = false → s.store.Alike (s.perform c call).1.store) := by
  cases call with
  | issue principal drawn writes =>
    rw [TokenRun.perform]
    rcases h.issue_cases principal drawn writes new with ⟨err, store, outcome, alike⟩ |
      ⟨id, raw, store, file, outcome, sound⟩
    · rw [outcome]
      exact ⟨h.alike alike, fun _ => alike⟩
    · rw [outcome]
      exact ⟨sound, nofun⟩
  | revoke id writes =>
    rw [TokenRun.perform]
    rcases h.revoke_cases id writes with ⟨err, store, outcome, alike⟩ | ⟨store, file, outcome, sound⟩
    · rw [outcome]
      exact ⟨h.alike alike, fun _ => alike⟩
    · rw [outcome]
      exact ⟨sound, nofun⟩
  | reload => exact ⟨h.alike h.reload, nofun⟩

theorem of_run {path : Bytes} (filled : path ≠ []) (run : Reaches (Distinct c) (Steps c) (start c path) s) : s.Sound c := by
  apply run.invariant (sound_start filled)
  rintro s call t sound new rfl
  exact (sound.perform call new).1

theorem principal_iff (h : s.Sound c) (raw p : Bytes) :
    s.store.principal c raw = some p ↔
      ∃ id given owner, IssuedToken s.history id given owner ∧ c.digest given = c.digest raw ∧ trimSpace owner = p := by
  rw [principal, h.opened]
  dsimp only [Option.isSome_none]
  rw [if_neg Bool.false_ne_true]
  constructor
  · intro answer
    split at answer
    · cases answer
    · rename_i id found
      obtain ⟨r, inside, digest⟩ := (h.inverse _ id).mp found
      obtain ⟨given, owner, issued, rfl⟩ := (h.known id r).mp inside
      rw [inside] at answer
      exact ⟨id, given, owner, issued, digest, Option.some.inj answer⟩
  · rintro ⟨id, given, owner, issued, digest, rfl⟩
    have inside := (h.known id _).mpr ⟨given, owner, issued, rfl⟩
    rw [(h.inverse (c.digest raw) id).mpr ⟨_, inside, digest⟩]
    dsimp only
    rw [inside]
    rfl

end Sound

end TokenRun

open TokenRun in
/-- In every reached state the two maps and the file agree, a failed call changes no answer, and a token with a digest
of its own answers with the principal it was issued to as long as it is not revoked. -/
theorem delegated_tokens_consistent {Data : Type} {c : TokenCodec Data} {path : Bytes} {s : TokenRun Data}
    (filled : path ≠ [])
    (run : Reaches (Distinct c) (Steps c) (start c path) s) :
    s.store.Inverse ∧ FileHolds c s.file s.store.records ∧
      (∀ call, s.Distinct c call → (s.perform c call).2 = false →
        ∀ raw, (s.perform c call).1.store.principal c raw = s.store.principal c raw) ∧
      ∀ raw p, (∀ id given owner, .issued id given owner ∈ s.history → c.digest given = c.digest raw → given = raw) →
        (s.store.principal c raw = some p ↔ ∃ id owner, IssuedToken s.history id raw owner ∧ trimSpace owner = p) := by
  have sound := Sound.of_run filled run
  refine ⟨sound.inverse, sound.held, ?_, ?_⟩
  · intro call new fails raw
    exact ((sound.perform call new).2 fails).principal c raw
  · intro raw p own
    rw [sound.principal_iff]
    constructor
    · rintro ⟨id, given, owner, issued, digest, someone⟩
      cases own id given owner issued.issued digest
      exact ⟨id, owner, issued, someone⟩
    · rintro ⟨id, owner, issued, someone⟩
      exact ⟨id, raw, owner, issued, rfl, someone⟩

def plainCodec : TokenCodec (List DelegatedTokenRecord) where
  sum raw := (raw ++ List.replicate 32 0).take 32
  size raw := by simp
  marshal records := records
  unmarshal records := .ok records
  undoes _ := rfl

theorem delegated_tokens_consistent_reloaded :
    ∃ s : TokenRun (List DelegatedTokenRecord),
      Reaches (TokenRun.Distinct plainCodec) (TokenRun.Steps plainCodec)
        (TokenRun.start plainCodec (ascii "tokens.json")) s ∧
        s.store.Inverse ∧ s.store.principal plainCodec (ascii "pka_x") = some (ascii "ann") := by
  have first : Reaches (TokenRun.Distinct plainCodec) (TokenRun.Steps plainCodec)
    (TokenRun.start plainCodec (ascii "tokens.json"))
      (TokenRun.start plainCodec (ascii "tokens.json")) := .refl _
  have distinct : TokenRun.Distinct plainCodec (TokenRun.start plainCodec (ascii "tokens.json"))
      (.issue (ascii " ann") (some (ascii "1", ascii "x")) true) := by
    intro _ _ _ member
    cases member
  have issued := first.next _ distinct rfl
  have kept := issued.next (.revoke (ascii "dt_1") false) trivial rfl
  have loaded := kept.next .reload trivial rfl
  refine ⟨_, loaded, (delegated_tokens_consistent (by decide) loaded).1, ?_⟩
  apply ((delegated_tokens_consistent (by decide) loaded).2.2.2 (ascii "pka_x") (ascii "ann") ?_).mpr
  · refine ⟨ascii "dt_1", ascii " ann", ⟨[], [], ?_, List.not_mem_nil⟩, ?_⟩
    · decide +kernel
    · decide +kernel
  · intro id given owner member _
    rw [show (TokenRun.perform plainCodec _ .reload).1.history =
      [.issued (ascii "dt_1") (ascii "pka_x") (ascii " ann")] by decide +kernel] at member
    cases List.mem_singleton.mp member
    rfl

end PocketKafka.Web
