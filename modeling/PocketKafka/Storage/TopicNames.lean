import PocketKafka.Lib.Numerals
import PocketKafka.Lib.Runs
import PocketKafka.Storage.DataDirectory

namespace PocketKafka.Storage

open Bytes Text Runs

theorem validateTopicName_ok {name : Bytes} (valid : validateTopicName name = .ok ()) :
    name ≠ [] ∧ name ≠ ascii "." ∧ name ≠ ascii ".." ∧ 47 ∉ name := by
  unfold validateTopicName at valid
  split at valid
  · cases valid
  · rename_i some
    split at valid
    · cases valid
    · rename_i dots
      split at valid
      · cases valid
      · split at valid
        · cases valid
        · rename_i clean
          refine ⟨some, fun dot => dots (Or.inl dot), fun dot => dots (Or.inr dot), fun slash => ?_⟩
          have bad := List.find?_eq_none.mp clean 47 slash
          exact bad (by decide)

theorem joinPath_valid {name : Bytes} (valid : validateTopicName name = .ok ()) (root : List Bytes) :
    joinPath root name = root ++ [name] := by
  obtain ⟨some, dot, dots, slash⟩ := validateTopicName_ok valid
  rw [joinPath, split_of_not_mem slash, cleanParts, if_neg (by rintro (empty | single); exacts [some empty, dot single]),
    if_neg dots, cleanParts]

theorem lookup_filter_ne {υ : Type} {entries : List (Bytes × υ)} {name other : Bytes} (different : other ≠ name) :
    (entries.filter fun (n, _) => n ≠ name).lookup other = entries.lookup other := by
  induction entries with
  | nil => rfl
  | cons head rest ih =>
    obtain ⟨n, e⟩ := head
    by_cases same : n = name
    · subst same
      rw [List.filter_cons_of_neg (by simp), ih, List.lookup_cons]
      rw [beq_false_of_ne different]
    · rw [List.filter_cons_of_pos (by simpa using same), List.lookup_cons, List.lookup_cons, ih]

theorem lookup_filter_self {υ : Type} (entries : List (Bytes × υ)) (name : Bytes) :
    (entries.filter fun (n, _) => n ≠ name).lookup name = none := by
  rw [List.lookup_eq_none_iff]
  intro pair member
  have differs := (List.mem_filter.mp member).2
  simpa using fun equal => (of_decide_eq_true differs) (Eq.symm equal)

theorem getTopic_removeTopic (s : Store) (name other : Bytes) :
    (s.removeTopic name).getTopic other = if other = name then none else s.getTopic other := by
  rw [Store.getTopic, Store.removeTopic]
  split
  · rename_i same
    rw [same]
    exact lookup_filter_self s.topics name
  · rename_i different
    exact lookup_filter_ne different

namespace DataDir

variable {d : DataDir}

theorem lookup_put (d : DataDir) (name other : Bytes) (entry : DataEntry) :
    (d.put name entry).lookup other = if other = name then some entry else d.lookup other := by
  rw [put, List.lookup_cons]
  by_cases same : other = name
  · rw [if_pos same, beq_iff_eq.mpr same]
  · rw [if_neg same, beq_false_of_ne same, lookup_filter_ne same]

theorem nodup_put (unique : (d.map Prod.fst).Nodup) (name : Bytes) (entry : DataEntry) :
    ((d.put name entry).map Prod.fst).Nodup := by
  rw [put, List.map_cons, List.nodup_cons]
  constructor
  · intro member
    obtain ⟨⟨n, e⟩, inside, rfl⟩ := List.mem_map.mp member
    have differs := (List.mem_filter.mp inside).2
    simp at differs
  · exact unique.sublist (List.filter_sublist.map _)

end DataDir

variable {maxSegmentBytes indexInterval : Int}

/-- A partition whose directory is found and opened again. -/
def Recoverable (maxSegmentBytes indexInterval : Int) (i : Int) (p : Partition) : Prop :=
  (-2147483648 ≤ i ∧ i < 2147483648) ∧ ∃ q, openPartition p.dir maxSegmentBytes indexInterval = .ok q

theorem recoverPartitions_dirs {ps : List (Int × Partition)}
    (recoverable : ∀ entry ∈ ps, Recoverable maxSegmentBytes indexInterval entry.1 entry.2) :
    ∃ qs, DataStore.recoverPartitions maxSegmentBytes indexInterval (DataStore.partitionDirs ps) = .ok qs ∧
      qs.map Prod.fst = ps.map Prod.fst := by
  induction ps with
  | nil => exact ⟨[], rfl, rfl⟩
  | cons entry ps ih =>
    obtain ⟨i, p⟩ := entry
    obtain ⟨⟨lower, upper⟩, q, opened⟩ := recoverable (i, p) (by simp)
    obtain ⟨qs, done, same⟩ := ih (fun other member => recoverable other (List.mem_cons_of_mem _ member))
    have parsed : parseInt32 (formatInt i) = some i := by
      rw [parseInt32, atoi_formatInt (by omega) (by omega), Option.bind_some, if_pos ⟨lower, upper⟩]
    refine ⟨(i, q) :: qs, ?_, by rw [List.map_cons, List.map_cons, same]⟩
    change DataStore.recoverPartitions _ _ ((formatInt i, p.dir) :: DataStore.partitionDirs ps) = _
    rw [DataStore.recoverPartitions, parsed, opened, done]

theorem openPartition_again (maxSegmentBytes indexInterval : Int) :
    ∃ p, openPartition [] maxSegmentBytes indexInterval = .ok p ∧
      ∃ q, openPartition p.dir maxSegmentBytes indexInterval = .ok q := by
  have missing : ([] : Dir).find? (fun files => files.baseOffset == 0) = none := rfl
  obtain ⟨s, opened, empty, base, next, _, _⟩ := Segment.Holds.open_new missing le_rfl (by omega)
    maxSegmentBytes indexInterval
  have first : openPartition [] maxSegmentBytes indexInterval = .ok { unopened maxSegmentBytes indexInterval with
      activeSegment := some s
      nextOffset := s.nextOffset
      highWatermark := s.nextOffset } := by
    simp [openPartition, Partition.recover, listedBases, uniq, openSegments, unopened, opened]
  have hold : List.Forall₂ Segment.Holds ([] ++ [s]) [[]] := .cons empty .nil
  have covered : List.Forall₂ (fun (s : Segment) bs => Covered s.baseOffset bs s.nextOffset) ([] ++ [s]) [[]] :=
    .cons (base.trans next.symm) .nil
  obtain ⟨front, seg, again, _⟩ := recover_segments (unopened maxSegmentBytes indexInterval) rfl hold covered
    (List.pairwise_singleton _ s)
  refine ⟨_, first, ?_⟩
  have files : Partition.dir { unopened maxSegmentBytes indexInterval with
      activeSegment := some s, nextOffset := s.nextOffset, highWatermark := s.nextOffset } =
        ([] ++ [s]).map Segment.files := rfl
  rw [openPartition, files, again]
  exact ⟨_, rfl⟩

/-- What stands under a name: no topic, or one whose partitions are all found again. -/
inductive Orderly (maxSegmentBytes indexInterval : Int) : Option DataEntry → List Int → Prop
  | missing : Orderly maxSegmentBytes indexInterval none []
  | file : Orderly maxSegmentBytes indexInterval (some .file) []
  | topic {ps : List (Int × Partition)} (recoverable : ∀ entry ∈ ps,
      Recoverable maxSegmentBytes indexInterval entry.1 entry.2) :
      Orderly maxSegmentBytes indexInterval (some (.dir (DataStore.partitionDirs ps))) (ps.map Prod.fst)

theorem Orderly.bare : Orderly maxSegmentBytes indexInterval (some (.dir [])) [] :=
  @Orderly.topic maxSegmentBytes indexInterval [] fun _ member => absurd member List.not_mem_nil

theorem partitionDirs_names (ps : List (Int × Partition)) :
    (DataStore.partitionDirs ps).map Prod.fst = (ps.map Prod.fst).map formatInt := by
  simp [DataStore.partitionDirs, Function.comp_def]

theorem Orderly.unique {entry : Option DataEntry} {ids ids' : List Int} (h : Orderly maxSegmentBytes indexInterval entry ids)
    (h' : Orderly maxSegmentBytes indexInterval entry ids') : ids = ids' := by
  cases h with
  | missing => cases h'; rfl
  | file => cases h'; rfl
  | @topic ps recoverable =>
    generalize same : some (DataEntry.dir (DataStore.partitionDirs ps)) = entry at h'
    cases h' with
    | missing => cases same
    | file => cases same
    | @topic ps' recoverable' =>
      have dirs : DataStore.partitionDirs ps = DataStore.partitionDirs ps' := DataEntry.dir.inj (Option.some.inj same)
      have names := congrArg (List.map Prod.fst) dirs
      rw [partitionDirs_names, partitionDirs_names] at names
      exact List.map_injective_iff.mpr (fun x y => formatInt_injective) names

def partitionIds (topics : List (Bytes × Topic)) (name : Bytes) : List Int :=
  ((topics.lookup name).map fun t => t.partitions.map Prod.fst).getD []

structure Recovered (maxSegmentBytes indexInterval : Int) (d : DataDir) (topics : List (Bytes × Topic)) : Prop where
  done : DataStore.recoverTopics maxSegmentBytes indexInterval d = .ok topics
  orderly : ∀ name, Orderly maxSegmentBytes indexInterval (d.lookup name) (partitionIds topics name)
  filled : ∀ name t, topics.lookup name = some t → t.partitions ≠ []

namespace Recovered

variable {rest : DataDir} {topics : List (Bytes × Topic)} {n : Bytes}

theorem fresh (h : Recovered maxSegmentBytes indexInterval rest topics) (absent : rest.lookup n = none) :
    topics.lookup n = none := by
  cases found : topics.lookup n with
  | none => rfl
  | some t =>
    have nothing := h.orderly n
    rw [absent] at nothing
    have ids := nothing.unique .missing
    rw [partitionIds, found, Option.map_some, Option.getD_some, List.map_eq_nil_iff] at ids
    exact absurd ids (h.filled n t found)

theorem cons (h : Recovered maxSegmentBytes indexInterval rest topics) {entry : DataEntry} {more : List (Bytes × Topic)}
    (done : DataStore.recoverTopics maxSegmentBytes indexInterval ((n, entry) :: rest) = .ok more)
    (others : ∀ name, name ≠ n → more.lookup name = topics.lookup name)
    (own : Orderly maxSegmentBytes indexInterval (some entry) (partitionIds more n))
    (filled : ∀ t, more.lookup n = some t → t.partitions ≠ []) :
    Recovered maxSegmentBytes indexInterval ((n, entry) :: rest) more := by
  refine ⟨done, ?_, ?_⟩
  · intro name
    by_cases same : name = n
    · subst same
      rw [List.lookup_cons, beq_self_eq_true]
      exact own
    · rw [List.lookup_cons, beq_false_of_ne same, partitionIds, others name same]
      exact h.orderly name
  · intro name t found
    by_cases same : name = n
    · subst same
      exact filled t found
    · exact h.filled name t ((others name same).symm.trans found)

theorem file (h : Recovered maxSegmentBytes indexInterval rest topics) (absent : rest.lookup n = none) :
    Recovered maxSegmentBytes indexInterval ((n, .file) :: rest) topics := by
  apply h.cons
  · rw [DataStore.recoverTopics]
    exact h.done
  · exact fun _ _ => rfl
  · rw [partitionIds, h.fresh absent]
    exact .file
  · intro t found
    rw [h.fresh absent] at found
    cases found

theorem topic (h : Recovered maxSegmentBytes indexInterval rest topics) (absent : rest.lookup n = none)
    {ps : List (Int × Partition)} (recoverable : ∀ entry ∈ ps, Recoverable maxSegmentBytes indexInterval entry.1 entry.2) :
    ∃ more, Recovered maxSegmentBytes indexInterval ((n, .dir (DataStore.partitionDirs ps)) :: rest) more := by
  obtain ⟨qs, opened, ids⟩ := recoverPartitions_dirs recoverable
  have own := Orderly.topic recoverable
  rw [← ids] at own
  have done : DataStore.recoverTopics maxSegmentBytes indexInterval ((n, .dir (DataStore.partitionDirs ps)) :: rest) =
      .ok (if qs = [] then topics else (n, ⟨n, qs⟩) :: topics) := by
    rw [DataStore.recoverTopics, opened]
    dsimp only
    rw [h.done]
  by_cases empty : qs = []
  · rw [if_pos empty] at done
    refine ⟨topics, h.cons done (fun _ _ => rfl) ?_ ?_⟩
    · rw [partitionIds, h.fresh absent]
      rw [empty] at own
      exact own
    · intro t found
      rw [h.fresh absent] at found
      cases found
  · rw [if_neg empty] at done
    have here : List.lookup n ((n, (⟨n, qs⟩ : Topic)) :: topics) = some ⟨n, qs⟩ := by
      rw [List.lookup_cons, beq_self_eq_true]
    refine ⟨_, h.cons done ?_ ?_ ?_⟩
    · intro name different
      rw [List.lookup_cons, beq_false_of_ne different]
    · rw [partitionIds, here]
      exact own
    · intro t found
      rw [here] at found
      cases found
      exact empty

end Recovered

theorem lookup_none_of_not_mem {υ : Type} {entries : List (Bytes × υ)} {n : Bytes} (absent : n ∉ entries.map Prod.fst) :
    entries.lookup n = none := by
  rw [List.lookup_eq_none_iff]
  intro pair member
  have differs : n ≠ pair.1 := by
    rintro rfl
    exact absent (List.mem_map_of_mem member)
  simpa using differs

theorem recoverTopics_orderly {d : DataDir} (unique : (d.map Prod.fst).Nodup)
    (orderly : ∀ name, ∃ ids, Orderly maxSegmentBytes indexInterval (d.lookup name) ids) :
    ∃ topics, Recovered maxSegmentBytes indexInterval d topics := by
  induction d with
  | nil => exact ⟨[], rfl, fun _ => .missing, nofun⟩
  | cons head rest ih =>
    obtain ⟨n, entry⟩ := head
    rw [List.map_cons, List.nodup_cons] at unique
    have absent : rest.lookup n = none := lookup_none_of_not_mem unique.1
    have others : ∀ name, ∃ ids, Orderly maxSegmentBytes indexInterval (rest.lookup name) ids := by
      intro name
      by_cases same : name = n
      · rw [same, absent]
        exact ⟨[], .missing⟩
      · have whole := orderly name
        rwa [List.lookup_cons, beq_false_of_ne same] at whole
    obtain ⟨topics, recovered⟩ := ih unique.2 others
    obtain ⟨ids, here⟩ := orderly n
    rw [List.lookup_cons, beq_self_eq_true] at here
    cases here with
    | file => exact ⟨topics, recovered.file absent⟩
    | topic recoverable => exact recovered.topic absent recoverable

inductive TopicEvent where
  | create (name : Bytes) (partitions : Int)
  | ensure (name : Bytes) (partitions : Int)
  | delete (name : Bytes)
  | broker (name : Bytes)

def coordinatorName : Bytes := ascii "__coordinator"

theorem validateTopicName_brokerNames : ∀ kept ∈ brokerNames, validateTopicName kept = .ok () := by decide +kernel

theorem manifestName_ne : manifestName ≠ coordinatorName := by decide +kernel

def DataDir.keep (d : DataDir) (name : Bytes) : DataDir :=
  match d.lookup name with
  | some _ => d
  | none => d.put name (if name = coordinatorName then .dir [] else .file)

namespace DataStore

def perform (maxSegmentBytes indexInterval : Int) (s : DataStore) : TopicEvent → DataStore
  | .create name partitions => (s.createTopic maxSegmentBytes indexInterval name partitions).2
  | .ensure name partitions => (s.ensureTopic maxSegmentBytes indexInterval name partitions).2
  | .delete name => (s.deleteTopic name).2
  | .broker name => if name ∈ brokerNames then ⟨s.store, s.dir.keep name⟩ else s

def Steps (maxSegmentBytes indexInterval : Int) (s : DataStore) (event : TopicEvent) (t : DataStore) : Prop :=
  s.perform maxSegmentBytes indexInterval event = t

def Unreserved (_ : DataStore) : TopicEvent → Prop
  | .create name _ => name ∉ brokerNames
  | .ensure name _ => name ∉ brokerNames
  | _ => True

def empty : DataStore := ⟨⟨[], []⟩, []⟩

structure Sound (maxSegmentBytes indexInterval : Int) (s : DataStore) : Prop where
  unique : (s.dir.map Prod.fst).Nodup
  orderly : ∀ name, Orderly maxSegmentBytes indexInterval (s.dir.lookup name) (partitionIds s.store.topics name)
  named : ∀ name t, s.store.getTopic name = some t → t.partitions ≠ [] ∧ validateTopicName name = .ok () ∧ name ∉ brokerNames
  files : ∀ name, name ∉ brokerNames → s.dir.lookup name ≠ some .file
  manifest : ∀ subdirs, s.dir.lookup manifestName ≠ some (.dir subdirs)

theorem sound_empty : empty.Sound maxSegmentBytes indexInterval := ⟨List.nodup_nil, fun _ => .missing, nofun, nofun, nofun⟩

variable {s : DataStore} {name : Bytes}

theorem Sound.subdirs_eq (h : s.Sound maxSegmentBytes indexInterval) (absent : s.store.getTopic name = none) :
    s.dir.subdirs name = [] := by
  have orderly := h.orderly name
  rw [partitionIds, show s.store.topics.lookup name = none from absent, Option.map_none, Option.getD_none] at orderly
  unfold DataDir.subdirs
  generalize found : s.dir.lookup name = entry at orderly
  generalize none : ([] : List Int) = ids at orderly
  cases orderly with
  | missing => rfl
  | file => rfl
  | topic recoverable =>
    have empty := List.map_eq_nil_iff.mp none.symm
    subst empty
    rfl

theorem Sound.put (h : s.Sound maxSegmentBytes indexInterval) {topics : List (Bytes × Topic)} {entry : DataEntry}
    (others : ∀ other, other ≠ name → topics.lookup other = s.store.topics.lookup other)
    (orderly : Orderly maxSegmentBytes indexInterval (some entry) (partitionIds topics name))
    (named : ∀ t, topics.lookup name = some t → t.partitions ≠ [] ∧ validateTopicName name = .ok () ∧ name ∉ brokerNames)
    (file : name ∉ brokerNames → entry ≠ .file) (manifest : name = manifestName → ∀ subdirs, entry ≠ .dir subdirs)
    (compacted : List Bytes) : Sound maxSegmentBytes indexInterval ⟨⟨topics, compacted⟩, s.dir.put name entry⟩ := by
  constructor
  · exact DataDir.nodup_put h.unique name entry
  · intro other
    dsimp only
    rw [DataDir.lookup_put]
    by_cases same : other = name
    · subst same
      rw [if_pos rfl]
      exact orderly
    · rw [if_neg same, partitionIds, others other same]
      exact h.orderly other
  · intro other t found
    by_cases same : other = name
    · subst same
      exact named t found
    · exact h.named other t ((others other same).symm.trans found)
  · intro other free
    dsimp only
    rw [DataDir.lookup_put]
    by_cases same : other = name
    · subst same
      rw [if_pos rfl]
      exact fun entryFile => file free (Option.some.inj entryFile)
    · rw [if_neg same]
      exact h.files other free
  · intro subdirs
    dsimp only
    rw [DataDir.lookup_put]
    by_cases same : manifestName = name
    · rw [if_pos same]
      exact fun entryDir => manifest same.symm subdirs (Option.some.inj entryDir)
    · rw [if_neg same]
      exact h.manifest subdirs

theorem openTopic_new {opening : Opening} {p : Partition} (opens : ∀ i, opening i = .ok p) (i count : Nat) :
    openTopic opening i count = .ok ((List.range count).map fun k => (int32 (i + k : Nat), p)) := by
  induction count generalizing i with
  | zero => rfl
  | succ count ih =>
    rw [openTopic, opens]
    dsimp only
    rw [ih]
    dsimp only
    rw [List.range_succ_eq_map, List.map_cons, List.map_map]
    congr 3
    funext k
    rw [Function.comp_apply, show i + 1 + k = i + k.succ from by omega]

theorem Sound.opening_new (h : s.Sound maxSegmentBytes indexInterval) (absent : s.store.getTopic name = none)
    (free : name ∉ brokerNames) (i : Int) :
    opening maxSegmentBytes indexInterval s.dir name i = openPartition [] maxSegmentBytes indexInterval := by
  unfold opening
  split
  · rename_i found
    exact absurd found (h.files name free)
  · rw [h.subdirs_eq absent]
    rfl

theorem Sound.opens (h : s.Sound maxSegmentBytes indexInterval) (absent : s.store.getTopic name = none)
    (free : name ∉ brokerNames) (count : Nat) :
    ∃ ps, openTopic (opening maxSegmentBytes indexInterval s.dir name) 0 count = .ok ps := by
  obtain ⟨p, first, _⟩ := openPartition_again maxSegmentBytes indexInterval
  exact ⟨_, openTopic_new (fun i => (h.opening_new absent free i).trans first) 0 count⟩

theorem Sound.create (h : s.Sound maxSegmentBytes indexInterval) (valid : validateTopicName name = .ok ())
    (absent : s.store.getTopic name = none) (free : name ∉ brokerNames) {count : Nat} (some : count ≠ 0) :
    ∃ ps, openTopic (opening maxSegmentBytes indexInterval s.dir name) 0 count = .ok ps ∧
      Sound maxSegmentBytes indexInterval ⟨⟨(name, ⟨name, ps⟩) :: s.store.topics, s.store.compacted⟩,
        s.dir.put name (.dir (partitionDirs ps ++ without (s.dir.subdirs name) (ps.map Prod.fst)))⟩ := by
  obtain ⟨p, first, q, again⟩ := openPartition_again maxSegmentBytes indexInterval
  have opens (i : Int) : opening maxSegmentBytes indexInterval s.dir name i = .ok p :=
    (h.opening_new absent free i).trans first
  refine ⟨_, openTopic_new opens 0 count, ?_⟩
  generalize made : (List.range count).map (fun k => (int32 (0 + k : Nat), p)) = ps
  have recoverable : ∀ entry ∈ ps, Recoverable maxSegmentBytes indexInterval entry.1 entry.2 := by
    intro entry member
    rw [← made] at member
    obtain ⟨k, _, rfl⟩ := List.mem_map.mp member
    exact ⟨int32_bounds _, q, again⟩
  have filled : ps ≠ [] := by
    rw [← made, Ne, List.map_eq_nil_iff, List.range_eq_nil]
    exact some
  have here : List.lookup name ((name, (⟨name, ps⟩ : Topic)) :: s.store.topics) = .some ⟨name, ps⟩ := by
    rw [List.lookup_cons, beq_self_eq_true]
  rw [h.subdirs_eq absent, show without [] (ps.map Prod.fst) = [] from rfl, List.append_nil]
  apply h.put
  · intro other different
    rw [List.lookup_cons, beq_false_of_ne different]
  · rw [partitionIds, here]
    exact .topic recoverable
  · intro t found
    rw [here] at found
    cases found
    exact ⟨filled, valid, free⟩
  · exact fun _ => nofun
  · intro same
    exact absurd (same ▸ by decide : name ∈ brokerNames) free

/-- What a call that asks for a topic does if the partitions can be opened: nothing, or it makes the topic. -/
inductive Asked (maxSegmentBytes indexInterval : Int) (s : DataStore) (name : Bytes) : Option Topic → DataStore → Prop
  | idle : Asked maxSegmentBytes indexInterval s name none s
  | made {count : Nat} {ps : List (Int × Partition)} (valid : validateTopicName name = .ok ())
      (absent : s.store.getTopic name = none) (filled : count ≠ 0)
      (opened : openTopic (opening maxSegmentBytes indexInterval s.dir name) 0 count = .ok ps) :
      Asked maxSegmentBytes indexInterval s name (some ⟨name, ps⟩)
        ⟨⟨(name, ⟨name, ps⟩) :: s.store.topics, s.store.compacted⟩,
          s.dir.put name (.dir (partitionDirs ps ++ without (s.dir.subdirs name) (ps.map Prod.fst)))⟩

theorem count_ne_zero (partitions : Int) : (if partitions ≤ 0 then 1 else partitions).toNat ≠ 0 := by
  split <;> omega

theorem createTopic_asked (partitions : Int) (opens : s.store.getTopic name = none →
      ∀ count, ∃ ps, openTopic (opening maxSegmentBytes indexInterval s.dir name) 0 count = .ok ps) :
    ∃ new, Asked maxSegmentBytes indexInterval s name new (s.createTopic maxSegmentBytes indexInterval name partitions).2 ∧
      ∀ topic, (s.createTopic maxSegmentBytes indexInterval name partitions).1 = .ok topic → new = some topic := by
  unfold DataStore.createTopic Store.createTopic
  cases valid : validateTopicName name with
  | error failure => exact ⟨none, .idle, nofun⟩
  | ok =>
    cases absent : s.store.getTopic name with
    | some t => exact ⟨none, .idle, nofun⟩
    | none =>
      obtain ⟨ps, opened⟩ := opens absent (if partitions ≤ 0 then 1 else partitions).toNat
      simp only [Store.createLocked, opened]
      refine ⟨_, .made valid absent (count_ne_zero partitions) opened, ?_⟩
      intro topic same
      rw [Except.ok.inj same]

theorem ensureTopic_asked (partitions : Int) (opens : s.store.getTopic name = none →
      ∀ count, ∃ ps, openTopic (opening maxSegmentBytes indexInterval s.dir name) 0 count = .ok ps) :
    ∃ new, Asked maxSegmentBytes indexInterval s name new (s.ensureTopic maxSegmentBytes indexInterval name partitions).2 ∧
      ∀ topic, (s.ensureTopic maxSegmentBytes indexInterval name partitions).1 = .ok (topic, true) → new = some topic := by
  unfold DataStore.ensureTopic Store.ensureTopic
  cases valid : validateTopicName name with
  | error failure => exact ⟨none, .idle, nofun⟩
  | ok =>
    cases absent : s.store.getTopic name with
    | some t => exact ⟨none, .idle, nofun⟩
    | none =>
      obtain ⟨ps, opened⟩ := opens absent (if partitions ≤ 0 then 1 else partitions).toNat
      simp only [Store.createLocked, opened]
      refine ⟨_, .made valid absent (count_ne_zero partitions) opened, ?_⟩
      intro topic same
      rw [(Prod.mk.inj (Except.ok.inj same)).1]

theorem Sound.asked (h : s.Sound maxSegmentBytes indexInterval) (free : name ∉ brokerNames) {new : Option Topic}
    {t : DataStore} (asked : Asked maxSegmentBytes indexInterval s name new t) :
    t.Sound maxSegmentBytes indexInterval := by
  cases asked with
  | idle => exact h
  | made valid absent filled opened =>
    obtain ⟨ps, again, sound⟩ := h.create valid absent free filled
    cases opened.symm.trans again
    exact sound

theorem without_partitionDirs (ps : List (Int × Partition)) {ids : List Int} (all : ∀ id ∈ ps.map Prod.fst, id ∈ ids) :
    without (partitionDirs ps) ids = [] := by
  rw [without, List.filter_eq_nil_iff]
  rintro ⟨shown, dir⟩ member
  obtain ⟨⟨id, p⟩, inside, same⟩ := List.mem_map.mp member
  cases same
  have listed : formatInt id ∈ ids.map formatInt := List.mem_map_of_mem (all id (List.mem_map_of_mem inside))
  simpa using listed

theorem Sound.without_subdirs (h : s.Sound maxSegmentBytes indexInterval) {t : Topic}
    (found : s.store.getTopic name = some t) :
    without (s.dir.subdirs name) (t.partitions.map Prod.fst) = [] := by
  have orderly := h.orderly name
  rw [partitionIds, show s.store.topics.lookup name = some t from found, Option.map_some, Option.getD_some] at orderly
  unfold DataDir.subdirs
  generalize s.dir.lookup name = entry at orderly
  generalize t.partitions.map Prod.fst = ids at orderly
  cases orderly with
  | missing => rfl
  | file => rfl
  | topic recoverable => exact without_partitionDirs _ fun id member => member

theorem Sound.deleteTopic (h : s.Sound maxSegmentBytes indexInterval) (name : Bytes) :
    (s.deleteTopic name).2.Sound maxSegmentBytes indexInterval := by
  unfold DataStore.deleteTopic
  cases found : s.store.getTopic name with
  | none => exact h
  | some t =>
    dsimp only
    rw [h.without_subdirs found]
    have gone := lookup_filter_self s.store.topics name
    apply h.put
    · intro other different
      exact lookup_filter_ne different
    · rw [partitionIds, gone]
      exact .bare
    · intro t' found'
      rw [gone] at found'
      cases found'
    · simp
    · intro same subdirs
      have taken : name ∈ brokerNames := by
        rw [same]
        decide
      exact absurd taken (h.named name t found).2.2

theorem Sound.keep (h : s.Sound maxSegmentBytes indexInterval) (reserved : name ∈ brokerNames) :
    Sound maxSegmentBytes indexInterval ⟨s.store, s.dir.keep name⟩ := by
  unfold DataDir.keep
  cases found : s.dir.lookup name with
  | some entry => exact h
  | none =>
    have absent : s.store.topics.lookup name = none := by
      cases topic : s.store.topics.lookup name with
      | none => rfl
      | some t => exact absurd reserved (h.named name t topic).2.2
    dsimp only
    apply h.put (fun _ _ => rfl)
    · rw [partitionIds, absent]
      split
      · exact .bare
      · exact .file
    · intro t found
      rw [absent] at found
      cases found
    · exact fun free => absurd reserved free
    · intro same subdirs
      rw [same, if_neg manifestName_ne]
      intro impossible
      cases impossible

theorem Sound.step (h : s.Sound maxSegmentBytes indexInterval) {event : TopicEvent} {t : DataStore}
    (free : s.Unreserved event)
    (step : s.Steps maxSegmentBytes indexInterval event t) : t.Sound maxSegmentBytes indexInterval := by
  subst step
  cases event with
  | create name partitions =>
    obtain ⟨_, asked, _⟩ := createTopic_asked partitions fun absent => h.opens absent free
    exact h.asked free asked
  | ensure name partitions =>
    obtain ⟨_, asked, _⟩ := ensureTopic_asked partitions fun absent => h.opens absent free
    exact h.asked free asked
  | delete name => exact h.deleteTopic name
  | broker name =>
    rw [show s.perform maxSegmentBytes indexInterval (.broker name) =
      if name ∈ brokerNames then ⟨s.store, s.dir.keep name⟩ else s from rfl]
    by_cases reserved : name ∈ brokerNames
    · rw [if_pos reserved]
      exact h.keep reserved
    · rw [if_neg reserved]
      exact h

theorem Sound.newStore (h : s.Sound maxSegmentBytes indexInterval) :
    ∃ recovered, DataStore.newStore maxSegmentBytes indexInterval s.dir = .ok recovered ∧
      ∀ name, partitionIds recovered.store.topics name = partitionIds s.store.topics name ∧
        (recovered.store.getTopic name).isSome = (s.store.getTopic name).isSome := by
  obtain ⟨topics, done, orderly, filled⟩ := recoverTopics_orderly h.unique fun name => ⟨_, h.orderly name⟩
  have manifest : loadManifest s.dir = .ok () := by
    unfold loadManifest
    split
    · rename_i subdirs found
      exact absurd found (h.manifest subdirs)
    · rfl
  have same (name : Bytes) : partitionIds topics name = partitionIds s.store.topics name :=
    (orderly name).unique (h.orderly name)
  refine ⟨⟨⟨topics, []⟩, s.dir⟩, by rw [DataStore.newStore, done, manifest], fun name => ⟨same name, ?_⟩⟩
  -- A topic that exists has a partition, so that its list of partitions tells whether it is there.
  have ids := same name
  unfold partitionIds at ids
  unfold Store.getTopic
  cases here : topics.lookup name with
  | none =>
    cases there : s.store.topics.lookup name with
    | none => rfl
    | some t =>
      rw [here, there] at ids
      exact absurd (List.map_eq_nil_iff.mp ids.symm) (h.named name t there).1
  | some t =>
    cases there : s.store.topics.lookup name with
    | none =>
      rw [here, there] at ids
      exact absurd (List.map_eq_nil_iff.mp ids) (filled name t here)
    | some t' => rfl

/-- While no topic gets a name that the broker uses, topics have directories of their own right below the data
    directory, none of them holds anything of the broker, and a restart finds exactly the topics that exist. -/
theorem topic_directories_safe (maxSegmentBytes indexInterval : Int) (root : List Bytes) {s : DataStore}
    (run : Reaches Unreserved (Steps maxSegmentBytes indexInterval) empty s) :
    (∀ name t, s.store.getTopic name = some t →
      joinPath root name = root ++ [name] ∧ ∀ kept ∈ brokerNames, ¬ joinPath root name <+: joinPath root kept) ∧
    (∀ name t other u, s.store.getTopic name = some t → s.store.getTopic other = some u → name ≠ other →
      joinPath root name ≠ joinPath root other) ∧
    ∃ recovered, DataStore.newStore maxSegmentBytes indexInterval s.dir = .ok recovered ∧
      ∀ name, partitionIds recovered.store.topics name = partitionIds s.store.topics name ∧
        (recovered.store.getTopic name).isSome = (s.store.getTopic name).isSome := by
  have sound : s.Sound maxSegmentBytes indexInterval :=
    run.invariant sound_empty fun _ _ _ h meets done => h.step meets done
  have inside (name : Bytes) (t : Topic) (found : s.store.getTopic name = some t) : joinPath root name = root ++ [name] :=
    joinPath_valid (sound.named name t found).2.1 root
  refine ⟨fun name t found => ⟨inside name t found, fun kept reserved holds => ?_⟩, ?_, sound.newStore⟩
  · have valid := validateTopicName_brokerNames kept reserved
    rw [inside name t found, joinPath_valid valid root, List.prefix_append_right_inj] at holds
    have same : name = kept := by
      have whole := holds.eq_of_length rfl
      exact List.singleton_inj.mp whole
    exact (sound.named name t found).2.2 (same ▸ reserved)
  · intro name t other u found found' different same
    rw [inside name t found, inside other u found'] at same
    exact different (List.singleton_inj.mp (List.append_cancel_left same))

instance (s : DataStore) (event : TopicEvent) : Decidable (s.Unreserved event) := by
  unfold Unreserved
  split <;> infer_instance

theorem topic_directories_safe_orders :
    ∃ s, Reaches Unreserved (Steps 1048576 4096) empty s ∧ partitionIds s.store.topics (ascii "orders") = [0, 1] ∧
      ∃ recovered, DataStore.newStore 1048576 4096 s.dir = .ok recovered ∧
        partitionIds recovered.store.topics (ascii "orders") = [0, 1] := by
  obtain ⟨s, run, ids⟩ : ∃ s, Reaches Unreserved (Steps 1048576 4096) empty s ∧
      partitionIds s.store.topics (ascii "orders") = [0, 1] :=
    exists_reaches [.create (ascii "orders") 2, .broker manifestName, .ensure (ascii "payments") 0,
      .delete (ascii "payments")]
      (fun s event t (step : some (s.perform 1048576 4096 event) = some t) => Option.some.inj step) (by decide +kernel)
  obtain ⟨_, _, recovered, done, same⟩ := topic_directories_safe 1048576 4096 [ascii "data"] run
  exact ⟨s, run, ids, recovered, done, (same (ascii "orders")).1.trans ids⟩

/-- A topic with the name of the manifest is created, its directory is where the manifest belongs, and the next start
    fails. -/
theorem manifest_topic_stops_start :
    ∃ s, Reaches (fun _ _ => True) (Steps 1048576 4096) empty s ∧ (s.store.getTopic manifestName).isSome = true ∧
      manifestName ∈ brokerNames ∧ (DataStore.newStore 1048576 4096 s.dir).isOk = false :=
  exists_reaches [.create manifestName 1]
    (fun s event t (step : some (s.perform 1048576 4096 event) = some t) => Option.some.inj step) (by decide +kernel)

end DataStore

end PocketKafka.Storage
