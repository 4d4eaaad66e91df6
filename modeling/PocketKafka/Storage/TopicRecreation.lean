import PocketKafka.Storage.TopicNames

namespace PocketKafka.Storage

open Bytes Runs

/-- A `DeleteTopic` that has taken the topic out of the memory: the partitions whose directories it has yet to remove. -/
structure Deletion where
  name : Bytes
  left : List Int
  deriving DecidableEq

/-- The store, what its manifest says of compaction, the deletions under way, and the topics for which `MarkCompacted`
was called since they were created. -/
structure Lifecycle where
  data : DataStore
  manifest : List Bytes
  deleting : List Deletion
  marked : List Bytes

/-- `removeDir` is `Partition.Delete` in a deletion, `write` what any operation of a partition leaves in its directory. -/
inductive LifeEvent where
  | create (name : Bytes) (partitions : Int)
  | ensure (name : Bytes) (partitions : Int)
  | delete (name : Bytes)
  | removeDir (j : Nat) (i : Int)
  | write (name : Bytes) (i : Int) (p : Partition)
  | mark (name : Bytes) (compact wrote : Bool)
  | broker (name : Bytes)
  | reopen

namespace Lifecycle

variable (maxSegmentBytes indexInterval : Int) (clean : Bytes → Bytes) (s : Lifecycle)

def empty : Lifecycle := ⟨.empty, [], [], []⟩

/-- The topics and their directories after a call that may have created a topic. -/
def born (name : Bytes) (data : DataStore) : Lifecycle :=
  { s with
    data := data
    marked :=
      if (s.data.store.getTopic name).isNone && (data.store.getTopic name).isSome then
        s.marked.filter fun n => decide (n ≠ name)
      else s.marked }

def storeFiles (subdirs : List (Bytes × Dir)) (i : Int) (p : Partition) : List (Bytes × Dir) :=
  subdirs.map fun (n, dir) => if n = formatInt i then (n, p.dir) else (n, dir)

/-- `clean` is what the JSON of the manifest makes of a name: bytes that are no UTF-8 come back as U+FFFD. -/
def perform : LifeEvent → Option Lifecycle
  | .create name partitions => some (s.born name (s.data.createTopic maxSegmentBytes indexInterval name partitions).2)
  | .ensure name partitions => some (s.born name (s.data.ensureTopic maxSegmentBytes indexInterval name partitions).2)
  | .delete name =>
    match s.data.store.getTopic name with
    | none => some s
    | some t =>
      some { s with
        data := { s.data with store := s.data.store.removeTopic name }
        deleting := s.deleting ++ [⟨name, t.partitions.map Prod.fst⟩] }
  | .removeDir j i =>
    (s.deleting[j]?).bind fun d =>
      if i ∈ d.left then
        some { s with
          data := { s.data with dir := s.data.dir.put d.name (.dir (DataStore.without (s.data.dir.subdirs d.name) [i])) }
          deleting := s.deleting.set j { d with left := d.left.filter fun k => decide (k ≠ i) } }
      else none
  | .write name i p =>
    if (openPartition p.dir maxSegmentBytes indexInterval).isOk && (s.data.store.getPartition name i).isSome then
      some { s with
        data := ⟨s.data.store.setPartition name i p, s.data.dir.put name (.dir (storeFiles (s.data.dir.subdirs name) i p))⟩ }
    else none
  | .mark name compact wrote =>
    let others := s.data.store.compacted.filter fun n => decide (n ≠ name)
    let compacted := if compact then name :: others else others
    some { s with
      data := ⟨{ s.data.store with compacted := compacted },
        if wrote then s.data.dir.keep manifestName else s.data.dir⟩
      manifest := if wrote then compacted.map clean else s.manifest
      marked := if compact then name :: s.marked else s.marked }
  | .broker name => if name ∈ brokerNames then some { s with data := ⟨s.data.store, s.data.dir.keep name⟩ } else none
  | .reopen =>
    match DataStore.newStore maxSegmentBytes indexInterval s.data.dir with
    | .error _ => none
    | .ok data => some ⟨⟨{ data.store with compacted := s.manifest }, data.dir⟩, s.manifest, [], s.marked⟩

def Steps (s : Lifecycle) (event : LifeEvent) (t : Lifecycle) : Prop :=
  s.perform maxSegmentBytes indexInterval clean event = some t

/-- A creation under a name of its own, when no deletion of the name is under way and nothing says that it is compacted. -/
def MayCreate (name : Bytes) : Prop :=
  name ∉ brokerNames ∧ ((s.data.store.getTopic name).isNone = true →
    (∀ d ∈ s.deleting, d.name = name → d.left = []) ∧ name ∉ s.data.store.compacted ∧ name ∉ s.manifest)

/-- Topics are created when they may be, and marked under names that the manifest keeps. -/
def Undisturbed (s : Lifecycle) : LifeEvent → Prop
  | .create name _ => s.MayCreate name
  | .ensure name _ => s.MayCreate name
  | .mark name compact _ => compact = true → clean name = name
  | _ => True

instance (name : Bytes) : Decidable (s.MayCreate name) := inferInstanceAs (Decidable (_ ∧ (_ → _ ∧ _ ∧ _)))

instance : (event : LifeEvent) → Decidable (Undisturbed clean s event)
  | .create name _ => inferInstanceAs (Decidable (s.MayCreate name))
  | .ensure name _ => inferInstanceAs (Decidable (s.MayCreate name))
  | .mark name compact _ => inferInstanceAs (Decidable (compact = true → clean name = name))
  | .delete _ | .removeDir _ _ | .write _ _ _ | .broker _ | .reopen => isTrue trivial

end Lifecycle

def Partition.NoRecords (p : Partition) : Prop := p.nextOffset = 0 ∧ ∀ files ∈ p.dir, files.log = some []

section

variable {maxSegmentBytes indexInterval : Int}

theorem noRecords_new {p : Partition} (opened : openPartition [] maxSegmentBytes indexInterval = .ok p) : p.NoRecords := by
  have missing : ([] : Dir).find? (fun files => files.baseOffset == 0) = none := rfl
  obtain ⟨s, new, holds, _, next, _, _⟩ := Segment.Holds.open_new missing le_rfl (by omega) maxSegmentBytes indexInterval
  have first : openPartition [] maxSegmentBytes indexInterval = .ok { unopened maxSegmentBytes indexInterval with
      activeSegment := some s
      nextOffset := s.nextOffset
      highWatermark := s.nextOffset } := by
    simp [openPartition, Partition.recover, listedBases, uniq, openSegments, unopened, new]
  rw [first] at opened
  cases opened
  refine ⟨next, ?_⟩
  intro files member
  simp only [Partition.dir, Partition.orderedSegments, unopened, List.nil_append, Option.toList_some, List.map_cons,
    List.map_nil,
    List.mem_singleton] at member
  rw [member]
  exact holds.log

theorem opening_of_mem_openTopic {opening : Opening} {i count : Nat} {opened : List (Int × Partition)} {id : Int}
    {p : Partition}
    (done : openTopic opening i count = .ok opened) (member : (id, p) ∈ opened) : opening id = .ok p := by
  induction count generalizing i opened with
  | zero =>
    cases done
    cases member
  | succ count ih =>
    rw [openTopic] at done
    split at done
    · cases done
    · rename_i first firstOpened
      split at done
      · cases done
      · rename_i rest restOpened
        cases done
        rcases List.mem_cons.mp member with same | inside
        · cases same
          exact firstOpened
        · exact ih restOpened inside

theorem partitionIds_setPartition (s : Store) (topic name : Bytes) (i : Int) (p : Partition) :
    ((s.setPartition topic i p).getTopic name).map (fun t => t.partitions.map Prod.fst) =
      (s.getTopic name).map fun t => t.partitions.map Prod.fst := by
  rw [Store.getTopic_setPartition, Option.map_map]
  congr 1
  funext t
  rw [Function.comp_apply]
  split
  · dsimp only
    rw [List.map_map]
    rfl
  · rfl

theorem getTopic_setPartition_none (s : Store) (topic name : Bytes) (i : Int) (p : Partition) :
    (s.setPartition topic i p).getTopic name = none ↔ s.getTopic name = none := by
  rw [Store.getTopic_setPartition, Option.map_eq_none_iff]

theorem getTopic_of_getPartition {s : Store} {name : Bytes} {i : Int} (found : (s.getPartition name i).isSome = true) :
    ∃ topic, s.getTopic name = some topic := by
  rw [Store.getPartition] at found
  cases topic : s.getTopic name with
  | none =>
    rw [topic] at found
    cases found
  | some t => exact ⟨t, rfl⟩

theorem partitionIds_of_some {topics : List (Bytes × Topic)} {name : Bytes} {t : Topic}
    (found : topics.lookup name = some t) :
    partitionIds topics name = t.partitions.map Prod.fst := by
  rw [partitionIds, found]
  rfl

theorem partitionIds_of_none {topics : List (Bytes × Topic)} {name : Bytes} (missing : topics.lookup name = none) :
    partitionIds topics name = [] := by
  rw [partitionIds, missing]
  rfl

theorem partitionIds_congr {topics topics' : List (Bytes × Topic)} {name : Bytes}
    (same : topics'.lookup name = topics.lookup name) :
    partitionIds topics' name = partitionIds topics name := by
  rw [partitionIds, same, partitionIds]

theorem lookup_of_partitionIds {topics : List (Bytes × Topic)} {name : Bytes} (some : partitionIds topics name ≠ []) :
    ∃ t, topics.lookup name = .some t ∧ partitionIds topics name = t.partitions.map Prod.fst := by
  cases found : topics.lookup name with
  | none => exact absurd (partitionIds_of_none found) some
  | some t => exact ⟨t, rfl, partitionIds_of_some found⟩

theorem Orderly.dirs {d : DataDir} {name : Bytes} {ids : List Int}
    (h : Orderly maxSegmentBytes indexInterval (d.lookup name) ids) (some : ids ≠ []) :
    ∃ ps : List (Int × Partition), d.subdirs name = DataStore.partitionDirs ps ∧ ps.map Prod.fst = ids ∧
      ∀ entry ∈ ps, Recoverable maxSegmentBytes indexInterval entry.1 entry.2 := by
  unfold DataDir.subdirs
  generalize d.lookup name = entry at h
  cases h with
  | missing => exact absurd rfl some
  | file => exact absurd rfl some
  | @topic ps recoverable => exact ⟨ps, rfl, rfl, recoverable⟩

theorem without_one (ps : List (Int × Partition)) (i : Int) :
    DataStore.without (DataStore.partitionDirs ps) [i] = DataStore.partitionDirs (ps.filter fun entry =>
      decide (entry.1 ≠ i)) := by
  rw [DataStore.without, DataStore.partitionDirs, DataStore.partitionDirs, List.filter_map]
  congr 1
  apply List.filter_congr
  rintro ⟨k, p⟩ _
  simp only [Function.comp_apply, List.map_cons, List.map_nil, List.mem_singleton, ne_eq, decide_not, Bool.not_inj_iff]
  exact decide_eq_decide.mpr ⟨fun same => formatInt_injective same, fun same => by rw [same]⟩

theorem storeFiles_partitionDirs (ps : List (Int × Partition)) (i : Int) (p : Partition) :
    Lifecycle.storeFiles (DataStore.partitionDirs ps) i p =
      DataStore.partitionDirs (ps.map fun entry => if entry.1 = i then (entry.1, p) else entry) := by
  rw [Lifecycle.storeFiles, DataStore.partitionDirs, DataStore.partitionDirs, List.map_map, List.map_map]
  apply List.map_congr_left
  rintro ⟨k, q⟩ _
  simp only [Function.comp_apply]
  by_cases same : k = i
  · subst same
    simp
  · have other : formatInt k ≠ formatInt i := fun equal => same (formatInt_injective equal)
    simp [same, other]

theorem map_fst_replace (ps : List (Int × Partition)) (i : Int) (p : Partition) :
    (ps.map fun entry => if entry.1 = i then (entry.1, p) else entry).map Prod.fst = ps.map Prod.fst := by
  rw [List.map_map]
  apply List.map_congr_left
  intro entry _
  rw [Function.comp_apply]
  split <;> rfl

theorem newStore_dir {d : DataDir} {r : DataStore}
    (done : DataStore.newStore maxSegmentBytes indexInterval d = .ok r) : r.dir = d := by
  unfold DataStore.newStore at done
  split at done
  · cases done
  · split at done
    · cases done
    · cases done
      rfl

end

namespace Lifecycle

variable {maxSegmentBytes indexInterval : Int} {clean : Bytes → Bytes} {s t : Lifecycle} {shadow : Store} {name : Bytes}

/-- The manifest gives every flagged name back as it is. -/
def Legible (clean : Bytes → Bytes) (s : Lifecycle) : Prop :=
  ∀ n, n ∈ s.data.store.compacted ∨ n ∈ s.manifest → clean n = n

theorem Legible.map_clean {names : List Bytes} (fixed : ∀ n ∈ names, clean n = n) : names.map clean = names := by
  rw [List.map_congr_left fixed]
  exact List.map_id' names

def flagged (s : Lifecycle) (name : Bytes) (compact : Bool) : List Bytes :=
  let others := s.data.store.compacted.filter fun n => decide (n ≠ name)
  if compact then name :: others else others

theorem Legible.flagged (h : s.Legible clean) {compact : Bool} (kept : compact = true → clean name = name) :
    ∀ n ∈ s.flagged name compact, clean n = n := by
  intro n member
  unfold Lifecycle.flagged at member
  split at member
  · rename_i set
    rcases List.mem_cons.mp member with rfl | other
    · exact kept set
    · exact h n (Or.inl (List.mem_filter.mp other).1)
  · exact h n (Or.inl (List.mem_filter.mp member).1)

/-- `shadow` has the topics in memory, and those that are being deleted with the partitions that still have directories. -/
structure Mirrors (maxSegmentBytes indexInterval : Int) (clean : Bytes → Bytes) (s : Lifecycle) (shadow : Store) : Prop where
  sound : DataStore.Sound maxSegmentBytes indexInterval ⟨shadow, s.data.dir⟩
  live : ∀ n topic, s.data.store.getTopic n = some topic →
    topic.partitions.map Prod.fst = partitionIds shadow.topics n ∧ topic.partitions ≠ []
  pending : ∀ (j : Nat) (d : Deletion), s.deleting[j]? = some d → d.left ≠ [] →
    s.data.store.getTopic d.name = none ∧ d.left = partitionIds shadow.topics d.name
  single : ∀ (j j' : Nat) (d d' : Deletion), s.deleting[j]? = some d → s.deleting[j']? = some d' →
    d.name = d'.name → d.left ≠ [] → d'.left ≠ [] → j = j'
  gone : ∀ n, s.data.store.getTopic n = none → partitionIds shadow.topics n ≠ [] →
    ∃ d ∈ s.deleting, d.name = n ∧ d.left ≠ []
  flags : ∀ n, partitionIds shadow.topics n ≠ [] → n ∈ s.data.store.compacted ∨ n ∈ s.manifest → n ∈ s.marked
  legible : s.Legible clean

namespace Mirrors

theorem live_ids (h : s.Mirrors maxSegmentBytes indexInterval clean shadow) {topic : Topic}
    (found : s.data.store.getTopic name = some topic) :
    partitionIds shadow.topics name ≠ [] := by
  obtain ⟨ids, filled⟩ := h.live name topic found
  rw [← ids, Ne, List.map_eq_nil_iff]
  exact filled

theorem absent (h : s.Mirrors maxSegmentBytes indexInterval clean shadow) (missing : s.data.store.getTopic name = none)
    (ended : ∀ d ∈ s.deleting, d.name = name → d.left = []) : shadow.getTopic name = none := by
  cases found : shadow.getTopic name with
  | none => rfl
  | some topic =>
    have ids : partitionIds shadow.topics name ≠ [] := by
      rw [partitionIds_of_some found, Ne, List.map_eq_nil_iff]
      exact (h.sound.named name topic found).1
    obtain ⟨d, member, named, left⟩ := h.gone name missing ids
    exact absurd (ended d member named) left

theorem birth (h : s.Mirrors maxSegmentBytes indexInterval clean shadow) (missing : s.data.store.getTopic name = none)
    (may : s.MayCreate name) {ps : List (Int × Partition)} {dir : DataDir}
    (sound : DataStore.Sound maxSegmentBytes indexInterval ⟨⟨(name, ⟨name, ps⟩) :: shadow.topics, shadow.compacted⟩, dir⟩) :
    Mirrors maxSegmentBytes indexInterval clean
      (s.born name ⟨⟨(name, ⟨name, ps⟩) :: s.data.store.topics, s.data.store.compacted⟩, dir⟩)
      ⟨(name, ⟨name, ps⟩) :: shadow.topics, shadow.compacted⟩ := by
  obtain ⟨ended, flag, listed⟩ := may.2 (by rw [missing]; rfl)
  have own : ∀ topics : List (Bytes × Topic), List.lookup name ((name, ⟨name, ps⟩) :: topics) = some ⟨name, ps⟩ := by
    intro topics
    rw [List.lookup_cons, beq_self_eq_true]
  have others : ∀ (topics : List (Bytes × Topic)) (n : Bytes), n ≠ name →
      List.lookup n ((name, ⟨name, ps⟩) :: topics) = topics.lookup n := by
    intro topics n differs
    rw [List.lookup_cons, beq_false_of_ne differs]
  have marked : (s.born name ⟨⟨(name, ⟨name, ps⟩) :: s.data.store.topics, s.data.store.compacted⟩, dir⟩).marked =
      s.marked.filter (fun n => decide (n ≠ name)) := by
    rw [born]
    dsimp only
    rw [if_pos]
    rw [missing, Store.getTopic, own]
    rfl
  refine ⟨sound, ?_, ?_, h.single, ?_, ?_, h.legible⟩
  · intro n topic found
    by_cases same : n = name
    · subst same
      cases (own _).symm.trans found
      exact ⟨(partitionIds_of_some (own _)).symm, (sound.named n _ (own _)).1⟩
    · rw [partitionIds_congr (others _ n same)]
      exact h.live n topic ((others _ n same).symm.trans found)
  · intro j d place left
    have differs : d.name ≠ name := fun same => left (ended d (List.mem_of_getElem? place) same)
    obtain ⟨away, ids⟩ := h.pending j d place left
    exact ⟨(others _ _ differs).trans away, ids.trans (partitionIds_congr (others _ _ differs)).symm⟩
  · intro n away ids
    have differs : n ≠ name := by
      rintro rfl
      cases (own _).symm.trans away
    rw [partitionIds_congr (others _ n differs)] at ids
    exact h.gone n ((others _ n differs).symm.trans away) ids
  · intro n ids said
    by_cases same : n = name
    · subst same
      exact absurd said (not_or.mpr ⟨flag, listed⟩)
    · rw [partitionIds_congr (others _ n same)] at ids
      rw [marked, List.mem_filter]
      exact ⟨h.flags n ids said, by simpa using same⟩

theorem delete (h : s.Mirrors maxSegmentBytes indexInterval clean shadow) {topic : Topic}
    (found : s.data.store.getTopic name = some topic) :
    Mirrors maxSegmentBytes indexInterval clean
      { s with
        data := { s.data with store := s.data.store.removeTopic name }
        deleting := s.deleting ++ [⟨name, topic.partitions.map Prod.fst⟩] } shadow := by
  have last : ∀ j d, (s.deleting ++ [⟨name, topic.partitions.map Prod.fst⟩])[j]? = some d →
      s.deleting[j]? = some d ∨ j = s.deleting.length ∧ d = ⟨name, topic.partitions.map Prod.fst⟩ := by
    intro j d place
    rw [List.getElem?_append] at place
    split at place
    · exact Or.inl place
    · rw [List.getElem?_singleton] at place
      split at place
      · cases place
        exact Or.inr ⟨by omega, rfl⟩
      · cases place
  refine ⟨h.sound, ?_, ?_, ?_, ?_, h.flags, h.legible⟩
  · intro n other there
    dsimp only at there
    rw [getTopic_removeTopic] at there
    split at there
    · cases there
    · exact h.live n other there
  · intro j d place left
    dsimp only
    rw [getTopic_removeTopic]
    rcases last j d place with old | ⟨_, rfl⟩
    · obtain ⟨away, ids⟩ := h.pending j d old left
      refine ⟨?_, ids⟩
      rw [away, ite_self]
    · exact ⟨if_pos rfl, (h.live name topic found).1⟩
  · intro j j' d d' place place' names left left'
    rcases last j d place with old | ⟨here, rfl⟩
    · rcases last j' d' place' with old' | ⟨here', rfl⟩
      · exact h.single j j' d d' old old' names left left'
      · have away := (h.pending j d old left).1
        rw [names, found] at away
        cases away
    · rcases last j' d' place' with old' | ⟨here', rfl⟩
      · have away := (h.pending j' d' old' left').1
        rw [← names, found] at away
        cases away
      · rw [here, here']
  · intro n away ids
    dsimp only at away ⊢
    by_cases same : n = name
    · subst same
      refine ⟨_, List.mem_append_right _ (List.mem_singleton.mpr rfl), rfl, ?_⟩
      rw [(h.live n topic found).1]
      exact ids
    · rw [getTopic_removeTopic, if_neg same] at away
      obtain ⟨d, member, rest⟩ := h.gone n away ids
      exact ⟨d, List.mem_append_left _ member, rest⟩

def dropPartition (topics : List (Bytes × Topic)) (name : Bytes) (i : Int) (t : Topic) : List (Bytes × Topic) :=
  let rest := t.partitions.filter fun entry => decide (entry.1 ≠ i)
  let others := topics.filter fun entry => decide (entry.1 ≠ name)
  match rest with
  | [] => others
  | head :: more => (name, ⟨name, head :: more⟩) :: others

theorem lookup_dropPartition_ne (topics : List (Bytes × Topic)) (i : Int) (t : Topic) {n : Bytes} (differs : n ≠ name) :
    (dropPartition topics name i t).lookup n = topics.lookup n := by
  rw [dropPartition]
  split
  · exact lookup_filter_ne differs
  · rw [List.lookup_cons, beq_false_of_ne differs]
    exact lookup_filter_ne differs

theorem lookup_dropPartition_self (topics : List (Bytes × Topic)) (i : Int) (t : Topic) :
    (dropPartition topics name i t).lookup name =
      if t.partitions.filter (fun entry => decide (entry.1 ≠ i)) = [] then none
      else some ⟨name, t.partitions.filter fun entry => decide (entry.1 ≠ i)⟩ := by
  rw [dropPartition]
  split
  · rename_i none
    rw [if_pos none, List.lookup_eq_none_iff]
    intro pair member
    have differs := (List.mem_filter.mp member).2
    simpa using fun equal => (of_decide_eq_true differs) (Eq.symm equal)
  · rename_i head more some
    rw [some, if_neg (List.cons_ne_nil _ _), List.lookup_cons, beq_self_eq_true]

theorem partitionIds_dropPartition (topics : List (Bytes × Topic)) (i : Int) (t : Topic) :
    partitionIds (dropPartition topics name i t) name = (t.partitions.map Prod.fst).filter fun k => decide (k ≠ i) := by
  rw [List.filter_map, partitionIds, lookup_dropPartition_self]
  split
  · rename_i none
    rw [show t.partitions.filter ((fun k => decide (k ≠ i)) ∘ Prod.fst) = [] from none]
    rfl
  · rfl

theorem removing (h : s.Mirrors maxSegmentBytes indexInterval clean shadow) {j : Nat} {d : Deletion}
    (place : s.deleting[j]? = some d) (left : d.left ≠ []) :
    ∃ topic, shadow.topics.lookup d.name = some topic ∧ d.left = topic.partitions.map Prod.fst := by
  have ids := (h.pending j d place left).2
  obtain ⟨topic, found, whole⟩ := lookup_of_partitionIds (ids ▸ left)
  exact ⟨topic, found, ids.trans whole⟩

theorem apart (h : s.Mirrors maxSegmentBytes indexInterval clean shadow) {j k : Nat} {d e : Deletion}
    (place : s.deleting[j]? = some d) (left : d.left ≠ []) (there : s.deleting[k]? = some e) (differs : k ≠ j)
    (some : e.left ≠ []) : e.name ≠ d.name := by
  intro same
  exact differs (h.single k j e d there place same some left)

theorem sound_dropPartition (h : s.Mirrors maxSegmentBytes indexInterval clean shadow) {d : Deletion} {topic : Topic}
    (found : shadow.topics.lookup d.name = some topic) (i : Int) :
    DataStore.Sound maxSegmentBytes indexInterval
      ⟨⟨dropPartition shadow.topics d.name i topic, shadow.compacted⟩,
        s.data.dir.put d.name (.dir (DataStore.without (s.data.dir.subdirs d.name) [i]))⟩ := by
  have named := h.sound.named d.name topic found
  have ids : partitionIds shadow.topics d.name = topic.partitions.map Prod.fst := partitionIds_of_some found
  obtain ⟨ps, dirs, own, recoverable⟩ := (h.sound.orderly d.name).dirs
    (by rw [ids, Ne, List.map_eq_nil_iff]; exact named.1)
  apply h.sound.put
  · exact fun n differs => lookup_dropPartition_ne _ _ _ differs
  · rw [dirs, without_one, partitionIds_dropPartition, ← ids, ← own, List.filter_map]
    apply Orderly.topic
    intro entry inside
    exact recoverable entry (List.mem_of_mem_filter inside)
  · intro t there
    rw [lookup_dropPartition_self] at there
    split at there
    · cases there
    · rename_i some
      cases there
      exact ⟨some, named.2⟩
  · exact fun _ => nofun
  · intro same subdirs
    exact absurd (same ▸ by decide : d.name ∈ brokerNames) named.2.2

theorem removeDir (h : s.Mirrors maxSegmentBytes indexInterval clean shadow) {j : Nat} {i : Int} {d : Deletion}
    (place : s.deleting[j]? = some d) (member : i ∈ d.left) :
    ∃ shadow, Mirrors maxSegmentBytes indexInterval clean
      { s with
        data := { s.data with
          dir := s.data.dir.put d.name (.dir (DataStore.without (s.data.dir.subdirs d.name) [i])) }
        deleting := s.deleting.set j { d with left := d.left.filter fun k => decide (k ≠ i) } } shadow := by
  have left : d.left ≠ [] := List.ne_nil_of_mem member
  have away := (h.pending j d place left).1
  obtain ⟨topic, found, ids⟩ := h.removing place left
  have shrunk : partitionIds (dropPartition shadow.topics d.name i topic) d.name =
      d.left.filter fun k => decide (k ≠ i) := by
    rw [partitionIds_dropPartition, ids]
  have others : ∀ {n}, n ≠ d.name →
      partitionIds (dropPartition shadow.topics d.name i topic) n = partitionIds shadow.topics n :=
    fun differs => partitionIds_congr (lookup_dropPartition_ne _ _ _ differs)
  refine ⟨⟨dropPartition shadow.topics d.name i topic, shadow.compacted⟩, h.sound_dropPartition found i,
    ?_, ?_, ?_, ?_, ?_, h.legible⟩
  · intro n t there
    have differs : n ≠ d.name := by
      rintro rfl
      rw [away] at there
      cases there
    rw [others differs]
    exact h.live n t there
  · intro k e there some
    rcases of_getElem?_set there with ⟨_, rfl⟩ | ⟨differs, old⟩
    · exact ⟨away, shrunk.symm⟩
    · rw [others (h.apart place left old differs some)]
      exact h.pending k e old some
  · intro k k' e e' there there' names some some'
    rcases of_getElem?_set there with ⟨rfl, rfl⟩ | ⟨differs, old⟩
    · rcases of_getElem?_set there' with ⟨rfl, _⟩ | ⟨differs', old'⟩
      · rfl
      · have other : e'.name ≠ d.name := h.apart place left old' differs' some'
        exact absurd names.symm other
    · rcases of_getElem?_set there' with ⟨rfl, rfl⟩ | ⟨differs', old'⟩
      · have other : e.name ≠ d.name := h.apart place left old differs some
        exact absurd names other
      · exact h.single k k' e e' old old' names some some'
  · intro n missing some
    by_cases same : n = d.name
    · subst same
      rw [shrunk] at some
      exact ⟨_, List.mem_set (List.getElem?_eq_some_iff.mp place).1 _, rfl, some⟩
    · rw [others same] at some
      obtain ⟨e, inside, named, rest⟩ := h.gone n missing some
      rcases mem_set_of_mem place inside with rfl | kept
      · exact absurd named.symm same
      · exact ⟨e, kept, named, rest⟩
  · intro n some said
    by_cases same : n = d.name
    · subst same
      exact h.flags d.name ((h.pending j d place left).2 ▸ left) said
    · rw [others same] at some
      exact h.flags n some said

theorem sound_write (h : s.Mirrors maxSegmentBytes indexInterval clean shadow) {i : Int} {p : Partition}
    (opens : (openPartition p.dir maxSegmentBytes indexInterval).isOk = true)
    (some : partitionIds shadow.topics name ≠ []) :
    DataStore.Sound maxSegmentBytes indexInterval
      ⟨shadow, s.data.dir.put name (.dir (storeFiles (s.data.dir.subdirs name) i p))⟩ := by
  obtain ⟨kept, stored, _⟩ := lookup_of_partitionIds some
  obtain ⟨ps, dirs, own, recoverable⟩ := (h.sound.orderly name).dirs some
  apply h.sound.put (fun _ _ => rfl)
  · rw [dirs, storeFiles_partitionDirs, ← own, ← map_fst_replace ps i p]
    apply Orderly.topic
    intro entry inside
    obtain ⟨old, before, rfl⟩ := List.mem_map.mp inside
    have bounds := recoverable old before
    split
    · refine ⟨bounds.1, ?_⟩
      cases result : openPartition p.dir maxSegmentBytes indexInterval with
      | error failure =>
        rw [result] at opens
        cases opens
      | ok q => exact ⟨q, rfl⟩
    · exact bounds
  · intro t other
    exact h.sound.named name t other
  · exact fun _ => nofun
  · intro same subdirs
    exact absurd (same ▸ by decide : name ∈ brokerNames) (h.sound.named name kept stored).2.2

theorem write (h : s.Mirrors maxSegmentBytes indexInterval clean shadow) {i : Int} {p : Partition}
    (opens : (openPartition p.dir maxSegmentBytes indexInterval).isOk = true)
    (found : (s.data.store.getPartition name i).isSome = true) :
    Mirrors maxSegmentBytes indexInterval clean
      { s with data :=
        ⟨s.data.store.setPartition name i p, s.data.dir.put name (.dir (storeFiles (s.data.dir.subdirs name) i p))⟩ }
      shadow := by
  obtain ⟨topic, there⟩ := getTopic_of_getPartition found
  refine ⟨h.sound_write opens (h.live_ids there), ?_, ?_, h.single, ?_, h.flags, h.legible⟩
  · intro n t other
    have ids := partitionIds_setPartition s.data.store name n i p
    dsimp only at other
    rw [other] at ids
    obtain ⟨before, old, equal⟩ := Option.map_eq_some_iff.mp ids.symm
    obtain ⟨shown, filled⟩ := h.live n before old
    dsimp only at equal
    rw [← equal]
    refine ⟨shown, ?_⟩
    intro none
    rw [none, List.map_nil, List.map_eq_nil_iff] at equal
    exact filled equal
  · intro j d place left
    obtain ⟨away, ids⟩ := h.pending j d place left
    exact ⟨(getTopic_setPartition_none ..).mpr away, ids⟩
  · intro n away
    exact h.gone n ((getTopic_setPartition_none ..).mp away)

theorem keep (h : s.Mirrors maxSegmentBytes indexInterval clean shadow) (reserved : name ∈ brokerNames) :
    Mirrors maxSegmentBytes indexInterval clean { s with data := ⟨s.data.store, s.data.dir.keep name⟩ } shadow :=
  ⟨h.sound.keep reserved, h.live, h.pending, h.single, h.gone, h.flags, h.legible⟩

theorem mark (h : s.Mirrors maxSegmentBytes indexInterval clean shadow) {compact : Bool}
    (kept : compact = true → clean name = name) (wrote : Bool) :
    Mirrors maxSegmentBytes indexInterval clean
      { s with
        data := ⟨{ s.data.store with compacted := s.flagged name compact },
          if wrote then s.data.dir.keep manifestName else s.data.dir⟩
        manifest := if wrote then (s.flagged name compact).map clean else s.manifest
        marked := if compact then name :: s.marked else s.marked } shadow := by
  have fixed := h.legible.flagged kept
  rw [Legible.map_clean fixed]
  -- a flag is the new one or an old one
  have origin : ∀ n ∈ s.flagged name compact, n ∈ (if compact then name :: s.marked else s.marked) ∨
      n ∈ s.data.store.compacted := by
    intro n member
    cases compact <;> simp [flagged] at member ⊢ <;> tauto
  have grows : ∀ n ∈ s.marked, n ∈ (if compact then name :: s.marked else s.marked) := by
    intro n member
    split
    · exact List.mem_cons_of_mem _ member
    · exact member
  refine ⟨?_, h.live, h.pending, h.single, h.gone, ?_, ?_⟩
  · dsimp only
    split
    · exact h.sound.keep (by decide)
    · exact h.sound
  · intro n some said
    have before : n ∈ s.flagged name compact ∨ n ∈ s.manifest := by
      cases wrote <;> simp at said <;> tauto
    rcases before with flag | listed
    · rcases origin n flag with now | old
      · exact now
      · exact grows n (h.flags n some (Or.inl old))
    · exact grows n (h.flags n some (Or.inr listed))
  · intro n said
    have before : n ∈ s.flagged name compact ∨ n ∈ s.manifest := by
      cases wrote <;> simp at said <;> tauto
    rcases before with flag | listed
    · exact fixed n flag
    · exact h.legible n (Or.inr listed)

theorem reopen (h : s.Mirrors maxSegmentBytes indexInterval clean shadow) {data : DataStore}
    (done : DataStore.newStore maxSegmentBytes indexInterval s.data.dir = .ok data) :
    Mirrors maxSegmentBytes indexInterval clean
      ⟨⟨{ data.store with compacted := s.manifest }, data.dir⟩, s.manifest, [], s.marked⟩ data.store := by
  obtain ⟨recovered, again, same⟩ := h.sound.newStore
  cases done.symm.trans again
  have filled : ∀ n t, data.store.getTopic n = some t → t.partitions ≠ [] ∧ validateTopicName n = .ok () ∧
    n ∉ brokerNames := by
    intro n t found
    have shown := (same n).2
    rw [found] at shown
    obtain ⟨before, stored⟩ := Option.isSome_iff_exists.mp shown.symm
    obtain ⟨some, rest⟩ := h.sound.named n before stored
    refine ⟨?_, rest⟩
    intro none
    have ids := (same n).1
    rw [partitionIds_of_some found, partitionIds_of_some stored, none] at ids
    exact some (List.map_eq_nil_iff.mp ids.symm)
  refine ⟨?_, ?_, nofun, nofun, ?_, ?_, fun n said => h.legible n (Or.inr (said.elim id id))⟩
  · dsimp only
    rw [newStore_dir done]
    refine ⟨h.sound.unique, ?_, filled, h.sound.files, h.sound.manifest⟩
    intro n
    dsimp only
    rw [(same n).1]
    exact h.sound.orderly n
  · intro n t found
    exact ⟨(partitionIds_of_some found).symm, (filled n t found).1⟩
  · intro n away some
    exact absurd (partitionIds_of_none away) some
  · intro n some said
    rw [(same n).1] at some
    exact h.flags n some (Or.inr (said.elim id id))

theorem born_self (s : Lifecycle) (name : Bytes) : s.born name s.data = s := by
  rw [born]
  cases s.data.store.getTopic name <;> rfl

theorem opens_new (h : s.Mirrors maxSegmentBytes indexInterval clean shadow) (missing : s.data.store.getTopic name = none)
    (may : s.MayCreate name) {count : Nat} {ps : List (Int × Partition)}
    (opened : openTopic (DataStore.opening maxSegmentBytes indexInterval s.data.dir name) 0 count = .ok ps) :
    ∀ entry ∈ ps, entry.2.NoRecords := by
  intro entry member
  have absent := h.absent missing (may.2 (by rw [missing]; rfl)).1
  have here : DataStore.opening maxSegmentBytes indexInterval s.data.dir name entry.1 = .ok entry.2 :=
    opening_of_mem_openTopic opened member
  rw [h.sound.opening_new absent may.1] at here
  exact noRecords_new here

theorem opens (h : s.Mirrors maxSegmentBytes indexInterval clean shadow) (may : s.MayCreate name)
    (missing : s.data.store.getTopic name = none) (count : Nat) :
    ∃ ps, openTopic (DataStore.opening maxSegmentBytes indexInterval s.data.dir name) 0 count = .ok ps :=
  h.sound.opens (h.absent missing (may.2 (by rw [missing]; rfl)).1) may.1 count

theorem asked (h : s.Mirrors maxSegmentBytes indexInterval clean shadow) (may : s.MayCreate name) {new : Option Topic}
    {data : DataStore} (asked : DataStore.Asked maxSegmentBytes indexInterval s.data name new data) :
    (∃ shadow, Mirrors maxSegmentBytes indexInterval clean (s.born name data) shadow) ∧
      ∀ topic, new = some topic → ∀ entry ∈ topic.partitions, entry.2.NoRecords := by
  cases asked with
  | idle => exact ⟨⟨shadow, (born_self s name).symm ▸ h⟩, nofun⟩
  | made valid missing filled opened =>
    have absent := h.absent missing (may.2 (by rw [missing]; rfl)).1
    obtain ⟨ps, again, sound⟩ := h.sound.create valid absent may.1 filled
    cases opened.symm.trans again
    refine ⟨⟨_, h.birth missing may sound⟩, ?_⟩
    intro topic same
    cases same
    exact h.opens_new missing may opened

theorem createTopic (h : s.Mirrors maxSegmentBytes indexInterval clean shadow) (may : s.MayCreate name) (partitions : Int) :
    (∃ shadow, Mirrors maxSegmentBytes indexInterval clean
      (s.born name (s.data.createTopic maxSegmentBytes indexInterval name partitions).2) shadow) ∧
      ∀ topic, (s.data.createTopic maxSegmentBytes indexInterval name partitions).1 = .ok topic →
        ∀ entry ∈ topic.partitions, entry.2.NoRecords := by
  obtain ⟨new, asked, answer⟩ := DataStore.createTopic_asked partitions (h.opens may)
  obtain ⟨after, fresh⟩ := h.asked may asked
  exact ⟨after, fun topic ok => fresh topic (answer topic ok)⟩

theorem ensureTopic (h : s.Mirrors maxSegmentBytes indexInterval clean shadow) (may : s.MayCreate name) (partitions : Int) :
    (∃ shadow, Mirrors maxSegmentBytes indexInterval clean
      (s.born name (s.data.ensureTopic maxSegmentBytes indexInterval name partitions).2) shadow) ∧
      ∀ topic, (s.data.ensureTopic maxSegmentBytes indexInterval name partitions).1 = .ok (topic, true) →
        ∀ entry ∈ topic.partitions, entry.2.NoRecords := by
  obtain ⟨new, asked, answer⟩ := DataStore.ensureTopic_asked partitions (h.opens may)
  obtain ⟨after, fresh⟩ := h.asked may asked
  exact ⟨after, fun topic ok => fresh topic (answer topic ok)⟩

theorem step (h : s.Mirrors maxSegmentBytes indexInterval clean shadow) {event : LifeEvent}
    (meets : Undisturbed clean s event) (done : Steps maxSegmentBytes indexInterval clean s event t) :
    ∃ shadow, t.Mirrors maxSegmentBytes indexInterval clean shadow := by
  cases event with
  | create name partitions =>
    cases done
    exact (h.createTopic meets partitions).1
  | ensure name partitions =>
    cases done
    exact (h.ensureTopic meets partitions).1
  | delete name =>
    rw [Steps, perform] at done
    split at done
    · cases done
      exact ⟨shadow, h⟩
    · rename_i topic found
      cases done
      exact ⟨shadow, h.delete found⟩
  | removeDir j i =>
    obtain ⟨d, place, found⟩ := Option.bind_eq_some_iff.mp done
    obtain ⟨member, same⟩ := Option.ite_none_right_eq_some.mp found
    cases same
    exact h.removeDir place member
  | write name i p =>
    obtain ⟨checks, same⟩ := Option.ite_none_right_eq_some.mp done
    rw [Bool.and_eq_true] at checks
    cases same
    exact ⟨shadow, h.write checks.1 checks.2⟩
  | mark name compact wrote =>
    cases done
    exact ⟨shadow, h.mark meets wrote⟩
  | broker name =>
    obtain ⟨reserved, same⟩ := Option.ite_none_right_eq_some.mp done
    cases same
    exact ⟨shadow, h.keep reserved⟩
  | reopen =>
    rw [Steps, perform] at done
    split at done
    · cases done
    · rename_i data opened
      cases done
      exact ⟨_, h.reopen opened⟩

theorem start : Mirrors maxSegmentBytes indexInterval clean empty ⟨[], []⟩ :=
  ⟨DataStore.sound_empty, nofun, nofun, nofun, fun _ _ some => absurd rfl some, fun _ some => absurd rfl some,
    fun _ said => absurd said (by simp [empty, DataStore.empty])⟩

end Mirrors

/-- While a topic is created only when no deletion of its name is under way and nothing says that it is compacted, every
topic has its directories and is found by a start, new ones have no records, and only a marked one is compacted. -/
theorem recreated_topics_clean (maxSegmentBytes indexInterval : Int) (clean : Bytes → Bytes) {s : Lifecycle}
    (run : Reaches (Undisturbed clean) (Steps maxSegmentBytes indexInterval clean) empty s) :
    (∃ data, DataStore.newStore maxSegmentBytes indexInterval s.data.dir = .ok data ∧
      ∀ name topic, s.data.store.getTopic name = some topic →
        (data.store.getTopic name).map (fun t => t.partitions.map Prod.fst) = some (topic.partitions.map Prod.fst)) ∧
    (∀ name topic, s.data.store.getTopic name = some topic → ∀ entry ∈ topic.partitions,
      formatInt entry.1 ∈ (s.data.dir.subdirs name).map Prod.fst) ∧
    (∀ name topic, s.data.store.getTopic name = some topic → name ∈ s.data.store.compacted → name ∈ s.marked) ∧
    ∀ name partitions, s.MayCreate name →
      (∀ topic, (s.data.createTopic maxSegmentBytes indexInterval name partitions).1 = .ok topic →
        ∀ entry ∈ topic.partitions, entry.2.NoRecords) ∧
      ∀ topic, (s.data.ensureTopic maxSegmentBytes indexInterval name partitions).1 = .ok (topic, true) →
        ∀ entry ∈ topic.partitions, entry.2.NoRecords := by
  obtain ⟨shadow, h⟩ : ∃ shadow, s.Mirrors maxSegmentBytes indexInterval clean shadow := by
    apply run.invariant ⟨_, Mirrors.start⟩
    rintro s event t ⟨shadow, h⟩ meets done
    exact h.step meets done
  refine ⟨?_, ?_, ?_, ?_⟩
  · obtain ⟨data, opened, same⟩ := h.sound.newStore
    refine ⟨data, opened, ?_⟩
    intro name topic found
    have ids := (h.live name topic found).1
    have some := h.live_ids found
    rw [← (same name).1] at ids some
    obtain ⟨again, there, whole⟩ := lookup_of_partitionIds some
    rw [Store.getTopic, there, ids, whole]
    rfl
  · intro name topic found entry member
    obtain ⟨ps, dirs, own, _⟩ := (h.sound.orderly name).dirs (h.live_ids found)
    dsimp only at dirs own
    rw [dirs, partitionDirs_names, own, ← (h.live name topic found).1]
    exact List.mem_map_of_mem (List.mem_map_of_mem member)
  · intro name topic found said
    exact h.flags name (h.live_ids found) (Or.inl said)
  · intro name partitions may
    exact ⟨(h.createTopic may partitions).2, (h.ensureTopic may partitions).2⟩

/-- What the JSON of a text comes back as, if every byte from 128 on stands alone. -/
def loneBytes (name : Bytes) : Bytes := name.flatMap fun b => if b < 128 then [b] else [0xef, 0xbf, 0xbd]

theorem recreated_topics_clean_twice :
    ∃ s, Reaches (Undisturbed loneBytes) (Steps 1048576 4096 loneBytes) empty s ∧
      (s.data.store.getTopic (ascii "t")).isSome = true ∧
      (ascii "t" ∈ s.data.store.compacted → ascii "t" ∈ s.marked) := by
  obtain ⟨s, run, here⟩ : ∃ s, Reaches (Undisturbed loneBytes) (Steps 1048576 4096 loneBytes) empty s ∧
      (s.data.store.getTopic (ascii "t")).isSome = true :=
    exists_reaches [.create (ascii "t") 2, .mark (ascii "t") true true, .delete (ascii "t"), .removeDir 0 1,
      .removeDir 0 0, .mark (ascii "t") false true, .create (ascii "t") 1, .reopen]
      (fun s event t (step : s.perform 1048576 4096 loneBytes event = some t) => step) (by decide +kernel)
  obtain ⟨topic, found⟩ := Option.isSome_iff_exists.mp here
  exact ⟨s, run, here, (recreated_topics_clean 1048576 4096 loneBytes run).2.2.1 _ topic found⟩

def isLost (data : Except Failure DataStore) (name : Bytes) : Bool :=
  match data with
  | .ok data => (data.store.getTopic name).isNone
  | .error _ => true

/-- A topic that is created while an older one is being deleted loses its directory and is not found by the next start;
a topic that is created after a compacted one was deleted is compacted; and so is one, after a start, whose name the
manifest has in the place of a name that is no UTF-8. -/
theorem recreated_topic_lost :
    (∃ s, Reaches (fun _ _ => True) (Steps 1048576 4096 loneBytes) empty s ∧
      ((s.data.store.getTopic (ascii "t")).isSome = true ∧
        isLost (DataStore.newStore 1048576 4096 s.data.dir) (ascii "t") = true)) ∧
    (∃ s, Reaches (fun _ _ => True) (Steps 1048576 4096 loneBytes) empty s ∧
      ((s.data.store.getTopic (ascii "t")).isSome = true ∧ ascii "t" ∈ s.data.store.compacted ∧ ascii "t" ∉ s.marked)) ∧
    ∃ s, Reaches (fun _ _ => True) (Steps 1048576 4096 loneBytes) empty s ∧
      ((s.data.store.getTopic [0xef, 0xbf, 0xbd]).isSome = true ∧ [0xef, 0xbf, 0xbd] ∈ s.data.store.compacted ∧
        [0xef, 0xbf, 0xbd] ∉ s.marked) := by
  refine ⟨?_, ?_, ?_⟩
  · exact exists_reaches [.create (ascii "t") 1, .delete (ascii "t"), .create (ascii "t") 1, .removeDir 0 0]
      (fun s event t (step : s.perform 1048576 4096 loneBytes event = some t) => step) (by decide +kernel)
  · exact exists_reaches [.create (ascii "t") 1, .mark (ascii "t") true true, .delete (ascii "t"), .removeDir 0 0,
      .create (ascii "t") 1]
      (fun s event t (step : s.perform 1048576 4096 loneBytes event = some t) => step) (by decide +kernel)
  · exact exists_reaches [.create [0xef, 0xbf, 0xbd] 1, .delete [0xef, 0xbf, 0xbd], .removeDir 0 0,
      .create [0xef, 0xbf, 0xbd] 1, .create [0xff] 1, .mark [0xff] true true, .reopen]
      (fun s event t (step : s.perform 1048576 4096 loneBytes event = some t) => step) (by decide +kernel)

end Lifecycle

end PocketKafka.Storage
