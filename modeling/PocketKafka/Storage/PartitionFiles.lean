import PocketKafka.Lib.Decimal
import PocketKafka.Storage.CompactionSwap
import PocketKafka.Storage.CompactedLog

namespace PocketKafka.Storage

open Bytes Intervals

def logExtension : Bytes := ascii ".log"

def indexExtension : Bytes := ascii ".index"

@[irreducible] def segmentName (baseOffset : Int) (extension : Bytes) : Name := decimal 20 baseOffset.toNat ++ extension

def segmentBase (extension : Bytes) (name : Name) : Option Int :=
  if name.drop 20 = extension then (undecimal (name.take 20)).map Int.ofNat else none

def namedBase (name : Name) : Option Int := (segmentBase logExtension name).or (segmentBase indexExtension name)

def Directory.files (dir : Directory) : Dir :=
  (uniq ((dir.keys.filterMap namedBase).mergeSort (fun a b => decide (a ≤ b)))).map fun base =>
    ⟨base, dir.lookup (segmentName base logExtension), dir.lookup (segmentName base indexExtension), none⟩

def SegmentFiles.entries (files : SegmentFiles) : List (Name × Bytes) :=
  (files.log.map fun content => (segmentName files.baseOffset logExtension, content)).toList ++
    (files.index.map fun content => (segmentName files.baseOffset indexExtension, content)).toList

def directory (dir : Dir) : Directory :=
  (dir.flatMap SegmentFiles.entries).foldr (fun entry files => files.insert entry.1 entry.2) ∅

/-- `OpenPartition`: a swap that was interrupted is finished first. -/
def Disk.openPartition (d : Disk) (maxSegmentBytes indexInterval : Int) : Except Failure Partition :=
  Storage.openPartition d.applyCompactionSwap.dir.files maxSegmentBytes indexInterval

def InRange (baseOffset : Int) : Prop := 0 ≤ baseOffset ∧ baseOffset < 9223372036854775808

theorem InRange.fits {baseOffset : Int} (range : InRange baseOffset) : baseOffset.toNat < 10 ^ 20 := by
  have lower := range.1
  have upper := range.2
  omega

theorem segmentBase_segmentName {baseOffset : Int} (range : InRange baseOffset) (extension : Bytes) :
    segmentBase extension (segmentName baseOffset extension) = some baseOffset := by
  have size : (decimal 20 baseOffset.toNat).length = 20 := decimal_length 20 _
  have back : Int.ofNat baseOffset.toNat = baseOffset := Int.toNat_of_nonneg range.1
  rw [segmentBase, segmentName, List.drop_left' size, if_pos rfl, List.take_left' size, undecimal_decimal range.fits,
    Option.map_some, back]

theorem segmentBase_other (baseOffset : Int) {extension other : Bytes} (different : other ≠ extension) :
    segmentBase extension (segmentName baseOffset other) = none := by
  rw [segmentBase, segmentName, List.drop_left' (decimal_length 20 _), if_neg different]

theorem index_ne_log : indexExtension ≠ logExtension := by decide

theorem namedBase_log {baseOffset : Int} (range : InRange baseOffset) :
    namedBase (segmentName baseOffset logExtension) = some baseOffset := by
  rw [namedBase, segmentBase_segmentName range, Option.some_or]

theorem namedBase_index {baseOffset : Int} (range : InRange baseOffset) :
    namedBase (segmentName baseOffset indexExtension) = some baseOffset := by
  rw [namedBase, segmentBase_other _ index_ne_log, Option.none_or, segmentBase_segmentName range]

theorem log_ne_index (base other : Int) : segmentName base logExtension ≠ segmentName other indexExtension := by
  intro same
  have tails := congrArg (List.drop 20) same
  rw [segmentName, segmentName, List.drop_left' (decimal_length 20 _), List.drop_left' (decimal_length 20 _)] at tails
  exact index_ne_log tails.symm

theorem segmentName_inj {base other : Int} (range : InRange base) (range' : InRange other) {extension : Bytes} :
    segmentName base extension = segmentName other extension ↔ base = other := by
  constructor
  · intro same
    have heads := congrArg (segmentBase extension) same
    rw [segmentBase_segmentName range, segmentBase_segmentName range'] at heads
    exact Option.some.inj heads
  · rintro rfl
    rfl

theorem lookup_foldr {entries : List (Name × Bytes)} {name : Name} :
    (entries.foldr (fun entry files => files.insert entry.1 entry.2) (∅ : Directory)).lookup name =
      (entries.find? (fun entry => decide (entry.1 = name))).map Prod.snd := by
  induction entries with
  | nil => rfl
  | cons entry entries ih =>
    rw [List.foldr_cons]
    by_cases same : entry.1 = name
    · subst same
      rw [AList.lookup_insert, List.find?_cons_of_pos (by simp)]
      rfl
    · rw [AList.lookup_insert_ne (Ne.symm same), ih, List.find?_cons_of_neg (by simpa using same)]

structure LocalFiles (dir : Dir) : Prop where
  sorted : dir.Pairwise (fun f g => f.baseOffset < g.baseOffset)
  range : ∀ f ∈ dir, InRange f.baseOffset
  isLocal : ∀ f ∈ dir, f.remote = none
  log : ∀ f ∈ dir, f.log.isSome
  index : ∀ f ∈ dir, f.index.isSome

theorem mem_uniq {bases : List Int} {base : Int} : base ∈ uniq bases ↔ base ∈ bases := by
  induction bases using uniq.induct with
  | case1 => rfl
  | case2 b => rfl
  | case3 b rest ih =>
    rw [uniq, if_pos rfl, ih]
    simp
  | case4 a b rest different ih =>
    rw [uniq, if_neg different, List.mem_cons, ih, ← List.mem_cons]

theorem uniq_sorted {bases : List Int} (sorted : bases.Pairwise (· ≤ ·)) : (uniq bases).Pairwise (· < ·) := by
  induction bases using uniq.induct with
  | case1 => exact .nil
  | case2 b => exact List.pairwise_singleton _ _
  | case3 b rest ih =>
    rw [uniq, if_pos rfl]
    exact ih (List.pairwise_cons.mp sorted).2
  | case4 a b rest different ih =>
    obtain ⟨first, tail⟩ := List.pairwise_cons.mp sorted
    rw [uniq, if_neg different]
    apply List.Pairwise.cons _ (ih tail)
    intro c member
    have next := first b (by simp)
    rcases List.mem_cons.mp (mem_uniq.mp member) with rfl | later
    · omega
    · have order := (List.pairwise_cons.mp tail).1 c later
      omega

theorem listed_sorted (bases : List Int) :
    (uniq (bases.mergeSort (fun a b => decide (a ≤ b)))).Pairwise (· < ·) := by
  apply uniq_sorted
  have sorted : (bases.mergeSort (fun a b => decide (a ≤ b))).Pairwise (fun a b => decide (a ≤ b) = true) := by
    apply List.pairwise_mergeSort
    · simpa using fun a b c => Int.le_trans
    · simpa using Int.le_total
  simpa using sorted

namespace LocalFiles

variable {dir : Dir} {f : SegmentFiles}

theorem unique (h : LocalFiles dir) {g : SegmentFiles} (first : f ∈ dir) (second : g ∈ dir)
    (same : f.baseOffset = g.baseOffset) : f = g := by
  have nodup : (dir.map SegmentFiles.baseOffset).Nodup :=
    List.pairwise_map.mpr (h.sorted.imp fun less => ne_of_lt less)
  exact List.inj_on_of_nodup_map nodup first second same

theorem mem_entries {entry : Name × Bytes} : entry ∈ dir.flatMap SegmentFiles.entries ↔ ∃ f ∈ dir,
    (entry.1 = segmentName f.baseOffset logExtension ∧ f.log = some entry.2) ∨
      (entry.1 = segmentName f.baseOffset indexExtension ∧ f.index = some entry.2) := by
  rw [List.mem_flatMap]
  apply exists_congr
  intro f
  apply and_congr_right
  intro _
  rw [SegmentFiles.entries, List.mem_append, Option.mem_toList, Option.mem_toList,
    Option.map_eq_some_iff, Option.map_eq_some_iff]
  apply or_congr
  · constructor
    · rintro ⟨content, found, rfl⟩
      exact ⟨rfl, found⟩
    · rintro ⟨name, found⟩
      exact ⟨entry.2, found, by rw [← name]⟩
  · constructor
    · rintro ⟨content, found, rfl⟩
      exact ⟨rfl, found⟩
    · rintro ⟨name, found⟩
      exact ⟨entry.2, found, by rw [← name]⟩

theorem entries_unique (h : LocalFiles dir) {entry other : Name × Bytes} (first : entry ∈ dir.flatMap SegmentFiles.entries)
    (second : other ∈ dir.flatMap SegmentFiles.entries) (same : entry.1 = other.1) : entry.2 = other.2 := by
  obtain ⟨f, inside, ⟨name, content⟩ | ⟨name, content⟩⟩ := mem_entries.mp first
  · obtain ⟨g, inside', ⟨name', content'⟩ | ⟨name', content'⟩⟩ := mem_entries.mp second
    · rw [name, name', segmentName_inj (h.range f inside) (h.range g inside')] at same
      obtain rfl := h.unique inside inside' same
      exact Option.some.inj (content.symm.trans content')
    · rw [name, name'] at same
      exact absurd same (log_ne_index _ _)
  · obtain ⟨g, inside', ⟨name', content'⟩ | ⟨name', content'⟩⟩ := mem_entries.mp second
    · rw [name, name'] at same
      exact absurd same.symm (log_ne_index _ _)
    · rw [name, name', segmentName_inj (h.range f inside) (h.range g inside')] at same
      obtain rfl := h.unique inside inside' same
      exact Option.some.inj (content.symm.trans content')

theorem lookup_directory (h : LocalFiles dir) {name : Name} {content : Bytes} :
    (directory dir).lookup name = some content ↔ (name, content) ∈ dir.flatMap SegmentFiles.entries := by
  rw [directory, lookup_foldr, Option.map_eq_some_iff]
  constructor
  · rintro ⟨entry, found, rfl⟩
    have same : entry.1 = name := by simpa using List.find?_some found
    rw [← same]
    exact List.mem_of_find?_eq_some found
  · intro member
    cases found : (dir.flatMap SegmentFiles.entries).find? (fun entry => decide (entry.1 = name)) with
    | none =>
      have clash := List.find?_eq_none.mp found _ member
      simp at clash
    | some entry =>
      have same : entry.1 = name := by simpa using List.find?_some found
      exact ⟨entry, rfl, h.entries_unique (List.mem_of_find?_eq_some found) member same⟩

theorem lookup_log (h : LocalFiles dir) (member : f ∈ dir) :
    (directory dir).lookup (segmentName f.baseOffset logExtension) = f.log := by
  obtain ⟨content, found⟩ := Option.isSome_iff_exists.mp (h.log f member)
  rw [found, h.lookup_directory, mem_entries]
  exact ⟨f, member, Or.inl ⟨rfl, found⟩⟩

theorem lookup_index (h : LocalFiles dir) (member : f ∈ dir) :
    (directory dir).lookup (segmentName f.baseOffset indexExtension) = f.index := by
  obtain ⟨content, found⟩ := Option.isSome_iff_exists.mp (h.index f member)
  rw [found, h.lookup_directory, mem_entries]
  exact ⟨f, member, Or.inr ⟨rfl, found⟩⟩

theorem mem_directory (h : LocalFiles dir) {name : Name} : name ∈ directory dir ↔
    ∃ f ∈ dir, name = segmentName f.baseOffset logExtension ∨ name = segmentName f.baseOffset indexExtension := by
  rw [← AList.lookup_isSome, Option.isSome_iff_exists]
  constructor
  · rintro ⟨content, found⟩
    obtain ⟨f, inside, ⟨same, _⟩ | ⟨same, _⟩⟩ := mem_entries.mp (h.lookup_directory.mp found)
    · exact ⟨f, inside, Or.inl same⟩
    · exact ⟨f, inside, Or.inr same⟩
  · rintro ⟨f, inside, rfl | rfl⟩
    · rw [h.lookup_log inside]
      exact Option.isSome_iff_exists.mp (h.log f inside)
    · rw [h.lookup_index inside]
      exact Option.isSome_iff_exists.mp (h.index f inside)

theorem mem_bases (h : LocalFiles dir) {base : Int} :
    base ∈ (directory dir).keys.filterMap namedBase ↔ base ∈ dir.map SegmentFiles.baseOffset := by
  rw [List.mem_filterMap, List.mem_map]
  constructor
  · rintro ⟨name, listed, named⟩
    obtain ⟨f, inside, rfl | rfl⟩ := h.mem_directory.mp (AList.mem_keys.mpr listed)
    · rw [namedBase_log (h.range f inside)] at named
      exact ⟨f, inside, Option.some.inj named⟩
    · rw [namedBase_index (h.range f inside)] at named
      exact ⟨f, inside, Option.some.inj named⟩
  · rintro ⟨f, inside, rfl⟩
    exact ⟨_, AList.mem_keys.mp (h.mem_directory.mpr ⟨f, inside, Or.inl rfl⟩), namedBase_log (h.range f inside)⟩

theorem files_directory (h : LocalFiles dir) : (directory dir).files = dir := by
  have bases : uniq (((directory dir).keys.filterMap namedBase).mergeSort (fun a b => decide (a ≤ b))) =
      dir.map SegmentFiles.baseOffset := by
    apply List.Pairwise.eq_of_mem_iff (listed_sorted _) (List.pairwise_map.mpr h.sorted)
    intro base
    rw [mem_uniq, List.mem_mergeSort, h.mem_bases]
  rw [Directory.files, bases, List.map_map]
  conv_rhs => rw [← List.map_id dir]
  apply List.map_congr_left
  intro f inside
  have isLocal := h.isLocal f inside
  show SegmentFiles.mk _ _ _ _ = f
  rw [h.lookup_log inside, h.lookup_index inside, ← isLocal]

end LocalFiles

theorem Partition.Holds.localFiles {p : Partition} {closed : List (List Batch)} {active : Segment} {last : List Batch}
    (h : p.Holds closed active last) : LocalFiles p.dir := by
  have opened : ∀ f ∈ p.dir, ∃ s ∈ p.orderedSegments, ∃ bs, s.Holds bs ∧ f = s.files := by
    intro f member
    obtain ⟨s, inside, rfl⟩ := List.mem_map.mp member
    obtain ⟨bs, holds⟩ := h.exists_hold inside
    exact ⟨s, inside, bs, holds, rfl⟩
  constructor
  · have sorted := h.bases_sorted
    rw [← h.ordered] at sorted
    exact List.pairwise_map.mpr sorted
  · intro f member
    obtain ⟨s, _, bs, holds, rfl⟩ := opened f member
    exact ⟨holds.base, holds.base_le_next.trans_lt holds.next⟩
  · intro f member
    obtain ⟨s, _, bs, holds, rfl⟩ := opened f member
    exact holds.isLocal
  · intro f member
    obtain ⟨s, _, bs, holds, rfl⟩ := opened f member
    show s.logFile.isSome
    rw [holds.log]
    rfl
  · intro f member
    obtain ⟨s, _, bs, holds, rfl⟩ := opened f member
    obtain ⟨idx, found, _⟩ := holds.index
    show (s.index.map IndexFile.file).isSome
    rw [found]
    rfl

def fileNames (dir : Dir) : List Name :=
  dir.flatMap fun f => [segmentName f.baseOffset logExtension, segmentName f.baseOffset indexExtension]

end PocketKafka.Storage
