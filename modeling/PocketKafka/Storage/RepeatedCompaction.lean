import PocketKafka.Storage.CompactedLog
import PocketKafka.Storage.PartitionRuns

namespace PocketKafka.Storage

open Bytes Intervals Protocol Runs Survivors

/-- `n` compactions in a row that all return without an error and write only batches that fit. -/
inductive Compactions (p : Partition) : Nat → Partition → Prop
  | start : Compactions p 0 p
  | next {n : Nat} {q r : Partition} (clock : Clock) (before : Compactions p n q) (small : q.StagingFits)
      (done : q.compact clock = (.ok (), r)) : Compactions p (n + 1) r

def emptied (c : Content) : Content := (some (c.1.getD []), c.2)

theorem survivors_content (rs : List Record) :
    (survivors Record.key rs).map content = survivors Prod.fst (rs.map content) := by
  rw [survivors_map]
  rfl

theorem contents_eq_iff {p : Partition} :
    survivors Record.key p.records = p.records ↔ survivors Prod.fst p.contents = p.contents := by
  rw [survivors_eq_self_iff, survivors_eq_self_iff, Partition.contents, ← survivors_content, List.length_map,
    List.length_map]

theorem map_emptied {cs : List Content} (keyed : ∀ c ∈ cs, c.1 ≠ none) : cs.map emptied = cs := by
  rw [List.map_congr_left (g := id), List.map_id]
  rintro ⟨key, rest⟩ member
  cases key with
  | none => exact absurd rfl (keyed _ member)
  | some k => rfl

theorem emptied_keyed {cs : List Content} : ∀ c ∈ cs.map emptied, c.1 ≠ none := by
  intro c member
  obtain ⟨d, _, rfl⟩ := List.mem_map.mp member
  simp [emptied]

/-- What holds after some compactions: nothing has happened, or no null keys are left and, if there never
    were any, the log holds exactly the survivors. -/
structure AfterCompactions (p q : Partition) : Prop where
  keeps : ∃ closed active last, q.Keeps closed active last
  segment : q.maxSegmentBytes = p.maxSegmentBytes
  count : q.records.length ≤ p.records.length
  contents : (survivors Prod.fst p.contents = p.contents ∧ q.contents = p.contents) ∨
    survivors Prod.fst p.contents ≠ p.contents ∧ (∀ c ∈ q.contents, c.1 ≠ none) ∧
      ((∀ c ∈ p.contents, c.1 ≠ none) → q.contents = survivors Prod.fst p.contents)

theorem length_contents (p : Partition) : p.contents.length = p.records.length := List.length_map _

theorem after_first {p q : Partition} {closed : List (List Batch)} {active : Segment} {last : List Batch} {clock : Clock}
    (h : p.Keeps closed active last) (segment : p.maxSegmentBytes ≤ 4294967296)
    (count : p.records.length < 9223372036854775808) (small : p.StagingFits) (done : p.compact clock = (.ok (), q)) :
    AfterCompactions p q := by
  rcases h.compact_cases segment count small done with ⟨same, rfl⟩ | ⟨different, closed', active', last', keeps, _,
    contents, _, sameMax⟩
  · exact ⟨⟨closed, active, last, h⟩, rfl, le_rfl, Or.inl ⟨contents_eq_iff.mp same, rfl⟩⟩
  · have result : q.contents = (survivors Prod.fst p.contents).map emptied := by
      rw [contents, Partition.contents, ← survivors_content, List.map_map]
      rfl
    refine ⟨⟨closed', active', last', keeps⟩, sameMax, ?_, Or.inr ⟨mt contents_eq_iff.mpr different, ?_, ?_⟩⟩
    · have fewer : (survivors Prod.fst p.contents).length ≤ p.contents.length := (survivors_sublist _).length_le
      rw [← length_contents, ← length_contents, result, List.length_map]
      exact fewer
    · rw [result]
      exact emptied_keyed
    · intro keyed
      rw [result, map_emptied]
      exact fun c member => keyed c ((survivors_sublist _).subset member)

theorem AfterCompactions.next {p q r : Partition} {clock : Clock} (h : AfterCompactions p q)
    (segment : p.maxSegmentBytes ≤ 4294967296) (count : p.records.length < 9223372036854775808) (small : q.StagingFits)
    (done : q.compact clock = (.ok (), r)) : AfterCompactions p r := by
  obtain ⟨closed, active, last, keeps⟩ := h.keeps
  have fewer := h.count
  have again := after_first keeps (by rw [h.segment]; exact segment) (by omega) small done
  refine ⟨again.keeps, again.segment.trans h.segment, again.count.trans fewer, ?_⟩
  rcases h.contents with ⟨same, unchanged⟩ | ⟨different, keyed, latest⟩
  · rcases again.contents with ⟨_, unchanged'⟩ | ⟨different', _⟩
    · exact Or.inl ⟨same, unchanged'.trans unchanged⟩
    · rw [unchanged] at different'
      exact absurd same different'
  · right
    rcases again.contents with ⟨_, unchanged'⟩ | ⟨_, keyed', latest'⟩
    · rw [unchanged']
      exact ⟨different, keyed, latest⟩
    · refine ⟨different, keyed', fun noNulls => ?_⟩
      rw [latest' keyed, latest noNulls, survivors_idem]

/-- After any number of compactions the log holds exactly the latest record of each key and all records
    without a key, unchanged, if there was nothing to drop or no record without a key; else it does not. -/
theorem compactions_keep_latest {p q : Partition} {n : Nat} (stores : p.Stores)
    (decodes : ∀ raw ∈ p.storedBatches, Decodes raw) (segment : p.maxSegmentBytes ≤ 4294967296)
    (count : p.records.length < 9223372036854775808) (some : 0 < n) (run : Compactions p n q) :
    q.contents = survivors Prod.fst p.contents ↔
      survivors Prod.fst p.contents = p.contents ∨ ∀ c ∈ p.contents, c.1 ≠ none := by
  obtain ⟨closed, active, last, holds⟩ := stores
  have keeps := holds.keeps decodes
  have after : AfterCompactions p q := by
    induction run with
    | start => exact absurd some (Nat.lt_irrefl 0)
    | @next n middle _ _ before small done ih =>
      -- The first compaction starts from the log itself, a later one from what the others left.
      cases n with
      | zero =>
        cases before
        exact after_first keeps segment count small done
      | succ n => exact (ih (Nat.succ_pos n)).next segment count small done
  rcases after.contents with ⟨same, unchanged⟩ | ⟨different, keyed, latest⟩
  · rw [unchanged, same]
    simp
  · refine ⟨fun result => Or.inr fun c member null => ?_, fun condition => latest (condition.resolve_left different)⟩
    rw [result] at keyed
    exact keyed c (mem_survivors_of_none member null) null

instance (p : Partition) : Decidable p.StagingFits := inferInstanceAs (Decidable (_ → _))

def oneRecord (key : Option Bytes) (value : Bytes) : Bytes :=
  let body := 0 :: (putVarint 0 ++ putVarint 0 ++ nullable key ++ nullable (some value) ++ putUvarint 0)
  let record := putVarint body.length ++ body
  List.replicate 8 0 ++ putBE 4 (49 + record.length) ++ putBE 4 0 ++ [2] ++ putBE 4 0 ++ putBE 2 0 ++ putBE 4 0 ++
    List.replicate 30 0 ++ putBE 4 1 ++ record

/-- What the log and its first compaction have to meet. -/
def Compactable (p : Partition) : Prop :=
  (∀ raw ∈ p.storedBatches, Decodes raw) ∧ p.maxSegmentBytes ≤ 4294967296 ∧ p.records.length < 9223372036854775808 ∧
    p.StagingFits ∧ (p.compact (fun _ => 0)).1 = .ok ()

instance (p : Partition) : Decidable (Compactable p) := inferInstanceAs (Decidable (_ ∧ _ ∧ _ ∧ _ ∧ _))

theorem Compactable.compactions {p : Partition} (h : Compactable p) : Compactions p 1 (p.compact (fun _ => 0)).2 :=
  .next (fun _ => 0) .start h.2.2.2.1 (Prod.ext h.2.2.2.2 rfl)

def keyedBatches : List Bytes := [oneRecord (some [7]) [1], oneRecord (some [7]) [2]]

def nullKeyBatches : List Bytes := oneRecord none [0] :: keyedBatches

/-- A record without a key comes out of a compaction with an empty one. -/
theorem compaction_empties_null_key :
    ¬ ∀ (p q : Partition) (n : Nat), p.Stores → (∀ raw ∈ p.storedBatches, Decodes raw) →
      p.maxSegmentBytes ≤ 4294967296 → p.records.length < 9223372036854775808 → 0 < n → Compactions p n q →
      q.contents = survivors Prod.fst p.contents := by
  intro keepsSurvivors
  have meets : (openPartition [] 1000 100).map (fun empty =>
      let p := empty.appendAll nullKeyBatches
      decide (empty.AcceptsAll nullKeyBatches ∧ Compactable p ∧
        (p.compact (fun _ => 0)).2.contents ≠ survivors Prod.fst p.contents)) = .ok true := by decide +kernel
  rcases opened : openPartition [] 1000 100 with failure | empty
  · rw [opened] at meets
    cases meets
  · rw [opened] at meets
    simp only [Except.map, Except.ok.injEq, decide_eq_true_eq] at meets
    obtain ⟨accepted, compactable, differs⟩ := meets
    exact differs (keepsSurvivors _ _ 1 (stores_appendAll (by decide) opened accepted) compactable.1 compactable.2.1
      compactable.2.2.1
      (by decide) compactable.compactions)

theorem compactions_keep_latest_keyed :
    ∃ empty p, openPartition [] 1000 100 = .ok empty ∧ empty.appendAll keyedBatches = p ∧
      (p.compact (fun _ => 0)).2.contents = [(some [7], some [2], [])] ∧
      (p.compact (fun _ => 0)).2.contents = survivors Prod.fst p.contents := by
  have meets : (openPartition [] 1000 100).map (fun empty =>
      let p := empty.appendAll keyedBatches
      decide (empty.AcceptsAll keyedBatches ∧ Compactable p ∧
        (p.compact (fun _ => 0)).2.contents = [(some [7], some [2], [])] ∧
        ∀ c ∈ p.contents, c.1 ≠ none)) = .ok true := by decide +kernel
  rcases opened : openPartition [] 1000 100 with failure | empty
  · rw [opened] at meets
    cases meets
  · rw [opened] at meets
    simp only [Except.map, Except.ok.injEq, decide_eq_true_eq] at meets
    obtain ⟨accepted, compactable, result, keyed⟩ := meets
    exact ⟨empty, _, rfl, rfl, result, (compactions_keep_latest (stores_appendAll (by decide) opened accepted) compactable.1
      compactable.2.1 compactable.2.2.1 (by decide) compactable.compactions).mpr (Or.inr keyed)⟩

end PocketKafka.Storage
