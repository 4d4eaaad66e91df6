import PocketKafka.Coordinator.SharedStore

namespace PocketKafka.Coordinator

open Bytes Runs

namespace SharedStore

variable {s s' : SharedStore} {e : SharedEvent} {i : Nat} {recs : List WalRecord}

/-- The offsets that the files hold, when the log has these records. -/
def durable (s : SharedStore) (recs : List WalRecord) : Offsets :=
  Journal.replay (writes recs) ((s.snapshot.map OffsetTable.offsets).getD fun _ => none)

def LeadsFrom (s : SharedStore) (f : Offsets) : Prop := Journal.replay (writes s.pending.flatten) f = s.table.offsets

/-- What is pending is in memory. The next reset, or the log as it is, leads to the offsets in memory, unless a
    compaction is still to encode them. -/
structure Synced (s : SharedStore) (recs : List WalRecord) : Prop where
  file : s.wal = batchBytes recs
  proper : ∀ rec ∈ recs, rec.Proper
  pending : ∀ batch ∈ s.pending, ∀ rec ∈ batch, rec.Proper
  alone : s.pending.length ≤ 1
  reflected : s.LeadsFrom s.table.offsets
  single : s.encoding.length ≤ 1
  encoded : s.owed = false → ∀ t ∈ s.encoding, s.LeadsFrom t.offsets
  settled : s.owed = false → s.encoding.length = 0 → s.LeadsFrom (s.durable recs)

theorem calls_at {calls : List StoreCall} {own : StoreCall} (found : calls[i]? = some own) :
    ∃ front back, calls = front ++ own :: back ∧ (∀ next, calls.set i next = front ++ next :: back) ∧
      calls.eraseIdx i = front ++ back := by
  obtain ⟨bound, rfl⟩ := List.getElem?_eq_some_iff.mp found
  refine ⟨calls.take i, calls.drop (i + 1), ?_, fun next => ?_, List.eraseIdx_eq_take_drop_succ calls i⟩
  · rw [List.cons_getElem_drop_succ, List.take_append_drop]
  · exact List.set_eq_take_append_cons_drop.trans (if_pos bound)

theorem synced_opened (snapshot : Option OffsetTable) (proper : ∀ rec ∈ recs, rec.Proper)
    (kept : walCompactThreshold ≤ recs.length → ((snapshot.getD .empty).write (writes recs)).Kept) :
    ∃ left, (opened snapshot recs).Synced left := by
  unfold opened
  dsimp only
  split
  · rename_i long
    refine ⟨[], rfl, fun _ clash => absurd clash List.not_mem_nil, fun _ clash => absurd clash List.not_mem_nil,
      Nat.zero_le _, rfl, Nat.zero_le _, fun _ _ clash => absurd clash List.not_mem_nil, fun _ _ => ?_⟩
    exact (kept long).gob_offsets
  · refine ⟨recs, rfl, proper, fun _ clash => absurd clash List.not_mem_nil, Nat.zero_le _, rfl,
      Nat.zero_le _, fun _ _ clash => absurd clash List.not_mem_nil, fun _ _ => ?_⟩
    cases snapshot <;> rfl

theorem Synced.idle (h : s.Synced recs) (table : s'.table.offsets = s.table.offsets) (snapshot : s'.snapshot = s.snapshot)
    (wal : s'.wal = s.wal) (pending : s'.pending = s.pending) (encoding : s'.encoding = s.encoding)
    (owed : s'.owed = false → s.owed = false) : s'.Synced recs := by
  have leads : ∀ f, s.LeadsFrom f → s'.LeadsFrom f := by
    intro f leads
    rw [LeadsFrom, pending, table]
    exact leads
  constructor
  · rw [wal]
    exact h.file
  · exact h.proper
  · rw [pending]
    exact h.pending
  · rw [pending]
    exact h.alone
  · rw [table]
    exact leads _ h.reflected
  · rw [encoding]
    exact h.single
  · intro free t member
    rw [encoding] at member
    exact leads _ (h.encoded (owed free) t member)
  · intro free none
    rw [encoding] at none
    rw [durable, snapshot]
    exact leads _ (h.settled (owed free) none)

theorem Synced.commitBatch {now : Int64} {records : List OffsetCommitRecord} (h : s.Synced recs)
    (found : s.calls[i]? = some (.request (.commitBatch now records))) (free : s.pending.length = 0)
    (fit : ∀ record ∈ records, (record.logged now).Fits) :
    Synced { s with
      table := s.table.write (records.map fun r => (r.key, r.stamped now))
      calls := s.calls.set i (.append (records.map (OffsetCommitRecord.logged now))) } recs := by
  obtain ⟨front, back, calls, set, -⟩ := calls_at found
  have nothing : s.pending = [] := List.length_eq_zero_iff.mp free
  obtain ⟨before, after⟩ : front.flatMap StoreCall.appends = [] ∧ back.flatMap StoreCall.appends = [] := by
    rw [SharedStore.pending, calls, List.flatMap_append, List.flatMap_cons] at nothing
    simpa [StoreCall.appends] using nothing
  rw [set]
  have pending : (front ++ StoreCall.append (records.map (OffsetCommitRecord.logged now)) :: back).flatMap
    StoreCall.appends =
      [records.map (OffsetCommitRecord.logged now)] := by
    rw [List.flatMap_append, List.flatMap_cons, before, after]
    rfl
  have encoding : (front ++ StoreCall.append (records.map (OffsetCommitRecord.logged now)) :: back).flatMap
    StoreCall.encoded =
      s.encoding := by
    rw [SharedStore.encoding, calls, List.flatMap_append, List.flatMap_cons, List.flatMap_append, List.flatMap_cons]
    rfl
  have owed : (front ++ StoreCall.append (records.map (OffsetCommitRecord.logged now)) :: back).any StoreCall.owes =
    s.owed := by
    rw [SharedStore.owed, calls, List.any_append, List.any_cons, List.any_append, List.any_cons]
    rfl
  -- whatever led to memory before leads to it now
  have leads : ∀ f, s.LeadsFrom f → Journal.replay (writes [records.map (OffsetCommitRecord.logged now)].flatten) f =
      Journal.replay (records.map fun r => (r.key, r.stamped now)) s.table.offsets := by
    intro f leads
    rw [LeadsFrom, nothing] at leads
    rw [List.flatten_singleton, writes_logged, ← leads]
    rfl
  constructor
  · exact h.file
  · exact h.proper
  · intro batch member rec inside
    rw [SharedStore.pending, pending, List.mem_singleton] at member
    subst member
    obtain ⟨record, own, rfl⟩ := List.mem_map.mp inside
    exact ⟨fit record own, rfl⟩
  · rw [SharedStore.pending, pending]
    exact le_refl 1
  · rw [LeadsFrom, SharedStore.pending, pending, List.flatten_singleton, writes_logged]
    exact Journal.replay_replay _ _
  · rw [SharedStore.encoding, encoding]
    exact h.single
  · intro clear t member
    rw [SharedStore.owed, owed] at clear
    rw [SharedStore.encoding, encoding] at member
    rw [LeadsFrom, SharedStore.pending, pending]
    exact leads _ (h.encoded clear t member)
  · intro clear none
    rw [SharedStore.owed, owed] at clear
    rw [SharedStore.encoding, encoding] at none
    rw [LeadsFrom, SharedStore.pending, pending]
    exact leads _ (h.settled clear none)

theorem calls_replaced {front back : List StoreCall} {own : StoreCall} (next : StoreCall)
    (calls : s.calls = front ++ own :: back)
    (appends : next.appends = own.appends) (encoded : next.encoded = own.encoded) :
    (front ++ next :: back).flatMap StoreCall.appends = s.pending ∧
      (front ++ next :: back).flatMap StoreCall.encoded = s.encoding := by
  rw [pending, encoding, calls]
  simp [appends, encoded]

theorem calls_erased {front back : List StoreCall} {own : StoreCall} (calls : s.calls = front ++ own :: back)
    (appends : own.appends = []) (encoded : own.encoded = []) :
    (front ++ back).flatMap StoreCall.appends = s.pending ∧ (front ++ back).flatMap StoreCall.encoded = s.encoding := by
  rw [pending, encoding, calls]
  simp [appends, encoded]

theorem owed_erased {front back : List StoreCall} {own : StoreCall} (calls : s.calls = front ++ own :: back)
    (owes : own.owes = false) (clear : (front ++ back).any StoreCall.owes = false) : s.owed = false := by
  rw [owed, calls, List.any_append, List.any_cons, owes, Bool.false_or, ← List.any_append]
  exact clear

theorem Synced.done {own : StoreCall} (h : s.Synced recs) (found : s.calls[i]? = some own) (appends : own.appends = [])
    (encoded : own.encoded = []) (owes : own.owes = false) (compacting : Bool) :
    Synced { s with compacting := compacting, calls := s.calls.eraseIdx i } recs := by
  obtain ⟨front, back, calls, -, erase⟩ := calls_at found
  obtain ⟨pending, encoding⟩ := calls_erased calls appends encoded
  rw [erase]
  exact h.idle rfl rfl rfl pending encoding (owed_erased calls owes)

theorem Synced.deletes {own : StoreRequest} (h : s.Synced recs) (found : s.calls[i]? = some (.request own))
    (free : s.pending.length = 0) (keep : OffsetKey → CommittedOffset → Bool) : (s.deletes i keep).Synced recs := by
  obtain ⟨front, back, calls, set, erase⟩ := calls_at found
  unfold SharedStore.deletes
  split
  · -- memory has lost entries; the compaction is owed
    have nothing : s.pending = [] := List.length_eq_zero_iff.mp free
    rw [set]
    obtain ⟨pending, encoding⟩ := calls_replaced (.compact false) calls rfl rfl
    have owed : (front ++ StoreCall.compact false :: back).any StoreCall.owes = true := by
      rw [List.any_append, List.any_cons]
      simp [StoreCall.owes]
    constructor
    · exact h.file
    · exact h.proper
    · rw [SharedStore.pending, pending]
      exact h.pending
    · rw [SharedStore.pending, pending]
      exact h.alone
    · rw [LeadsFrom, SharedStore.pending, pending, nothing]
      rfl
    · rw [SharedStore.encoding, encoding]
      exact h.single
    · intro clear
      rw [SharedStore.owed, owed] at clear
      cases clear
    · intro clear
      rw [SharedStore.owed, owed] at clear
      cases clear
  · rename_i none
    obtain ⟨pending, encoding⟩ := calls_erased calls rfl rfl
    rw [erase]
    exact h.idle (OffsetTable.retain_of_drops (Bool.eq_false_iff.mpr none)) rfl rfl pending encoding
      (owed_erased calls rfl)

theorem Synced.appended {batch : List WalRecord} (h : s.Synced recs) (found : s.calls[i]? = some (.append batch))
    (unlocked : s.encoding.length = 0) : (s.appended i batch).Synced (recs ++ batch) := by
  obtain ⟨front, back, calls, -, erase⟩ := calls_at found
  have parts : s.pending = front.flatMap StoreCall.appends ++ batch :: back.flatMap StoreCall.appends := by
    rw [SharedStore.pending, calls, List.flatMap_append, List.flatMap_cons]
    rfl
  have lone := h.alone
  rw [parts, List.length_append, List.length_cons] at lone
  have before : front.flatMap StoreCall.appends = [] := List.length_eq_zero_iff.mp (by omega)
  have after : back.flatMap StoreCall.appends = [] := List.length_eq_zero_iff.mp (by omega)
  have only : s.pending = [batch] := by
    rw [parts, before, after]
    rfl
  have encoding : (front ++ back).flatMap StoreCall.encoded = s.encoding := by
    rw [SharedStore.encoding, calls, List.flatMap_append, List.flatMap_append, List.flatMap_cons]
    rfl
  unfold SharedStore.appended
  rw [erase]
  dsimp only
  generalize extra : (if (decide (walCompactThreshold ≤ s.walN + batch.length) && !s.compacting) = true
    then [StoreCall.compact true] else []) = more
  have quiet : more.flatMap StoreCall.appends = [] ∧ more.flatMap StoreCall.encoded = [] := by
    rw [← extra]
    split <;> exact ⟨rfl, rfl⟩
  have pending : (front ++ back ++ more).flatMap StoreCall.appends = [] := by
    rw [List.flatMap_append, List.flatMap_append, before, after, quiet.1]
    rfl
  have locks : (front ++ back ++ more).flatMap StoreCall.encoded = [] := by
    rw [List.flatMap_append, encoding, quiet.2, List.length_eq_zero_iff.mp unlocked]
    rfl
  constructor
  · show s.wal ++ batchBytes batch = _
    rw [h.file, batchBytes_append]
  · intro rec member
    rcases List.mem_append.mp member with earlier | new
    · exact h.proper rec earlier
    · exact h.pending batch (by rw [only]; exact List.mem_singleton_self _) rec new
  · intro batch member
    rw [SharedStore.pending, pending] at member
    cases member
  · rw [SharedStore.pending, pending]
    exact Nat.zero_le _
  · rw [LeadsFrom, SharedStore.pending, pending]
    rfl
  · rw [SharedStore.encoding, locks]
    exact Nat.zero_le _
  · intro _ t member
    rw [SharedStore.encoding, locks] at member
    cases member
  · intro clear _
    have free : s.owed = false := by
      apply owed_erased calls rfl
      rw [SharedStore.owed, List.any_append] at clear
      exact (Bool.or_eq_false_iff.mp clear).1
    have settled := h.settled free unlocked
    rw [LeadsFrom, only, List.flatten_singleton] at settled
    rw [LeadsFrom, SharedStore.pending, pending, durable, writes_append, Journal.replay_append]
    exact settled

theorem Synced.encode {async : Bool} (h : s.Synced recs) (found : s.calls[i]? = some (.compact async))
    (unlocked : s.encoding.length = 0) (kept : s.table.Kept) :
    Synced { s with calls := s.calls.set i (.reset s.table.gob async) } recs := by
  obtain ⟨front, back, calls, set, -⟩ := calls_at found
  rw [set]
  have pending : (front ++ StoreCall.reset s.table.gob async :: back).flatMap StoreCall.appends = s.pending := by
    rw [SharedStore.pending, calls]
    simp [StoreCall.appends]
  have encoding : (front ++ StoreCall.reset s.table.gob async :: back).flatMap StoreCall.encoded = [s.table.gob] := by
    have none : s.encoding = [] := List.length_eq_zero_iff.mp unlocked
    rw [SharedStore.encoding, calls] at none
    simp only [List.flatMap_append, List.flatMap_cons, List.append_eq_nil_iff] at none
    rw [List.flatMap_append, List.flatMap_cons, none.1, none.2.2]
    rfl
  constructor
  · exact h.file
  · exact h.proper
  · rw [SharedStore.pending, pending]
    exact h.pending
  · rw [SharedStore.pending, pending]
    exact h.alone
  · rw [LeadsFrom, SharedStore.pending, pending]
    exact h.reflected
  · rw [SharedStore.encoding, encoding]
    exact le_refl 1
  · intro _ t member
    rw [SharedStore.encoding, encoding, List.mem_singleton] at member
    subst member
    rw [LeadsFrom, SharedStore.pending, pending, kept.gob_offsets]
    exact h.reflected
  · intro _ none
    rw [SharedStore.encoding, encoding] at none
    cases none

theorem Synced.reset {t : OffsetTable} {async : Bool} (h : s.Synced recs) (found : s.calls[i]? = some (.reset t async)) :
    Synced { s with
      snapshot := some t
      wal := []
      walN := 0
      calls := if async then s.calls.set i .finish else s.calls.eraseIdx i } [] := by
  obtain ⟨front, back, calls, set, erase⟩ := calls_at found
  have parts : s.encoding = front.flatMap StoreCall.encoded ++ t :: back.flatMap StoreCall.encoded := by
    rw [SharedStore.encoding, calls, List.flatMap_append, List.flatMap_cons]
    rfl
  have lone := h.single
  rw [parts, List.length_append, List.length_cons] at lone
  have before : front.flatMap StoreCall.encoded = [] := List.length_eq_zero_iff.mp (by omega)
  have after : back.flatMap StoreCall.encoded = [] := List.length_eq_zero_iff.mp (by omega)
  rw [set, erase]
  generalize next : (if async = true then front ++ StoreCall.finish :: back else front ++ back) = left
  have pending : left.flatMap StoreCall.appends = s.pending := by
    rw [SharedStore.pending, calls, ← next]
    split <;> simp [StoreCall.appends]
  have encoding : left.flatMap StoreCall.encoded = [] := by
    rw [← next]
    split
    · rw [List.flatMap_append, List.flatMap_cons, before, after]
      rfl
    · rw [List.flatMap_append, before, after]
      rfl
  have owed : left.any StoreCall.owes = s.owed := by
    rw [SharedStore.owed, calls, ← next]
    split <;> simp [StoreCall.owes]
  constructor
  · rfl
  · exact fun _ clash => absurd clash List.not_mem_nil
  · rw [SharedStore.pending, pending]
    exact h.pending
  · rw [SharedStore.pending, pending]
    exact h.alone
  · rw [LeadsFrom, SharedStore.pending, pending]
    exact h.reflected
  · rw [SharedStore.encoding, encoding]
    exact Nat.zero_le _
  · intro _ t member
    rw [SharedStore.encoding, encoding] at member
    cases member
  · intro clear _
    rw [SharedStore.owed, owed] at clear
    rw [LeadsFrom, SharedStore.pending, pending]
    exact h.encoded clear t (by rw [parts]; simp)

theorem Synced.step (h : s.Synced recs) (ordered : s.Ordered e) (step : s.Steps e s') : ∃ kept, s'.Synced kept := by
  cases e with
  | call request =>
    cases step
    refine ⟨recs, h.idle rfl rfl rfl ?_ ?_ ?_⟩
    · simp [SharedStore.pending, StoreCall.appends]
    · simp [SharedStore.encoding, StoreCall.encoded]
    · simp [SharedStore.owed, StoreCall.owes]
  | advance i =>
    unfold Steps perform at step
    unfold Ordered at ordered
    dsimp only at step ordered
    split at step
    · cases step
    · rename_i now records found
      simp only [found] at ordered
      split at step
      · cases step
        exact ⟨recs, h.done found rfl rfl rfl _⟩
      · cases step
        exact ⟨recs, h.commitBatch found ordered.1 ordered.2⟩
    · rename_i group found
      simp only [found] at ordered
      cases step
      exact ⟨recs, h.deletes found ordered _⟩
    · rename_i found
      cases step
      exact ⟨recs, h.done found rfl rfl rfl _⟩
    · rename_i cut found
      simp only [found] at ordered
      cases step
      exact ⟨recs, h.deletes found ordered _⟩
    · rename_i found
      cases step
      obtain ⟨front, back, calls, set, -⟩ := calls_at found
      obtain ⟨pending, encoding⟩ := calls_replaced (.compact false) calls rfl rfl
      rw [set]
      refine ⟨recs, h.idle rfl rfl rfl pending encoding fun clear => ?_⟩
      simp [SharedStore.owed, StoreCall.owes] at clear
    · rename_i batch found
      split at step
      · cases step
        exact ⟨_, h.appended found (by assumption)⟩
      · cases step
    · rename_i async found
      simp only [found] at ordered
      split at step
      · cases step
        exact ⟨recs, h.encode found (by assumption) ordered⟩
      · cases step
    · rename_i t async found
      cases step
      exact ⟨[], h.reset found⟩
    · rename_i found
      split at step
      · cases step
        exact ⟨recs, h.done found rfl rfl rfl _⟩
      · cases step

theorem Synced.reopened (h : s.Synced recs) :
    ∃ store, newOffsetStore (s.snapshot.map OffsetTable.offsets) s.wal = .ok store ∧ store.offsets = s.durable recs := by
  have read : replay s.wal = .ok recs := by
    have all := replay_batchBytes (fun rec member => (h.proper rec member).fits) []
    rw [List.append_nil] at all
    rw [h.file, all, replay_nil]
    simp [Except.map]
  refine ⟨OffsetStore.replayWAL ⟨(s.snapshot.map OffsetTable.offsets).getD fun _ => none, 0, false⟩ recs, ?_, ?_⟩
  · rw [newOffsetStore, read]
    rfl
  · rw [OffsetStore.replayWAL, commits_of_proper h.proper]
    rfl

/-- Once all calls have returned, a new store on the files has the offsets in memory. -/
theorem memory_on_disk (snapshot : Option OffsetTable) (recs : List WalRecord) (proper : ∀ rec ∈ recs, rec.Proper)
    (kept : walCompactThreshold ≤ recs.length → ((snapshot.getD .empty).write (writes recs)).Kept)
    (s : SharedStore) (run : Reaches Ordered Steps (opened snapshot recs) s) (returned : s.calls = []) :
    ∃ store, newOffsetStore (s.snapshot.map OffsetTable.offsets) s.wal = .ok store ∧ store.offsets = s.table.offsets := by
  obtain ⟨left, synced⟩ : ∃ left, s.Synced left := by
    apply run.invariant (synced_opened snapshot proper kept)
    rintro s e s' ⟨recs, h⟩ ordered step
    exact h.step ordered step
  obtain ⟨store, opened, offsets⟩ := synced.reopened
  refine ⟨store, opened, offsets.trans ?_⟩
  have settled := synced.settled (by rw [owed, returned]; rfl) (by rw [encoding, returned]; rfl)
  rw [LeadsFrom, pending, returned] at settled
  exact settled

theorem memory_on_disk_deleted : ∃ s : SharedStore, Reaches Ordered Steps (opened none []) s ∧ s.calls = [] ∧
    ∃ store, newOffsetStore (s.snapshot.map OffsetTable.offsets) s.wal = .ok store ∧ store.offsets = s.table.offsets := by
  have run : ∃ s : SharedStore, Reaches Ordered Steps (opened none []) s ∧ s.calls.length = 0 :=
    exists_reaches [.call (.commitBatch 9 [progress 3]), .advance 0, .advance 0, .call (.deleteGroup (ascii "g")),
      .advance 0, .call (.commitBatch 9 [progress 4]), .advance 1, .advance 0, .advance 0, .advance 0]
      (fun _ _ _ done => done) (by decide +kernel)
  obtain ⟨s, run, nobody⟩ := run
  have returned := List.length_eq_zero_iff.mp nobody
  have short : ¬ walCompactThreshold ≤ ([] : List WalRecord).length := by decide
  exact ⟨s, run, returned,
    memory_on_disk none [] (fun _ clash => absurd clash List.not_mem_nil) (fun long => absurd long short) s run returned⟩

def remark : OffsetCommitRecord := ⟨⟨ascii "g", ascii "t", 0⟩, ⟨3, some [], 0, 0⟩⟩

/-- Two commits reach memory in one order and the log in the other; and a compaction loses an empty text. -/
theorem older_commit_on_disk :
    (∃ s : SharedStore, Reaches (fun _ _ => True) Steps (opened none []) s ∧ s.calls.length = 0 ∧
      s.table.offsets (progress 4).key = some ⟨4, none, 0, 9⟩ ∧
      (newOffsetStore (s.snapshot.map OffsetTable.offsets) s.wal).map (fun store => store.fetch (progress 4).key) =
        .ok (some ⟨3, none, 0, 9⟩)) ∧
    ∃ s : SharedStore, Reaches (fun _ _ => True) Steps (opened none []) s ∧ s.calls.length = 0 ∧
      s.table.offsets remark.key = some ⟨3, some [], 0, 9⟩ ∧
      (newOffsetStore (s.snapshot.map OffsetTable.offsets) s.wal).map (fun store => store.fetch remark.key) =
        .ok (some ⟨3, none, 0, 9⟩) := by
  constructor
  · exact exists_reaches [.call (.commitBatch 9 [progress 3]), .call (.commitBatch 9 [progress 4]), .advance 0,
      .advance 1, .advance 1, .advance 0] (fun _ _ _ done => done) (by decide +kernel)
  · exact exists_reaches [.call (.commitBatch 9 [remark]), .advance 0, .advance 0, .call .compact, .advance 0,
      .advance 0, .advance 0] (fun _ _ _ done => done) (by decide +kernel)

end SharedStore

end PocketKafka.Coordinator
