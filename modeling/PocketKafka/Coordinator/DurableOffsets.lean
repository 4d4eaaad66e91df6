import PocketKafka.Coordinator.OffsetStore

namespace PocketKafka.Coordinator

open Bytes Runs

theorem writes_logged (now : Int64) (records : List OffsetCommitRecord) :
    writes (records.map (OffsetCommitRecord.logged now)) = records.map fun r => (r.key, r.stamped now) := by
  rw [writes, List.map_map]
  rfl

theorem writes_append (recs more : List WalRecord) : writes (recs ++ more) = writes recs ++ writes more := List.map_append

structure WalRecord.Proper (rec : WalRecord) : Prop where
  fits : rec.Fits
  commit : rec.type = walRecordCommit

theorem commits_of_proper {recs : List WalRecord} (proper : ∀ rec ∈ recs, rec.Proper) :
    recs.filter (fun rec => rec.type = walRecordCommit) = recs := by
  apply List.filter_eq_self.mpr
  intro rec member
  exact decide_eq_true (proper rec member).commit

def Within (allowed : OffsetKey → List (Option CommittedOffset)) (recs : List WalRecord) (f : Offsets) : Prop :=
  ∀ key, f key ∈ Machine.inFlight allowed recs key

variable {allowed : OffsetKey → List (Option CommittedOffset)} {recs : List WalRecord} {f : Offsets}

theorem Within.more (h : Within allowed [] f) (recs : List WalRecord) : Within allowed recs f := by
  intro key
  apply List.mem_append_left
  simpa [Machine.inFlight, writes] using h key

theorem Within.replay (h : Within allowed recs f) (n : Nat) :
    Within allowed recs (Journal.replay (writes (recs.take n)) f) := by
  intro key
  rcases Journal.replay_mem (writes (recs.take n)) f key with same | ⟨v, written, same⟩
  · rw [same]
    exact h key
  · rw [same]
    apply List.mem_append_right
    apply List.mem_map_of_mem
    have parts : Journal.written (writes recs) key =
        Journal.written (writes (recs.take n)) key ++ Journal.written (writes (recs.drop n)) key := by
      rw [← Journal.written_append, ← writes_append, List.take_append_drop]
    rw [parts]
    exact List.mem_append_left _ written

theorem Within.replay_all (h : Within allowed recs f) : Within allowed recs (Journal.replay (writes recs) f) := by
  have all := h.replay recs.length
  rwa [List.take_length] at all

theorem Within.crashed (h : Within allowed recs f) : Within (Machine.inFlight allowed recs) [] f := by
  intro key
  exact List.mem_append_left _ (h key)

theorem Within.acknowledged (h : Within allowed recs f) :
    Within (Machine.acknowledge allowed recs) [] (Journal.replay (writes recs) f) := by
  intro key
  apply List.mem_append_left
  rw [Journal.replay_apply]
  unfold Machine.acknowledge
  cases last : (Journal.written (writes recs) key).getLast? with
  | some v => exact List.mem_singleton_self _
  | none =>
    have inside := h key
    rw [Machine.inFlight, List.getLast?_eq_none_iff.mp last, List.map_nil, List.append_nil] at inside
    exact inside

/-- From `f` the pending commit leads to the offsets in memory. -/
structure Covers (allowed : OffsetKey → List (Option CommittedOffset)) (pending : List WalRecord) (offsets f : Offsets) :
    Prop where
  within : Within allowed pending f
  memory : Journal.replay (writes pending) f = offsets

theorem Covers.encoded {pending : List WalRecord} {offsets state : Offsets}
    (h : Covers allowed pending offsets (Journal.replay (writes recs) state)) :
    Covers allowed pending offsets offsets ∧ Covers allowed pending offsets (Journal.replay (writes recs) offsets) := by
  obtain ⟨within, rfl⟩ := h
  have later := within.replay_all
  refine ⟨⟨later, Journal.replay_replay _ _⟩, ?_, Journal.replay_later_again _ _ _⟩
  intro key
  rcases Journal.replay_over_later (writes recs) (writes pending) state key with same | same
  · rw [same]
    exact within key
  · rw [same]
    exact later key

theorem Covers.commit {store : OffsetStore} {pending : List WalRecord} {now : Int64} {records : List OffsetCommitRecord}
    (idle : pending = []) (h : Covers allowed pending store.offsets f) :
    Covers allowed (records.map (OffsetCommitRecord.logged now)) (store.commitBatch now records).offsets f := by
  subst idle
  have memory : f = store.offsets := h.memory
  refine ⟨h.within.more _, ?_⟩
  rw [memory, writes_logged]
  rfl

def Machine.durable (m : Machine) (recs : List WalRecord) : Offsets :=
  Journal.replay (writes recs) (m.snapshot.getD fun _ => none)

/-- A commit in flight is appended to whole records; whatever the compaction has written or will write, the
    log over it gives what is allowed. -/
structure Running.Follows (r : Running) (m : Machine) (recs : List WalRecord) (tail : Bytes) : Prop where
  fresh : r.pending ≠ [] → tail = []
  proper : ∀ rec ∈ r.pending, rec.Proper
  disk : Covers m.allowed r.pending r.store.offsets (m.durable recs)
  encoded : ∀ offsets, r.compaction = .encoded offsets →
    Covers m.allowed r.pending r.store.offsets offsets ∧
      Covers m.allowed r.pending r.store.offsets (Journal.replay (writes recs) offsets)
  written : r.compaction = .written → Covers m.allowed r.pending r.store.offsets (m.durable [])

structure Machine.Durable (m : Machine) (recs : List WalRecord) (tail : Bytes) : Prop where
  file : m.wal = batchBytes recs ++ tail
  torn : replay tail = .ok []
  proper : ∀ rec ∈ recs, rec.Proper
  down : m.running = none → Within m.allowed [] (m.durable recs)
  up : ∀ r, m.running = some r → r.Follows m recs tail

namespace Machine

variable {m m' : Machine} {tail : Bytes} {r : Running}

theorem Durable.replay_wal (h : m.Durable recs tail) : replay m.wal = .ok recs := by
  rw [h.file, replay_batchBytes fun rec member => (h.proper rec member).fits, h.torn]
  simp [Except.map]

theorem Durable.tail_of_whole (h : m.Durable recs tail) (whole : Whole m.wal) : tail = [] := by
  rw [Whole, h.replay_wal, h.file] at whole
  exact List.append_right_eq_self.mp (Except.ok.inj whole).symm

theorem Durable.newOffsetStore (h : m.Durable recs tail) :
    ∃ store, newOffsetStore m.snapshot m.wal = .ok store ∧ store.offsets = m.durable recs := by
  refine ⟨OffsetStore.replayWAL ⟨m.snapshot.getD fun _ => none, 0, false⟩ recs, ?_, ?_⟩
  · rw [Coordinator.newOffsetStore, h.replay_wal]
    rfl
  · rw [OffsetStore.replayWAL, commits_of_proper h.proper]
    rfl

theorem durable_initial : initial.Durable [] [] where
  file := rfl
  torn := replay_nil
  proper := fun _ none => absurd none List.not_mem_nil
  down := fun _ key => List.mem_singleton_self _
  up := fun _ none => by cases none

theorem Durable.reopen (h : m.Durable recs tail) (down : m.running = none) : m.reopen.Durable recs tail := by
  obtain ⟨store, opened, offsets⟩ := h.newOffsetStore
  unfold Machine.reopen
  rw [opened]
  refine ⟨h.file, h.torn, h.proper, nofun, ?_⟩
  intro r same
  cases same
  exact {
    fresh := fun some => absurd rfl some
    proper := fun _ none => absurd none List.not_mem_nil
    disk := ⟨h.down down, offsets.symm⟩
    encoded := fun _ clash => by cases clash
    written := fun clash => by cases clash }

theorem Durable.crash (h : m.Durable recs tail) (running : m.running = some r) (cut : Nat)
    (done : m.advance r (.crash cut) = some m') : ∃ recs tail, m'.Durable recs tail := by
  obtain ⟨fresh, proper, disk, _, _⟩ := h.up r running
  cases done
  by_cases nothing : (batchBytes r.pending).take cut = [] ∨ r.compaction.locks = true
  · refine ⟨recs, tail, ?_, h.torn, h.proper, fun _ => disk.within.crashed, fun _ clash => by cases clash⟩
    show (if r.compaction.locks then m.wal else m.wal ++ (batchBytes r.pending).take cut) = _
    rcases nothing with none | locked
    · rw [none, List.append_nil, ite_self, h.file]
    · rw [if_pos locked, h.file]
  · obtain ⟨some, unlocked⟩ := not_or.mp nothing
    have pending : r.pending ≠ [] := by
      intro none
      rw [none] at some
      exact some (List.take_nil)
    obtain ⟨n, rest, parts, torn, _⟩ := take_batchBytes (fun rec member => (proper rec member).fits) cut
    refine ⟨recs ++ r.pending.take n, rest, ?_, torn, ?_, ?_, fun _ clash => by cases clash⟩
    · show (if r.compaction.locks then m.wal else m.wal ++ (batchBytes r.pending).take cut) = _
      rw [if_neg unlocked, h.file, fresh pending, List.append_nil, parts, batchBytes_append, List.append_assoc]
    · intro rec member
      rcases List.mem_append.mp member with earlier | written
      · exact h.proper rec earlier
      · exact proper rec (List.mem_of_mem_take written)
    · intro _
      rw [durable, writes_append, Journal.replay_append]
      exact (disk.within.replay n).crashed

theorem Durable.commit (h : m.Durable recs tail) (running : m.running = some r) {now : Int64}
    {records : List OffsetCommitRecord} (whole : Whole m.wal) (fit : ∀ record ∈ records, (record.logged now).Fits)
    (done : m.advance r (.commit now records) = some m') : m'.Durable recs tail := by
  obtain ⟨_, _, disk, encoded, written⟩ := h.up r running
  unfold advance at done
  dsimp only at done
  split at done
  · rename_i free
    cases done
    refine ⟨h.file, h.torn, h.proper, nofun, ?_⟩
    intro r same
    cases same
    constructor
    · exact fun _ => h.tail_of_whole whole
    · intro rec member
      obtain ⟨record, inside, rfl⟩ := List.mem_map.mp member
      exact ⟨fit record inside, rfl⟩
    · exact disk.commit free.2
    · intro offsets phase
      exact (encoded offsets phase).imp (Covers.commit free.2) (Covers.commit free.2)
    · exact fun phase => (written phase).commit free.2
  · cases done

theorem Durable.append (h : m.Durable recs tail) (running : m.running = some r)
    (done : m.advance r .append = some m') : m'.Durable (recs ++ r.pending) [] := by
  obtain ⟨fresh, proper, disk, _, _⟩ := h.up r running
  unfold advance at done
  dsimp only at done
  split at done
  · rename_i free
    cases done
    refine ⟨?_, replay_nil, ?_, nofun, ?_⟩
    · show m.wal ++ batchBytes r.pending = _
      rw [h.file, fresh free.1, List.append_nil, List.append_nil, batchBytes_append]
    · intro rec member
      rcases List.mem_append.mp member with earlier | appended
      · exact h.proper rec earlier
      · exact proper rec appended
    · intro r' same
      cases same
      constructor
      · exact fun _ => rfl
      · exact fun _ none => absurd none List.not_mem_nil
      · constructor
        · rw [durable, writes_append, Journal.replay_append]
          exact disk.within.acknowledged
        · rw [durable, writes_append, Journal.replay_append]
          exact disk.memory
      · intro offsets phase
        rw [show r.compaction = .encoded offsets from phase] at free
        cases free.2
      · intro phase
        rw [show r.compaction = .written from phase] at free
        cases free.2
  · cases done

theorem Durable.encode (h : m.Durable recs tail) (running : m.running = some r)
    (done : m.advance r .encode = some m') : m'.Durable recs tail := by
  obtain ⟨fresh, proper, disk, _, _⟩ := h.up r running
  unfold advance at done
  dsimp only at done
  split at done
  · split at done
    · cases done
      refine ⟨h.file, h.torn, h.proper, nofun, ?_⟩
      intro r' same
      cases same
      refine ⟨fresh, proper, disk, ?_, nofun⟩
      intro offsets phase
      cases phase
      exact disk.encoded
    · cases done
  · cases done

theorem Durable.write (h : m.Durable recs tail) (running : m.running = some r)
    (done : m.advance r .write = some m') : m'.Durable recs tail := by
  obtain ⟨fresh, proper, _, encoded, _⟩ := h.up r running
  unfold advance at done
  dsimp only at done
  split at done
  · rename_i offsets phase
    cases done
    obtain ⟨snapshot, log⟩ := encoded offsets phase
    refine ⟨h.file, h.torn, h.proper, nofun, ?_⟩
    intro r' same
    cases same
    exact ⟨fresh, proper, log, nofun, fun _ => snapshot⟩
  · cases done

theorem Durable.reset (h : m.Durable recs tail) (running : m.running = some r)
    (done : m.advance r .reset = some m') : m'.Durable [] [] := by
  obtain ⟨_, proper, _, _, written⟩ := h.up r running
  unfold advance at done
  dsimp only at done
  split at done
  · rename_i phase
    cases done
    refine ⟨rfl, replay_nil, fun _ none => absurd none List.not_mem_nil, nofun, ?_⟩
    intro r' same
    cases same
    refine ⟨fun _ => rfl, proper, written phase, ?_, ?_⟩
    · intro offsets clash
      dsimp only at clash
      split at clash <;> cases clash
    · intro clash
      dsimp only at clash
      split at clash <;> cases clash
  · cases done

theorem Durable.finish (h : m.Durable recs tail) (running : m.running = some r)
    (done : m.advance r .finish = some m') : m'.Durable recs tail := by
  obtain ⟨fresh, proper, disk, _, _⟩ := h.up r running
  unfold advance at done
  dsimp only at done
  split at done
  · cases done
    refine ⟨h.file, h.torn, h.proper, nofun, ?_⟩
    intro r' same
    cases same
    exact ⟨fresh, proper, disk, nofun, nofun⟩
  · cases done

/-- A commit finds whole records in the log, and its own can be read back. -/
def GuardsCommit (m : Machine) : StoreEvent → Prop
  | .commit now records => Whole m.wal ∧ ∀ record ∈ records, (record.logged now).Fits
  | _ => True

instance (file : Bytes) : Decidable (Whole file) := inferInstanceAs (Decidable (_ = _))

instance (m : Machine) : (e : StoreEvent) → Decidable (m.GuardsCommit e)
  | .commit now records => inferInstanceAs (Decidable (Whole m.wal ∧ ∀ record ∈ records, (record.logged now).Fits))
  | .reopen | .append | .encode | .write | .reset | .finish | .crash _ => isTrue trivial

theorem Durable.perform {e : StoreEvent} (h : m.Durable recs tail) (guard : m.GuardsCommit e)
    (done : m.perform e = some m') : ∃ recs tail, m'.Durable recs tail := by
  unfold Machine.perform at done
  split at done
  · rename_i r running
    cases e with
    | reopen => cases done
    | commit now records => exact ⟨recs, tail, h.commit running guard.1 guard.2 done⟩
    | append => exact ⟨_, _, h.append running done⟩
    | encode => exact ⟨recs, tail, h.encode running done⟩
    | write => exact ⟨recs, tail, h.write running done⟩
    | reset => exact ⟨[], [], h.reset running done⟩
    | finish => exact ⟨recs, tail, h.finish running done⟩
    | crash cut => exact h.crash running cut done
  · rename_i down
    split at done
    · cases done
      exact ⟨recs, tail, h.reopen down⟩
    · cases done

end Machine

/-- After any run of commits, compactions, crashes and reopenings the store opens, and each key has the value
    of its last acknowledged commit or of one that was in flight at a crash since: if every commit is made
    while the log consists of whole records, with strings whose lengths fit. -/
theorem acknowledged_commits_survive {m : Machine}
    (run : Reaches Machine.GuardsCommit Machine.Steps Machine.initial m) (down : m.running = none) :
    ∃ store, newOffsetStore m.snapshot m.wal = .ok store ∧ ∀ key, store.fetch key ∈ m.allowed key := by
  obtain ⟨recs, tail, durable⟩ : ∃ recs tail, m.Durable recs tail := by
    apply run.invariant ⟨[], [], Machine.durable_initial⟩
    rintro m e m' ⟨recs, tail, h⟩ guard done
    exact h.perform guard done
  obtain ⟨store, opened, offsets⟩ := durable.newOffsetStore
  refine ⟨store, opened, ?_⟩
  intro key
  have within := durable.down down key
  rw [OffsetStore.fetch, offsets]
  simpa [Machine.inFlight, writes] using within

def progress (offset : Int64) : OffsetCommitRecord :=
  ⟨⟨ascii "g", ascii "t", 0⟩, ⟨offset, none, 0, 0⟩⟩

theorem acknowledged_commits_survive_crash :
    ∃ (m : Machine) (store : OffsetStore), Reaches Machine.GuardsCommit Machine.Steps Machine.initial m ∧
      newOffsetStore m.snapshot m.wal = .ok store ∧ store.fetch (progress 3).key = some ⟨3, none, 0, 9⟩ := by
  obtain ⟨m, run, down, allowed⟩ : ∃ m : Machine, Reaches Machine.GuardsCommit Machine.Steps Machine.initial m ∧
      m.running.isNone ∧ m.allowed (progress 3).key = [some ⟨3, none, 0, 9⟩] :=
    exists_reaches [.reopen, .commit 9 [progress 3], .append, .crash 0] (fun _ _ _ done => done) (by decide +kernel)
  obtain ⟨store, opened, fetched⟩ := acknowledged_commits_survive run (Option.isNone_iff_eq_none.mp down)
  have value := fetched (progress 3).key
  rw [allowed] at value
  exact ⟨m, store, run, opened, List.mem_singleton.mp value⟩

/-- One byte of a torn record is left by a crash, and the reopened store appends an acknowledged commit to
    it: the next reopening reads the length of that record one byte too early and fails. -/
theorem torn_tail_blocks_reopening :
    ∃ m : Machine, Reaches (fun _ _ => True) Machine.Steps Machine.initial m ∧ m.running.isNone ∧
      m.allowed (progress 4).key = [some ⟨4, none, 0, 9⟩] ∧
      (newOffsetStore m.snapshot m.wal).map OffsetStore.walN = .error (corrupt "bad record length 0") :=
  exists_reaches
    [.reopen, .commit 9 [progress 3], .crash 1, .reopen, .commit 9 [progress 4], .append, .crash 0]
    (fun _ _ _ done => done) (by decide +kernel)

end PocketKafka.Coordinator
