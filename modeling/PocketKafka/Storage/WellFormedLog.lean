import PocketKafka.Storage.ExactlyOnce

namespace PocketKafka.Storage

open Bytes Intervals

/-- The file of an open segment is a concatenation of batches whose offsets leave nothing out. -/
structure Segment.Logged (s : Segment) (bs : List Batch) : Prop where
  isLocal : s.remote = none
  log : s.logFile = some (logBytes bs)
  size : s.size = (logBytes bs).length
  indexed : s.index.isSome = true
  base : 0 ≤ s.baseOffset
  next : s.nextOffset < 9223372036854775808
  covered : Covered s.baseOffset bs s.nextOffset

structure Partition.Logs (p : Partition) (closed : List (List Batch)) (active : Segment) (last : List Batch) : Prop where
  activeSegment : p.activeSegment = some active
  closedLogged : List.Forall₂ Segment.Logged p.closedSegments closed
  activeLogged : active.Logged last
  linked : ∃ lo, Gapless Segment.baseOffset Segment.nextOffset lo p.closedSegments active.baseOffset
  advancing : ∀ s ∈ p.closedSegments, s.baseOffset < s.nextOffset
  activeMax : active.maxSegmentBytes = p.maxSegmentBytes
  positive : 0 < p.maxSegmentBytes
  nextOffset : p.nextOffset = active.nextOffset

/-- Every segment file consists of whole batches with consecutive offsets that end at the next offset. -/
def Partition.WellFormedLog (p : Partition) : Prop := ∃ closed active last, p.Logs closed active last

theorem Segment.Holds.logged {s : Segment} {bs : List Batch} (h : s.Holds bs)
    (covered : Covered s.baseOffset bs s.nextOffset) :
    s.Logged bs := by
  obtain ⟨idx, indexed, _⟩ := h.index
  exact ⟨h.isLocal, h.log, h.size, by rw [indexed]; rfl, h.base, h.next, covered⟩

theorem logged_of_covered {segs : List Segment} {bss : List (List Batch)} (hold : List.Forall₂ Segment.Holds segs bss)
    (covered : List.Forall₂ (fun s bs => Covered s.baseOffset bs s.nextOffset) segs bss) :
    List.Forall₂ Segment.Logged segs bss := by
  induction hold with
  | nil => exact .nil
  | cons first _ ih =>
    cases covered with
    | cons head rest => exact .cons (first.logged head) (ih rest)

theorem Partition.Sound.wellFormedLog {p : Partition} (sound : p.Sound) : p.WellFormedLog := by
  obtain ⟨closed, active, last, h, closedCovered, activeCovered⟩ := sound
  exact ⟨closed, active, last, h.activeSegment, logged_of_covered h.closedHold closedCovered,
    h.activeHolds.logged activeCovered, h.linked, h.advancing, h.activeMax, h.positive, h.nextOffset⟩

/-- Recovery after a restart finds every byte of the file in a whole batch. -/
def Segment.RecoversWhole (s : Segment) : Prop :=
  ∃ s', Segment.recover { s with nextOffset := s.baseOffset } = .ok s' ∧ s'.logFile = s.logFile ∧ s'.size = s.size

theorem Segment.Logged.recoversWhole {s : Segment} {bs : List Batch} (h : s.Logged bs) : s.RecoversWhole := by
  have loop := recoverLoop_batches [] bs s.baseOffset
  rw [List.nil_append, List.length_nil] at loop
  unfold RecoversWhole Segment.recover
  simp only [h.log, h.size, Option.getD_some, loop, ne_eq, not_true_eq_false, ↓reduceIte]
  split
  · exact ⟨_, rfl, rfl, rfl⟩
  · exact ⟨_, rfl, rfl, rfl⟩

theorem logBytes_split {bs cs : List Batch} {tail : Bytes} (same : logBytes bs ++ tail = logBytes cs) :
    ∃ ds, cs = bs ++ ds ∧ logBytes ds = tail := by
  induction bs generalizing cs with
  | nil => exact ⟨cs, rfl, same.symm⟩
  | cons b bs ih =>
    have long := b.header
    unfold batchHeaderSize at long
    cases cs with
    | nil =>
      have size := congrArg List.length same
      simp only [logBytes_cons, logBytes_nil, List.length_append, List.length_nil] at size
      omega
    | cons c cs =>
      rw [logBytes_cons, logBytes_cons, List.append_assoc] at same
      have lengths := congrArg lengthField same
      rw [lengthField_append, lengthField_append, b.length, c.length] at lengths
      obtain ⟨first, rest⟩ := List.append_inj same (by omega)
      obtain ⟨ds, rfl, parts⟩ := ih rest
      exact ⟨ds, by rw [Batch.ext first, List.cons_append], parts⟩

structure Segment.Extends (s : Segment) (bs : List Batch) (raw : Bytes) (s' : Segment) : Prop where
  header : batchHeaderSize ≤ raw.length
  magic : magicField raw = 2
  isLocal : s'.remote = none
  log : s'.logFile = some (logBytes bs ++ stamp raw s.nextOffset)
  size : s'.size = (logBytes bs ++ stamp raw s.nextOffset).length
  indexed : s'.index.isSome = true
  baseOffset : s'.baseOffset = s.baseOffset
  maxSegmentBytes : s'.maxSegmentBytes = s.maxSegmentBytes
  nextOffset : s'.nextOffset = int64 (s.nextOffset + lastOffsetDeltaField raw + 1)

theorem Segment.Extends.sync {s s' : Segment} {bs : List Batch} {raw : Bytes} (ext : s.Extends bs raw s') :
    s.Extends bs raw s'.sync := by
  have synced : s'.sync = { s' with syncedOffset := s'.nextOffset, syncedBytes := s'.size } := by
    rw [Segment.sync, ext.log]
  rw [synced]
  exact ⟨ext.header, ext.magic, ext.isLocal, ext.log, ext.size, ext.indexed, ext.baseOffset, ext.maxSegmentBytes,
    ext.nextOffset⟩

namespace Segment.Logged

variable {s s' : Segment} {bs : List Batch} {raw : Bytes}

theorem next_nonneg (h : s.Logged bs) : 0 ≤ s.nextOffset :=
  h.base.trans (Ascending.le Batch.proper h.covered.ascending)

theorem append_extends (h : s.Logged bs) {assigned : Int} (done : s.append raw = .ok (assigned, s')) :
    s.Extends bs raw s' := by
  unfold Segment.append at done
  split at done
  · cases done
  · rename_i header parsed
    obtain ⟨long, magic, rfl⟩ := parseRecordBatchHeader_ok parsed
    split at done
    · cases done
    · rw [h.log] at done
      cases indexed : s.index with
      | none =>
        rw [indexed] at done
        cases done
      | some idx =>
        rw [indexed, h.size] at done
        cases done
        have long' : 8 ≤ raw.length := by
          unfold batchHeaderSize at long
          omega
        refine ⟨long, magic, h.isLocal, ?_, ?_, rfl, rfl, rfl, rfl⟩
        · simp only [writeAt_end]
        · simp only [List.length_append, stamp_length s.nextOffset long']

theorem extends_iff (h : s.Logged bs) (ext : s.Extends bs raw s') :
    (∃ cs, s'.Logged cs) ↔ lengthField raw = raw.length - 12 ∧ 0 ≤ lastOffsetDeltaField raw ∧
      s.nextOffset + lastOffsetDeltaField raw + 1 < 9223372036854775808 := by
  have lower := h.next_nonneg
  have upper := h.next
  have long := ext.header
  unfold batchHeaderSize at long
  have stamped : baseOffsetField (stamp raw s.nextOffset) = s.nextOffset := baseOffsetField_stamp (by omega) upper
  constructor
  · rintro ⟨cs, logged⟩
    obtain ⟨ds, rfl, parts⟩ := logBytes_split (Option.some.inj (ext.log.symm.trans logged.log))
    have covered := logged.covered
    rw [ext.baseOffset] at covered
    obtain ⟨mid, front, back⟩ := covered.split
    obtain rfl : mid = s.nextOffset := front.unique h.covered
    cases ds with
    | nil =>
      have size := congrArg List.length parts
      rw [stamp_length _ (by omega)] at size
      simp only [logBytes_nil, List.length_nil] at size
      omega
    | cons d ds =>
      rw [logBytes_cons] at parts
      have delta : lastOffsetDeltaField d.raw = lastOffsetDeltaField raw := by
        rw [← lastOffsetDeltaField_stamp raw s.nextOffset, ← parts, lastOffsetDeltaField_append]
      have next : d.nextOffset = s.nextOffset + lastOffsetDeltaField raw + 1 := by
        rw [Batch.nextOffset, Batch.lastOffset, back.1, delta]
      have proper := d.delta
      have order := Ascending.le Batch.proper back.2.ascending
      have bound := logged.next
      have same : s'.nextOffset = d.nextOffset := by
        rw [ext.nextOffset, ← next]
        apply int64_of_bounds <;> omega
      -- The partition counts one batch, so the bytes hold no second one.
      cases ds with
      | nil =>
        rw [logBytes_nil, List.append_nil] at parts
        have length := d.length
        rw [parts, lengthField_stamp, stamp_length _ (by omega)] at length
        omega
      | cons e ds =>
        have start := back.2.1
        have proper' := e.baseOffset_lt_nextOffset
        have order' := Ascending.le Batch.proper back.2.2.ascending
        omega
  · rintro ⟨length, delta, fits⟩
    have shape : WellFormed raw := ⟨ext.header, ext.magic, length, delta⟩
    let b := (Batch.ofRaw shape).stamped s.nextOffset
    have base : b.baseOffset = s.nextOffset := stamped
    have next : s'.nextOffset = s.nextOffset + lastOffsetDeltaField raw + 1 := by
      rw [ext.nextOffset]
      apply int64_of_bounds <;> omega
    have file : logBytes (bs ++ [b]) = logBytes bs ++ stamp raw s.nextOffset := by simp [b, Batch.ofRaw]
    refine ⟨bs ++ [b], ext.isLocal, ?_, ?_, ext.indexed, ?_, ?_, ?_⟩
    · rw [file]
      exact ext.log
    · rw [file]
      exact ext.size
    · rw [ext.baseOffset]
      exact h.base
    · omega
    · rw [ext.baseOffset]
      apply h.covered.append
      refine ⟨base, ?_⟩
      show b.nextOffset = _
      rw [Batch.nextOffset, Batch.lastOffset, base, next]
      show _ + lastOffsetDeltaField (stamp raw s.nextOffset) + 1 = _
      rw [lastOffsetDeltaField_stamp]

end Segment.Logged

/-- `q` is a well-formed log with the offsets of `p` whose active segment was given the bytes `raw`. -/
def Partition.Grows (p : Partition) (raw : Bytes) (q : Partition) : Prop :=
  ∃ (r : Partition) (closed : List (List Batch)) (active : Segment) (last : List Batch) (s' : Segment),
    r.Logs closed active last ∧ r.nextOffset = p.nextOffset ∧ active.Extends last raw s' ∧
      q = { r with activeSegment := some s', nextOffset := s'.nextOffset, highWatermark := s'.nextOffset }

namespace Partition.Logs

variable {p q : Partition} {closed : List (List Batch)} {active : Segment} {last : List Batch} {raw : Bytes}

theorem closed_le_active (h : p.Logs closed active last) {s : Segment} (member : s ∈ p.closedSegments) :
    s.nextOffset ≤ active.baseOffset := by
  obtain ⟨lo, linked⟩ := h.linked
  exact (Ascending.mem (fun s inside => (h.advancing s inside).le) linked.ascending member).2

theorem full_advances (h : p.Logs closed active last) (full : active.full = true) :
    active.baseOffset < active.nextOffset := by
  have size := h.activeLogged.size
  have positive := h.positive
  rw [Segment.full, decide_eq_true_eq, h.activeMax] at full
  have covered := h.activeLogged.covered
  cases last with
  | nil =>
    rw [logBytes_nil, List.length_nil] at size
    omega
  | cons b rest =>
    have start := covered.1
    have proper := b.baseOffset_lt_nextOffset
    have order := Ascending.le Batch.proper covered.2.ascending
    omega

theorem roll_logs (h : p.Logs closed active last) (full : active.full = true) :
    ∃ new, p.roll = (.ok (), { p with closedSegments := p.closedSegments ++ [active], activeSegment := some new }) ∧
      Partition.Logs { p with closedSegments := p.closedSegments ++ [active], activeSegment := some new }
        (closed ++ [last]) new [] := by
  have advance := h.full_advances full
  have base := h.activeLogged.base
  have upper := h.activeLogged.next
  have ordered : p.orderedSegments = p.closedSegments ++ [active] := by
    rw [Partition.orderedSegments, h.activeSegment, Option.toList_some]
  have missing : p.dir.find? (fun files => files.baseOffset == p.nextOffset) = none := by
    rw [List.find?_eq_none, Partition.dir, ordered]
    intro files member
    obtain ⟨s, inside, rfl⟩ := List.mem_map.mp member
    have below : s.baseOffset < p.nextOffset := by
      rw [h.nextOffset]
      rcases List.mem_append.mp inside with old | same
      · have order := h.closed_le_active old
        have start := h.advancing s old
        omega
      · obtain rfl := List.mem_singleton.mp same
        exact advance
    simpa [Segment.files] using below.ne
  obtain ⟨new, opened, empty, newBase, newNext, newMax, _⟩ := Segment.Holds.open_new missing
    (by rw [h.nextOffset]; omega) (by rw [h.nextOffset]; exact upper) p.maxSegmentBytes p.indexInterval
  obtain ⟨lo, linked⟩ := h.linked
  refine ⟨new, by simp [Partition.roll, opened, h.activeSegment], rfl, ?_, ?_, ?_, ?_, newMax, h.positive, newNext.symm⟩
  · exact List.rel_append h.closedLogged (.cons h.activeLogged .nil)
  · exact empty.logged (by rw [newBase, newNext]; exact rfl)
  · refine ⟨lo, ?_⟩
    rw [newBase, h.nextOffset]
    exact gapless_append_singleton linked
  · intro s member
    rcases List.mem_append.mp member with old | same
    · exact h.advancing s old
    · obtain rfl := List.mem_singleton.mp same
      exact advance

theorem append_extends (h : p.Logs closed active last) {assigned : Int} (done : p.append raw = (.ok assigned, q)) :
    p.Grows raw q := by
  have rolled : ∃ (r : Partition) (closed' : List (List Batch)) (active' : Segment) (last' : List Batch),
    (if active.full then p.roll else (.ok (), p)) = (.ok (), r) ∧
      r.Logs closed' active' last' ∧ r.nextOffset = p.nextOffset := by
    by_cases full : active.full = true
    · obtain ⟨new, result, logs⟩ := h.roll_logs full
      exact ⟨_, _, _, _, by rw [if_pos full, result], logs, rfl⟩
    · exact ⟨p, closed, active, last, by rw [if_neg full], h, rfl⟩
  obtain ⟨r, closed', active', last', result, logs, next⟩ := rolled
  simp only [Partition.append, h.activeSegment, result, logs.activeSegment] at done
  cases stored : active'.append raw with
  | error failure =>
    rw [stored] at done
    cases done
  | ok outcome =>
    obtain ⟨offset, s'⟩ := outcome
    rw [stored] at done
    cases done
    exact ⟨r, closed', active', last', s', logs, next, logs.activeLogged.append_extends stored, rfl⟩

theorem appendSynced_extends (h : p.Logs closed active last) {sync : Bool} {fsync : Fsync} {assigned : Int}
    (done : p.appendSynced raw sync fsync = (.ok assigned, q)) : p.Grows raw q := by
  unfold Partition.appendSynced at done
  cases appended : p.append raw with
  | mk result m =>
    rw [appended] at done
    cases result with
    | error failure => cases done
    | ok offset =>
      obtain ⟨r, closed', active', last', s', logs, next, ext, rfl⟩ := h.append_extends appended
      have grown : ∀ s', active'.Extends last' raw s' → p.Grows raw { r with
          activeSegment := some s', nextOffset := s'.nextOffset, highWatermark := s'.nextOffset } :=
        fun s' ext => ⟨r, closed', active', last', s', logs, next, ext, rfl⟩
      dsimp only at done
      split at done
      · have outcome := Partition.sync_cases (p := { r with
          activeSegment := some s', nextOffset := s'.nextOffset, highWatermark := s'.nextOffset }) rfl fsync
        split at done
        · cases done
        · rename_i synced
          rw [synced] at outcome
          cases done
          rcases outcome with rfl | rfl
          · exact grown s' ext
          · -- Syncing changes what is known to be durable and nothing else.
            have next : s'.sync.nextOffset = s'.nextOffset := by rw [Segment.sync, ext.log]
            have synced := grown s'.sync ext.sync
            rwa [next] at synced
      · cases done
        exact grown s' ext

theorem extends_iff {r : Partition} {s' : Segment} (h : r.Logs closed active last) (ext : active.Extends last raw s') :
    Partition.WellFormedLog
        { r with activeSegment := some s', nextOffset := s'.nextOffset, highWatermark := s'.nextOffset } ↔
      lengthField raw = raw.length - 12 ∧ 0 ≤ lastOffsetDeltaField raw ∧
        r.nextOffset + lastOffsetDeltaField raw + 1 < 9223372036854775808 := by
  rw [h.nextOffset, ← h.activeLogged.extends_iff ext]
  constructor
  · rintro ⟨_, found, last', logs⟩
    obtain rfl : s' = found := Option.some.inj logs.activeSegment
    exact ⟨last', logs.activeLogged⟩
  · rintro ⟨last', logged⟩
    refine ⟨closed, s', last', rfl, h.closedLogged, logged, ?_, h.advancing, ?_, h.positive, rfl⟩
    · rw [ext.baseOffset]
      exact h.linked
    · rw [ext.maxSegmentBytes]
      exact h.activeMax

theorem recoversWhole (h : p.Logs closed active last) : ∀ s ∈ p.orderedSegments, s.RecoversWhole := by
  have closedOnes : ∀ {segs : List Segment} {bss : List (List Batch)}, List.Forall₂ Segment.Logged segs bss →
      ∀ s ∈ segs, s.RecoversWhole := by
    intro segs bss logged
    induction logged with
    | nil => simp
    | cons first _ ih =>
      intro s member
      rcases List.mem_cons.mp member with rfl | later
      · exact first.recoversWhole
      · exact ih s later
  intro s member
  rw [Partition.orderedSegments, h.activeSegment, Option.toList_some, List.mem_append, List.mem_singleton] at member
  rcases member with old | rfl
  · exact closedOnes h.closedLogged s old
  · exact h.activeLogged.recoversWhole

end Partition.Logs

/-- No harm was done to the log: it is well formed, it has grown, and a restart keeps all of it. -/
def Partition.Intact (p q : Partition) : Prop :=
  q.WellFormedLog ∧ p.nextOffset < q.nextOffset ∧ ∀ s ∈ q.orderedSegments, s.RecoversWhole

namespace Partition.Grows

variable {p q : Partition} {raw : Bytes}

theorem remembering (grows : p.Grows raw q) (tracker : PartitionIdempotenceTracker) :
    p.Grows raw { q with idempotence := tracker } := by
  obtain ⟨r, closed, active, last, s', h, next, ext, rfl⟩ := grows
  exact ⟨{ r with idempotence := tracker }, closed, active, last, s', ⟨h.activeSegment, h.closedLogged, h.activeLogged,
    h.linked, h.advancing, h.activeMax, h.positive, h.nextOffset⟩, next, ext, rfl⟩

theorem intact_iff (grows : p.Grows raw q) : p.Intact q ↔
    lengthField raw = raw.length - 12 ∧ 0 ≤ lastOffsetDeltaField raw ∧
      p.nextOffset + lastOffsetDeltaField raw + 1 < 9223372036854775808 := by
  obtain ⟨r, closed, active, last, s', h, next, ext, rfl⟩ := grows
  rw [← next, ← h.extends_iff ext]
  constructor
  · exact And.left
  · intro wellFormed
    obtain ⟨_, delta, fits⟩ := (h.extends_iff ext).mp wellFormed
    have lower := h.activeLogged.next_nonneg
    have same := h.nextOffset
    refine ⟨wellFormed, ?_, ?_⟩
    · show p.nextOffset < s'.nextOffset
      rw [ext.nextOffset, int64_of_bounds (by omega) (by omega)]
      omega
    · obtain ⟨_, _, _, logs⟩ := wellFormed
      exact logs.recoversWhole

end Partition.Grows

end PocketKafka.Storage
