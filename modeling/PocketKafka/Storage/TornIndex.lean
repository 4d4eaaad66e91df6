import PocketKafka.Storage.TornLog
import PocketKafka.Storage.WellFormedLog

namespace PocketKafka.Storage

open Bytes Intervals Runs

inductive SegmentOp where
  | append (raw : Bytes)
  | truncateTo (target : Int)

/-- An operation that fails leaves the segment as it was. -/
def Segment.perform (s : Segment) : SegmentOp → Segment
  | .append raw => ((s.append raw).toOption.map Prod.snd).getD s
  | .truncateTo target => (s.truncateTo target).toOption.getD s

/-- Batches are well formed, start below 4 GiB in the file, and offsets stay in range. -/
def SegmentOp.Fits (s : Segment) : SegmentOp → Prop
  | .append raw => WellFormed raw ∧ s.size < 4294967296 ∧
      s.nextOffset + lastOffsetDeltaField raw + 1 < 9223372036854775808
  | .truncateTo target => target < 9223372036854775808

def SegmentOp.Performs (s : Segment) (op : SegmentOp) (s' : Segment) : Prop := s.perform op = s'

/-- The segment stores the batches `bs`. A truncation may have moved the end offset beyond their end. -/
def Segment.Built (s : Segment) (bs : List Batch) : Prop :=
  s.nextOffset < 9223372036854775808 ∧ ∃ stop ≤ s.nextOffset, ({ s with nextOffset := stop } : Segment).Holds bs

theorem Segment.truncateTo_moved (s : Segment) (stop target : Int) :
    ({ s with nextOffset := stop } : Segment).truncateTo target = s.truncateTo target := rfl

theorem Segment.append_range {s s' : Segment} {raw : Bytes} {assigned : Int}
    (done : s.append raw = .ok (assigned, s')) :
    int64 (s.nextOffset + lastOffsetDeltaField raw + 1 - s.baseOffset) ≤ 2147483647 := by
  unfold Segment.append at done
  split at done
  · cases done
  · rename_i header parsed
    obtain ⟨_, _, rfl⟩ := parseRecordBatchHeader_ok parsed
    split at done
    · cases done
    · rename_i inside
      exact Int.not_lt.mp inside

namespace Segment.Built

variable {s : Segment} {bs : List Batch}

theorem truncateTo (h : s.Built bs) {target : Int} (bound : target < 9223372036854775808) :
    ∃ cs, (s.perform (.truncateTo target)).Built cs := by
  obtain ⟨_, stop, before, holds⟩ := h
  rw [Segment.perform, ← s.truncateTo_moved stop]
  by_cases low : target ≤ s.baseOffset
  · obtain ⟨s', done, empty, _⟩ := holds.truncateTo_base low
    rw [done]
    exact ⟨[], empty.next, _, le_rfl, empty⟩
  · have above : s.baseOffset < target := by omega
    obtain ⟨idx, points, done⟩ := holds.truncateTo_eq above
    rw [done]
    by_cases inside : target ≤ stop
    · exact ⟨_, bound, target, le_rfl, holds.shrink (below_append_fromOffset target bs).symm holds.isLocal rfl rfl rfl
        bound (fun _ => inside) (ascends_below holds.ordered above.le) ⟨idx, rfl, points⟩⟩
    · have all : below target bs = bs := by
        apply List.takeWhile_eq_self_iff.mpr
        intro b member
        have upper : b.nextOffset ≤ stop := (Ascending.mem Batch.proper holds.ordered member).2
        unfold Batch.nextOffset at upper
        rw [decide_eq_true_eq]
        omega
      rw [all] at points ⊢
      have later : stop ≤ target := by omega
      exact ⟨bs, bound, stop, later, holds.shrink (List.append_nil bs).symm holds.isLocal rfl rfl rfl
        holds.next (fun _ => le_rfl) holds.ordered ⟨idx, rfl, points⟩⟩

theorem holds (h : s.Built bs) (near : s.nextOffset - s.baseOffset < 2147483648) : s.Holds bs := by
  obtain ⟨bound, stop, before, h⟩ := h
  exact ⟨h.isLocal, h.log, h.size, h.base, bound, h.ordered.weaken le_rfl before, fun _ => near, h.starts, h.index⟩

theorem base_le (h : s.Built bs) : 0 ≤ s.baseOffset ∧ s.baseOffset ≤ s.nextOffset := by
  obtain ⟨_, stop, before, h⟩ := h
  have order : s.baseOffset ≤ stop := Ascending.le Batch.proper h.ordered
  exact ⟨h.base, order.trans before⟩

theorem append (h : s.Built bs) {raw : Bytes} (shape : WellFormed raw) (room : s.size < 4294967296)
    (fits : s.nextOffset + lastOffsetDeltaField raw + 1 < 9223372036854775808) :
    ∃ cs, (s.perform (.append raw)).Built cs := by
  cases result : s.append raw with
  | error failure =>
    rw [Segment.perform, result]
    exact ⟨bs, h⟩
  | ok pair =>
    obtain ⟨base, order⟩ := h.base_le
    have delta := shape.2.2.2
    have range := Segment.append_range result
    rw [int64_of_bounds (by omega) (by omega)] at range
    have near : s.nextOffset - s.baseOffset < 2147483648 := by omega
    obtain ⟨s', done, holds, _⟩ := (h.holds near).append_holds (Batch.ofRaw shape) room fits range
    have same : s.append raw = .ok (s.nextOffset, s') := done
    rw [Segment.perform, same]
    exact ⟨_, holds.next, _, le_rfl, holds⟩

end Segment.Built

theorem Segment.append_baseOffset {s s' : Segment} {raw : Bytes} {assigned : Int}
    (done : s.append raw = .ok (assigned, s')) : s'.baseOffset = s.baseOffset := by
  unfold Segment.append at done
  split at done
  · cases done
  · split at done
    · cases done
    · split at done
      · cases done
      · cases done
      · cases done
        rfl

theorem Segment.truncateTo_baseOffset {s s' : Segment} {target : Int} (done : s.truncateTo target = .ok s') :
    s'.baseOffset = s.baseOffset := by
  unfold Segment.truncateTo at done
  split at done
  · cases done
    rfl
  · split at done
    · cases done
    · dsimp only at done
      split at done
      · cases done
      · cases done
        rfl

theorem Segment.perform_baseOffset (s : Segment) (op : SegmentOp) : (s.perform op).baseOffset = s.baseOffset := by
  cases op with
  | append raw =>
    rw [Segment.perform]
    cases result : s.append raw with
    | error failure => rfl
    | ok pair => exact Segment.append_baseOffset result
  | truncateTo target =>
    rw [Segment.perform]
    cases result : s.truncateTo target with
    | error failure => rfl
    | ok s' => exact Segment.truncateTo_baseOffset result

def Fresh (base maxSegmentBytes indexInterval : Int) (s : Segment) : Prop :=
  0 ≤ base ∧ base < 9223372036854775808 ∧ openSegment [] base maxSegmentBytes indexInterval = .ok s

def Segment.BuiltAt (base : Int) (s : Segment) : Prop := s.baseOffset = base ∧ ∃ bs, s.Built bs

theorem builtAt_of_run {base maxSegmentBytes indexInterval : Int} {empty s : Segment}
    (fresh : Fresh base maxSegmentBytes indexInterval empty) (run : Reaches SegmentOp.Fits SegmentOp.Performs empty s) :
    s.BuiltAt base := by
  obtain ⟨lower, upper, opened⟩ := fresh
  have missing : ([] : Dir).find? (fun files => files.baseOffset == base) = none := rfl
  obtain ⟨first, started, holds, same, _⟩ := Segment.Holds.open_new missing lower upper maxSegmentBytes indexInterval
  obtain rfl : empty = first := Except.ok.inj (opened.symm.trans started)
  have start : empty.BuiltAt base := ⟨same, [], holds.next, _, le_rfl, holds⟩
  apply run.invariant start
  rintro s op _ ⟨same, bs, built⟩ fits rfl
  refine ⟨(s.perform_baseOffset op).trans same, ?_⟩
  cases op with
  | append raw => exact built.append fits.1 fits.2.1 fits.2.2
  | truncateTo target => exact built.truncateTo fits

theorem take_encodeEntries (entries : List IndexEntry) (k : Nat) :
    (encodeEntries entries).take (8 * k) = encodeEntries (entries.take k) := by
  induction entries generalizing k with
  | nil => simp [encodeEntries]
  | cons entry rest ih =>
    cases k with
    | zero => rfl
    | succ k =>
      have size := encodeEntry_length entry
      have split (more : List IndexEntry) : encodeEntries (entry :: more) = encodeEntry entry ++ encodeEntries more := rfl
      rw [List.take_succ_cons, split, split, ← ih, List.take_append, List.take_of_length_le (by omega), size]
      rfl

theorem loadEntries_cut {entries : List IndexEntry} (fits : ∀ entry ∈ entries, entry.Fits) {left : Bytes}
    (cut : left <+: encodeEntries entries) (aligned : left.length % indexEntrySize = 0) :
    loadEntries left 0 = entries.take (left.length / indexEntrySize) := by
  have whole : left = encodeEntries (entries.take (left.length / indexEntrySize)) := by
    rw [← take_encodeEntries]
    have exactly : 8 * (left.length / indexEntrySize) = left.length := Nat.mul_div_cancel' (Nat.dvd_of_mod_eq_zero aligned)
    rw [exactly]
    exact List.prefix_iff_eq_take.mp cut
  have loaded := loadEntries_encode [] (entries.take (left.length / indexEntrySize))
    fun entry member => fits entry (List.mem_of_mem_take member)
  rw [List.nil_append, ← whole] at loaded
  exact loaded

namespace Segment

def entries (s : Segment) : List IndexEntry := (s.index.map IndexFile.entries).getD []

def indexBytes (s : Segment) : Bytes := (s.index.map IndexFile.file).getD []

def HasBatchAt (s : Segment) (entry : IndexEntry) : Prop :=
  ∃ front b rest, s.log = logBytes (front ++ b :: rest) ∧ entry.position = (logBytes front).length ∧
    b.baseOffset = s.baseOffset + entry.relativeOffset

/-- What opening should make of the index when a crash left `n` bytes of it. -/
def IndexRecovered (s s' : Segment) (n : Nat) : Prop :=
  s'.entries = (s.entries.take (n / indexEntrySize)).filter (fun entry => entry.position < s'.size) ∧
    ∀ entry ∈ s'.entries, s'.HasBatchAt entry

end Segment

theorem points_whole {front rest whole torn : List Batch} {b : Batch} (same : front ++ b :: rest = whole ++ torn)
    (inside : (logBytes front).length < (logBytes whole).length) : ∃ more, whole = front ++ b :: more := by
  rcases List.append_eq_append_iff.mp same with ⟨more, rfl, tail⟩ | ⟨more, rfl, _⟩
  · cases more with
    | nil => simp at inside
    | cons c more =>
      cases tail
      exact ⟨more, rfl⟩
  · rw [logBytes_append, List.length_append] at inside
    omega

theorem logBytes_inj {bs cs : List Batch} (same : logBytes bs = logBytes cs) : bs = cs := by
  obtain ⟨ds, rfl, nothing⟩ := logBytes_split ((List.append_nil _).trans same)
  rw [logBytes_eq_nil (congrArg List.length nothing), List.append_nil]

/-- After a crash the index comes back as it should exactly if it was cut between two entries, the log was not
    cut in the first 11 bytes of a batch, and no entry that is left points beyond the whole batches. -/
theorem openSegment_crashed_iff {base maxSegmentBytes indexInterval : Int} {empty s : Segment}
    (fresh : Fresh base maxSegmentBytes indexInterval empty) (run : Reaches SegmentOp.Fits SegmentOp.Performs empty s)
    {logLeft indexLeft : Bytes} (log : logLeft <+: s.log) (index : indexLeft <+: s.indexBytes) :
    (∃ bs, s.log = logBytes bs) ∧ ∀ bs, s.log = logBytes bs →
      ((∃ s', openSegment [⟨base, some logLeft, some indexLeft, none⟩] base maxSegmentBytes indexInterval = .ok s' ∧
          s.IndexRecovered s' indexLeft.length) ↔
        indexLeft.length % indexEntrySize = 0 ∧ ¬ (1 ≤ tornTail logLeft.length bs ∧ tornTail logLeft.length bs ≤ 11) ∧
          ∀ entry ∈ s.entries.take (indexLeft.length / indexEntrySize),
            entry.position < (logBytes (wholeBatches logLeft.length bs)).length) := by
  obtain ⟨rfl, stored, _, stop, _, holds⟩ := builtAt_of_run fresh run
  refine ⟨⟨stored, holds.log_eq⟩, fun bs same => ?_⟩
  obtain rfl : stored = bs := logBytes_inj (holds.log_eq.symm.trans same)
  obtain ⟨idx, indexed, points⟩ := holds.index
  have indexed : s.index = some idx := indexed
  have entries : s.entries = idx.entries := by rw [Segment.entries, indexed]; rfl
  have bytes : s.indexBytes = encodeEntries idx.entries := by rw [Segment.indexBytes, indexed, ← points.file]; rfl
  rw [bytes] at index
  rw [same] at log
  have files : ([⟨s.baseOffset, some logLeft, some indexLeft, none⟩] : Dir).find?
      (fun files => files.baseOffset == s.baseOffset) =
        some ⟨s.baseOffset, some ((logBytes stored).take logLeft.length), some indexLeft, none⟩ := by
    rw [← List.prefix_iff_eq_take.mp log]
    simp
  rw [openSegment_cut files, Option.getD_some, entries]
  constructor
  · rintro ⟨s', opened, recovered, _⟩
    split at opened
    · cases opened
    · rename_i aligned
      split at opened
      · cases opened
      · cases opened
        have aligned : indexLeft.length % indexEntrySize = 0 := not_not.mp aligned
        refine ⟨aligned, by omega, ?_⟩
        have loaded := loadEntries_cut points.fits index aligned
        rw [entries] at recovered
        have kept := List.filter_eq_self.mp (recovered.symm.trans loaded)
        exact fun entry member => of_decide_eq_true (kept entry member)
  · rintro ⟨aligned, clean, inside⟩
    have loaded := loadEntries_cut points.fits index aligned
    rw [if_neg (not_not.mpr aligned), if_neg (by omega)]
    refine ⟨_, rfl, ?_, ?_⟩
    · rw [entries, List.filter_eq_self.mpr fun entry member => decide_eq_true (inside entry member)]
      exact loaded
    · intro entry member
      have member : entry ∈ loadEntries indexLeft 0 := member
      rw [loaded] at member
      obtain ⟨front, b, rest, parts, relative, position⟩ := points.points entry (List.mem_of_mem_take member)
      obtain ⟨torn, cut⟩ := wholeBatches_append logLeft.length stored
      obtain ⟨more, whole⟩ := points_whole (parts.symm.trans cut) (position ▸ inside entry member)
      refine ⟨front, b, more, congrArg logBytes whole, position, ?_⟩
      show b.baseOffset = s.baseOffset + entry.relativeOffset
      have relative : (entry.relativeOffset : Int) = b.baseOffset - s.baseOffset := relative
      omega

def emptySegment : Segment where
  baseOffset := 0
  logFile := some []
  index := some ⟨0, 61, [], [], 0⟩
  nextOffset := 0
  size := 0
  maxSegmentBytes := 1000
  indexInterval := 61
  remote := none
  syncedOffset := 0
  syncedBytes := 0

def twoBlanks : Segment := (emptySegment.perform (.append (headerOnly 0))).perform (.append (headerOnly 0))

theorem emptySegment_fresh : Fresh 0 1000 61 emptySegment := ⟨by decide, by decide, by decide +kernel⟩

theorem twoBlanks_reached : Reaches SegmentOp.Fits SegmentOp.Performs emptySegment twoBlanks := by
  have first : Reaches SegmentOp.Fits SegmentOp.Performs emptySegment
      (emptySegment.perform (.append (headerOnly 0))) :=
    (Reaches.refl _).next (.append (headerOnly 0)) ⟨by decide +kernel, by decide +kernel, by decide +kernel⟩ rfl
  exact first.next (.append (headerOnly 0)) ⟨by decide +kernel, by decide +kernel, by decide +kernel⟩ rfl

theorem twoBlanks_log : twoBlanks.log = logBytes [blankBatch, blankBatch.stamped 1] := by decide +kernel

theorem openSegment_crashed_twoBlanks :
    ∃ s', openSegment [⟨0, some (twoBlanks.log.take 121), some (twoBlanks.indexBytes.take 0), none⟩] 0 1000 61 = .ok s' ∧
      twoBlanks.IndexRecovered s' (twoBlanks.indexBytes.take 0).length :=
  ((openSegment_crashed_iff emptySegment_fresh twoBlanks_reached ⟨_, List.take_append_drop 121 _⟩
    ⟨_, List.take_append_drop 0 _⟩).2 _ twoBlanks_log).mpr ⟨by decide +kernel, by decide +kernel, by decide +kernel⟩

/-- If the index entry stays, it points beyond the log; if a part of it stays, the segment does not open. -/
theorem crash_leaves_index_wrong :
    Fresh 0 1000 61 emptySegment ∧ Reaches SegmentOp.Fits SegmentOp.Performs emptySegment twoBlanks ∧
      (openSegment [⟨0, some (twoBlanks.log.take 121), some twoBlanks.indexBytes, none⟩] 0 1000 61).map
        (fun s => (s.size, s.entries)) = .ok (61, [⟨1, 61⟩]) ∧
      openSegment [⟨0, some twoBlanks.log, some (twoBlanks.indexBytes.take 3), none⟩] 0 1000 61 =
        .error (.error "open segment index: EOF") :=
  ⟨emptySegment_fresh, twoBlanks_reached, by decide +kernel, by decide +kernel⟩

end PocketKafka.Storage
