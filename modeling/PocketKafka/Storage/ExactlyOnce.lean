import PocketKafka.Storage.StableOffsets

namespace PocketKafka.Storage

open Bytes Runs

structure Sent where
  epoch : Int
  baseSequence : Int
  records : Nat
  raw : Bytes

/-- How `Producer.encodeBatch` numbers the batch after `a`; a producer that was initialised again has a
    higher epoch and starts from 0. -/
def Sent.Follows (a b : Sent) : Prop :=
  b.epoch = a.epoch ∧ b.baseSequence = int32 (a.baseSequence + a.records) ∨ a.epoch < b.epoch ∧ b.baseSequence = 0

instance (a b : Sent) : Decidable (a.Follows b) := inferInstanceAs (Decidable (_ ∨ _))

structure Stream where
  pid : Int
  known : 0 ≤ pid
  batches : List Sent
  numbered : batches.IsChain Sent.Follows

/-- The `k`-th batch of the producer arrives, for the first time or again; or a batch of someone else. -/
inductive Delivery where
  | transmit (k : Nat) (sync : Bool) (fsync : Fsync)
  | other (pid epoch baseSeq : Int) (raw : Bytes) (sync : Bool) (fsync : Fsync)

/-- The partition, how many batches have been sent, what each transmission has added to the log, and how
    each was answered. -/
structure Exchange where
  partition : Partition
  sent : Nat
  appended : List (Nat × Bytes)
  answers : List (Nat × Except Failure Int)

namespace Exchange

variable {s : Stream} {x x' : Exchange}

def start (p : Partition) : Exchange := ⟨p, 0, [], []⟩

def growth (p q : Partition) : List Bytes := q.storedBatches.drop p.storedBatches.length

def receive (x : Exchange) (k : Nat) : Except Failure Int × Partition → Exchange
  | (answer, q) =>
    ⟨q, max x.sent (k + 1), x.appended ++ (growth x.partition q).map (fun raw => (k, raw)), x.answers ++ [(k, answer)]⟩

/-- First transmissions arrive in order; what was sent before can arrive again at any time. -/
def Steps (s : Stream) (x : Exchange) : Delivery → Exchange → Prop
  | .transmit k sync fsync, x' => k ≤ x.sent ∧ ∃ b ∈ s.batches[k]?,
      x' = x.receive k (x.partition.appendIdempotentSynced s.pid b.epoch b.baseSequence b.raw sync fsync)
  | .other pid epoch baseSeq raw sync fsync, x' => pid ≠ s.pid ∧
      x' = { x with partition := (x.partition.appendIdempotentSynced pid epoch baseSeq raw sync fsync).2 }

/-- Every batch that was sent is in the log once, as it was sent, and its acknowledgements name its offset. -/
structure ExactlyOnce (s : Stream) (x : Exchange) : Prop where
  once : x.appended.map Prod.fst = List.range x.sent
  asSent : ∀ k raw, (k, raw) ∈ x.appended → ∃ b ∈ s.batches[k]?, raw = stamp b.raw (baseOffsetField raw)
  acknowledged : ∀ k offset, (k, .ok offset) ∈ x.answers → ∃ raw, (k, raw) ∈ x.appended ∧ baseOffsetField raw = offset

end Exchange

/-- The append succeeds: the batch fits, also into the offset range of its segment. -/
def Partition.HasRoom (p : Partition) (raw : Bytes) : Prop :=
  p.Accepts raw ∧ ∀ active ∈ p.activeSegment,
    p.nextOffset + lastOffsetDeltaField raw + 1 - (if active.full then p.nextOffset else active.baseOffset) ≤ 2147483647

instance (p : Partition) (raw : Bytes) : Decidable (p.HasRoom raw) := inferInstanceAs (Decidable (_ ∧ _))

def Fsync.Succeeds (fsync : Fsync) : Prop := fsync.log = .ok () ∧ fsync.index = .ok ()

/-- Batch `k` comes next after the latest one, with a sequence number one higher; or it is the latest
    one again; or it is of an earlier epoch. -/
def Exchange.InTurn (s : Stream) (x : Exchange) (k : Nat) (b : Sent) : Prop :=
  ∀ n, x.sent = n + 1 → ∀ latest ∈ s.batches[n]?,
    k = n + 1 ∧ b.baseSequence = int32 (latest.baseSequence + 1) ∨ k = n ∨ k < n ∧ b.epoch < latest.epoch

def Exchange.Guard (s : Stream) (x : Exchange) : Delivery → Prop
  | .transmit k _ fsync => fsync.Succeeds ∧ ∀ b ∈ s.batches[k]?, x.partition.HasRoom b.raw ∧ x.InTurn s k b
  | .other _ _ _ raw _ _ => x.partition.Accepts raw

namespace Partition

variable {p : Partition} {raw : Bytes}

theorem sync_cases {active : Segment} (found : p.activeSegment = some active) (fsync : Fsync) :
    (p.sync fsync).2 = p ∨ (p.sync fsync).2 = { p with activeSegment := some active.sync } := by
  unfold sync
  rw [found]
  dsimp only
  split
  · exact Or.inl rfl
  · split
    · exact Or.inl rfl
    · exact Or.inr rfl

namespace Holds

variable {closed : List (List Batch)} {active : Segment} {last : List Batch}

theorem sync_holds (h : p.Holds closed active last) (fsync : Fsync) :
    ∃ active', (p.sync fsync).2.Holds closed active' last := by
  rcases sync_cases h.activeSegment fsync with same | synced
  · rw [same]
    exact ⟨active, h⟩
  · have log := h.activeHolds.log
    have durable : active.sync = { active with syncedOffset := active.nextOffset, syncedBytes := active.size } := by
      rw [Segment.sync, log]
    have held := h.activeHolds
    refine ⟨active.sync, ?_⟩
    rw [synced, durable]
    exact ⟨rfl, h.closedHold, ⟨held.isLocal, held.log, held.size, held.base, held.next, held.ordered, held.near,
      held.starts, held.index⟩, h.linked, h.advancing, h.closedMax, h.activeMax, h.positive, h.nextOffset,
      h.highWatermark⟩

theorem sync_succeeds (h : p.Holds closed active last) {fsync : Fsync} (succeeds : fsync.Succeeds) :
    (p.sync fsync).1 = .ok () := by
  unfold sync
  rw [h.activeSegment]
  simp only [succeeds.1, succeeds.2]
  split
  · rfl
  · simp

theorem append_within (h : p.Holds closed active last) (room : p.HasRoom raw) :
    ∃ q, p.append raw = (.ok p.nextOffset, q) := by
  obtain ⟨⟨shape, fits, small⟩, near⟩ := room
  have near := near active h.activeSegment
  obtain ⟨closed', active', last', r, rolled, holds, _, small', next, _, _, base⟩ := h.rolled
  have same : active'.nextOffset = p.nextOffset := holds.nextOffset.symm.trans next
  have range : active'.nextOffset + lastOffsetDeltaField raw + 1 - active'.baseOffset ≤ 2147483647 := by
    rw [same, base]
    exact near
  obtain ⟨s', done, _⟩ := holds.activeHolds.append_holds (Batch.ofRaw shape) (small' (small active h.activeSegment))
    (by rw [same]; exact fits) range
  have stored : active'.append raw = .ok (p.nextOffset, s') := by
    rw [← same]
    exact done
  refine ⟨r.storing s', ?_⟩
  simp only [append, h.activeSegment, rolled, holds.activeSegment, stored, Partition.storing]

end Holds

theorem Stores.remembering (stores : p.Stores) (tracker : PartitionIdempotenceTracker) :
    Partition.Stores { p with idempotence := tracker } := by
  obtain ⟨closed, active, last, h⟩ := stores
  exact ⟨closed, active, last, h.activeSegment, h.closedHold, h.activeHolds, h.linked, h.advancing, h.closedMax,
    h.activeMax, h.positive, h.nextOffset, h.highWatermark⟩

theorem Stores.appendSynced (stores : p.Stores) (accepts : p.Accepts raw) (sync : Bool) (fsync : Fsync) :
    (p.appendSynced raw sync fsync).2.Stores := by
  have running : Operation.Running p (.append raw) := accepts
  have appended : (p.append raw).2.Stores := Performs.stores stores running rfl
  unfold Partition.appendSynced
  generalize p.append raw = outcome at appended
  obtain ⟨result, q⟩ := outcome
  cases result with
  | error failure => exact appended
  | ok off =>
    obtain ⟨closed, active, last, holds⟩ := appended
    obtain ⟨active', synced⟩ := holds.sync_holds fsync
    dsimp only
    generalize q.sync fsync = outcome at synced
    obtain ⟨result, r⟩ := outcome
    split
    · cases result with
      | error failure => exact ⟨closed, active', last, synced⟩
      | ok _ => exact ⟨closed, active', last, synced⟩
    · exact ⟨closed, active, last, holds⟩

theorem Stores.appendSynced_room (stores : p.Stores) (room : p.HasRoom raw) (sync : Bool) {fsync : Fsync}
    (succeeds : fsync.Succeeds) :
    ∃ q, p.appendSynced raw sync fsync = (.ok p.nextOffset, q) ∧
      q.storedBatches = p.storedBatches ++ [stamp raw p.nextOffset] ∧
      baseOffsetField (stamp raw p.nextOffset) = p.nextOffset := by
  obtain ⟨closed, active, last, h⟩ := stores
  obtain ⟨⟨shape, fits, small⟩, _⟩ := id room
  obtain ⟨closed', active', last', q, more, holds, whole, _, _, _, result⟩ :=
    h.append_cases (Batch.ofRaw shape) (small active h.activeSegment) fits
  have base : baseOffsetField (stamp raw p.nextOffset) = p.nextOffset := h.stamped_baseOffset (Batch.ofRaw shape)
  obtain ⟨r, taken⟩ := h.append_within room
  rcases result with ⟨_, _, refused⟩ | ⟨rfl, _, done⟩
  · cases taken.symm.trans refused
  · obtain ⟨active'', synced⟩ := holds.sync_holds fsync
    have answered := holds.sync_succeeds succeeds
    have log : ∀ {s : Partition} {active : Segment}, s.Holds closed' active last' →
        s.storedBatches = p.storedBatches ++ [stamp raw p.nextOffset] := by
      intro s active stored
      rw [stored.storedBatches_eq, whole, h.storedBatches_eq, List.map_append]
      rfl
    have done : p.append raw = (.ok p.nextOffset, q) := done
    unfold Partition.appendSynced
    rw [done]
    dsimp only
    generalize q.sync fsync = outcome at synced answered
    obtain ⟨result, r⟩ := outcome
    obtain rfl : result = .ok () := answered
    split
    · exact ⟨r, rfl, log synced, base⟩
    · exact ⟨q, rfl, log holds, base⟩

end Partition

namespace Exchange

variable {s : Stream} {x x' : Exchange}

structure Valid (s : Stream) (x : Exchange) : Prop where
  stores : x.partition.Stores
  exactlyOnce : x.ExactlyOnce s
  unknown : x.sent = 0 → x.partition.idempotence.producerStates s.pid = none
  latest : ∀ n, x.sent = n + 1 → ∃ b ∈ s.batches[n]?, ∃ raw, (n, raw) ∈ x.appended ∧
    x.partition.idempotence.producerStates s.pid = some ⟨b.baseSequence, baseOffsetField raw, b.epoch⟩

theorem start_valid {p : Partition} (stores : p.Stores) (unknown : p.idempotence.producerStates s.pid = none) :
    Valid s (start p) where
  stores := stores
  exactlyOnce := ⟨rfl, by simp [start], by simp [start]⟩
  unknown := fun _ => unknown
  latest := by simp [start]

theorem Valid.stored (valid : x.Valid s) {b : Sent} (found : b ∈ s.batches[x.sent]?) {sync : Bool} {fsync : Fsync}
    (succeeds : fsync.Succeeds) (room : x.partition.HasRoom b.raw) (inTurn : x.InTurn s x.sent b) :
    (x.receive x.sent (x.partition.appendIdempotentSynced s.pid b.epoch b.baseSequence b.raw sync fsync)).Valid s := by
  obtain ⟨q, done, log, base⟩ := valid.stores.appendSynced_room room sync succeeds
  have appends : (x.partition.appendSynced b.raw sync fsync).2.Stores := valid.stores.appendSynced room.1 sync fsync
  rw [done] at appends
  -- The tracker takes the batch, because it is the first or because its number is one higher.
  have takes : x.partition.idempotence.validateAndAppend s.pid b.epoch b.baseSequence
      (fun p : Partition => p.appendSynced b.raw sync fsync) x.partition = (.ok x.partition.nextOffset,
        x.partition.idempotence.remember s.pid ⟨b.baseSequence, x.partition.nextOffset, b.epoch⟩, q) := by
    cases sent : x.sent with
    | zero => exact PartitionIdempotenceTracker.validateAndAppend_first s.known (valid.unknown sent) done
    | succ n =>
      obtain ⟨latest, known, raw, _, state⟩ := valid.latest n sent
      rw [sent] at found inTurn
      have follows : latest.Follows b := by
        obtain ⟨inside, rfl⟩ := List.getElem?_eq_some_iff.mp known
        obtain ⟨inside', rfl⟩ := List.getElem?_eq_some_iff.mp found
        exact List.isChain_iff_getElem.mp s.numbered n inside'
      have current : latest.epoch ≤ b.epoch := by
        rcases follows with ⟨same, _⟩ | ⟨higher, _⟩
        · exact same.ge
        · exact higher.le
      have next : b.baseSequence = int32 (latest.baseSequence + 1) := by
        rcases inTurn n sent latest known with ⟨_, next⟩ | clash | ⟨clash, _⟩
        · exact next
        · omega
        · omega
      exact PartitionIdempotenceTracker.validateAndAppend_next s.known state current next done
  have grown : growth x.partition { q with
      idempotence := x.partition.idempotence.remember s.pid ⟨b.baseSequence, x.partition.nextOffset, b.epoch⟩ } =
        [stamp b.raw x.partition.nextOffset] := by
    show q.storedBatches.drop _ = _
    rw [log, List.drop_left]
  rw [Partition.appendIdempotentSynced, takes]
  dsimp only [receive]
  rw [grown, Nat.max_eq_right (Nat.le_succ _)]
  refine ⟨appends.remembering _, ⟨?_, ?_, ?_⟩, fun clash => absurd clash (Nat.succ_ne_zero _), ?_⟩
  · rw [List.map_append, valid.exactlyOnce.once, List.range_succ]
    rfl
  · intro k raw member
    rcases List.mem_append.mp member with old | new
    · exact valid.exactlyOnce.asSent k raw old
    · obtain ⟨rfl, rfl⟩ := Prod.mk.inj (List.mem_singleton.mp new)
      exact ⟨b, found, by rw [base]⟩
  · intro k offset member
    rcases List.mem_append.mp member with old | new
    · obtain ⟨raw, stored, same⟩ := valid.exactlyOnce.acknowledged k offset old
      exact ⟨raw, List.mem_append_left _ stored, same⟩
    · obtain ⟨rfl, same⟩ := Prod.mk.inj (List.mem_singleton.mp new)
      cases same
      exact ⟨_, List.mem_append_right _ (List.mem_singleton_self _), base⟩
  · intro n sent
    obtain rfl : x.sent = n := Nat.succ.inj sent
    refine ⟨b, found, _, List.mem_append_right _ (List.mem_singleton_self _), ?_⟩
    rw [base]
    exact PartitionIdempotenceTracker.remember_self

theorem Valid.answered (valid : x.Valid s) {k : Nat} (sentBefore : k < x.sent) {answer : Except Failure Int}
    (right : ∀ offset, answer = .ok offset → ∃ raw, (k, raw) ∈ x.appended ∧ baseOffsetField raw = offset) :
    (x.receive k (answer, x.partition)).Valid s := by
  have unchanged : x.receive k (answer, x.partition) = { x with answers := x.answers ++ [(k, answer)] } := by
    simp [receive, growth, Nat.max_eq_left sentBefore]
  rw [unchanged]
  refine ⟨valid.stores, ⟨valid.exactlyOnce.once, valid.exactlyOnce.asSent, ?_⟩, valid.unknown, valid.latest⟩
  intro j offset member
  rcases List.mem_append.mp member with old | new
  · exact valid.exactlyOnce.acknowledged j offset old
  · obtain ⟨rfl, same⟩ := Prod.mk.inj (List.mem_singleton.mp new)
    exact right offset same.symm

theorem Valid.again (valid : x.Valid s) {k : Nat} {b : Sent} (found : b ∈ s.batches[k]?) (sentBefore : k < x.sent)
    {sync : Bool} {fsync : Fsync} (inTurn : x.InTurn s k b) :
    (x.receive k (x.partition.appendIdempotentSynced s.pid b.epoch b.baseSequence b.raw sync fsync)).Valid s := by
  obtain ⟨n, sent⟩ := Nat.exists_eq_succ_of_ne_zero (Nat.ne_of_gt (Nat.zero_lt_of_lt sentBefore))
  obtain ⟨latest, known, raw, stored, state⟩ := valid.latest n sent
  rw [Partition.appendIdempotentSynced]
  rcases inTurn n sent latest known with ⟨clash, _⟩ | rfl | ⟨_, old⟩
  · omega
  · obtain rfl : b = latest := Option.some.inj (found.symm.trans known)
    rw [PartitionIdempotenceTracker.validateAndAppend_again s.known state]
    apply valid.answered sentBefore
    intro offset same
    cases same
    exact ⟨raw, stored, rfl⟩
  · rw [PartitionIdempotenceTracker.validateAndAppend_old_epoch s.known state old]
    apply valid.answered sentBefore
    intro offset same
    cases same

theorem Valid.other (valid : x.Valid s) {pid : Int} (distinct : pid ≠ s.pid) {epoch baseSeq : Int} {raw : Bytes}
    (accepts : x.partition.Accepts raw) {sync : Bool} {fsync : Fsync} :
    Valid s { x with partition := (x.partition.appendIdempotentSynced pid epoch baseSeq raw sync fsync).2 } := by
  have frame : (x.partition.idempotence.validateAndAppend pid epoch baseSeq
      (fun p : Partition => p.appendSynced raw sync fsync) x.partition).2.1.producerStates s.pid =
        x.partition.idempotence.producerStates s.pid :=
    PartitionIdempotenceTracker.validateAndAppend_frame distinct.symm
  have stores : (x.partition.idempotence.validateAndAppend pid epoch baseSeq
      (fun p : Partition => p.appendSynced raw sync fsync) x.partition).2.2.Stores := by
    apply PartitionIdempotenceTracker.validateAndAppend_store.elim
    · intro same
      rw [same]
      exact valid.stores
    · intro appended
      rw [appended]
      exact valid.stores.appendSynced accepts sync fsync
  unfold Partition.appendIdempotentSynced
  generalize x.partition.idempotence.validateAndAppend pid epoch baseSeq
    (fun p : Partition => p.appendSynced raw sync fsync) x.partition = outcome at frame stores
  obtain ⟨_, tracker, q⟩ := outcome
  refine ⟨stores.remembering tracker, ⟨valid.exactlyOnce.once, valid.exactlyOnce.asSent, valid.exactlyOnce.acknowledged⟩,
    ?_, ?_⟩
  · intro none
    exact frame.trans (valid.unknown none)
  · intro n sent
    obtain ⟨b, found, raw, stored, state⟩ := valid.latest n sent
    exact ⟨b, found, raw, stored, frame.trans state⟩

theorem Valid.step {d : Delivery} (valid : x.Valid s) (guard : x.Guard s d) (done : x.Steps s d x') : x'.Valid s := by
  cases d with
  | transmit k sync fsync =>
    obtain ⟨order, b, found, rfl⟩ := done
    obtain ⟨succeeds, meets⟩ := guard
    obtain ⟨room, inTurn⟩ := meets b found
    rcases Nat.lt_or_eq_of_le order with before | rfl
    · exact valid.again found before inTurn
    · exact valid.stored found succeeds room inTurn
  | other pid epoch baseSeq raw sync fsync =>
    obtain ⟨distinct, rfl⟩ := done
    exact valid.other distinct guard

end Exchange

/-- A run in which each new batch has the next sequence number and only the latest batch is sent again is
    exactly-once. -/
theorem exactly_once {s : Stream} {p : Partition} (stores : p.Stores)
    (unknown : p.idempotence.producerStates s.pid = none) {x : Exchange}
    (run : Reaches (Exchange.Guard s) (Exchange.Steps s) (Exchange.start p) x) : x.ExactlyOnce s :=
  (run.invariant (Exchange.start_valid stores unknown) fun _ _ _ => Exchange.Valid.step).exactlyOnce

namespace Exchange

variable {s : Stream} {x : Exchange}

def transmit (s : Stream) (x : Exchange) (k : Nat) : Exchange :=
  match s.batches[k]? with
  | none => x
  | some b => x.receive k (x.partition.appendIdempotentSynced s.pid b.epoch b.baseSequence b.raw false ⟨.ok (), .ok ()⟩)

def transmitAll (s : Stream) (x : Exchange) (ks : List Nat) : Exchange := ks.foldl (transmit s) x

/-- The schedule sends the batches in order, some of them again. -/
def Schedules (s : Stream) (x : Exchange) : List Nat → Prop
  | [] => True
  | k :: ks => k ≤ x.sent ∧ k < s.batches.length ∧ Schedules s (x.transmit s k) ks

instance decidableSchedules (s : Stream) (x : Exchange) : (ks : List Nat) → Decidable (x.Schedules s ks)
  | [] => .isTrue trivial
  | k :: ks =>
    have := decidableSchedules s (x.transmit s k) ks
    inferInstanceAs (Decidable (_ ∧ _ ∧ _))

theorem transmit_steps {k : Nat} (order : k ≤ x.sent) (inside : k < s.batches.length) :
    x.Steps s (.transmit k false ⟨.ok (), .ok ()⟩) (x.transmit s k) := by
  refine ⟨order, s.batches[k], List.getElem?_eq_getElem inside, ?_⟩
  rw [transmit, List.getElem?_eq_getElem inside]

theorem Schedules.reaches {ks : List Nat} (schedules : x.Schedules s ks) :
    Reaches (fun _ _ => True) (Steps s) x (x.transmitAll s ks) := by
  suffices ∀ first, Reaches (fun _ _ => True) (Steps s) first x →
      Reaches (fun _ _ => True) (Steps s) first (x.transmitAll s ks) from this x (.refl x)
  induction ks generalizing x with
  | nil => exact fun _ run => run
  | cons k ks ih =>
    intro first run
    obtain ⟨order, inside, rest⟩ := schedules
    exact ih rest first (run.next _ trivial (transmit_steps order inside))

end Exchange

def twoPairs : Stream where
  pid := 1
  known := by decide
  batches := [⟨0, 0, 2, headerOnly 1⟩, ⟨0, 2, 2, headerOnly 1⟩]
  numbered := by decide +kernel

def twoSingles : Stream where
  pid := 1
  known := by decide
  batches := [⟨0, 0, 1, headerOnly 0⟩, ⟨0, 1, 1, headerOnly 0⟩]
  numbered := by decide +kernel

def restarted : Stream where
  pid := 1
  known := by decide
  batches := [⟨0, 0, 1, headerOnly 0⟩, ⟨1, 0, 1, headerOnly 0⟩]
  numbered := by decide +kernel

theorem exactly_once_first_again : ∃ empty : Partition, openPartition [] 1000 100 = .ok empty ∧
    Reaches (Exchange.Guard twoSingles) (Exchange.Steps twoSingles) (Exchange.start empty)
      ((Exchange.start empty).transmitAll twoSingles [0, 0]) ∧
    ((Exchange.start empty).transmitAll twoSingles [0, 0]).answers = [(0, .ok 0), (0, .ok 0)] ∧
    ((Exchange.start empty).transmitAll twoSingles [0, 0]).ExactlyOnce twoSingles := by
  obtain ⟨empty, opened, unknown, room, answers, sent, room'⟩ : ∃ empty, openPartition [] 1000 100 = .ok empty ∧
      empty.idempotence.producerStates 1 = none ∧ empty.HasRoom (headerOnly 0) ∧
      ((Exchange.start empty).transmitAll twoSingles [0, 0]).answers = [(0, .ok 0), (0, .ok 0)] ∧
      ((Exchange.start empty).transmit twoSingles 0).sent = 1 ∧
      ((Exchange.start empty).transmit twoSingles 0).partition.HasRoom (headerOnly 0) :=
    exists_of_map (by decide +kernel)
  have stores : empty.Stores :=
    stores_appendAll (show (0 : Int) < 1000 by decide) opened (show empty.AcceptsAll [] from trivial)
  have unknown : empty.idempotence.producerStates twoSingles.pid = none := unknown
  have first : Exchange.Guard twoSingles (Exchange.start empty) (.transmit 0 false ⟨.ok (), .ok ()⟩) := by
    refine ⟨⟨rfl, rfl⟩, ?_⟩
    intro b found
    cases found
    exact ⟨room, fun n clash => absurd clash (Nat.succ_ne_zero n).symm⟩
  have again : Exchange.Guard twoSingles ((Exchange.start empty).transmit twoSingles 0)
      (.transmit 0 false ⟨.ok (), .ok ()⟩) := by
    refine ⟨⟨rfl, rfl⟩, ?_⟩
    intro b found
    cases found
    refine ⟨room', fun n same latest _ => Or.inr (Or.inl ?_)⟩
    rw [sent] at same
    omega
  have run : Reaches (Exchange.Guard twoSingles) (Exchange.Steps twoSingles) (Exchange.start empty)
      ((Exchange.start empty).transmitAll twoSingles [0, 0]) := by
    apply Reaches.next _ _ again (Exchange.transmit_steps (Nat.zero_le _) (by decide))
    exact (Reaches.refl _).next _ first (Exchange.transmit_steps (Nat.zero_le _) (by decide))
  exact ⟨empty, opened, run, answers, exactly_once stores unknown run⟩

/-- The batch after a batch of two records is refused; the older of two batches, sent again, is
    acknowledged with the offset of the newer; the first batch of a new epoch is acknowledged and not stored. -/
theorem producer_batches_lost : ∃ empty : Partition, openPartition [] 1000 100 = .ok empty ∧
    (∃ x, Reaches (fun _ _ => True) (Exchange.Steps twoPairs) (Exchange.start empty) x ∧
      x.answers = [(0, .ok 0), (1, .error (.error "out of order sequence number"))] ∧
      x.appended.map Prod.fst = [0] ∧ ¬ x.ExactlyOnce twoPairs) ∧
    (∃ x, Reaches (fun _ _ => True) (Exchange.Steps twoSingles) (Exchange.start empty) x ∧
      x.answers = [(0, .ok 0), (1, .ok 1), (0, .ok 1)] ∧
      x.appended.map Prod.fst = [0, 1] ∧ ¬ x.ExactlyOnce twoSingles) ∧
    (∃ x, Reaches (fun _ _ => True) (Exchange.Steps restarted) (Exchange.start empty) x ∧
      x.answers = [(0, .ok 0), (1, .ok 0)] ∧ x.appended.map Prod.fst = [0] ∧ ¬ x.ExactlyOnce restarted) := by
  obtain ⟨empty, opened, pairs, singles, again⟩ : ∃ empty, openPartition [] 1000 100 = .ok empty ∧
      ((Exchange.start empty).Schedules twoPairs [0, 1] ∧
        ((Exchange.start empty).transmitAll twoPairs [0, 1]).answers =
          [(0, .ok 0), (1, .error (.error "out of order sequence number"))] ∧
        ((Exchange.start empty).transmitAll twoPairs [0, 1]).appended.map Prod.fst = [0]) ∧
      ((Exchange.start empty).Schedules twoSingles [0, 1, 0] ∧
        ((Exchange.start empty).transmitAll twoSingles [0, 1, 0]).answers = [(0, .ok 0), (1, .ok 1), (0, .ok 1)] ∧
        ((Exchange.start empty).transmitAll twoSingles [0, 1, 0]).appended.map
          (fun entry => (entry.1, baseOffsetField entry.2)) = [(0, 0), (1, 1)]) ∧
      ((Exchange.start empty).Schedules restarted [0, 1] ∧
        ((Exchange.start empty).transmitAll restarted [0, 1]).answers = [(0, .ok 0), (1, .ok 0)] ∧
        ((Exchange.start empty).transmitAll restarted [0, 1]).appended.map Prod.fst = [0]) :=
    exists_of_map (by decide +kernel)
  refine ⟨empty, opened, ⟨_, pairs.1.reaches, pairs.2.1, pairs.2.2, ?_⟩, ⟨_, singles.1.reaches, singles.2.1, ?_, ?_⟩,
    ⟨_, again.1.reaches, again.2.1, again.2.2, ?_⟩⟩
  · intro exact
    have once := exact.once
    rw [pairs.2.2] at once
    cases once
  · have first := congrArg (List.map Prod.fst) singles.2.2
    rw [List.map_map] at first
    exact first
  · intro exact
    obtain ⟨raw, stored, same⟩ := exact.acknowledged 0 1 (by rw [singles.2.1]; decide)
    have listed := List.mem_map_of_mem (f := fun entry : Nat × Bytes => (entry.1, baseOffsetField entry.2)) stored
    rw [singles.2.2] at listed
    simp only [same] at listed
    exact absurd listed (by decide)
  · intro exact
    have once := exact.once
    rw [again.2.2] at once
    cases once

end PocketKafka.Storage
