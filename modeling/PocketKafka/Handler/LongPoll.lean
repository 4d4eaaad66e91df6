import PocketKafka.Storage.PartitionRuns

namespace PocketKafka.Handler

open Bytes Runs Storage

/-- How far a call of `AppendSynced` has come; `Append` is a call without a sync. -/
inductive AppendPhase where
  | waiting
  | locked
  | stored (offset : Int)
  | signalled (offset : Int)
  | failed (failure : Failure)
  | syncing (offset : Int)
  | returned (result : Except Failure Int)

def AppendPhase.critical : AppendPhase → Bool
  | .locked | .stored _ | .signalled _ | .failed _ => true
  | .waiting | .syncing _ | .returned _ => false

def AppendPhase.isStored : AppendPhase → Bool
  | .stored _ => true
  | _ => false

structure AppendCall where
  raw : Bytes
  sync : Bool
  phase : AppendPhase

inductive PollPhase where
  | starting
  | holding (ch : Nat)
  | blocked (ch : Nat)
  | returned (woke : Bool)
  deriving DecidableEq, Repr

structure PollCall where
  fetchOffset : Int
  deadline : Int
  phase : PollPhase
  deriving DecidableEq, Repr

/-- Channels are numbered in the order in which they are made. -/
structure PollSystem where
  partition : Partition
  appendCh : Nat
  closedChannels : List Nat
  appends : List AppendCall
  polls : List PollCall

inductive PollEvent where
  | callAppend (raw : Bytes) (sync : Bool)
  | callPoll (fetchOffset deadline : Int)
  | advanceAppend (i : Nat) (fsync : Fsync)
  | advancePoll (i : Nat) (now : Int)
  | expirePoll (i : Nat) (now : Int)

namespace PollSystem

def writing (s : PollSystem) : Bool := s.appends.any fun call => call.phase.critical

def setAppend (s : PollSystem) (i : Nat) (call : AppendCall) (phase : AppendPhase) : PollSystem :=
  { s with appends := s.appends.set i { call with phase := phase } }

def setPoll (s : PollSystem) (i : Nat) (call : PollCall) (phase : PollPhase) : PollSystem :=
  { s with polls := s.polls.set i { call with phase := phase } }

/-- The sections of `Append`: the lock, the write, the exchange of the channel, the unlock; behind
    them `AppendSynced` may sync, under the lock again. -/
def advanceAppend (s : PollSystem) (i : Nat) (fsync : Fsync) : Option PollSystem :=
  match s.appends[i]? with
  | none => none
  | some call =>
    match call.phase with
    | .waiting => if s.writing then none else some (s.setAppend i call .locked)
    | .locked =>
      match s.partition.append call.raw with
      | (.error failure, p) => some ({ s with partition := p }.setAppend i call (.failed failure))
      | (.ok offset, p) => some ({ s with partition := p }.setAppend i call (.stored offset))
    | .stored offset => some ({ s with
        closedChannels := s.appendCh :: s.closedChannels
        appendCh := s.appendCh + 1 }.setAppend i call (.signalled offset))
    | .signalled offset => some (s.setAppend i call (if call.sync then .syncing offset else .returned (.ok offset)))
    | .failed failure => some (s.setAppend i call (.returned (.error failure)))
    | .syncing offset =>
      if s.writing then none
      else
        match s.partition.sync fsync with
        | (.error failure, p) => some ({ s with partition := p }.setAppend i call (.returned (.error failure)))
        | (.ok (), p) => some ({ s with partition := p }.setAppend i call (.returned (.ok offset)))
    | .returned _ => none

/-- The loop of `longPoll`: `DataWaiter` takes the channel first and reads the watermark, under the
    partition's lock, second. -/
def advancePoll (s : PollSystem) (i : Nat) (now : Int) : Option PollSystem :=
  match s.polls[i]? with
  | none => none
  | some call =>
    match call.phase with
    | .starting => some (s.setPoll i call (.holding s.appendCh))
    | .holding ch =>
      if s.writing then none
      else if call.fetchOffset < s.partition.highWatermark then some (s.setPoll i call (.returned true))
      else if call.deadline ≤ now then some (s.setPoll i call (.returned false))
      else some (s.setPoll i call (.blocked ch))
    | .blocked ch => if ch ∈ s.closedChannels then some (s.setPoll i call .starting) else none
    | .returned _ => none

def expirePoll (s : PollSystem) (i : Nat) (now : Int) : Option PollSystem :=
  match s.polls[i]? with
  | none => none
  | some call =>
    match call.phase with
    | .blocked _ => if call.deadline ≤ now then some (s.setPoll i call (.returned false)) else none
    | _ => none

def perform (s : PollSystem) : PollEvent → Option PollSystem
  | .callAppend raw sync => some { s with appends := s.appends ++ [⟨raw, sync, .waiting⟩] }
  | .callPoll fetchOffset deadline => some { s with polls := s.polls ++ [⟨fetchOffset, deadline, .starting⟩] }
  | .advanceAppend i fsync => s.advanceAppend i fsync
  | .advancePoll i now => s.advancePoll i now
  | .expirePoll i now => s.expirePoll i now

def Steps (s : PollSystem) (event : PollEvent) (t : PollSystem) : Prop := s.perform event = some t

def idle (p : Partition) : PollSystem := ⟨p, 0, [], [], []⟩

/-- A poll that waits for an open channel has seen the watermark, up to an append that is about to
    close the channel. -/
def Watched (s : PollSystem) (call : PollCall) : Prop :=
  match call.phase with
  | .starting | .returned _ => True
  | .holding ch => ch = s.appendCh ∨ ch ∈ s.closedChannels
  | .blocked ch => ch ∈ s.closedChannels ∨
      ch = s.appendCh ∧ (s.partition.highWatermark ≤ call.fetchOffset ∨ ∃ a ∈ s.appends, a.phase.isStored)

def Watching (s : PollSystem) : Prop := ∀ call ∈ s.polls, s.Watched call

structure Keeps (s t : PollSystem) : Prop where
  channel : t.appendCh = s.appendCh ∨ s.appendCh ∈ t.closedChannels
  closed : s.closedChannels ⊆ t.closedChannels
  watermark : t.partition.highWatermark ≤ s.partition.highWatermark ∨ ∃ a ∈ t.appends, a.phase.isStored
  stored : s.appendCh ∈ t.closedChannels ∨ ((∃ a ∈ s.appends, a.phase.isStored) → ∃ a ∈ t.appends, a.phase.isStored)

theorem Keeps.watched {s t : PollSystem} (keeps : Keeps s t) {call : PollCall} (h : s.Watched call) : t.Watched call := by
  unfold Watched at h ⊢
  cases phase : call.phase with
  | starting => trivial
  | returned woke => trivial
  | holding ch =>
    simp only [phase] at h ⊢
    rcases h with rfl | old
    · exact keeps.channel.imp_left Eq.symm
    · exact Or.inr (keeps.closed old)
  | blocked ch =>
    simp only [phase] at h ⊢
    rcases h with old | ⟨rfl, seen⟩
    · exact Or.inl (keeps.closed old)
    · rcases keeps.channel with same | closed
      · rcases keeps.stored with closed | kept
        · exact Or.inl closed
        · refine Or.inr ⟨same.symm, ?_⟩
          rcases seen with below | pending
          · exact keeps.watermark.imp_left fun lower => lower.trans below
          · exact Or.inr (kept pending)
      · exact Or.inl closed

theorem append_failed_watermark {p q : Partition} {raw : Bytes} {failure : Failure}
    (failed : p.append raw = (.error failure, q)) : q.highWatermark = p.highWatermark := by
  have rolled : p.roll.2.highWatermark = p.highWatermark := by
    unfold Partition.roll
    dsimp only
    split <;> rfl
  unfold Partition.append at failed
  split at failed
  · cases failed
    rfl
  · rename_i active _
    have same : (if active.full then p.roll else (.ok (), p)).2.highWatermark = p.highWatermark := by
      split
      · exact rolled
      · rfl
    split at failed
    · rename_i outcome
      rw [outcome] at same
      cases failed
      exact same
    · rename_i outcome
      rw [outcome] at same
      split at failed
      · cases failed
        exact same
      · split at failed
        · cases failed
          exact same
        · cases failed

theorem sync_watermark (p : Partition) (fsync : Fsync) : (p.sync fsync).2.highWatermark = p.highWatermark := by
  unfold Partition.sync
  split
  · rfl
  · split
    · rfl
    · split <;> rfl

variable {s t : PollSystem} {i : Nat}

theorem keeps_setAppend {call : AppendCall} (found : s.appends[i]? = some call) (quiet : call.phase.isStored = false)
    (p : Partition) (same : p.highWatermark = s.partition.highWatermark) (phase : AppendPhase) :
    Keeps s ({ s with partition := p }.setAppend i call phase) where
  channel := Or.inl rfl
  closed := fun _ => id
  watermark := Or.inl same.le
  stored := by
    right
    rintro ⟨a, member, stored⟩
    obtain ⟨j, inside, rfl⟩ := List.getElem_of_mem member
    have other : i ≠ j := by
      rintro rfl
      rw [List.getElem?_eq_getElem inside, Option.some.injEq] at found
      rw [found, quiet] at stored
      cases stored
    refine ⟨s.appends[j], ?_, stored⟩
    exact List.mem_of_getElem? (List.getElem?_set_ne other |>.trans (List.getElem?_eq_getElem inside))

theorem advanceAppend_keeps {fsync : Fsync} (step : s.advanceAppend i fsync = some t) :
    Keeps s t ∧ t.polls = s.polls := by
  unfold advanceAppend at step
  cases found : s.appends[i]? with
  | none => simp [found] at step
  | some call =>
    simp only [found] at step
    have inside : i < s.appends.length := (List.getElem?_eq_some_iff.mp found).1
    cases phase : call.phase with
    | waiting =>
      simp only [phase] at step
      split at step
      · cases step
      · cases step
        exact ⟨keeps_setAppend found (by rw [phase]; rfl) s.partition rfl _, rfl⟩
    | locked =>
      simp only [phase] at step
      split at step
      · rename_i failed
        cases step
        exact ⟨keeps_setAppend found (by rw [phase]; rfl) _ (append_failed_watermark failed) _, rfl⟩
      · rename_i offset p _
        cases step
        have stored : ∃ a ∈ ({ s with partition := p }.setAppend i call (.stored offset)).appends, a.phase.isStored :=
          ⟨_, List.mem_set inside _, rfl⟩
        exact ⟨⟨Or.inl rfl, fun _ => id, Or.inr stored, Or.inr fun _ => stored⟩, rfl⟩
    | stored offset =>
      simp only [phase] at step
      cases step
      exact ⟨⟨Or.inr List.mem_cons_self, fun _ => List.mem_cons_of_mem _, Or.inl le_rfl, Or.inl List.mem_cons_self⟩, rfl⟩
    | signalled offset =>
      simp only [phase] at step
      cases step
      exact ⟨keeps_setAppend found (by rw [phase]; rfl) s.partition rfl _, rfl⟩
    | failed failure =>
      simp only [phase] at step
      cases step
      exact ⟨keeps_setAppend found (by rw [phase]; rfl) s.partition rfl _, rfl⟩
    | syncing offset =>
      have same := sync_watermark s.partition fsync
      simp only [phase] at step
      split at step
      · cases step
      · split at step
        all_goals
          rename_i synced
          rw [synced] at same
          cases step
          exact ⟨keeps_setAppend found (by rw [phase]; rfl) _ same _, rfl⟩
    | returned result => simp [phase] at step

theorem Watching.setPoll (h : s.Watching) {call : PollCall} (phase : PollPhase)
    (watched : s.Watched { call with phase := phase }) : (s.setPoll i call phase).Watching := by
  intro other member
  rcases List.mem_or_eq_of_mem_set member with old | rfl
  · exact h other old
  · exact watched

theorem Watching.advancePoll (h : s.Watching) {now : Int} (step : s.advancePoll i now = some t) : t.Watching := by
  unfold PollSystem.advancePoll at step
  cases found : s.polls[i]? with
  | none => simp [found] at step
  | some call =>
    have watched := h call (List.mem_of_getElem? found)
    simp only [found] at step
    cases phase : call.phase with
    | starting =>
      simp only [phase] at step
      cases step
      exact h.setPoll _ (Or.inl rfl)
    | holding ch =>
      simp only [Watched, phase] at watched
      simp only [phase] at step
      split at step
      · cases step
      · split at step
        · cases step
          exact h.setPoll _ trivial
        · rename_i below
          split at step
          · cases step
            exact h.setPoll _ trivial
          · cases step
            refine h.setPoll _ ?_
            rcases watched with rfl | closed
            · exact Or.inr ⟨rfl, Or.inl (Int.not_lt.mp below)⟩
            · exact Or.inl closed
    | blocked ch =>
      simp only [phase] at step
      split at step
      · cases step
        exact h.setPoll _ trivial
      · cases step
    | returned woke => simp [phase] at step

theorem Watching.expirePoll (h : s.Watching) {now : Int} (step : s.expirePoll i now = some t) : t.Watching := by
  unfold PollSystem.expirePoll at step
  split at step
  · cases step
  · split at step
    · split at step
      · cases step
        exact h.setPoll _ trivial
      · cases step
    · cases step

theorem Steps.watching {event : PollEvent} (h : s.Watching) (step : Steps s event t) : t.Watching := by
  cases event with
  | callAppend raw sync =>
    cases step
    have keeps : Keeps s { s with appends := s.appends ++ [⟨raw, sync, .waiting⟩] } :=
      ⟨Or.inl rfl, fun _ => id, Or.inl le_rfl,
        Or.inr fun ⟨a, member, stored⟩ => ⟨a, List.mem_append_left _ member, stored⟩⟩
    exact fun call member => keeps.watched (h call member)
  | callPoll fetchOffset deadline =>
    cases step
    intro call member
    rcases List.mem_append.mp member with old | new
    · exact h call old
    · rw [List.mem_singleton.mp new]
      trivial
  | advanceAppend i fsync =>
    obtain ⟨keeps, same⟩ := advanceAppend_keeps step
    intro call member
    rw [same] at member
    exact keeps.watched (h call member)
  | advancePoll i now => exact h.advancePoll step
  | expirePoll i now => exact h.expirePoll step

/-- Whenever a poll is blocked on an open channel and no append is in its critical section, there is
    nothing for the poll to fetch; an append that passed its fetch offset has closed the channel. -/
theorem no_lost_wakeup (p : Partition) (run : Reaches (fun _ _ => True) Steps (idle p) t) {call : PollCall}
    (member : call ∈ t.polls) {ch : Nat} (blocked : call.phase = .blocked ch) (outside : t.writing = false) :
    (ch ∉ t.closedChannels → t.partition.highWatermark ≤ call.fetchOffset) ∧
      (call.fetchOffset < t.partition.highWatermark → ch ∈ t.closedChannels) := by
  have watching : t.Watching := run.invariant nofun (fun _ _ _ h _ step => step.watching h)
  have watched := watching call member
  simp only [Watched, blocked] at watched
  have nothing : ¬ ∃ a ∈ t.appends, a.phase.isStored := by
    rintro ⟨a, inside, stored⟩
    have critical : a.phase.critical = true := by
      cases phase : a.phase <;> simp_all [AppendPhase.isStored, AppendPhase.critical]
    rw [writing, List.any_eq_false] at outside
    exact outside a inside critical
  rcases watched with closed | ⟨_, below | pending⟩
  · exact ⟨fun absent => absurd closed absent, fun _ => closed⟩
  · exact ⟨fun _ => below, fun above => absurd below (Int.not_le.mpr above)⟩
  · exact absurd pending nothing

def emptyPartition : Partition := { unopened 1000 1000 with activeSegment := (openSegment [] 0 1000 1000).toOption }

theorem no_lost_wakeup_append :
    ∃ t, Reaches (fun _ _ => True) Steps (idle emptyPartition) t ∧ ⟨0, 100, .blocked 0⟩ ∈ t.polls ∧ t.writing = false ∧
      0 < t.partition.highWatermark ∧ 0 ∈ t.closedChannels := by
  obtain ⟨t, run, member, outside, above⟩ : ∃ t, Reaches (fun _ _ => True) Steps (idle emptyPartition) t ∧
      ⟨0, 100, .blocked 0⟩ ∈ t.polls ∧ t.writing = false ∧ 0 < t.partition.highWatermark :=
    exists_reaches [.callPoll 0 100, .advancePoll 0 10, .advancePoll 0 10, .callAppend (headerOnly 0) false,
      .advanceAppend 0 ⟨.ok (), .ok ()⟩, .advanceAppend 0 ⟨.ok (), .ok ()⟩, .advanceAppend 0 ⟨.ok (), .ok ()⟩,
      .advanceAppend 0 ⟨.ok (), .ok ()⟩] (fun _ _ _ step => step) (by decide +kernel)
  exact ⟨t, run, member, outside, above, (no_lost_wakeup emptyPartition run member rfl outside).2 above⟩

end PollSystem

end PocketKafka.Handler
