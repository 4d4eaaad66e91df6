import PocketKafka.Lib.Pruning
import PocketKafka.Lib.Runs
import PocketKafka.Lib.Bytes

namespace PocketKafka.Server.Backoff

open Bytes Pruning Runs

structure Entry where
  failures : Nat
  /-- Without a value as long as it is the zero time, which lies before every reading of the clock. -/
  next : Option Int
  seen : Int

structure Settings where
  freeAttempts : Nat
  base : Int
  max : Int
  ttl : Int

structure Limiter extends Settings where
  entries : AList fun _ : Bytes => Entry

def new (freeAttempts base max : Int) : Limiter where
  freeAttempts := if freeAttempts < 0 then 3 else freeAttempts.toNat
  base := if base ≤ 0 then 10 ^ 9 else base
  max := if max ≤ 0 then 30 * 10 ^ 9 else max
  ttl := 15 * 60 * 10 ^ 9
  entries := ∅

/-- What the clock shows during one call, each time that it is read. -/
structure Clock where
  first : Int
  entry : Bytes → Int
  seen : Int
  last : Int
  first_le_entry : ∀ key, first ≤ entry key
  entry_le_seen : ∀ key, entry key ≤ seen
  seen_le_last : seen ≤ last

def Limiter.stale (l : Limiter) (clock : Clock) (key : Bytes) (e : Entry) : Bool :=
  decide (e.seen < clock.first - l.ttl) && e.next.all fun next => decide (next < clock.entry key)

/-- The keys that `pruneLocked` deletes. -/
def Limiter.prunes (l : Limiter) (clock : Clock) : List Bytes :=
  if l.entries.keys.length < 1024 then [] else pruned (l.stale clock) l.entries

def Limiter.pruneLocked (l : Limiter) (clock : Clock) : Limiter :=
  if l.entries.keys.length < 1024 then l else { l with entries := prune (l.stale clock) l.entries }

def Limiter.allow (l : Limiter) (key : Bytes) (clock : Clock) : Limiter × Bool × Int :=
  if key = [] then (l, true, 0)
  else
    let l := l.pruneLocked clock
    match l.entries.lookup key with
    | none => (l, true, 0)
    | some e =>
      match e.next with
      | none => (l, true, 0)
      | some next => if next < clock.last then (l, true, 0) else (l, false, next - clock.last)

def Settings.doubled (s : Settings) (failures i : Nat) (delay : Int) : Int :=
  if i < failures then
    let delay := int64 (delay * 2)
    if s.max ≤ delay then s.max else s.doubled failures (i + 1) delay
  else delay
termination_by failures - i

def Limiter.fail (l : Limiter) (key : Bytes) (clock : Clock) : Limiter × Int :=
  if key = [] then (l, 0)
  else
    let l := l.pruneLocked clock
    let e := (l.entries.lookup key).getD ⟨0, none, clock.seen⟩
    let e := { e with failures := e.failures + 1, seen := clock.seen }
    if e.failures ≤ l.freeAttempts then ({ l with entries := l.entries.insert key e }, 0)
    else
      let delay := l.doubled e.failures (l.freeAttempts + 1) l.base
      let delay := if l.max < delay then l.max else delay
      ({ l with entries := l.entries.insert key { e with next := some (clock.last + delay) } }, delay)

def Limiter.succeed (l : Limiter) (key : Bytes) : Limiter :=
  if key = [] then l else { l with entries := l.entries.erase key }

def Limiter.failures (l : Limiter) (key : Bytes) : Nat :=
  match l.entries.lookup key with
  | some e => e.failures
  | none => 0

inductive Method where
  | allow | fail | succeed

structure Call where
  method : Method
  key : Bytes
  clock : Clock

inductive Event where
  | pruned (key : Bytes)
  | allowed (key : Bytes) (time : Int) (ok : Bool)
  | failed (key : Bytes) (time delay : Int)
  | succeeded (key : Bytes)
  deriving DecidableEq

structure Served where
  limiter : Limiter
  events : List Event

def Served.prune (s : Served) (clock : Clock) : Served :=
  ⟨s.limiter.pruneLocked clock, (s.limiter.prunes clock).map Event.pruned ++ s.events⟩

def Served.serve (s : Served) (call : Call) : Served :=
  let key := call.key
  let clock := call.clock
  match call.method with
  | .allow =>
    let events := if key = [] then s.events else (s.prune clock).events
    let (limiter, ok, _) := s.limiter.allow key clock
    ⟨limiter, .allowed key clock.last ok :: events⟩
  | .fail =>
    let events := if key = [] then s.events else (s.prune clock).events
    let (limiter, delay) := s.limiter.fail key clock
    ⟨limiter, .failed key clock.last delay :: events⟩
  | .succeed => ⟨s.limiter.succeed key, .succeeded key :: s.events⟩

def failuresSince (key : Bytes) : List Event → Nat
  | [] => 0
  | .pruned other :: earlier => if other = key then 0 else failuresSince key earlier
  | .succeeded other :: earlier => if other = key then 0 else failuresSince key earlier
  | .failed other _ _ :: earlier => if other = key then failuresSince key earlier + 1 else failuresSince key earlier
  | .allowed _ _ _ :: earlier => failuresSince key earlier

def Settings.delay (s : Settings) (n : Nat) : Int :=
  if n ≤ s.freeAttempts then 0 else min s.max (s.base * 2 ^ (n - s.freeAttempts - 1))

structure Settings.Sensible (s : Settings) : Prop where
  base_pos : 0 < s.base
  base_le_max : s.base ≤ s.max
  max_lt : s.max < 2 ^ 62

variable {s : Settings} {n i : Nat} {delay : Int}

theorem Settings.Sensible.doubled (h : s.Sensible) (positive : 0 < delay) (small : delay ≤ s.max) (ahead : i ≤ n) :
    s.doubled n i delay = min s.max (delay * 2 ^ (n - i)) := by
  have bound := h.max_lt
  induction steps : n - i generalizing i delay with
  | zero =>
    have done : ¬ i < n := by omega
    rw [Settings.doubled, if_neg done, pow_zero, mul_one, min_eq_right small]
  | succ m ih =>
    have more : i < n := by omega
    have exact : int64 (delay * 2) = delay * 2 := int64_of_bounds (by omega) (by omega)
    rw [Settings.doubled, if_pos more, exact]
    dsimp only
    have power : delay * 2 ^ (m + 1) = delay * 2 * 2 ^ m := by rw [pow_succ]; ring
    split
    · rename_i capped
      have larger : delay * 2 ≤ delay * 2 * 2 ^ m := le_mul_of_one_le_right (by omega) (one_le_pow₀ (by norm_num))
      rw [power, min_eq_left (capped.trans larger)]
    · rename_i below
      rw [ih (by omega) (by omega) (by omega) (by omega), power]

theorem Settings.Sensible.delay_mono (h : s.Sensible) {m : Nat} (fewer : m ≤ n) : s.delay m ≤ s.delay n := by
  have positive := h.base_pos
  have large := h.base_le_max
  unfold Settings.delay
  split
  · split
    · exact le_refl 0
    · exact le_min (by omega) (by positivity)
  · split
    · omega
    · apply min_le_min_left
      apply mul_le_mul_of_nonneg_left _ positive.le
      exact pow_le_pow_right₀ (by norm_num) (by omega)

variable {l : Limiter} {key : Bytes} {clock : Clock}

theorem Limiter.prunes_of_mem (inside : key ∈ l.prunes clock) :
    ∃ e, l.entries.lookup key = some e ∧ l.stale clock key e = true := by
  unfold prunes at inside
  split at inside
  · cases inside
  · exact (mem_pruned key).mp inside

theorem Limiter.lookup_pruneLocked (l : Limiter) (clock : Clock) (key : Bytes) :
    (l.pruneLocked clock).entries.lookup key = if key ∈ l.prunes clock then none else l.entries.lookup key := by
  unfold pruneLocked prunes
  split
  · rfl
  · show (prune _ _).lookup key = _
    rw [lookup_prune]
    by_cases inside : key ∈ pruned (l.stale clock) l.entries
    · rw [if_pos inside, if_pos inside]
    · rw [if_neg inside, if_neg inside]

theorem Limiter.pruneLocked_settings (l : Limiter) (clock : Clock) : (l.pruneLocked clock).toSettings = l.toSettings := by
  unfold pruneLocked
  split <;> rfl

structure Punished (l : Limiter) (key : Bytes) (clock : Clock) (e : Entry) : Prop where
  failures : e.failures = (l.pruneLocked clock).failures key + 1
  next : 0 < l.delay e.failures → e.next = some (clock.last + l.delay e.failures)

theorem Limiter.fail_eq (sensible : l.Sensible) (named : key ≠ []) (clock : Clock) :
    ∃ e, Punished l key clock e ∧
      l.fail key clock =
        ({ l.pruneLocked clock with entries := (l.pruneLocked clock).entries.insert key e }, l.delay e.failures) := by
  obtain ⟨old, found⟩ : ∃ old, ((l.pruneLocked clock).entries.lookup key).getD ⟨0, none, clock.seen⟩ = old := ⟨_, rfl⟩
  have before : old.failures = (l.pruneLocked clock).failures key := by
    rw [← found, failures]
    cases (l.pruneLocked clock).entries.lookup key <;> rfl
  unfold fail
  rw [if_neg named]
  dsimp only
  rw [l.pruneLocked_settings, found]
  split
  · rename_i free
    have none : l.delay (old.failures + 1) = 0 := if_pos free
    refine ⟨⟨old.failures + 1, old.next, clock.seen⟩, ⟨congrArg (· + 1) before, ?_⟩, by rw [none]⟩
    intro positive
    rw [none] at positive
    omega
  · rename_i many
    have delay := sensible.doubled sensible.base_pos sensible.base_le_max (by omega : l.freeAttempts + 1 ≤ old.failures + 1)
    rw [Nat.sub_add_eq] at delay
    have waits : l.delay (old.failures + 1) = min l.max (l.base * 2 ^ (old.failures + 1 - l.freeAttempts - 1)) := if_neg many
    rw [delay, if_neg (not_lt.mpr (min_le_left _ _)), ← waits]
    exact ⟨⟨old.failures + 1, some (clock.last + l.delay (old.failures + 1)), clock.seen⟩,
      ⟨congrArg (· + 1) before, fun _ => rfl⟩, rfl⟩

/-- The key failed at `time` and has to wait for `delay`, without having succeeded since. -/
def Waits (key : Bytes) (time delay : Int) : List Event → Prop
  | [] => False
  | .failed other t d :: earlier => (other = key ∧ t = time ∧ d = delay ∧ 0 < delay) ∨ Waits key time delay earlier
  | .succeeded other :: earlier => other ≠ key ∧ Waits key time delay earlier
  | .pruned _ :: earlier => Waits key time delay earlier
  | .allowed _ _ _ :: earlier => Waits key time delay earlier

/-- What is right about an event, given what happened before it. -/
def Right (s : Settings) (earlier : List Event) : Event → Prop
  | .allowed key time ok => key ≠ [] → ∀ t d, Waits key t d earlier → time ≤ t + d → ok = false
  | .failed key _ delay => key ≠ [] → delay = s.delay (failuresSince key earlier + 1)
  | _ => True

def Limiter.Holds (l : Limiter) (key : Bytes) (moment delay : Int) : Prop :=
  ∃ e next, l.entries.lookup key = some e ∧ e.next = some next ∧ moment ≤ next ∧ delay ≤ l.delay e.failures

structure Served.Tracks (c : Settings) (s : Served) (now : Int) : Prop where
  settings : s.limiter.toSettings = c
  counts : ∀ key, key ≠ [] → s.limiter.failures key = failuresSince key s.events
  waits : ∀ key t d, Waits key t d s.events → t ≤ now ∧ (t + d < now ∨ s.limiter.Holds key (t + d) d)
  right : Justified (Right c) s.events

variable {c : Settings} {s : Served} {now : Int}

theorem failuresSince_pruned (key : Bytes) (keys : List Bytes) (events : List Event) :
    failuresSince key (keys.map Event.pruned ++ events) = if key ∈ keys then 0 else failuresSince key events := by
  induction keys with
  | nil => rfl
  | cons other rest ih =>
    rw [List.map_cons, List.cons_append, failuresSince, ih]
    by_cases same : other = key
    · rw [if_pos same, if_pos (same ▸ List.mem_cons_self)]
    · rw [if_neg same]
      simp only [List.mem_cons, Ne.symm same, false_or]

theorem waits_pruned (key : Bytes) (time delay : Int) (keys : List Bytes) (events : List Event) :
    Waits key time delay (keys.map Event.pruned ++ events) ↔ Waits key time delay events := by
  induction keys with
  | nil => exact Iff.rfl
  | cons _ rest ih => exact ih

theorem justified_pruned (keys : List Bytes) {events : List Event} (right : Justified (Right c) events) :
    Justified (Right c) (keys.map Event.pruned ++ events) := by
  induction keys with
  | nil => exact right
  | cons _ rest ih => exact ⟨trivial, ih⟩

theorem Limiter.failures_pruneLocked (l : Limiter) (clock : Clock) (key : Bytes) :
    (l.pruneLocked clock).failures key = if key ∈ l.prunes clock then 0 else l.failures key := by
  unfold failures
  rw [lookup_pruneLocked]
  by_cases inside : key ∈ l.prunes clock
  · rw [if_pos inside, if_pos inside]
  · rw [if_neg inside, if_neg inside]

theorem Served.Tracks.prune (h : s.Tracks c now) (later : now ≤ clock.first) : (s.prune clock).Tracks c clock.seen := by
  have first := (clock.first_le_entry []).trans (clock.entry_le_seen [])
  refine ⟨(s.limiter.pruneLocked_settings clock).trans h.settings, ?_, ?_, justified_pruned _ h.right⟩
  · intro key named
    rw [Served.prune, Limiter.failures_pruneLocked, failuresSince_pruned, h.counts key named]
  · intro key t d waits
    obtain ⟨past, held⟩ := h.waits key t d ((waits_pruned key t d _ _).mp waits)
    refine ⟨by omega, ?_⟩
    rcases held with gone | ⟨e, next, found, has, far, delay⟩
    · exact .inl (by omega)
    by_cases inside : key ∈ s.limiter.prunes clock
    · -- An entry is deleted only after the time until which its key has to wait.
      left
      obtain ⟨other, same, stale⟩ := Limiter.prunes_of_mem inside
      obtain rfl : e = other := Option.some.inj (found.symm.trans same)
      rw [Limiter.stale, Bool.and_eq_true, has, Option.all_some, decide_eq_true_eq, decide_eq_true_eq] at stale
      have := clock.entry_le_seen key
      omega
    · right
      refine ⟨e, next, ?_, has, far, ?_⟩
      · rw [Served.prune, Limiter.lookup_pruneLocked, if_neg inside, found]
      · rw [Served.prune, Limiter.pruneLocked_settings]
        exact delay

theorem Served.Tracks.mono {later : Int} (h : s.Tracks c now) (after : now ≤ later) : s.Tracks c later := by
  refine ⟨h.settings, h.counts, ?_, h.right⟩
  intro key t d waits
  obtain ⟨past, held⟩ := h.waits key t d waits
  exact ⟨past.trans after, held.imp_left fun gone => gone.trans_le after⟩

theorem Limiter.allow_limiter (named : key ≠ []) : (l.allow key clock).1 = l.pruneLocked clock := by
  unfold allow
  rw [if_neg named]
  dsimp only
  split
  · rfl
  · split
    · rfl
    · split <;> rfl

theorem Limiter.allow_held {moment delay : Int} (named : key ≠ []) (held : (l.pruneLocked clock).Holds key moment delay)
    (early : clock.last ≤ moment) : (l.allow key clock).2.1 = false := by
  obtain ⟨e, next, found, has, far, _⟩ := held
  have waiting : ¬ next < clock.last := by omega
  simp only [allow, if_neg named, found, has, if_neg waiting]

theorem Served.Tracks.allow (h : s.Tracks c now) (later : now ≤ clock.first) (key : Bytes) :
    (s.serve ⟨.allow, key, clock⟩).Tracks c clock.last := by
  by_cases named : key = []
  · subst named
    have first := (clock.first_le_entry []).trans (clock.entry_le_seen [])
    have last := clock.seen_le_last
    have same := h.mono (by omega : now ≤ clock.last)
    exact ⟨same.settings, same.counts, same.waits, fun named => absurd rfl named, same.right⟩
  · have cleared := h.prune later
    have same := cleared.mono clock.seen_le_last
    simp only [serve, if_neg named, Limiter.allow_limiter named]
    refine ⟨same.settings, same.counts, same.waits, ?_, same.right⟩
    intro _ t d waits early
    obtain ⟨_, gone | held⟩ := cleared.waits key t d waits
    · have := clock.seen_le_last
      omega
    · exact Limiter.allow_held named held early

theorem Waits.positive {time delay : Int} {events : List Event} (h : Waits key time delay events) : 0 < delay := by
  induction events with
  | nil => exact h.elim
  | cons event earlier ih =>
    cases event with
    | pruned _ => exact ih h
    | allowed _ _ _ => exact ih h
    | succeeded _ => exact ih h.2
    | failed _ _ _ =>
      rcases h with ⟨_, _, _, positive⟩ | waits
      · exact positive
      · exact ih waits

theorem Limiter.failures_insert (l : Limiter) (key other : Bytes) (e : Entry) :
    Limiter.failures { l with entries := l.entries.insert key e } other = if other = key then e.failures
      else l.failures other := by
  unfold failures
  by_cases same : other = key
  · subst same
    rw [if_pos rfl, AList.lookup_insert]
  · rw [if_neg same, AList.lookup_insert_ne same]

theorem Served.Tracks.holds_fail (sensible : c.Sensible) (h : (s.prune clock).Tracks c clock.seen) {e : Entry}
    (punished : Punished s.limiter key clock e) (settings : s.limiter.toSettings = c) {t d : Int}
    (waits : Waits key t d (.failed key clock.last (c.delay e.failures) :: (s.prune clock).events)) :
    t ≤ clock.last ∧ (t + d < clock.last ∨ Limiter.Holds
      { s.limiter.pruneLocked clock with entries := (s.limiter.pruneLocked clock).entries.insert key e } key (t + d) d) := by
  have last := clock.seen_le_last
  have positive := waits.positive
  have holds : ∀ {t d : Int}, 0 < d → t ≤ clock.last → d ≤ c.delay e.failures → Limiter.Holds
      { s.limiter.pruneLocked clock with entries := (s.limiter.pruneLocked clock).entries.insert key e } key (t + d) d := by
    intro t d positive past long
    have next := punished.next
    rw [settings] at next
    refine ⟨e, _, AList.lookup_insert _, next (by omega), by omega, ?_⟩
    show d ≤ (s.limiter.pruneLocked clock).delay e.failures
    rw [Limiter.pruneLocked_settings, settings]
    exact long
  rcases waits with ⟨_, rfl, rfl, _⟩ | earlier
  · exact ⟨le_refl _, .inr (holds positive (le_refl _) (le_refl _))⟩
  · obtain ⟨past, gone | ⟨old, _, found, _, _, long⟩⟩ := h.waits key t d earlier
    · exact ⟨by omega, .inl (by omega)⟩
    · have count : (s.limiter.pruneLocked clock).failures key = old.failures := by
        rw [Limiter.failures]
        exact congrArg (fun o => match o with | some e => Entry.failures e | none => 0) found
      have grows : c.delay old.failures ≤ c.delay e.failures := by
        apply sensible.delay_mono
        rw [punished.failures, count]
        omega
      rw [h.settings] at long
      exact ⟨by omega, .inr (holds positive (by omega) (long.trans grows))⟩

theorem Served.Tracks.fail (sensible : c.Sensible) (h : s.Tracks c now) (later : now ≤ clock.first) (key : Bytes) :
    (s.serve ⟨.fail, key, clock⟩).Tracks c clock.last := by
  by_cases named : key = []
  · subst named
    have first := (clock.first_le_entry []).trans (clock.entry_le_seen [])
    have last := clock.seen_le_last
    have same := h.mono (by omega : now ≤ clock.last)
    refine ⟨same.settings, ?_, ?_, fun named => absurd rfl named, same.right⟩
    · intro key named
      show _ = failuresSince key (.failed [] _ _ :: _)
      rw [failuresSince, if_neg (Ne.symm named)]
      exact same.counts key named
    · rintro key t d (⟨_, _, none, positive⟩ | waits)
      · exact absurd (none ▸ positive) (lt_irrefl (0 : Int))
      · exact same.waits key t d waits
  · have cleared := h.prune later
    have last := clock.seen_le_last
    obtain ⟨e, punished, after⟩ := Limiter.fail_eq (h.settings ▸ sensible) named clock
    simp only [serve, if_neg named, after, h.settings]
    have settings : (s.limiter.pruneLocked clock).toSettings = c := cleared.settings
    refine ⟨settings, ?_, ?_, ?_, cleared.right⟩
    · intro other known
      rw [Limiter.failures_insert, failuresSince]
      by_cases same : other = key
      · rw [if_pos same, if_pos same.symm, punished.failures, same]
        exact congrArg (· + 1) (cleared.counts key named)
      · rw [if_neg same, if_neg (Ne.symm same)]
        exact cleared.counts other known
    · intro other t d waits
      by_cases same : other = key
      · subst same
        exact cleared.holds_fail sensible punished h.settings waits
      · rcases waits with ⟨rfl, _⟩ | earlier
        · exact absurd rfl same
        obtain ⟨past, held⟩ := (cleared.mono last).waits other t d earlier
        refine ⟨past, held.imp_right ?_⟩
        rintro ⟨old, next, found, has, far, delay⟩
        exact ⟨old, next, (AList.lookup_insert_ne same).trans found, has, far, delay⟩
    · intro _
      rw [punished.failures]
      exact congrArg (fun n => c.delay (n + 1)) (cleared.counts key named)

theorem Served.Tracks.succeed (h : s.Tracks c now) (key : Bytes) :
    (s.serve ⟨.succeed, key, clock⟩).Tracks c now := by
  by_cases named : key = []
  · subst named
    refine ⟨h.settings, ?_, fun key t d waits => h.waits key t d waits.2, trivial, h.right⟩
    intro key named
    show _ = failuresSince key (.succeeded [] :: _)
    rw [failuresSince, if_neg (Ne.symm named)]
    exact h.counts key named
  · simp only [serve, Limiter.succeed, if_neg named]
    refine ⟨h.settings, ?_, ?_, trivial, h.right⟩
    · intro other known
      rw [failuresSince, Limiter.failures]
      by_cases same : key = other
      · rw [if_pos same, same, AList.lookup_erase]
      · rw [if_neg same, AList.lookup_erase_ne (Ne.symm same)]
        exact h.counts other known
    · rintro other t d ⟨different, waits⟩
      obtain ⟨past, gone | ⟨e, next, found, has, far, delay⟩⟩ := h.waits other t d waits
      · exact ⟨past, .inl gone⟩
      · refine ⟨past, .inr ⟨e, next, ?_, has, far, delay⟩⟩
        rw [AList.lookup_erase_ne (Ne.symm different)]
        exact found

theorem Served.Tracks.serve (sensible : c.Sensible) (h : s.Tracks c now) {call : Call} (later : now ≤ call.clock.first) :
    (s.serve call).Tracks c call.clock.last := by
  obtain ⟨method, key, clock⟩ := call
  cases method with
  | allow => exact h.allow later key
  | fail => exact h.fail sensible later key
  | succeed =>
    have first := (clock.first_le_entry []).trans (clock.entry_le_seen [])
    exact (h.succeed key).mono ((later.trans first).trans clock.seen_le_last)

theorem Served.Tracks.run (sensible : c.Sensible) {calls : List Call} (h : s.Tracks c now)
    (ordered : calls.Pairwise (·.clock.last ≤ ·.clock.first)) (later : ∀ call ∈ calls, now ≤ call.clock.first) :
    Justified (Right c) (calls.foldl Served.serve s).events := by
  induction calls generalizing s now with
  | nil => exact h.right
  | cons call rest ih =>
    obtain ⟨next, ordered⟩ := List.pairwise_cons.mp ordered
    exact ih (h.serve sensible (later call List.mem_cons_self)) ordered next

theorem waits_of_append {time delay : Int} (positive : 0 < delay) {between earlier : List Event}
    (failing : .succeeded key ∉ between) :
    Waits key time delay (between ++ .failed key time delay :: earlier) := by
  induction between with
  | nil => exact .inl ⟨rfl, rfl, rfl, positive⟩
  | cons event rest ih =>
    rw [List.mem_cons, not_or] at failing
    obtain ⟨other, failing⟩ := failing
    cases event with
    | pruned _ => exact ih failing
    | allowed _ _ _ => exact ih failing
    | failed _ _ _ => exact .inr (ih failing)
    | succeeded k =>
      refine ⟨?_, ih failing⟩
      rintro rfl
      exact other rfl

/-- A key that failed with a delay is refused until the delay is over, unless it succeeds, whatever happens to other
    keys; and the delay is the one for the number of its failures. -/
theorem login_backoff (freeAttempts base max : Int) (limits : 0 < base ∧ base ≤ max ∧ max < 2 ^ 62) (calls : List Call)
    (ordered : calls.Pairwise (·.clock.last ≤ ·.clock.first)) :
    let start := new freeAttempts base max
    let events := (calls.foldl Served.serve ⟨start, []⟩).events
    (∀ later between earlier key time delay t ok, key ≠ [] →
      events = later ++ .allowed key t ok :: (between ++ .failed key time delay :: earlier) →
      0 < delay → t ≤ time + delay → .succeeded key ∉ between → ok = false) ∧
    ∀ later earlier key time delay, key ≠ [] → events = later ++ .failed key time delay :: earlier →
      delay = if failuresSince key earlier + 1 ≤ start.freeAttempts then 0
        else min max (base * 2 ^ (failuresSince key earlier + 1 - start.freeAttempts - 1)) := by
  intro start events
  have settings : start.base = base ∧ start.max = max := by
    obtain ⟨positive, larger, _⟩ := limits
    exact ⟨if_neg (by omega), if_neg (by omega)⟩
  have sensible : start.Sensible := by
    obtain ⟨positive, larger, small⟩ := limits
    exact ⟨settings.1 ▸ positive, by rw [settings.1, settings.2]; exact larger, settings.2 ▸ small⟩
  have empty : ∀ now, Served.Tracks start.toSettings ⟨start, []⟩ now :=
    fun now => ⟨rfl, fun _ _ => rfl, fun _ _ _ => nofun, trivial⟩
  have right : Justified (Right start.toSettings) events := by
    cases calls with
    | nil => exact trivial
    | cons call rest =>
      apply (empty call.clock.first).run sensible ordered
      intro other member
      rcases List.mem_cons.mp member with rfl | member
      · exact le_refl _
      · have first := (call.clock.first_le_entry []).trans (call.clock.entry_le_seen [])
        exact (first.trans call.clock.seen_le_last).trans ((List.pairwise_cons.mp ordered).1 other member)
  constructor
  · intro later between earlier key time delay t ok named parts positive early failing
    rw [parts] at right
    exact right.entry named time delay (waits_of_append positive failing) early
  · intro later earlier key time delay named parts
    rw [parts] at right
    rw [right.entry named, Settings.delay, settings.1, settings.2]

def Clock.still (time : Int) : Clock :=
  ⟨time, fun _ => time, time, time, fun _ => le_refl _, fun _ => le_refl _, le_refl _⟩

def failAndRetry : List Call := [⟨.fail, ascii "ann", .still 1⟩, ⟨.allow, ascii "ann", .still 11⟩]

theorem login_backoff_retry :
    (0 < (10 : Int) ∧ (10 : Int) ≤ 40 ∧ (40 : Int) < 2 ^ 62) ∧ failAndRetry.Pairwise (·.clock.last ≤ ·.clock.first) ∧
    (failAndRetry.foldl Served.serve ⟨new 0 10 40, []⟩).events = [.allowed (ascii "ann") 11 false,
      .failed (ascii "ann") 1 10] ∧
    ∀ ok, (failAndRetry.foldl Served.serve ⟨new 0 10 40, []⟩).events = [.allowed (ascii "ann") 11 ok,
      .failed (ascii "ann") 1 10] →
      ok = false := by
  have limits : 0 < (10 : Int) ∧ (10 : Int) ≤ 40 ∧ (40 : Int) < 2 ^ 62 := by decide
  have ordered : failAndRetry.Pairwise (·.clock.last ≤ ·.clock.first) := by decide +kernel
  refine ⟨limits, ordered, by decide +kernel, ?_⟩
  intro ok events
  exact (login_backoff 0 10 40 limits failAndRetry ordered).1 [] [] [] (ascii "ann") 1 10 11 ok (by decide) events
    (by decide)
    (by decide) nofun

end PocketKafka.Server.Backoff
