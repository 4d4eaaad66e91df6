import PocketKafka.Lib.Pruning
import PocketKafka.Lib.Runs
import PocketKafka.Lib.Bytes

namespace PocketKafka.Fleet

open Bytes Pruning Runs

structure RateLimiter where
  limit : Int
  window : Int
  clients : AList fun _ : Bytes => List Int

def newRateLimiter (limit window : Int) : RateLimiter where
  limit := if limit ≤ 0 then 100 else limit
  window := if window ≤ 0 then 60 * 10 ^ 9 else window
  clients := ∅

/-- The loop that keeps the timestamps after the cutoff. It writes them to the front of the slice that it reads. -/
def keepRecent (cutoff : Int) (timestamps : List Int) (i kept : Nat) : List Int :=
  match found : timestamps[i]? with
  | none => timestamps.take kept
  | some t =>
    if cutoff < t then keepRecent cutoff (timestamps.set kept t) (i + 1) (kept + 1)
    else keepRecent cutoff timestamps (i + 1) kept
termination_by timestamps.length - i
decreasing_by
  · have inside := (List.getElem?_eq_some_iff.mp found).1
    rw [List.length_set]
    omega
  · have inside := (List.getElem?_eq_some_iff.mp found).1
    omega

def RateLimiter.allow (rl : RateLimiter) (key : Bytes) (now : Int) : RateLimiter × Bool :=
  let cutoff := now - rl.window
  let timestamps := (rl.clients.lookup key).getD []
  let valid := keepRecent cutoff timestamps 0 0
  if rl.limit ≤ valid.length then ({ rl with clients := rl.clients.insert key valid }, false)
  else
    let clients := rl.clients.insert key (valid ++ [now])
    let idle := fun (_ : Bytes) (v : List Int) => v.getLast?.all fun last => decide (last < cutoff)
    ({ rl with clients := if 1024 < clients.keys.length then prune idle clients else clients }, true)

structure Call where
  key : Bytes
  time : Int

structure Answer extends Call where
  allowed : Bool

structure Served where
  limiter : RateLimiter
  answers : List Answer

def Served.serve (s : Served) (call : Call) : Served :=
  let (limiter, allowed) := s.limiter.allow call.key call.time
  ⟨limiter, { call with allowed } :: s.answers⟩

def admitted (key : Bytes) : List Answer → List Int
  | [] => []
  | x :: earlier => if x.key = key ∧ x.allowed = true then admitted key earlier ++ [x.time] else admitted key earlier

theorem keepRecent_eq (cutoff : Int) (timestamps : List Int) {i kept : Nat} (behind : kept ≤ i) :
    keepRecent cutoff timestamps i kept = timestamps.take kept ++ (timestamps.drop i).filter fun t =>
      decide (cutoff < t) := by
  fun_induction keepRecent cutoff timestamps i kept with
  | case1 timestamps i kept none =>
    rw [List.drop_eq_nil_of_le (List.getElem?_eq_none_iff.mp none), List.filter_nil, List.append_nil]
  | case2 timestamps i kept t found recent ih =>
    obtain ⟨inside, here⟩ := List.getElem?_eq_some_iff.mp found
    rw [ih (by omega), List.drop_eq_getElem_cons inside, here, List.filter_cons_of_pos (by simpa using recent),
      List.drop_set_of_lt (by omega), List.take_add_one, List.getElem?_set_self (by omega), List.take_set_of_le (le_refl _)]
    simp
  | case3 timestamps i kept t found old ih =>
    obtain ⟨inside, here⟩ := List.getElem?_eq_some_iff.mp found
    rw [ih (by omega), List.drop_eq_getElem_cons inside, here, List.filter_cons_of_neg (by simpa using old)]

theorem keepRecent_all (cutoff : Int) (timestamps : List Int) :
    keepRecent cutoff timestamps 0 0 = timestamps.filter fun t => decide (cutoff < t) :=
      keepRecent_eq cutoff timestamps (le_refl 0)

/-- The answer is about the last window, and later than what was admitted before. -/
def Exact (limit window : Int) (earlier : List Answer) (x : Answer) : Prop :=
  (∀ key, ∀ t ∈ admitted key earlier, t ≤ x.time) ∧
    (x.allowed = true ↔ ((admitted x.key earlier).countP fun t => decide (x.time - window < t)) < limit)

/-- For each key the limiter has the admitted times, apart from some that are too old to count. -/
structure Served.Remembers (s : Served) (time : Int) : Prop where
  recent : ∀ key, ∃ c ≤ time - s.limiter.window,
    (s.limiter.clients.lookup key).getD [] = (admitted key s.answers).filter fun t => decide (c < t)
  past : ∀ key, ∀ t ∈ admitted key s.answers, t ≤ time
  exact : Justified (Exact s.limiter.limit s.limiter.window) s.answers

variable {rl : RateLimiter} {s : Served} {call : Call} {key : Bytes} {time now : Int} {answers : List Answer}

theorem sorted_admitted {limit window : Int} (exact : Justified (Exact limit window) answers) (key : Bytes) :
    (admitted key answers).Pairwise (· ≤ ·) := by
  induction answers with
  | nil => exact .nil
  | cons x earlier ih =>
    rw [admitted]
    split
    · rw [List.pairwise_append]
      refine ⟨ih exact.2, List.pairwise_singleton _ _, ?_⟩
      intro t member last single
      rw [List.mem_singleton.mp single]
      exact exact.1.1 key t member
    · exact ih exact.2

theorem filter_later {old new : Int} (later : old ≤ new) (times : List Int) :
    (times.filter fun t => decide (old < t)).filter (fun t => decide (new < t)) =
      times.filter fun t => decide (new < t) := by
  rw [List.filter_filter]
  apply List.filter_congr
  intro t _
  simp only [Bool.and_eq_left_iff_imp, decide_eq_true_eq]
  omega

theorem last_is_largest {times : List Int} {last : Int} (sorted : times.Pairwise (· ≤ ·))
    (ends : times.getLast? = some last) :
    ∀ t ∈ times, t ≤ last := by
  obtain ⟨front, rfl⟩ := List.getLast?_eq_some_iff.mp ends
  intro t member
  rcases List.mem_append.mp member with inside | single
  · exact (List.pairwise_append.mp sorted).2.2 t inside last (List.mem_singleton.mpr rfl)
  · exact (List.mem_singleton.mp single).le

theorem filter_idle {cutoff : Int} {times : List Int} (sorted : times.Pairwise (· ≤ ·))
    (idle : (times.getLast?.all fun last => decide (last < cutoff)) = true) :
    (times.filter fun t => decide (cutoff < t)) = [] := by
  rw [List.filter_eq_nil_iff]
  intro t member
  cases ends : times.getLast? with
  | none =>
    rw [List.getLast?_eq_none_iff.mp ends] at member
    cases member
  | some last =>
    rw [ends, Option.all_some, decide_eq_true_eq] at idle
    have := last_is_largest sorted ends t member
    rw [decide_eq_true_eq]
    omega

def RateLimiter.stored (rl : RateLimiter) (key : Bytes) : List Int := (rl.clients.lookup key).getD []

def RateLimiter.valid (rl : RateLimiter) (key : Bytes) (now : Int) : List Int :=
  (rl.stored key).filter fun t => decide (now - rl.window < t)

theorem RateLimiter.allow_eq (rl : RateLimiter) (key : Bytes) (now : Int) :
    rl.allow key now =
      if rl.limit ≤ (rl.valid key now).length then ({ rl with clients := rl.clients.insert key (rl.valid key now) }, false)
      else
        let clients := rl.clients.insert key (rl.valid key now ++ [now])
        let idle := fun (_ : Bytes) (v : List Int) => v.getLast?.all fun last => decide (last < now - rl.window)
        ({ rl with clients := if 1024 < clients.keys.length then prune idle clients else clients }, true) := by
  unfold allow
  dsimp only
  rw [keepRecent_all]
  rfl

theorem RateLimiter.allow_limit (rl : RateLimiter) (key : Bytes) (now : Int) : (rl.allow key now).1.limit = rl.limit := by
  rw [allow_eq]
  split <;> rfl

theorem RateLimiter.allow_window (rl : RateLimiter) (key : Bytes) (now : Int) : (rl.allow key now).1.window = rl.window := by
  rw [allow_eq]
  split <;> rfl

theorem RateLimiter.allow_answer (rl : RateLimiter) (key : Bytes) (now : Int) :
    (rl.allow key now).2 = decide (((rl.valid key now).length : Int) < rl.limit) := by
  rw [allow_eq]
  split
  · rename_i full
    exact (decide_eq_false (not_lt.mpr full)).symm
  · rename_i free
    exact (decide_eq_true (not_le.mp free)).symm

def RateLimiter.updated (rl : RateLimiter) (key : Bytes) (now : Int) : List Int :=
  if (rl.allow key now).2 then rl.valid key now ++ [now] else rl.valid key now

theorem stored_insert (clients : AList fun _ : Bytes => List Int) (key other : Bytes) (times : List Int) :
    ((clients.insert key times).lookup other).getD [] = if other = key then times else (clients.lookup other).getD [] := by
  by_cases same : other = key
  · subst same
    rw [if_pos rfl, AList.lookup_insert]
    rfl
  · rw [if_neg same, AList.lookup_insert_ne same]

theorem RateLimiter.stored_allow (rl : RateLimiter) (key : Bytes) (now : Int) (other : Bytes) :
    let times := if other = key then rl.updated key now else rl.stored other
    (rl.allow key now).1.stored other = times ∨
      (rl.allow key now).1.stored other = [] ∧ (times.getLast?.all fun last => decide (last < now - rl.window)) = true := by
  intro times
  by_cases full : rl.limit ≤ (rl.valid key now).length
  · left
    have refused : (rl.allow key now).2 = false := by rw [allow_answer, decide_eq_false (not_lt.mpr full)]
    have after : (rl.allow key now).1.clients = rl.clients.insert key (rl.valid key now) := by rw [allow_eq, if_pos full]
    rw [stored, after, stored_insert]
    simp only [times, updated, refused, Bool.false_eq_true, if_false]
    rfl
  · have granted : (rl.allow key now).2 = true := by rw [allow_answer, decide_eq_true (not_le.mp full)]
    have put : ((rl.clients.insert key (rl.valid key now ++ [now])).lookup other).getD [] = times := by
      rw [stored_insert]
      simp only [times, updated, granted, if_true]
      rfl
    have after : (rl.allow key now).1.clients =
        if 1024 < (rl.clients.insert key (rl.valid key now ++ [now])).keys.length then
          prune (fun _ v => v.getLast?.all fun last => decide (last < now - rl.window))
            (rl.clients.insert key (rl.valid key now ++ [now]))
        else rl.clients.insert key (rl.valid key now ++ [now]) := by
      rw [allow_eq, if_neg full]
    rw [stored, after]
    split
    · rw [lookup_prune]
      split
      · rename_i dropped
        obtain ⟨v, found, idle⟩ := (mem_pruned other).mp dropped
        rw [found, Option.getD_some] at put
        exact .inr ⟨rfl, put ▸ idle⟩
      · exact .inl put
    · exact .inl put

theorem Served.Remembers.valid (h : s.Remembers time) (later : time ≤ now) (key : Bytes) :
    s.limiter.valid key now = (admitted key s.answers).filter fun t => decide (now - s.limiter.window < t) := by
  obtain ⟨c, old, stored⟩ := h.recent key
  rw [RateLimiter.valid, RateLimiter.stored, stored, filter_later (by omega)]

theorem Served.Remembers.updated (h : s.Remembers time) (later : time ≤ call.time) (positive : 0 < s.limiter.window)
    (key : Bytes) :
    ∃ c ≤ call.time - s.limiter.window,
      (if key = call.key then s.limiter.updated call.key call.time else s.limiter.stored key) =
        (admitted key (s.serve call).answers).filter fun t => decide (c < t) := by
  by_cases same : key = call.key
  · subst same
    refine ⟨call.time - s.limiter.window, le_refl _, ?_⟩
    rw [if_pos rfl, RateLimiter.updated, h.valid later, serve, admitted]
    by_cases granted : (s.limiter.allow call.key call.time).2 = true
    · rw [if_pos granted, if_pos ⟨rfl, granted⟩, List.filter_append, List.filter_singleton]
      simp only [sub_lt_self_iff, positive, decide_true, cond_true]
    · rw [if_neg granted, if_neg fun both => granted both.2]
  · obtain ⟨c, old, stored⟩ := h.recent key
    refine ⟨c, by omega, ?_⟩
    rw [if_neg same, serve, admitted, if_neg fun both => same both.1.symm]
    exact stored

theorem admitted_serve_le (h : s.Remembers time) (later : time ≤ call.time) (key : Bytes) :
    ∀ t ∈ admitted key (s.serve call).answers, t ≤ call.time := by
  intro t member
  rw [Served.serve, admitted] at member
  split at member
  · rcases List.mem_append.mp member with inside | single
    · exact (h.past key t inside).trans later
    · exact (List.mem_singleton.mp single).le
  · exact (h.past key t member).trans later

theorem Served.Remembers.serve (h : s.Remembers time) (later : time ≤ call.time) (positive : 0 < s.limiter.window) :
    (s.serve call).Remembers call.time := by
  have limit : (s.serve call).limiter.limit = s.limiter.limit := s.limiter.allow_limit call.key call.time
  have window : (s.serve call).limiter.window = s.limiter.window := s.limiter.allow_window call.key call.time
  have exact : Justified (Exact s.limiter.limit s.limiter.window) (s.serve call).answers := by
    refine ⟨⟨fun key t member => (h.past key t member).trans later, ?_⟩, h.exact⟩
    show (s.limiter.allow call.key call.time).2 = true ↔ _
    rw [RateLimiter.allow_answer, decide_eq_true_eq, h.valid later, List.countP_eq_length_filter]
  refine ⟨?_, admitted_serve_le h later, by rw [limit, window]; exact exact⟩
  intro key
  rw [window]
  obtain ⟨c, old, put⟩ := h.updated later positive key
  rcases s.limiter.stored_allow call.key call.time key with kept | ⟨gone, idle⟩
  · exact ⟨c, old, kept.trans put⟩
  · refine ⟨_, le_refl _, ?_⟩
    rw [put] at idle
    have sorted := sorted_admitted exact key
    rw [← filter_later old, filter_idle (sorted.filter _) idle]
    exact gone

theorem Served.Remembers.run {calls : List Call} (h : s.Remembers time) (ordered : calls.Pairwise (·.time ≤ ·.time))
    (later : ∀ call ∈ calls, time ≤ call.time) (positive : 0 < s.limiter.window) :
    ∃ last, (calls.foldl Served.serve s).Remembers last := by
  induction calls generalizing s time with
  | nil => exact ⟨time, h⟩
  | cons call rest ih =>
    obtain ⟨next, ordered⟩ := List.pairwise_cons.mp ordered
    apply ih (h.serve (later call List.mem_cons_self) positive) ordered next
    rw [Served.serve, RateLimiter.allow_window]
    exact positive

theorem run_limiter (calls : List Call) (s : Served) :
    (calls.foldl Served.serve s).limiter.limit = s.limiter.limit ∧ (calls.foldl Served.serve s).limiter.window =
      s.limiter.window := by
  induction calls generalizing s with
  | nil => exact ⟨rfl, rfl⟩
  | cons call rest ih =>
    obtain ⟨limit, window⟩ := ih (s.serve call)
    rw [List.foldl_cons, limit, window, Served.serve]
    exact ⟨RateLimiter.allow_limit _ _ _, RateLimiter.allow_window _ _ _⟩

theorem countP_window_le {limit window : Int} (positive : 0 ≤ limit) (exact : Justified (Exact limit window) answers)
    (key : Bytes)
    (a : Int) : ((admitted key answers).countP fun t => decide (a < t ∧ t ≤ a + window)) ≤ limit := by
  induction answers with
  | nil => exact positive
  | cons x earlier ih =>
    rw [admitted]
    split
    · rename_i admits
      obtain ⟨rfl, allowed⟩ := admits
      rw [List.countP_append, List.countP_singleton]
      split
      · rename_i inside
        rw [decide_eq_true_eq] at inside
        -- Whatever lies in the interval lies in the window that ends with this call.
        have fewer : (admitted x.key earlier).countP (fun t => decide (a < t ∧ t ≤ a + window)) ≤
            (admitted x.key earlier).countP fun t => decide (x.time - window < t) := by
          apply List.countP_mono_left
          intro t _ both
          rw [decide_eq_true_eq] at both ⊢
          omega
        have free := exact.1.2.mp allowed
        omega
      · exact ih exact.2
    · exact ih exact.2

/-- In any interval of the length of the window at most `limit` calls with a key are admitted, and a call is refused
    only when that many were admitted in the window before it. -/
theorem sliding_window (limit window : Int) (calls : List Call) (ordered : calls.Pairwise (·.time ≤ ·.time)) :
    let start := newRateLimiter limit window
    let answers := (calls.foldl Served.serve ⟨start, []⟩).answers
    (∀ key a, ((admitted key answers).countP fun t => decide (a < t ∧ t ≤ a + start.window)) ≤ start.limit) ∧
    ∀ later x earlier, answers = later ++ x :: earlier → x.allowed = false →
      ((admitted x.key earlier).countP fun t => decide (x.time - start.window < t ∧ t ≤ x.time)) = start.limit := by
  intro start answers
  have positive : 0 < start.limit ∧ 0 < start.window := by
    simp only [start, newRateLimiter]
    constructor <;> split <;> omega
  have empty : ∀ time, Served.Remembers ⟨start, []⟩ time :=
    fun time => ⟨fun _ => ⟨time - start.window, le_refl _, rfl⟩, fun _ _ => nofun, trivial⟩
  have exact : Justified (Exact start.limit start.window) answers := by
    cases calls with
    | nil => exact trivial
    | cons first rest =>
      have early : ∀ call ∈ first :: rest, first.time ≤ call.time :=
        List.forall_mem_cons.mpr ⟨le_refl _, (List.pairwise_cons.mp ordered).1⟩
      obtain ⟨last, remembers⟩ := (empty first.time).run ordered early positive.2
      have same := run_limiter (first :: rest) ⟨start, []⟩
      have exact := remembers.exact
      rw [same.1, same.2] at exact
      exact exact
  refine ⟨countP_window_le positive.1.le exact, ?_⟩
  intro later x earlier parts refused
  rw [parts] at exact
  obtain ⟨past, answer⟩ := exact.entry
  have most := countP_window_le positive.1.le (List.append_cons later x earlier ▸ exact).earlier x.key
    (x.time - start.window)
  have recent : (admitted x.key earlier).countP (fun t => decide (x.time - start.window < t ∧ t ≤ x.time)) =
      (admitted x.key earlier).countP fun t => decide (x.time - start.window < t) := by
    apply List.countP_congr
    intro t member
    simp only [decide_eq_true_eq, and_iff_left_iff_imp]
    exact fun _ => past x.key t member
  have enough : ¬ ((admitted x.key earlier).countP fun t => decide (x.time - start.window < t)) < start.limit := by
    rw [← answer, refused]
    decide
  rw [sub_add_cancel] at most
  omega

theorem sliding_window_twice :
    [Call.mk (ascii "k") 1, ⟨ascii "k", 1⟩, ⟨ascii "k", 2⟩].Pairwise (·.time ≤ ·.time) ∧
    (let start := newRateLimiter 1 5
     let answers := ([Call.mk (ascii "k") 1, ⟨ascii "k", 1⟩, ⟨ascii "k", 2⟩].foldl Served.serve ⟨start, []⟩).answers
     (∀ key a, ((admitted key answers).countP fun t => decide (a < t ∧ t ≤ a + start.window)) ≤ start.limit) ∧
     ∀ later x earlier, answers = later ++ x :: earlier → x.allowed = false →
      ((admitted x.key earlier).countP fun t => decide (x.time - start.window < t ∧ t ≤ x.time)) = start.limit) := by
  have ordered : [Call.mk (ascii "k") 1, ⟨ascii "k", 1⟩, ⟨ascii "k", 2⟩].Pairwise (·.time ≤ ·.time) := by decide
  exact ⟨ordered, sliding_window 1 5 _ ordered⟩

end PocketKafka.Fleet
