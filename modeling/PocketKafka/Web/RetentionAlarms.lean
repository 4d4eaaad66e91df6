import PocketKafka.Lib.Bytes

namespace PocketKafka.Web

open Bytes

structure Live where
  pid : Int
  leo : Int
  earliest : Int
  deriving DecidableEq

structure GroupView where
  name : Bytes
  offsets : List (Int × Int)

structure RetentionRisk (F : Type) where
  group : Bytes
  nextNeeded : Int
  earliest : Int
  earliestPerSec : F
  secondsUntilLoss : Option Int
  alreadyLost : Bool
  deriving DecidableEq

/-- What the samples say about the earliest offset: the last one, one before it, and the nanoseconds between them. -/
structure EarliestSamples where
  hasCur : Bool
  cur : Int
  base : Int
  dt : Int

/-- The operations of `float64` that the rates are computed with; `toInt` is the conversion to `int64`. -/
structure FloatOps (F : Type) where
  ofInt : Int → F
  toInt : F → Int
  half : F
  add : F → F → F
  mul : F → F → F
  div : F → F → F
  lt : F → F → Bool

section

variable {F : Type} (float : FloatOps F)

def sign (v : F) : F := if float.lt v (float.ofInt 0) then float.ofInt (-1) else float.ofInt 1

def round2 (v : F) : F :=
  let scaled := float.add (float.mul v (float.ofInt 100)) (float.mul (sign float v) float.half)
  float.div (float.ofInt (float.toInt scaled)) (float.ofInt 100)

def seconds (dt : Int) : F :=
  float.add (float.ofInt (dt.tdiv 1000000000)) (float.div (float.ofInt (dt.tmod 1000000000)) (float.ofInt 1000000000))

def rate (delta : F) (dt : Int) : F :=
  if dt ≤ 0 then float.ofInt 0 else round2 float (float.div delta (seconds float dt))

def EarliestSamples.advance (s : EarliestSamples) : F :=
  if s.hasCur = true ∧ 0 < s.dt ∧ 0 ≤ s.base ∧ s.base < s.cur then rate float (float.ofInt (s.cur - s.base)) s.dt
  else float.ofInt 0

end

def nonNegative (v : Int) : Int := if v < 0 then 0 else v

def lower (least offset : Int) : Int := if least < 0 ∨ offset < least then offset else least

def earliestNow (lives : List Live) : Int := lives.foldl (fun least l => lower least l.earliest) (-1)

def leoByPart (lives : List Live) (part : Int) : Option Int := (lives.find? fun l => l.pid = part).map Live.leo

def nextNeeded (lives : List Live) (offsets : List (Int × Int)) : Int :=
  offsets.foldl (fun next (part, committed) =>
    match leoByPart lives part with
    | none => next
    | some leo => if leo ≤ committed then next else lower next (committed + 1)) (-1)

def groupLag (lives : List Live) (offsets : List (Int × Int)) : Int :=
  (offsets.map fun (part, committed) => nonNegative ((leoByPart lives part).getD 0 - committed)).sum

section

variable {F : Type} (float : FloatOps F)

def riskOf (lives : List Live) (advance : F) (g : GroupView) : Option (RetentionRisk F) :=
  let next := nextNeeded lives g.offsets
  let earliest := earliestNow lives
  if g.offsets = [] then none
  else if next < 0 then none
  else if next < earliest then some ⟨g.name, next, earliest, round2 float advance, none, true⟩
  else if float.lt (float.ofInt 0) advance then
    let secs := float.toInt (float.div (float.ofInt (next - earliest)) advance)
    some ⟨g.name, next, earliest, round2 float advance, some secs, false⟩
  else none

def retentionUrgency (r : RetentionRisk F) : Int :=
  if r.alreadyLost then -1 else r.secondsUntilLoss.getD (2 ^ 62)

def retentionRisks (lives : List Live) (samples : EarliestSamples) (groups : List GroupView) : List (RetentionRisk F) :=
  if 0 ≤ earliestNow lives ∧ 0 < groups.length then
    (groups.filterMap (riskOf float lives (samples.advance float))).insertionSort
      fun a b => retentionUrgency a ≤ retentionUrgency b
  else []

end

structure TopicState where
  lives : List Live
  distinct : (lives.map Live.pid).Nodup
  valid : ∀ l ∈ lives, 0 ≤ l.earliest ∧ l.earliest ≤ l.leo

structure GroupState (t : TopicState) where
  view : GroupView
  nonempty : view.offsets ≠ []
  known : ∀ p ∈ view.offsets, ∃ l ∈ t.lives, l.pid = p.1
  valid : ∀ p ∈ view.offsets, 0 ≤ p.2

def GroupState.Lost {t : TopicState} (g : GroupState t) : Prop := ∃ p ∈ g.view.offsets, ∃ l ∈ t.lives, l.pid = p.1 ∧
    p.2 < l.earliest

def GroupState.CaughtUp {t : TopicState} (g : GroupState t) : Prop :=
  ∀ p ∈ g.view.offsets, ∀ l ∈ t.lives, l.pid = p.1 → l.leo ≤ p.2

def GroupState.AlarmsExact {t : TopicState} {F : Type} (g : GroupState t) (risks : List (RetentionRisk F)) : Prop :=
  ((∃ r ∈ risks, r.group = g.view.name ∧ r.alreadyLost = true) ↔ g.Lost) ∧
    (g.CaughtUp → ∀ r ∈ risks, r.group ≠ g.view.name)

theorem foldl_lower {offsets : List Int} (least : Int) (valid : ∀ o ∈ offsets, 0 ≤ o) :
    (offsets.foldl lower least < 0 ↔ least < 0 ∧ offsets = []) ∧
    ∀ bound, (0 ≤ offsets.foldl lower least ∧ offsets.foldl lower least < bound) ↔
      (0 ≤ least ∧ least < bound) ∨ ∃ o ∈ offsets, o < bound := by
  induction offsets generalizing least with
  | nil => simp
  | cons o rest ih =>
    obtain ⟨first, later⟩ := List.forall_mem_cons.mp valid
    obtain ⟨empty, below⟩ := ih (lower least o) later
    have here : 0 ≤ lower least o ∧ ∀ bound, lower least o < bound ↔ (0 ≤ least ∧ least < bound) ∨ o < bound := by
      unfold lower
      constructor
      · split <;> omega
      · intro bound
        split <;> omega
    rw [List.foldl_cons]
    constructor
    · rw [empty]
      constructor
      · rintro ⟨none, -⟩
        omega
      · rintro ⟨-, nonempty⟩
        cases nonempty
    · intro bound
      rw [below, here.2, List.exists_mem_cons_iff]
      have := here.1
      tauto

theorem earliestNow_eq (lives : List Live) : earliestNow lives = (lives.map Live.earliest).foldl lower (-1) := by
  rw [earliestNow, List.foldl_map]

/-- The offset that a group needs of a partition, if it is behind. -/
def needed (lives : List Live) (p : Int × Int) : Option Int :=
  (leoByPart lives p.1).bind fun leo => if leo ≤ p.2 then none else some (p.2 + 1)

theorem nextNeeded_eq (lives : List Live) (offsets : List (Int × Int)) :
    nextNeeded lives offsets = (offsets.filterMap (needed lives)).foldl lower (-1) := by
  unfold nextNeeded
  generalize (-1 : Int) = least
  induction offsets generalizing least with
  | nil => rfl
  | cons p rest ih =>
    obtain ⟨part, committed⟩ := p
    rw [List.foldl_cons, ih, List.filterMap_cons, needed]
    cases found : leoByPart lives part with
    | none => simp only [found, Option.bind_none]
    | some leo =>
      by_cases done : leo ≤ committed
      · simp only [found, Option.bind_some, if_pos done]
      · simp only [found, Option.bind_some, if_neg done, List.foldl_cons]

variable {t : TopicState}

theorem leoByPart_of_mem {l : Live} (member : l ∈ t.lives) : leoByPart t.lives l.pid = some l.leo := by
  have found : t.lives.find? (fun other => decide (other.pid = l.pid)) = some l := by
    cases first : t.lives.find? (fun other => decide (other.pid = l.pid)) with
    | none => exact absurd (decide_eq_true rfl) (List.find?_eq_none.mp first l member)
    | some other =>
      have same : other.pid = l.pid := by simpa using List.find?_some first
      rw [List.inj_on_of_nodup_map t.distinct (List.mem_of_find?_eq_some first) member same]
  rw [leoByPart, found]
  rfl

theorem lt_earliestNow_iff (nonempty : t.lives ≠ []) (offset : Int) :
    offset < earliestNow t.lives ↔ ∀ l ∈ t.lives, offset < l.earliest := by
  have valid : ∀ o ∈ t.lives.map Live.earliest, 0 ≤ o := List.forall_mem_map.mpr fun l member => (t.valid l member).1
  obtain ⟨empty, below⟩ := foldl_lower (-1) valid
  rw [← earliestNow_eq] at empty below
  have present : 0 ≤ earliestNow t.lives := by
    rw [← not_lt, empty]
    rintro ⟨-, none⟩
    exact nonempty (List.map_eq_nil_iff.mp none)
  have least := below (offset + 1)
  simp only [List.mem_map, exists_exists_and_eq_and] at least
  constructor
  · intro larger l member
    by_contra small
    have := least.mpr (.inr ⟨l, member, by omega⟩)
    omega
  · intro larger
    by_contra small
    rcases least.mp ⟨present, by omega⟩ with ⟨negative, -⟩ | ⟨l, member, close⟩
    · omega
    · have := larger l member
      omega

variable (g : GroupState t)

theorem GroupState.lives_ne_nil (g : GroupState t) : t.lives ≠ [] := by
  intro none
  obtain ⟨p, member⟩ := List.exists_mem_of_ne_nil _ g.nonempty
  obtain ⟨l, inside, -⟩ := g.known p member
  rw [none] at inside
  cases inside

theorem GroupState.needed_valid : ∀ n ∈ g.view.offsets.filterMap (needed t.lives), 0 ≤ n := by
  intro n member
  obtain ⟨p, inside, found⟩ := List.mem_filterMap.mp member
  obtain ⟨leo, -, behind⟩ := Option.bind_eq_some_iff.mp found
  split at behind
  · cases behind
  · cases behind
    have := g.valid p inside
    omega

theorem GroupState.nextNeeded_lt_iff :
    (0 ≤ nextNeeded t.lives g.view.offsets ∧ nextNeeded t.lives g.view.offsets < earliestNow t.lives) ↔
      ∃ p ∈ g.view.offsets, ∀ l ∈ t.lives, p.2 + 1 < l.earliest := by
  obtain ⟨-, below⟩ := foldl_lower (-1) g.needed_valid
  rw [← nextNeeded_eq] at below
  rw [below]
  constructor
  · rintro (⟨negative, -⟩ | ⟨n, member, early⟩)
    · omega
    · obtain ⟨p, inside, found⟩ := List.mem_filterMap.mp member
      obtain ⟨leo, -, behind⟩ := Option.bind_eq_some_iff.mp found
      split at behind
      · cases behind
      · cases behind
        exact ⟨p, inside, (lt_earliestNow_iff g.lives_ne_nil _).mp early⟩
  · rintro ⟨p, inside, early⟩
    right
    refine ⟨p.2 + 1, ?_, (lt_earliestNow_iff g.lives_ne_nil _).mpr early⟩
    obtain ⟨l, member, same⟩ := g.known p inside
    have behind : ¬ l.leo ≤ p.2 := by
      have := early l member
      have := (t.valid l member).2
      omega
    apply List.mem_filterMap.mpr
    refine ⟨p, inside, ?_⟩
    rw [needed, ← same, leoByPart_of_mem member, Option.bind_some, if_neg behind]

theorem GroupState.nextNeeded_of_caughtUp (caughtUp : g.CaughtUp) : nextNeeded t.lives g.view.offsets < 0 := by
  obtain ⟨empty, -⟩ := foldl_lower (-1) g.needed_valid
  rw [nextNeeded_eq, empty]
  refine ⟨by decide, ?_⟩
  rw [List.filterMap_eq_nil_iff]
  intro p member
  obtain ⟨l, inside, same⟩ := g.known p member
  rw [needed, ← same, leoByPart_of_mem inside, Option.bind_some, if_pos (caughtUp p member l inside same)]

theorem sum_eq_zero_iff {lags : List Int} (valid : ∀ lag ∈ lags, 0 ≤ lag) : lags.sum = 0 ↔ ∀ lag ∈ lags, lag = 0 := by
  induction lags with
  | nil => simp
  | cons lag rest ih =>
    obtain ⟨first, later⟩ := List.forall_mem_cons.mp valid
    have total := List.sum_nonneg later
    rw [List.sum_cons, List.forall_mem_cons, ← ih later]
    omega

theorem GroupState.caughtUp_iff_groupLag : g.CaughtUp ↔ groupLag t.lives g.view.offsets = 0 := by
  have nonneg : ∀ v, 0 ≤ nonNegative v := by
    intro v
    unfold nonNegative
    split <;> omega
  rw [groupLag, sum_eq_zero_iff]
  · simp only [List.forall_mem_map, CaughtUp]
    apply forall₂_congr
    intro p member
    obtain ⟨l, inside, same⟩ := g.known p member
    rw [← same, leoByPart_of_mem inside, Option.getD_some, nonNegative]
    constructor
    · intro caughtUp
      have := caughtUp l inside rfl
      split <;> omega
    · intro zero other there named
      rw [List.inj_on_of_nodup_map t.distinct there inside named]
      split at zero <;> omega
  · exact List.forall_mem_map.mpr fun p _ => nonneg _

variable {F : Type} (float : FloatOps F)

theorem riskOf_group {float : FloatOps F} {lives : List Live} {advance : F} {view : GroupView} {r : RetentionRisk F}
    (found : riskOf float lives advance view = some r) : r.group = view.name := by
  unfold riskOf at found
  dsimp only at found
  split at found
  · cases found
  · split at found
    · cases found
    · split at found
      · cases found
        rfl
      · split at found
        · cases found
          rfl
        · cases found

theorem GroupState.mem_risks_iff {groups : List GroupView} (names : (groups.map GroupView.name).Nodup)
    (member : g.view ∈ groups) (samples : EarliestSamples) (r : RetentionRisk F) :
    (r ∈ retentionRisks float t.lives samples groups ∧ r.group = g.view.name) ↔
      riskOf float t.lives (samples.advance float) g.view = some r := by
  have present : 0 ≤ earliestNow t.lives ∧ 0 < groups.length := by
    constructor
    · have least := (lt_earliestNow_iff g.lives_ne_nil (-1)).mpr fun l inside => by
        have := (t.valid l inside).1
        omega
      omega
    · exact List.length_pos_of_mem member
  rw [retentionRisks, if_pos present, List.mem_insertionSort, List.mem_filterMap]
  constructor
  · rintro ⟨⟨view, inside, found⟩, named⟩
    rw [← List.inj_on_of_nodup_map names inside member ((riskOf_group found).symm.trans named)]
    exact found
  · intro found
    exact ⟨⟨g.view, member, found⟩, riskOf_group found⟩

theorem GroupState.lost_reported_iff (advance : F) :
    (∃ r, riskOf float t.lives advance g.view = some r ∧ r.alreadyLost = true) ↔
      ∃ p ∈ g.view.offsets, ∀ l ∈ t.lives, p.2 + 1 < l.earliest := by
  rw [← g.nextNeeded_lt_iff, riskOf, if_neg g.nonempty]
  split
  · rename_i none
    constructor
    · rintro ⟨r, found, -⟩
      cases found
    · rintro ⟨some, -⟩
      omega
  · rename_i some
    split
    · rename_i lost
      exact ⟨fun _ => ⟨not_lt.mp some, lost⟩, fun _ => ⟨_, rfl, rfl⟩⟩
    · rename_i kept
      constructor
      · rintro ⟨r, found, lost⟩
        split at found
        · cases found
          cases lost
        · cases found
      · rintro ⟨-, lost⟩
        exact absurd lost kept

theorem GroupState.lost_of_behind_all (behind : ∃ p ∈ g.view.offsets, ∀ l ∈ t.lives, p.2 + 1 < l.earliest) : g.Lost := by
  obtain ⟨p, inside, early⟩ := behind
  obtain ⟨l, member, same⟩ := g.known p inside
  have := early l member
  exact ⟨p, inside, l, member, same, by omega⟩

/-- The alarms are right about a group exactly if nothing is lost, or if the group has committed some offset that lies more
    than one before the first record of every partition. -/
theorem alarms_exact_iff {F : Type} (float : FloatOps F) (t : TopicState) (samples : EarliestSamples)
    (groups : List GroupView) (names : (groups.map GroupView.name).Nodup) (g : GroupState t) (member : g.view ∈ groups) :
    g.AlarmsExact (retentionRisks float t.lives samples groups) ↔
      (∀ p ∈ g.view.offsets, ∀ l ∈ t.lives, l.pid = p.1 → l.earliest ≤ p.2) ∨
        ∃ p ∈ g.view.offsets, ∀ l ∈ t.lives, p.2 + 1 < l.earliest := by
  have reported : (∃ r ∈ retentionRisks float t.lives samples groups, r.group = g.view.name ∧ r.alreadyLost = true) ↔
      ∃ p ∈ g.view.offsets, ∀ l ∈ t.lives, p.2 + 1 < l.earliest := by
    rw [← g.lost_reported_iff float (samples.advance float)]
    simp only [← g.mem_risks_iff float names member samples, and_assoc]
  have quiet : g.CaughtUp → ∀ r ∈ retentionRisks float t.lives samples groups, r.group ≠ g.view.name := by
    intro caughtUp r inside named
    have found := (g.mem_risks_iff float names member samples r).mp ⟨inside, named⟩
    rw [riskOf, if_neg g.nonempty, if_pos (g.nextNeeded_of_caughtUp caughtUp)] at found
    cases found
  have nothing : (∀ p ∈ g.view.offsets, ∀ l ∈ t.lives, l.pid = p.1 → l.earliest ≤ p.2) ↔ ¬ g.Lost := by
    simp only [GroupState.Lost, not_exists, not_and, not_lt]
  rw [GroupState.AlarmsExact, reported, nothing]
  constructor
  · rintro ⟨exact, -⟩
    by_cases lost : g.Lost
    · exact .inr (exact.mpr lost)
    · exact .inl lost
  · intro either
    refine ⟨⟨g.lost_of_behind_all, fun lost => ?_⟩, quiet⟩
    exact either.resolve_left (not_not.mpr lost)

def shortened : TopicState where
  lives := [⟨0, 10, 0⟩, ⟨1, 10, 5⟩]
  distinct := by decide
  valid := by decide

def rationals : FloatOps ℚ where
  ofInt n := n
  toInt v := if 0 ≤ v then v.floor else -(-v).floor
  half := 1 / 2
  add := (· + ·)
  mul := (· * ·)
  div := (· / ·)
  lt a b := a < b

def upToDate : GroupState shortened where
  view := ⟨ascii "g", [(0, 10)]⟩
  nonempty := by decide
  known := by decide
  valid := by decide

theorem alarms_exact_iff_upToDate :
    ([upToDate.view].map GroupView.name).Nodup ∧ upToDate.view ∈ [upToDate.view] ∧
    (upToDate.AlarmsExact (retentionRisks rationals shortened.lives ⟨false, 0, 0, 0⟩ [upToDate.view]) ↔
      (∀ p ∈ upToDate.view.offsets, ∀ l ∈ shortened.lives, l.pid = p.1 → l.earliest ≤ p.2) ∨
        ∃ p ∈ upToDate.view.offsets, ∀ l ∈ shortened.lives, p.2 + 1 < l.earliest) := by
  have names : ([upToDate.view].map GroupView.name).Nodup := List.nodup_singleton _
  exact ⟨names, List.mem_cons_self, alarms_exact_iff rationals shortened ⟨false, 0, 0, 0⟩ [upToDate.view] names upToDate
    List.mem_cons_self⟩

def behind : GroupState shortened where
  view := ⟨ascii "g", [(1, 2)]⟩
  nonempty := by decide
  known := by decide
  valid := by decide

/-- The records from 2 to 4 of the second partition are gone, but the first partition still begins at 0. -/
theorem loss_not_reported :
    behind.Lost ∧ retentionRisks rationals shortened.lives ⟨false, 0, 0, 0⟩ [behind.view] = [] ∧
    ¬ behind.AlarmsExact (retentionRisks rationals shortened.lives ⟨false, 0, 0, 0⟩ [behind.view]) := by
  have lost : behind.Lost := ⟨(1, 2), by decide, ⟨1, 10, 5⟩, by decide, rfl, by decide⟩
  have none : retentionRisks rationals shortened.lives ⟨false, 0, 0, 0⟩ [behind.view] = [] := by
    decide +kernel
  refine ⟨lost, none, ?_⟩
  rintro ⟨exact, -⟩
  obtain ⟨r, inside, -⟩ := exact.mpr lost
  rw [none] at inside
  cases inside

end PocketKafka.Web
