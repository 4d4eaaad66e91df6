import PocketKafka.Lib.Runs
import PocketKafka.Storage.CompactionManifest

namespace PocketKafka.Storage

open Bytes Runs

abbrev Directory := AList fun _ : Name => Bytes

structure Disk where
  dir : Directory
  tmp : Option Directory

def compactManifest : Name := ascii "MANIFEST"

def compactStaged : Name := ascii ".staged"

def dirFileNames (dir : Directory) : List Name := dir.keys.insertionSort (· ≤ ·)

/-- The file operations of `stageSwapFiles`, `writeManifest` and `applyCompactionSwap`, each with the
    check for a staged copy that decides whether it is done. -/
inductive SwapAction where
  | stage (name : Name)
  | writeManifest (m : CompactionManifest)
  | remove (replaced : Bool) (name : Name)
  | install (name : Name)
  | removeManifest
  | removeAll

namespace Disk

def staged (d : Disk) (name : Name) : Option Bytes := d.tmp.bind fun tmp => tmp.lookup (name ++ compactStaged)

def renamed (dir : Directory) (name target : Name) : Directory :=
  match dir.lookup name with
  | none => dir
  | some content => (dir.erase name).insert target content

def perform (d : Disk) : SwapAction → Disk
  | .stage name => { d with tmp := d.tmp.map fun tmp => renamed tmp name (name ++ compactStaged) }
  | .writeManifest m => { d with tmp := d.tmp.map fun tmp => tmp.insert compactManifest (marshalManifest m) }
  | .remove replaced name =>
    if replaced = true ∧ d.staged name = none then d else { d with dir := d.dir.erase name }
  | .install name =>
    match d.staged name with
    | none => d
    | some content =>
      { dir := d.dir.insert name content, tmp := d.tmp.map fun tmp => tmp.erase (name ++ compactStaged) }
  | .removeManifest => { d with tmp := d.tmp.map fun tmp => tmp.erase compactManifest }
  | .removeAll => { d with tmp := none }

def performAll (d : Disk) (actions : List SwapAction) : Disk := actions.foldl perform d

/-- What a crash in the middle of an operation can leave: a torn manifest, or some of the files that were
    to be removed. Renames and removals of single files are atomic. -/
def Interrupted (d : Disk) : SwapAction → Disk → Prop
  | .writeManifest m, d' => ∃ tmp front rest, d.tmp = some tmp ∧ marshalManifest m = front ++ rest ∧ rest ≠ [] ∧
      d' = { d with tmp := some (tmp.insert compactManifest front) }
  | .removeAll, d' => ∃ tmp left, d.tmp = some tmp ∧
      (∀ name, left.lookup name = tmp.lookup name ∨ left.lookup name = none) ∧ d' = { d with tmp := some left }
  | _, _ => False

/-- A crash after some of the operations, or in the middle of the next one. -/
inductive Crashes (d : Disk) (actions : List SwapAction) : Disk → Prop
  | after (done rest : List SwapAction) (split : actions = done ++ rest) : Crashes d actions (d.performAll done)
  | during (done rest : List SwapAction) (action : SwapAction) (d' : Disk) (split : actions = done ++ action :: rest)
      (torn : (d.performAll done).Interrupted action d') : Crashes d actions d'

def manifest (d : Disk) : Option CompactionManifest :=
  d.tmp.bind fun tmp => (tmp.lookup compactManifest).bind unmarshalManifest

def swapActions (d : Disk) : List SwapAction :=
  match d.manifest with
  | none => [.removeAll]
  | some m => m.old.map (fun name => .remove (decide (name ∈ m.new)) name) ++ m.new.map .install ++
      [.removeManifest, .removeAll]

def applyCompactionSwap (d : Disk) : Disk := d.performAll d.swapActions

def Recovering : Disk → Disk → Prop := Relation.ReflTransGen fun d d' => Crashes d d.swapActions d'

end Disk

/-- The operations of `installCompaction` before the swap itself. -/
def stageActions (names : List Name) (m : CompactionManifest) : List SwapAction :=
  names.map .stage ++ [.writeManifest m]

structure Swap where
  old : Directory
  names : List Name
  files : Directory
  oldPlain : ∀ name ∈ old.keys, Plain name
  plain : ∀ name ∈ names, Plain name
  nodup : names.Nodup
  present : ∀ name ∈ names, name ∈ files
  unstaged : ∀ name ∈ names, ∀ other, name ≠ other ++ compactStaged
  noManifest : compactManifest ∉ files

namespace Swap

variable (s : Swap)

def start : Disk := ⟨s.old, some s.files⟩

def manifest : CompactionManifest := ⟨dirFileNames s.old, s.names⟩

/-- A crash anywhere between the first rename in the staging directory and the end of the swap. -/
inductive Crashed : Disk → Prop
  | staging {d : Disk} (crash : s.start.Crashes (stageActions s.names s.manifest) d) : Crashed d
  | swapping {d : Disk} (crash : Disk.Crashes (s.start.performAll (stageActions s.names s.manifest))
      (s.start.performAll (stageActions s.names s.manifest)).swapActions d) : Crashed d

def HoldsOld (d : Disk) : Prop := ∀ name, d.dir.lookup name = s.old.lookup name

def HoldsNew (d : Disk) : Prop := ∀ name, d.dir.lookup name = if name ∈ s.names then s.files.lookup name else none

end Swap

theorem staged_ne_manifest (name : Name) : name ++ compactStaged ≠ compactManifest := by
  intro same
  have last := congrArg List.getLast? same
  have staged : compactStaged.getLast? = some 100 := by decide
  have manifest : compactManifest.getLast? = some 84 := by decide
  rw [List.getLast?_append, staged, manifest, Option.some_or] at last
  revert last
  decide

theorem staged_inj {name other : Name} : name ++ compactStaged = other ++ compactStaged ↔ name = other :=
  List.append_left_inj _

namespace Disk

variable {d d' : Disk} {name other : Name}

theorem Crashes.of_no_manifest (none : d.manifest = none) (crash : d.Crashes d.swapActions d') :
    d'.dir = d.dir ∧ d'.manifest = Option.none := by
  have actions : d.swapActions = [.removeAll] := by rw [swapActions, none]
  rw [actions] at crash
  cases crash with
  | after done rest split =>
    cases done with
    | nil => exact ⟨rfl, none⟩
    | cons action done =>
      obtain ⟨rfl, nothing⟩ := List.cons.inj split
      obtain ⟨rfl, _⟩ := List.append_eq_nil_iff.mp nothing.symm
      exact ⟨rfl, rfl⟩
  | during done rest action d' split torn =>
    obtain ⟨rfl, split⟩ : done = [] ∧ [SwapAction.removeAll] = action :: rest := by
      cases done with
      | nil => exact ⟨rfl, split⟩
      | cons first done =>
        have clash := (List.cons.inj split).2
        simp at clash
    obtain ⟨rfl, _⟩ := List.cons.inj split
    obtain ⟨tmp, left, found, fewer, rfl⟩ := torn
    have found : d.tmp = some tmp := found
    refine ⟨rfl, ?_⟩
    rw [manifest, found, Option.bind_some] at none
    show (left.lookup compactManifest).bind unmarshalManifest = Option.none
    rcases fewer compactManifest with same | gone
    · rw [same]
      exact none
    · rw [gone]
      rfl

theorem applyCompactionSwap_of_no_manifest (none : d.manifest = none) :
    d.applyCompactionSwap = { d with tmp := Option.none } := by
  rw [applyCompactionSwap, swapActions, none]
  rfl

theorem dir_lookup_remove (d : Disk) (name other : Name) (replaced : Bool) :
    (d.perform (.remove replaced other)).dir.lookup name = d.dir.lookup name ∨
      (d.perform (.remove replaced other)).dir.lookup name = none := by
  rw [perform]
  split
  · exact Or.inl rfl
  · by_cases same : name = other
    · subst same
      exact Or.inr (AList.lookup_erase ..)
    · exact Or.inl (AList.lookup_erase_ne same)

@[simp] theorem tmp_remove (replaced : Bool) : (d.perform (.remove replaced other)).tmp = d.tmp := by
  rw [perform]
  split <;> rfl

@[simp] theorem staged_remove (replaced : Bool) : (d.perform (.remove replaced other)).staged name = d.staged name := by
  rw [staged, staged, tmp_remove]

@[simp] theorem manifest_remove (replaced : Bool) : (d.perform (.remove replaced other)).manifest = d.manifest := by
  rw [manifest, manifest, tmp_remove]

theorem dir_lookup_install_of_ne (different : name ≠ other) :
    (d.perform (.install other)).dir.lookup name = d.dir.lookup name := by
  rw [perform]
  split
  · rfl
  · exact AList.lookup_insert_ne different

theorem staged_install_of_ne (different : name ≠ other) : (d.perform (.install other)).staged name = d.staged name := by
  rw [perform]
  split
  · rfl
  · rw [staged, staged]
    cases d.tmp with
    | none => rfl
    | some tmp => exact AList.lookup_erase_ne (mt staged_inj.mp different)

theorem staged_install (d : Disk) (name : Name) : (d.perform (.install name)).staged name = none := by
  rw [perform]
  split
  · assumption
  · rw [staged]
    cases d.tmp with
    | none => rfl
    | some tmp => exact AList.lookup_erase ..

@[simp] theorem manifest_install : (d.perform (.install name)).manifest = d.manifest := by
  rw [perform]
  split
  · rfl
  · rw [manifest, manifest]
    cases d.tmp with
    | none => rfl
    | some tmp =>
      show ((tmp.erase (name ++ compactStaged)).lookup compactManifest).bind unmarshalManifest = _
      rw [AList.lookup_erase_ne (staged_ne_manifest name).symm]
      rfl

end Disk

namespace Swap

variable {s : Swap} {d d' : Disk} {name : Name}

structure During (s : Swap) (d : Disk) : Prop where
  manifest : d.manifest = some s.manifest
  replaced : ∀ name ∈ s.names,
    (d.staged name = s.files.lookup name ∧ (d.dir.lookup name = s.old.lookup name ∨ d.dir.lookup name = none)) ∨
      (d.staged name = none ∧ d.dir.lookup name = s.files.lookup name)
  others : ∀ name ∉ s.names, d.dir.lookup name = s.old.lookup name ∨ d.dir.lookup name = none

/-- The operations of a swap that depend on the manifest. -/
def Applies (s : Swap) : SwapAction → Prop
  | .remove replaced name => replaced = decide (name ∈ s.names)
  | .install name => name ∈ s.names
  | .stage _ | .writeManifest _ | .removeManifest | .removeAll => False

theorem During.remove (h : s.During d) (name : Name) :
    s.During (d.perform (.remove (decide (name ∈ s.names)) name)) := by
  constructor
  · rw [Disk.manifest_remove]
    exact h.manifest
  · intro other member
    rw [Disk.staged_remove]
    rcases h.replaced other member with ⟨staged, content⟩ | ⟨installed, content⟩
    · left
      rcases d.dir_lookup_remove other name (decide (name ∈ s.names)) with same | gone
      · exact ⟨staged, by rw [same]; exact content⟩
      · exact ⟨staged, Or.inr gone⟩
    · -- An installed file is not removed: its staged copy is gone.
      right
      refine ⟨installed, ?_⟩
      by_cases same : other = name
      · subst same
        rw [Disk.perform, if_pos ⟨decide_eq_true member, installed⟩]
        exact content
      · rw [Disk.perform]
        split
        · exact content
        · exact (AList.lookup_erase_ne same).trans content
  · intro other outside
    rcases d.dir_lookup_remove other name (decide (name ∈ s.names)) with same | gone
    · rw [same]
      exact h.others other outside
    · exact Or.inr gone

theorem During.install (h : s.During d) (member : name ∈ s.names) : s.During (d.perform (.install name)) := by
  constructor
  · rw [Disk.manifest_install]
    exact h.manifest
  · intro other inside
    by_cases same : other = name
    · subst same
      right
      refine ⟨d.staged_install other, ?_⟩
      rcases h.replaced other inside with ⟨staged, _⟩ | ⟨installed, content⟩
      · obtain ⟨content, found⟩ := Option.isSome_iff_exists.mp (AList.lookup_isSome.mpr (s.present other inside))
        rw [found] at staged ⊢
        rw [Disk.perform, staged]
        exact AList.lookup_insert ..
      · rw [Disk.perform, installed]
        exact content
    · rw [Disk.staged_install_of_ne same, Disk.dir_lookup_install_of_ne same]
      exact h.replaced other inside
  · intro other outside
    have different : other ≠ name := by
      intro same
      subst same
      exact outside member
    rw [Disk.dir_lookup_install_of_ne different]
    exact h.others other outside

theorem During.perform {action : SwapAction} (h : s.During d) (applies : s.Applies action) :
    s.During (d.perform action) := by
  cases action with
  | remove replaced name =>
    have same : replaced = decide (name ∈ s.names) := applies
    rw [same]
    exact h.remove name
  | install name => exact h.install applies
  | stage | writeManifest | removeManifest | removeAll => exact applies.elim

def exchange (s : Swap) : List SwapAction :=
  (dirFileNames s.old).map (fun name => .remove (decide (name ∈ s.names)) name) ++ s.names.map .install

theorem exchange_applies {action : SwapAction} (member : action ∈ s.exchange) : s.Applies action := by
  rw [exchange, List.mem_append, List.mem_map, List.mem_map] at member
  rcases member with ⟨name, _, rfl⟩ | ⟨name, inside, rfl⟩
  · rfl
  · exact inside

theorem During.swapActions (h : s.During d) : d.swapActions = s.exchange ++ [.removeManifest, .removeAll] := by
  rw [Disk.swapActions, h.manifest]
  rfl

theorem During.performAll {actions : List SwapAction} (h : s.During d)
    (applies : ∀ action ∈ actions, s.Applies action) : s.During (d.performAll actions) :=
  foldl_invariant h fun _ action member during => during.perform (applies action member)

theorem exchange_installs (d : Disk) (member : name ∈ s.names) :
    (d.performAll s.exchange).staged name = none := by
  apply foldl_reaches (fun d : Disk => d.staged name = none) (a := SwapAction.install name)
  · rw [exchange]
    exact List.mem_append_right _ (List.mem_map_of_mem member)
  · exact fun d => d.staged_install name
  · intro d action inside gone
    have applies := exchange_applies inside
    cases action with
    | remove replaced other => rw [Disk.staged_remove, gone]
    | install other =>
      by_cases same : name = other
      · subst same
        exact d.staged_install name
      · rw [Disk.staged_install_of_ne same, gone]
    | stage | writeManifest | removeManifest | removeAll => exact applies.elim

theorem During.exchange_removes (h : s.During d) (outside : name ∉ s.names) :
    (d.performAll s.exchange).dir.lookup name = none := by
  by_cases listed : name ∈ s.old
  · apply foldl_reaches (fun d : Disk => d.dir.lookup name = none)
      (a := SwapAction.remove (decide (name ∈ s.names)) name)
    · rw [exchange]
      apply List.mem_append_left
      apply List.mem_map_of_mem
      rw [dirFileNames, List.mem_insertionSort]
      exact listed
    · intro d
      rw [Disk.perform, if_neg (by simp [outside])]
      exact AList.lookup_erase ..
    · intro d action inside gone
      have applies := exchange_applies inside
      cases action with
      | remove replaced other =>
        rcases d.dir_lookup_remove name other replaced with same | done
        · rw [same, gone]
        · exact done
      | install other =>
        have different : name ≠ other := by
          intro same
          subst same
          exact outside applies
        rw [Disk.dir_lookup_install_of_ne different, gone]
      | stage | writeManifest | removeManifest | removeAll => exact applies.elim
  · have absent : s.old.lookup name = none := AList.lookup_eq_none.mpr listed
    rcases (h.performAll fun _ => exchange_applies).others name outside with same | gone
    · rw [same, absent]
    · exact gone

theorem During.finishes (h : s.During d) :
    s.HoldsNew ((d.performAll s.exchange).perform .removeManifest) ∧
      ((d.performAll s.exchange).perform .removeManifest).manifest = none := by
  have during := h.performAll fun _ => exchange_applies (s := s)
  constructor
  · intro name
    show (d.performAll s.exchange).dir.lookup name = _
    split
    · rename_i member
      rcases during.replaced name member with ⟨staged, _⟩ | ⟨_, content⟩
      · have absent : s.files.lookup name = none := staged.symm.trans (exchange_installs d member)
        exact absurd (s.present name member) (AList.lookup_eq_none.mp absent)
      · exact content
    · rename_i outside
      exact h.exchange_removes outside
  · rw [Disk.manifest, Disk.perform]
    cases (d.performAll s.exchange).tmp with
    | none => rfl
    | some tmp =>
      show ((tmp.erase compactManifest).lookup compactManifest).bind unmarshalManifest = none
      rw [AList.lookup_erase]
      rfl

inductive Recoverable (s : Swap) (d : Disk) : Prop
  | before (old : s.HoldsOld d) (none : d.manifest = none)
  | during (exchanging : s.During d)
  | after (new : s.HoldsNew d) (none : d.manifest = none)

theorem During.crashes (h : s.During d) (crash : d.Crashes d.swapActions d') : s.Recoverable d' := by
  obtain ⟨new, none⟩ := h.finishes
  rw [h.swapActions] at crash
  cases crash with
  | after done rest split =>
    rcases List.append_eq_append_iff.mp split with ⟨front, rfl, tail⟩ | ⟨_, within, _⟩
    · rw [Disk.performAll, List.foldl_append]
      rcases front with _ | ⟨first, _ | ⟨second, more⟩⟩
      · exact .during (h.performAll fun _ => exchange_applies)
      · obtain ⟨rfl, _⟩ := List.cons.inj tail
        exact .after new none
      · obtain ⟨rfl, next⟩ := List.cons.inj tail
        obtain ⟨rfl, nothing⟩ := List.cons.inj next
        obtain ⟨rfl, _⟩ := List.append_eq_nil_iff.mp nothing.symm
        exact .after new rfl
    · apply Recoverable.during
      apply h.performAll
      intro action member
      exact exchange_applies (by rw [within]; exact List.mem_append_left _ member)
  | during done rest action d' split torn =>
    have atomic : ∀ {e : Disk} {action : SwapAction}, s.Applies action → ¬ e.Interrupted action d' := by
      intro e action applies interrupted
      cases action with
      | remove | install => exact interrupted
      | stage | writeManifest | removeManifest | removeAll => exact applies
    -- Only the removal of the staging directory can stop halfway, and that comes after the manifest.
    rcases List.append_eq_append_iff.mp split with ⟨front, rfl, tail⟩ | ⟨behind, within, _⟩
    · rw [Disk.performAll, List.foldl_append] at torn
      rcases front with _ | ⟨first, _ | ⟨second, more⟩⟩
      · obtain ⟨rfl, _⟩ := List.cons.inj tail
        exact torn.elim
      · obtain ⟨rfl, next⟩ := List.cons.inj tail
        obtain ⟨rfl, _⟩ := List.cons.inj next
        have gone : ((d.performAll s.exchange).perform .removeManifest).Crashes
            ((d.performAll s.exchange).perform .removeManifest).swapActions d' := by
          rw [Disk.swapActions, none]
          exact .during [] [] .removeAll d' rfl torn
        obtain ⟨same, none'⟩ := Disk.Crashes.of_no_manifest none gone
        refine .after (fun name => ?_) none'
        rw [same]
        exact new name
      · have clash := congrArg List.length tail
        simp at clash
    · rcases behind with _ | ⟨first, behind⟩
      · rename_i tail
        rw [List.nil_append] at tail
        obtain ⟨rfl, _⟩ := List.cons.inj tail
        exact torn.elim
      · rename_i tail
        obtain ⟨rfl, _⟩ := List.cons.inj tail
        exact (atomic (exchange_applies (by rw [within]; simp)) torn).elim

theorem Recoverable.crashes (h : s.Recoverable d) (crash : d.Crashes d.swapActions d') : s.Recoverable d' := by
  cases h with
  | before old none =>
    obtain ⟨same, none'⟩ := Disk.Crashes.of_no_manifest none crash
    refine .before (fun name => ?_) none'
    rw [same]
    exact old name
  | during exchanging => exact exchanging.crashes crash
  | after new none =>
    obtain ⟨same, none'⟩ := Disk.Crashes.of_no_manifest none crash
    refine .after (fun name => ?_) none'
    rw [same]
    exact new name

/-- The renames in the staging directory: the files in `left` still have to be renamed. -/
structure Staging (s : Swap) (left : List Name) (d : Disk) : Prop where
  dir : d.dir = s.old
  tmp : ∃ tmp, d.tmp = some tmp ∧ tmp.lookup compactManifest = none ∧
    (∀ name ∈ s.names, name ∈ left → tmp.lookup name = s.files.lookup name) ∧
    (∀ name ∈ s.names, name ∉ left → tmp.lookup (name ++ compactStaged) = s.files.lookup name)

theorem start_staging (s : Swap) : s.Staging s.names s.start := by
  refine ⟨rfl, s.files, rfl, AList.lookup_eq_none.mpr s.noManifest, fun _ _ _ => rfl, ?_⟩
  exact fun name member outside => absurd member outside

theorem Staging.before {left : List Name} (h : s.Staging left d) : s.Recoverable d := by
  obtain ⟨tmp, found, none, _⟩ := h.tmp
  refine .before (fun name => by rw [h.dir]) ?_
  rw [Disk.manifest, found, Option.bind_some, none]
  rfl

theorem Staging.stage {left : List Name} (h : s.Staging (name :: left) d) (fresh : name ∉ left) (member : name ∈ s.names) :
    s.Staging left (d.perform (.stage name)) := by
  obtain ⟨tmp, found, none, waiting, staged⟩ := h.tmp
  obtain ⟨content, present⟩ := Option.isSome_iff_exists.mp (AList.lookup_isSome.mpr (s.present name member))
  have here : tmp.lookup name = some content := (waiting name member (by simp)).trans present
  refine ⟨h.dir, (tmp.erase name).insert (name ++ compactStaged) content, ?_, ?_, ?_, ?_⟩
  · show d.tmp.map (fun tmp => Disk.renamed tmp name (name ++ compactStaged)) = _
    rw [found, Option.map_some, Disk.renamed, here]
  · have notManifest : compactManifest ≠ name := by
      intro same
      rw [← same, none] at here
      cases here
    rw [AList.lookup_insert_ne (staged_ne_manifest name).symm, AList.lookup_erase_ne notManifest, none]
  · intro other inside later
    have different : other ≠ name := by
      intro same
      subst same
      exact fresh later
    rw [AList.lookup_insert_ne (s.unstaged other inside name), AList.lookup_erase_ne different]
    exact waiting other inside (List.mem_cons_of_mem _ later)
  · intro other inside done
    by_cases same : other = name
    · subst same
      rw [AList.lookup_insert, present]
    · rw [AList.lookup_insert_ne (mt staged_inj.mp same), AList.lookup_erase_ne (s.unstaged name member other).symm]
      exact staged other inside (by simp [same, done])

theorem Staging.stageAll {left more : List Name} (h : s.Staging (left ++ more) d) (nodup : (left ++ more).Nodup)
    (members : ∀ name ∈ left, name ∈ s.names) : s.Staging more (d.performAll (left.map .stage)) := by
  induction left generalizing d with
  | nil => exact h
  | cons name left ih =>
    obtain ⟨fresh, rest⟩ := List.nodup_cons.mp nodup
    exact ih (h.stage fresh (members name (by simp))) rest (fun other member => members other (by simp [member]))

theorem names_plain (s : Swap) : ∀ name ∈ s.manifest.old, Plain name := by
  intro name member
  rw [manifest, dirFileNames, List.mem_insertionSort] at member
  exact s.oldPlain name member

theorem Staging.writeManifest (h : s.Staging [] d) : s.During (d.perform (.writeManifest s.manifest)) := by
  obtain ⟨tmp, found, none, _, staged⟩ := h.tmp
  have here : (d.perform (.writeManifest s.manifest)).tmp =
    some (tmp.insert compactManifest (marshalManifest s.manifest)) := by
    show d.tmp.map _ = _
    rw [found]
    rfl
  constructor
  · rw [Disk.manifest, here, Option.bind_some, AList.lookup_insert]
    exact unmarshalManifest_marshal s.names_plain s.plain
  · intro name member
    left
    refine ⟨?_, Or.inl ?_⟩
    · rw [Disk.staged, here, Option.bind_some, AList.lookup_insert_ne (staged_ne_manifest name)]
      exact staged name member (by simp)
    · show d.dir.lookup name = _
      rw [h.dir]
  · intro name _
    left
    show d.dir.lookup name = _
    rw [h.dir]

theorem Staging.torn (h : s.Staging [] d) (torn : d.Interrupted (.writeManifest s.manifest) d') : s.Recoverable d' := by
  obtain ⟨tmp, front, rest, found, split, more, rfl⟩ := torn
  refine .before (fun name => ?_) ?_
  · show d.dir.lookup name = _
    rw [h.dir]
  · show ((tmp.insert compactManifest front).lookup compactManifest).bind unmarshalManifest = none
    rw [AList.lookup_insert]
    exact unmarshalManifest_torn s.names_plain s.plain split more

theorem staged_all (s : Swap) : s.Staging [] (s.start.performAll (s.names.map .stage)) := by
  apply Staging.stageAll
  · rw [List.append_nil]
    exact s.start_staging
  · rw [List.append_nil]
    exact s.nodup
  · exact fun name member => member

theorem recoverable_of_crash (crash : s.Crashed d) : s.Recoverable d := by
  have complete : s.During (s.start.performAll (stageActions s.names s.manifest)) := by
    rw [stageActions, Disk.performAll, List.foldl_append]
    exact s.staged_all.writeManifest
  cases crash with
  | swapping crash => exact complete.crashes crash
  | staging crash =>
    cases crash with
    | after done rest split =>
      rw [stageActions] at split
      rcases List.append_eq_append_iff.mp split with ⟨front, rfl, tail⟩ | ⟨behind, within, _⟩
      · rcases front with _ | ⟨first, more⟩
        · rw [List.append_nil]
          exact s.staged_all.before
        · obtain ⟨rfl, nothing⟩ := List.cons.inj tail
          obtain ⟨rfl, _⟩ := List.append_eq_nil_iff.mp nothing.symm
          exact .during complete
      · obtain ⟨left, more, names, rfl, _⟩ := List.map_eq_append_iff.mp within
        have nodup := s.nodup
        rw [names] at nodup
        apply Staging.before
        apply Staging.stageAll _ nodup
        · exact fun name member => by rw [names]; exact List.mem_append_left _ member
        · rw [← names]
          exact s.start_staging
    | during done rest action d' split torn =>
      rw [stageActions] at split
      rcases List.append_eq_append_iff.mp split with ⟨front, rfl, tail⟩ | ⟨behind, within, tail⟩
      · rcases front with _ | ⟨first, more⟩
        · obtain ⟨rfl, _⟩ := List.cons.inj tail
          rw [List.append_nil] at torn
          exact s.staged_all.torn torn
        · have clash := congrArg List.length tail
          simp at clash
      · rcases behind with _ | ⟨first, behind⟩
        · obtain ⟨rfl, _⟩ := List.cons.inj tail
          rw [List.append_nil] at within
          rw [← within] at torn
          exact s.staged_all.torn torn
        · obtain ⟨rfl, _⟩ := List.cons.inj tail
          have renames : action ∈ s.names.map SwapAction.stage := by
            rw [within]
            simp
          obtain ⟨name, _, rfl⟩ := List.mem_map.mp renames
          exact torn.elim

theorem Recoverable.swap (h : s.Recoverable d) :
    (s.HoldsOld d.applyCompactionSwap ∨ s.HoldsNew d.applyCompactionSwap) ∧ d.applyCompactionSwap.tmp = none := by
  cases h with
  | before old none =>
    rw [Disk.applyCompactionSwap_of_no_manifest none]
    exact ⟨Or.inl old, rfl⟩
  | during exchanging =>
    rw [Disk.applyCompactionSwap, exchanging.swapActions, Disk.performAll, List.foldl_append]
    exact ⟨Or.inr exchanging.finishes.1, rfl⟩
  | after new none =>
    rw [Disk.applyCompactionSwap_of_no_manifest none]
    exact ⟨Or.inr new, rfl⟩

theorem Crashed.recoverable (crash : s.Crashed d) (reruns : d.Recovering d') : s.Recoverable d' := by
  induction reruns with
  | refl => exact recoverable_of_crash crash
  | tail _ again ih => exact ih.crashes again

end Swap

/-- Wherever the swap and its reruns crash, the run that completes leaves all old files and nothing else,
    or all new ones and nothing else. -/
theorem swap_crash_safe (s : Swap) {d d' : Disk} (crash : s.Crashed d) (reruns : d.Recovering d') :
    (s.HoldsOld d'.applyCompactionSwap ∨ s.HoldsNew d'.applyCompactionSwap) ∧ d'.applyCompactionSwap.tmp = none := by
  have recoverable := crash.recoverable reruns
  exact recoverable.swap

def oneFileSwap : Swap where
  old := AList.singleton (ascii "0.log") [1]
  names := [ascii "0.log"]
  files := AList.singleton (ascii "0.log") [2]
  oldPlain := by decide +kernel
  plain := by decide +kernel
  nodup := by decide
  present := by decide
  unstaged := by
    intro name member other same
    rw [List.mem_singleton.mp member] at same
    have last := congrArg List.getLast? same
    have staged : compactStaged.getLast? = some 100 := by decide
    rw [List.getLast?_append, staged, Option.some_or] at last
    revert last
    decide
  noManifest := by decide

theorem swap_crash_safe_between :
    ∃ d, oneFileSwap.Crashed d ∧ d.dir.lookup (ascii "0.log") = none ∧
      (oneFileSwap.HoldsOld d.applyCompactionSwap ∨ oneFileSwap.HoldsNew d.applyCompactionSwap) ∧
      d.applyCompactionSwap.tmp = none := by
  have actions : (oneFileSwap.start.performAll (stageActions oneFileSwap.names oneFileSwap.manifest)).swapActions =
      [.remove true (ascii "0.log")] ++ [.install (ascii "0.log"), .removeManifest, .removeAll] := by
    rfl
  have crash := Swap.Crashed.swapping (.after _ _ actions)
  exact ⟨_, crash, by decide, swap_crash_safe oneFileSwap crash .refl⟩

end PocketKafka.Storage
