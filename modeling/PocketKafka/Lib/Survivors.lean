import Mathlib

namespace Survivors

variable {α κ : Type*} [DecidableEq κ] (key : α → Option κ)

def keys (xs : List α) : List κ := xs.filterMap key

def survivors : List α → List α
  | [] => []
  | a :: rest =>
    match key a with
    | none => a :: survivors rest
    | some k => if k ∈ keys key rest then survivors rest else a :: survivors rest

def lastIndex (k : κ) : Nat → List α → Option Nat
  | _, [] => none
  | i, a :: rest => (lastIndex k (i + 1) rest).or (if key a = some k then some i else none)

def note (last : AList (fun _ : κ => Nat)) (i : Nat) (a : α) : AList (fun _ : κ => Nat) :=
  match key a with
  | none => last
  | some k => last.insert k i

def noteAll (last : AList (fun _ : κ => Nat)) : Nat → List α → AList (fun _ : κ => Nat)
  | _, [] => last
  | i, a :: rest => noteAll (note key last i a) (i + 1) rest

def keeps (last : AList (fun _ : κ => Nat)) (i : Nat) (a : α) : Bool :=
  match key a with
  | none => true
  | some k => decide (last.lookup k = some i)

variable {key} {last : AList (fun _ : κ => Nat)}

theorem survivors_sublist (xs : List α) : (survivors key xs).Sublist xs := by
  induction xs with
  | nil => exact List.Sublist.refl _
  | cons a rest ih =>
    rw [survivors]
    split
    · exact ih.cons_cons a
    · split
      · exact ih.cons a
      · exact ih.cons_cons a

theorem lookup_noteAll (k : κ) (i : Nat) (xs : List α) :
    (noteAll key last i xs).lookup k = (lastIndex key k i xs).or (last.lookup k) := by
  induction xs generalizing last i with
  | nil => rfl
  | cons a rest ih =>
    rw [noteAll, ih, lastIndex, Option.or_assoc]
    congr 1
    rcases found : key a with _ | k'
    · simp [note, found]
    · by_cases same : k' = k
      · subst same
        simp [note, found]
      · have different : ¬ k = k' := fun equal => same equal.symm
        simp [note, found, same, AList.lookup_insert_ne different]

theorem le_lastIndex {k : κ} {i j : Nat} {xs : List α} (found : lastIndex key k i xs = some j) : i ≤ j := by
  induction xs generalizing i with
  | nil => cases found
  | cons a rest ih =>
    rw [lastIndex, Option.or_eq_some_iff] at found
    rcases found with later | ⟨_, here⟩
    · have bound := ih later
      omega
    · split at here
      · cases here
        exact le_rfl
      · cases here

theorem lastIndex_eq_none {k : κ} {i : Nat} {xs : List α} : lastIndex key k i xs = none ↔ k ∉ keys key xs := by
  induction xs generalizing i with
  | nil => simp [lastIndex, keys]
  | cons a rest ih =>
    rw [lastIndex, Option.or_eq_none_iff, ih]
    rcases found : key a with _ | k'
    · simp [keys, found]
    · by_cases same : k' = k
      · simp [keys, found, same]
      · have different : ¬ k = k' := fun equal => same equal.symm
        simp [keys, found, same, different]

theorem lastIndex_append (k : κ) (i : Nat) (xs ys : List α) :
    lastIndex key k i (xs ++ ys) = (lastIndex key k (i + xs.length) ys).or (lastIndex key k i xs) := by
  induction xs generalizing i with
  | nil => simp [lastIndex]
  | cons a rest ih =>
    rw [List.cons_append, lastIndex, ih, lastIndex, List.length_cons, Option.or_assoc,
      show i + 1 + rest.length = i + (rest.length + 1) by omega]

theorem keeps_iff {front rest : List α} {a : α}
    (noted : ∀ k, last.lookup k = lastIndex key k 0 (front ++ a :: rest)) :
    keeps key last front.length a = true ↔ ∀ k, key a = some k → k ∉ keys key rest := by
  rcases found : key a with _ | k
  · simp [keeps, found]
  · have split : lastIndex key k 0 (front ++ a :: rest) =
        ((lastIndex key k (front.length + 1) rest).or (some front.length)).or (lastIndex key k 0 front) := by
      rw [lastIndex_append, lastIndex, Nat.zero_add, if_pos found]
    simp only [keeps, found, decide_eq_true_eq, noted, split, Option.some.injEq, forall_eq']
    rcases later : lastIndex key k (front.length + 1) rest with _ | j
    · simp [lastIndex_eq_none.mp later]
    · have bound := le_lastIndex later
      have inside : k ∈ keys key rest := by
        by_contra outside
        rw [lastIndex_eq_none.mpr outside] at later
        cases later
      simp only [Option.some_or, Option.some.injEq, inside, not_true_eq_false, iff_false]
      omega

theorem survivors_keep {a : α} {rest : List α} (kept : ∀ k, key a = some k → k ∉ keys key rest) :
    survivors key (a :: rest) = a :: survivors key rest := by
  rcases found : key a with _ | k
  · simp [survivors, found]
  · simp [survivors, found, kept k found]

theorem survivors_drop {a : α} {rest : List α} (dropped : ¬ ∀ k, key a = some k → k ∉ keys key rest) :
    survivors key (a :: rest) = survivors key rest := by
  rcases found : key a with _ | k
  · simp [found] at dropped
  · simp only [found, Option.some.injEq, forall_eq', not_not] at dropped
    simp [survivors, found, dropped]

theorem survivors_length (xs : List α) :
    (survivors key xs).length = (xs.filter (fun a => (key a).isNone)).length + (keys key xs).dedup.length := by
  induction xs with
  | nil => rfl
  | cons a rest ih =>
    rcases found : key a with _ | k
    · rw [survivors_keep (by simp [found]), List.length_cons, ih, List.filter_cons_of_pos (by simp [found]),
        List.length_cons, keys, keys, List.filterMap_cons_none found]
      omega
    · have later : keys key (a :: rest) = k :: keys key rest := List.filterMap_cons_some found
      rw [List.filter_cons_of_neg (by simp [found]), later]
      by_cases inside : k ∈ keys key rest
      · rw [survivors_drop (by simp [found, inside]), List.dedup_cons_of_mem inside, ih]
      · rw [survivors_keep (by simpa [found] using inside), List.dedup_cons_of_notMem inside, List.length_cons,
          List.length_cons, ih]
        omega

theorem mem_noteAll (k : κ) (i : Nat) (xs : List α) :
    k ∈ noteAll key last i xs ↔ k ∈ keys key xs ∨ k ∈ last := by
  rw [← AList.lookup_isSome, lookup_noteAll, Option.isSome_or, Bool.or_eq_true, AList.lookup_isSome]
  refine or_congr_left ?_
  rw [← not_iff_not, ← lastIndex_eq_none (i := i)]
  simp

theorem noteAll_length (i : Nat) (xs : List α) :
    (noteAll key (∅ : AList (fun _ : κ => Nat)) i xs).keys.length = (keys key xs).dedup.length := by
  apply List.Perm.length_eq
  rw [List.perm_ext_iff_of_nodup (AList.keys_nodup _) (List.nodup_dedup _)]
  intro k
  rw [← AList.mem_keys, mem_noteAll, List.mem_dedup]
  simp

theorem mem_survivors_of_none {xs : List α} {a : α} (member : a ∈ xs) (none : key a = none) : a ∈ survivors key xs := by
  induction xs with
  | nil => cases member
  | cons b rest ih =>
    by_cases keep : ∀ k, key b = some k → k ∉ keys key rest
    · rw [survivors_keep keep]
      rcases List.mem_cons.mp member with rfl | later
      · exact List.mem_cons_self
      · exact List.mem_cons_of_mem _ (ih later)
    · rw [survivors_drop keep]
      rcases List.mem_cons.mp member with rfl | later
      · exact absurd (by simp [none]) keep
      · exact ih later

theorem survivors_idem (xs : List α) : survivors key (survivors key xs) = survivors key xs := by
  induction xs with
  | nil => rfl
  | cons a rest ih =>
    by_cases keep : ∀ k, key a = some k → k ∉ keys key rest
    · rw [survivors_keep keep, survivors_keep, ih]
      intro k found inside
      exact keep k found (((survivors_sublist rest).filterMap key).subset inside)
    · rw [survivors_drop keep, ih]

theorem survivors_map {β : Type*} (f : β → α) (xs : List β) :
    survivors key (xs.map f) = (survivors (fun b => key (f b)) xs).map f := by
  induction xs with
  | nil => rfl
  | cons b rest ih =>
    have same : keys key (rest.map f) = keys (fun b => key (f b)) rest := List.filterMap_map ..
    by_cases keep : ∀ k, key (f b) = some k → k ∉ keys key (rest.map f)
    · rw [List.map_cons, survivors_keep keep, ih, survivors_keep (by rwa [same] at keep), List.map_cons]
    · rw [List.map_cons, survivors_drop keep, ih, survivors_drop (by rwa [same] at keep)]

theorem survivors_eq_self_iff {xs : List α} : survivors key xs = xs ↔ xs.length ≤ (survivors key xs).length := by
  constructor
  · intro same
    rw [same]
  · intro long
    exact (survivors_sublist xs).eq_of_length_le long

end Survivors
