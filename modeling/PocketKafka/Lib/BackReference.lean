import Mathlib

namespace BackReference

variable {α : Type*} [Inhabited α]

/-- Appends `length` elements, each the one that stands `offset` places before it. -/
def repeatBack (offset : Nat) : Nat → List α → List α
  | 0, dst => dst
  | length + 1, dst => repeatBack offset length (dst ++ [dst.getD (dst.length - offset) default])

@[simp] theorem repeatBack_length (offset length : Nat) (dst : List α) :
    (repeatBack offset length dst).length = dst.length + length := by
  induction length generalizing dst with
  | zero => rfl
  | succ length ih =>
    rw [repeatBack, ih, List.length_append, List.length_singleton]
    omega

theorem repeatBack_add (offset m n : Nat) (dst : List α) :
    repeatBack offset (m + n) dst = repeatBack offset n (repeatBack offset m dst) := by
  induction m generalizing dst with
  | zero => rw [Nat.zero_add, repeatBack]
  | succ m ih => rw [Nat.succ_add, repeatBack, ih, repeatBack]

theorem prefix_repeatBack (offset length : Nat) (dst : List α) : dst <+: repeatBack offset length dst := by
  induction length generalizing dst with
  | zero => exact List.prefix_rfl
  | succ length ih => exact (List.prefix_append _ _).trans (ih _)

def Repeats (src : List α) (offset i length : Nat) : Prop :=
  ∀ k < length, src.getD (i + k) default = src.getD (i + k - offset) default

theorem take_succ_getD {src : List α} {i : Nat} (inside : i < src.length) :
    src.take (i + 1) = src.take i ++ [src.getD i default] := by
  rw [List.take_add_one, List.getElem?_eq_getElem inside, List.getD_eq_getElem _ _ inside, Option.toList_some]

theorem getD_take {src : List α} {i k : Nat} (inside : k < i) : (src.take i).getD k default = src.getD k default := by
  rw [List.getD_eq_getElem?_getD, List.getD_eq_getElem?_getD, List.getElem?_take_of_lt inside]

theorem repeatBack_take {src : List α} {offset i length : Nat} (inside : i + length ≤ src.length) (positive : 0 < offset)
    (back : offset ≤ i) (repeats : Repeats src offset i length) :
    repeatBack offset length (src.take i) = src.take (i + length) := by
  induction length generalizing i with
  | zero => rfl
  | succ length ih =>
    have size : (src.take i).length = i := List.length_take_of_le (by omega)
    have copied : src.getD (i - offset) default = src.getD i default := (repeats 0 (by omega)).symm
    rw [repeatBack, size, getD_take (by omega), copied, ← take_succ_getD (by omega), ih (by omega) (by omega)]
    · congr 1
      omega
    · intro k small
      have := repeats (k + 1) (by omega)
      rwa [show i + (k + 1) = i + 1 + k by omega] at this

/-- How far the elements behind `cand` agree with those behind `i`, counted from `len` up to `limit`. -/
def matchLength [DecidableEq α] (src : List α) (limit cand i len : Nat) : Nat :=
  if i + len < src.length ∧ src.getD (cand + len) default = src.getD (i + len) default ∧ len < limit then
    matchLength src limit cand i (len + 1)
  else len
termination_by limit - len

theorem le_matchLength [DecidableEq α] (src : List α) (limit cand i len : Nat) :
    len ≤ matchLength src limit cand i len := by
  induction len using matchLength.induct src limit cand i with
  | case1 len more ih =>
    rw [matchLength, if_pos more]
    omega
  | case2 len stop => rw [matchLength, if_neg stop]

structure Match (limit : Nat) (src : List α) (i offset length : Nat) : Prop where
  positive : 0 < offset
  back : offset ≤ i
  inside : i + length ≤ src.length
  bounded : length ≤ limit
  repeats : Repeats src offset i length
  maximal : length < limit → i + length < src.length →
    src.getD (i + length) default ≠ src.getD (i + length - offset) default

theorem Match.repeatBack {limit : Nat} {src : List α} {i offset length : Nat} (h : Match limit src i offset length) :
    repeatBack offset length (src.take i) = src.take (i + length) :=
  repeatBack_take h.inside h.positive h.back h.repeats

theorem Match.overrun {limit : Nat} {src : List α} {i offset length more : Nat} (h : Match limit src i offset length)
    (short : length < limit) (positive : 0 < more) :
      ¬ BackReference.repeatBack offset (length + more) (src.take i) <+: src := by
  intro front
  obtain ⟨more, rfl⟩ : ∃ n, more = n + 1 := ⟨more - 1, by omega⟩
  have inside := h.inside
  have back := h.back
  have positive := h.positive
  have size : (src.take (i + length)).length = i + length := List.length_take_of_le inside
  rw [repeatBack_add, h.repeatBack, BackReference.repeatBack, size, getD_take (by omega)] at front
  have next := (prefix_repeatBack offset more _).trans front
  have room : i + length < src.length := by
    have := next.length_le
    rw [List.length_append, size, List.length_singleton] at this
    omega
  have same := List.prefix_iff_eq_take.mp next
  rw [List.length_append, size, List.length_singleton, take_succ_getD room] at same
  have equal := List.append_cancel_left same
  exact h.maximal short room (List.singleton_inj.mp equal).symm

theorem matchLength_match [DecidableEq α] {src : List α} {limit cand i len : Nat} (before : cand < i)
    (inside : i + len ≤ src.length) (bounded : len ≤ limit) (repeats : Repeats src (i - cand) i len) :
    Match limit src i (i - cand) (matchLength src limit cand i len) := by
  induction len using matchLength.induct src limit cand i with
  | case1 len more ih =>
    rw [matchLength, if_pos more]
    apply ih (by omega) (by omega)
    intro k small
    by_cases last : k = len
    · subst last
      rw [show i + k - (i - cand) = cand + k by omega]
      exact more.2.1.symm
    · exact repeats k (by omega)
  | case2 len stop =>
    rw [matchLength, if_neg stop]
    refine ⟨by omega, by omega, inside, bounded, repeats, fun short room same => stop ⟨room, ?_, short⟩⟩
    rw [same, show i + len - (i - cand) = cand + len by omega]

structure Sequence (α : Type*) where
  literals : List α
  offset : Nat
  length : Nat
  deriving DecidableEq

/-- The sequences and the last literals are `src` from position `p` on. `accepts p i seq` is what is known of a sequence
    whose literals start at `p` and whose copy starts at `i`. -/
inductive Parses (limit : Nat) (accepts : Nat → Nat → Sequence α → Prop) (src : List α) :
    Nat → List (Sequence α) → List α → Prop
  | last (p : Nat) (inside : p ≤ src.length) : Parses limit accepts src p [] (src.drop p)
  | next (p i : Nat) (seq : Sequence α) {seqs : List (Sequence α)} {rest : List α} (order : p ≤ i)
      (literals : src.take i = src.take p ++ seq.literals) (found : Match limit src i seq.offset seq.length)
      (accepted : accepts p i seq) (parse : Parses limit accepts src (i + seq.length) seqs rest) :
      Parses limit accepts src p (seq :: seqs) rest

end BackReference
