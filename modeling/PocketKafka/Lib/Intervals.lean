import Mathlib

namespace Intervals

variable {α β : Type*} (start stop : α → β)

/-- The intervals cover everything between `lo` and `hi`. -/
def Gapless : β → List α → β → Prop
  | lo, [], hi => lo = hi
  | lo, a :: rest, hi => start a = lo ∧ Gapless (stop a) rest hi

def Ascending [LE β] : β → List α → β → Prop
  | lo, [], hi => lo ≤ hi
  | lo, a :: rest, hi => lo ≤ start a ∧ Ascending (stop a) rest hi

variable {start stop} {lo lo' mid hi hi' : β} {xs ys : List α} {x y : α}

theorem Gapless.append (left : Gapless start stop lo xs mid) (right : Gapless start stop mid ys hi) :
    Gapless start stop lo (xs ++ ys) hi := by
  induction xs generalizing lo with
  | nil =>
    cases left
    exact right
  | cons x xs ih => exact ⟨left.1, ih left.2⟩

theorem Gapless.split (h : Gapless start stop lo (xs ++ ys) hi) :
    ∃ mid, Gapless start stop lo xs mid ∧ Gapless start stop mid ys hi := by
  induction xs generalizing lo with
  | nil => exact ⟨lo, rfl, h⟩
  | cons x xs ih =>
    obtain ⟨mid, left, right⟩ := ih h.2
    exact ⟨mid, ⟨h.1, left⟩, right⟩

theorem Gapless.unique (h : Gapless start stop lo xs hi) (h' : Gapless start stop lo xs hi') : hi = hi' := by
  induction xs generalizing lo with
  | nil => exact h.symm.trans h'
  | cons x xs ih => exact ih h.2 h'.2

variable [Preorder β]

theorem Gapless.ascending (h : Gapless start stop lo xs hi) : Ascending start stop lo xs hi := by
  induction xs generalizing lo with
  | nil => exact h.le
  | cons x xs ih => exact ⟨h.1.ge, ih h.2⟩

theorem Ascending.weaken (h : Ascending start stop lo xs hi) (lower : lo' ≤ lo) (upper : hi ≤ hi') :
    Ascending start stop lo' xs hi' := by
  induction xs generalizing lo lo' with
  | nil => exact lower.trans (h.trans upper)
  | cons x xs ih => exact ⟨lower.trans h.1, ih h.2 le_rfl⟩

theorem Ascending.append (left : Ascending start stop lo xs mid) (right : Ascending start stop mid ys hi) :
    Ascending start stop lo (xs ++ ys) hi := by
  induction xs generalizing lo with
  | nil => exact right.weaken left le_rfl
  | cons x xs ih => exact ⟨left.1, ih left.2⟩

theorem Ascending.split (h : Ascending start stop lo (xs ++ ys) hi) :
    ∃ mid, Ascending start stop lo xs mid ∧ Ascending start stop mid ys hi := by
  induction xs generalizing lo with
  | nil => exact ⟨lo, le_rfl, h⟩
  | cons x xs ih =>
    obtain ⟨mid, left, right⟩ := ih h.2
    exact ⟨mid, ⟨h.1, left⟩, right⟩

theorem Ascending.le (proper : ∀ a ∈ xs, start a ≤ stop a) (h : Ascending start stop lo xs hi) : lo ≤ hi := by
  induction xs generalizing lo with
  | nil => exact h
  | cons x xs ih =>
    exact h.1.trans ((proper x (by simp)).trans (ih (fun a member => proper a (List.mem_cons_of_mem _ member)) h.2))

theorem Ascending.mem (proper : ∀ a ∈ xs, start a ≤ stop a) (h : Ascending start stop lo xs hi) (member : x ∈ xs) :
    lo ≤ start x ∧ stop x ≤ hi := by
  induction xs generalizing lo with
  | nil => cases member
  | cons y ys ih =>
    have rest := fun a member => proper a (List.mem_cons_of_mem y member)
    rcases List.mem_cons.mp member with rfl | later
    · exact ⟨h.1, h.2.le rest⟩
    · obtain ⟨lower, upper⟩ := ih rest h.2 later
      exact ⟨h.1.trans ((proper y (by simp)).trans lower), upper⟩

theorem Ascending.across (proper : ∀ a ∈ xs ++ ys, start a ≤ stop a) (h : Ascending start stop lo (xs ++ ys) hi)
    (first : x ∈ xs) (second : y ∈ ys) : stop x ≤ start y := by
  obtain ⟨mid, left, right⟩ := h.split
  exact (left.mem (fun a member => proper a (List.mem_append_left _ member)) first).2.trans
    (right.mem (fun a member => proper a (List.mem_append_right _ member)) second).1

theorem Gapless.find {β : Type*} [LinearOrder β] {start stop : α → β} {lo hi t : β} {xs : List α}
    (h : Gapless start stop lo xs hi) (lower : lo ≤ t) (upper : t < hi) : ∃ x ∈ xs, start x ≤ t ∧ t < stop x := by
  induction xs generalizing lo with
  | nil => exact absurd upper (not_lt.mpr (h ▸ lower))
  | cons x xs ih =>
    rcases lt_or_ge t (stop x) with here | later
    · exact ⟨x, by simp, h.1.le.trans lower, here⟩
    · obtain ⟨y, member, inside⟩ := ih h.2 later
      exact ⟨y, List.mem_cons_of_mem _ member, inside⟩

end Intervals
