import Mathlib

namespace Search

/-- One probe halves `[i, j)`; every index below `i` fails, every index from `j` on holds. -/
def searchFrom (holds : Nat → Bool) (i j : Nat) : Nat :=
  if i < j then
    let h := (i + j) / 2
    if holds h then searchFrom holds i h else searchFrom holds (h + 1) j
  else i
termination_by j - i

def search (n : Nat) (holds : Nat → Bool) : Nat := searchFrom holds 0 n

theorem searchFrom_spec (holds : Nat → Bool) (i j : Nat) (order : i ≤ j)
    (monotone : ∀ a b, a ≤ b → b < j → holds a = true → holds b = true) :
    i ≤ searchFrom holds i j ∧ searchFrom holds i j ≤ j ∧
      (∀ k, i ≤ k → k < searchFrom holds i j → holds k = false) ∧
      (∀ k, searchFrom holds i j ≤ k → k < j → holds k = true) := by
  fun_induction searchFrom holds i j with
  | case1 i j less h found ih =>
    have half : i ≤ h ∧ h < j := by omega
    obtain ⟨lower, upper, before, after⟩ := ih half.1 (fun a b hab hb => monotone a b hab (by omega))
    refine ⟨lower, by omega, before, fun k hk bound => ?_⟩
    by_cases near : k < h
    · exact after k hk near
    · exact monotone h k (by omega) bound found
  | case2 i j less h missing ih =>
    have half : i ≤ h ∧ h < j := by omega
    obtain ⟨lower, upper, before, after⟩ := ih (by omega) monotone
    refine ⟨by omega, upper, fun k hk bound => ?_, after⟩
    by_cases near : k ≤ h
    · by_contra other
      exact missing (monotone k h near half.2 (by simpa using other))
    · exact before k (by omega) bound
  | case3 i j less =>
    exact ⟨by omega, by omega, fun k hk bound => by omega, fun k hk bound => by omega⟩

theorem search_spec (n : Nat) (holds : Nat → Bool)
    (monotone : ∀ a b, a ≤ b → b < n → holds a = true → holds b = true) :
    search n holds ≤ n ∧ (∀ k, k < search n holds → holds k = false) ∧
      (∀ k, search n holds ≤ k → k < n → holds k = true) := by
  obtain ⟨_, upper, before, after⟩ := searchFrom_spec holds 0 n (by omega) monotone
  exact ⟨upper, fun k bound => before k (by omega) bound, after⟩

end Search
