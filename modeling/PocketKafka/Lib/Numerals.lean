import PocketKafka.Lib.Text

namespace Text

open Bytes

theorem digits_ne_nil (fuel n : Nat) : digits fuel n ≠ [] := by
  cases fuel with
  | zero => exact List.cons_ne_nil _ _
  | succ fuel =>
    rw [digits]
    split
    · exact List.cons_ne_nil _ _
    · exact List.append_ne_nil_of_right_ne_nil _ (List.cons_ne_nil _ _)

theorem atoi_formatInt {x : Int} (lower : -9223372036854775808 ≤ x) (upper : x ≤ 9223372036854775807) :
    atoi (formatInt x) = some x := by
  have value := undecimal_digits (le_refl x.natAbs)
  have some := digits_ne_nil x.natAbs x.natAbs
  unfold formatInt
  split
  · simp only [atoi, some, ↓reduceIte, value, Option.bind_some]
    rw [if_neg (by omega)]
    congr 1
    omega
  · have unsigned : ∀ c rest, digits x.natAbs x.natAbs = c :: rest → c ≠ 45 ∧ c ≠ 43 := by
      intro c rest same
      have digit := mem_digits (le_refl x.natAbs) (same ▸ List.mem_cons_self : c ∈ digits x.natAbs x.natAbs)
      constructor
      · rintro rfl
        exact absurd digit.1 (by decide)
      · rintro rfl
        exact absurd digit.1 (by decide)
    unfold atoi
    split
    rename_i negative ds parts
    split at parts
    · rename_i rest same
      exact absurd rfl (unsigned 45 rest same).1
    · rename_i rest same
      exact absurd rfl (unsigned 43 rest same).2
    · cases parts
      rw [if_neg some, value, Option.bind_some]
      simp only [Bool.false_eq_true, ↓reduceIte]
      rw [if_neg (by omega)]
      congr 1
      omega

end Text
