import PocketKafka.Lib.Bytes

namespace Bytes

def decimal : Nat → Nat → Bytes
  | 0, _ => []
  | width + 1, n => decimal width (n / 10) ++ [UInt8.ofNat (48 + n % 10)]

def digit (c : UInt8) : Option Nat := if 48 ≤ c ∧ c ≤ 57 then some (c.toNat - 48) else none

def undecimal (b : Bytes) : Option Nat :=
  b.foldl (fun acc c => acc.bind fun n => (digit c).map fun d => 10 * n + d) (some 0)

@[simp] theorem decimal_length (width n : Nat) : (decimal width n).length = width := by
  induction width generalizing n with
  | zero => rfl
  | succ width ih => simp [decimal, ih]

theorem digit_ofNat {n : Nat} (small : n < 10) : digit (UInt8.ofNat (48 + n)) = some n := by
  revert n
  decide

theorem undecimal_decimal {width n : Nat} (fits : n < 10 ^ width) : undecimal (decimal width n) = some n := by
  induction width generalizing n with
  | zero =>
    have zero : n = 0 := by simpa using fits
    subst zero
    rfl
  | succ width ih =>
    have front : undecimal (decimal width (n / 10)) = some (n / 10) := by
      apply ih
      rw [pow_succ] at fits
      omega
    rw [undecimal] at front
    rw [decimal, undecimal, List.foldl_append, front, List.foldl_cons, List.foldl_nil, Option.bind_some,
      digit_ofNat (Nat.mod_lt n (by decide)), Option.map_some]
    congr 1
    omega

def digits : Nat → Nat → Bytes
  | 0, n => [UInt8.ofNat (48 + n)]
  | fuel + 1, n => if n < 10 then [UInt8.ofNat (48 + n)] else digits fuel (n / 10) ++ [UInt8.ofNat (48 + n % 10)]

def formatInt (x : Int) : Bytes := if x < 0 then 45 :: digits x.natAbs x.natAbs else digits x.natAbs x.natAbs

theorem undecimal_digits {fuel n : Nat} (enough : n ≤ fuel) : undecimal (digits fuel n) = some n := by
  induction fuel generalizing n with
  | zero =>
    rw [Nat.le_zero.mp enough]
    rfl
  | succ fuel ih =>
    rw [digits]
    split
    · rename_i small
      rw [undecimal, List.foldl_cons, List.foldl_nil, Option.bind_some, digit_ofNat small, Option.map_some]
      simp
    · have front := ih (n := n / 10) (by omega)
      rw [undecimal] at front
      rw [undecimal, List.foldl_append, front, List.foldl_cons, List.foldl_nil, Option.bind_some,
        digit_ofNat (Nat.mod_lt n (by decide)), Option.map_some]
      congr 1
      omega

theorem mem_digits {fuel n : Nat} (enough : n ≤ fuel) {c : UInt8} (member : c ∈ digits fuel n) : 48 ≤ c ∧ c ≤ 57 := by
  have single : ∀ d < 10, 48 ≤ UInt8.ofNat (48 + d) ∧ UInt8.ofNat (48 + d) ≤ 57 := by decide
  induction fuel generalizing n with
  | zero =>
    rw [Nat.le_zero.mp enough, digits, List.mem_singleton] at member
    subst member
    decide
  | succ fuel ih =>
    rw [digits] at member
    split at member
    · rename_i small
      rw [List.mem_singleton.mp member]
      exact single n small
    · rcases List.mem_append.mp member with front | last
      · exact ih (n := n / 10) (by omega) front
      · rw [List.mem_singleton.mp last]
        exact single (n % 10) (Nat.mod_lt n (by decide))

theorem formatInt_injective {x y : Int} (same : formatInt x = formatInt y) : x = y := by
  have unsigned : ∀ n : Nat, 45 ∉ digits n n := fun n member => absurd (mem_digits (le_refl n) member).1 (by decide)
  have size : ∀ {n m : Nat}, digits n n = digits m m → n = m := by
    intro n m same
    have values := congrArg undecimal same
    rw [undecimal_digits (le_refl n), undecimal_digits (le_refl m)] at values
    exact Option.some.inj values
  unfold formatInt at same
  split at same <;> split at same
  · have := size (List.cons.inj same).2
    omega
  · exact absurd (same ▸ List.mem_cons_self) (unsigned y.natAbs)
  · exact absurd (same ▸ List.mem_cons_self) (unsigned x.natAbs)
  · have := size same
    omega

end Bytes
