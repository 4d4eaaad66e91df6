import PocketKafka.Lib.Bytes

namespace Bytes

def putUvarint (n : Nat) : Bytes :=
  if n < 128 then [UInt8.ofNat n] else UInt8.ofNat (n % 128 + 128) :: putUvarint (n / 128)
termination_by n

def uvarintLoop : Bytes → Nat → Nat → Option (Nat × Nat)
  | [], _, _ => none
  | b :: rest, i, x =>
    if i = 10 then none
    else if b.toNat < 128 then
      if i = 9 ∧ 1 < b.toNat then none else some (x + b.toNat * 128 ^ i, i + 1)
    else uvarintLoop rest (i + 1) (x + (b.toNat - 128) * 128 ^ i)

def uvarint (buf : Bytes) : Option (Nat × Nat) := uvarintLoop buf 0 0

def zigzag (v : Int) : Nat := if 0 ≤ v then (2 * v).toNat else (-2 * v - 1).toNat

def unzigzag (n : Nat) : Int := if n % 2 = 0 then (n / 2 : Nat) else -((n / 2 : Nat) : Int) - 1

def putVarint (v : Int) : Bytes := putUvarint (zigzag v)

def varint (buf : Bytes) : Option (Int × Nat) := (uvarint buf).map (fun (ux, n) => (unzigzag ux, n))

theorem unzigzag_zigzag (v : Int) : unzigzag (zigzag v) = v := by
  unfold zigzag unzigzag
  split <;> split <;> omega

theorem zigzag_lt {v : Int} (lower : -9223372036854775808 ≤ v) (upper : v < 9223372036854775808) :
    zigzag v < 18446744073709551616 := by
  unfold zigzag
  split <;> omega

theorem putUvarint_pos (n : Nat) : 0 < (putUvarint n).length := by
  rw [putUvarint]
  split <;> simp

theorem uvarintLoop_put (n : Nat) (rest : Bytes) (i x : Nat) (fits : n * 128 ^ i < 18446744073709551616)
    (more : i = 0 ∨ 0 < n) :
    uvarintLoop (putUvarint n ++ rest) i x = some (x + n * 128 ^ i, i + (putUvarint n).length) := by
  have place : i ≤ 9 := by
    rcases more with rfl | positive
    · omega
    · by_contra far
      have large : 128 ^ 10 ≤ 128 ^ i := Nat.pow_le_pow_right (by decide) (by omega)
      have least : 1 * 128 ^ i ≤ n * 128 ^ i := Nat.mul_le_mul_right _ positive
      have bound : (18446744073709551616 : Nat) < 128 ^ 10 := by decide
      omega
  induction n using Nat.strong_induction_on generalizing i x with
  | _ n ih =>
    rw [putUvarint]
    by_cases small : n < 128
    · have byte : (UInt8.ofNat n).toNat = n := by
        rw [UInt8.toNat_ofNat']
        omega
      have top : ¬ (i = 9 ∧ 1 < n) := by
        rintro ⟨rfl, large⟩
        have power : (128 : Nat) ^ 9 = 9223372036854775808 := by decide
        rw [power] at fits
        omega
      rw [if_pos small, List.singleton_append, uvarintLoop, byte, if_neg (by omega), if_pos small, if_neg top]
      rfl
    · have byte : (UInt8.ofNat (n % 128 + 128)).toNat = n % 128 + 128 := by
        rw [UInt8.toNat_ofNat']
        omega
      have shift : n / 128 * 128 ^ (i + 1) + n % 128 * 128 ^ i = n * 128 ^ i := by
        calc n / 128 * 128 ^ (i + 1) + n % 128 * 128 ^ i = (128 * (n / 128) + n % 128) * 128 ^ i := by ring
          _ = n * 128 ^ i := by rw [Nat.div_add_mod]
      have next : i + 1 ≤ 9 := by
        by_contra last
        obtain rfl : i = 9 := by omega
        have power : (128 : Nat) ^ 9 = 9223372036854775808 := by decide
        rw [power] at fits
        omega
      rw [if_neg small, List.cons_append, uvarintLoop, byte, if_neg (by omega), if_neg (by omega),
        ih (n / 128) (by omega) (i + 1) _ (by omega) (Or.inr (by omega)) next, List.length_cons, Nat.add_sub_cancel]
      congr 2
      · omega
      · omega

theorem uvarint_put {n : Nat} (fits : n < 18446744073709551616) (rest : Bytes) :
    uvarint (putUvarint n ++ rest) = some (n, (putUvarint n).length) := by
  rw [uvarint, uvarintLoop_put n rest 0 0 (by simpa using fits) (Or.inl rfl)]
  simp

theorem varint_put {v : Int} (lower : -9223372036854775808 ≤ v) (upper : v < 9223372036854775808) (rest : Bytes) :
    varint (putVarint v ++ rest) = some (v, (putVarint v).length) := by
  rw [varint, putVarint, uvarint_put (zigzag_lt lower upper), Option.map_some]
  simp only [unzigzag_zigzag]

end Bytes
