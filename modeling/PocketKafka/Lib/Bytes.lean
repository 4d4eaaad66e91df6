import Mathlib

abbrev Bytes := List UInt8

namespace Bytes

instance lawfulBEq : LawfulBEq Bytes := inferInstance

def ascii (text : String) : Bytes := text.toList.map fun c => UInt8.ofNat c.toNat

theorem ascii_ofList (chars : List Char) : ascii (String.ofList chars) = chars.map fun c => UInt8.ofNat c.toNat := by
  rw [ascii, String.toList_ofList]

def text (b : Bytes) : String := String.ofList (b.map fun c => Char.ofNat c.toNat)

def slice (b : Bytes) (i j : Nat) : Bytes := (b.drop i).take (j - i)

def beUint (b : Bytes) : Nat := b.foldl (fun acc x => acc * 256 + x.toNat) 0

def putBE : Nat → Nat → Bytes
  | 0, _ => []
  | width + 1, n => UInt8.ofNat (n / 256 ^ width) :: putBE width n

theorem beUint_foldl (b : Bytes) (start : Nat) :
    b.foldl (fun acc x => acc * 256 + x.toNat) start = start * 256 ^ b.length + beUint b := by
  induction b generalizing start with
  | nil => simp [beUint]
  | cons head tail ih =>
    simp only [List.foldl_cons, List.length_cons, beUint]
    rw [ih, ih (0 * 256 + head.toNat)]
    ring

theorem beUint_cons (head : UInt8) (tail : Bytes) :
    beUint (head :: tail) = head.toNat * 256 ^ tail.length + beUint tail := by
  change tail.foldl _ (0 * 256 + head.toNat) = _
  rw [beUint_foldl]
  simp

@[simp] theorem putBE_length (width n : Nat) : (putBE width n).length = width := by
  induction width with
  | zero => rfl
  | succ width ih => simp [putBE, ih]

theorem beUint_putBE (width n : Nat) : beUint (putBE width n) = n % 256 ^ width := by
  induction width with
  | zero => simp [putBE, beUint, Nat.mod_one]
  | succ width ih =>
    have split : n % 256 ^ (width + 1) = n % 256 ^ width + 256 ^ width * (n / 256 ^ width % 256) := by
      rw [pow_succ, Nat.mod_mul]
    rw [putBE, beUint_cons, putBE_length, ih, UInt8.toNat_ofNat', split]
    ring

@[simp] theorem slice_length (b : Bytes) (i j : Nat) : (slice b i j).length = min (j - i) (b.length - i) := by
  simp [slice]

theorem slice_take (b : Bytes) (i j n : Nat) (inside : j ≤ n) : slice (b.take n) i j = slice b i j := by
  simp only [slice, List.drop_take, List.take_take]
  congr 1
  omega

theorem slice_append_left (b rest : Bytes) (i j : Nat) (inside : j ≤ b.length) :
    slice (b ++ rest) i j = slice b i j := by
  by_cases order : i ≤ b.length
  · simp only [slice, List.drop_append_of_le_length order]
    exact List.take_append_of_le_length (by simp; omega)
  · have empty : j - i = 0 := by omega
    simp [slice, empty]

theorem slice_append_right (front b : Bytes) (i j : Nat) :
    slice (front ++ b) (front.length + i) (front.length + j) = slice b i j := by
  have width : front.length + j - (front.length + i) = j - i := by omega
  rw [slice, slice, width, ← List.drop_drop, List.drop_left]

theorem slice_middle (front b rest : Bytes) {whole : Bytes} {i j : Nat} (parts : whole = front ++ (b ++ rest))
    (start : front.length = i) (stop : i + b.length = j) : slice whole i j = b := by
  subst parts start stop
  have inside := slice_append_right front (b ++ rest) 0 b.length
  rw [Nat.add_zero] at inside
  rw [inside, slice, List.drop_zero, Nat.sub_zero, List.take_left]

theorem slice_flatten (parts : List Bytes) (k : Nat) (inside : k < parts.length) {i j : Nat}
    (start : (parts.take k).flatten.length = i) (stop : i + parts[k].length = j) :
    slice parts.flatten i j = parts[k] := by
  apply slice_middle (parts.take k).flatten parts[k] (parts.drop (k + 1)).flatten _ start stop
  rw [← List.flatten_cons, ← List.flatten_append, ← List.drop_eq_getElem_cons inside, List.take_append_drop]

theorem drop_flatten (parts : List Bytes) (k : Nat) {i : Nat} (start : (parts.take k).flatten.length = i) :
    parts.flatten.drop i = (parts.drop k).flatten := by
  rw [← start]
  nth_rewrite 2 [← List.take_append_drop k parts]
  rw [List.flatten_append, List.drop_left]

/-- Two's complement truncation, as a conversion to a narrower signed type performs it. -/
@[irreducible] def int8 (x : Int) : Int := (128 + x) % 256 - 128

@[irreducible] def int16 (x : Int) : Int := (32768 + x) % 65536 - 32768

@[irreducible] def int32 (x : Int) : Int := (2147483648 + x) % 4294967296 - 2147483648

@[irreducible] def int64 (x : Int) : Int := (9223372036854775808 + x) % 18446744073709551616 - 9223372036854775808

@[irreducible] def uint32 (x : Int) : Nat := (x % 4294967296).toNat

theorem int32_of_bounds {x : Int} (lower : -2147483648 ≤ x) (upper : x < 2147483648) : int32 x = x := by
  unfold int32
  omega

theorem int32_bounds (x : Int) : -2147483648 ≤ int32 x ∧ int32 x < 2147483648 := by
  unfold int32
  omega

theorem int16_bounds (x : Int) : -32768 ≤ int16 x ∧ int16 x < 32768 := by
  unfold int16
  omega

theorem int64_of_bounds {x : Int} (lower : -9223372036854775808 ≤ x) (upper : x < 9223372036854775808) :
    int64 x = x := by
  unfold int64
  omega

theorem int64_bounds (x : Int) : -9223372036854775808 ≤ int64 x ∧ int64 x < 9223372036854775808 := by
  unfold int64
  omega

theorem uint32_of_bounds {x : Int} (lower : 0 ≤ x) (upper : x < 4294967296) : (uint32 x : Int) = x := by
  unfold uint32
  omega

theorem uint32_lt (x : Int) : uint32 x < 4294967296 := by
  unfold uint32
  omega

def putInt (width : Nat) (x : Int) : Bytes := putBE width (x % 256 ^ width).toNat

@[simp] theorem putInt_length (width : Nat) (x : Int) : (putInt width x).length = width := putBE_length width _

theorem int32_beUint_putInt {x : Int} (lower : -2147483648 ≤ x) (upper : x < 2147483648) :
    int32 (beUint (putInt 4 x)) = x := by
  rw [putInt, beUint_putBE]
  unfold int32
  omega

theorem int64_beUint_putInt {x : Int} (lower : -9223372036854775808 ≤ x) (upper : x < 9223372036854775808) :
    int64 (beUint (putInt 8 x)) = x := by
  rw [putInt, beUint_putBE]
  unfold int64
  omega

theorem int16_beUint_putInt {x : Int} (lower : -32768 ≤ x) (upper : x < 32768) : int16 (beUint (putInt 2 x)) = x := by
  rw [putInt, beUint_putBE]
  unfold int16
  omega

/-- `ReadAt` of a full buffer of `n` bytes: nothing when the file ends before. -/
def readAt (file : Bytes) (pos n : Nat) : Option Bytes :=
  if pos + n ≤ file.length then some (slice file pos (pos + n)) else none

/-- `WriteAt`: a hole before `pos` reads as zeros. -/
def writeAt (file : Bytes) (pos : Nat) (data : Bytes) : Bytes :=
  file.take pos ++ List.replicate (pos - file.length) 0 ++ data ++ file.drop (pos + data.length)

/-- `Truncate`: a file that is shorter gets zeros up to its new end. -/
def truncate (file : Bytes) (n : Nat) : Bytes := file.take n ++ List.replicate (n - file.length) 0

@[simp] theorem truncate_length (file : Bytes) (n : Nat) : (truncate file n).length = n := by
  simp [truncate]
  omega

theorem truncate_append_left (front back : Bytes) : truncate (front ++ back) front.length = front := by
  simp [truncate]

theorem readAt_middle (front b rest : Bytes) (i n : Nat) (inside : i + n ≤ b.length) :
    readAt (front ++ (b ++ rest)) (front.length + i) n = some (slice b i (i + n)) := by
  unfold readAt
  rw [if_pos (by simp; omega), Nat.add_assoc, slice_append_right, slice_append_left _ _ _ _ inside]

theorem readAt_middle_zero (front b rest : Bytes) (n : Nat) (inside : n ≤ b.length) :
    readAt (front ++ (b ++ rest)) front.length n = some (b.take n) := by
  have found := readAt_middle front b rest 0 n (by omega)
  simpa [slice] using found

@[simp] theorem writeAt_end (file data : Bytes) : writeAt file file.length data = file ++ data := by
  simp [writeAt]

end Bytes
