import PocketKafka.Lib.Bytes

namespace Bytes

def castagnoli : Nat := 0x82f63b78

def crcBits : Nat → Nat → Nat
  | 0, crc => crc
  | k + 1, crc => crcBits k (if crc % 2 = 1 then (crc / 2) ^^^ castagnoli else crc / 2)

def crcUpdate (crc : Nat) (b : UInt8) : Nat := (crc / 256) ^^^ crcBits 8 ((crc % 256) ^^^ b.toNat)

def crc32c (data : Bytes) : Nat := 0xffffffff ^^^ data.foldl crcUpdate 0xffffffff

theorem crcBits_lt {k crc : Nat} (small : crc < 2 ^ 32) : crcBits k crc < 2 ^ 32 := by
  induction k generalizing crc with
  | zero => exact small
  | succ k ih =>
    apply ih
    split
    · exact Nat.xor_lt_two_pow (by omega) (by decide)
    · omega

theorem crcUpdate_lt {crc : Nat} (b : UInt8) (small : crc < 2 ^ 32) : crcUpdate crc b < 2 ^ 32 := by
  have byte := b.toNat_lt
  apply Nat.xor_lt_two_pow (by omega)
  apply crcBits_lt
  exact Nat.xor_lt_two_pow (by omega) (by omega)

theorem crc32c_lt (data : Bytes) : crc32c data < 2 ^ 32 := by
  apply Nat.xor_lt_two_pow (by decide)
  suffices ∀ crc : Nat, crc < 2 ^ 32 → data.foldl crcUpdate crc < 2 ^ 32 from this _ (by decide)
  induction data with
  | nil => exact fun _ small => small
  | cons b data ih => exact fun crc small => ih _ (crcUpdate_lt b small)

example : crc32c [0x31, 0x32, 0x33, 0x34, 0x35, 0x36, 0x37, 0x38, 0x39] = 0xe3069283 := by decide +kernel

end Bytes
