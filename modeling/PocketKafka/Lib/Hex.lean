import PocketKafka.Lib.UrlPath

namespace Hex

open Bytes UrlPath

def digit (n : Nat) : UInt8 := UInt8.ofNat (if n < 10 then 48 + n else 87 + n)

def encode : Bytes → Bytes
  | [] => []
  | b :: rest => digit (b.toNat / 16) :: digit (b.toNat % 16) :: encode rest

def decode : Bytes → Option Bytes
  | [] => some []
  | a :: b :: rest => do
    let high ← unhex a
    let low ← unhex b
    let more ← decode rest
    some (UInt8.ofNat (16 * high + low) :: more)
  | _ => none

theorem unhex_digit : ∀ n < 16, unhex (digit n) = some n := by decide

@[simp]
theorem decode_encode (b : Bytes) : decode (encode b) = some b := by
  induction b with
  | nil => rfl
  | cons c rest ih =>
    have bound : c.toNat < 256 := c.toNat_lt
    have whole : 16 * (c.toNat / 16) + c.toNat % 16 = c.toNat := Nat.div_add_mod ..
    simp only [encode, decode, unhex_digit (c.toNat / 16) (by omega), unhex_digit (c.toNat % 16) (by omega), ih, whole,
      Option.bind_eq_bind, Option.bind_some, UInt8.ofNat_toNat]

end Hex
