import PocketKafka.Protocol.Reader

namespace PocketKafka.Protocol

open Bytes

abbrev Decoder (α : Type) := StateT Reader (Except Failure) α

namespace Decoder

variable {α β : Type}

def readRaw (n : Nat) : Decoder Bytes := fun r =>
  if r.buf.length < r.off + n then .error (.error "unexpected EOF")
  else .ok (slice r.buf r.off (r.off + n), { r with off := r.off + n })

def readInt16 : Decoder Int := (fun b => int16 (beUint b)) <$> readRaw 2

def readInt32 : Decoder Int := (fun b => int32 (beUint b)) <$> readRaw 4

def readInt64 : Decoder Int := (fun b => int64 (beUint b)) <$> readRaw 8

def readNullableString : Decoder (Option Bytes) := do
  let l ← readInt16
  if l < 0 then pure none else some <$> readRaw l.toNat

def readString : Decoder Bytes := (fun s => s.getD []) <$> readNullableString

def readBytes : Decoder (Option Bytes) := do
  let l ← readInt32
  if l < 0 then pure none else some <$> readRaw l.toNat

def readArrayLen : Decoder Int := (fun l => if l < 0 then -1 else l) <$> readInt32

def repeated (element : Decoder α) : Nat → Decoder (List α)
  | 0 => pure []
  | n + 1 => do
    let x ← element
    (x :: ·) <$> repeated element n

def makeSlice (n : Int) (element : Decoder α) : Decoder (List α) :=
  if n < 0 then throw (.panic "makeslice: cap out of range") else repeated element n.toNat

def readArray (element : Decoder α) : Decoder (List α) := do
  let n ← readArrayLen
  makeSlice n element

def fieldIf (present : Bool) (field : Decoder α) (default : α) : Decoder α := if present then field else pure default

end Decoder

end PocketKafka.Protocol
