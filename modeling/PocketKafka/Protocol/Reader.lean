import PocketKafka.Lib.Varint
import PocketKafka.Lib.Failure

namespace PocketKafka.Protocol

open Bytes

structure Reader where
  buf : Bytes
  off : Nat
  deriving DecidableEq, Repr

namespace Reader

def readInt8 (r : Reader) : Except Failure (Int × Reader) :=
  if r.buf.length < r.off + 1 then .error (.error "unexpected EOF")
  else .ok (int8 (r.buf.getD r.off 0).toNat, { r with off := r.off + 1 })

def readUVarint (r : Reader) : Except Failure (Nat × Reader) :=
  match uvarint (r.buf.drop r.off) with
  | none => .error (.error "invalid uvarint")
  | some (v, n) => .ok (v, { r with off := r.off + n })

def readVarint (r : Reader) : Except Failure (Int × Reader) :=
  match varint (r.buf.drop r.off) with
  | none => .error (.error "invalid varint")
  | some (v, n) => .ok (v, { r with off := r.off + n })

/-- A negative length stands for null. A length that overflows the bounds check fails at the allocation. -/
def readBytesVarint (r : Reader) : Except Failure (Option Bytes × Reader) :=
  match r.readVarint with
  | .error failure => .error failure
  | .ok (l, r) =>
    if l < 0 then .ok (none, r)
    else if (r.buf.length : Int) < int64 (r.off + l) then .error (.error "bytes varint overrun")
    else if int64 (r.off + l) < 0 then .error (.panic "makeslice: len out of range")
    else .ok (some (slice r.buf r.off (r.off + l.toNat)), { r with off := r.off + l.toNat })

def readVarintString (r : Reader) : Except Failure (Bytes × Reader) :=
  match r.readBytesVarint with
  | .error failure => .error failure
  | .ok (b, r) => .ok (b.getD [], r)

end Reader

def appendVarint (dst : Bytes) (v : Int) : Bytes := dst ++ putVarint v

def nullable (b : Option Bytes) : Bytes :=
  match b with
  | none => putVarint (-1)
  | some b => putVarint b.length ++ b

namespace Reader

def rest (r : Reader) : Bytes := r.buf.drop r.off

def skip (r : Reader) (n : Nat) : Reader := { r with off := r.off + n }

@[simp] theorem buf_skip (r : Reader) (n : Nat) : (r.skip n).buf = r.buf := rfl

theorem rest_skip {r : Reader} {front more : Bytes} (stands : r.rest = front ++ more) :
    (r.skip front.length).rest = more := by
  rw [rest, skip, ← List.drop_drop]
  change r.rest.drop front.length = more
  rw [stands, List.drop_left]

theorem off_lt {r : Reader} {b : UInt8} {more : Bytes} (stands : r.rest = b :: more) : r.off < r.buf.length := by
  by_contra past
  rw [rest, List.drop_eq_nil_of_le (by omega)] at stands
  cases stands

variable {r : Reader} {more : Bytes}

theorem readInt8_eq {b : UInt8} (stands : r.rest = b :: more) : r.readInt8 = .ok (int8 b.toNat, r.skip 1) := by
  have inside := off_lt stands
  have byte : r.buf.getD r.off 0 = b := by
    have head := congrArg List.head? stands
    rw [rest, List.head?_drop, List.head?_cons] at head
    rw [List.getD_eq_getElem?_getD, head, Option.getD_some]
  rw [readInt8, if_neg (by omega), byte]
  rfl

theorem readUVarint_eq {n : Nat} (fits : n < 18446744073709551616) (stands : r.rest = putUvarint n ++ more) :
    r.readUVarint = .ok (n, r.skip (putUvarint n).length) := by
  rw [rest] at stands
  simp only [readUVarint, stands, uvarint_put fits]
  rfl

theorem readVarint_eq {v : Int} (lower : -9223372036854775808 ≤ v) (upper : v < 9223372036854775808)
    (stands : r.rest = putVarint v ++ more) : r.readVarint = .ok (v, r.skip (putVarint v).length) := by
  rw [rest] at stands
  simp only [readVarint, stands, varint_put lower upper]
  rfl

theorem readBytesVarint_some {b : Bytes} (fits : r.buf.length < 9223372036854775808)
    (stands : r.rest = putVarint b.length ++ (b ++ more)) :
    r.readBytesVarint = .ok (some b, r.skip ((putVarint b.length).length + b.length)) := by
  have size := congrArg List.length stands
  rw [rest, List.length_drop, List.length_append, List.length_append] at size
  have positive : 0 < (putVarint (b.length : Int)).length := putUvarint_pos _
  have read := readVarint_eq (by omega) (by omega) stands
  have behind := rest_skip stands
  have same : int64 ((r.skip (putVarint b.length).length).off + (b.length : Int)) =
      r.off + (putVarint (b.length : Int)).length + b.length := by
    rw [int64_of_bounds (by omega) (by simp only [skip]; omega)]
    simp only [skip]
    push_cast
    rfl
  have found : slice r.buf (r.skip (putVarint b.length).length).off
      ((r.skip (putVarint b.length).length).off + b.length) = b := by
    rw [rest, buf_skip] at behind
    rw [slice, behind, Nat.add_sub_cancel_left, List.take_left]
  simp only [readBytesVarint, read, same, buf_skip, Int.toNat_natCast, found]
  rw [if_neg (by omega), if_neg (by omega), if_neg (by omega)]
  simp only [skip, Nat.add_assoc]

theorem readBytesVarint_eq {b : Option Bytes} (fits : r.buf.length < 9223372036854775808)
    (stands : r.rest = nullable b ++ more) : r.readBytesVarint = .ok (b, r.skip (nullable b).length) := by
  cases b with
  | none =>
    have read := readVarint_eq (by decide) (by decide) stands
    simp only [readBytesVarint, read]
    rfl
  | some b =>
    simp only [nullable, List.append_assoc] at stands
    rw [readBytesVarint_some fits stands, nullable, List.length_append]

end Reader

end PocketKafka.Protocol
