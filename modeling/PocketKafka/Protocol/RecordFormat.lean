import PocketKafka.Protocol.RecordBatch

namespace PocketKafka.Protocol

open Bytes

/-- All lengths and the number of headers are zig-zag varints, and null has length -1. -/
def formatBody (rec : Record) : Bytes :=
  UInt8.ofNat (rec.attributes % 256).toNat :: (putVarint rec.timestampDelta ++ (putVarint rec.offsetDelta ++
    (nullable rec.key ++ (nullable rec.value ++ (putVarint rec.headers.length ++ rec.headers.flatMap encodeHeader)))))

def formatRecord (rec : Record) : Bytes := putVarint (formatBody rec).length ++ formatBody rec

theorem putUvarint_inj {m n : Nat} (fits : m < 18446744073709551616) (fits' : n < 18446744073709551616)
    (same : putUvarint m = putUvarint n) : m = n := by
  have read := uvarint_put fits []
  rw [same, uvarint_put fits' []] at read
  exact ((Prod.mk.inj (Option.some.inj read)).1).symm

theorem putVarint_natCast (n : Nat) : putVarint n = putUvarint (2 * n) := by
  have double : zigzag n = 2 * n := by
    unfold zigzag
    rw [if_pos (Int.natCast_nonneg n)]
    omega
  rw [putVarint, double]

theorem delimited_inj {a b : Bytes} (fits : a.length < 9223372036854775808) (fits' : b.length < 9223372036854775808)
    (same : putVarint a.length ++ a = putVarint b.length ++ b) : a = b := by
  have first := varint_put (v := a.length) (by omega) (by omega) a
  have second := varint_put (v := b.length) (by omega) (by omega) b
  rw [same, second] at first
  have size := (Prod.mk.inj (Option.some.inj first)).1
  rw [size] at same
  exact List.append_cancel_left same

theorem readBody_before_headers {r : Reader} {rec : Record} {tail : Bytes} (start : r.buf.length < 9223372036854775808)
    (fits : rec.Fits)
    (stands : r.rest = UInt8.ofNat (rec.attributes % 256).toNat ::
      (putVarint rec.timestampDelta ++ (putVarint rec.offsetDelta ++
      (nullable rec.key ++ (nullable rec.value ++ tail))))) :
    ∃ behind : Reader, behind.buf = r.buf ∧ behind.rest = tail ∧ readBody r = (do
      let (hc, next) ← behind.readUVarint
      let headers ← readHeaders hc next
      return { rec with headers := headers }) := by
  have attributes := Reader.readInt8_eq stands
  rw [int8_ofNat fits.attributes.1 fits.attributes.2] at attributes
  have behind : (r.skip 1).rest = _ := Reader.rest_skip (stands.trans (List.singleton_append).symm)
  have timestampDelta := Reader.readVarint_eq fits.timestampDelta.1 fits.timestampDelta.2 behind
  replace behind := Reader.rest_skip behind
  have offsetDelta := Reader.readVarint_eq (by have := fits.offsetDelta; omega) (by have := fits.offsetDelta; omega) behind
  replace behind := Reader.rest_skip behind
  have key := Reader.readBytesVarint_eq (by simpa using start) behind
  replace behind := Reader.rest_skip behind
  have value := Reader.readBytesVarint_eq (by simpa using start) behind
  replace behind := Reader.rest_skip behind
  refine ⟨_, ?_, behind, ?_⟩
  · simp only [Reader.buf_skip]
  · have same := int32_of_bounds fits.offsetDelta.1 fits.offsetDelta.2
    simp only [readBody, attributes, timestampDelta, offsetDelta, key, value, same, bind, Except.bind]

theorem readHeaders_more {r : Reader} {hs : List RecordHeader} {count : Nat} (fits : r.buf.length < 9223372036854775808)
    (stands : r.rest = hs.flatMap encodeHeader) (more : hs.length < count) :
      ∃ failure, readHeaders count r = .error failure := by
  induction hs generalizing r count with
  | nil =>
    obtain ⟨count, rfl⟩ := Nat.exists_eq_succ_of_ne_zero (by omega : count ≠ 0)
    have none : r.readVarint = .error (.error "invalid varint") := by
      rw [Reader.rest] at stands
      rw [Reader.readVarint, stands]
      rfl
    refine ⟨.error "invalid varint", ?_⟩
    simp only [readHeaders, Reader.readVarintString, Reader.readBytesVarint, none]
  | cons h hs ih =>
    obtain ⟨count, rfl⟩ := Nat.exists_eq_succ_of_ne_zero (by omega : count ≠ 0)
    have first : r.rest = putVarint h.key.length ++ (h.key ++ (nullable h.value ++ hs.flatMap encodeHeader)) := by
      simpa [encodeHeader] using stands
    have key := Reader.readBytesVarint_some fits first
    have behind : (r.skip ((putVarint h.key.length).length + h.key.length)).rest =
        nullable h.value ++ hs.flatMap encodeHeader := by
      rw [← List.length_append]
      apply Reader.rest_skip
      simpa using first
    have value := Reader.readBytesVarint_eq (by simpa using fits) behind
    obtain ⟨failure, fails⟩ := ih (by simpa using fits) (Reader.rest_skip behind) (by simpa using more)
    exact ⟨failure, by simp only [readHeaders, Reader.readVarintString, key, Option.getD_some, value, fails]⟩

theorem readBody_format_iff {r : Reader} {rec : Record} (start : r.buf.length < 9223372036854775808) (fits : rec.Fits)
    (stands : r.rest = formatBody rec) : readBody r = .ok rec ↔ rec.headers = [] := by
  obtain ⟨behind, buf, tail, reads⟩ := readBody_before_headers start fits stands
  have count : 2 * rec.headers.length < 18446744073709551616 := by
    have size := congrArg List.length tail
    have least := length_le_flatMap_encodeHeader rec.headers
    rw [Reader.rest, List.length_drop, List.length_append, buf] at size
    omega
  rw [putVarint_natCast] at tail
  have hc := Reader.readUVarint_eq count tail
  replace tail := Reader.rest_skip tail
  have short : (behind.skip (putUvarint (2 * rec.headers.length)).length).buf.length < 9223372036854775808 := by
    rwa [Reader.buf_skip, buf]
  simp only [reads, hc, bind, Except.bind, pure, Except.pure]
  constructor
  · intro read
    by_contra some
    have twice : rec.headers.length < 2 * rec.headers.length := by
      have := List.length_pos_of_ne_nil some
      omega
    obtain ⟨failure, fails⟩ := readHeaders_more short tail twice
    simp only [fails] at read
    cases read
  · intro none
    simp only [none, List.length_nil, Nat.mul_zero, readHeaders]
    rw [← none]

theorem decodeRecord_format_iff {rec : Record} (fits : rec.Fits) {more : Bytes}
    (start : (formatRecord rec ++ more).length < 9223372036854775808) :
    decodeRecord (formatRecord rec ++ more) = .ok (rec, (formatRecord rec).length) ↔ rec.headers = [] := by
  simp only [formatRecord, List.append_assoc, List.length_append] at start ⊢
  have length := varint_put (v := (formatBody rec).length) (by omega) (by omega) (formatBody rec ++ more)
  have same := int64_of_bounds (x := ((putVarint (formatBody rec).length).length : Int) + (formatBody rec).length)
    (by omega) (by omega)
  have body : slice (putVarint (formatBody rec).length ++ (formatBody rec ++ more))
    (putVarint (formatBody rec).length).length
      ((putVarint (formatBody rec).length).length + (formatBody rec).length) = formatBody rec := by
    rw [slice, List.drop_left, Nat.add_sub_cancel_left, List.take_left]
  have read := readBody_format_iff (r := ⟨formatBody rec, 0⟩) (by simp only; omega) fits (by simp [Reader.rest])
  rw [← read]
  simp only [decodeRecord, length, same, Int.toNat_natCast, body, List.length_append]
  rw [if_neg (by push_cast; omega), if_neg (by omega)]
  cases readBody ⟨formatBody rec, 0⟩ with
  | error failure => simp
  | ok own => simp

theorem encodeBody_format_iff {rec : Record} (fits : (encodeBody rec).length < 9223372036854775808) :
    encodeBody rec = formatBody rec ↔ rec.key ≠ none ∧ rec.headers = [] := by
  have count : 2 * rec.headers.length < 18446744073709551616 := by
    have least := length_le_flatMap_encodeHeader rec.headers
    simp only [encodeBody, List.length_cons, List.length_append] at fits
    omega
  simp only [encodeBody, formatBody, List.cons.injEq, true_and, List.append_cancel_left_eq]
  cases key : rec.key with
  | none =>
    -- a null key starts with the byte 0 in the one and with 1 in the other
    have zero : putVarint ((([] : Bytes).length : Nat) : Int) = [0] := by decide +kernel
    have one : nullable none = [1] := by decide +kernel
    simp only [Option.getD_none, zero, one, ne_eq, not_true_eq_false, false_and, iff_false]
    intro clash
    cases clash
  | some k =>
    simp only [Option.getD_some, nullable, List.append_assoc, List.append_cancel_left_eq, ne_eq, reduceCtorEq,
      not_false_eq_true,
      true_and]
    rw [List.append_cancel_right_eq, putVarint_natCast]
    constructor
    · intro same
      have twice := putUvarint_inj (by omega) count same
      exact List.length_eq_zero_iff.mp (by omega)
    · intro none
      rw [none]
      rfl

theorem encodeRecord_format_iff {rec : Record} (dst : Bytes) (fits : (encodeBody rec).length < 9223372036854775808)
    (fits' : (formatBody rec).length < 9223372036854775808) :
    encodeRecord dst rec = dst ++ formatRecord rec ↔ rec.key ≠ none ∧ rec.headers = [] := by
  rw [← encodeBody_format_iff fits, encodeRecord, appendVarint, formatRecord]
  simp only [List.append_assoc, List.append_cancel_left_eq]
  constructor
  · exact delimited_inj fits fits'
  · intro same
    rw [same]

/-- The decoder takes what the format prescribes exactly when there are no headers; the encoder writes it exactly
    when there are none and the key is not null. -/
theorem record_format_iff {rec : Record} (fits : rec.Fits) (dst more : Bytes)
    (encoded : (encodeRecord [] rec).length < 9223372036854775808)
    (start : (formatRecord rec ++ more).length < 9223372036854775808) :
    (decodeRecord (formatRecord rec ++ more) = .ok (rec, (formatRecord rec).length) ↔ rec.headers = []) ∧
      (encodeRecord dst rec = dst ++ formatRecord rec ↔ rec.key ≠ none ∧ rec.headers = []) := by
  refine ⟨decodeRecord_format_iff fits start, encodeRecord_format_iff dst ?_ ?_⟩
  · rw [encodeRecord, List.length_append] at encoded
    omega
  · rw [formatRecord, List.length_append, List.length_append] at start
    omega

def headed : Record := ⟨0, 0, 0, some [7], some [1], [⟨[2], none⟩]⟩

theorem record_format_iff_plain :
    decodeRecord (formatRecord { headed with headers := [] }) = .ok ({ headed with headers := [] }, 9) ∧
      encodeRecord [] { headed with headers := [] } = formatRecord { headed with headers := [] } := by
  have fits : Record.Fits { headed with headers := [] } := ⟨by decide, by decide, by decide⟩
  have both := record_format_iff fits [] [] (by decide +kernel) (by decide +kernel)
  have size : (formatRecord { headed with headers := [] }).length = 9 := by decide +kernel
  rw [List.append_nil, size] at both
  exact ⟨both.1.mpr rfl, both.2.mpr ⟨Option.some_ne_none _, rfl⟩⟩

/-- One header is announced by the byte 2, which the decoder takes for two headers. -/
theorem header_count_misread :
    formatRecord headed = [22, 0, 0, 0, 2, 7, 2, 1, 2, 2, 2, 1] ∧
      decodeRecord (formatRecord headed) = .error (.error "invalid varint") ∧
      encodeRecord [] headed ≠ formatRecord headed ∧
      encodeRecord [] { headed with key := none, headers := [] } ≠
        formatRecord { headed with key := none, headers := [] } := by
  decide +kernel

end PocketKafka.Protocol
