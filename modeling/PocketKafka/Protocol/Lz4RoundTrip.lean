import PocketKafka.Protocol.MatchFinder

namespace PocketKafka.Protocol

open BackReference Bytes

def lz4Sequence (seq : Sequence UInt8) : Bytes :=
  lz4Literals (if 19 ≤ seq.length then 15 else seq.length - 4) seq.literals ++ lz4Match seq.offset seq.length

def lz4Parse (src : Bytes) : List (Sequence UInt8) × Bytes := parse lz4Hash 65550 src Table.empty 0 0

theorem lz4BlockLoop_eq (src : Bytes) (table : Table) (litStart i : Nat) (out : Bytes) :
    lz4BlockLoop src table litStart i out =
      out ++ (parse lz4Hash 65550 src table litStart i).1.flatMap lz4Sequence ++
        lz4Literals 0 (parse lz4Hash 65550 src table litStart i).2 := by
  apply parse_loop
  · intro table litStart i cand out room found
    rw [lz4BlockLoop, if_pos room]
    simp only [found]
    rw [List.append_assoc, lz4Sequence]
  · intro table litStart i out room missed
    rw [lz4BlockLoop, if_pos room]
    simp only [missed]
  · intro table litStart i out stop
    rw [lz4BlockLoop, if_neg stop]

theorem lz4BlockEncode_eq (src : Bytes) :
    lz4BlockEncode src = (lz4Parse src).1.flatMap lz4Sequence ++ lz4Literals 0 (lz4Parse src).2 :=
  lz4BlockLoop_eq src Table.empty 0 0 []

theorem lz4Parse_parses (src : Bytes) : Parses 65550 (Accepted src) src 0 (lz4Parse src).1 (lz4Parse src).2 :=
  parse_parses (indexed_empty lz4Hash src) (by omega)

theorem lz4ExtraLength_extraBytes (n : Nat) (tail : Bytes) :
    lz4ExtraLength (lz4ExtraBytes n ++ tail) = some (n, (lz4ExtraBytes n).length) := by
  induction n using lz4ExtraBytes.induct with
  | case1 n more ih =>
    rw [lz4ExtraBytes, if_pos more, List.cons_append, lz4ExtraLength, if_pos rfl, ih, List.length_cons, Option.map_some]
    simp only [Option.some.injEq, Prod.mk.injEq, and_true]
    omega
  | case2 n less =>
    have byte : (UInt8.ofNat n).toNat = n := by
      rw [UInt8.toNat_ofNat']
      omega
    have below : UInt8.ofNat n ≠ 255 := by
      intro full
      rw [full] at byte
      exact less byte.le
    rw [lz4ExtraBytes, if_neg less, List.singleton_append, lz4ExtraLength, if_neg below, byte, List.length_singleton]

theorem lz4ExtraBytes_length (n : Nat) : (lz4ExtraBytes n).length = n / 255 + 1 := by
  induction n using lz4ExtraBytes.induct with
  | case1 n more ih =>
    rw [lz4ExtraBytes, if_pos more, List.length_cons, ih]
    omega
  | case2 n less =>
    rw [lz4ExtraBytes, if_neg less, List.length_singleton]
    omega

theorem lz4Literals_form {low : Nat} (nibble : low < 16) (literals : Bytes) :
    ∃ (token : UInt8) (extra : Bytes), lz4Literals low literals = token :: (extra ++ literals) ∧ token.toNat % 16 = low ∧
      extra.length ≤ literals.length / 15 ∧
      ∀ tail, lz4Length (token.toNat / 16) (extra ++ tail) = some (literals.length, extra.length) := by
  unfold lz4Literals
  dsimp only
  split
  · rename_i long
    have token : (UInt8.ofNat (15 * 16 + low)).toNat = 240 + low := by
      rw [UInt8.toNat_ofNat']
      omega
    refine ⟨_, lz4ExtraBytes (literals.length - 15), rfl, by omega, ?_, fun tail => ?_⟩
    · rw [lz4ExtraBytes_length]
      omega
    · rw [lz4Length, if_pos (by omega), lz4ExtraLength_extraBytes, Option.map_some]
      simp only [Option.some.injEq, Prod.mk.injEq, and_true]
      omega
  · rename_i short
    have token : (UInt8.ofNat (literals.length * 16 + low)).toNat = literals.length * 16 + low := by
      rw [UInt8.toNat_ofNat']
      omega
    refine ⟨_, [], rfl, by omega, Nat.zero_le _, fun tail => ?_⟩
    rw [lz4Length, if_neg (by omega), List.length_nil, token]
    simp only [Option.some.injEq, Prod.mk.injEq, and_true]
    omega

theorem lz4Match_form (offset : Nat) {length : Nat} (long : 4 ≤ length) :
    ∃ extra, lz4Match offset length = [UInt8.ofNat offset, UInt8.ofNat (offset / 256)] ++ extra ∧
      extra.length ≤ length / 19 ∧
      ∀ tail, lz4Length (if 19 ≤ length then 15 else length - 4) (extra ++ tail) = some (length - 4, extra.length) := by
  unfold lz4Match
  split
  · rename_i more
    refine ⟨_, rfl, ?_, fun tail => ?_⟩
    · rw [lz4ExtraBytes_length]
      omega
    · rw [lz4Length, if_pos rfl, lz4ExtraLength_extraBytes, Option.map_some]
      simp only [Option.some.injEq, Prod.mk.injEq, and_true]
      omega
  · rename_i less
    refine ⟨[], rfl, Nat.zero_le _, fun tail => ?_⟩
    rw [lz4Length, if_neg (by omega), List.length_nil]

theorem lz4DecodeLoop_last (dst literals : Bytes) : lz4DecodeLoop dst (lz4Literals 0 literals) = .ok (dst ++ literals) := by
  obtain ⟨token, extra, form, _, _, size⟩ := lz4Literals_form (show 0 < 16 by omega) literals
  rw [form, lz4DecodeLoop]
  simp only [size, List.drop_left, ← List.drop_drop, List.take_length, List.drop_length, lt_irrefl, if_false,
    List.length_nil, if_true]

theorem lz4DecodeLoop_sequence (dst tail : Bytes) {seq : Sequence UInt8} (positive : 0 < seq.offset)
    (back : seq.offset ≤ (dst ++ seq.literals).length) (near : seq.offset ≤ 65535) (long : 4 ≤ seq.length) :
    lz4DecodeLoop dst (lz4Sequence seq ++ tail) =
      lz4DecodeLoop (repeatBack seq.offset seq.length (dst ++ seq.literals)) tail := by
  have nibble : (if 19 ≤ seq.length then 15 else seq.length - 4) < 16 := by
    split <;> omega
  obtain ⟨token, extra, form, low, _, size⟩ := lz4Literals_form nibble seq.literals
  obtain ⟨extra', form', _, size'⟩ := lz4Match_form seq.offset long
  have offset : leUint [UInt8.ofNat seq.offset, UInt8.ofNat (seq.offset / 256)] = seq.offset := by
    simp [leUint, beUint]
    omega
  have parts : lz4Sequence seq ++ tail = token :: (extra ++ (seq.literals ++
      ([UInt8.ofNat seq.offset, UInt8.ofNat (seq.offset / 256)] ++ (extra' ++ tail)))) := by
    rw [lz4Sequence, form, form']
    simp
  have two : [UInt8.ofNat seq.offset, UInt8.ofNat (seq.offset / 256)].length = 2 := rfl
  generalize [UInt8.ofNat seq.offset, UInt8.ofNat (seq.offset / 256)] = pair at offset parts two
  rw [parts, lz4DecodeLoop, size]
  simp only [List.drop_left, ← List.drop_drop, List.take_left]
  have after : (pair ++ (extra' ++ tail)).length = 2 + (extra' ++ tail).length := by rw [List.length_append, two]
  rw [if_neg (by simp), if_neg (by omega), if_neg (by omega), List.take_left' two, List.drop_left' two, low, size']
  simp only [offset]
  rw [if_neg (by omega), Nat.sub_add_cancel long, List.drop_left]

section
variable {src rest : Bytes} {p i : Nat} {seq : Sequence UInt8} {seqs : List (Sequence UInt8)}

theorem lz4_decodes (parse : Parses 65550 (Accepted src) src p seqs rest) :
    lz4DecodeLoop (src.take p) (seqs.flatMap lz4Sequence ++ lz4Literals 0 rest) = .ok src := by
  induction parse with
  | last p inside => rw [List.flatMap_nil, List.nil_append, lz4DecodeLoop_last, List.take_append_drop]
  | next p i seq order literals found accepted parse ih =>
    have inside := found.inside
    have size : (src.take i).length = i := List.length_take_of_le (by omega)
    have back : seq.offset ≤ (src.take p ++ seq.literals).length := by
      rw [← literals, size]
      exact found.back
    rw [List.flatMap_cons, List.append_assoc, lz4DecodeLoop_sequence _ _ found.positive back accepted.near accepted.long,
      ← literals, found.repeatBack]
    exact ih

theorem lz4Sequence_length (long : 4 ≤ seq.length) : (lz4Sequence seq).length ≤ 2 * (seq.literals.length + seq.length) := by
  have nibble : (if 19 ≤ seq.length then 15 else seq.length - 4) < 16 := by
    split <;> omega
  obtain ⟨token, extra, form, _, few, _⟩ := lz4Literals_form nibble seq.literals
  obtain ⟨extra', form', few', _⟩ := lz4Match_form seq.offset long
  rw [lz4Sequence, form, form']
  simp only [List.length_append, List.length_cons, List.length_nil]
  omega

theorem lz4_length (parse : Parses 65550 (Accepted src) src p seqs rest) :
    (seqs.flatMap lz4Sequence ++ lz4Literals 0 rest).length ≤ 2 * (src.length - p) + 1 := by
  induction parse with
  | last p inside =>
    obtain ⟨token, extra, form, _, few, _⟩ := lz4Literals_form (show 0 < 16 by omega) (src.drop p)
    rw [List.flatMap_nil, List.nil_append, form, List.length_cons, List.length_append]
    rw [List.length_drop] at few ⊢
    omega
  | next p i seq order literals found accepted parse ih =>
    have inside := found.inside
    have size : i = p + seq.literals.length := by
      have := congrArg List.length literals
      rw [List.length_append, List.length_take_of_le (by omega), List.length_take_of_le (by omega)] at this
      exact this
    have head := lz4Sequence_length accepted.long
    rw [List.flatMap_cons, List.append_assoc, List.length_append]
    omega

end

theorem lz4BlockDecompress_frame {block out : Bytes} (fits : block.length < 4294967296) (fits' : out.length < 4294967296)
    (done : lz4DecodeLoop [] block = .ok out) :
    lz4BlockDecompress (putBE 4 lz4FrameMagic ++ putBE 4 block.length ++ putBE 4 out.length ++ block) = .ok out := by
  generalize whole : putBE 4 lz4FrameMagic ++ putBE 4 block.length ++ putBE 4 out.length ++ block = frame
  have parts : frame = [putBE 4 lz4FrameMagic, putBE 4 block.length, putBE 4 out.length, block].flatten := by
    rw [← whole]
    simp
  have size : frame.length = block.length + 12 := by
    rw [← whole]
    simp
    omega
  have magic : slice frame 0 4 = putBE 4 lz4FrameMagic := parts ▸ slice_flatten _ 0 (by simp) rfl rfl
  have compressed : slice frame 4 8 = putBE 4 block.length := parts ▸ slice_flatten _ 1 (by simp) rfl rfl
  have plain : slice frame 8 12 = putBE 4 out.length := parts ▸ slice_flatten _ 2 (by simp) rfl rfl
  have body : frame.drop 12 = block := by
    rw [← whole]
    exact List.drop_left' (by simp)
  unfold lz4BlockDecompress lz4BlockDecode
  simp only [size, magic, compressed, plain, body, beUint_putBE, Nat.mod_eq_of_lt (show block.length < 256 ^ 4 by omega),
    Nat.mod_eq_of_lt (show out.length < 256 ^ 4 by omega)]
  rw [if_neg (by omega), if_neg (by omega), if_neg (by decide), if_neg (by omega), if_neg (by omega), done]
  simp only [lt_irrefl, if_false, ne_eq, not_true_eq_false]

theorem lz4BlockDecompress_compress {x : Bytes} (fits : x.length < 2147483648) :
    lz4BlockDecompress (lz4BlockCompress x) = .ok x := by
  unfold lz4BlockCompress
  split
  · rename_i empty
    rw [List.eq_nil_of_length_eq_zero empty]
    rfl
  · have parse := lz4Parse_parses x
    have size := lz4_length parse
    have block := lz4_decodes parse
    rw [← lz4BlockEncode_eq, List.take_zero] at block
    rw [← lz4BlockEncode_eq] at size
    exact lz4BlockDecompress_frame (by omega) (by omega) block

/-- LZ4 is inverted on every byte string whose length fits a signed 32-bit number. -/
theorem lz4_round_trip (x : Bytes) (fits : x.length < 2147483648) : lz4BlockDecompress (lz4BlockCompress x) = .ok x :=
  lz4BlockDecompress_compress fits

theorem lz4_round_trip_copy :
    (ascii "pocketpocketpocket").length < 2147483648 ∧
      lz4BlockDecompress (lz4BlockCompress (ascii "pocketpocketpocket")) = .ok (ascii "pocketpocketpocket") :=
  ⟨by decide, lz4_round_trip _ (by decide)⟩

end PocketKafka.Protocol
