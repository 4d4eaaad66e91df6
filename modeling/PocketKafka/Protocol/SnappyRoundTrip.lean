import PocketKafka.Protocol.MatchFinder

namespace PocketKafka.Protocol

open BackReference Bytes

def snappyLiterals (literals : Bytes) : Bytes := if literals = [] then [] else appendSnappyLiteral [] literals

def snappySequence (seq : Sequence UInt8) : Bytes := snappyLiterals seq.literals ++ snappyCopyTag seq.offset seq.length

def snappyParse (src : Bytes) : List (Sequence UInt8) × Bytes := parse snappyHash 64 src Table.empty 0 0

theorem emitLiteral_eq {src : Bytes} {litStart stop : Nat} (out : Bytes) (inside : stop ≤ src.length) :
    emitLiteral src litStart stop out = out ++ snappyLiterals (slice src litStart stop) := by
  have size := slice_length src litStart stop
  unfold emitLiteral snappyLiterals
  by_cases some : litStart < stop
  · have nonempty : slice src litStart stop ≠ [] := by
      intro empty
      rw [empty, List.length_nil] at size
      omega
    rw [if_pos some, if_neg nonempty]
    simp [appendSnappyLiteral]
  · have empty : slice src litStart stop = [] := List.eq_nil_of_length_eq_zero (by omega)
    rw [if_neg some, if_pos empty, List.append_nil]

theorem snappyBlockLoop_eq (src : Bytes) (table : Table) (litStart i : Nat) (out : Bytes) :
    snappyBlockLoop src table litStart i out =
      out ++ (parse snappyHash 64 src table litStart i).1.flatMap snappySequence ++
        snappyLiterals (parse snappyHash 64 src table litStart i).2 := by
  apply parse_loop
  · intro table litStart i cand out room found
    rw [snappyBlockLoop, if_pos room]
    simp only [found]
    rw [emitLiteral_eq out (by omega), List.append_assoc, snappySequence]
  · intro table litStart i out room missed
    rw [snappyBlockLoop, if_pos room]
    simp only [missed]
  · intro table litStart i out stop
    rw [snappyBlockLoop, if_neg stop, emitLiteral_eq out le_rfl, slice, List.take_of_length_le (by simp)]

theorem snappyBlockEncode_eq (src : Bytes) :
    snappyBlockEncode src = (snappyParse src).1.flatMap snappySequence ++ snappyLiterals (snappyParse src).2 :=
  snappyBlockLoop_eq src Table.empty 0 0 []

theorem snappyParse_parses (src : Bytes) : Parses 64 (Accepted src) src 0 (snappyParse src).1 (snappyParse src).2 :=
  parse_parses (indexed_empty snappyHash src) (by omega)

theorem snappyBlockDecode_literal (dst : Bytes) (tag : UInt8) (lens body : Bytes) {n : Nat} (kind : tag.toNat % 4 = 0)
    (width : lens.length = tag.toNat / 4 - 59)
    (size : (if 60 ≤ tag.toNat / 4 then leUint lens else tag.toNat / 4) + 1 = n) (room : n ≤ body.length) :
    snappyBlockDecode dst (tag :: (lens ++ body)) = snappyBlockDecode (dst ++ body.take n) (body.drop n) := by
  have element : snappyElement dst tag.toNat (lens ++ body) = .ok (dst ++ body.take n, lens.length + n) := by
    unfold snappyElement snappyLiteralElement
    rw [if_pos kind, ← width]
    simp only [List.take_left, List.drop_left, size]
    rw [if_neg (by simp), if_neg (by omega)]
  rw [snappyBlockDecode, element]
  simp only [← List.drop_drop, List.drop_left]

theorem byteOf_toNat (x : Int) : (byteOf x).toNat = (x % 256).toNat := by
  have small : (x % 256).toNat < 256 := by omega
  rw [byteOf, UInt8.toNat_ofNat', Nat.mod_eq_of_lt small]

theorem snappyBlockDecode_literals (dst literals tail : Bytes) (short : literals.length < 65536) :
    snappyBlockDecode dst (snappyLiterals literals ++ tail) = snappyBlockDecode (dst ++ literals) tail := by
  unfold snappyLiterals
  split
  · rename_i empty
    rw [empty, List.nil_append, List.append_nil]
  · rename_i nonempty
    have positive : 0 < literals.length := List.length_pos_iff.mpr nonempty
    have body (tag : UInt8) (lens : Bytes) (kind : tag.toNat % 4 = 0) (width : lens.length = tag.toNat / 4 - 59)
        (size : (if 60 ≤ tag.toNat / 4 then leUint lens else tag.toNat / 4) + 1 = literals.length) :
        snappyBlockDecode dst ([] ++ tag :: lens ++ literals ++ tail) = snappyBlockDecode (dst ++ literals) tail := by
      have read := snappyBlockDecode_literal dst tag lens (literals ++ tail) kind width size (by simp)
      rw [List.take_left, List.drop_left] at read
      rw [← read]
      simp
    unfold appendSnappyLiteral
    dsimp only
    split_ifs with tiny small
    · have tag := byteOf_toNat (((literals.length : Int) - 1) * 4)
      refine body _ [] (by omega) ?_ ?_
      · rw [List.length_nil]
        omega
      · rw [if_neg (by omega)]
        omega
    · have low := byteOf_toNat ((literals.length : Int) - 1)
      apply body 240 [_] rfl rfl
      rw [if_pos (by decide), leUint, List.reverse_singleton, beUint_cons]
      simp [beUint]
      omega
    · have low := byteOf_toNat ((literals.length : Int) - 1)
      have high := byteOf_toNat (((literals.length : Int) - 1) / 256)
      apply body 244 [_, _] rfl rfl
      rw [if_pos (by decide), leUint]
      simp [beUint]
      omega
    · omega

/-- The copies whose length the decoder takes for longer: they are short, and their offset reaches into the tag. -/
def Misread (offset length : Nat) : Prop := 257 ≤ offset ∧ offset ≤ 512 ∧ length < 12

instance (offset length : Nat) : Decidable (Misread offset length) := inferInstanceAs (Decidable (_ ∧ _))

theorem snappyBlockDecode_copyElement (dst : Bytes) (tag : UInt8) (lens tail : Bytes) (high : Nat) {offset length : Nat}
    (kind : snappyElement dst tag.toNat (lens ++ tail) = snappyCopyElement dst (lens ++ tail) lens.length high length)
    (distance : leUint lens + high + 1 = offset) (back : offset ≤ dst.length) :
    snappyBlockDecode dst (tag :: lens ++ tail) = snappyBlockDecode (repeatBack offset length dst) tail := by
  have copy : snappyCopy dst offset length = .ok (repeatBack offset length dst) := if_neg (by omega)
  have element : snappyElement dst tag.toNat (lens ++ tail) = .ok (repeatBack offset length dst, lens.length) := by
    rw [kind, snappyCopyElement, if_neg (by simp), List.take_left, distance, copy]
  rw [List.cons_append, snappyBlockDecode, element]
  simp only [List.drop_left]

theorem snappyBlockDecode_copy (dst tail : Bytes) {offset length : Nat} (positive : 0 < offset) (back : offset ≤ dst.length)
    (near : offset ≤ 65535) (long : 4 ≤ length) (bounded : length ≤ 64) :
    snappyBlockDecode dst (snappyCopyTag offset length ++ tail) =
      snappyBlockDecode (repeatBack offset (length + if Misread offset length then 8 else 0) dst) tail := by
  unfold snappyCopyTag
  dsimp only
  split_ifs with form misread misread
  · have tag : (UInt8.ofNat ((length - 4) * 4 + 1 + (offset - 1) / 256 * 32)).toNat = (length - 4) * 4 + 33 := by
      unfold Misread at misread
      rw [UInt8.toNat_ofNat']
      omega
    apply snappyBlockDecode_copyElement dst _ [_] tail 256 _ _ back
    · rw [tag, snappyElement, if_neg (by omega), if_pos (by omega)]
      congr 1 <;> omega
    · unfold Misread at misread
      simp [leUint, beUint]
      omega
  · have tag : (UInt8.ofNat ((length - 4) * 4 + 1 + (offset - 1) / 256 * 32)).toNat = (length - 4) * 4 + 1 := by
      unfold Misread at misread
      rw [UInt8.toNat_ofNat']
      omega
    apply snappyBlockDecode_copyElement dst _ [_] tail 0 _ _ back
    · rw [tag, snappyElement, if_neg (by omega), if_pos (by omega)]
      congr 1 <;> omega
    · unfold Misread at misread
      simp [leUint, beUint]
      omega
  · unfold Misread at misread
    omega
  · have tag : (UInt8.ofNat ((length - 1) * 4 + 2)).toNat = (length - 1) * 4 + 2 := by
      rw [UInt8.toNat_ofNat']
      omega
    apply snappyBlockDecode_copyElement dst _ [_, _] tail 0 _ _ back
    · rw [tag, snappyElement, if_neg (by omega), if_neg (by omega), if_pos (by omega)]
      congr 1
      omega
    · simp [leUint, beUint]
      omega

theorem snappyCopy_ok {dst out : Bytes} {offset length : Nat} (done : snappyCopy dst offset length = .ok out) :
    out = repeatBack offset length dst := by
  unfold snappyCopy at done
  split at done
  · cases done
  · cases done
    rfl

theorem snappyCopyElement_ok {dst rest out : Bytes} {width high length used : Nat}
    (done : snappyCopyElement dst rest width high length = .ok (out, used)) :
    dst <+: out ∧ out.length = dst.length + length ∧ used = width ∧ width ≤ rest.length := by
  unfold snappyCopyElement at done
  split at done
  · cases done
  · split at done
    · cases done
    · rename_i room _ next copied
      cases done
      cases snappyCopy_ok copied
      exact ⟨prefix_repeatBack _ _ _, repeatBack_length _ _ _, rfl, by omega⟩

theorem snappyLiteralElement_ok {dst rest out : Bytes} {tag used : Nat}
    (done : snappyLiteralElement dst rest tag = .ok (out, used)) :
    dst <+: out ∧ out.length ≤ dst.length + used ∧ used ≤ rest.length := by
  unfold snappyLiteralElement at done
  dsimp only at done
  generalize (if 60 ≤ tag / 4 then leUint (rest.take (tag / 4 - 59)) else tag / 4) + 1 = length at done
  split_ifs at done with overrun short
  cases done
  rw [List.length_drop] at short
  refine ⟨List.prefix_append _ _, ?_, by omega⟩
  rw [List.length_append, List.length_take]
  omega

theorem snappyElement_ok {dst rest out : Bytes} {tag used : Nat} (narrow : tag < 256)
    (done : snappyElement dst tag rest = .ok (out, used)) :
    dst <+: out ∧ out.length ≤ dst.length + 34 * (used + 1) ∧ used ≤ rest.length := by
  unfold snappyElement at done
  split_ifs at done
  · obtain ⟨front, grown, inside⟩ := snappyLiteralElement_ok done
    exact ⟨front, by omega, inside⟩
  all_goals
    obtain ⟨front, grown, rfl, inside⟩ := snappyCopyElement_ok done
    exact ⟨front, by omega, inside⟩

theorem snappyBlockDecode_ok {dst src out : Bytes} (done : snappyBlockDecode dst src = .ok out) :
    dst <+: out ∧ out.length ≤ dst.length + 34 * src.length := by
  induction dst, src using snappyBlockDecode.induct with
  | case1 dst =>
    rw [snappyBlockDecode] at done
    cases done
    exact ⟨List.prefix_rfl, by omega⟩
  | case2 dst tag rest failure wrong =>
    rw [snappyBlockDecode, wrong] at done
    cases done
  | case3 dst tag rest next used element ih =>
    rw [snappyBlockDecode, element] at done
    obtain ⟨front, grown, inside⟩ := snappyElement_ok tag.toNat_lt element
    obtain ⟨front', grown'⟩ := ih done
    rw [List.length_drop] at grown'
    rw [List.length_cons]
    exact ⟨front.trans front', by omega⟩

theorem snappyBlockDecode_longLiterals (dst literals tail : Bytes) (long : 65536 ≤ literals.length)
    (fits : literals.length ≤ 16777216) :
    snappyBlockDecode dst (snappyLiterals literals ++ tail) =
      snappyBlockDecode (dst ++ 0 :: literals.take (literals.length - 1)) (literals.drop (literals.length - 1) ++ tail) := by
  have nonempty : literals ≠ [] := by
    rintro rfl
    exact absurd long (by decide)
  unfold snappyLiterals appendSnappyLiteral
  rw [if_neg nonempty]
  dsimp only
  rw [if_neg (by omega), if_neg (by omega), if_neg (by omega)]
  have low := byteOf_toNat ((literals.length : Int) - 1)
  have middle := byteOf_toNat (((literals.length : Int) - 1) / 256)
  have high := byteOf_toNat (((literals.length : Int) - 1) / 65536)
  have last : byteOf (((literals.length : Int) - 1) / 16777216) = 0 := by
    rw [byteOf, show ((literals.length : Int) - 1) / 16777216 % 256 = 0 by omega]
    rfl
  generalize byteOf ((literals.length : Int) - 1) = a at low ⊢
  generalize byteOf (((literals.length : Int) - 1) / 256) = b at middle ⊢
  generalize byteOf (((literals.length : Int) - 1) / 65536) = c at high ⊢
  have size : (if 60 ≤ (248 : UInt8).toNat / 4 then leUint [a, b, c] else (248 : UInt8).toNat / 4) + 1 =
    literals.length := by
    rw [if_pos (by decide)]
    simp [leUint, beUint]
    omega
  have read := snappyBlockDecode_literal dst 248 [a, b, c] (0 :: (literals ++ tail)) rfl rfl size (by simp; omega)
  obtain ⟨n, count⟩ : ∃ n, literals.length = n + 1 := ⟨literals.length - 1, by omega⟩
  rw [last]
  refine Eq.trans ?_ (read.trans ?_)
  · simp
  · rw [count, Nat.add_sub_cancel, List.take_succ_cons, List.drop_succ_cons, List.take_append_of_le_length (by omega),
      List.drop_append_of_le_length (by omega)]

theorem replicate_of_shift {c : UInt8} {l : Bytes} (shift : c :: l.take (l.length - 1) = l) : ∀ b ∈ l, b = c := by
  induction l with
  | nil => cases shift
  | cons a t ih =>
    obtain ⟨rfl, same⟩ := List.cons.inj shift
    rw [List.length_cons, Nat.add_sub_cancel] at same
    intro b member
    rcases List.mem_cons.mp member with rfl | later
    · rfl
    · cases t with
      | nil => cases later
      | cons d t => exact ih same b later

def snappyRuns (src : Bytes) : List Bytes := (snappyParse src).1.map Sequence.literals ++ [(snappyParse src).2]

/-- The source is not too short, and the encoder writes neither a long literal nor a copy that is misread. -/
structure Plain (src : Bytes) : Prop where
  enough : 5 ≤ src.length
  runs : ∀ run ∈ snappyRuns src, run.length < 65536
  copies : ∀ seq ∈ (snappyParse src).1, ¬ Misread seq.offset seq.length

section
variable {src rest : Bytes} {p i : Nat} {seq : Sequence UInt8} {seqs : List (Sequence UInt8)}

theorem slice_eq_of_getD {j w : Nat} (inside : i + w ≤ src.length) (inside' : j + w ≤ src.length)
    (same : ∀ k < w, src.getD (i + k) default = src.getD (j + k) default) : slice src i (i + w) = slice src j (j + w) := by
  apply List.ext_getElem
  · simp
    omega
  · intro k h h'
    have small : k < w := by
      rw [slice_length] at h
      omega
    have equal := same k small
    rw [← slice_getD (b := src) (i := i) (j := i + w) (by omega), ← slice_getD (b := src) (i := j) (j := j + w) (by omega),
      List.getD_eq_getElem _ _ h, List.getD_eq_getElem _ _ h'] at equal
    exact equal

theorem Accepted.not_constant (accepted : Accepted src p i seq) (found : Match 64 src i seq.offset seq.length)
    (long : p + 65536 ≤ i) {c : UInt8} (constant : ∀ k, p ≤ k → k < i → src.getD k default = c) : False := by
  have far := accepted.apart
  have near := accepted.near
  have enough := accepted.long
  have inside := found.inside
  have copied (k : Nat) (small : k < 4) : src.getD (i + k) default = c := by
    rw [found.repeats k (by omega)]
    exact constant _ (by omega) (by omega)
  have words : slice src (i - 1) (i - 1 + 4) = slice src i (i + 4) := by
    apply slice_eq_of_getD (by omega) (by omega)
    intro k small
    rw [copied k small]
    cases k with
    | zero => exact constant _ (by omega) (by omega)
    | succ k =>
      rw [show i - 1 + (k + 1) = i + k by omega]
      exact copied k (by omega)
  rw [show i - 1 + 4 = i + 3 by omega] at words
  exact accepted.fresh (by omega) words

theorem shifted_zeros {front literals : Bytes} (inside : front ++ literals <+: src)
    (shifted : front ++ 0 :: literals.take (literals.length - 1) <+: src) (nonempty : 0 < literals.length) :
    ∀ b ∈ literals, b = 0 := by
  apply replicate_of_shift
  have sizes : (front ++ 0 :: literals.take (literals.length - 1)).length = (front ++ literals).length := by
    simp
    omega
  have same := List.prefix_iff_eq_take.mp shifted
  rw [sizes, ← List.prefix_iff_eq_take.mp inside] at same
  exact List.append_cancel_left same

theorem snappy_decodes (parse : Parses 64 (Accepted src) src p seqs rest) (runs : ∀ seq ∈ seqs, seq.literals.length < 65536)
    (copies : ∀ seq ∈ seqs, ¬ Misread seq.offset seq.length) (last : rest.length < 65536) :
    snappyBlockDecode (src.take p) (seqs.flatMap snappySequence ++ snappyLiterals rest) = .ok src := by
  induction parse with
  | last p inside =>
    have read := snappyBlockDecode_literals (src.take p) (src.drop p) [] last
    rw [List.append_nil, List.take_append_drop, snappyBlockDecode] at read
    exact read
  | next p i seq order literals found accepted parse ih =>
    have inside := found.inside
    have size : (src.take i).length = i := List.length_take_of_le (by omega)
    have plain := copies seq (List.mem_cons_self ..)
    have short := runs seq (List.mem_cons_self ..)
    rw [List.flatMap_cons, snappySequence, List.append_assoc, List.append_assoc, snappyBlockDecode_literals _ _ _ short,
      ← literals, snappyBlockDecode_copy _ _ found.positive (found.back.trans size.ge) accepted.near accepted.long
        found.bounded,
      if_neg plain, Nat.add_zero, found.repeatBack]
    exact ih (fun seq member => runs seq (List.mem_cons_of_mem _ member)) (fun seq member =>
      copies seq (List.mem_cons_of_mem _ member)) last

theorem snappy_decodes_only (parse : Parses 64 (Accepted src) src p seqs rest)
    (fit : ∀ seq ∈ seqs, seq.literals.length ≤ 16777216)
    (fits : rest.length ≤ 16777216)
    (done : snappyBlockDecode (src.take p) (seqs.flatMap snappySequence ++ snappyLiterals rest) = .ok src) :
    (∀ seq ∈ seqs, seq.literals.length < 65536) ∧ (∀ seq ∈ seqs, ¬ Misread seq.offset seq.length) ∧ rest.length < 65536 := by
  induction parse with
  | last p inside =>
    refine ⟨nofun, nofun, ?_⟩
    by_contra long
    have read := snappyBlockDecode_longLiterals (src.take p) (src.drop p) [] (by omega) fits
    rw [List.append_nil, List.append_nil] at read
    rw [List.flatMap_nil, List.nil_append, read] at done
    have zeros : ∀ b ∈ src.drop p, b = 0 :=
      shifted_zeros (by rw [List.take_append_drop]) (snappyBlockDecode_ok done).1 (by omega)
    -- One zero is left over: a literal of one byte that is not there.
    obtain ⟨b, one⟩ : ∃ b, (src.drop p).drop ((src.drop p).length - 1) = [b] :=
      List.length_eq_one_iff.mp (by rw [List.length_drop]; omega)
    have zero : b = 0 := zeros b (List.mem_of_mem_drop (one ▸ List.mem_singleton_self b))
    rw [one, zero, snappyBlockDecode] at done
    cases done
  | next p i seq order literals found accepted parse ih =>
    have inside := found.inside
    have size : (src.take i).length = i := List.length_take_of_le (by omega)
    have length : seq.literals.length = i - p := by
      have := congrArg List.length literals
      rw [List.length_append, size, List.length_take_of_le (by omega)] at this
      omega
    rw [List.flatMap_cons, snappySequence, List.append_assoc, List.append_assoc] at done
    have short : seq.literals.length < 65536 := by
      by_contra long
      rw [snappyBlockDecode_longLiterals _ _ _ (by omega) (fit seq (List.mem_cons_self ..))] at done
      have zeros : ∀ b ∈ seq.literals, b = 0 :=
        shifted_zeros (literals ▸ List.take_prefix i src) (snappyBlockDecode_ok done).1 (by omega)
      apply accepted.not_constant found (by omega)
      intro k lower upper
      have front : (src.take p).length = p := List.length_take_of_le (by omega)
      apply zeros
      rw [← getD_take upper, literals, List.getD_append_right _ _ _ _ (by omega), front,
        List.getD_eq_getElem _ _ (by omega)]
      exact List.getElem_mem _
    rw [snappyBlockDecode_literals _ _ _ short, ← literals,
      snappyBlockDecode_copy _ _ found.positive (found.back.trans size.ge) accepted.near accepted.long found.bounded] at done
    have plain : ¬ Misread seq.offset seq.length := by
      intro misread
      rw [if_pos misread] at done
      exact found.overrun (by have := misread.2.2; omega) (by omega) (snappyBlockDecode_ok done).1
    rw [if_neg plain, Nat.add_zero, found.repeatBack] at done
    obtain ⟨runs, copies, last⟩ := ih (fun seq member => fit seq (List.mem_cons_of_mem _ member)) fits done
    exact ⟨List.forall_mem_cons.mpr ⟨short, runs⟩, List.forall_mem_cons.mpr ⟨plain, copies⟩, last⟩

theorem snappyLiterals_length (literals : Bytes) :
    (snappyLiterals literals).length ≤ literals.length + 5 ∧
      (literals.length < 65536 → (snappyLiterals literals).length ≤ literals.length + 3) ∧
      (literals.length < 60 → (snappyLiterals literals).length ≤ literals.length + 1) ∧
      (literals.length = 0 → (snappyLiterals literals).length = 0) := by
  unfold snappyLiterals
  split
  · rename_i empty
    simp [empty]
  · rename_i nonempty
    have positive := List.length_pos_iff.mpr nonempty
    unfold appendSnappyLiteral
    dsimp only
    split_ifs <;> simp only [List.length_append, List.length_cons, List.length_nil] <;> omega

theorem snappyCopyTag_length (offset length : Nat) : (snappyCopyTag offset length).length ≤ 3 := by
  unfold snappyCopyTag
  dsimp only
  split <;> simp

theorem snappySequence_length (short : seq.literals.length < 65536) (long : 4 ≤ seq.length) :
    64 * (snappySequence seq).length ≤ 66 * (seq.literals.length + seq.length) := by
  obtain ⟨_, wide, narrow, none⟩ := snappyLiterals_length seq.literals
  have tag := snappyCopyTag_length seq.offset seq.length
  rw [snappySequence, List.length_append]
  omega

theorem snappy_length (parse : Parses 64 (Accepted src) src p seqs rest) (runs : ∀ seq ∈ seqs, seq.literals.length < 65536)
    (last : rest.length < 65536) :
    64 * (seqs.flatMap snappySequence ++ snappyLiterals rest).length ≤ 66 * (src.length - p) + 192 := by
  induction parse with
  | last p inside =>
    have := (snappyLiterals_length (src.drop p)).2.1 last
    rw [List.length_drop] at this
    rw [List.flatMap_nil, List.nil_append]
    omega
  | next p i seq order literals found accepted parse ih =>
    have inside := found.inside
    have size : i = p + seq.literals.length := by
      have := congrArg List.length literals
      rw [List.length_append, List.length_take_of_le (by omega), List.length_take_of_le (by omega)] at this
      exact this
    have head := snappySequence_length (runs seq (List.mem_cons_self ..)) accepted.long
    have tail := ih (fun seq member => runs seq (List.mem_cons_of_mem _ member)) last
    rw [List.flatMap_cons, List.append_assoc, List.length_append]
    omega

theorem length_of_early (parse : Parses 64 (Accepted src) src p seqs rest) (early : p < 2147549247)
    (last : rest.length < 65536) :
    src.length < 2147614783 := by
  induction parse with
  | last p inside =>
    rw [List.length_drop] at last
    omega
  | next p i seq order literals found accepted parse ih =>
    have := accepted.early
    have := found.bounded
    exact ih (by omega) last

end

theorem snappyDecode_header {block : Bytes} (fits : block.length < 4294967296) :
    snappyDecode (putBE 4 block.length ++ block) = snappyBlockDecode [] block := by
  have size : (putBE 4 block.length ++ block).length = block.length + 4 := by
    rw [List.length_append, putBE_length]
    omega
  unfold snappyDecode
  dsimp only
  rw [size, if_neg (by omega), if_neg (by omega), List.take_left' (putBE_length ..), List.drop_left' (putBE_length ..),
    beUint_putBE, Nat.mod_eq_of_lt (show block.length < 256 ^ 4 by omega), if_neg (by omega)]

theorem snappyDecode_block {block out : Bytes} {n : Nat} (done : snappyDecode (putBE 4 n ++ block) = .ok out) :
    n % 4294967296 = block.length ∧ snappyBlockDecode [] block = .ok out := by
  have size : (putBE 4 n ++ block).length = block.length + 4 := by
    rw [List.length_append, putBE_length]
    omega
  unfold snappyDecode at done
  dsimp only at done
  rw [size, if_neg (by omega), if_neg (by omega), List.take_left' (putBE_length ..), List.drop_left' (putBE_length ..),
    beUint_putBE] at done
  split at done
  · cases done
  · rename_i same
    exact ⟨by omega, done⟩

theorem Plain.decodes {x : Bytes} (plain : Plain x) : snappyDecode (snappyEncode x) = .ok x := by
  have parse := snappyParse_parses x
  have runs : ∀ seq ∈ (snappyParse x).1, seq.literals.length < 65536 := fun seq member =>
    plain.runs _ (List.mem_append_left _ (List.mem_map_of_mem member))
  have last : (snappyParse x).2.length < 65536 := plain.runs _ (List.mem_append_right _ (List.mem_singleton_self _))
  have bound := length_of_early parse (by omega) last
  have size := snappy_length parse runs last
  rw [← snappyBlockEncode_eq] at size
  have enough := plain.enough
  have block := snappy_decodes parse runs plain.copies last
  rw [← snappyBlockEncode_eq, List.take_zero] at block
  rw [snappyEncode, if_neg (by omega), snappyDecode_header (by omega), block]

theorem plain_of_decodes {x : Bytes} (fit : ∀ run ∈ snappyRuns x, run.length ≤ 16777216)
    (done : snappyDecode (snappyEncode x) = .ok x) : Plain x := by
  unfold snappyEncode at done
  split at done
  · -- The length of a short source stands where the length of the block should.
    rename_i short
    unfold appendSnappyLiteral at done
    dsimp only at done
    rw [if_pos (by omega), List.append_assoc] at done
    have sizes := (snappyDecode_block done).1
    rw [List.length_append, List.length_singleton] at sizes
    omega
  · rename_i enough
    have block := (snappyDecode_block done).2
    rw [snappyBlockEncode_eq] at block
    obtain ⟨runs, copies, last⟩ := snappy_decodes_only (snappyParse_parses x)
      (fun seq member => fit _ (List.mem_append_left _ (List.mem_map_of_mem member)))
      (fit _ (List.mem_append_right _ (List.mem_singleton_self _))) block
    refine ⟨by omega, fun run member => ?_, copies⟩
    rcases List.mem_append.mp member with one | final
    · obtain ⟨seq, there, rfl⟩ := List.mem_map.mp one
      exact runs seq there
    · rw [List.mem_singleton.mp final]
      exact last

/-- A byte string comes back if it has five bytes or more and is written without long literals and without copies that
    are misread; and only then, as long as no literal has more than 2^24 bytes. -/
theorem snappy_round_trip_iff (x : Bytes) :
    (Plain x → snappyDecode (snappyEncode x) = .ok x) ∧
      ((∀ run ∈ snappyRuns x, run.length ≤ 16777216) → (snappyDecode (snappyEncode x) = .ok x ↔ Plain x)) :=
  ⟨Plain.decodes, fun fit => ⟨plain_of_decodes fit, Plain.decodes⟩⟩

theorem snappy_round_trip_copy :
    Plain (ascii "pocketpocketpocket") ∧ (∀ run ∈ snappyRuns (ascii "pocketpocketpocket"), run.length ≤ 16777216) ∧
      snappyDecode (snappyEncode (ascii "pocketpocketpocket")) = .ok (ascii "pocketpocketpocket") := by
  have parse : snappyParse (ascii "pocketpocketpocket") = ([⟨ascii "pocket", 6, 12⟩], []) := by decide +kernel
  have plain : Plain (ascii "pocketpocketpocket") := by
    refine ⟨by decide, ?_, ?_⟩
    · unfold snappyRuns
      rw [parse]
      decide
    · rw [parse]
      decide
  exact ⟨plain, fun run member => (plain.runs run member).le.trans (by omega), (snappy_round_trip_iff _).1 plain⟩

def spaced : Bytes := (List.range 257).map UInt8.ofNat ++ [0, 1, 2, 3]

theorem snappy_loses :
    snappyDecode (snappyEncode (ascii "k")) ≠ .ok (ascii "k") ∧ snappyDecode (snappyEncode spaced) ≠ .ok spaced := by
  decide +kernel

end PocketKafka.Protocol
