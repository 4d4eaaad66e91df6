import PocketKafka.Protocol.Compression

namespace PocketKafka.Protocol

open BackReference Bytes

def parse (hash : Nat → Nat) (limit : Nat) (src : Bytes) (table : Table) (litStart i : Nat) :
    List (Sequence UInt8) × Bytes :=
  if i + minMatch ≤ src.length then
    let pos := hash (word src i)
    match usable src (table pos) i with
    | some cand =>
      let matchLen := matchLength src limit cand i 4
      let (seqs, rest) := parse hash limit src (table.set pos (int32 i)) (i + matchLen) (i + matchLen)
      (⟨slice src litStart i, i - cand, matchLen⟩ :: seqs, rest)
    | none => parse hash limit src (table.set pos (int32 i)) litStart (i + 1)
  else ([], src.drop litStart)
termination_by src.length - i
decreasing_by
  · have := le_matchLength src limit cand i 4
    unfold minMatch at *
    omega
  · unfold minMatch at *
    omega

theorem usable_some {src : Bytes} {cand : Int} {i c : Nat} (h : usable src cand i = some c) :
    cand = c ∧ c + 4 ≤ i ∧ i - c ≤ 65535 ∧ slice src c (c + 4) = slice src i (i + 4) := by
  unfold usable at h
  split at h
  · rename_i conditions
    cases h
    obtain ⟨lower, before, near, same⟩ := conditions
    exact ⟨by omega, by omega, by omega, same⟩
  · cases h

theorem slice_getD {b : Bytes} {i j k : Nat} (inside : k < j - i) :
    (slice b i j).getD k default = b.getD (i + k) default := by
  rw [slice, getD_take inside, List.getD_eq_getElem?_getD, List.getD_eq_getElem?_getD, List.getElem?_drop]

/-- What else is known of a sequence: how far back its copy goes, and that the four bytes that were looked up before it
    are not those of the copy. -/
structure Accepted (src : Bytes) (p i : Nat) (seq : Sequence UInt8) : Prop where
  long : 4 ≤ seq.length
  apart : 4 ≤ seq.offset
  near : seq.offset ≤ 65535
  early : i < 2147549183
  fresh : p < i → slice src (i - 1) (i + 3) ≠ slice src i (i + 4)

/-- The table holds positions as 32-bit numbers, and the last one is that of the literal before `i`. -/
structure Indexed (hash : Nat → Nat) (src : Bytes) (table : Table) (litStart i : Nat) : Prop where
  order : litStart ≤ i
  inside : i ≤ src.length
  narrow : ∀ pos, table pos < 2147483648
  latest : litStart < i → table (hash (word src (i - 1))) = int32 ((i - 1 : Nat) : Int)

theorem indexed_empty (hash : Nat → Nat) (src : Bytes) : Indexed hash src Table.empty 0 0 :=
  ⟨le_rfl, Nat.zero_le _, fun _ => by unfold Table.empty; omega, fun h => absurd h (lt_irrefl 0)⟩

section
variable {hash : Nat → Nat} {limit : Nat} {src : Bytes} {table : Table} {litStart i : Nat}

theorem Indexed.set_narrow (h : Indexed hash src table litStart i) (at' pos : Nat) :
    table.set at' (int32 i) pos < 2147483648 := by
  by_cases same : pos = at'
  · subst same
    exact (Function.update_self pos _ table).trans_lt (int32_bounds i).2
  · exact (Function.update_of_ne same _ table).trans_lt (h.narrow pos)

theorem Indexed.literal (h : Indexed hash src table litStart i) (room : i + 4 ≤ src.length) :
    Indexed hash src (table.set (hash (word src i)) (int32 i)) litStart (i + 1) :=
  ⟨by have := h.order; omega, by omega, h.set_narrow _, fun _ => Function.update_self _ _ _⟩

theorem Indexed.copied (h : Indexed hash src table litStart i) (at' : Nat) {length : Nat} (room : i + length ≤ src.length) :
    Indexed hash src (table.set at' (int32 i)) (i + length) (i + length) :=
  ⟨le_rfl, room, h.set_narrow _, fun later => absurd later (lt_irrefl _)⟩

theorem repeats_of_slice {cand : Nat} (before : cand ≤ i) (same : slice src cand (cand + 4) = slice src i (i + 4)) :
    Repeats src (i - cand) i 4 := by
  intro k small
  rw [← slice_getD (b := src) (i := i) (j := i + 4) (by omega), ← same, slice_getD (by omega)]
  congr 1
  omega

theorem Indexed.accepted (h : Indexed hash src table litStart i) {cand : Nat}
    (found : usable src (table (hash (word src i))) i = some cand) {length : Nat} (long : 4 ≤ length) :
    Accepted src litStart i ⟨slice src litStart i, i - cand, length⟩ := by
  obtain ⟨here, before, near, _⟩ := usable_some found
  have narrow := h.narrow (hash (word src i))
  refine ⟨long, by dsimp only; omega, near, by omega, fun later same => ?_⟩
  -- The same four bytes one place before would be the candidate, and it is too near.
  have latest := h.latest later
  have words : word src (i - 1) = word src i := by
    unfold word
    rw [← same, show i - 1 + 4 = i + 3 by omega]
  rw [words, here] at latest
  unfold int32 at latest
  omega

theorem parse_found {cand : Nat} (room : i + minMatch ≤ src.length)
    (found : usable src (table (hash (word src i))) i = some cand) :
    let matchLen := matchLength src limit cand i 4
    let rest := parse hash limit src (table.set (hash (word src i)) (int32 i)) (i + matchLen) (i + matchLen)
    parse hash limit src table litStart i = (⟨slice src litStart i, i - cand, matchLen⟩ :: rest.1, rest.2) := by
  rw [parse, if_pos room]
  simp only [found]

theorem parse_missed (room : i + minMatch ≤ src.length) (missed : usable src (table (hash (word src i))) i = none) :
    parse hash limit src table litStart i =
      parse hash limit src (table.set (hash (word src i)) (int32 i)) litStart (i + 1) := by
  rw [parse, if_pos room]
  simp only [missed]

theorem parse_parses (h : Indexed hash src table litStart i) (wide : 4 ≤ limit) :
    Parses limit (Accepted src) src litStart (parse hash limit src table litStart i).1
      (parse hash limit src table litStart i).2 := by
  induction table, litStart, i using parse.induct hash limit src with
  | case1 table litStart i room pos cand found matchLen seqs rest cut ih =>
    obtain ⟨_, before, _, same⟩ := usable_some found
    have matched : Match limit src i (i - cand) matchLen :=
      matchLength_match (by omega) room wide (repeats_of_slice (by omega) same)
    have long : 4 ≤ matchLen := le_matchLength src limit cand i 4
    rw [parse_found room found]
    apply Parses.next litStart i _ h.order _ matched (h.accepted found long) (ih (h.copied pos matched.inside))
    rw [slice, ← List.drop_take]
    nth_rewrite 1 [← List.take_append_drop litStart (src.take i)]
    rw [List.take_take, min_eq_left h.order]
  | case2 table litStart i room pos missed ih =>
    rw [parse_missed room missed]
    exact ih (h.literal room)
  | case3 table litStart i stop =>
    rw [parse, if_neg stop]
    exact Parses.last litStart (h.order.trans h.inside)

theorem parse_loop {loop : Table → Nat → Nat → Bytes → Bytes} {write : Sequence UInt8 → Bytes} {finish : Bytes → Bytes}
    (found : ∀ table litStart i cand out, i + minMatch ≤ src.length → usable src (table (hash (word src i))) i = some cand →
      let matchLen := matchLength src limit cand i 4
      loop table litStart i out = loop (table.set (hash (word src i)) (int32 i)) (i + matchLen) (i + matchLen)
        (out ++ write ⟨slice src litStart i, i - cand, matchLen⟩))
    (missed : ∀ table litStart i out, i + minMatch ≤ src.length → usable src (table (hash (word src i))) i = none →
      loop table litStart i out = loop (table.set (hash (word src i)) (int32 i)) litStart (i + 1) out)
    (stopped : ∀ table litStart i out, ¬ i + minMatch ≤ src.length →
      loop table litStart i out = out ++ finish (src.drop litStart)) (table : Table) (litStart i : Nat) (out : Bytes) :
    loop table litStart i out =
      out ++ (parse hash limit src table litStart i).1.flatMap write ++
        finish (parse hash limit src table litStart i).2 := by
  induction table, litStart, i using parse.induct hash limit src generalizing out with
  | case1 table litStart i room pos cand here matchLen seqs rest cut ih =>
    rw [parse_found room here, found table litStart i cand out room here]
    dsimp only
    rw [ih, List.flatMap_cons, List.append_assoc out]
  | case2 table litStart i room pos nothing ih =>
    rw [parse_missed room nothing, missed table litStart i out room nothing]
    exact ih out
  | case3 table litStart i stop =>
    rw [parse, if_neg stop, stopped table litStart i out stop, List.flatMap_nil, List.append_nil]

end

end PocketKafka.Protocol
