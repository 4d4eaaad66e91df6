import PocketKafka.Lib.Text

namespace Text

open Bytes

def split (c : UInt8) (s : Bytes) : List Bytes := s.splitOn c

def trimPrefix (s front : Bytes) : Bytes := if front.isPrefixOf s then s.drop front.length else s

def trimSuffix (s back : Bytes) : Bytes := if back.isSuffixOf s then s.take (s.length - back.length) else s

variable {c x : UInt8} {s : Bytes}

@[simp] theorem split_nil (c : UInt8) : split c [] = [[]] := List.splitOn_nil c

theorem split_ne_nil (c : UInt8) (s : Bytes) : split c s ≠ [] := by
  rw [split, List.splitOn_eq_splitOnP]
  exact List.splitOnP_ne_nil _ _

theorem split_append_sep (c : UInt8) (front back : Bytes) :
    split c (front ++ c :: back) = split c front ++ split c back := by
  simp only [split, List.splitOn_eq_splitOnP]
  exact List.splitOnP_append_cons front back (by simp)

theorem split_cons_sep (c : UInt8) (s : Bytes) : split c (c :: s) = [] :: split c s := split_append_sep c [] s

theorem split_cons (other : x ≠ c) (s : Bytes) : split c (x :: s) = (split c s).modifyHead (List.cons x) := by
  simp only [split, List.splitOn_eq_splitOnP]
  rw [List.splitOnP_cons_eq_if_modifyHead, if_neg (by simpa using other)]

theorem split_of_not_mem (absent : c ∉ s) : split c s = [s] := by
  induction s with
  | nil => exact split_nil c
  | cons x s ih =>
    simp only [List.mem_cons, not_or] at absent
    rw [split_cons (Ne.symm absent.1), ih absent.2]
    rfl

theorem intercalate_split (c : UInt8) (s : Bytes) : [c].intercalate (split c s) = s := List.intercalate_splitOn c

theorem mem_of_mem_split {part : Bytes} (member : part ∈ split c s) (inside : x ∈ part) : x ∈ s ∧ x ≠ c := by
  induction s generalizing part with
  | nil =>
    rw [split_nil, List.mem_singleton] at member
    simp [member] at inside
  | cons y s ih =>
    by_cases same : y = c
    · rw [same, split_cons_sep] at member
      rcases List.mem_cons.mp member with rfl | later
      · cases inside
      · exact (ih later inside).imp_left (List.mem_cons_of_mem _)
    · rw [split_cons same] at member
      obtain ⟨first, rest, parts⟩ := List.exists_cons_of_ne_nil (split_ne_nil c s)
      rw [parts] at member ih
      rcases List.mem_cons.mp member with rfl | later
      · rcases List.mem_cons.mp inside with rfl | deeper
        · exact ⟨List.mem_cons_self, same⟩
        · exact (ih List.mem_cons_self deeper).imp_left (List.mem_cons_of_mem _)
      · exact (ih (List.mem_cons_of_mem _ later) inside).imp_left (List.mem_cons_of_mem _)

theorem not_mem_of_mem_split {part : Bytes} (member : part ∈ split c s) : c ∉ part :=
  fun inside => (mem_of_mem_split member inside).2 rfl

theorem split_injective (c : UInt8) : Function.Injective (split c) := by
  intro s t same
  rw [← intercalate_split c s, same, intercalate_split]

def dropLevel (back : Bytes) (parts : List Bytes) : List Bytes :=
  if 2 ≤ parts.length ∧ parts.getLast? = some back then parts.dropLast else parts

def dropEnd (back : Bytes) (parts : List Bytes) : List Bytes :=
  if parts.getLast? = some back then parts.dropLast else parts

theorem dropLevel_cons (back part : Bytes) (parts : List Bytes) :
    dropLevel back (part :: parts) = part :: dropEnd back parts := by
  cases parts with
  | nil => simp [dropLevel, dropEnd]
  | cons next rest =>
    rw [dropLevel, dropEnd, List.getLast?_cons_cons]
    split
    · rename_i ends
      rw [if_pos ends.2, List.dropLast_cons_cons]
    · rename_i ends
      rw [if_neg fun last => ends ⟨by simp, last⟩]

theorem dropEnd_cons {back part : Bytes} (other : part ≠ back) (parts : List Bytes) :
    dropEnd back (part :: parts) = part :: dropEnd back parts := by
  cases parts with
  | nil => simp [dropEnd, other]
  | cons next rest =>
    rw [dropEnd, dropEnd, List.getLast?_cons_cons]
    split <;> simp

theorem dropEnd_cons_cons (back part next : Bytes) (parts : List Bytes) :
    dropEnd back (part :: next :: parts) = part :: dropEnd back (next :: parts) := by
  rw [dropEnd, dropEnd, List.getLast?_cons_cons]
  split <;> simp

theorem split_trimSuffix {back : Bytes} (absent : c ∉ back) (s : Bytes) :
    split c (trimSuffix s (c :: back)) = dropLevel back (split c s) := by
  by_cases ends : (c :: back) <:+ s
  · obtain ⟨front, rfl⟩ := ends
    have trimmed : trimSuffix (front ++ c :: back) (c :: back) = front := by
      rw [trimSuffix, if_pos (List.isSuffixOf_iff_suffix.mpr (List.suffix_append _ _))]
      simp
    have some : 1 ≤ (split c front).length := List.length_pos_iff.mpr (split_ne_nil c front)
    rw [trimmed, split_append_sep, split_of_not_mem absent, dropLevel,
      if_pos ⟨by rw [List.length_append, List.length_singleton]; omega, by simp⟩, List.dropLast_concat]
  · rw [trimSuffix, if_neg (mt List.isSuffixOf_iff_suffix.mp ends), dropLevel, if_neg]
    rintro ⟨two, last⟩
    obtain ⟨front, parts⟩ := List.getLast?_eq_some_iff.mp last
    have whole : s = [c].intercalate front ++ c :: back := by
      apply split_injective c
      have clean : ∀ part ∈ front, c ∉ part :=
        fun part member => not_mem_of_mem_split (parts ▸ List.mem_append_left _ member)
      have nonempty : front ≠ [] := by
        rintro rfl
        rw [parts] at two
        simp at two
      rw [split_append_sep, split_of_not_mem absent, parts, split, List.splitOn_intercalate c clean nonempty]
    exact ends ⟨_, whole.symm⟩

def firstLevel (c : UInt8) (s : Bytes) : Bytes := (split c (trimPrefix s [c])).headD []

theorem splitN_two_head (c : UInt8) (s : Bytes) : (splitN c 2 s).headD [] = (split c s).headD [] := by
  have cut (s : Bytes) : (splitN c 2 s).headD [] = (index [c] s).elim s s.take := by
    rw [splitN]
    cases index [c] s <;> rfl
  rw [cut]
  induction s with
  | nil => rfl
  | cons x s ih =>
    by_cases same : x = c
    · rw [same, split_cons_sep]
      simp [index, startsWith]
    · have skip : index [c] (x :: s) = (index [c] s).map (· + 1) := by
        simp [index, startsWith, Ne.symm same]
      obtain ⟨first, rest, parts⟩ := List.exists_cons_of_ne_nil (split_ne_nil c s)
      rw [skip, split_cons same, parts]
      rw [parts] at ih
      cases found : index [c] s with
      | none =>
        rw [found] at ih
        exact congrArg (List.cons x) ih
      | some i =>
        rw [found] at ih
        exact congrArg (List.cons x) ih

theorem firstLevel_eq (c : UInt8) (s : Bytes) :
    firstLevel c s = match split c s with
      | [] :: second :: _ => second
      | first :: _ => first
      | [] => [] := by
  cases s with
  | nil => rfl
  | cons x s =>
    obtain ⟨first, rest, parts⟩ := List.exists_cons_of_ne_nil (split_ne_nil c s)
    by_cases same : x = c
    · have trimmed : trimPrefix (c :: s) [c] = s := by simp [trimPrefix]
      rw [same, firstLevel, trimmed, split_cons_sep, parts]
      rfl
    · have kept : trimPrefix (x :: s) [c] = x :: s := by simp [trimPrefix, Ne.symm same]
      rw [firstLevel, kept, split_cons same, parts]
      rfl

end Text
