import PocketKafka.Lib.Split

namespace UrlPath

open Bytes Text

def unhex (c : UInt8) : Option Nat :=
  if 48 ≤ c ∧ c ≤ 57 then some (c.toNat - 48)
  else if 97 ≤ c ∧ c ≤ 102 then some (c.toNat - 87)
  else if 65 ≤ c ∧ c ≤ 70 then some (c.toNat - 55)
  else none

def unescape : Bytes → Option Bytes
  | [] => some []
  | c :: rest =>
    if c = 37 then
      match rest with
      | a :: b :: rest =>
        match unhex a, unhex b with
        | some x, some y => (unescape rest).map (UInt8.ofNat (16 * x + y) :: ·)
        | _, _ => none
      | _ => none
    else (unescape rest).map (c :: ·)

theorem unescape_plain {c : UInt8} (plain : c ≠ 37) (rest : Bytes) :
    unescape (c :: rest) = (unescape rest).map (c :: ·) := by
  rw [unescape.eq_def]
  simp only [plain, if_false]

theorem unescape_percent (a b : UInt8) (rest : Bytes) :
    unescape (37 :: a :: b :: rest) =
      (unhex a).bind fun x => (unhex b).bind fun y => (unescape rest).map (UInt8.ofNat (16 * x + y) :: ·) := by
  rw [unescape.eq_def]
  dsimp only
  rw [if_pos rfl]
  cases unhex a with
  | none => rfl
  | some x => cases unhex b <;> rfl

theorem unescape_slash (front back : Bytes) :
    unescape (front ++ 47 :: back) = (unescape front).bind fun f => (unescape back).map fun b => f ++ 47 :: b := by
  match front with
  | [] => exact unescape_plain (by decide) back
  | c :: rest =>
    by_cases percent : c = 37
    · subst percent
      match rest with
      | [] =>
        cases back with
        | nil => rfl
        | cons b back => exact unescape_percent 47 b back
      | [a] =>
        rw [List.cons_append, List.singleton_append, unescape_percent]
        cases unhex a <;> rfl
      | a :: b :: rest =>
        rw [List.cons_append, List.cons_append, List.cons_append, unescape_percent, unescape_percent,
          unescape_slash rest back]
        cases unhex a <;> cases unhex b <;> cases unescape rest <;> cases unescape back <;> rfl
    · rw [List.cons_append, unescape_plain percent, unescape_plain percent, unescape_slash rest back]
      cases unescape rest <;> cases unescape back <;> rfl

theorem intercalate_cons_cons (a b : Bytes) (parts : List Bytes) :
    [(47 : UInt8)].intercalate (a :: b :: parts) = a ++ 47 :: [47].intercalate (b :: parts) := by
  rw [List.intercalate_cons_cons]
  simp

def unescapeAll : List Bytes → Option (List Bytes)
  | [] => some []
  | a :: rest => (unescape a).bind fun f => (unescapeAll rest).map (f :: ·)

theorem unescape_intercalate {parts : List Bytes} (filled : parts ≠ []) :
    unescape ([47].intercalate parts) = (unescapeAll parts).map ([47].intercalate ·) := by
  induction parts with
  | nil => exact absurd rfl filled
  | cons a rest ih =>
    cases rest with
    | nil =>
      rw [List.intercalate_singleton, unescapeAll, unescapeAll]
      cases unescape a with
      | none => rfl
      | some f => exact congrArg some List.intercalate_singleton.symm
    | cons b rest =>
      rw [intercalate_cons_cons, unescape_slash, ih (List.cons_ne_nil b rest)]
      simp only [unescapeAll]
      cases unescape a <;> cases unescape b <;> cases unescapeAll rest <;> simp

theorem split_intercalate {segs : List Bytes} (filled : segs ≠ []) :
    split 47 ([47].intercalate segs) = segs.flatMap (split 47) := by
  induction segs with
  | nil => exact absurd rfl filled
  | cons a rest ih =>
    cases rest with
    | nil => rw [List.intercalate_singleton, List.flatMap_singleton]
    | cons b rest =>
      rw [intercalate_cons_cons, split_append_sep, ih (List.cons_ne_nil b rest)]
      rfl

def trim (c : UInt8) (s : Bytes) : Bytes := (s.dropWhile (· = c)).rdropWhile (· = c)

theorem split_concat {c x : UInt8} (other : x ≠ c) (s : Bytes) :
    ∃ front last, split c (s ++ [x]) = front ++ [last ++ [x]] := by
  induction s with
  | nil => exact ⟨[], [], split_of_not_mem (by simpa using Ne.symm other)⟩
  | cons y s ih =>
    obtain ⟨front, last, parts⟩ := ih
    by_cases same : y = c
    · subst same
      exact ⟨[] :: front, last, by rw [List.cons_append, split_cons_sep, parts, List.cons_append]⟩
    · rw [List.cons_append, split_cons same, parts]
      cases front with
      | nil => exact ⟨[], y :: last, rfl⟩
      | cons first front => exact ⟨(y :: first) :: front, last, rfl⟩

theorem split_rdropWhile {c : UInt8} {s : Bytes} (other : ∃ x ∈ s, x ≠ c) :
    split c (s.rdropWhile (· = c)) = (split c s).rdropWhile (· = []) := by
  induction s using List.reverseRecOn with
  | nil =>
    obtain ⟨x, member, _⟩ := other
    cases member
  | append_singleton s x ih =>
    by_cases same : x = c
    · subst same
      have inner : ∃ y ∈ s, y ≠ x := by
        obtain ⟨y, member, different⟩ := other
        rcases List.mem_append.mp member with inside | last
        · exact ⟨y, inside, different⟩
        · exact absurd (List.mem_singleton.mp last) different
      rw [List.rdropWhile_concat_pos _ _ _ (by simp), ih inner, split_append_sep, split_nil,
        List.rdropWhile_concat_pos _ _ _ (by simp)]
    · obtain ⟨front, last, parts⟩ := split_concat same s
      rw [List.rdropWhile_concat_neg _ _ _ (by simpa using same), parts, List.rdropWhile_concat_neg _ _ _ (by simp)]

theorem rdropWhile_append_word (front : List Bytes) {word : Bytes} (filled : word ≠ []) (parts : List Bytes) :
    (front ++ word :: parts).rdropWhile (· = []) = front ++ word :: parts.rdropWhile (· = []) := by
  induction parts using List.reverseRecOn with
  | nil => rw [List.rdropWhile_concat_neg _ _ _ (by simpa using filled), List.rdropWhile_nil]
  | append_singleton parts last ih =>
    rw [← List.cons_append, ← List.append_assoc]
    by_cases empty : last = []
    · rw [List.rdropWhile_concat_pos _ _ _ (by simpa using empty),
        List.rdropWhile_concat_pos _ _ _ (by simpa using empty), ih]
    · rw [List.rdropWhile_concat_neg _ _ _ (by simpa using empty), List.rdropWhile_concat_neg _ _ _ (by simpa using empty),
        List.append_assoc, List.cons_append]

theorem rdropWhile_split_slashes {c : UInt8} {s : Bytes} (only : ∀ x ∈ s, x = c) : (split c s).rdropWhile (· = []) = [] := by
  rw [List.rdropWhile_eq_nil_iff]
  intro part member
  cases part with
  | nil => rfl
  | cons x part =>
    obtain ⟨inside, other⟩ := mem_of_mem_split member List.mem_cons_self
    exact absurd (only x inside) other

theorem trim_ne_nil {x : UInt8} (other : x ≠ 47) (s : Bytes) : trim 47 (47 :: x :: s) ≠ [] := by
  rw [trim, List.dropWhile_cons_of_pos (by simp), List.dropWhile_cons_of_neg (by simpa using other), Ne,
    List.rdropWhile_eq_nil_iff]
  intro only
  exact other (by simpa using only x List.mem_cons_self)

theorem split_trim {x : UInt8} {s : Bytes} (other : x ≠ 47) :
    split 47 (trim 47 (47 :: x :: s)) = (split 47 (x :: s)).rdropWhile (· = []) := by
  rw [trim, List.dropWhile_cons_of_pos (by simp), List.dropWhile_cons_of_neg (by simpa using other)]
  exact split_rdropWhile ⟨x, List.mem_cons_self, other⟩

theorem split_trim_segments {x : UInt8} {word : Bytes} (other : x ≠ 47) (segs : List Bytes) :
    split 47 (trim 47 (47 :: [47].intercalate ((x :: word) :: segs))) =
      (((x :: word) :: segs).flatMap (split 47)).rdropWhile (· = []) := by
  rw [← split_intercalate (List.cons_ne_nil _ _)]
  cases segs with
  | nil =>
    rw [List.intercalate_singleton]
    exact split_trim other
  | cons b segs =>
    rw [intercalate_cons_cons, List.cons_append]
    exact split_trim other

inductive Part where
  | literal (word : Bytes)
  | wild (name : Bytes)
  deriving DecidableEq

/-- The values of the names, if the decoded segments match. A single slash, as a decoded segment, counts as the end of a
    path and matches no name. -/
def matchParts : List Part → List Bytes → Option (List (Bytes × Bytes))
  | [], [] => some []
  | .literal word :: parts, seg :: segs => if seg = word then matchParts parts segs else none
  | .wild name :: parts, seg :: segs =>
    if seg ≠ [] ∧ seg ≠ [47] then (matchParts parts segs).map ((name, seg) :: ·) else none
  | _, _ => none

def fill : List Part → List (Bytes × Bytes) → List Bytes
  | .literal word :: parts, values => word :: fill parts values
  | .wild _ :: parts, (_, value) :: values => value :: fill parts values
  | _, _ => []

def names : List Part → List Bytes
  | [] => []
  | .literal _ :: parts => names parts
  | .wild name :: parts => name :: names parts

theorem matchParts_fill {pattern : List Part} {segs : List Bytes} {values : List (Bytes × Bytes)}
    (hit : matchParts pattern segs = some values) : segs = fill pattern values ∧ values.map Prod.fst = names pattern := by
  induction pattern generalizing segs values with
  | nil =>
    cases segs with
    | nil =>
      cases hit
      exact ⟨rfl, rfl⟩
    | cons _ _ => cases hit
  | cons part parts ih =>
    cases part with
    | literal word =>
      cases segs with
      | nil => cases hit
      | cons seg rest =>
        rw [matchParts] at hit
        split at hit
        · rename_i same
          obtain ⟨filled, named⟩ := ih hit
          exact ⟨by rw [same, filled, fill, ← filled], named⟩
        · cases hit
    | wild name =>
      cases segs with
      | nil => cases hit
      | cons seg rest =>
        rw [matchParts] at hit
        split at hit
        · obtain ⟨more, found, rfl⟩ := Option.map_eq_some_iff.mp hit
          obtain ⟨filled, named⟩ := ih found
          exact ⟨by rw [fill, ← filled], by rw [names, ← named, List.map_cons]⟩
        · cases hit

def plainSegment (seg : Bytes) : Bool := seg ≠ [] && seg ≠ ascii "." && seg ≠ ascii ".."

/-- Paths that are not redirected: no empty and no dot segments, but for a slash at the end. -/
def isClean (escaped : Bytes) : Bool :=
  let parts := split 47 escaped.tail
  escaped.head? = some 47 && parts.dropLast.all plainSegment && parts.getLast?.all fun seg => seg = [] || plainSegment seg

def pathValues (pattern : List Part) (escaped : Bytes) : Option (List (Bytes × Bytes)) :=
  if isClean escaped then (unescapeAll (split 47 escaped.tail)).bind (matchParts pattern) else none

theorem path_of_pathValues {pattern : List Part} {escaped path : Bytes} {values : List (Bytes × Bytes)}
    (decoded : unescape escaped = some path) (found : pathValues pattern escaped = some values) :
    path = 47 :: [47].intercalate (fill pattern values) ∧ values.map Prod.fst = names pattern := by
  unfold pathValues at found
  split at found
  · rename_i clean
    obtain ⟨segs, each, hit⟩ := Option.bind_eq_some_iff.mp found
    simp only [isClean, Bool.and_eq_true, decide_eq_true_eq] at clean
    obtain ⟨rest, rfl⟩ : ∃ rest, escaped = 47 :: rest := by
      cases escaped with
      | nil => cases clean.1.1
      | cons c rest => exact ⟨rest, congrArg (· :: rest) (Option.some.inj clean.1.1)⟩
    rw [List.tail_cons] at each
    rw [unescape_plain (by decide), ← intercalate_split 47 rest, unescape_intercalate (split_ne_nil 47 rest), each]
      at decoded
    obtain ⟨filled, named⟩ := matchParts_fill hit
    exact ⟨filled ▸ (Option.some.inj decoded).symm, named⟩
  · cases found

end UrlPath
