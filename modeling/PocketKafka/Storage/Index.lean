import PocketKafka.Lib.Bytes
import PocketKafka.Lib.Failure
import PocketKafka.Lib.Search

namespace PocketKafka.Storage

open Bytes

structure IndexEntry where
  relativeOffset : Nat
  position : Nat
  deriving DecidableEq, Repr

def indexEntrySize : Nat := 8

structure IndexFile where
  baseOffset : Int
  interval : Int
  file : Bytes
  entries : List IndexEntry
  writtenSize : Nat
  deriving DecidableEq, Repr

def loadEntries (buf : Bytes) (i : Nat) : List IndexEntry :=
  if i + indexEntrySize ≤ buf.length then
    ⟨beUint (slice buf i (i + 4)), beUint (slice buf (i + 4) (i + 8))⟩ :: loadEntries buf (i + indexEntrySize)
  else []
termination_by buf.length - i
decreasing_by unfold indexEntrySize at *; omega

/-- Opens the index over the contents found on disk. A length that is not a multiple of the
    entry size is trimmed, but the buffer to fill keeps the length before the trim. -/
def openIndex (file : Bytes) (baseOffset interval : Int) : Except Failure IndexFile :=
  let size := file.length
  let trimmed := if size % indexEntrySize ≠ 0 then file.take (size / indexEntrySize * indexEntrySize) else file
  match readAt trimmed 0 size with
  | none => .error (.error "EOF")
  | some buf => .ok {
      baseOffset := baseOffset
      interval := interval
      file := trimmed
      entries := loadEntries buf 0
      writtenSize := size }

namespace IndexFile

def append (idx : IndexFile) (absoluteOffset : Int) (position : Nat) : IndexFile :=
  let rel := uint32 (absoluteOffset - idx.baseOffset)
  let pos := uint32 position
  { idx with
    entries := idx.entries ++ [⟨rel, pos⟩]
    file := writeAt idx.file idx.writtenSize (putBE 4 rel ++ putBE 4 pos)
    writtenSize := idx.writtenSize + indexEntrySize }

def maybeAppend (idx : IndexFile) (absoluteOffset : Int) (position : Nat) : IndexFile :=
  let lastPos : Int := match idx.entries.getLast? with
    | some entry => entry.position
    | none => 0
  if position - lastPos < idx.interval then idx else idx.append absoluteOffset position

def beyond (idx : IndexFile) (rel i : Nat) : Bool :=
  decide (rel < (idx.entries.getD i ⟨0, 0⟩).relativeOffset)

def positionForOffset (idx : IndexFile) (targetOffset : Int) : Nat :=
  let rel := uint32 (targetOffset - idx.baseOffset)
  let n := idx.entries.length
  if n = 0 then 0
  else
    let i := Search.search n (idx.beyond rel)
    if i = 0 then 0 else (idx.entries.getD (i - 1) ⟨0, 0⟩).position

def reset (idx : IndexFile) : IndexFile :=
  { idx with entries := [], writtenSize := 0, file := [] }

end IndexFile

def encodeEntry (entry : IndexEntry) : Bytes := putBE 4 entry.relativeOffset ++ putBE 4 entry.position

def encodeEntries (entries : List IndexEntry) : Bytes := (entries.map encodeEntry).flatten

@[simp] theorem encodeEntry_length (entry : IndexEntry) : (encodeEntry entry).length = 8 := by
  simp [encodeEntry]

@[simp] theorem encodeEntries_length (entries : List IndexEntry) :
    (encodeEntries entries).length = 8 * entries.length := by
  induction entries with
  | nil => rfl
  | cons entry rest ih =>
    simp only [encodeEntries, List.map_cons, List.flatten_cons, List.length_append] at ih ⊢
    rw [ih, encodeEntry_length, List.length_cons]
    omega

theorem encodeEntries_append (entries rest : List IndexEntry) :
    encodeEntries (entries ++ rest) = encodeEntries entries ++ encodeEntries rest := by
  simp [encodeEntries]

def IndexEntry.Fits (entry : IndexEntry) : Prop :=
  entry.relativeOffset < 4294967296 ∧ entry.position < 4294967296

theorem loadEntries_encode (front : Bytes) (entries : List IndexEntry)
    (fits : ∀ entry ∈ entries, entry.Fits) :
    loadEntries (front ++ encodeEntries entries) front.length = entries := by
  induction entries generalizing front with
  | nil =>
    rw [loadEntries]
    simp [encodeEntries, indexEntrySize]
  | cons entry rest ih =>
    have whole : front ++ encodeEntries (entry :: rest) = front ++ (encodeEntry entry ++ encodeEntries rest) := by
      simp [encodeEntries]
    have next := ih (front ++ encodeEntry entry) (fun e member => fits e (List.mem_cons_of_mem _ member))
    have fit := fits entry (by simp)
    have inside (i j : Nat) (bound : j ≤ 8) :
        slice (front ++ (encodeEntry entry ++ encodeEntries rest)) (front.length + i) (front.length + j) =
          slice (encodeEntry entry) i j := by
      rw [slice_append_right, slice_append_left _ _ _ _ (by simp; omega)]
    have relative := inside 0 4 (by omega)
    have position := inside 4 8 (by omega)
    rw [Nat.add_zero] at relative
    have first : slice (encodeEntry entry) 0 4 = putBE 4 entry.relativeOffset := by
      simp [slice, encodeEntry]
    have second : slice (encodeEntry entry) 4 8 = putBE 4 entry.position := by
      simp [slice, encodeEntry]
    have small : entry.relativeOffset % 256 ^ 4 = entry.relativeOffset ∧ entry.position % 256 ^ 4 = entry.position := by
      unfold IndexEntry.Fits at fit
      omega
    rw [whole, loadEntries, if_pos (by simp [indexEntrySize]), relative, position, first, second,
      beUint_putBE, beUint_putBE, small.1, small.2]
    rw [List.length_append, encodeEntry_length, List.append_assoc] at next
    rw [indexEntrySize, next]

theorem openIndex_encode (entries : List IndexEntry) (baseOffset interval : Int)
    (fits : ∀ entry ∈ entries, entry.Fits) :
    openIndex (encodeEntries entries) baseOffset interval = .ok {
      baseOffset := baseOffset
      interval := interval
      file := encodeEntries entries
      entries := entries
      writtenSize := (encodeEntries entries).length } := by
  have aligned : (encodeEntries entries).length % indexEntrySize = 0 := by
    rw [encodeEntries_length]
    unfold indexEntrySize
    omega
  have loaded := loadEntries_encode [] entries fits
  rw [List.nil_append, List.length_nil] at loaded
  have whole : readAt (encodeEntries entries) 0 (encodeEntries entries).length = some (encodeEntries entries) := by
    unfold readAt slice
    rw [if_pos (by omega), List.drop_zero, Nat.zero_add, Nat.sub_zero, List.take_length]
  simp only [openIndex, aligned, ne_eq, not_true_eq_false, ↓reduceIte, whole, loaded]

theorem IndexFile.maybeAppend_cases (idx : IndexFile) (absoluteOffset : Int) (position : Nat) :
    idx.maybeAppend absoluteOffset position = idx ∨
      idx.maybeAppend absoluteOffset position = idx.append absoluteOffset position := by
  rw [maybeAppend]
  exact ite_eq_or_eq _ _ _

theorem IndexFile.positionForOffset_cases (idx : IndexFile) (target : Int)
    (sorted : idx.entries.Pairwise (fun a b => a.relativeOffset < b.relativeOffset)) :
    (idx.positionForOffset target = 0 ∧
        ∀ entry ∈ idx.entries, uint32 (target - idx.baseOffset) < entry.relativeOffset) ∨
      ∃ entry ∈ idx.entries, entry.relativeOffset ≤ uint32 (target - idx.baseOffset) ∧
        idx.positionForOffset target = entry.position ∧
        ∀ other ∈ idx.entries, other.relativeOffset ≤ uint32 (target - idx.baseOffset) →
          other.relativeOffset ≤ entry.relativeOffset := by
  have monotone : ∀ a b, a ≤ b → b < idx.entries.length →
      idx.beyond (uint32 (target - idx.baseOffset)) a = true →
        idx.beyond (uint32 (target - idx.baseOffset)) b = true := by
    intro a b order bound holds
    simp only [beyond, decide_eq_true_eq] at holds ⊢
    rcases Nat.eq_or_lt_of_le order with rfl | less
    · exact holds
    · have ordered := List.pairwise_iff_getElem.mp sorted a b (by omega) bound less
      rw [List.getD_eq_getElem _ _ (by omega)] at holds
      rw [List.getD_eq_getElem _ _ bound]
      omega
  obtain ⟨upper, before, after⟩ := Search.search_spec idx.entries.length _ monotone
  have later (k : Nat) (bound : k < idx.entries.length)
      (reached : Search.search idx.entries.length (idx.beyond (uint32 (target - idx.baseOffset))) ≤ k) :
      uint32 (target - idx.baseOffset) < idx.entries[k].relativeOffset := by
    have far := after k reached bound
    rwa [beyond, decide_eq_true_eq, List.getD_eq_getElem _ _ bound] at far
  unfold positionForOffset
  by_cases empty : idx.entries.length = 0
  · have none : idx.entries = [] := List.eq_nil_of_length_eq_zero empty
    left
    simp [none]
  · simp only [empty, ↓reduceIte]
    split
    · rename_i first
      refine Or.inl ⟨rfl, fun entry member => ?_⟩
      obtain ⟨k, bound, rfl⟩ := List.getElem_of_mem member
      exact later k bound (by omega)
    · rename_i found
      right
      have bound : Search.search idx.entries.length (idx.beyond (uint32 (target - idx.baseOffset))) - 1 <
          idx.entries.length := by omega
      have below := before _ (Nat.sub_lt (Nat.pos_of_ne_zero found) Nat.one_pos)
      rw [beyond, decide_eq_false_iff_not, List.getD_eq_getElem _ _ bound] at below
      rw [List.getD_eq_getElem _ _ bound]
      refine ⟨_, List.getElem_mem bound, by omega, rfl, fun other member near => ?_⟩
      obtain ⟨k, inside, rfl⟩ := List.getElem_of_mem member
      have order : ¬ Search.search idx.entries.length (idx.beyond (uint32 (target - idx.baseOffset))) ≤ k := by
        intro reached
        have far := later k inside reached
        omega
      rcases Nat.eq_or_lt_of_le (Nat.le_sub_one_of_lt (Nat.lt_of_not_le order)) with rfl | less
      · exact le_rfl
      · exact (List.pairwise_iff_getElem.mp sorted k _ inside bound less).le

end PocketKafka.Storage
