import Mathlib

namespace Buckets

variable {κ υ : Type} [DecidableEq κ]

abbrev Table (κ υ : Type) := AList fun _ : κ => List υ

def Table.bucket (table : Table κ υ) (k : κ) : List υ := (table.lookup k).getD []

def Table.push (table : Table κ υ) (entry : κ × υ) : Table κ υ := table.insert entry.1 (table.bucket entry.1 ++ [entry.2])

def Table.collect (table : Table κ υ) (entries : List (κ × υ)) : Table κ υ := entries.foldl Table.push table

/-- The values that stand under a key in a list of entries. -/
def valuesOf (entries : List (κ × υ)) (k : κ) : List υ := (entries.filter fun entry => entry.1 = k).map Prod.snd

variable (table : Table κ υ) (entries : List (κ × υ)) (k : κ)

theorem bucket_push (entry : κ × υ) :
    (table.push entry).bucket k = table.bucket k ++ if entry.1 = k then [entry.2] else [] := by
  unfold Table.push
  rw [Table.bucket.eq_def]
  split
  · rename_i same
    rw [← same, AList.lookup_insert, Option.getD_some]
  · rename_i other
    rw [AList.lookup_insert_ne (Ne.symm other), List.append_nil]
    rfl

theorem bucket_collect : (table.collect entries).bucket k = table.bucket k ++ valuesOf entries k := by
  induction entries generalizing table with
  | nil => exact (List.append_nil _).symm
  | cons entry entries ih =>
    rw [Table.collect, List.foldl_cons]
    refine (ih (table.push entry)).trans ?_
    rw [bucket_push, List.append_assoc, valuesOf, valuesOf]
    by_cases same : entry.1 = k
    · rw [if_pos same, List.filter_cons_of_pos (by simpa using same), List.map_cons, List.singleton_append]
    · rw [if_neg same, List.filter_cons_of_neg (by simpa using same), List.nil_append]

@[simp] theorem bucket_empty : (∅ : Table κ υ).bucket k = [] := rfl

def Table.ofEntries (entries : List (Σ _ : κ, List υ)) : Table κ υ := entries.foldl (fun out e => out.insert e.1 e.2) ∅

theorem lookup_foldl_insert {entries : List (Σ _ : κ, List υ)} (distinct : entries.NodupKeys) (table : Table κ υ) (k : κ) :
    (entries.foldl (fun out e => out.insert e.1 e.2) table).lookup k = (entries.dlookup k).or (table.lookup k) := by
  induction entries generalizing table with
  | nil => rfl
  | cons e entries ih =>
    obtain ⟨absent, rest⟩ := List.nodupKeys_cons.mp distinct
    rw [List.foldl_cons, ih rest]
    by_cases same : k = e.1
    · rw [same, AList.lookup_insert, List.dlookup_cons_eq, List.dlookup_eq_none.mpr absent]
      rfl
    · rw [AList.lookup_insert_ne same, List.dlookup_cons_ne _ _ same]

theorem lookup_ofEntries (table : Table κ υ) (k : κ) : (Table.ofEntries table.entries).lookup k = table.lookup k := by
  rw [Table.ofEntries, lookup_foldl_insert table.nodupKeys, AList.lookup_empty, Option.or_none]
  rfl

variable [DecidableEq υ]

theorem count_valuesOf (v : υ) : (valuesOf entries k).count v = entries.count (k, v) := by
  induction entries with
  | nil => rfl
  | cons entry entries ih =>
    rw [valuesOf, List.count_cons, ← ih, valuesOf]
    by_cases same : entry.1 = k
    · rw [List.filter_cons_of_pos (by simpa using same), List.map_cons, List.count_cons]
      congr 1
      obtain ⟨key, value⟩ := entry
      simp only at same
      simp [same, Prod.ext_iff]
    · rw [List.filter_cons_of_neg (by simpa using same), if_neg, add_zero]
      intro equal
      exact same (congrArg Prod.fst (beq_iff_eq.mp equal))

theorem mem_valuesOf {v : υ} : v ∈ valuesOf entries k ↔ (k, v) ∈ entries := by
  rw [← List.count_pos_iff, count_valuesOf, List.count_pos_iff]

end Buckets
