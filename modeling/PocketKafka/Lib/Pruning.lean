import Mathlib

namespace Pruning

variable {K V : Type*} [DecidableEq K] (stale : K → V → Bool) (m : AList fun _ : K => V)

def prune : AList fun _ : K => V :=
  m.entries.foldl (fun kept e => if stale e.1 e.2 then kept.erase e.1 else kept) m

def pruned : List K := (m.entries.filter fun e => stale e.1 e.2).map Sigma.fst

variable {stale m}

theorem lookup_erase_if (kept : AList fun _ : K => V) (p : Prop) [Decidable p] (a k : K) :
    (if p then kept.erase a else kept).lookup k = if p ∧ a = k then none else kept.lookup k := by
  by_cases drop : p
  · by_cases same : a = k
    · subst same
      rw [if_pos drop, if_pos ⟨drop, rfl⟩, AList.lookup_erase]
    · rw [if_pos drop, if_neg fun h => same h.2, AList.lookup_erase_ne (Ne.symm same)]
  · rw [if_neg drop, if_neg fun h => drop h.1]

theorem lookup_foldl (entries : List (Sigma fun _ : K => V)) (kept : AList fun _ : K => V) (k : K) :
    (entries.foldl (fun kept e => if stale e.1 e.2 then kept.erase e.1 else kept) kept).lookup k =
      if k ∈ (entries.filter fun e => stale e.1 e.2).map Sigma.fst then none else kept.lookup k := by
  induction entries generalizing kept with
  | nil => rfl
  | cons e rest ih =>
    rw [List.foldl_cons, ih, lookup_erase_if, List.filter_cons]
    by_cases drop : stale e.1 e.2 = true
    · simp only [drop, true_and, if_true, List.map_cons, List.mem_cons, eq_comm]
      split <;> split <;> simp_all
    · simp only [drop, Bool.false_eq_true, false_and, if_false]

theorem lookup_prune (k : K) : (prune stale m).lookup k = if k ∈ pruned stale m then none else m.lookup k :=
  lookup_foldl m.entries m k

theorem mem_pruned (k : K) : k ∈ pruned stale m ↔ ∃ v, m.lookup k = some v ∧ stale k v = true := by
  simp only [pruned, List.mem_map, List.mem_filter]
  constructor
  · rintro ⟨⟨k, v⟩, ⟨inside, drop⟩, rfl⟩
    exact ⟨v, AList.mem_lookup_iff.mpr inside, drop⟩
  · rintro ⟨v, found, drop⟩
    exact ⟨⟨k, v⟩, ⟨AList.mem_lookup_iff.mp found, drop⟩, rfl⟩

theorem lookup_erase_insert {k : K} (missing : m.lookup k = none) (v : V) (x : K) :
    ((m.insert k v).erase k).lookup x = m.lookup x := by
  by_cases same : x = k
  · subst same
    rw [AList.lookup_erase, missing]
  · rw [AList.lookup_erase_ne same, AList.lookup_insert_ne same]

theorem lookup_insert_erase {k : K} {v : V} (found : m.lookup k = some v) (x : K) :
    ((m.erase k).insert k v).lookup x = m.lookup x := by
  by_cases same : x = k
  · subst same
    rw [AList.lookup_insert, found]
  · rw [AList.lookup_insert_ne same, AList.lookup_erase_ne same]

end Pruning
