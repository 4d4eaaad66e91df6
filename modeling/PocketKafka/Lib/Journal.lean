import Mathlib

namespace Journal

variable {κ ν : Type*} [DecidableEq κ]

def replay (writes : List (κ × ν)) (state : κ → Option ν) : κ → Option ν :=
  writes.foldl (fun state w => Function.update state w.1 (some w.2)) state

def written (writes : List (κ × ν)) (key : κ) : List ν := (writes.filter (fun w => decide (w.1 = key))).map Prod.snd

variable {writes later : List (κ × ν)} {state : κ → Option ν} {key : κ}

@[simp] theorem replay_nil : replay [] state = state := rfl

theorem replay_append : replay (writes ++ later) state = replay later (replay writes state) := List.foldl_append

@[simp] theorem written_nil : written ([] : List (κ × ν)) key = [] := rfl

theorem written_append : written (writes ++ later) key = written writes key ++ written later key := by
  simp [written]

theorem replay_apply : replay writes state key = (written writes key).getLast?.or (state key) := by
  induction writes using List.reverseRecOn with
  | nil => rfl
  | append_singleton writes w ih =>
    rw [replay_append, written_append, List.getLast?_append, Option.or_assoc, ← ih]
    by_cases same : w.1 = key
    · simp [replay, written, same]
    · simp [replay, written, same, Function.update_of_ne (Ne.symm same)]

theorem replay_of_unwritten (none : written writes key = []) : replay writes state key = state key := by
  rw [replay_apply, none]
  rfl

theorem replay_of_written {other : κ → Option ν} (some : written writes key ≠ []) :
    replay writes state key = replay writes other key := by
  rw [replay_apply, replay_apply, List.getLast?_eq_some_getLast some]
  rfl

theorem replay_mem (writes : List (κ × ν)) (state : κ → Option ν) (key : κ) :
    replay writes state key = state key ∨ ∃ v ∈ written writes key, replay writes state key = some v := by
  by_cases none : written writes key = []
  · exact Or.inl (replay_of_unwritten none)
  · right
    refine ⟨(written writes key).getLast none, List.getLast_mem none, ?_⟩
    rw [replay_apply, List.getLast?_eq_some_getLast none]
    rfl

theorem replay_same (there : ∀ w ∈ writes, state w.1 = some w.2) : replay writes state = state := by
  induction writes with
  | nil => rfl
  | cons w writes ih =>
    have first : Function.update state w.1 (some w.2) = state :=
      Function.update_eq_self_iff.mpr (there w List.mem_cons_self).symm
    have rest := ih fun other member => there other (List.mem_cons_of_mem w member)
    rw [replay, List.foldl_cons, first]
    exact rest

theorem replay_replay (writes : List (κ × ν)) (state : κ → Option ν) :
    replay writes (replay writes state) = replay writes state := by
  funext key
  by_cases none : written writes key = []
  · rw [replay_of_unwritten none]
  · exact replay_of_written none

theorem replay_over_later (writes later : List (κ × ν)) (state : κ → Option ν) (key : κ) :
    replay writes (replay later (replay writes state)) key = replay writes state key ∨
      replay writes (replay later (replay writes state)) key = replay later (replay writes state) key := by
  by_cases none : written writes key = []
  · exact Or.inr (replay_of_unwritten none)
  · exact Or.inl (replay_of_written none)

theorem replay_later_again (writes later : List (κ × ν)) (state : κ → Option ν) :
    replay later (replay writes (replay later (replay writes state))) = replay later (replay writes state) := by
  have again := replay_replay (writes ++ later) state
  rwa [replay_append, replay_append] at again

end Journal
