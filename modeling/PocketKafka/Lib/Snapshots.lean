import Mathlib

namespace Snapshots

variable {σ : Type*}

/-- All versions of a value so far: the one in memory is `current`, the one that was saved last `saved`. -/
structure Versions (σ : Type*) where
  past : ℕ → σ
  current : ℕ
  saved : ℕ

namespace Versions

variable {v : Versions σ} {snapshot new : σ} {n : ℕ}

def start (value : σ) : Versions σ := ⟨fun _ => value, 0, 0⟩

def memory (v : Versions σ) : σ := v.past v.current

def file (v : Versions σ) : σ := v.past v.saved

def change (v : Versions σ) (new : σ) : Versions σ := ⟨Function.update v.past (v.current + 1) new, v.current + 1, v.saved⟩

def save (v : Versions σ) (n : ℕ) : Versions σ := { v with saved := n }

/-- `snapshot` is the value that was in memory at version `n`. -/
def Took (v : Versions σ) (snapshot : σ) (n : ℕ) : Prop := n ≤ v.current ∧ v.past n = snapshot

theorem Took.change (h : v.Took snapshot n) (new : σ) : (v.change new).Took snapshot n := by
  have below : n ≠ v.current + 1 := by
    have bound := h.1
    omega
  refine ⟨Nat.le_succ_of_le h.1, ?_⟩
  change Function.update v.past (v.current + 1) new n = snapshot
  rw [Function.update_of_ne below]
  exact h.2

@[simp] theorem memory_change (v : Versions σ) (new : σ) : (v.change new).memory = new := Function.update_self ..

theorem file_change (saved : v.saved ≤ v.current) (new : σ) : (v.change new).file = v.file := by
  have below : v.saved ≠ v.current + 1 := by omega
  exact Function.update_of_ne below new v.past

def Always (v : Versions σ) (p : σ → Prop) : Prop := ∀ n, n ≤ v.current → p (v.past n)

theorem always_start {p : σ → Prop} {value : σ} (holds : p value) : (start value).Always p := fun _ _ => holds

theorem Always.change {p : σ → Prop} (h : v.Always p) (holds : p new) : (v.change new).Always p := by
  intro n bound
  change p (Function.update v.past (v.current + 1) new n)
  by_cases newest : n = v.current + 1
  · rw [newest, Function.update_self]
    exact holds
  · rw [Function.update_of_ne newest]
    change n ≤ v.current + 1 at bound
    exact h n (by omega)

variable [Preorder σ]

def Rising (v : Versions σ) : Prop := ∀ m n, m ≤ n → n ≤ v.current → v.past m ≤ v.past n

theorem rising_start (value : σ) : (start value).Rising := fun _ _ _ _ => le_rfl

theorem Rising.change (h : v.Rising) (more : v.memory ≤ new) : (v.change new).Rising := by
  intro m n order bound
  change Function.update v.past (v.current + 1) new m ≤ Function.update v.past (v.current + 1) new n
  change n ≤ v.current + 1 at bound
  by_cases newest : n = v.current + 1
  · rw [newest, Function.update_self]
    by_cases same : m = v.current + 1
    · rw [same, Function.update_self]
    · rw [Function.update_of_ne same]
      exact (h m v.current (by omega) le_rfl).trans more
  · rw [Function.update_of_ne newest, Function.update_of_ne (by omega)]
    exact h m n order (by omega)

theorem Rising.file_le (h : v.Rising) (saved : v.saved ≤ v.current) : v.file ≤ v.memory := h _ _ saved le_rfl

theorem Rising.file_le_save (h : v.Rising) (order : v.saved ≤ n) (bound : n ≤ v.current) : v.file ≤ (v.save n).file :=
  h _ _ order bound

end Versions

end Snapshots
