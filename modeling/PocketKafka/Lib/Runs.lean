import Mathlib

namespace Runs

variable {σ α : Type*}

/-- `t` is reached from `s` by steps whose labels meet `guard` in the state they start from. -/
def Reaches (guard : σ → α → Prop) (step : σ → α → σ → Prop) : σ → σ → Prop :=
  Relation.ReflTransGen (fun s t => ∃ a, guard s a ∧ step s a t)

variable {guard : σ → α → Prop} {step : σ → α → σ → Prop} {s t u : σ}

theorem Reaches.refl (s : σ) : Reaches guard step s s := Relation.ReflTransGen.refl

theorem Reaches.next (run : Reaches guard step s t) (a : α) (meets : guard t a) (done : step t a u) :
    Reaches guard step s u := Relation.ReflTransGen.tail run ⟨a, meets, done⟩

theorem Reaches.invariant {inv : σ → Prop} (run : Reaches guard step s t) (start : inv s)
    (keeps : ∀ s a t, inv s → guard s a → step s a t → inv t) : inv t := by
  induction run with
  | refl => exact start
  | tail _ last ih =>
    obtain ⟨a, meets, done⟩ := last
    exact keeps _ a _ ih meets done

def follow (guard : σ → α → Prop) [∀ s a, Decidable (guard s a)] (next : σ → α → Option σ) (s : σ) : List α → Option σ
  | [] => some s
  | a :: rest => if guard s a then (next s a).bind fun t => follow guard next t rest else none

theorem reaches_of_follow [∀ s a, Decidable (guard s a)] {next : σ → α → Option σ} {labels : List α}
    (steps : ∀ s a t, next s a = some t → step s a t) (done : follow guard next s labels = some t) :
    Reaches guard step s t := by
  induction labels generalizing s with
  | nil =>
    cases done
    exact .refl _
  | cons a rest ih =>
    rw [follow] at done
    split at done
    · rename_i meets
      obtain ⟨middle, first, later⟩ := Option.bind_eq_some_iff.mp done
      exact Relation.ReflTransGen.head ⟨a, meets, steps s a middle first⟩ (ih later)
    · cases done

theorem exists_reaches [∀ s a, Decidable (guard s a)] {next : σ → α → Option σ} (labels : List α)
    {p : σ → Prop} [DecidablePred p] (steps : ∀ s a t, next s a = some t → step s a t)
    (passes : (follow guard next s labels).map (fun t => decide (p t)) = some true) :
    ∃ t, Reaches guard step s t ∧ p t := by
  obtain ⟨t, done, test⟩ := Option.map_eq_some_iff.mp passes
  exact ⟨t, reaches_of_follow steps done, of_decide_eq_true test⟩

variable {f : σ → α → σ} {xs : List α}

theorem foldl_invariant {inv : σ → Prop} (start : inv s) (keeps : ∀ s, ∀ a ∈ xs, inv s → inv (f s a)) :
    inv (xs.foldl f s) := by
  induction xs generalizing s with
  | nil => exact start
  | cons a xs ih =>
    apply ih (keeps s a (by simp) start)
    exact fun t b member => keeps t b (by simp [member])

theorem foldl_reaches (goal : σ → Prop) {a : α} (member : a ∈ xs) (sets : ∀ s, goal (f s a))
    (stays : ∀ s, ∀ b ∈ xs, goal s → goal (f s b)) : goal (xs.foldl f s) := by
  obtain ⟨front, back, rfl⟩ := List.append_of_mem member
  rw [List.foldl_append, List.foldl_cons]
  apply foldl_invariant (sets _)
  exact fun t b inside => stays t b (by simp [inside])

theorem mem_set_of_mem {calls : List α} {i : ℕ} {call other next : α} (found : calls[i]? = some call)
    (member : other ∈ calls) :
    other = call ∨ other ∈ calls.set i next := by
  obtain ⟨j, place⟩ := List.mem_iff_getElem?.mp member
  by_cases same : i = j
  · subst same
    exact Or.inl (Option.some.inj (place.symm.trans found))
  · right
    apply List.mem_of_getElem? (i := j)
    rw [List.getElem?_set_ne same]
    exact place

theorem of_getElem?_set {calls : List α} {i k : ℕ} {call next : α} (found : (calls.set i next)[k]? = some call) :
    k = i ∧ call = next ∨ k ≠ i ∧ calls[k]? = some call := by
  rw [List.getElem?_set] at found
  split at found
  · rename_i same
    split at found <;> cases found
    exact Or.inl ⟨same.symm, rfl⟩
  · rename_i other
    exact Or.inr ⟨fun same => other same.symm, found⟩

theorem mem_set_self {calls : List α} {i : ℕ} {call : α} (found : calls[i]? = some call) (next : α) :
    next ∈ calls.set i next :=
  List.mem_set (List.getElem?_eq_some_iff.mp found).1 next

/-- Every entry has the property, given the entries before it. -/
def Justified (p : List α → α → Prop) : List α → Prop
  | [] => True
  | a :: earlier => p earlier a ∧ Justified p earlier

theorem Justified.entry {p : List α → α → Prop} {later earlier : List α} {a : α}
    (h : Justified p (later ++ a :: earlier)) : p earlier a := by
  induction later with
  | nil => exact h.1
  | cons _ later ih => exact ih h.2

theorem Justified.earlier {p : List α → α → Prop} {later earlier : List α} (h : Justified p (later ++ earlier)) :
    Justified p earlier := by
  induction later with
  | nil => exact h
  | cons _ later ih => exact ih h.2

theorem Justified.mem {p : List α → α → Prop} {entries : List α} {a : α} (h : Justified p entries) (member : a ∈ entries) :
    ∃ earlier, p earlier a := by
  obtain ⟨later, earlier, rfl⟩ := List.append_of_mem member
  exact ⟨earlier, h.entry⟩

end Runs
