import Mathlib

namespace SelfDelimiting

variable {τ α β : Type*}

abbrev Parser (τ α : Type*) := List τ → Option (α × List τ)

/-- What stands behind the text that a parser reads does not change what it reads. -/
def Extends (p : Parser τ α) : Prop :=
  ∀ ⦃xs v rest⦄, p xs = some (v, rest) → ∀ ys, p (xs ++ ys) = some (v, rest ++ ys)

def token [DecidableEq τ] : List τ → Parser τ Unit
  | [], xs => some ((), xs)
  | _ :: _, [] => none
  | a :: lit, x :: xs => if a = x then token lit xs else none

def andThen (p : Parser τ α) (f : α → Parser τ β) : Parser τ β := fun xs =>
  match p xs with
  | none => none
  | some (v, rest) => f v rest

def complete (p : Parser τ α) (xs : List τ) : Option α :=
  match p xs with
  | some (v, []) => some v
  | some (_, _ :: _) => none
  | none => none

theorem token_append [DecidableEq τ] (lit rest : List τ) : token lit (lit ++ rest) = some ((), rest) := by
  induction lit with
  | nil => rfl
  | cons a lit ih => simpa [token] using ih

theorem token_extends [DecidableEq τ] (lit : List τ) : Extends (token lit) := by
  induction lit with
  | nil =>
    intro xs v rest read ys
    cases read
    rfl
  | cons a lit ih =>
    intro xs v rest read ys
    cases xs with
    | nil => cases read
    | cons x xs =>
      simp only [token, List.cons_append] at read ⊢
      split at read
      · rename_i same
        rw [if_pos same]
        exact ih read ys
      · cases read

theorem Extends.andThen {p : Parser τ α} {f : α → Parser τ β} (first : Extends p) (second : ∀ v, Extends (f v)) :
    Extends (andThen p f) := by
  intro xs v rest read ys
  unfold SelfDelimiting.andThen at read ⊢
  cases found : p xs with
  | none =>
    rw [found] at read
    cases read
  | some result =>
    rw [found] at read
    rw [first found ys]
    exact second result.1 read ys

theorem andThen_eq {p : Parser τ α} {f : α → Parser τ β} {xs rest : List τ} {v : α} (read : p xs = some (v, rest)) :
    andThen p f xs = f v rest := by
  rw [andThen, read]

theorem complete_eq {p : Parser τ α} {xs : List τ} {v : α} (read : p xs = some (v, [])) : complete p xs = some v := by
  rw [complete, read]

theorem complete_cut {p : Parser τ α} (extends' : Extends p) {xs ys : List τ} {v : α}
    (read : p (xs ++ ys) = some (v, [])) (more : ys ≠ []) : complete p xs = none := by
  unfold complete
  split
  · rename_i w found
    have longer := extends' found ys
    rw [read, List.nil_append, Option.some.injEq, Prod.mk.injEq] at longer
    exact absurd longer.2.symm more
  · rfl
  · rfl

end SelfDelimiting
