import Mathlib

/-- Why a call yields no value: it returned an error, it panicked, or a loop of it never ends. -/
inductive Failure where
  | error (text : String)
  | panic (text : String)
  | diverges
  deriving DecidableEq, Repr

/-- The error with a text in front that says where it comes from. -/
def Failure.within (place : String) : Failure → Failure
  | .error text => .error (place ++ text)
  | other => other

theorem exists_of_map {ε α : Type*} {x : Except ε α} {p : α → Prop} [DecidablePred p]
    (passes : x.map (fun a => decide (p a)) = .ok true) : ∃ a, x = .ok a ∧ p a := by
  cases x with
  | error failure => cases passes
  | ok a => exact ⟨a, rfl, of_decide_eq_true (Except.ok.inj passes)⟩

theorem exists_of_bind {ε α β : Type} {x : Except ε α} {f : α → Except ε β} {v : β} (done : x >>= f = .ok v) :
    ∃ a, x = .ok a ∧ f a = .ok v := by
  cases x with
  | error failure => cases done
  | ok a => exact ⟨a, rfl, done⟩
