/-
# HeavenFox.Logic.Outcome -- what a computation that may end early promises

A small library with nothing of the kernel in it.  A computation returns a value or ends early;
`Gives x P Q` says `P` of the value and `Q` of the early end.  The promises of two computations, one
behind the other, compose (`Gives.bind`).
-/
import Mathlib.Tactic.Common

namespace HeavenFox.Logic

universe u v

/-- `P` of what is returned, and `Q` of an early end. -/
inductive Gives {α : Type u} {ε : Type v} : Except ε α → (α → Prop) → (ε → Prop) → Prop where
  | ok {a : α} {P : α → Prop} {Q : ε → Prop} (h : P a) : Gives (.ok a) P Q
  | error {e : ε} {P : α → Prop} {Q : ε → Prop} (h : Q e) : Gives (.error e) P Q

variable {α β : Type u} {ε : Type v} {x : Except ε α} {P P' : α → Prop} {R : β → Prop}
  {Q Q' : ε → Prop}

theorem Gives.bind {f : α → Except ε β} (h : Gives x P Q) (hf : ∀ a, P a → Gives (f a) R Q) :
    Gives (x >>= f) R Q := by
  cases h with
  | ok ha => exact hf _ ha
  | error he => exact .error he

theorem Gives.imp (h : Gives x P Q) (hP : ∀ a, P a → P' a) (hQ : ∀ e, Q e → Q' e) :
    Gives x P' Q' := by
  cases h with
  | ok ha => exact .ok (hP _ ha)
  | error he => exact .error (hQ _ he)

end HeavenFox.Logic
