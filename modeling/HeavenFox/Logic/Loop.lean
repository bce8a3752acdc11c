/-
# HeavenFox.Logic.Loop -- loops that are given rounds

A small library with nothing of the kernel in it.  A loop of a program is a
function `loop : Nat → α → β` of the rounds it may still make and of its
variables.  `Leads loop n x y` says that `n` rounds take the loop from `x` to `y`
whatever rounds are left, and `Ends loop n x r` that it is over with `r` after at
most `n` rounds; the rounds add up, so that what one part of the input does can be
put behind what another part does.

A counted loop that puts something out needs no more than an invariant of its
variables: `countedLoop_eq`.
-/
import Mathlib.Tactic.Common

namespace HeavenFox.Logic

variable {α β : Type*} {loop : Nat → α → β}

/-- `n` rounds take the loop from `x` to `y`. -/
def Leads (loop : Nat → α → β) (n : Nat) (x y : α) : Prop := ∀ k, loop (k + n) x = loop k y

/-- The loop is over with `r` after at most `n` rounds from `x`. -/
def Ends (loop : Nat → α → β) (n : Nat) (x : α) (r : β) : Prop := ∀ k, loop (k + n) x = r

theorem Leads.refl (x : α) : Leads loop 0 x x := fun _ => rfl

theorem Leads.trans {n m : Nat} {x y z : α} (h : Leads loop n x y) (h' : Leads loop m y z) :
    Leads loop (n + m) x z := by
  intro k
  rw [Nat.add_comm n m, ← Nat.add_assoc, h, h']

theorem Leads.ends {n m : Nat} {x y : α} {r : β} (h : Leads loop n x y) (h' : Ends loop m y r) :
    Ends loop (n + m) x r := by
  intro k
  rw [Nat.add_comm n m, ← Nat.add_assoc, h, h']

theorem Ends.run {n k : Nat} {x : α} {r : β} (h : Ends loop n x r) (hk : n ≤ k) :
    loop k x = r := by
  rw [← Nat.sub_add_cancel hk, h]

/-- **Counted rounds.**  What every round takes from `k` to `k + 1`, the loop takes from 0 to `n`. -/
theorem leads_counted {I : Nat → α → Prop} {n : Nat} {x : α}
    (hround : ∀ k < n, ∀ x, I k x → ∃ m y, Leads loop m x y ∧ I (k + 1) y) (hx : I 0 x) :
    ∃ m y, Leads loop m x y ∧ I n y := by
  induction n with
  | zero => exact ⟨0, x, Leads.refl x, hx⟩
  | succ n ih =>
    obtain ⟨m, y, hlead, hy⟩ := ih fun k hk => hround k (Nat.lt_succ_of_lt hk)
    obtain ⟨m', z, hlast, hz⟩ := hround n (Nat.lt_succ_self n) y hy
    exact ⟨m + m', z, hlead.trans hlast, hz⟩

/-! ## Counted loops with an output -/

section Counted

variable {σ ω : Type*}

/-- A loop over `0, …, n - 1` whose body puts something out and changes the variables. -/
def countedLoop (body : Nat → σ → List ω × σ) : Nat → σ → List ω × σ
  | 0, s => ([], s)
  | n + 1, s =>
    let (before, s) := countedLoop body n s
    let (last, s) := body n s
    (before ++ last, s)

/-- What a counted loop puts out, from an invariant of its variables. -/
theorem countedLoop_eq {body : Nat → σ → List ω × σ} (I : Nat → σ → Prop) (out : Nat → List ω)
    {n : Nat} {s : σ}
    (hbody : ∀ k < n, ∀ s, I k s → (body k s).1 = out k ∧ I (k + 1) (body k s).2) (hs : I 0 s) :
    (countedLoop body n s).1 = (List.range n).flatMap out ∧ I n (countedLoop body n s).2 := by
  induction n with
  | zero => exact ⟨rfl, hs⟩
  | succ n ih =>
    obtain ⟨hbefore, hinv⟩ := ih fun k hk => hbody k (Nat.lt_succ_of_lt hk)
    obtain ⟨hlast, hinv'⟩ := hbody n (Nat.lt_succ_self n) _ hinv
    refine ⟨?_, hinv'⟩
    show (countedLoop body n s).1 ++ (body n (countedLoop body n s).2).1 = _
    rw [hbefore, hlast, List.range_succ, List.flatMap_append, List.flatMap_singleton]

end Counted

end HeavenFox.Logic
