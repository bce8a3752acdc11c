/-
# HeavenFox.Logic.GuardedCounter -- calls that test a shared counter and then change it

A lock built on one counter has calls of one shape: look at the counter, then
(again later, or not at all, if the test says stop) change it.  The look and the
change are two steps, and any other thread may move in between.  `Guarded` is
the code of one such call, and `GState.step` the machine in which any number of
threads make such calls, one step of one thread at a time.

Beside the counter the machine keeps the account: `held` lists the units taken
and not given back, by the thread that holds them.  A unit is taken by the
change of a `take` call and given back when a `give` call returns, whether or
not it changed the counter.  `InStep level cap` says that the counter shows the
account; `InStep.step` preserves it for the steps that `Fits` admits, and
`take_miss` and `give_miss` say what the other steps do.
-/
import HeavenFox.Logic.Run
import Mathlib.Data.List.Basic
import Mathlib.Logic.Function.Basic

namespace HeavenFox.Logic

/-! ## Calls -/

/-- What a call does when its test says stop: test again later, or return. -/
inductive OnStop where
  | again
  | leave (retval : Option Int)
  deriving DecidableEq, Repr

/-- The code of a call: a test, then a change.  `forbid` is returned to a caller that is no
thread; a call without a value returns `none`. -/
structure Guarded where
  forbid : Option Int
  stop : Nat → Bool
  onStop : OnStop
  change : Nat → Nat
  retval : Option Int

/-- The counter and the value after a call during which nobody else moves; `none` if the call waits
and so never returns. -/
def Guarded.alone (g : Guarded) (counter : Nat) : Option (Nat × Option Int) :=
  if g.stop counter then
    match g.onStop with
    | .again => none
    | .leave retval => some (counter, retval)
  else
    some (g.change counter, g.retval)

/-- Whether a call is for taking a unit or for giving one back. -/
inductive Kind where
  | take
  | give
  deriving DecidableEq, Repr

/-! ## The machine -/

/-- Where a thread is: outside of every call, before the test of one, or past its test and before
its change. -/
inductive Pc (ο : Type) where
  | out
  | test (f : ο)
  | change (f : ο)
  deriving DecidableEq, Repr

/-- The counter, where every thread is, the account of the units, and what the last call of every
caller returned (`none` is the caller that is no thread). -/
structure GState (τ ο : Type) where
  counter : Nat
  pc : τ → Pc ο
  held : List τ
  retval : Option τ → Option Int

/-- A caller starts a call, or a thread inside one takes its next step. -/
inductive Move (τ ο : Type) where
  | call (current : Option τ) (f : ο)
  | next (t : τ)
  deriving DecidableEq, Repr

namespace GState

variable {τ ο : Type} [DecidableEq τ]

/-- All threads outside, no unit taken. -/
def start (counter : Nat) : GState τ ο where
  counter := counter
  pc := fun _ => .out
  held := []
  retval := fun _ => none

/-- A thread enters the test of a call. -/
def enter (s : GState τ ο) (t : τ) (f : ο) : GState τ ο :=
  { s with pc := Function.update s.pc t (.test f) }

/-- A thread goes on from the test of its call to the change. -/
def pass (s : GState τ ο) (t : τ) (f : ο) : GState τ ο :=
  { s with pc := Function.update s.pc t (.change f) }

/-- A thread returns from its call; the counter and the account are as given. -/
def finish (s : GState τ ο) (t : τ) (counter : Nat) (held : List τ) (retval : Option Int) :
    GState τ ο where
  counter := counter
  pc := Function.update s.pc t .out
  held := held
  retval := Function.update s.retval (some t) retval

/-- The account after a call of `t` that returned without a change. -/
def heldOnLeave (kind : Kind) (t : τ) (held : List τ) : List τ :=
  match kind with
  | .take => held
  | .give => held.erase t

/-- The account after a call of `t` that made its change. -/
def heldOnChange (kind : Kind) (t : τ) (held : List τ) : List τ :=
  match kind with
  | .take => t :: held
  | .give => held.erase t

/-- One step of one caller.  Only a thread that holds a unit starts to give one back. -/
def step (code : ο → Guarded) (kind : ο → Kind) (s : GState τ ο) : Move τ ο → Option (GState τ ο)
  | .call none f => some { s with retval := Function.update s.retval none (code f).forbid }
  | .call (some t) f =>
    match s.pc t with
    | .out => if kind f = .give ∧ t ∉ s.held then none else some (s.enter t f)
    | _ => none
  | .next t =>
    match s.pc t with
    | .out => none
    | .test f =>
      if (code f).stop s.counter then
        match (code f).onStop with
        | .again => some s
        | .leave retval =>
          some (s.finish t s.counter (heldOnLeave (kind f) t s.held) retval)
      else
        some (s.pass t f)
    | .change f =>
      some (s.finish t ((code f).change s.counter) (heldOnChange (kind f) t s.held) (code f).retval)

/-! ## What a step can do -/

variable {code : ο → Guarded} {kind : ο → Kind} {s s' : GState τ ο} {t : τ} {f : ο}

/-- The states a move can lead to. -/
inductive Moved (code : ο → Guarded) (kind : ο → Kind) (s : GState τ ο) :
    Move τ ο → GState τ ο → Prop
  | refused (f : ο) :
    Moved code kind s (.call none f)
      { s with retval := Function.update s.retval none (code f).forbid }
  | entered (t : τ) (f : ο) (hout : s.pc t = .out) (hheld : kind f = .give → t ∈ s.held) :
    Moved code kind s (.call (some t) f) (s.enter t f)
  | waited (t : τ) (f : ο) (hpc : s.pc t = .test f) (hstop : (code f).stop s.counter = true)
    (hon : (code f).onStop = .again) : Moved code kind s (.next t) s
  | left (t : τ) (f : ο) (retval : Option Int) (hpc : s.pc t = .test f)
    (hstop : (code f).stop s.counter = true) (hon : (code f).onStop = .leave retval) :
    Moved code kind s (.next t) (s.finish t s.counter (heldOnLeave (kind f) t s.held) retval)
  | passed (t : τ) (f : ο) (hpc : s.pc t = .test f) (hgo : (code f).stop s.counter = false) :
    Moved code kind s (.next t) (s.pass t f)
  | changed (t : τ) (f : ο) (hpc : s.pc t = .change f) :
    Moved code kind s (.next t)
      (s.finish t ((code f).change s.counter) (heldOnChange (kind f) t s.held) (code f).retval)

theorem moved_of_step {i : Move τ ο} (h : step code kind s i = some s') :
    Moved code kind s i s' := by
  cases i with
  | call current f =>
    cases current with
    | none =>
      cases h
      exact .refused f
    | some t =>
      cases hpc : s.pc t with
      | out =>
        simp only [step, hpc] at h
        split at h
        · cases h
        · rename_i hne
          cases h
          exact .entered t f hpc (fun hk => by_contra fun hm => hne ⟨hk, hm⟩)
      | test g => simp [step, hpc] at h
      | change g => simp [step, hpc] at h
  | next t =>
    cases hpc : s.pc t with
    | out => simp [step, hpc] at h
    | test f =>
      simp only [step, hpc] at h
      cases hstop : (code f).stop s.counter with
      | false =>
        simp only [hstop, Bool.false_eq_true, if_false] at h
        cases h
        exact .passed t f hpc hstop
      | true =>
        cases hon : (code f).onStop with
        | again =>
          simp only [hstop, hon, if_true] at h
          cases h
          exact .waited t f hpc hstop hon
        | leave retval =>
          simp only [hstop, hon, if_true] at h
          cases h
          exact .left t f retval hpc hstop hon
    | change f =>
      simp only [step, hpc] at h
      cases h
      exact .changed t f hpc

/-- A call made while nobody else moves returns what the call alone computes. -/
theorem exec_alone {counter : Nat} {retval : Option Int} (hout : s.pc t = .out)
    (hheld : kind f = .give → t ∈ s.held)
    (h : (code f).alone s.counter = some (counter, retval)) :
    ∃ moves s', exec (step code kind) s (.call (some t) f :: moves) = some s' ∧
      s'.counter = counter ∧ s'.pc t = .out ∧ s'.retval (some t) = retval := by
  have henter : step code kind s (.call (some t) f) = some (s.enter t f) := by
    simp only [step, hout]
    exact if_neg fun hn => hn.2 (hheld hn.1)
  cases hstop : (code f).stop s.counter with
  | true =>
    cases hon : (code f).onStop with
    | again => simp [Guarded.alone, hstop, hon] at h
    | leave value =>
      simp only [Guarded.alone, hstop, hon, if_true, Option.some.injEq, Prod.mk.injEq] at h
      let s' := (s.enter t f).finish t s.counter (heldOnLeave (kind f) t s.held) value
      have hleave : step code kind (s.enter t f) (.next t) = some s' := by
        simp [s', step, enter, hstop, hon]
      refine ⟨[.next t], s', ?_, h.1, ?_, ?_⟩
      · simp only [exec, henter, hleave]
      · simp [s', finish]
      · simpa [s', finish] using h.2
  | false =>
    simp only [Guarded.alone, hstop, Bool.false_eq_true, if_false, Option.some.injEq,
      Prod.mk.injEq] at h
    let s' := ((s.enter t f).pass t f).finish t ((code f).change s.counter)
      (heldOnChange (kind f) t s.held) (code f).retval
    have hpass : step code kind (s.enter t f) (.next t) = some ((s.enter t f).pass t f) := by
      simp [step, enter, hstop]
    have hchange : step code kind ((s.enter t f).pass t f) (.next t) = some s' := by
      simp [s', step, pass, enter]
    refine ⟨[.next t, .next t], s', ?_, h.1, ?_, ?_⟩
    · simp only [exec, henter, hpass, hchange]
    · simp [s', finish]
    · simpa [s', finish] using h.2

/-! ## The counter shows the account -/

/-- A thread that is inside a call of the function. -/
def Inside (s : GState τ ο) (t : τ) (f : ο) : Prop := s.pc t = .test f ∨ s.pc t = .change f

/-- At most `cap` units are taken, the counter is at the level of the units taken, and a thread
that is giving a unit back has one. -/
structure InStep (kind : ο → Kind) (level : Nat → Nat) (cap : Nat) (s : GState τ ο) : Prop where
  bound : s.held.length ≤ cap
  shown : s.counter = level s.held.length
  holds : ∀ t f, s.Inside t f → kind f = .give → t ∈ s.held

/-- The changes move between neighbouring levels. -/
structure Lawful (code : ο → Guarded) (kind : ο → Kind) (level : Nat → Nat) (cap : Nat) :
    Prop where
  full : ∀ f n, kind f = .take → n ≤ cap → ((code f).stop (level n) = true ↔ n = cap)
  take : ∀ f n, kind f = .take → n < cap → (code f).change (level n) = level (n + 1)
  give : ∀ f n, kind f = .give → n < cap → (code f).change (level (n + 1)) = level n

/-- The steps that keep the counter in step with the account: a `take` call changes the counter
only where its own test would let it pass, and a `give` call is never stopped. -/
def Fits (code : ο → Guarded) (kind : ο → Kind) (s : GState τ ο) (i : Move τ ο) : Prop :=
  ∀ t, i = .next t →
    (∀ f, s.pc t = .change f → kind f = .take → (code f).stop s.counter = false) ∧
    (∀ f, s.pc t = .test f → kind f = .give → (code f).stop s.counter = false)

variable {level : Nat → Nat} {cap : Nat}

omit [DecidableEq τ] in
theorem inStep_start {counter : Nat} (h : counter = level 0) :
    InStep kind level cap (start counter : GState τ ο) where
  bound := Nat.zero_le cap
  shown := h
  holds := by
    intro t f hin
    simp [Inside, start] at hin

/-- A thread other than the one that returned is where it was. -/
theorem inside_finish {u : τ} {g : ο} {counter : Nat} {held : List τ} {retval : Option Int}
    (h : (s.finish t counter held retval).Inside u g) : u ≠ t ∧ s.Inside u g := by
  by_cases hu : u = t
  · subst hu
    simp [Inside, finish] at h
  · simp only [Inside, finish, Function.update_of_ne hu] at h
    exact ⟨hu, h⟩

/-- **A step that fits keeps the counter in step with the account.** -/
theorem InStep.step {i : Move τ ο} (hl : Lawful code kind level cap)
    (hs : InStep kind level cap s) (hfit : Fits code kind s i)
    (h : GState.step code kind s i = some s') : InStep kind level cap s' := by
  have hmoved := moved_of_step h
  cases hmoved with
  | refused f => exact ⟨hs.bound, hs.shown, hs.holds⟩
  | entered t f hout hheld =>
    refine ⟨hs.bound, hs.shown, fun u g hin hk => ?_⟩
    by_cases hu : u = t
    · subst hu
      have hg : g = f := by simpa [Inside, enter, eq_comm] using hin
      subst hg
      exact hheld hk
    · exact hs.holds u g (by simpa [Inside, enter, Function.update_of_ne hu] using hin) hk
  | waited t f hpc hstop hon => exact hs
  | left t f retval hpc hstop hon =>
    cases hk : kind f with
    | take =>
      exact ⟨hs.bound, hs.shown, fun u g hin => hs.holds u g (inside_finish hin).2⟩
    | give =>
      have hgo := (hfit t rfl).2 f hpc hk
      simp [hstop] at hgo
  | passed t f hpc hgo =>
    refine ⟨hs.bound, hs.shown, fun u g hin hk => ?_⟩
    by_cases hu : u = t
    · subst hu
      have hg : g = f := by simpa [Inside, pass, eq_comm] using hin
      subst hg
      exact hs.holds u g (Or.inl hpc) hk
    · exact hs.holds u g (by simpa [Inside, pass, Function.update_of_ne hu] using hin) hk
  | changed t f hpc =>
    cases hk : kind f with
    | take =>
      have hgo := (hfit t rfl).1 f hpc hk
      have hfree : s.held.length < cap := by
        have hne : s.held.length ≠ cap := by
          intro he
          rw [hs.shown, (hl.full f _ hk hs.bound).mpr he] at hgo
          cases hgo
        have := hs.bound
        omega
      refine ⟨hfree, ?_, fun u g hin hg => ?_⟩
      · show (code f).change s.counter = level (s.held.length + 1)
        rw [hs.shown, hl.take f _ hk hfree]
      · exact List.mem_cons_of_mem t (hs.holds u g (inside_finish hin).2 hg)
    | give =>
      have hmem : t ∈ s.held := hs.holds t f (Or.inr hpc) hk
      have hlen : (s.held.erase t).length + 1 = s.held.length := List.length_erase_add_one hmem
      have hbound := hs.bound
      refine ⟨?_, ?_, fun u g hin hg => ?_⟩
      · show (s.held.erase t).length ≤ cap
        omega
      · show (code f).change s.counter = level (s.held.erase t).length
        rw [hs.shown, ← hlen, hl.give f _ hk (by omega)]
      · obtain ⟨hu, hin⟩ := inside_finish hin
        exact (List.mem_erase_of_ne hu).mpr (hs.holds u g hin hg)

/-! ## The other steps -/

/-- A `take` call whose change comes too late takes a unit more than there are. -/
theorem take_miss (hl : Lawful code kind level cap) (hs : InStep kind level cap s)
    (hpc : s.pc t = .change f) (hk : kind f = .take) (hstop : (code f).stop s.counter = true)
    (h : GState.step code kind s (.next t) = some s') :
    s'.counter = (code f).change (level cap) ∧ s'.held.length = cap + 1 := by
  have hfull : s.held.length = cap :=
    (hl.full f _ hk hs.bound).mp (by rw [← hs.shown]; exact hstop)
  simp only [step, hpc] at h
  cases h
  exact ⟨by simp [finish, hs.shown, hfull], by simp [finish, heldOnChange, hk, hfull]⟩

/-- A `give` call that is stopped gives its unit back and leaves the counter where it was. -/
theorem give_miss {retval : Option Int} (hs : InStep kind level cap s) (hpc : s.pc t = .test f)
    (hk : kind f = .give) (hstop : (code f).stop s.counter = true)
    (hon : (code f).onStop = .leave retval)
    (h : GState.step code kind s (.next t) = some s') :
    s'.counter = level (s'.held.length + 1) ∧ s'.held.length + 1 = s.held.length := by
  have hmem : t ∈ s.held := hs.holds t f (Or.inl hpc) hk
  have hlen : (s.held.erase t).length + 1 = s.held.length := List.length_erase_add_one hmem
  simp only [step, hpc, hstop, hon, if_true] at h
  cases h
  refine ⟨?_, by simpa [finish, heldOnLeave, hk] using hlen⟩
  simp only [finish, heldOnLeave, hk]
  rw [hlen, hs.shown]

end GState

end HeavenFox.Logic
