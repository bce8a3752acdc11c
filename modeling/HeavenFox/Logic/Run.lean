/-
# HeavenFox.Logic.Run -- finite runs of a labelled step function

A machine is a partial step function `step : σ → ι → Option σ`: the label says
which call or which thread moves next, and `none` says that it cannot.  A run is
the list of its labels, so one list is one interleaving and quantifying over all
lists quantifies over all of them.

Two predicates speak about a run as a whole: `Always P` holds of a run when `P`
holds in every state it passes through, and `Meets c` holds when every step is
taken in a state where the condition `c` is met.  The rules below derive the
first from the second, and (`always_iff_meets`) make the condition exact when a
step that misses it destroys the property.
-/
import Mathlib.Tactic.ByContra

namespace HeavenFox.Logic

variable {σ ι : Type*}

/-- Run the labels one after another. -/
def exec (step : σ → ι → Option σ) : σ → List ι → Option σ
  | s, [] => some s
  | s, i :: is =>
    match step s i with
    | none => none
    | some t => exec step t is

/-- `P` holds in every state the run passes through, the first and the last included. -/
def Always (step : σ → ι → Option σ) (P : σ → Prop) : σ → List ι → Prop
  | s, [] => P s
  | s, i :: is => P s ∧ ∀ t, step s i = some t → Always step P t is

/-- Every step of the run is taken in a state that meets the condition `c`. -/
def Meets (step : σ → ι → Option σ) (c : σ → ι → Prop) : σ → List ι → Prop
  | _, [] => True
  | s, i :: is => c s i ∧ ∀ t, step s i = some t → Meets step c t is

variable {step : σ → ι → Option σ} {Inv P : σ → Prop} {c : σ → ι → Prop}

theorem exec_cons {s u : σ} {i : ι} {is : List ι} (h : exec step s (i :: is) = some u) :
    ∃ t, step s i = some t ∧ exec step t is = some u := by
  cases ht : step s i with
  | none => simp [exec, ht] at h
  | some t => exact ⟨t, rfl, by simpa [exec, ht] using h⟩

theorem exec_step {s t : σ} {i : ι} {is : List ι} (h : step s i = some t) :
    exec step s (i :: is) = exec step t is := by
  rw [exec, h]

/-- A run cut in two. -/
theorem exec_append {s t : σ} {is : List ι} (js : List ι) (h : exec step s is = some t) :
    exec step s (is ++ js) = exec step t js := by
  induction is generalizing s with
  | nil =>
    cases h
    rfl
  | cons i is ih =>
    obtain ⟨u, hu, hrest⟩ := exec_cons h
    rw [List.cons_append, exec_step hu]
    exact ih hrest

theorem always_head {s : σ} {is : List ι} (h : Always step P s is) : P s := by
  cases is with
  | nil => exact h
  | cons i is => exact h.1

/-- The last state of a run satisfies what every state of it satisfies. -/
theorem always_last {s u : σ} {is : List ι} (h : Always step P s is)
    (hrun : exec step s is = some u) : P u := by
  induction is generalizing s with
  | nil =>
    cases hrun
    exact h
  | cons i is ih =>
    obtain ⟨t, ht, hrest⟩ := exec_cons hrun
    exact ih (h.2 t ht) hrest

/-- **The invariant rule.**  A property preserved by every step that meets the condition holds
all along a run whose steps meet it. -/
theorem always_of_meets (hstep : ∀ s i t, Inv s → c s i → step s i = some t → Inv t) {s : σ}
    {is : List ι} (h0 : Inv s) (h : Meets step c s is) : Always step Inv s is := by
  induction is generalizing s with
  | nil => exact h0
  | cons i is ih => exact ⟨h0, fun t ht => ih (hstep s i t h0 h.1 ht) (h.2 t ht)⟩

/-- Along a run that meets the condition every step is also taken in a state with the invariant. -/
theorem meets_with_invariant (hstep : ∀ s i t, Inv s → c s i → step s i = some t → Inv t) {s : σ}
    {is : List ι} (h0 : Inv s) (h : Meets step c s is) :
    Meets step (fun s i => Inv s ∧ c s i) s is := by
  induction is generalizing s with
  | nil => trivial
  | cons i is ih => exact ⟨⟨h0, h.1⟩, fun t ht => ih (hstep s i t h0 h.1 ht) (h.2 t ht)⟩

/-- A condition on the labels alone. -/
theorem meets_of_forall {d : ι → Prop} {s : σ} {is : List ι} (h : ∀ i ∈ is, d i) :
    Meets step (fun _ i => d i) s is := by
  induction is generalizing s with
  | nil => trivial
  | cons i is ih =>
    exact ⟨h i List.mem_cons_self, fun t _ => ih fun j hj => h j (List.mem_cons_of_mem _ hj)⟩

/-- **The invariant rule without a condition**, for the last state of a run. -/
theorem invariant_of_exec (hstep : ∀ s i t, Inv s → step s i = some t → Inv t) {s t : σ}
    {is : List ι} (h0 : Inv s) (h : exec step s is = some t) : Inv t := by
  have hmeets : Meets step (fun _ _ => True) s is :=
    meets_of_forall (d := fun _ => True) fun _ _ => trivial
  exact always_last (always_of_meets (fun s i t hs _ => hstep s i t hs) h0 hmeets) h

theorem Always.imp {Q : σ → Prop} (h : ∀ s, P s → Q s) :
    ∀ {s : σ} {is : List ι}, Always step P s is → Always step Q s is
  | _, [], hs => h _ hs
  | _, _ :: _, hs => ⟨h _ hs.1, fun t ht => Always.imp h (hs.2 t ht)⟩

theorem Meets.imp {d : σ → ι → Prop} (h : ∀ s i, c s i → d s i) :
    ∀ {s : σ} {is : List ι}, Meets step c s is → Meets step d s is
  | _, [], _ => trivial
  | _, _ :: _, hs => ⟨h _ _ hs.1, fun t ht => Meets.imp h (hs.2 t ht)⟩

theorem Meets.and {d : σ → ι → Prop} :
    ∀ {s : σ} {is : List ι}, Meets step c s is → Meets step d s is →
      Meets step (fun s i => c s i ∧ d s i) s is
  | _, [], _, _ => trivial
  | _, _ :: _, hc, hd => ⟨⟨hc.1, hd.1⟩, fun t ht => (hc.2 t ht).and (hd.2 t ht)⟩

/-- **The condition is exact.**  If steps that meet `c` preserve the invariant, the invariant gives
the property, and a step that misses `c` destroys it, then the runs along which the property always
holds are exactly those whose steps all meet `c`. -/
theorem always_iff_meets (hpres : ∀ s i t, Inv s → c s i → step s i = some t → Inv t)
    (hprop : ∀ s, Inv s → P s) (hbreak : ∀ s i t, Inv s → ¬ c s i → step s i = some t → ¬ P t)
    {s u : σ} {is : List ι} (h0 : Inv s) (hrun : exec step s is = some u) :
    Always step P s is ↔ Meets step c s is := by
  constructor
  · intro h
    induction is generalizing s with
    | nil => trivial
    | cons i is ih =>
      obtain ⟨t, ht, hrest⟩ := exec_cons hrun
      have hc : c s i := by
        by_contra hn
        exact hbreak s i t h0 hn ht (always_head (h.2 t ht))
      refine ⟨hc, fun t' ht' => ?_⟩
      obtain rfl : t = t' := Option.some.inj (ht.symm.trans ht')
      exact ih (hpres s i t h0 hc ht) hrest (h.2 t ht)
  · intro h
    exact Always.imp hprop (always_of_meets hpres h0 h)

/-- A machine that can always move where the condition is met runs to the end of its labels. -/
theorem exec_of_meets (hstep : ∀ s i, Inv s → c s i → ∃ t, step s i = some t ∧ Inv t) {s : σ}
    {is : List ι} (h0 : Inv s) (h : Meets step c s is) : ∃ u, exec step s is = some u := by
  induction is generalizing s with
  | nil => exact ⟨s, rfl⟩
  | cons i is ih =>
    obtain ⟨t, ht, hinv⟩ := hstep s i h0 h.1
    obtain ⟨u, hu⟩ := ih hinv (h.2 t ht)
    exact ⟨u, by simpa [exec, ht] using hu⟩

/-- **The invariant rule for machines that always move.**  Where the condition is met the machine
moves and keeps the invariant; so it runs to the end of its labels, with the invariant throughout. -/
theorem run_of_meets (hstep : ∀ s i, Inv s → c s i → ∃ t, step s i = some t ∧ Inv t) {s : σ}
    {is : List ι} (h0 : Inv s) (h : Meets step c s is) :
    (∃ u, exec step s is = some u) ∧ Always step Inv s is := by
  refine ⟨exec_of_meets hstep h0 h, always_of_meets (fun s i t hs hc ht => ?_) h0 h⟩
  obtain ⟨t', ht', hinv⟩ := hstep s i hs hc
  obtain rfl : t' = t := Option.some.inj (ht'.symm.trans ht)
  exact hinv

/-- **The invariant rule for machines that never stop.** -/
theorem run_of_total (hstep : ∀ s i, Inv s → ∃ t, step s i = some t ∧ Inv t) {s : σ} {is : List ι}
    (h0 : Inv s) : (∃ u, exec step s is = some u) ∧ Always step Inv s is := by
  have hmeets : ∀ (s : σ) (is : List ι), Meets step (fun _ _ => True) s is := by
    intro s is
    induction is generalizing s with
    | nil => trivial
    | cons i is ih => exact ⟨trivial, fun t _ => ih t⟩
  exact run_of_meets (fun s i hs _ => hstep s i hs) h0 (hmeets s is)

/-! ## Concrete runs -/

/-- The next state is the same whatever the label. -/
theorem always_forced {s t : σ} (hs : P s) (hstep : ∀ i, step s i = some t)
    (ht : ∀ is, Always step P t is) : ∀ is, Always step P s is
  | [] => hs
  | i :: is => ⟨hs, fun _ hu => Option.some.inj ((hstep i).symm.trans hu) ▸ ht is⟩

/-- There is no next state. -/
theorem always_stuck {s : σ} (hs : P s) (hstep : ∀ i, step s i = none) : ∀ is, Always step P s is
  | [] => hs
  | i :: _ => ⟨hs, fun _ hu => absurd ((hstep i).symm.trans hu) (Option.some_ne_none _).symm⟩

/-- Whether a property holds all along a concrete run can be computed. -/
instance decidableAlways [DecidablePred P] : ∀ (s : σ) (is : List ι), Decidable (Always step P s is)
  | s, [] => inferInstanceAs (Decidable (P s))
  | s, i :: is =>
    match h : step s i with
    | none => decidable_of_iff (P s) (by simp [Always, h])
    | some t =>
      have := decidableAlways t is
      decidable_of_iff (P s ∧ Always step P t is) (by simp [Always, h])

instance decidableMeets [∀ s i, Decidable (c s i)] :
    ∀ (s : σ) (is : List ι), Decidable (Meets step c s is)
  | _, [] => isTrue trivial
  | s, i :: is =>
    match h : step s i with
    | none => decidable_of_iff (c s i) (by simp [Meets, h])
    | some t =>
      have := decidableMeets t is
      decidable_of_iff (c s i ∧ Meets step c t is) (by simp [Meets, h])

end HeavenFox.Logic
