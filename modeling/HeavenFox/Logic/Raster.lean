/-
# HeavenFox.Logic.Raster -- pictures in a row-major buffer

A picture of `w` columns lies in a buffer one row after the other.  Writes to the buffer are a list
of cells with their values, and painting carries them out in order.  A cell that no write names
keeps its value (`paint_of_notMem`), and one whose writes all agree gets theirs (`paint_of_mem`).
With columns inside the width, cells and points are the same (`rowMajor_inj`), so a block of points
that is written row by row holds its values afterwards and nothing else changes (`paint_block`,
`paint_block_outside`).
-/
import Mathlib.Data.Int.GCD
import Mathlib.Data.List.Basic
import Mathlib.Data.Nat.ModEq
import Mathlib.Logic.Function.Basic

namespace HeavenFox.Logic

/-! ## Points and cells -/

/-- The cell of a point. -/
def rowMajor (w x y : Nat) : Nat := y * w + x

theorem rowMajor_add (w x y k : Nat) : rowMajor w x y + k = rowMajor w (x + k) y :=
  Nat.add_assoc _ _ _

theorem rowMajor_lt {w h x y : Nat} (hx : x < w) (hy : y < h) : rowMajor w x y < w * h := by
  have hrow : (y + 1) * w ≤ h * w := Nat.mul_le_mul_right w hy
  rw [Nat.succ_mul] at hrow
  rw [rowMajor, Nat.mul_comm w h]
  omega

theorem rowMajor_mod {w x : Nat} (hx : x < w) (y : Nat) : rowMajor w x y % w = x := by
  rw [rowMajor, Nat.mul_comm, Nat.mul_add_mod, Nat.mod_eq_of_lt hx]

theorem rowMajor_div {w x : Nat} (hx : x < w) (y : Nat) : rowMajor w x y / w = y := by
  rw [rowMajor, Nat.mul_comm, Nat.mul_add_div (Nat.zero_lt_of_lt hx), Nat.div_eq_of_lt hx,
    Nat.add_zero]

/-- A cell belongs to one point. -/
theorem rowMajor_inj {w x y x' y' : Nat} (hx : x < w) (hx' : x' < w)
    (h : rowMajor w x y = rowMajor w x' y') : x = x' ∧ y = y' := by
  constructor
  · calc
      x = rowMajor w x y % w := (rowMajor_mod hx y).symm
      _ = rowMajor w x' y' % w := by rw [h]
      _ = x' := rowMajor_mod hx' y'
  · calc
      y = rowMajor w x y / w := (rowMajor_div hx y).symm
      _ = rowMajor w x' y' / w := by rw [h]
      _ = y' := rowMajor_div hx' y'

/-- Rows that go on for all numbers below `m` leave the picture, also where cells are counted
modulo `m`. -/
theorem exists_row_outside {w h m : Nat} (hw : 0 < w) (hh : 0 < h) (hm : w * h < m) (x : Nat) :
    ∃ y < m, w * h ≤ rowMajor w x y % m := by
  have hwm : w < m := Nat.lt_of_le_of_lt (Nat.le_mul_of_pos_right w hh) hm
  have hgle : Nat.gcd w m ≤ w := Nat.gcd_le_left m hw
  have hgw : Nat.gcd w m ∣ w := Nat.gcd_dvd_left w m
  have hgm : Nat.gcd w m ∣ m := Nat.gcd_dvd_right w m
  generalize hg : Nat.gcd w m = g at hgle hgw hgm
  have hgpos : 0 < g := hg ▸ Nat.gcd_pos_of_pos_left m hw
  obtain ⟨k, -, hk⟩ := Nat.exists_mul_mod_eq_gcd (n := w) (k := m) (by omega)
  rw [hg] at hk
  -- The cell outside that the rows come by: the first one that differs from `x` by multiples of `g`.
  have hroom : w * h + g ≤ m := by
    obtain ⟨q, hq⟩ := hgm
    obtain ⟨p, hp⟩ := hgw
    rw [hq, hp, Nat.mul_assoc] at hm ⊢
    have hlt := Nat.lt_of_mul_lt_mul_left hm
    calc
      g * (p * h) + g = g * (p * h + 1) := (Nat.mul_succ _ _).symm
      _ ≤ g * q := Nat.mul_le_mul_left g hlt
  have hcell : w * h + x % g < m := by
    have hlt := Nat.mod_lt x hgpos
    omega
  have hx : x ≤ m * x := Nat.le_mul_of_pos_left x (by omega)
  have hdvd : g ∣ w * h + x % g + m * x - x := by
    have hmod := Nat.div_add_mod x g
    have heq : w * h + x % g + m * x - x = w * h + m * x - g * (x / g) := by omega
    rw [heq]
    exact Nat.dvd_sub (Nat.dvd_add (hgw.mul_right h) (hgm.mul_right x)) (Nat.dvd_mul_right g _)
  obtain ⟨q, hq⟩ := hdvd
  refine ⟨k * q % m, Nat.mod_lt _ (by omega), ?_⟩
  have hstep : w * k ≡ g [MOD m] := hk.trans (Nat.mod_eq_of_lt (by omega)).symm
  have hrows : k * q % m * w ≡ g * q [MOD m] := by
    calc
      k * q % m * w ≡ k * q * w [MOD m] := (Nat.mod_modEq _ m).mul_right w
      _ = w * k * q := by rw [Nat.mul_right_comm, Nat.mul_comm k w]
      _ ≡ g * q [MOD m] := hstep.mul_right q
  have hy : rowMajor w x (k * q % m) % m = w * h + x % g := by
    calc
      rowMajor w x (k * q % m) % m = (g * q + x) % m := hrows.add_right x
      _ = (w * h + x % g + m * x) % m := by rw [← hq, Nat.sub_add_cancel (by omega)]
      _ = w * h + x % g := by rw [Nat.add_mul_mod_self_left, Nat.mod_eq_of_lt hcell]
  rw [hy]
  exact Nat.le_add_right _ _

/-! ## Painting -/

section Painting

variable {α : Type} {frame : Nat → α} {i : Nat}

/-- The buffer after all writes. -/
def paint (frame : Nat → α) (writes : List (Nat × α)) : Nat → α :=
  writes.foldl (fun f w => Function.update f w.1 w.2) frame

theorem paint_of_notMem (ws : List (Nat × α)) (h : ∀ w ∈ ws, w.1 ≠ i) :
    paint frame ws i = frame i := by
  induction ws generalizing frame with
  | nil => rfl
  | cons w ws ih =>
    have hrest : paint (Function.update frame w.1 w.2) ws i = Function.update frame w.1 w.2 i :=
      ih fun w' hw' => h w' (List.mem_cons_of_mem w hw')
    rw [paint, List.foldl_cons]
    refine hrest.trans (Function.update_of_ne ?_ _ _)
    exact (h w List.mem_cons_self).symm

/-- Writes that agree about a cell leave their value there. -/
theorem paint_of_mem {v : α} (ws : List (Nat × α)) (hmem : ∃ w ∈ ws, w.1 = i)
    (hagree : ∀ w ∈ ws, w.1 = i → w.2 = v) : paint frame ws i = v := by
  induction ws generalizing frame with
  | nil =>
    obtain ⟨w, hw, -⟩ := hmem
    exact absurd hw List.not_mem_nil
  | cons w ws ih =>
    have hagree' : ∀ w' ∈ ws, w'.1 = i → w'.2 = v :=
      fun w' hw' => hagree w' (List.mem_cons_of_mem w hw')
    rw [paint, List.foldl_cons]
    by_cases hlater : ∃ w' ∈ ws, w'.1 = i
    · exact ih hlater hagree'
    · -- no later write names the cell, so the first one does
      have hnone : ∀ w' ∈ ws, w'.1 ≠ i := fun w' hw' heq => hlater ⟨w', hw', heq⟩
      refine (paint_of_notMem ws hnone).trans ?_
      obtain ⟨w', hw', heq⟩ := hmem
      rcases List.mem_cons.mp hw' with rfl | hw'
      · rw [← heq, Function.update_self]
        exact hagree w' List.mem_cons_self heq
      · exact absurd heq (hnone w' hw')

end Painting

/-! ## Blocks -/

section Blocks

variable {α : Type} {w h x y cols rows : Nat} {order : Nat → Nat} {value : Nat → Nat → α}

/-- The writes of a block of points, one row of writes after the other; the `r`-th of them goes to
the row that is `order r` below the upper edge. -/
def block (w x y cols rows : Nat) (order : Nat → Nat) (value : Nat → Nat → α) : List (Nat × α) :=
  (List.range rows).flatMap fun r => (List.range cols).map fun c =>
    (rowMajor w (x + c) (y + order r), value r c)

theorem mem_block {p : Nat × α} :
    p ∈ block w x y cols rows order value ↔
      ∃ r < rows, ∃ c < cols, (rowMajor w (x + c) (y + order r), value r c) = p := by
  simp only [block, List.mem_flatMap, List.mem_map, List.mem_range]

/-- A block inside the picture has its cells there. -/
theorem block_inside (hx : x + cols ≤ w) (hy : y + rows ≤ h) (horder : ∀ r < rows, order r < rows) :
    ∀ p ∈ block w x y cols rows order value, p.1 < w * h := by
  intro p hp
  obtain ⟨r, hr, c, hc, rfl⟩ := mem_block.mp hp
  have hrow := horder r hr
  exact rowMajor_lt (by omega) (by omega)

/-- Each point of the block gets its value, if no row is written twice. -/
theorem paint_block (hx : x + cols ≤ w)
    (hinj : ∀ r < rows, ∀ r' < rows, order r = order r' → r = r') (frame : Nat → α) {r c : Nat}
    (hr : r < rows) (hc : c < cols) :
    paint frame (block w x y cols rows order value) (rowMajor w (x + c) (y + order r)) =
      value r c := by
  apply paint_of_mem
  · exact ⟨_, mem_block.mpr ⟨r, hr, c, hc, rfl⟩, rfl⟩
  · intro p hp heq
    obtain ⟨r', hr', c', hc', rfl⟩ := mem_block.mp hp
    obtain ⟨hcol, hrow⟩ := rowMajor_inj (by omega) (by omega) heq
    have hreq : r' = r := hinj r' hr' r hr (Nat.add_left_cancel hrow)
    have hceq : c' = c := Nat.add_left_cancel hcol
    rw [hreq, hceq]

/-- The points around the block keep theirs. -/
theorem paint_block_outside (hx : x + cols ≤ w) (horder : ∀ r < rows, order r < rows)
    (frame : Nat → α) {i j : Nat} (hi : i < w)
    (hout : ¬ (x ≤ i ∧ i < x + cols ∧ y ≤ j ∧ j < y + rows)) :
    paint frame (block w x y cols rows order value) (rowMajor w i j) = frame (rowMajor w i j) := by
  apply paint_of_notMem
  intro p hp heq
  obtain ⟨r, hr, c, hc, rfl⟩ := mem_block.mp hp
  obtain ⟨hcol, hrow⟩ := rowMajor_inj (by omega) hi heq
  have hlt := horder r hr
  omega

end Blocks

end HeavenFox.Logic
