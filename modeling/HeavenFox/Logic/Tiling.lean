/-
# HeavenFox.Logic.Tiling -- a request cut into pieces

A request moves `count` cells: cell `j` lies at `place + j` of a device and at `source + unit * j` of
a buffer.  A transfer cuts it into pieces of the same kind.  The pieces tile the request if one after
the other they move its cells in order, and cover it if they move each of its cells once in any
order.  Tilings are built up from the front (`Tiles.cons`) or by pieces of one size
(`tiles_pieces`).
-/
import Mathlib.Algebra.GroupWithZero.Nat
import Mathlib.Data.List.Perm.Basic
import Mathlib.Data.List.Perm.Subperm

namespace HeavenFox.Logic

/-! ## Pieces and their cells -/

/-- A run of cells of a device and where they lie in the buffer. -/
structure Piece where
  place : Nat
  source : Nat
  count : Nat
  deriving DecidableEq, Repr

/-- The cells of a piece, with `unit` steps of the buffer for each. -/
def Piece.cells (unit : Nat) (p : Piece) : List (Nat × Nat) :=
  (List.range p.count).map fun j => (p.place + j, p.source + unit * j)

@[simp] theorem length_cells {unit : Nat} {p : Piece} : (p.cells unit).length = p.count := by
  rw [Piece.cells, List.length_map, List.length_range]

theorem mem_cells {unit : Nat} {p : Piece} {c : Nat × Nat} :
    c ∈ p.cells unit ↔ ∃ j < p.count, c = (p.place + j, p.source + unit * j) := by
  simp only [Piece.cells, List.mem_map, List.mem_range, eq_comm]

theorem cells_split (unit a b m n : Nat) :
    (Piece.mk a b (m + n)).cells unit =
      (Piece.mk a b m).cells unit ++ (Piece.mk (a + m) (b + unit * m) n).cells unit := by
  simp only [Piece.cells, List.range_add, List.map_append, List.map_map]
  congr 1
  apply List.map_congr_left
  intro j _
  simp only [Function.comp_apply, Nat.mul_add, Nat.add_assoc]

/-! ## Tilings and covers -/

/-- One after the other, the pieces move the cells of the request in order. -/
def Tiles (unit : Nat) (ps : List Piece) (request : Piece) : Prop :=
  ps.flatMap (Piece.cells unit) = request.cells unit

/-- The pieces move each cell of the request once. -/
def Covers (unit : Nat) (ps : List Piece) (request : Piece) : Prop :=
  (ps.flatMap (Piece.cells unit)).Perm (request.cells unit)

section Tilings

variable {unit a b m n : Nat} {ps : List Piece} {request : Piece}

theorem Tiles.covers (h : Tiles unit ps request) : Covers unit ps request := List.Perm.of_eq h

theorem tiles_nil : Tiles unit [] ⟨a, b, 0⟩ := rfl

theorem tiles_one : Tiles unit [request] request := by
  rw [Tiles, List.flatMap_cons, List.flatMap_nil, List.append_nil]

theorem Tiles.cons (h : Tiles unit ps ⟨a + m, b + unit * m, n⟩) :
    Tiles unit (⟨a, b, m⟩ :: ps) ⟨a, b, m + n⟩ := by
  rw [Tiles] at h
  rw [Tiles, List.flatMap_cons, h, cells_split]

theorem Tiles.append {qs : List Piece} (h : Tiles unit ps ⟨a, b, m⟩)
    (h' : Tiles unit qs ⟨a + m, b + unit * m, n⟩) : Tiles unit (ps ++ qs) ⟨a, b, m + n⟩ := by
  rw [Tiles] at h h'
  rw [Tiles, List.flatMap_append, h, h', cells_split]

/-- `k` pieces of one size tile a request of `k` times the size. -/
theorem tiles_pieces (unit a b size k : Nat) :
    Tiles unit ((List.range k).map fun i => ⟨a + size * i, b + unit * (size * i), size⟩)
      ⟨a, b, size * k⟩ := by
  induction k with
  | zero => exact tiles_nil
  | succ k ih =>
    rw [List.range_succ, List.map_append, Nat.mul_succ]
    exact ih.append tiles_one

/-- The cells that are moved are those of the request. -/
theorem Covers.mem_iff (h : Covers unit ps request) {c : Nat × Nat} :
    (∃ p ∈ ps, c ∈ p.cells unit) ↔ c ∈ request.cells unit := by
  rw [← List.mem_flatMap]
  exact List.Perm.mem_iff h

/-- The pieces have as many cells as the request. -/
theorem Covers.sum_counts (h : Covers unit ps request) :
    (ps.map Piece.count).sum = request.count := by
  have hlen := h.length_eq
  rw [List.length_flatMap, length_cells] at hlen
  rw [← hlen]
  congr 1
  exact List.map_congr_left fun p _ => length_cells.symm

end Tilings

end HeavenFox.Logic
