/-
# HeavenFox.Logic.Device -- a device that may fail, behind a buffer of one cell

A small library with nothing of the kernel in it.  A device holds a value in every cell and is
asked to read or to write some of them.  Any request may fail, and one that does leaves what it
likes: in the buffer of a read, in the cells of a write.

In front of the device stands a `Line`, a buffer for one cell that may be newer than the cell.
`Line.overlay` is what the two hold together.  Filling the line, writing it back and failing in
either leave it alone, and a change of the buffer changes it in one cell.
-/
import Mathlib.Logic.Function.Basic

namespace HeavenFox.Logic

variable {α β : Type*}

/-! ## The device -/

/-- Cells, and what the requests come to in their order: `none` is a request that works, and a
request that fails leaves the given values. -/
structure Device (α β : Type*) where
  cell : α → β
  fault : Nat → Option (α → β)
  asked : Nat

namespace Device

variable (d : Device α β)

/-- The next request works. -/
def works : Bool := (d.fault d.asked).isNone

/-- A read: what it puts into the buffer for each cell. -/
def answer : α → β := (d.fault d.asked).getD d.cell

/-- The device after a read. -/
def next : Device α β := { d with asked := d.asked + 1 }

/-- A write of the cells `p`. -/
def write (p : α → Bool) (b : α → β) : Device α β where
  cell a := if p a then (d.fault d.asked).getD b a else d.cell a
  fault := d.fault
  asked := d.asked + 1

/-- No request fails any more. -/
def Reliable : Prop := ∀ n, d.asked ≤ n → d.fault n = none

variable {d} {p : α → Bool} {b : α → β} {a : α}

theorem answer_of_works (h : d.works = true) : d.answer = d.cell := by
  rw [answer, Option.isNone_iff_eq_none.mp h]
  rfl

@[simp] theorem next_cell : d.next.cell = d.cell := rfl

theorem write_of_not (h : ¬ p a = true) : (d.write p b).cell a = d.cell a := if_neg h

theorem write_of_works (h : d.works = true) (ha : p a = true) : (d.write p b).cell a = b a := by
  show (if p a then (d.fault d.asked).getD b a else d.cell a) = b a
  rw [if_pos ha, Option.isNone_iff_eq_none.mp h]
  rfl

theorem Reliable.works (h : d.Reliable) : d.works = true := by
  rw [Device.works, h d.asked (Nat.le_refl _)]
  rfl

theorem Reliable.next (h : d.Reliable) : d.next.Reliable :=
  fun n hn => h n (Nat.le_of_succ_le hn)

theorem Reliable.write (h : d.Reliable) : (d.write p b).Reliable :=
  fun n hn => h n (Nat.le_of_succ_le hn)

end Device

/-! ## The line -/

/-- A buffer that stands for the cell `tag`. -/
structure Line (α β : Type*) where
  tag : α
  data : β
  dirty : Bool

namespace Line

variable [DecidableEq α] (l : Line α β) (cell : α → β)

/-- What the cells hold with the line in front of them. -/
def overlay : α → β := Function.update cell l.tag l.data

/-- A line that has not been changed holds what its cell holds. -/
def Clean : Prop := l.dirty = false → cell l.tag = l.data

variable {l cell} {cell' : α → β} {a : α} {b : β}

@[simp] theorem overlay_tag : l.overlay cell l.tag = l.data := Function.update_self _ _ _

theorem overlay_of_ne (h : a ≠ l.tag) : l.overlay cell a = cell a := Function.update_of_ne h _ _

/-- What becomes of the line's own cell is not seen. -/
theorem overlay_congr (h : a ≠ l.tag → cell' a = cell a) : l.overlay cell' a = l.overlay cell a := by
  by_cases ha : a = l.tag
  · rw [ha, overlay_tag, overlay_tag]
  · rw [overlay_of_ne ha, overlay_of_ne ha, h ha]

/-- A change of the buffer is a change of one cell. -/
theorem overlay_set (dirty : Bool) :
    (Line.mk l.tag b dirty).overlay cell = Function.update (l.overlay cell) l.tag b := by
  rw [overlay, overlay, Function.update_idem]

end Line

end HeavenFox.Logic
