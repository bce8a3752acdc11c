/-
# HeavenFox.Kernel.Workqueue -- the queue of deferred work, access by access

`workqueue.h`: `schedule_work` looks for an item on one global queue and links it
at the end unless it finds it there.  Nothing keeps interrupts or other threads out
meanwhile, so a call is given as the sequence of its accesses to the link fields, in
the order of `list_head_for_each` and `list_head_add_tail`, one access a step.

A call that goes on without others in between does what the functions of
`list_types.h` do in one piece (`call_reaches`).
-/
import HeavenFox.Common.ListTypes
import Mathlib.Logic.Relation

namespace HeavenFox.Kernel

open HeavenFox.Common HeavenFox.Logic

/-! ## The queue -/

/-- What has a `struct list_head`: the head `sgrt_kworker_wqh` and every `struct workqueue`. -/
inductive WorkNode where
  | sgrtKworkerWqh
  | work (w : ObjPtr)
  deriving DecidableEq, Repr

/-- `queue_work` on `sgrt_kworker_wqh`, in one piece: an item that is found on the queue is left where
it is. -/
def queueWork (rounds : Nat) (l : Links WorkNode) (sprtWq : Option ObjPtr) :
    Except Stop (Links WorkNode) :=
  match sprtWq with
  | none => .ok l
  | some w => do
    let retval ← listHeadForEach rounds l .sgrtKworkerWqh (.work w)
    if retval = 0 then pure l
    else pure (listHeadAddTail l .sgrtKworkerWqh (.work w))

/-- `detach_work`, in one piece. -/
def detachWork (l : Links WorkNode) (w : ObjPtr) : Links WorkNode := listHeadDel l (.work w)

/-- `is_workqueue_empty`, in one piece. -/
def isWorkqueueEmpty (l : Links WorkNode) : Bool := mrtListHeadEmpty l .sgrtKworkerWqh

/-! ## A call, access by access -/

/-- Where a call of `schedule_work` is.  `list_head_for_each` keeps two cursors, `list_head_add_tail`
the last item. -/
inductive QueuePc where
  /-- before `ptr_right` is read from the head -/
  | right
  /-- before `ptr_left` is read from the head -/
  | left (ptrRight : WorkNode)
  /-- before the loop condition and the loop body -/
  | test (ptrRight ptrLeft : WorkNode)
  /-- before `ptr_right` moves on -/
  | nextRight (ptrRight ptrLeft : WorkNode)
  /-- before `ptr_left` moves on -/
  | nextLeft (ptrRight ptrLeft : WorkNode)
  /-- before `ptr_prev` is read from the head -/
  | tail
  /-- before `sprt_list->sprt_prev` is written -/
  | setPrev (ptrPrev : WorkNode)
  /-- before `ptr_prev->sprt_next` is written -/
  | setBack (ptrPrev : WorkNode)
  /-- before `sprt_list->sprt_next` is written -/
  | setNext
  /-- before `sprt_head->sprt_prev` is written -/
  | setHead
  deriving DecidableEq, Repr

/-- The next access of a call for the item `w`; with no place to go on from, the call is over. -/
def queueNext (l : Links WorkNode) (w : ObjPtr) : QueuePc → Links WorkNode × Option QueuePc
  | .right => (l, some (.left (l.next .sgrtKworkerWqh)))
  | .left ptrRight => (l, some (.test ptrRight (l.prev .sgrtKworkerWqh)))
  | .test ptrRight ptrLeft =>
    if ptrRight ≠ .sgrtKworkerWqh ∧ ptrLeft ≠ .sgrtKworkerWqh then
      if ptrLeft = .work w ∨ ptrRight = .work w then (l, none)
      else if ptrLeft = ptrRight then (l, some .tail)
      else (l, some (.nextRight ptrRight ptrLeft))
    else (l, some .tail)
  | .nextRight ptrRight ptrLeft => (l, some (.nextLeft (l.next ptrRight) ptrLeft))
  | .nextLeft ptrRight ptrLeft => (l, some (.test ptrRight (l.prev ptrLeft)))
  | .tail => (l, some (.setPrev (l.prev .sgrtKworkerWqh)))
  | .setPrev ptrPrev => (l.setPrev (.work w) ptrPrev, some (.setBack ptrPrev))
  | .setBack ptrPrev => (l.setNext ptrPrev (.work w), some .setNext)
  | .setNext => (l.setNext (.work w) .sgrtKworkerWqh, some .setHead)
  | .setHead => (l.setPrev .sgrtKworkerWqh (.work w), none)

/-- The access with which the call ends: the item is found, or the last link is written. -/
def QueuePc.Last (w : ObjPtr) : QueuePc → Prop
  | .test ptrRight ptrLeft => (ptrRight ≠ .sgrtKworkerWqh ∧ ptrLeft ≠ .sgrtKworkerWqh) ∧
      (ptrLeft = .work w ∨ ptrRight = .work w)
  | .setHead => True
  | _ => False

instance (w : ObjPtr) : ∀ pc : QueuePc, Decidable (pc.Last w)
  | .test ptrRight ptrLeft => inferInstanceAs (Decidable
      ((ptrRight ≠ .sgrtKworkerWqh ∧ ptrLeft ≠ .sgrtKworkerWqh) ∧
        (ptrLeft = .work w ∨ ptrRight = .work w)))
  | .setHead => isTrue trivial
  | .right | .left _ | .nextRight _ _ | .nextLeft _ _ | .tail | .setPrev _ | .setBack _
  | .setNext => isFalse id

/-- These are the accesses after which a call is over. -/
theorem queueNext_over (l : Links WorkNode) (w : ObjPtr) (pc : QueuePc) :
    (queueNext l w pc).2 = none ↔ pc.Last w := by
  cases pc with
  | test ptrRight ptrLeft =>
    unfold QueuePc.Last
    rw [queueNext]
    split_ifs with hheads hfound
    · exact iff_of_true rfl ⟨hheads, hfound⟩
    · exact iff_of_false (by simp) fun h => hfound h.2
    · exact iff_of_false (by simp) fun h => hfound h.2
    · exact iff_of_false (by simp) fun h => hheads h.1
  | _ => simp [queueNext, QueuePc.Last]

/-- A round of the scan writes nothing. -/
theorem queueNext_test_links (l : Links WorkNode) (w : ObjPtr) (ptrRight ptrLeft : WorkNode) :
    (queueNext l w (.test ptrRight ptrLeft)).1 = l := by
  rw [queueNext]
  split_ifs <;> rfl

/-! ## A call that goes on by itself -/

/-- One access after another, with no other party in between. -/
def queueStep (w : ObjPtr) :
    Links WorkNode × Option QueuePc → Links WorkNode × Option QueuePc
  | (l, none) => (l, none)
  | (l, some pc) => queueNext l w pc

/-- The call gets from here to there by itself. -/
def Reaches (w : ObjPtr) : (x y : Links WorkNode × Option QueuePc) → Prop :=
  Relation.ReflTransGen fun x y => queueStep w x = y

variable {l : Links WorkNode} {w : ObjPtr} {pc : QueuePc} {y : Links WorkNode × Option QueuePc}

theorem Reaches.next (h : Reaches w (queueNext l w pc) y) : Reaches w (l, some pc) y :=
  Relation.ReflTransGen.head rfl h

/-- The rounds of `list_head_for_each`. -/
theorem scan_reaches {n : Nat} {ptrRight ptrLeft : WorkNode} {retval : Int}
    (h : forEachLoop l .sgrtKworkerWqh (.work w) n ptrRight ptrLeft = .ok retval) :
    Reaches w (l, some (.test ptrRight ptrLeft)) (l, if retval = 0 then none else some .tail) := by
  induction n generalizing ptrRight ptrLeft with
  | zero => cases h
  | succ n ih =>
    rw [forEachLoop] at h
    refine Reaches.next ?_
    rw [queueNext]
    by_cases hheads : ptrRight ≠ .sgrtKworkerWqh ∧ ptrLeft ≠ .sgrtKworkerWqh
    · rw [if_pos hheads] at h ⊢
      by_cases hfound : ptrLeft = .work w ∨ ptrRight = .work w
      · rw [if_pos hfound] at h ⊢
        cases h
        exact .refl
      · rw [if_neg hfound] at h ⊢
        by_cases hmeet : ptrLeft = ptrRight
        · rw [if_pos hmeet] at h ⊢
          cases h
          exact .refl
        · rw [if_neg hmeet] at h ⊢
          -- both cursors move on, and the rest is the next round
          exact Reaches.next (Reaches.next (ih h))
    · rw [if_neg hheads] at h ⊢
      cases h
      exact .refl

/-- The accesses of `list_head_add_tail`. -/
theorem add_reaches :
    Reaches w (l, some .tail) (listHeadAddTail l .sgrtKworkerWqh (.work w), none) :=
  .next (.next (.next (.next (.next .refl))))

/-- **A call by itself** does what `queue_work` does in one piece, whenever that returns. -/
theorem call_reaches {rounds : Nat} {l' : Links WorkNode}
    (h : queueWork rounds l (some w) = .ok l') : Reaches w (l, some .right) (l', none) := by
  simp only [queueWork, bind, Except.bind] at h
  cases hscan : listHeadForEach rounds l .sgrtKworkerWqh (.work w) with
  | error e =>
    rw [hscan] at h
    cases h
  | ok retval =>
    simp only [hscan] at h
    have hreach : Reaches w (l, some .right) (l, if retval = 0 then none else some .tail) :=
      .next (.next (scan_reaches hscan))
    by_cases hfound : retval = 0
    · rw [if_pos hfound] at h hreach
      cases h
      exact hreach
    · rw [if_neg hfound] at h hreach
      cases h
      exact hreach.trans add_reaches

end HeavenFox.Kernel
