/-
# HeavenFox.Kernel.WorkqueueRuns -- the thread that does the deferred work

`kworker.c`: the kworker thread goes through the queue, runs the function of each
item and takes the item off afterwards.  The machine interleaves its accesses to the
links with those of any number of calls of `schedule_work`, from threads, interrupt
handlers and the work functions themselves; running a function is a begin and an end.

Two things lose a request.  One for an item whose function is already running finds
the item linked and returns, and the kworker then takes the item off.  And since
nothing keeps the parties apart, a link may be written between another party's
accesses.  `no_lost_work` says that nothing else loses a request.
-/
import HeavenFox.Kernel.Workqueue
import HeavenFox.Logic.Run
import Mathlib.Data.Fintype.Option

namespace HeavenFox.Kernel

open HeavenFox.Common HeavenFox.Logic

/-! ## The kworker loop -/

/-- Where `kworker_entry` is.  `foreach_workqueue_safe` keeps the item it is at and the one it goes
on to; `list_head_del` keeps the neighbours of the item it takes off. -/
inductive KworkerPc where
  /-- before `is_workqueue_empty` reads the head's `sprt_prev` -/
  | check
  /-- before it reads the head's `sprt_next` -/
  | checkNext
  /-- before `sprt_wq` is read from the head -/
  | first
  /-- before `sprt_temp` is read from `sprt_wq` -/
  | second (sprtWq : WorkNode)
  /-- before the loop condition -/
  | test (sprtWq sprtTemp : WorkNode)
  /-- before the call of `func` -/
  | call (sprtWq : ObjPtr) (sprtTemp : WorkNode)
  /-- inside `func` -/
  | running (sprtWq : ObjPtr) (sprtTemp : WorkNode)
  /-- before `detach_work` reads `ptr_prev` -/
  | detach (sprtWq : ObjPtr) (sprtTemp : WorkNode)
  /-- before it reads `ptr_next` -/
  | detachNext (sprtWq : ObjPtr) (sprtTemp ptrPrev : WorkNode)
  /-- before `ptr_prev->sprt_next` is written -/
  | detachWrite (sprtWq : ObjPtr) (sprtTemp ptrPrev ptrNext : WorkNode)
  /-- before `ptr_next->sprt_prev` is written -/
  | detachBack (sprtTemp ptrPrev ptrNext : WorkNode)
  /-- before the cursors move on -/
  | advance (sprtTemp : WorkNode)
  /-- inside `schedule_delay_ms` -/
  | delay
  deriving DecidableEq, Repr

/-- What the history records. -/
inductive WorkEvent where
  | requested (w : ObjPtr)
  | began (w : ObjPtr)
  deriving DecidableEq, Repr

/-- The links of the queue, the kworker, the calls of `schedule_work` that are under way, by caller,
and the history, the newest event first. -/
structure Kworker (ι : Type) where
  links : Links WorkNode
  pc : KworkerPc
  calls : ι → Option (ObjPtr × QueuePc)
  log : List WorkEvent

/-- Nothing is queued. -/
def Kworker.start (ι : Type) : Kworker ι where
  links := ⟨id, id⟩
  pc := .check
  calls := fun _ => none
  log := []

/-- A caller calls `schedule_work`, its call makes the next access, or the kworker makes its next
step. -/
inductive WorkMove (ι : Type) where
  | scheduleWork (c : ι) (sprtWq : Option ObjPtr)
  | caller (c : ι)
  | kworker
  deriving DecidableEq, Repr

section Step

variable {ι : Type}

/-- One step of the kworker; `func w` says whether the item has a function. -/
def kworkerNext (func : ObjPtr → Bool) (s : Kworker ι) : Kworker ι :=
  match s.pc with
  | .check =>
    { s with pc := if s.links.prev .sgrtKworkerWqh = .sgrtKworkerWqh then .checkNext else .first }
  | .checkNext =>
    { s with pc := if s.links.next .sgrtKworkerWqh = .sgrtKworkerWqh then .delay else .first }
  | .first => { s with pc := .second (s.links.next .sgrtKworkerWqh) }
  | .second sprtWq => { s with pc := .test sprtWq (s.links.next sprtWq) }
  | .test .sgrtKworkerWqh _ => { s with pc := .check }
  | .test (.work w) sprtTemp => { s with pc := .call w sprtTemp }
  | .call w sprtTemp =>
    if func w then { s with pc := .running w sprtTemp, log := .began w :: s.log }
    else { s with pc := .detach w sprtTemp }
  | .running w sprtTemp => { s with pc := .detach w sprtTemp }
  | .detach w sprtTemp => { s with pc := .detachNext w sprtTemp (s.links.prev (.work w)) }
  | .detachNext w sprtTemp ptrPrev =>
    { s with pc := .detachWrite w sprtTemp ptrPrev (s.links.next (.work w)) }
  | .detachWrite _ sprtTemp ptrPrev ptrNext =>
    { s with links := s.links.setNext ptrPrev ptrNext, pc := .detachBack sprtTemp ptrPrev ptrNext }
  | .detachBack sprtTemp ptrPrev ptrNext =>
    { s with links := s.links.setPrev ptrNext ptrPrev, pc := .advance sprtTemp }
  | .advance sprtTemp => { s with pc := .test sprtTemp (s.links.next sprtTemp) }
  | .delay => { s with pc := .check }

variable [DecidableEq ι]

/-- The next access of a call; the history gets the request when the call is over. -/
def callNext (s : Kworker ι) (c : ι) (w : ObjPtr) (pc : QueuePc) : Kworker ι :=
  let (links, next) := queueNext s.links w pc
  { s with
    links
    calls := Function.update s.calls c (next.map fun pc => (w, pc))
    log := if next.isNone then .requested w :: s.log else s.log }

/-- One step of the machine.  `schedule_work` with a null pointer returns at once. -/
def workStep (func : ObjPtr → Bool) (s : Kworker ι) : WorkMove ι → Option (Kworker ι)
  | .scheduleWork c sprtWq =>
    if (s.calls c).isSome then none
    else
      match sprtWq with
      | none => some s
      | some w => some { s with calls := Function.update s.calls c (some (w, .right)) }
  | .caller c =>
    match s.calls c with
    | none => none
    | some (w, pc) => some (callNext s c w pc)
  | .kworker => some (kworkerNext func s)

end Step

/-! ## The kworker by itself -/

section Alone

variable {ι : Type} {func : ObjPtr → Bool} {s : Kworker ι}

/-- The four accesses of `list_head_del` take the item off as `detach_work` does. -/
theorem detach_alone {w : ObjPtr} {sprtTemp : WorkNode} (h : s.pc = .detach w sprtTemp) :
    (kworkerNext func)^[4] s = { s with links := detachWork s.links w, pc := .advance sprtTemp } := by
  obtain ⟨links, pc, calls, log⟩ := s
  obtain rfl : pc = .detach w sprtTemp := h
  rfl

/-- The two reads of the head go the way `is_workqueue_empty` says. -/
theorem check_alone (h : s.pc = .check) :
    ∃ n, (kworkerNext func)^[n] s = { s with pc := if isWorkqueueEmpty s.links then .delay else .first } := by
  obtain ⟨links, pc, calls, log⟩ := s
  obtain rfl : pc = .check := h
  by_cases hprev : links.prev .sgrtKworkerWqh = .sgrtKworkerWqh
  · refine ⟨2, ?_⟩
    simp [kworkerNext, isWorkqueueEmpty, mrtListHeadEmpty, hprev]
  · refine ⟨1, ?_⟩
    simp [kworkerNext, isWorkqueueEmpty, mrtListHeadEmpty, hprev]

end Alone

/-! ## Who is in whose way -/

/-- What a step does to the links. -/
inductive Access where
  | none
  | read
  | write
  deriving DecidableEq

/-- Where a party is among its accesses: outside, past the first read of a call or of a removal, or
past its first write. -/
inductive Stage where
  | outside
  | reading
  | writing
  deriving DecidableEq

def QueuePc.access : QueuePc → Access
  | .test _ _ => .none
  | .right | .left _ | .nextRight _ _ | .nextLeft _ _ | .tail => .read
  | .setPrev _ | .setBack _ | .setNext | .setHead => .write

def QueuePc.stage : QueuePc → Stage
  | .right => .outside
  | .left _ | .test _ _ | .nextRight _ _ | .nextLeft _ _ | .tail | .setPrev _ => .reading
  | .setBack _ | .setNext | .setHead => .writing

def KworkerPc.access : KworkerPc → Access
  | .test _ _ | .call _ _ | .running _ _ | .delay => .none
  | .check | .checkNext | .first | .second _ | .advance _ | .detach _ _ | .detachNext _ _ _ => .read
  | .detachWrite _ _ _ _ | .detachBack _ _ _ => .write

def KworkerPc.stage : KworkerPc → Stage
  | .detachNext _ _ _ | .detachWrite _ _ _ _ => .reading
  | .detachBack _ _ _ => .writing
  | _ => .outside

/-- An access that another party at that stage allows: a read where it is not between its writes, a
write where it is not between its accesses. -/
def Access.Allowed : Access → Stage → Prop
  | .none, _ => True
  | .read, stage => stage ≠ .writing
  | .write, stage => stage = .outside

instance : ∀ (a : Access) (stage : Stage), Decidable (a.Allowed stage)
  | .none, _ => isTrue trivial
  | .read, stage => inferInstanceAs (Decidable (stage ≠ .writing))
  | .write, stage => inferInstanceAs (Decidable (stage = .outside))

/-- The kworker is past the begin of the item's function and has not taken the item off yet. -/
def KworkerPc.Busy (w : ObjPtr) : KworkerPc → Prop
  | .running v _ | .detach v _ | .detachNext v _ _ | .detachWrite v _ _ _ => v = w
  | _ => False

instance (w : ObjPtr) : ∀ pc : KworkerPc, Decidable (pc.Busy w)
  | .running v _ | .detach v _ | .detachNext v _ _ | .detachWrite v _ _ _ =>
    inferInstanceAs (Decidable (v = w))
  | .check | .checkNext | .first | .second _ | .test _ _ | .call _ _ | .detachBack _ _ _
  | .advance _ | .delay => isFalse id

section Conditions

variable {ι : Type}

/-- The stage a call is at, if there is one. -/
def callStage : Option (ObjPtr × QueuePc) → Stage
  | none => .outside
  | some (_, pc) => pc.stage

/-- The parties are the kworker, `none`, and the callers. -/
def Kworker.stage (s : Kworker ι) : Option ι → Stage
  | none => s.pc.stage
  | some c => callStage (s.calls c)

/-- The access a party makes next. -/
def Kworker.access (s : Kworker ι) : Option ι → Access
  | none => s.pc.access
  | some c =>
    match s.calls c with
    | none => .none
    | some (_, pc) => pc.access

/-- Every other party allows the next access of the party. -/
def Kworker.Unhindered (s : Kworker ι) (x : Option ι) : Prop :=
  ∀ y, y ≠ x → (s.access x).Allowed (s.stage y)

instance [Fintype ι] [DecidableEq ι] (s : Kworker ι) (x : Option ι) :
    Decidable (s.Unhindered x) :=
  inferInstanceAs (Decidable (∀ y, y ≠ x → (s.access x).Allowed (s.stage y)))

/-- A step that fits: no link is read between the writes of another party or written between its
accesses, and no call for an item with a function ends from the moment the function begins until the
kworker has taken the item off. -/
def WorkFits (func : ObjPtr → Bool) (s : Kworker ι) : WorkMove ι → Prop
  | .scheduleWork _ _ => True
  | .caller c => s.Unhindered (some c) ∧
      ∀ x ∈ s.calls c, x.2.Last x.1 → func x.1 = true → ¬ s.pc.Busy x.1
  | .kworker => s.Unhindered none

instance [Fintype ι] [DecidableEq ι] (func : ObjPtr → Bool) (s : Kworker ι) :
    ∀ move, Decidable (WorkFits func s move)
  | .scheduleWork _ _ => isTrue trivial
  | .caller c => inferInstanceAs (Decidable (s.Unhindered (some c) ∧
      ∀ x ∈ s.calls c, x.2.Last x.1 → func x.1 = true → ¬ s.pc.Busy x.1))
  | .kworker => inferInstanceAs (Decidable (s.Unhindered none))

/-! ## Requests that are not lost -/

/-- The item is linked on the queue: following `next` from the head meets it. -/
def OnQueue (s : Kworker ι) (w : ObjPtr) : Prop :=
  ∃ n, WorkNode.work w ∈ listMembers s.links .sgrtKworkerWqh n (s.links.next .sgrtKworkerWqh)

/-- Every request for an item with a function has been followed by a run of the function that began
after it, or the item is still linked. -/
def Served (func : ObjPtr → Bool) (s : Kworker ι) : Prop :=
  ∀ newer w older, s.log = newer ++ .requested w :: older → func w = true →
    .began w ∈ newer ∨ OnQueue s w

/-- Every call under way returns if it goes on by itself, where no other party is between its
writes. -/
def CallsReturn (s : Kworker ι) : Prop :=
  ∀ c w pc, s.calls c = some (w, pc) → (∀ y, y ≠ some c → s.stage y ≠ .writing) →
    ∃ l, Reaches w (s.links, some pc) (l, none)

end Conditions

/-- The history has a request for the item that no begin has followed. -/
def Waits : List WorkEvent → ObjPtr → Prop
  | [], _ => False
  | .requested v :: log, w => v = w ∨ Waits log w
  | .began v :: log, w => v ≠ w ∧ Waits log w

theorem waits_of_split {log newer older : List WorkEvent} {w : ObjPtr}
    (h : log = newer ++ .requested w :: older) (hnew : .began w ∉ newer) : Waits log w := by
  subst h
  induction newer with
  | nil => exact Or.inl rfl
  | cons e newer ih =>
    simp only [List.mem_cons, not_or] at hnew
    cases e with
    | requested v => exact Or.inr (ih hnew.2)
    | began v =>
      refine ⟨?_, ih hnew.2⟩
      rintro rfl
      exact hnew.1 rfl

/-! ## The invariant -/

/-- The two cursors will be told whether the item is queued. -/
def Scans (l : Links WorkNode) (q : List ObjPtr) (w : ObjPtr) (ptrRight ptrLeft : WorkNode) : Prop :=
  ∃ n retval, forEachLoop l .sgrtKworkerWqh (.work w) n ptrRight ptrLeft = .ok retval ∧
    (retval = erNormal ↔ w ∈ q)

/-- What a call has found out and done so far, `q` being the items that are queued.  The item counts
as queued from the write on that links it to the last one; the writes that remain close the ring. -/
def QueuePc.Good (l : Links WorkNode) (q : List ObjPtr) (w : ObjPtr) : QueuePc → Prop
  | .right => True
  | .left ptrRight => Scans l q w ptrRight (l.prev .sgrtKworkerWqh)
  | .test ptrRight ptrLeft => Scans l q w ptrRight ptrLeft
  | .nextRight ptrRight ptrLeft => Scans l q w (l.next ptrRight) (l.prev ptrLeft)
  | .nextLeft ptrRight ptrLeft => Scans l q w ptrRight (l.prev ptrLeft)
  | .tail => w ∉ q
  | .setPrev ptrPrev => w ∉ q ∧ ptrPrev = l.prev .sgrtKworkerWqh
  | .setBack ptrPrev => w ∉ q ∧ ptrPrev = l.prev .sgrtKworkerWqh ∧ l.prev (.work w) = ptrPrev ∧
      Ring l .sgrtKworkerWqh (q.map .work)
  | .setNext => (∃ before, q = before ++ [w]) ∧
      Ring ((l.setNext (.work w) .sgrtKworkerWqh).setPrev .sgrtKworkerWqh (.work w))
        .sgrtKworkerWqh (q.map .work)
  | .setHead => w ∈ q ∧ Ring (l.setPrev .sgrtKworkerWqh (.work w)) .sgrtKworkerWqh (q.map .work)

/-- The item a cursor has cached: none, or the first of the items `rest`. -/
def Cached (sprtTemp : WorkNode) (rest : List ObjPtr) : Prop :=
  sprtTemp = .sgrtKworkerWqh ∨ ∃ w more, rest = w :: more ∧ sprtTemp = .work w

/-- The kworker is at the first item of the queue. -/
def AtFirst (q : List ObjPtr) (w : ObjPtr) (sprtTemp : WorkNode) : Prop :=
  ∃ rest, q = w :: rest ∧ Cached sprtTemp rest

/-- Where the kworker is in the queue `q`: at its first item, or at none. -/
def KworkerPc.Good (l : Links WorkNode) (q : List ObjPtr) : KworkerPc → Prop
  | .check | .checkNext | .first | .delay => True
  | .second sprtWq => Cached sprtWq q
  | .test sprtWq sprtTemp => sprtWq = .sgrtKworkerWqh ∨ ∃ w, sprtWq = .work w ∧ AtFirst q w sprtTemp
  | .call w sprtTemp | .running w sprtTemp | .detach w sprtTemp => AtFirst q w sprtTemp
  | .detachNext w sprtTemp ptrPrev => AtFirst q w sprtTemp ∧ ptrPrev = l.prev (.work w)
  | .detachWrite w sprtTemp ptrPrev ptrNext =>
    AtFirst q w sprtTemp ∧ ptrPrev = l.prev (.work w) ∧ ptrNext = l.next (.work w)
  | .detachBack sprtTemp ptrPrev ptrNext =>
    Cached sprtTemp q ∧ Ring (l.setPrev ptrNext ptrPrev) .sgrtKworkerWqh (q.map .work)
  | .advance sprtTemp => Cached sprtTemp q

/-- The items `q` are queued: their ring is whole unless a party is between its writes, which is then
the only one between accesses; every party is where the queue says; and every item that waits is
queued and is not the one whose function has begun. -/
structure Queued {ι : Type} (func : ObjPtr → Bool) (s : Kworker ι) (q : List ObjPtr) : Prop where
  ring : (∀ x, s.stage x ≠ .writing) → Ring s.links .sgrtKworkerWqh (q.map .work)
  alone : ∀ x, s.stage x = .writing → ∀ y, y ≠ x → s.stage y = .outside
  place : s.pc.Good s.links q
  callers : ∀ c w pc, s.calls c = some (w, pc) → pc.Good s.links q w
  waits : ∀ w, func w = true → Waits s.log w → w ∈ q ∧ ¬ s.pc.Busy w

section Queue

variable {l l' : Links WorkNode} {q : List ObjPtr} {w : ObjPtr} {sprtTemp : WorkNode}
  {ptrRight ptrLeft : WorkNode}

/-! ### What is met on the queue -/

/-- A walk that agrees with a path on the way to a node meets the node. -/
theorem listMembers_reach {h x y : WorkNode} {pre : List WorkNode} (hp : l'.Path y pre x)
    (hnext : ∀ a ∈ y :: pre, l.next a = l'.next a) (hpre : h ∉ pre) (hx : x ≠ h) :
    x ∈ listMembers l h (pre.length + 1) (l.next y) := by
  induction pre generalizing y with
  | nil =>
    rw [hnext y List.mem_cons_self, show l'.next y = x from hp.1]
    simp [listMembers, hx]
  | cons z pre ih =>
    simp only [List.mem_cons, not_or] at hpre
    rw [hnext y List.mem_cons_self, show l'.next y = z from hp.1.1, List.length_cons, listMembers,
      if_neg (Ne.symm hpre.1)]
    exact List.mem_cons_of_mem _
      (ih hp.2 (fun a ha => hnext a (List.mem_cons_of_mem _ ha)) hpre.2)

/-- A member of a ring is met on the links as they are, if these lead the same way up to it. -/
theorem met_of_ring {pre post : List ObjPtr} (hq : q = pre ++ w :: post)
    (r : Ring l' .sgrtKworkerWqh (q.map .work))
    (hnext : ∀ a ∈ .sgrtKworkerWqh :: pre.map WorkNode.work, l.next a = l'.next a) :
    ∃ n, WorkNode.work w ∈ listMembers l .sgrtKworkerWqh n (l.next .sgrtKworkerWqh) := by
  have hpath := r.path
  rw [hq, List.map_append, List.map_cons, Links.path_append] at hpath
  exact ⟨_, listMembers_reach hpath.1 hnext (by simp) (by simp)⟩

/-- While the last item's own `sprt_next` is still to be written, every item is met all the same: up
to the last one the links lead the right way. -/
theorem met_of_appended {before : List ObjPtr} {v : ObjPtr} (hq : q = before ++ [v])
    (r : Ring ((l.setNext (.work v) .sgrtKworkerWqh).setPrev .sgrtKworkerWqh (.work v))
      .sgrtKworkerWqh (q.map .work)) (hw : w ∈ q) :
    ∃ n, WorkNode.work w ∈ listMembers l .sgrtKworkerWqh n (l.next .sgrtKworkerWqh) := by
  have hv : v ∉ before := by
    have hnodup : (before ++ [v]).Nodup := by
      rw [← hq]
      exact r.members_nodup.of_map
    exact fun hmem => (List.nodup_append.mp hnodup).2.2 v hmem v List.mem_cons_self rfl
  have hnext : ∀ pre : List ObjPtr, pre ⊆ before →
      ∀ a ∈ WorkNode.sgrtKworkerWqh :: pre.map .work, l.next a =
        ((l.setNext (.work v) .sgrtKworkerWqh).setPrev .sgrtKworkerWqh (.work v)).next a := by
    intro pre hpre a ha
    have hav : a ≠ .work v := by
      rintro rfl
      have hmem : v ∈ pre := by simpa using ha
      exact hv (hpre hmem)
    simp [hav]
  rcases List.mem_append.mp (hq ▸ hw) with hbefore | hlast
  · obtain ⟨pre, post, rfl⟩ := List.append_of_mem hbefore
    have hsplit : q = pre ++ w :: (post ++ [v]) := by simpa using hq
    exact met_of_ring hsplit r (hnext pre (List.subset_append_left _ _))
  · obtain rfl := List.mem_singleton.mp hlast
    exact met_of_ring hq r (hnext before (List.Subset.refl _))

/-! ### What the writes make of a ring -/

/-- An item that is not queued may change its own link. -/
theorem ring_setPrev_item (r : Ring l .sgrtKworkerWqh (q.map .work)) (hw : w ∉ q)
    (ptrPrev : WorkNode) : Ring (l.setPrev (.work w) ptrPrev) .sgrtKworkerWqh (q.map .work) := by
  refine r.congr (fun a _ => rfl) fun a ha => ?_
  have haw : a ≠ .work w := by
    rintro rfl
    exact hw (by simpa using ha)
  simp [haw]

/-- The last three writes of `list_head_add_tail`, for an item that has its `sprt_prev`. -/
theorem ring_addTail (r : Ring l .sgrtKworkerWqh (q.map .work)) (hw : w ∉ q)
    (hitem : l.prev (.work w) = l.prev .sgrtKworkerWqh) :
    Ring (((l.setNext (l.prev .sgrtKworkerWqh) (.work w)).setNext (.work w) .sgrtKworkerWqh).setPrev
      .sgrtKworkerWqh (.work w)) .sgrtKworkerWqh ((q ++ [w]).map .work) := by
  have hself : l.setPrev (.work w) (l.prev .sgrtKworkerWqh) = l := by
    rw [← hitem]
    simp [Links.setPrev]
  have hadd : ((l.setNext (l.prev .sgrtKworkerWqh) (.work w)).setNext (.work w)
      .sgrtKworkerWqh).setPrev .sgrtKworkerWqh (.work w) =
        listHeadAddTail l .sgrtKworkerWqh (.work w) := by
    rw [listHeadAddTail]
    simp only [hself]
  rw [hadd, listHeadAddTail_eq r, List.map_append, List.map_singleton]
  have r' : Ring l .sgrtKworkerWqh (q.map WorkNode.work ++ []) := by simpa using r
  exact r'.insertAfter (by simpa using hw)

/-- The two writes of `list_head_del`, for the first item. -/
theorem ring_detach (r : Ring l .sgrtKworkerWqh ((w :: q).map .work)) :
    Ring ((l.setNext (l.prev (.work w)) (l.next (.work w))).setPrev (l.next (.work w))
      (l.prev (.work w))) .sgrtKworkerWqh (q.map .work) := by
  have r' : Ring l .sgrtKworkerWqh ([] ++ .work w :: q.map .work) := r
  exact r'.unlink

/-! ### The scan -/

/-- The cursors start at the two ends of the queue. -/
theorem scans_start (r : Ring l .sgrtKworkerWqh (q.map .work)) (w : ObjPtr) :
    Scans l q w (l.next .sgrtKworkerWqh) (l.prev .sgrtKworkerWqh) := by
  have hfind := listHeadForEach_ring (x := .work w) r (Nat.lt_succ_self _)
  refine ⟨_, _, hfind, ?_⟩
  by_cases hw : w ∈ q
  · simp [hw]
  · simp [hw, erError, erNormal]

/-- One round: the item is found where it is queued, and what is left of the scan tells it else. -/
theorem Scans.next (h : Scans l q w ptrRight ptrLeft) :
    match (queueNext l w (.test ptrRight ptrLeft)).2 with
    | none => w ∈ q
    | some pc => pc.stage = .reading ∧ pc.Good l q w := by
  obtain ⟨n, retval, hn, hw⟩ := h
  cases n with
  | zero => cases hn
  | succ n =>
    rw [forEachLoop] at hn
    rw [queueNext]
    have hnot : (-erError : Int) ≠ erNormal := by decide
    by_cases hheads : ptrRight ≠ .sgrtKworkerWqh ∧ ptrLeft ≠ .sgrtKworkerWqh
    · rw [if_pos hheads] at hn ⊢
      by_cases hfound : ptrLeft = .work w ∨ ptrRight = .work w
      · rw [if_pos hfound] at hn ⊢
        exact hw.mp (Except.ok.inj hn).symm
      · rw [if_neg hfound] at hn ⊢
        by_cases hmeet : ptrLeft = ptrRight
        · rw [if_pos hmeet] at hn ⊢
          exact ⟨rfl, fun hmem => hnot ((Except.ok.inj hn).trans (hw.mpr hmem))⟩
        · rw [if_neg hmeet] at hn ⊢
          exact ⟨rfl, n, retval, hn, hw⟩
    · rw [if_neg hheads] at hn ⊢
      exact ⟨rfl, fun hmem => hnot ((Except.ok.inj hn).trans (hw.mpr hmem))⟩

/-- Where the scan is, it goes on to its end and to what comes after it. -/
theorem Scans.returns (h : Scans l q w ptrRight ptrLeft) :
    ∃ l', Reaches w (l, some (.test ptrRight ptrLeft)) (l', none) := by
  obtain ⟨n, retval, hn, -⟩ := h
  have hreach := scan_reaches hn
  split at hreach
  · exact ⟨_, hreach⟩
  · exact ⟨_, hreach.trans add_reaches⟩

/-- **A call returns** from wherever it is. -/
theorem QueuePc.Good.returns {pc : QueuePc} (h : pc.Good l q w)
    (hring : pc.stage = .outside → Ring l .sgrtKworkerWqh (q.map .work)) :
    ∃ l', Reaches w (l, some pc) (l', none) := by
  cases pc with
  | right =>
    obtain ⟨l', hreach⟩ := (scans_start (hring rfl) w).returns
    exact ⟨l', .next (.next hreach)⟩
  | left ptrRight =>
    obtain ⟨l', hreach⟩ := Scans.returns h
    exact ⟨l', .next hreach⟩
  | test ptrRight ptrLeft => exact Scans.returns h
  | nextRight ptrRight ptrLeft =>
    obtain ⟨l', hreach⟩ := Scans.returns h
    exact ⟨l', .next (.next hreach)⟩
  | nextLeft ptrRight ptrLeft =>
    obtain ⟨l', hreach⟩ := Scans.returns h
    exact ⟨l', .next hreach⟩
  | tail => exact ⟨_, add_reaches⟩
  | setPrev ptrPrev => exact ⟨_, .next (.next (.next (.next .refl)))⟩
  | setBack ptrPrev => exact ⟨_, .next (.next (.next .refl))⟩
  | setNext => exact ⟨_, .next (.next .refl)⟩
  | setHead => exact ⟨_, .next .refl⟩

/-! ### The cursors of the kworker -/

theorem Cached.append {rest : List ObjPtr} (w : ObjPtr) (h : Cached sprtTemp rest) :
    Cached sprtTemp (rest ++ [w]) := by
  rcases h with rfl | ⟨v, more, rfl, rfl⟩
  · exact Or.inl rfl
  · exact Or.inr ⟨v, more ++ [w], rfl, rfl⟩

theorem AtFirst.append {v : ObjPtr} (w : ObjPtr) (h : AtFirst q v sprtTemp) :
    AtFirst (q ++ [w]) v sprtTemp := by
  obtain ⟨rest, rfl, hrest⟩ := h
  exact ⟨rest ++ [w], rfl, hrest.append w⟩

/-- Outside its accesses the kworker relies on no link, and an item that is put at the end leaves it
where it is. -/
theorem KworkerPc.Good.append {pc : KworkerPc} {back : List ObjPtr} (hstage : pc.stage = .outside)
    (h : pc.Good l q) (hback : back = [] ∨ ∃ w, back = [w]) : pc.Good l' (q ++ back) := by
  have hcached : ∀ {sprtTemp}, Cached sprtTemp q → Cached sprtTemp (q ++ back) := by
    intro sprtTemp hc
    rcases hback with rfl | ⟨w, rfl⟩
    · simpa using hc
    · exact hc.append w
  have hfirst : ∀ {v sprtTemp}, AtFirst q v sprtTemp → AtFirst (q ++ back) v sprtTemp := by
    intro v sprtTemp hv
    rcases hback with rfl | ⟨w, rfl⟩
    · simpa using hv
    · exact hv.append w
  cases pc with
  | check => trivial
  | checkNext => trivial
  | first => trivial
  | delay => trivial
  | second sprtWq => exact hcached h
  | advance sprtTemp => exact hcached h
  | test sprtWq sprtTemp =>
    rcases h with h | ⟨v, hv, hat⟩
    · exact Or.inl h
    · exact Or.inr ⟨v, hv, hfirst hat⟩
  | call v sprtTemp => exact hfirst h
  | running v sprtTemp => exact hfirst h
  | detach v sprtTemp => exact hfirst h
  | detachNext v sprtTemp ptrPrev => cases hstage
  | detachWrite v sprtTemp ptrPrev ptrNext => cases hstage
  | detachBack sprtTemp ptrPrev ptrNext => cases hstage

/-- The item after the first one, as the cursor reads it. -/
theorem cached_next {rest : List ObjPtr} (r : Ring l .sgrtKworkerWqh ((w :: rest).map .work)) :
    Cached (l.next (.work w)) rest := by
  cases rest with
  | nil =>
    left
    exact r.path.2.1
  | cons v more =>
    right
    exact ⟨v, more, rfl, r.path.2.1.1⟩

/-- The first item, as the cursor reads it. -/
theorem cached_first (r : Ring l .sgrtKworkerWqh (q.map .work)) :
    Cached (l.next .sgrtKworkerWqh) q := by
  cases q with
  | nil =>
    left
    exact r.path.1
  | cons w rest =>
    right
    exact ⟨w, rest, rfl, r.path.1.1⟩

/-- A cursor at a cached item is at the first item of the queue, or at the head. -/
theorem Cached.test (h : Cached sprtTemp q) (r : Ring l .sgrtKworkerWqh (q.map .work)) :
    (KworkerPc.test sprtTemp (l.next sprtTemp)).Good l q := by
  rcases h with rfl | ⟨w, rest, rfl, rfl⟩
  · exact Or.inl rfl
  · exact Or.inr ⟨w, rfl, rest, rfl, cached_next r⟩

end Queue

section Steps

variable {ι : Type} {func : ObjPtr → Bool} {s : Kworker ι} {q : List ObjPtr}

/-- A party that is not between its writes is with no other that is. -/
theorem Queued.calm (h : Queued func s q) {x : Option ι} (hx : s.stage x = .reading) :
    ∀ y, s.stage y ≠ .writing := by
  intro y hy
  by_cases hxy : x = y
  · subst hxy
    rw [hx] at hy
    cases hy
  · rw [h.alone y hy x hxy] at hx
    cases hx

/-- **Every item of the queue is linked**, also while a party is between its writes. -/
theorem Queued.onQueue (h : Queued func s q) {w : ObjPtr} (hw : w ∈ q) : OnQueue s w := by
  obtain ⟨pre, post, hq⟩ := List.append_of_mem hw
  by_cases hwriting : ∀ x, s.stage x ≠ .writing
  · exact met_of_ring hq (h.ring hwriting) fun _ _ => rfl
  · push Not at hwriting
    obtain ⟨x, hx⟩ := hwriting
    cases x with
    | none =>
      have hplace := h.place
      have hx : s.pc.stage = .writing := hx
      cases hpc : s.pc with
      | detachBack sprtTemp ptrPrev ptrNext =>
        rw [hpc] at hplace
        exact met_of_ring hq hplace.2 fun _ _ => rfl
      | _ => rw [hpc] at hx; cases hx
    | some c =>
      have hx : callStage (s.calls c) = .writing := hx
      cases hcall : s.calls c with
      | none =>
        rw [hcall] at hx
        cases hx
      | some call =>
        obtain ⟨v, pc⟩ := call
        rw [hcall] at hx
        have hgood := h.callers c v pc hcall
        cases pc with
        | setBack ptrPrev => exact met_of_ring hq hgood.2.2.2 fun _ _ => rfl
        | setNext =>
          obtain ⟨⟨before, hbefore⟩, r⟩ := hgood
          exact met_of_appended hbefore r hw
        | setHead => exact met_of_ring hq hgood.2 fun _ _ => rfl
        | _ => cases hx

theorem Queued.served (h : Queued func s q) : Served func s := by
  intro newer w older hlog hfunc
  by_cases hbegan : .began w ∈ newer
  · exact Or.inl hbegan
  · exact Or.inr (h.onQueue (h.waits w hfunc (waits_of_split hlog hbegan)).1)

theorem Queued.callsReturn (h : Queued func s q) : CallsReturn s := by
  intro c w pc hcall hothers
  refine (h.callers c w pc hcall).returns fun hstage => h.ring fun x => ?_
  by_cases hx : x = some c
  · subst hx
    show callStage (s.calls c) ≠ .writing
    rw [hcall]
    show pc.stage ≠ .writing
    rw [hstage]
    decide
  · exact hothers x hx

variable [DecidableEq ι]

/-! ### Steps of a call -/

section Call

variable {c : ι} {entry : Option (ObjPtr × QueuePc)} {log : List WorkEvent}

variable (s c entry log) in
/-- A step of a call moves no other party. -/
theorem stage_update (links : Links WorkNode) (y : Option ι) :
    Kworker.stage { s with links, calls := Function.update s.calls c entry, log } y =
      if y = some c then callStage entry else s.stage y := by
  cases y with
  | none => rfl
  | some d =>
    by_cases hd : d = c
    · subst hd
      simp [Kworker.stage]
    · simp [Kworker.stage, hd]

/-- A call that begins has not read anything yet. -/
theorem Queued.begin (h : Queued func s q) (hc : s.calls c = none) (w : ObjPtr) :
    Queued func { s with calls := Function.update s.calls c (some (w, .right)) } q := by
  have hstage : ∀ y, Kworker.stage { s with calls := Function.update s.calls c (some (w, .right)) }
      y = s.stage y := by
    intro y
    refine (stage_update s c (some (w, .right)) s.log s.links y).trans ?_
    split
    · rename_i hy
      subst hy
      simp [Kworker.stage, callStage, hc, QueuePc.stage]
    · rfl
  refine ⟨fun hcalm => h.ring fun x => ?_, fun x hx y hy => ?_, h.place, fun d v pc hd => ?_,
    h.waits⟩
  · rw [← hstage]
    exact hcalm x
  · rw [hstage] at hx ⊢
    exact h.alone x hx y hy
  · have hd : Function.update s.calls c (some (w, .right)) d = some (v, pc) := hd
    by_cases hdc : d = c
    · subst hdc
      rw [Function.update_self] at hd
      cases hd
      trivial
    · rw [Function.update_of_ne hdc] at hd
      exact h.callers d v pc hd

/-- A step of a call that only reads. -/
theorem Queued.read (h : Queued func s q) (hcalm : ∀ y, s.stage y ≠ .writing)
    (hentry : callStage entry ≠ .writing)
    (hgood : ∀ w pc, entry = some (w, pc) → pc.Good s.links q w)
    (hwaits : ∀ w, func w = true → Waits log w → w ∈ q ∧ ¬ s.pc.Busy w) :
    Queued func { s with calls := Function.update s.calls c entry, log } q := by
  have hstage : ∀ y, Kworker.stage { s with calls := Function.update s.calls c entry, log } y ≠
      .writing := by
    intro y
    rw [show Kworker.stage { s with calls := Function.update s.calls c entry, log } y = _ from
      stage_update s c entry log s.links y]
    split
    · exact hentry
    · exact hcalm y
  refine ⟨fun _ => h.ring hcalm, fun x hx => absurd hx (hstage x), h.place, fun d w pc hd => ?_,
    hwaits⟩
  have hd : Function.update s.calls c entry d = some (w, pc) := hd
  by_cases hdc : d = c
  · subst hdc
    rw [Function.update_self] at hd
    exact hgood w pc hd
  · rw [Function.update_of_ne hdc] at hd
    exact h.callers d w pc hd

/-- A read with which a call goes on. -/
theorem Queued.goesOn {w : ObjPtr} {pc : QueuePc} (h : Queued func s q)
    (hcalm : ∀ y, s.stage y ≠ .writing) (hstage : pc.stage ≠ .writing)
    (hgood : pc.Good s.links q w) :
    Queued func { s with calls := Function.update s.calls c (some (w, pc)) } q := by
  refine h.read hcalm hstage (fun v pc' hv => ?_) h.waits
  cases hv
  exact hgood

/-- A step of a call that writes: the others are outside their accesses. -/
theorem Queued.write {links : Links WorkNode} {back : List ObjPtr} (h : Queued func s q)
    (halone : ∀ y, y ≠ some c → s.stage y = .outside) (hback : back = [] ∨ ∃ w, back = [w])
    (hentry : callStage entry ≠ .writing → Ring links .sgrtKworkerWqh ((q ++ back).map .work))
    (hgood : ∀ w pc, entry = some (w, pc) → pc.Good links (q ++ back) w)
    (hwaits : ∀ w, func w = true → Waits log w → w ∈ q ++ back ∧ ¬ s.pc.Busy w) :
    Queued func { s with links, calls := Function.update s.calls c entry, log } (q ++ back) := by
  have hstage := stage_update s c entry log links
  refine ⟨fun hcalm => hentry ?_, fun x hx y hy => ?_, ?_, fun d w pc hd => ?_, hwaits⟩
  · have := hcalm (some c)
    rwa [hstage, if_pos rfl] at this
  · have hxc : x = some c := by
      by_contra hne
      rw [hstage, if_neg hne, halone x hne] at hx
      cases hx
    subst hxc
    rw [hstage, if_neg hy]
    exact halone y hy
  · exact h.place.append (halone none (by simp)) hback
  · have hd : Function.update s.calls c entry d = some (w, pc) := hd
    by_cases hdc : d = c
    · subst hdc
      rw [Function.update_self] at hd
      exact hgood w pc hd
    · rw [Function.update_of_ne hdc] at hd
      -- another call has not read anything yet
      have hout : s.stage (some d) = .outside := halone (some d) (by simpa using hdc)
      simp only [Kworker.stage, hd, callStage] at hout
      cases pc with
      | right => trivial
      | _ => cases hout

end Call

/-- **Every step of a call that fits** keeps the queue in order. -/
theorem callNext_queued {c : ι} {w : ObjPtr} {pc : QueuePc} (h : Queued func s q)
    (hcall : s.calls c = some (w, pc)) (hfree : s.Unhindered (some c))
    (hlast : pc.Last w → func w = true → ¬ s.pc.Busy w) :
    ∃ q', Queued func (callNext s c w pc) q' := by
  have hgood := h.callers c w pc hcall
  have hstage : s.stage (some c) = pc.stage := by simp [Kworker.stage, hcall, callStage]
  have haccess : s.access (some c) = pc.access := by simp [Kworker.access, hcall]
  -- a read fits where nobody is between writes, a write where nobody is between accesses
  have hread : pc.access = .read → pc.stage ≠ .writing → ∀ y, s.stage y ≠ .writing := by
    intro hacc hst y
    by_cases hy : y = some c
    · rwa [hy, hstage]
    · have := hfree y hy
      rwa [haccess, hacc] at this
  have hwrite : pc.access = .write → ∀ y, y ≠ some c → s.stage y = .outside := by
    intro hacc y hy
    have := hfree y hy
    rwa [haccess, hacc] at this
  have hdone : w ∈ q → pc.Last w → ∀ v, func v = true → Waits (.requested w :: s.log) v →
      v ∈ q ∧ ¬ s.pc.Busy v := by
    intro hw hl v hv hwaits
    rcases hwaits with rfl | hwaits
    · exact ⟨hw, hlast hl hv⟩
    · exact h.waits v hv hwaits
  cases pc with
  | right =>
    have hcalm := hread rfl (by decide)
    exact ⟨q, h.goesOn hcalm (by simp [QueuePc.stage]) (scans_start (h.ring hcalm) w)⟩
  | left ptrRight =>
    exact ⟨q, h.goesOn (hread rfl (by simp [QueuePc.stage])) (by simp [QueuePc.stage]) hgood⟩
  | test ptrRight ptrLeft =>
    have hnext := Scans.next hgood
    have hlinks := queueNext_test_links s.links w ptrRight ptrLeft
    have hover := queueNext_over s.links w (.test ptrRight ptrLeft)
    simp only [callNext, hlinks]
    cases hpc : (queueNext s.links w (.test ptrRight ptrLeft)).2 with
    | none =>
      -- the item is found, and the call is over
      rw [hpc] at hnext hover
      exact ⟨q, h.read (h.calm hstage) (by simp [callStage]) (by simp)
        (hdone hnext (hover.mp rfl))⟩
    | some pc =>
      rw [hpc] at hnext
      exact ⟨q, h.goesOn (h.calm hstage) (by simp [hnext.1]) hnext.2⟩
  | nextRight ptrRight ptrLeft =>
    exact ⟨q, h.goesOn (hread rfl (by simp [QueuePc.stage])) (by simp [QueuePc.stage]) hgood⟩
  | nextLeft ptrRight ptrLeft =>
    exact ⟨q, h.goesOn (hread rfl (by simp [QueuePc.stage])) (by simp [QueuePc.stage]) hgood⟩
  | tail =>
    exact ⟨q, h.goesOn (hread rfl (by simp [QueuePc.stage])) (by simp [QueuePc.stage]) ⟨hgood, rfl⟩⟩
  | setPrev ptrPrev =>
    obtain ⟨hw, hprev⟩ := hgood
    refine ⟨q ++ [], h.write (hwrite rfl) (Or.inl rfl) (fun hne => absurd rfl hne)
      (fun v pc hv => ?_) (by simpa using h.waits)⟩
    cases hv
    rw [List.append_nil]
    exact ⟨hw, by simpa using hprev, by simp,
      ring_setPrev_item (h.ring (h.calm hstage)) hw ptrPrev⟩
  | setBack ptrPrev =>
    obtain ⟨hw, rfl, hitem, r⟩ := hgood
    refine ⟨q ++ [w], h.write (hwrite rfl) (Or.inr ⟨w, rfl⟩) (fun hne => absurd rfl hne)
      (fun v pc hv => ?_) fun v hv hwaits => ?_⟩
    · cases hv
      exact ⟨⟨q, rfl⟩, ring_addTail r hw hitem⟩
    · obtain ⟨hq, hidle⟩ := h.waits v hv hwaits
      exact ⟨List.mem_append_left _ hq, hidle⟩
  | setNext =>
    obtain ⟨⟨before, hbefore⟩, r⟩ := hgood
    refine ⟨q ++ [], h.write (hwrite rfl) (Or.inl rfl) (fun hne => absurd rfl hne)
      (fun v pc hv => ?_) (by simpa using h.waits)⟩
    cases hv
    rw [List.append_nil]
    exact ⟨by simp [hbefore], r⟩
  | setHead =>
    obtain ⟨hw, r⟩ := hgood
    exact ⟨q ++ [], h.write (hwrite rfl) (Or.inl rfl) (fun _ => by simpa using r) (by simp)
      (by simpa using hdone hw trivial)⟩

/-! ### Steps of the kworker -/

section Loop

omit [DecidableEq ι]

/-- A step of the kworker that leaves the links alone keeps everything, if it stays outside its
accesses or is with nobody that is between its writes. -/
theorem Queued.move {pc : KworkerPc} {log : List WorkEvent} (h : Queued func s q)
    (hstage : (s.pc.stage = .outside ∧ pc.stage = .outside) ∨
      ((∀ y, s.stage y ≠ .writing) ∧ pc.stage ≠ .writing))
    (hplace : pc.Good s.links q)
    (hwaits : ∀ w, func w = true → Waits log w → w ∈ q ∧ ¬ pc.Busy w) :
    Queued func { s with pc, log } q := by
  refine ⟨fun hcalm => h.ring fun x => ?_, fun x hx y hy => ?_, hplace, h.callers, hwaits⟩
  · cases x with
    | none =>
      rcases hstage with ⟨hout, -⟩ | ⟨hcalm, -⟩
      · show s.pc.stage ≠ .writing
        rw [hout]
        decide
      · exact hcalm none
    | some c => exact hcalm (some c)
  · rcases hstage with ⟨-, hout⟩ | ⟨hcalm, hpc⟩
    · cases x with
      | none =>
        have hx : pc.stage = .writing := hx
        rw [hout] at hx
        cases hx
      | some c =>
        cases y with
        | none => exact hout
        | some d => exact h.alone (some c) hx (some d) hy
    · cases x with
      | none => exact absurd hx hpc
      | some c => exact absurd hx (hcalm (some c))

/-- A step of the kworker that writes: the callers are outside their accesses. -/
theorem queued_stored {links : Links WorkNode} {pc : KworkerPc} {rest : List ObjPtr}
    (halone : ∀ y, y ≠ none → s.stage y = .outside)
    (hring : pc.stage ≠ .writing → Ring links .sgrtKworkerWqh (rest.map .work))
    (hplace : pc.Good links rest)
    (hwaits : ∀ w, func w = true → Waits s.log w → w ∈ rest ∧ ¬ pc.Busy w) :
    Queued func { s with links, pc } rest := by
  refine ⟨fun hcalm => hring (hcalm none), fun x hx y hy => ?_, hplace, fun c w pc' hc => ?_, hwaits⟩
  · cases x with
    | none =>
      cases y with
      | none => exact absurd rfl hy
      | some d => exact halone (some d) (by simp)
    | some c =>
      have hx : s.stage (some c) = .writing := hx
      rw [halone (some c) (by simp)] at hx
      cases hx
  · have hout : s.stage (some c) = .outside := halone (some c) (by simp)
    have hc : s.calls c = some (w, pc') := hc
    simp only [Kworker.stage, hc, callStage] at hout
    cases pc' with
    | right => trivial
    | _ => cases hout

/-- **Every step of the kworker that fits** keeps the queue in order. -/
theorem kworkerNext_queued (h : Queued func s q) (hfree : s.Unhindered none) :
    ∃ q', Queued func (kworkerNext func s) q' := by
  obtain ⟨links, pc, calls, log⟩ := s
  have hplace := h.place
  have hidle : ∀ {pc' : KworkerPc}, (∀ w, ¬ pc'.Busy w) → ∀ w, func w = true → Waits log w →
      w ∈ q ∧ ¬ pc'.Busy w := fun hpc w hfunc hwaits => ⟨(h.waits w hfunc hwaits).1, hpc w⟩
  -- what a read of the kworker finds is a whole ring
  have hread : pc.access = .read → pc.stage ≠ .writing →
      ∀ y, Kworker.stage ⟨links, pc, calls, log⟩ y ≠ .writing := by
    intro hacc hst y
    cases y with
    | none => exact hst
    | some c =>
      have hallowed := hfree (some c) (by simp)
      have hacc : Kworker.access ⟨links, pc, calls, log⟩ none = .read := hacc
      rwa [hacc] at hallowed
  have hring : pc.access = .read → pc.stage ≠ .writing → Ring links .sgrtKworkerWqh (q.map .work) :=
    fun hacc hst => h.ring (hread hacc hst)
  have hwrite : pc.access = .write →
      ∀ y, y ≠ none → Kworker.stage ⟨links, pc, calls, log⟩ y = .outside := by
    intro hacc y hy
    have hallowed := hfree y hy
    have hacc : Kworker.access ⟨links, pc, calls, log⟩ none = .write := hacc
    rwa [hacc] at hallowed
  -- most steps stay outside the accesses and begin no function
  have hgo : ∀ pc' : KworkerPc, pc.stage = .outside → pc'.stage = .outside → (∀ w, ¬ pc'.Busy w) →
      pc'.Good links q → ∃ q', Queued func ⟨links, pc', calls, log⟩ q' :=
    fun pc' hst hst' hpc hgood => ⟨q, h.move (Or.inl ⟨hst, hst'⟩) hgood (hidle hpc)⟩
  cases pc with
  | check =>
    simp only [kworkerNext]
    split
    · exact hgo _ rfl rfl (fun _ => id) trivial
    · exact hgo _ rfl rfl (fun _ => id) trivial
  | checkNext =>
    simp only [kworkerNext]
    split
    · exact hgo _ rfl rfl (fun _ => id) trivial
    · exact hgo _ rfl rfl (fun _ => id) trivial
  | first => exact hgo _ rfl rfl (fun _ => id) (cached_first (hring rfl (by decide)))
  | second sprtWq =>
    exact hgo _ rfl rfl (fun _ => id) (Cached.test hplace (hring rfl (by simp [KworkerPc.stage])))
  | test sprtWq sprtTemp =>
    cases sprtWq with
    | sgrtKworkerWqh => exact hgo _ rfl rfl (fun _ => id) trivial
    | work w =>
      rcases hplace with hhead | ⟨v, hv, hat⟩
      · cases hhead
      · cases hv
        exact hgo _ rfl rfl (fun _ => id) hat
  | call w sprtTemp =>
    by_cases hfunc : func w = true
    · -- the begin serves every request for the item so far
      refine ⟨q, ?_⟩
      simp only [kworkerNext, hfunc, if_true]
      refine h.move (Or.inl ⟨rfl, rfl⟩) hplace fun v hv hwaits => ?_
      obtain ⟨hne, hwaits⟩ := hwaits
      exact ⟨(h.waits v hv hwaits).1, hne⟩
    · refine ⟨q, ?_⟩
      simp only [kworkerNext, hfunc]
      refine h.move (Or.inl ⟨rfl, rfl⟩) hplace fun v hv hwaits => ⟨(h.waits v hv hwaits).1, ?_⟩
      intro hbusy
      obtain rfl : w = v := hbusy
      exact hfunc hv
  | running w sprtTemp => exact ⟨q, h.move (Or.inl ⟨rfl, rfl⟩) hplace h.waits⟩
  | detach w sprtTemp =>
    have hcalm := hread rfl (by simp [KworkerPc.stage])
    exact ⟨q, h.move (Or.inr ⟨hcalm, by simp [KworkerPc.stage]⟩) ⟨hplace, rfl⟩ h.waits⟩
  | detachNext w sprtTemp ptrPrev =>
    have hcalm := hread rfl (by simp [KworkerPc.stage])
    exact ⟨q, h.move (Or.inr ⟨hcalm, by simp [KworkerPc.stage]⟩) ⟨hplace.1, hplace.2, rfl⟩ h.waits⟩
  | detachWrite w sprtTemp ptrPrev ptrNext =>
    obtain ⟨⟨rest, rfl, hrest⟩, hprev, hnext⟩ := hplace
    obtain rfl : ptrPrev = links.prev (.work w) := hprev
    obtain rfl : ptrNext = links.next (.work w) := hnext
    have r := ring_detach (h.ring (h.calm (x := none) rfl))
    refine ⟨rest, queued_stored (hwrite rfl) (fun hne => absurd rfl hne) ⟨hrest, r⟩
      fun v hv hwaits => ?_⟩
    -- nobody waits for the item that is taken off
    obtain ⟨hq, hidle⟩ := h.waits v hv hwaits
    have hne : v ≠ w := fun heq => hidle heq.symm
    exact ⟨(List.mem_cons.mp hq).resolve_left hne, id⟩
  | detachBack sprtTemp ptrPrev ptrNext =>
    exact ⟨q, queued_stored (hwrite rfl) (fun _ => hplace.2) hplace.1 (hidle fun _ => id)⟩
  | advance sprtTemp =>
    exact hgo _ rfl rfl (fun _ => id) (Cached.test hplace (hring rfl (by simp [KworkerPc.stage])))
  | delay => exact hgo _ rfl rfl (fun _ => id) trivial

end Loop

/-- **Every step that fits** keeps the queue in order. -/
theorem workStep_queued {s' : Kworker ι} {move : WorkMove ι} (h : ∃ q, Queued func s q)
    (hfit : WorkFits func s move) (hstep : workStep func s move = some s') :
    ∃ q, Queued func s' q := by
  obtain ⟨q, h⟩ := h
  cases move with
  | scheduleWork c sprtWq =>
    simp only [workStep] at hstep
    by_cases hbusy : (s.calls c).isSome = true
    · rw [if_pos hbusy] at hstep
      cases hstep
    · rw [if_neg hbusy] at hstep
      cases sprtWq with
      | none =>
        cases hstep
        exact ⟨q, h⟩
      | some w =>
        cases hstep
        exact ⟨q, h.begin (by simpa using hbusy) w⟩
  | caller c =>
    cases hcall : s.calls c with
    | none =>
      rw [workStep, hcall] at hstep
      cases hstep
    | some call =>
      obtain ⟨w, pc⟩ := call
      rw [workStep, hcall] at hstep
      cases hstep
      exact callNext_queued h hcall hfit.1 (hfit.2 (w, pc) hcall)
  | kworker =>
    cases hstep
    exact kworkerNext_queued h hfit

end Steps

theorem queued_start {ι : Type} (func : ObjPtr → Bool) : Queued func (Kworker.start ι) [] where
  ring := fun _ => Ring.nil_iff.mpr ⟨rfl, rfl⟩
  alone := by
    intro x hx
    cases x with
    | none => cases hx
    | some c => cases hx
  place := trivial
  callers := by
    intro c w pc hc
    cases hc
  waits := by
    intro w _ hwaits
    exact hwaits.elim

/-- **No lost work.**  In every run in which no link is read between the writes of another party or
written between its accesses, and no call for an item ends from the moment the item's function begins
until the kworker has taken the item off, at every moment every request has been followed by a run of
the item's function that began after it, or the item is still linked; and every call returns that is
left to go on by itself. -/
theorem no_lost_work {ι : Type} [DecidableEq ι] (func : ObjPtr → Bool) (moves : List (WorkMove ι))
    (h : Meets (workStep func) (WorkFits func) (Kworker.start ι) moves) :
    Always (workStep func) (fun s => Served func s ∧ CallsReturn s) (Kworker.start ι) moves := by
  have halways : Always (workStep func) (fun s => ∃ q, Queued func s q) (Kworker.start ι) moves :=
    always_of_meets (fun s move s' hs hfit => workStep_queued hs hfit) ⟨[], queued_start func⟩ h
  refine halways.imp fun s hs => ?_
  obtain ⟨q, hq⟩ := hs
  exact ⟨hq.served, hq.callsReturn⟩

/-- Two work items. -/
def workA : ObjPtr := ⟨0x11000, by decide⟩

def workB : ObjPtr := ⟨0x12000, by decide⟩

/-- A call of `schedule_work` that makes so many accesses. -/
def request {ι : Type} (c : ι) (w : ObjPtr) (accesses : Nat) : List (WorkMove ι) :=
  .scheduleWork c (some w) :: List.replicate accesses (.caller c)

/-- While the function of the first item runs another caller requests the second; then two callers
scan for it at the same time, and the first item is requested again once it has been taken off.  Both
run to the end. -/
theorem no_lost_work_two :
    Always (workStep fun _ => true) (fun s => Served (fun _ => true) s ∧ CallsReturn s)
      (Kworker.start (Fin 2))
      (request 0 workA 8 ++ List.replicate 5 .kworker ++ request 1 workB 8 ++
        [.scheduleWork 0 (some workB), .scheduleWork 1 (some workB), .caller 0, .caller 1, .caller 0,
          .caller 1, .caller 0, .caller 1] ++ List.replicate 5 .kworker ++ request 0 workA 8 ++
        List.replicate 40 .kworker) :=
  no_lost_work (fun _ => true) _ (by decide +kernel)

/-- Nothing is on a queue whose head leads to itself. -/
theorem not_onQueue {ι : Type} {s : Kworker ι} {w : ObjPtr}
    (h : s.links.next .sgrtKworkerWqh = .sgrtKworkerWqh) : ¬ OnQueue s w := by
  rintro ⟨n, hmem⟩
  rw [h] at hmem
  cases n <;> simp [listMembers] at hmem

/-- The item is requested while its function runs, and taken off when the function has returned. -/
def requestWhileRunning : List (WorkMove Unit) :=
  request () workA 8 ++ List.replicate 5 .kworker ++ request () workA 3 ++ List.replicate 5 .kworker

/-- Such a request is dropped. -/
theorem work_lost_while_running :
    ¬ ∀ (func : ObjPtr → Bool) (moves : List (WorkMove Unit)) (s : Kworker Unit),
      exec (workStep func) (Kworker.start Unit) moves = some s → Served func s := by
  intro h
  have hrun : (exec (workStep fun _ => true) (Kworker.start Unit) requestWhileRunning).map
      (fun s => (s.log, s.links.next .sgrtKworkerWqh)) =
      some ([.requested workA, .began workA, .requested workA], .sgrtKworkerWqh) := by decide +kernel
  obtain ⟨s, hexec, hs⟩ := Option.map_eq_some_iff.mp hrun
  simp only [Prod.mk.injEq] at hs
  rcases h (fun _ => true) _ s hexec [] workA [.began workA, .requested workA] hs.1 rfl with
    hbegan | hqueued
  · cases hbegan
  · exact not_onQueue hs.2 hqueued

/-- An interrupt requests a second item between the reads and the writes with which `list_head_del`
takes off the first. -/
def requestInDetach : List (WorkMove Unit) :=
  request () workA 8 ++ List.replicate 8 .kworker ++ request () workB 8 ++ List.replicate 2 .kworker

/-- This request is dropped as well, though its item's function has never begun. -/
theorem work_lost_in_detach :
    ∃ s, exec (workStep fun _ => true) (Kworker.start Unit) requestInDetach = some s ∧
      s.log = [.requested workB, .began workA, .requested workA] ∧ ¬ OnQueue s workB := by
  have hrun : (exec (workStep fun _ => true) (Kworker.start Unit) requestInDetach).map
      (fun s => (s.log, s.links.next .sgrtKworkerWqh)) =
      some ([.requested workB, .began workA, .requested workA], .sgrtKworkerWqh) := by decide +kernel
  obtain ⟨s, hexec, hs⟩ := Option.map_eq_some_iff.mp hrun
  simp only [Prod.mk.injEq] at hs
  exact ⟨s, hexec, hs.1, not_onQueue hs.2⟩

end HeavenFox.Kernel
