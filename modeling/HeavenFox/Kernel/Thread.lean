/-
# HeavenFox.Kernel.Thread -- thread attributes and the creation of threads

`thread.h` and `thread.c`: the setters of `struct real_thread_attr`, and
`__real_thread_create`, which finds a tid, fills in what the creator left unset,
allocates the thread object and registers it.  A thread keeps a pointer to the
attributes of its creator.

"Unset" is zero: a priority of 0, an empty time slice and a null stack are replaced
by defaults.  A time slice that was set is never empty and a stack that was set is
never null, but 0 is also the priority `REAL_THREAD_PROTY_MAX`, so the creator's
attributes survive exactly if the priority is another one (`attributes_survive_iff`).
-/
import HeavenFox.Common.Time
import HeavenFox.Kernel.SchedInvariant

-- the source's own leading underscores are kept
set_option linter.style.nameCheck false

namespace HeavenFox.Kernel

open HeavenFox.Common HeavenFox.Logic

/-! ## Attributes -/

/-- `struct real_thread_attr`, the fields that the scheduler reads first. -/
structure ThreadAttr extends RealThreadAttr where
  detachstate : Int
  schedpolicy : Int
  inheritsched : Int
  schedPriority : Int
  schedLowPriority : Int
  schedMaxRepl : Int
  schedReplPeriod : TimeSpec
  schedInitBudget : TimeSpec
  scope : Int
  guardsize : Int
  ptrStackStart : Nat
  stacksize : Nat
  deriving DecidableEq, Repr

/-- `REAL_THREAD_PROTY_DEFAULT`. -/
def realThreadProtyDefault : Nat := 80

/-- `REAL_THREAD_TIME_DEFUALT`. -/
def realThreadTimeDefualt : Nat := 40

/-- `REAL_THREAD_STACK_MIN`. -/
def realThreadStackMin : Nat := 1024

/-- `REAL_THREAD_STACK_DEFAULT`. -/
def realThreadStackDefault : Nat := 2056

/-- `REAL_THREAD_TID_START`. -/
def realThreadTidStart : Nat := 32

/-- `REAL_THREAD_USER`. -/
def realThreadUser : Nat := 1

/-- The size of `struct scheduler_context_regs`. -/
def schedulerContextRegsSize : Nat := 72

namespace ThreadAttr

/-- An attribute object after `memset`. -/
def zero : ThreadAttr where
  schedCurpriority := 0
  stackAddr := 0
  detachstate := 0
  schedpolicy := 0
  inheritsched := 0
  schedPriority := 0
  schedLowPriority := 0
  schedMaxRepl := 0
  schedReplPeriod := ⟨0, 0⟩
  schedInitBudget := ⟨0, 0⟩
  scope := 0
  guardsize := 0
  ptrStackStart := 0
  stacksize := 0

/-- `real_thread_set_priority`, which sets the current priority too. -/
def setPriority (attr : ThreadAttr) (priority : Nat) : ThreadAttr :=
  { attr with
    toRealThreadAttr := realThreadSetPriority attr.toRealThreadAttr priority
    schedPriority := (realThreadSetPriority attr.toRealThreadAttr priority).schedCurpriority }

/-- `real_thread_set_time_slice`. -/
def setTimeSlice (attr : ThreadAttr) (mseconds : Nat) : ThreadAttr :=
  { attr with schedInitBudget := msecsToTimeSpec mseconds }

/-- `real_thread_get_sched_msecs`. -/
def getSchedMsecs (attr : ThreadAttr) : Nat := timeSpecToMsecs attr.schedInitBudget

/-- The `stack_addr` that `real_thread_set_stack` computes: room for the registers below the top of
the stack. -/
def stackTop (ptrStack stacksize : Nat) : Nat :=
  let addr := add32 ptrStack stacksize
  let addr := sub32 addr 16 &&& not32 7
  sub32 addr schedulerContextRegsSize &&& not32 7

/-- `real_thread_set_stack`; the registers it clears are in the stack itself. -/
def setStack (attr : ThreadAttr) (ptrDync ptrStack stacksize : Nat) : Nat × ThreadAttr :=
  if isValid ptrStack = false ∨ stacksize < realThreadStackMin then (0, attr)
  else if ptrDync ≠ 0 ∧ ptrDync ≠ ptrStack then (0, attr)
  else
    (stackTop ptrStack stacksize,
      { attr with ptrStackStart := ptrDync, stackAddr := stackTop ptrStack stacksize, stacksize })

/-- `real_thread_attr_init`; `stack` is what `kzalloc` returns. -/
def init (stack : Nat) : Nat × ThreadAttr :=
  let attr := { zero with detachstate := 0, inheritsched := 0, schedpolicy := 1 }
  if isValid stack = false then (0, attr)
  else
    let attr := (attr.setStack stack stack realThreadStackDefault).2
    let attr := attr.setPriority realThreadProtyDefault
    let attr := attr.setTimeSlice realThreadTimeDefualt
    (attr.stackAddr, attr)

/-- `real_thread_attr_revise`: what is zero counts as unset. -/
def revise (stack : Nat) (attr : ThreadAttr) : Nat × ThreadAttr :=
  let attr := if attr.schedPriority = 0 then attr.setPriority realThreadProtyDefault else attr
  let attr :=
    if mrtIsTimespecEmpty attr.schedInitBudget then attr.setTimeSlice realThreadTimeDefualt else attr
  if attr.stackAddr = 0 then
    if isValid stack = false then (0, attr)
    else
      let attr := (attr.setStack stack stack realThreadStackDefault).2
      (attr.stackAddr, attr)
  else (attr.stackAddr, attr)

end ThreadAttr

/-! ## Creation -/

/-- What creation stores in a thread object besides what the scheduler reads. -/
structure Creation where
  sprtAttr : Nat
  startRoutine : Nat
  ptrArgs : Nat
  deriving DecidableEq, Repr

/-- The table, the attribute objects and the thread objects by address, the variables that take a
tid, and the blocks that have been allocated and not freed. -/
structure Threads where
  table : SchedulerTable
  attr : Nat → ThreadAttr
  creation : Nat → Creation
  ids : Nat → Int
  blocks : List Nat

/-- What `kzalloc` returns in one call of `__real_thread_create`, for each object it may ask for. -/
structure Kzalloc where
  attr : Nat
  stack : Nat
  thread : Nat

/-- The loop of `get_unused_tid_from_scheduler`. -/
def unusedTidFrom (s : SchedulerTable) : Nat → Nat → Int
  | _, 0 => -erMore
  | i, count + 1 =>
    if (s.sprtTidArray i).isNone then (i : Int) else unusedTidFrom s (i + 1) count

/-- `get_unused_tid_from_scheduler`. -/
def getUnusedTidFromScheduler (s : SchedulerTable) (iStart count : Nat) : Int :=
  unusedTidFrom s iStart count

/-- Where `__real_thread_create` looks for a tid, and among how many. -/
def tidRange (base : Int) (flags : Nat) : Nat × Nat :=
  let range :=
    if realThreadUser &&& flags = realThreadUser then
      (realThreadTidStart, realThreadMaxNum - realThreadTidStart)
    else (0, realThreadTidStart)
  if range.1 ≤ asUint32 base ∧ asUint32 base < range.1 + range.2 then (asUint32 base, 1) else range

/-- Write to an attribute object. -/
def Threads.setAttr (w : Threads) (a : Nat) (attr : ThreadAttr) : Threads :=
  { w with attr := Function.update w.attr a attr }

/-- `kzalloc` has returned `ptr`. -/
def Threads.kzalloc (w : Threads) (ptr : Nat) : Threads :=
  { w with blocks := if isValid ptr then ptr :: w.blocks else w.blocks }

/-- `kfree`. -/
def Threads.kfree (w : Threads) (ptr : Nat) : Threads := { w with blocks := w.blocks.erase ptr }

/-- `kzalloc` in `real_thread_attr_revise`, for attributes without a stack. -/
def Threads.reviseStack (w : Threads) (a stack : Nat) : Threads :=
  { w with blocks := if (w.attr a).stackAddr = 0 then (w.kzalloc stack).blocks else w.blocks }

/-- `real_thread_attr_destroy`. -/
def Threads.attrDestroy (w : Threads) (a : Nat) : Threads :=
  let stack := (w.attr a).ptrStackStart
  let w := if stack ≠ 0 then w.kfree stack else w
  w.setAttr a .zero

/-- The label `fail2`. -/
def createFail2 (w : Threads) (sprtAttr : Option Nat) (a : Nat) : Int × Threads :=
  (-erFault, if sprtAttr.any isValid then w else w.kfree a)

/-- The label `fail3`. -/
def createFail3 (w : Threads) (sprtAttr : Option Nat) (a : Nat) : Int × Threads :=
  createFail2 (w.attrDestroy a) sprtAttr a

/-- The label `fail4`. -/
def createFail4 (w : Threads) (sprtAttr : Option Nat) (a thread : Nat) : Int × Threads :=
  createFail3 (w.kfree thread) sprtAttr a

/-- The thread object that `__real_thread_create` fills in after `kzalloc` has cleared it. -/
def newThread (attr : ThreadAttr) (tid : Nat) : RealThread where
  tid := tid
  status := .none
  toStatus := .none
  sprtAttr := attr.toRealThreadAttr

section Create

variable (configRollPoll : Bool) (rounds : Nat)

/-- `__real_thread_create`, once the attribute object `a` is there. -/
def createWith (k : Kzalloc) (w : Threads) (ptrId sprtAttr : Option Nat)
    (tid a startRoutine ptrArgs : Nat) : Except Stop (Int × Threads) :=
  let (stackAddr, attr) := (w.attr a).revise k.stack
  let w := (w.reviseStack a k.stack).setAttr a attr
  if stackAddr = 0 then .ok (createFail3 w sprtAttr a)
  else if isValid k.thread = false then .ok (createFail3 w sprtAttr a)
  else do
    let w := w.kzalloc k.thread
    let w := { w with
      table := w.table.setThread k.thread (newThread attr tid)
      creation := Function.update w.creation k.thread ⟨a, startRoutine, ptrArgs⟩ }
    let (retval, table) ← registerNewThread configRollPoll rounds w.table k.thread tid
    let w := { w with table }
    if retval < 0 then pure (createFail4 w sprtAttr a k.thread)
    else
      match ptrId with
      | none => pure (erNormal, w)
      | some id => pure (erNormal, { w with ids := Function.update w.ids id tid })

/-- `__real_thread_create`. -/
def __realThreadCreate (k : Kzalloc) (w : Threads) (ptrId : Option Nat) (base : Int)
    (sprtAttr : Option Nat) (startRoutine ptrArgs flags : Nat) : Except Stop (Int × Threads) :=
  let (iStart, count) := tidRange base flags
  let tid := getUnusedTidFromScheduler w.table iStart count
  if tid < 0 then .ok (-erFault, w)
  else
    match sprtAttr with
    | some a =>
      createWith configRollPoll rounds k w ptrId sprtAttr tid.toNat a startRoutine ptrArgs
    | none =>
      if isValid k.attr = false then .ok (-erFault, w)
      else
        let (stackAddr, attr) := ThreadAttr.init k.stack
        let w := ((w.kzalloc k.attr).kzalloc k.stack).setAttr k.attr attr
        if stackAddr = 0 then .ok (createFail2 w sprtAttr k.attr)
        else
          createWith configRollPoll rounds k w ptrId sprtAttr tid.toNat k.attr startRoutine ptrArgs

end Create

/-! ## The setters -/

namespace ThreadAttr

/-- The calls with which a creator prepares its attributes. -/
inductive Setter where
  | setPriority (priority : Nat)
  | setTimeSlice (mseconds : Nat)
  | setStack (ptrDync ptrStack stacksize : Nat)
  deriving DecidableEq, Repr

/-- One call. -/
def call (attr : ThreadAttr) : Setter → ThreadAttr
  | .setPriority priority => attr.setPriority priority
  | .setTimeSlice mseconds => attr.setTimeSlice mseconds
  | .setStack ptrDync ptrStack stacksize => (attr.setStack ptrDync ptrStack stacksize).2

/-- The attributes are those of some object on which the three setters have been called, in any
order, `real_thread_set_stack` with success. -/
def Prepared (attr : ThreadAttr) (p t : Nat) : Prop :=
  ∃ attr₀ ptrDync ptrStack stacksize, ∃ calls : List Setter,
    calls.Perm [.setPriority p, .setTimeSlice t, .setStack ptrDync ptrStack stacksize] ∧
      (setStack attr₀ ptrDync ptrStack stacksize).1 ≠ 0 ∧ attr = calls.foldl call attr₀

variable {attr : ThreadAttr} {p t dync ptr size stack : Nat}

theorem setStack_ok (h : (attr.setStack dync ptr size).1 ≠ 0) (attr' : ThreadAttr) :
    stackTop ptr size ≠ 0 ∧ attr'.setStack dync ptr size =
      (stackTop ptr size,
        { attr' with ptrStackStart := dync, stackAddr := stackTop ptr size, stacksize := size }) := by
  unfold setStack at h ⊢
  by_cases hbad : isValid ptr = false ∨ size < realThreadStackMin
  · rw [if_pos hbad] at h
    exact absurd rfl h
  · rw [if_neg hbad] at h ⊢
    by_cases hdync : dync ≠ 0 ∧ dync ≠ ptr
    · rw [if_pos hdync] at h
      exact absurd rfl h
    · rw [if_neg hdync] at h ⊢
      exact ⟨h, rfl⟩

/-- What `real_thread_set_priority` leaves. -/
theorem setPriority_of_lt (hp : p < 2 ^ 31) (attr : ThreadAttr) :
    attr.setPriority p = { attr with schedCurpriority := p, schedPriority := p } := by
  have hlow : __threadIsLowPrio p 0 = true := by simp [__threadIsLowPrio]
  have hsigned : (p : Int).bmod (2 ^ 32) = p := asInt32_of_lt hp
  have hvalue : realThreadSetPriority attr.toRealThreadAttr p =
      { attr.toRealThreadAttr with schedCurpriority := p } := by
    rw [realThreadSetPriority, if_pos hlow, hsigned]
  rw [setPriority, hvalue]

theorem priority_timeSlice_comm (hp : p < 2 ^ 31) (z : ThreadAttr) :
    (z.setPriority p).setTimeSlice t = (z.setTimeSlice t).setPriority p := by
  simp only [setPriority_of_lt hp, setTimeSlice]

theorem stack_timeSlice_comm (h : (attr.setStack dync ptr size).1 ≠ 0) (z : ThreadAttr) :
    (z.setStack dync ptr size).2.setTimeSlice t = ((z.setTimeSlice t).setStack dync ptr size).2 := by
  have hstack := fun z => (setStack_ok h z).2
  generalize stackTop ptr size = top at hstack
  simp only [hstack, setTimeSlice]

theorem stack_priority_comm (hp : p < 2 ^ 31) (h : (attr.setStack dync ptr size).1 ≠ 0)
    (z : ThreadAttr) :
    (z.setStack dync ptr size).2.setPriority p = ((z.setPriority p).setStack dync ptr size).2 := by
  have hstack := fun z => (setStack_ok h z).2
  generalize stackTop ptr size = top at hstack
  simp only [hstack, setPriority_of_lt hp]

/-- What the setters leave does not depend on their order: each writes its own fields. -/
theorem call_comm (hp : p < 2 ^ 31) (h : (attr.setStack dync ptr size).1 ≠ 0) {x y : Setter}
    (hx : x ∈ [Setter.setPriority p, .setTimeSlice t, .setStack dync ptr size])
    (hy : y ∈ [Setter.setPriority p, .setTimeSlice t, .setStack dync ptr size]) (z : ThreadAttr) :
    (z.call x).call y = (z.call y).call x := by
  simp only [List.mem_cons, List.not_mem_nil, or_false] at hx hy
  rcases hx with rfl | rfl | rfl <;> rcases hy with rfl | rfl | rfl
  · rfl
  · exact priority_timeSlice_comm hp z
  · exact (stack_priority_comm hp h z).symm
  · exact (priority_timeSlice_comm hp z).symm
  · rfl
  · exact (stack_timeSlice_comm h z).symm
  · exact stack_priority_comm hp h z
  · exact stack_timeSlice_comm h z
  · rfl

/-- What is known of prepared attributes. -/
theorem Prepared.fields (h : attr.Prepared p t) (hp : p < 2 ^ 31) :
    attr.schedPriority = p ∧ attr.schedCurpriority = p ∧
      attr.schedInitBudget = msecsToTimeSpec t ∧ attr.stackAddr ≠ 0 := by
  obtain ⟨attr₀, dync, ptr, size, calls, hperm, hok, rfl⟩ := h
  have hcomm : ∀ x ∈ calls, ∀ y ∈ calls, ∀ z : ThreadAttr,
      (z.call x).call y = (z.call y).call x :=
    fun x hx y hy z => call_comm hp hok (hperm.mem_iff.mp hx) (hperm.mem_iff.mp hy) z
  rw [hperm.foldl_eq' hcomm]
  obtain ⟨htop, -⟩ := setStack_ok hok attr₀
  have hset := setPriority_of_lt hp
  have hstack := fun z => (setStack_ok hok z).2
  generalize stackTop ptr size = top at htop hstack
  simp only [List.foldl_cons, List.foldl_nil, call, hstack, hset, setTimeSlice]
  exact ⟨trivial, trivial, trivial, htop⟩

/-- **`real_thread_attr_revise`** leaves attributes alone that are all set. -/
theorem revise_of_set (hp : attr.schedPriority ≠ 0)
    (ht : mrtIsTimespecEmpty attr.schedInitBudget = false) (hs : attr.stackAddr ≠ 0) :
    attr.revise stack = (attr.stackAddr, attr) := by
  simp [revise, hp, ht, hs]

/-- It gives the default priority to attributes whose priority is 0. -/
theorem revise_of_zero (hp : attr.schedPriority = 0)
    (ht : mrtIsTimespecEmpty attr.schedInitBudget = false) (hs : attr.stackAddr ≠ 0) :
    attr.revise stack = (attr.stackAddr, attr.setPriority realThreadProtyDefault) := by
  have ht' : mrtIsTimespecEmpty (attr.setPriority realThreadProtyDefault).schedInitBudget = false :=
    ht
  have hs' : (attr.setPriority realThreadProtyDefault).stackAddr = attr.stackAddr := rfl
  simp [revise, hp, ht', hs', hs]

end ThreadAttr

/-! ## Registration -/

section Registration

variable {configRollPoll : Bool} {rounds : Nat} {s s' : SchedulerTable} {list : StatusList}
  {p tid : Nat} {retval : Int}

/-- Adding a thread to a list writes link fields only. -/
theorem addStatusList_links (h : __scheduleAddStatusList configRollPoll rounds s p list =
    .ok (retval, s')) : ∃ links, s' = { s with links } := by
  unfold __scheduleAddStatusList at h
  split at h
  · cases h
    exact ⟨_, rfl⟩
  · obtain ⟨found, -, h⟩ := except_bind.mp h
    split at h
    · cases h
      exact ⟨s.links, rfl⟩
    · split at h
      · cases h
        exact ⟨_, rfl⟩
      · obtain ⟨place, -, h⟩ := except_bind.mp h
        cases h
        exact ⟨_, rfl⟩

theorem addToList_links (h : addToList configRollPoll rounds list s tid = .ok (retval, s')) :
    ∃ links, s' = { s with links } := by
  unfold addToList at h
  split at h
  · cases h
    exact ⟨s.links, rfl⟩
  · split at h
    · cases h
      exact ⟨s.links, rfl⟩
    · exact addStatusList_links h

/-- **`register_new_thread`**, where it succeeds: the tid was free, and is the thread's now. -/
theorem registerNewThread_ok (h : registerNewThread configRollPoll rounds s p tid =
    .ok (retval, s')) (hret : ¬ retval < 0) :
    s.sprtTidArray tid = none ∧
      s'.sprtTidArray = Function.update s.sprtTidArray tid (some p) ∧
      ∀ x, (s'.threads x).sprtAttr = (s.threads x).sprtAttr := by
  unfold registerNewThread at h
  split at h
  · cases h
    exact absurd (by decide) hret
  · rename_i hfree
    split at h
    · cases h
      exact absurd (by decide) hret
    · obtain ⟨⟨added, s₁⟩, hadd, h⟩ := except_bind.mp h
      obtain ⟨links, rfl⟩ := addToList_links hadd
      dsimp only at h
      by_cases hneg : added < 0
      · rw [if_pos hneg] at h
        cases h
        exact absurd hneg hret
      · rw [if_neg hneg] at h
        obtain ⟨s₂, hsync, h⟩ := except_bind.mp h
        have htid : Function.update s.sprtTidArray tid (some p) tid = some p :=
          Function.update_self ..
        rw [syncThreadStatus_spec htid (by decide)] at hsync
        cases hsync
        cases h
        refine ⟨by simpa using hfree, rfl, fun x => ?_⟩
        rw [marked_sprtAttr]

end Registration

/-! ## What survives creation -/

section Creation

variable {configRollPoll : Bool} {rounds : Nat} {k : Kzalloc} {w w' : Threads} {ptrId : Option Nat}
  {base : Int} {a tid startRoutine ptrArgs flags p t : Nat}

/-- What a successful creation with the attribute object `a` has done: the object holds the revised
attributes, and the thread object, which points to it, is registered under a tid that was free. -/
structure Created (k : Kzalloc) (w w' : Threads) (tid a : Nat) : Prop where
  attr : w'.attr a = ((w.attr a).revise k.stack).2
  free : w.table.sprtTidArray tid = none
  table : w'.table.sprtTidArray = Function.update w.table.sprtTidArray tid (some k.thread)
  priority : w'.table.priority k.thread = realThreadGetPriority (w'.attr a).toRealThreadAttr
  creation : (w'.creation k.thread).sprtAttr = a

theorem createWith_ok {sprtAttr : Option Nat} (h : createWith configRollPoll rounds k w ptrId sprtAttr
    tid a startRoutine ptrArgs = .ok (erNormal, w')) : Created k w w' tid a := by
  have hfail : ∀ v : Threads, createFail3 v sprtAttr a ≠ (erNormal, w') := by
    intro v hv
    have hcode : (-erFault : Int) = erNormal := congrArg Prod.fst hv
    exact absurd hcode (by decide)
  unfold createWith at h
  generalize hrevise : (w.attr a).revise k.stack = revised at h
  obtain ⟨stackAddr, attr⟩ := revised
  dsimp only at h
  split at h
  · exact absurd (Except.ok.inj h) (hfail _)
  split at h
  · exact absurd (Except.ok.inj h) (hfail _)
  obtain ⟨⟨retval, table⟩, hregister, h⟩ := except_bind.mp h
  dsimp only at h
  by_cases hneg : retval < 0
  · rw [if_pos hneg] at h
    exact absurd (Except.ok.inj h) (hfail _)
  rw [if_neg hneg] at h
  obtain ⟨hfree, htable, hattr⟩ := registerNewThread_ok hregister hneg
  have hself : (Function.update w.attr a attr) a = attr := Function.update_self ..
  have hthread : (table.threads k.thread).sprtAttr = attr.toRealThreadAttr := by
    rw [hattr]
    simp [newThread]
  have hpriority : table.priority k.thread =
      realThreadGetPriority (Function.update w.attr a attr a).toRealThreadAttr := by
    rw [SchedulerTable.priority, hthread, hself]
  have hcreation : (Function.update w.creation k.thread ⟨a, startRoutine, ptrArgs⟩
      k.thread).sprtAttr = a := by
    rw [Function.update_self]
  have hstored : (Function.update w.attr a attr) a = ((w.attr a).revise k.stack).2 := by
    rw [hself, hrevise]
  cases ptrId with
  | none =>
    cases h
    exact ⟨hstored, hfree, htable, hpriority, hcreation⟩
  | some id =>
    cases h
    exact ⟨hstored, hfree, htable, hpriority, hcreation⟩

theorem realThreadCreate_ok (h : __realThreadCreate configRollPoll rounds k w ptrId base (some a)
    startRoutine ptrArgs flags = .ok (erNormal, w')) : ∃ tid, Created k w w' tid a := by
  unfold __realThreadCreate at h
  generalize tidRange base flags = range at h
  obtain ⟨iStart, count⟩ := range
  dsimp only at h
  split at h
  · cases h
  · exact ⟨_, createWith_ok h⟩

/-- The attributes survive: the thread that has been registered points to the creator's attribute
object, which is what it was, its current priority is `p` and its time slice `t` milliseconds. -/
def Survive (w w' : Threads) (a p t : Nat) : Prop :=
  ∃ tid thread, w.table.sprtTidArray tid = none ∧ w'.table.sprtTidArray tid = some thread ∧
    (w'.creation thread).sprtAttr = a ∧ w'.attr a = w.attr a ∧ w'.table.priority thread = p ∧
    (w'.attr a).getSchedMsecs = t

theorem realThreadGetPriority_of_lt {attr : RealThreadAttr} (hp : p < 2 ^ 31)
    (h : attr.schedCurpriority = p) : realThreadGetPriority attr = p := by
  rw [realThreadGetPriority, h]
  omega

/-- **Attributes set by the creator survive creation exactly if the priority is not 0**, for any of
the three setters' values. -/
theorem attributes_survive_iff (configRollPoll : Bool) (rounds : Nat) (k : Kzalloc) (w w' : Threads)
    (ptrId : Option Nat) (base : Int) (a startRoutine ptrArgs flags p t : Nat) (hp : p ≤ 99)
    (ht : 0 < t) (ht32 : t < 2 ^ 32) (hprepared : (w.attr a).Prepared p t)
    (hcall : __realThreadCreate configRollPoll rounds k w ptrId base (some a) startRoutine ptrArgs
      flags = .ok (erNormal, w')) :
    Survive w w' a p t ↔ p ≠ 0 := by
  have hp31 : p < 2 ^ 31 := by omega
  obtain ⟨hprio, hcur, hbudget, hstack⟩ := hprepared.fields hp31
  obtain ⟨tid, hcreated⟩ := realThreadCreate_ok hcall
  have hslice : mrtIsTimespecEmpty (w.attr a).schedInitBudget = false := by
    rw [hbudget]
    exact mrtIsTimespecEmpty_msecs ht32 ht
  constructor
  · rintro ⟨tid', thread, hfree, hentry, -, -, hpriority, -⟩ rfl
    -- the entry that is new is the one of the thread just created, and its priority is the default
    have hthread : thread = k.thread := by
      rw [hcreated.table] at hentry
      by_cases heq : tid' = tid
      · rw [heq, Function.update_self] at hentry
        exact (Option.some.inj hentry).symm
      · rw [Function.update_of_ne heq, hfree] at hentry
        cases hentry
    have hattr := hcreated.attr
    rw [ThreadAttr.revise_of_zero hprio hslice hstack] at hattr
    have hdefault : (w'.attr a).schedCurpriority = realThreadProtyDefault := by
      rw [hattr, ThreadAttr.setPriority_of_lt (by decide)]
    rw [hthread, hcreated.priority, realThreadGetPriority_of_lt (by decide) hdefault] at hpriority
    exact absurd hpriority (by decide)
  · intro hne
    have hset : (w.attr a).schedPriority ≠ 0 := by
      rw [hprio]
      exact_mod_cast hne
    have hattr := hcreated.attr
    rw [ThreadAttr.revise_of_set hset hslice hstack] at hattr
    refine ⟨tid, k.thread, hcreated.free, ?_, hcreated.creation, hattr, ?_, ?_⟩
    · rw [hcreated.table, Function.update_self]
    · rw [hcreated.priority, hattr]
      exact realThreadGetPriority_of_lt hp31 hcur
    · rw [hattr, ThreadAttr.getSchedMsecs, hbudget]
      exact timeSpecToMsecs_msecsToTimeSpec ht32

end Creation

/-- The attributes that a creator prepares for a thread with a static stack at `0x20000`. -/
def preparedAttr (p : Nat) : ThreadAttr :=
  [ThreadAttr.Setter.setStack 0 0x20000 4096, .setPriority p, .setTimeSlice 40].foldl
    ThreadAttr.call .zero

/-- A table without threads, and prepared attributes at `0x8a000`. -/
def beforeCreation (p : Nat) : Threads where
  table := sgrtRealThreadTabs
  attr := fun _ => preparedAttr p
  creation := fun _ => ⟨0, 0, 0⟩
  ids := fun _ => 0
  blocks := []

/-- `kernel_thread_base_create`, with a thread object at `0x8b000`. -/
def createBase (p : Nat) : Except Stop (Int × Threads) :=
  __realThreadCreate false 200 ⟨0, 0, 0x8b000⟩ (beforeCreation p) none 1 (some 0x8a000) 0x100 0 0

theorem preparedAttr_prepared (p : Nat) : (preparedAttr p).Prepared p 40 :=
  ⟨.zero, 0, 0x20000, 4096, _, by
    exact (List.Perm.swap _ _ _).trans (List.Perm.cons _ (List.Perm.swap _ _ _)), by decide, rfl⟩

theorem attributes_survive_iff_base :
    ∃ w', createBase 5 = .ok (erNormal, w') ∧ (Survive (beforeCreation 5) w' 0x8a000 5 40 ↔ 5 ≠ 0) :=
  ⟨_, rfl, attributes_survive_iff false 200 ⟨0, 0, 0x8b000⟩ (beforeCreation 5) _ none 1 0x8a000
    0x100 0 0 5 40 (by decide) (by decide) (by decide) (preparedAttr_prepared 5) rfl⟩

/-- A thread whose creator asks for the top priority, as `kthread_init` does, gets the default one. -/
theorem top_priority_replaced :
    (beforeCreation 0).attr 0x8a000 = preparedAttr 0 ∧ (preparedAttr 0).Prepared 0 40 ∧
      ∃ w', createBase 0 = .ok (erNormal, w') ∧ w'.table.sprtTidArray 1 = some 0x8b000 ∧
        w'.table.priority 0x8b000 = 80 ∧ ¬ Survive (beforeCreation 0) w' 0x8a000 0 40 := by
  refine ⟨rfl, preparedAttr_prepared 0, _, rfl, rfl, by decide, ?_⟩
  rintro ⟨_, _, -, -, -, hattr, -⟩
  have hpriority := congrArg ThreadAttr.schedPriority hattr
  exact absurd hpriority (by decide)

end HeavenFox.Kernel
