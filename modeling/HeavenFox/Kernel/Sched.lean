/-
# HeavenFox.Kernel.Sched -- the scheduler of `sched.c`

Thread objects, the scheduler table with its three list heads, and the functions
that move a thread from one status to another.  A thread is named by the address
of its `struct real_thread`; the table maps tids to these addresses, and the list
heads and the `sgrt_link` of every thread share one set of link fields.

A call returns `Except.error` where the C code does not return: it reads through a
null pointer (`Stop.fault`), or a list walk does not meet its head within `rounds`
rounds (`Stop.spins`).  `configRollPoll` is `CONFIG_ROLL_POLL`.
-/
import HeavenFox.Common.ListTypes

-- the source's own leading underscores are kept
set_option linter.style.nameCheck false

namespace HeavenFox.Kernel

open HeavenFox.Logic HeavenFox.Common

/-! ## Data -/

/-- `enum __ERT_KEL_BASIC_STATUS`. -/
inductive BasicStatus where
  | none
  | running
  | ready
  | suspend
  | sleep
  | statusMax
  deriving DecidableEq, Repr

/-- What the scheduler reads of `struct real_thread_attr`. -/
structure RealThreadAttr where
  schedCurpriority : Int
  stackAddr : Nat
  deriving DecidableEq, Repr

/-- What the scheduler reads of `struct real_thread`; its link fields are in the table. -/
structure RealThread where
  tid : Nat
  status : BasicStatus
  toStatus : BasicStatus
  sprtAttr : RealThreadAttr
  deriving DecidableEq, Repr

/-- The three lists of the table. -/
inductive StatusList where
  | ready
  | suspend
  | sleep
  deriving DecidableEq, Repr

/-- The status of the threads on a list. -/
def StatusList.status : StatusList → BasicStatus
  | .ready => .ready
  | .suspend => .suspend
  | .sleep => .sleep

/-- Everything that has a `struct list_head`: the heads in the table, and the threads. -/
inductive Node where
  | head (list : StatusList)
  | link (thread : Nat)
  deriving DecidableEq, Repr

/-- `struct scheduler_table`, the thread objects, and the static `thread_schedule_ref`. -/
structure SchedulerTable where
  threads : Nat → RealThread
  links : Links Node
  schedCnt : Nat
  cntOut : Nat
  sprtWork : Option Nat
  sprtTidArray : Nat → Option Nat
  threadScheduleRef : Bool

/-- `REAL_THREAD_MAX_NUM`. -/
def realThreadMaxNum : Nat := 128

/-- `REAL_THREAD_TID_IDLE`. -/
def realThreadTidIdle : Nat := 0

/-- The static initialiser of the table.  The head of the sleep list is initialised with the address
of the head of the ready list. -/
def sgrtRealThreadTabs : SchedulerTable where
  threads := fun _ => ⟨0, .none, .none, ⟨0, 0⟩⟩
  links :=
    let init : Node → Node
      | .head .ready => .head .ready
      | .head .suspend => .head .suspend
      | .head .sleep => .head .ready
      | .link p => .link p
    ⟨init, init⟩
  schedCnt := 0
  cntOut := 0
  sprtWork := none
  sprtTidArray := fun _ => none
  threadScheduleRef := false

/-! ## Accessors -/

/-- `real_thread_get_priority`: the field is signed, the value returned is not. -/
def realThreadGetPriority (attr : RealThreadAttr) : Nat := (attr.schedCurpriority % 2 ^ 32).toNat

/-- `__THREAD_IS_LOW_PRIO`. -/
def __threadIsLowPrio (prio prio2 : Nat) : Bool := decide (prio2 ≤ prio)

/-- `real_thread_set_priority`, with `REAL_THREAD_PROTY_MAX` as the lowest value. -/
def realThreadSetPriority (attr : RealThreadAttr) (priority : Nat) : RealThreadAttr :=
  { attr with
    schedCurpriority := (if __threadIsLowPrio priority 0 then (priority : Int) else 0).bmod (2 ^ 32) }

/-- The priority of a thread. -/
def SchedulerTable.priority (s : SchedulerTable) (p : Nat) : Nat :=
  realThreadGetPriority (s.threads p).sprtAttr

/-- Write to a thread object. -/
def SchedulerTable.setThread (s : SchedulerTable) (p : Nat) (t : RealThread) : SchedulerTable :=
  { s with threads := Function.update s.threads p t }

/-- `__SET_THREAD_STATUS`. -/
def __setThreadStatus (s : SchedulerTable) (tid : Nat) (value : BasicStatus) :
    Except Stop SchedulerTable :=
  if value ≠ .statusMax then
    match s.sprtTidArray tid with
    | none => .error .fault
    | some p => .ok (s.setThread p { s.threads p with toStatus := value })
  else .ok s

/-- `__SYNC_THREAD_STATUS`. -/
def __syncThreadStatus (s : SchedulerTable) (tid : Nat) (value : BasicStatus) :
    Except Stop SchedulerTable :=
  if value ≠ .statusMax then
    match s.sprtTidArray tid with
    | none => .error .fault
    | some p => .ok (s.setThread p { s.threads p with status := value, toStatus := .none })
  else .ok s

/-- `real_thread_set_state`. -/
def realThreadSetState (s : SchedulerTable) (p : Nat) (state : BasicStatus) :
    Except Stop SchedulerTable :=
  __setThreadStatus s (s.threads p).tid state

/-- `mrt_list_first_valid_entry`: null for an empty list.  An entry that is a head is no thread. -/
def firstValidEntry (s : SchedulerTable) (head : StatusList) : Except Stop (Option Nat) :=
  if mrtListHeadEmpty s.links (.head head) then .ok none
  else
    match s.links.next (.head head) with
    | .link p => .ok (some p)
    | .head _ => .error .fault

/-- `scheduler_record`. -/
def schedulerRecord (s : SchedulerTable) : SchedulerTable :=
  if 2 ^ 32 - 1 ≤ s.schedCnt then { s with schedCnt := 0, cntOut := add32 s.cntOut 1 }
  else { s with schedCnt := add32 s.schedCnt 1 }

/-- `is_ready_thread_empty` and `is_sleep_thread_empty`. -/
def isThreadEmpty (s : SchedulerTable) (list : StatusList) : Bool :=
  mrtListHeadEmpty s.links (.head list)

def isReadyThreadEmpty (s : SchedulerTable) : Bool := isThreadEmpty s .ready

def isSleepThreadEmpty (s : SchedulerTable) : Bool := isThreadEmpty s .sleep

/-! ## Lists -/

section Lists

variable (configRollPoll : Bool) (rounds : Nat)

/-- The loop body of `__find_thread_from_scheduler`: an entry that is a head is no thread. -/
def findBody (s : SchedulerTable) (tid : Nat) : Node → Except Stop (Option Int)
  | .link p => .ok (if s.sprtTidArray tid = some p then some (tid : Int) else none)
  | .head _ => .ok none

/-- `__find_thread_from_scheduler`. -/
def __findThreadFromScheduler (s : SchedulerTable) (tid : Nat) (head : StatusList) :
    Except Stop Int := do
  let found ← foreachEntry s.links.next (.head head) (findBody s tid) rounds
    (s.links.next (.head head))
  pure (found.getD (-erNotfound))

/-- The loop body of `__schedule_add_status_list`, which reads the attributes of the entry. -/
def placeBody (s : SchedulerTable) (iPriority : Nat) : Node → Except Stop (Option Node)
  | .link p => .ok (if __threadIsLowPrio iPriority (s.priority p) then some (.link p) else none)
  | .head _ => .error .fault

/-- The loop of `__schedule_add_status_list`: from the back, the first thread that is not lower in
priority. -/
def findPlace (s : SchedulerTable) (iPriority : Nat) (head : StatusList) :
    Except Stop (Option Node) :=
  foreachEntry s.links.prev (.head head) (placeBody s iPriority) rounds (s.links.prev (.head head))

/-- `__schedule_add_status_list`. -/
def __scheduleAddStatusList (s : SchedulerTable) (p : Nat) (head : StatusList) :
    Except Stop (Int × SchedulerTable) :=
  if mrtListHeadEmpty s.links (.head head) then
    .ok (erNormal, { s with links := listHeadAddHead s.links (.head head) (.link p) })
  else do
    let found ← __findThreadFromScheduler rounds s (s.threads p).tid head
    if 0 ≤ found then pure (erNormal, s)
    else if configRollPoll then
      pure (erNormal, { s with links := listHeadAddTail s.links (.head head) (.link p) })
    else
      let place ← findPlace rounds s (s.priority p) head
      pure (erNormal,
        { s with links := listHeadAddHead s.links (place.getD (.head head)) (.link p) })

/-- `__schedule_del_status_list`. -/
def __scheduleDelStatusList (s : SchedulerTable) (p : Nat) (head : StatusList) :
    Except Stop SchedulerTable := do
  let links ← listHeadDelSafe rounds s.links (.head head) (.link p)
  pure { s with links := initListHead links (.link p) }

/-- The common body of `schedule_add_ready_list`, `schedule_add_suspend_list` and
`schedule_add_sleep_list`: a thread that has the status of the list already is not added. -/
def addToList (list : StatusList) (s : SchedulerTable) (tid : Nat) :
    Except Stop (Int × SchedulerTable) :=
  match s.sprtTidArray tid with
  | none => .ok (-erFault, s)
  | some p =>
    if (s.threads p).status = list.status then .ok (-erUnvalid, s)
    else __scheduleAddStatusList configRollPoll rounds s p list

def scheduleAddReadyList := addToList configRollPoll rounds .ready

def scheduleAddSuspendList := addToList configRollPoll rounds .suspend

def scheduleAddSleepList := addToList configRollPoll rounds .sleep

/-- The common body of `schedule_detach_ready_list`, `schedule_detach_suspend_list` and
`schedule_detach_sleep_list`. -/
def detachFromList (list : StatusList) (s : SchedulerTable) (tid : Nat) :
    Except Stop (Int × SchedulerTable) :=
  match s.sprtTidArray tid with
  | none => .ok (-erFault, s)
  | some p =>
    if (s.threads p).status ≠ list.status then .ok (-erUnvalid, s)
    else do
      let s ← __scheduleDelStatusList rounds s p list
      pure (erNormal, s)

def scheduleDetachReadyList := detachFromList rounds .ready

def scheduleDetachSuspendList := detachFromList rounds .suspend

def scheduleDetachSleepList := detachFromList rounds .sleep

/-! ## Switching -/

/-- `schedule_despoil_work_role`: only a ready thread becomes running. -/
def scheduleDespoilWorkRole (s : SchedulerTable) (tid : Nat) : Except Stop (Int × SchedulerTable) :=
  match s.sprtTidArray tid with
  | none => .ok (-erFault, s)
  | some p =>
    if (s.threads p).status ≠ .ready then .ok (-erUnvalid, s)
    else
      match s.sprtWork with
      | none => .ok (erNormal, { s with sprtWork := some p })
      | some w => do
        let (retval, s) ← scheduleAddReadyList configRollPoll rounds s (s.threads w).tid
        if retval < 0 then pure (retval, s)
        else
          let s ← __syncThreadStatus s (s.threads w).tid .ready
          pure (erNormal, { s with sprtWork := some p })

/-- `schedule_reinstall_work_role`: the first ready thread takes the place of the running one. -/
def scheduleReinstallWorkRole (s : SchedulerTable) (tid : Nat) :
    Except Stop (Int × SchedulerTable) :=
  match s.sprtWork with
  | none => .error .fault
  | some w =>
    if tid ≠ (s.threads w).tid then .ok (-erUnvalid, s)
    else if mrtListHeadEmpty s.links (.head .ready) then .ok (-erFault, s)
    else do
      match ← firstValidEntry s .ready with
      | none => pure (-erFaild, s)
      | some p =>
        let (_, s) ← scheduleDetachReadyList rounds s (s.threads p).tid
        let s := { s with sprtWork := some p }
        let s ← __syncThreadStatus s (s.threads p).tid .running
        pure (erNormal, s)

/-- The first `switch` of `schedule_thread_switch`.  Only the result of
`schedule_reinstall_work_role` is looked at. -/
def detachFromSource (s : SchedulerTable) (tid : Nat) :
    BasicStatus → Except Stop (Int × SchedulerTable)
  | .running => scheduleReinstallWorkRole rounds s tid
  | .ready => do
    let (_, s) ← scheduleDetachReadyList rounds s tid
    pure (erNormal, s)
  | .suspend => do
    let (_, s) ← scheduleDetachSuspendList rounds s tid
    pure (erNormal, s)
  | .sleep => do
    let (_, s) ← scheduleDetachSleepList rounds s tid
    pure (erNormal, s)
  | _ => pure (erNormal, s)

/-- The second `switch` of `schedule_thread_switch`. -/
def addToTarget (s : SchedulerTable) (tid : Nat) :
    BasicStatus → Except Stop (Int × SchedulerTable)
  | .running => scheduleDespoilWorkRole configRollPoll rounds s tid
  | .ready => scheduleAddReadyList configRollPoll rounds s tid
  | .suspend => scheduleAddSuspendList configRollPoll rounds s tid
  | .sleep => scheduleAddSleepList configRollPoll rounds s tid
  | _ => pure (-erError, s)

/-- The label `fail` of `schedule_thread_switch`. -/
def switchFail (s : SchedulerTable) (tid : Nat) (src : BasicStatus) :
    Except Stop (Int × SchedulerTable) := do
  let s ← __syncThreadStatus s tid src
  pure (-erUnvalid, s)

/-- `schedule_thread_switch`: from `status` to `to_status`. -/
def scheduleThreadSwitch (s : SchedulerTable) (tid : Nat) : Except Stop (Int × SchedulerTable) :=
  match s.sprtTidArray tid with
  | none => .error .fault
  | some p =>
    let src := (s.threads p).status
    let dst := (s.threads p).toStatus
    if src = dst ∨ dst = .statusMax then switchFail s tid src
    else if tid = realThreadTidIdle ∧ dst ≠ .running ∧ dst ≠ .ready then switchFail s tid src
    else do
      let (retval, s) ← detachFromSource rounds s tid src
      if retval ≠ 0 then switchFail s tid src
      else
        let (retval, s) ← addToTarget configRollPoll rounds s tid dst
        if retval < 0 then pure (retval, s)
        else if s.sprtWork = none then pure (retval, s)
        else
          let s ← __syncThreadStatus s tid dst
          pure (erNormal, s)

/-! ## Entry points -/

/-- `register_new_thread`. -/
def registerNewThread (s : SchedulerTable) (p tid : Nat) : Except Stop (Int × SchedulerTable) :=
  if (s.sprtTidArray tid).isSome then .ok (-erUnvalid, s)
  else if (s.threads p).sprtAttr.stackAddr = 0 then .ok (-erNomem, s)
  else do
    let s := { s with
      sprtTidArray := Function.update s.sprtTidArray tid (some p)
      links := initListHead s.links (.link p) }
    let (retval, s) ← scheduleAddReadyList configRollPoll rounds s tid
    if retval < 0 then
      pure (retval, { s with sprtTidArray := Function.update s.sprtTidArray tid none })
    else
      let s ← __syncThreadStatus s tid .ready
      pure (erNormal, s)

/-- `struct scheduler_context`: the thread whose entry, arguments and stack are taken up, and the
thread, if any, whose stack is left. -/
structure SchedulerContext where
  next : Nat
  prev : Option Nat
  deriving DecidableEq, Repr

/-- The thread `__schedule_thread` switches away from: the running one or, the first time, the first
ready thread, which is then marked for running.  Null where the function fails. -/
def schedulePrev (s : SchedulerTable) : Except Stop (Option Nat × SchedulerTable) :=
  match s.sprtWork with
  | some w => .ok (some w, s)
  | none =>
    if s.threadScheduleRef then .ok (none, s)
    else do
      match ← firstValidEntry s .ready with
      | none => pure (none, s)
      | some p =>
        let s ← __setThreadStatus s (s.threads p).tid .running
        pure (some p, s)

/-- Without a target status a thread goes back to ready. -/
def defaultToReady (s : SchedulerTable) (prev : Nat) : Except Stop SchedulerTable :=
  if (s.threads prev).toStatus = .none then __setThreadStatus s (s.threads prev).tid .ready
  else .ok s

/-- `__schedule_thread`; a null pointer is returned where it fails. -/
def __scheduleThread (s : SchedulerTable) :
    Except Stop (Option SchedulerContext × SchedulerTable) :=
  if mrtListHeadEmpty s.links (.head .ready) then .ok (none, s)
  else do
    let (sprtPrev, s) ← schedulePrev s
    match sprtPrev with
    | none => pure (none, s)
    | some prev =>
      let s ← defaultToReady s prev
      let (retval, s) ← scheduleThreadSwitch configRollPoll rounds s (s.threads prev).tid
      if retval < 0 then pure (none, s)
      else
        match s.sprtWork with
        | none => pure (none, s)
        | some next =>
          let prev := if s.threadScheduleRef then some prev else none
          pure (some ⟨next, prev⟩, schedulerRecord s)

/-- `schedule_thread`.  `context_switch` sets `thread_schedule_ref` the first time it enters a
thread. -/
def scheduleThread (s : SchedulerTable) : Except Stop SchedulerTable := do
  let (sprtContext, s) ← __scheduleThread configRollPoll rounds s
  match sprtContext with
  | none => pure s
  | some _ => pure { s with threadScheduleRef := true }

/-- `schedule_self_suspend`. -/
def scheduleSelfSuspend (s : SchedulerTable) : Except Stop SchedulerTable :=
  match s.sprtWork with
  | none => .error .fault
  | some w => do
    let s ← __setThreadStatus s (s.threads w).tid .suspend
    scheduleThread configRollPoll rounds s

/-- `schedule_thread_suspend`. -/
def scheduleThreadSuspend (s : SchedulerTable) (tid : Nat) : Except Stop (Int × SchedulerTable) :=
  match s.sprtWork with
  | none => .error .fault
  | some w =>
    if tid = (s.threads w).tid then do
      let s ← scheduleSelfSuspend configRollPoll rounds s
      pure (erNormal, s)
    else do
      let s ← __setThreadStatus s tid .suspend
      scheduleThreadSwitch configRollPoll rounds s tid

/-- `schedule_thread_wakeup`. -/
def scheduleThreadWakeup (s : SchedulerTable) (tid : Nat) : Except Stop (Int × SchedulerTable) :=
  match s.sprtTidArray tid with
  | none => .error .fault
  | some p =>
    if (s.threads p).status ≠ .suspend then .ok (-erUnvalid, s)
    else do
      let s ← __setThreadStatus s tid .ready
      scheduleThreadSwitch configRollPoll rounds s tid

end Lists

end HeavenFox.Kernel
