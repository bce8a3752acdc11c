/-
# HeavenFox.Kernel.Mailbox -- mailboxes and mails of `mailbox.c`

A mailbox is registered in a global list under a name; a mail is linked into the
list of the mailbox it is sent to by its own link field, and stays the sender's
object.  Receiving copies the messages of the first mail into an object of the
receiver and unlinks the mail; a mail that names the mailbox as its own source is
freed as well.

The calls below are made by threads, one whole call after another.  A call
returns `Except.error` where the C code does not return: it touches freed memory
or follows a link to something that is no mail (`Stop.fault`), or it waits for a
lock or a mail that no one else can bring while it runs (`Stop.spins`).  The
k-th allocation of a call returns `alloc k`.
-/
import HeavenFox.Common.ListTypes
import HeavenFox.Kernel.Mutex

namespace HeavenFox.Kernel

open HeavenFox.Common HeavenFox.Logic

/-! ## Data -/

/-- The characters of a string up to its terminator. -/
def cString (bytes : List UInt8) : List UInt8 := bytes.takeWhile (· ≠ 0)

/-- `!strcmp(s1, s2)`. -/
def strEqual (s1 s2 : List UInt8) : Bool := decide (cString s1 = cString s2)

/-- `struct mail_msg`: `buffer` is what the pointer of that name points at, `size` bytes. -/
structure MailMsg where
  type : Nat
  code : Nat
  size : Nat
  buffer : List UInt8
  sized : buffer.length = size
  deriving DecidableEq, Repr

/-- `enum __ERT_KERNEL_MAIL_STATUS`. -/
inductive MailStatus where
  | none
  | alreadyRead
  | denied
  | discard
  | error
  deriving DecidableEq, Repr

/-- `struct mail` without its link, and whether it has been freed.  `sprtMsg` is the array that the
pointer of that name points at. -/
structure Mail where
  srcName : Option (List UInt8)
  sprtMsg : Option (List MailMsg)
  numMsgs : Nat
  status : MailStatus
  sgrtLock : Nat
  freed : Bool
  deriving DecidableEq, Repr

/-- What the mail functions read of `struct mailbox`, without its links. -/
structure Mailbox where
  name : List UInt8
  numMails : Nat
  sgrtLock : Nat
  deriving DecidableEq, Repr

/-- Everything that has a `struct list_head`: the global head `sgrt_kernel_mailboxs`, the `sgrt_link`
and the `sgrt_mail` of every mailbox, and the `sgrt_link` of every mail. -/
inductive MailNode where
  | sgrtKernelMailboxs
  | boxLink (b : ObjPtr)
  | boxMail (b : ObjPtr)
  | mailLink (m : ObjPtr)
  deriving DecidableEq, Repr

/-- All link fields, mailboxes and mails. -/
structure MailState where
  links : Links MailNode
  boxes : ObjPtr → Mailbox
  mails : ObjPtr → Mail

namespace MailState

/-- Write to a mailbox. -/
def setBox (s : MailState) (b : ObjPtr) (box : Mailbox) : MailState :=
  { s with boxes := Function.update s.boxes b box }

/-- Write to a mail. -/
def setMail (s : MailState) (m : ObjPtr) (mail : Mail) : MailState :=
  { s with mails := Function.update s.mails m mail }

/-! ## Locks -/

/-- `mutex_lock(&sprt_mb->sgrt_lock)`. -/
def lockBox (s : MailState) (b : ObjPtr) : Except Stop MailState :=
  match mutexLock.alone (s.boxes b).sgrtLock with
  | none => .error .spins
  | some (counter, _) => .ok (s.setBox b { s.boxes b with sgrtLock := counter })

/-- `mutex_unlock(&sprt_mb->sgrt_lock)`. -/
def unlockBox (s : MailState) (b : ObjPtr) : Except Stop MailState :=
  match mutexUnlock.alone (s.boxes b).sgrtLock with
  | none => .error .spins
  | some (counter, _) => .ok (s.setBox b { s.boxes b with sgrtLock := counter })

/-- `mutex_lock(&sprt_mail->sgrt_lock)`. -/
def lockMail (s : MailState) (m : ObjPtr) : Except Stop MailState :=
  match mutexLock.alone (s.mails m).sgrtLock with
  | none => .error .spins
  | some (counter, _) => .ok (s.setMail m { s.mails m with sgrtLock := counter })

/-- `mutex_unlock(&sprt_mail->sgrt_lock)`. -/
def unlockMail (s : MailState) (m : ObjPtr) : Except Stop MailState :=
  match mutexUnlock.alone (s.mails m).sgrtLock with
  | none => .error .spins
  | some (counter, _) => .ok (s.setMail m { s.mails m with sgrtLock := counter })

end MailState

/-! ## Sending -/

/-- `mailbox_find`. -/
def mailboxFind (rounds : Nat) (s : MailState) (name : Option (List UInt8)) :
    Except Stop (Option ObjPtr) :=
  match name with
  | none => .ok none
  | some name =>
    if cString name = [] then .ok none
    else
      foreachEntry s.links.next .sgrtKernelMailboxs
        (fun pos =>
          match pos with
          | .boxLink b => .ok (if strEqual (s.boxes b).name name then some b else none)
          | _ => .error .fault)
        rounds (s.links.next .sgrtKernelMailboxs)

/-- `mail_send`. -/
def mailSend (rounds : Nat) (s : MailState) (mbName : Option (List UInt8))
    (sprtMail : Option ObjPtr) : Except Stop (MailState × Int) :=
  match sprtMail with
  | none => .ok (s, -erNomem)
  | some m =>
    if (s.mails m).freed then .error .fault
    else if (s.mails m).sprtMsg = none then .ok (s, -erNomem)
    else do
      match ← mailboxFind rounds s mbName with
      | none => pure (s, ptrErr 0)
      | some b =>
        let s ← s.lockMail m
        let s ← s.lockBox b
        let s := { s with links := listHeadAddTail s.links (.boxMail b) (.mailLink m) }
        let s := s.setBox b { s.boxes b with numMails := add32 (s.boxes b).numMails 1 }
        let s ← s.unlockBox b
        let s := s.setMail m { s.mails m with status := .none }
        let s ← s.unlockMail m
        pure (s, erNormal)

/-- A mail as `mail_create` leaves it, for the owner of a mailbox to send. -/
def mailCreate (sprtMb : Mailbox) : Mail where
  srcName := some sprtMb.name
  sprtMsg := none
  numMsgs := 0
  status := .none
  sgrtLock := atomicSet 0
  freed := false

/-! ## Receiving -/

/-- `mail_destroy`. -/
def mailDestroy (s : MailState) (sprtMb sprtMail : Option ObjPtr) : Except Stop MailState :=
  match sprtMail with
  | none => .ok s
  | some m => do
    let s ← s.lockMail m
    let s := { s with links := listHeadDel s.links (.mailLink m) }
    match sprtMb with
    | none => s.unlockMail m
    | some b =>
      match (s.mails m).srcName with
      | none => .error .fault
      | some srcName =>
        if strEqual (s.boxes b).name srcName then
          pure (s.setMail m { s.mails m with freed := true })
        else s.unlockMail m

/-- `mail_recv_finish`. -/
def mailRecvFinish (s : MailState) (r : ObjPtr) : MailState :=
  let mail := s.mails r
  let mail := if mail.sprtMsg.isSome then { mail with sprtMsg := none, numMsgs := 0 } else mail
  s.setMail r { mail with srcName := none, status := .alreadyRead, sgrtLock := atomicSet 0 }

/-- The copy of a message into the buffer an allocation returned. -/
def MailMsg.copy (msg : MailMsg) (buffer : Nat) : MailMsg :=
  if isValid buffer then
    { type := msg.type
      code := msg.code
      size := msg.size
      buffer := msg.buffer.take msg.size
      sized := by simp [msg.sized] }
  else
    { type := msg.type, code := msg.code, size := 0, buffer := [], sized := rfl }

/-- The loop of `mail_recv` over the messages from `msgIdx` on. -/
def copyMsgs (alloc : Nat → Nat) (sprtMsg : List MailMsg) :
    (todo msgIdx : Nat) → Except Stop (List MailMsg)
  | 0, _ => .ok []
  | todo + 1, msgIdx =>
    match sprtMsg[msgIdx]? with
    | none => .error .fault
    | some msg => do
      let rest ← copyMsgs alloc sprtMsg todo (msgIdx + 1)
      pure (msg.copy (alloc (msgIdx + 1)) :: rest)

/-- The label `END` of `mail_recv`. -/
def mailRecvEnd (s : MailState) (b m : ObjPtr) (retval : Int) : Except Stop (MailState × Int) := do
  let s := s.setBox b { s.boxes b with numMails := sub32 (s.boxes b).numMails 1 }
  let s ← s.unlockMail m
  let s ← mailDestroy s (some b) (some m)
  pure (s, retval)

/-- `mail_recv` from the place where the first mail is locked and known to be linked. -/
def mailRecvTake (alloc : Nat → Nat) (s : MailState) (b m r : ObjPtr) :
    Except Stop (MailState × Int) := do
  let s := mailRecvFinish s r
  let s := s.setMail r { s.mails r with status := .none }
  match (s.mails m).sprtMsg with
  | none =>
    mailRecvEnd (s.setMail m { s.mails m with status := .error }) b m (-erEmpty)
  | some sprtMsg =>
    if (s.mails m).numMsgs = 0 then
      mailRecvEnd (s.setMail m { s.mails m with status := .error }) b m (-erEmpty)
    else if isValid (alloc 0) = false then mailRecvEnd s b m (ptrErr (alloc 0))
    else do
      let numMsgs := (s.mails m).numMsgs
      let copies ← copyMsgs alloc sprtMsg numMsgs 0
      let s := s.setMail r { s.mails r with numMsgs := numMsgs, sprtMsg := some copies }
      let s := s.setMail m { s.mails m with status := .alreadyRead }
      mailRecvEnd s b m ((numMsgs : Int).bmod (2 ^ 32))

/-- `mail_recv`.  With a timeout and no mail it goes on waiting. -/
def mailRecv (alloc : Nat → Nat) (s : MailState) (sprtMb sprtMail : Option ObjPtr)
    (timeout : Nat) : Except Stop (MailState × Int) :=
  match sprtMb, sprtMail with
  | some b, some r =>
    if mrtListHeadEmpty s.links (.boxMail b) then
      if timeout = 0 then .ok (s, -erEmpty) else .error .spins
    else do
      let s ← s.lockBox b
      let sprtRecv := s.links.next (.boxMail b)
      let s ← s.unlockBox b
      match sprtRecv with
      | .mailLink m =>
        if (s.mails m).freed then .error .fault
        else do
          let s ← s.lockMail m
          if mrtListHeadEmpty s.links (.mailLink m) then pure (s, -erEmpty)
          else mailRecvTake alloc s b m r
      | _ => .error .fault
  | _, _ => .ok (s, -erNomem)

end HeavenFox.Kernel
