/-
# HeavenFox.Kernel.MailboxCalls -- what the mail functions do

One lemma for each function: the state it leaves and the value it returns, where
the locks it takes are free and the links it follows are in place.  The states are
`posted` (a mail at the end of a mailbox's list) and `received` (a mail off the
list, its messages in the receiver's object).
-/
import HeavenFox.Kernel.Mailbox

namespace HeavenFox.Kernel

open HeavenFox.Common HeavenFox.Logic

variable {s : MailState} {b m r : ObjPtr}

/-! ## Locks -/

namespace MailState

@[simp] theorem setBox_links (s : MailState) (b : ObjPtr) (box : Mailbox) :
    (s.setBox b box).links = s.links := rfl

@[simp] theorem setBox_mails (s : MailState) (b : ObjPtr) (box : Mailbox) :
    (s.setBox b box).mails = s.mails := rfl

@[simp] theorem setBox_boxes (s : MailState) (b : ObjPtr) (box : Mailbox) :
    (s.setBox b box).boxes = Function.update s.boxes b box := rfl

@[simp] theorem setMail_links (s : MailState) (m : ObjPtr) (mail : Mail) :
    (s.setMail m mail).links = s.links := rfl

@[simp] theorem setMail_boxes (s : MailState) (m : ObjPtr) (mail : Mail) :
    (s.setMail m mail).boxes = s.boxes := rfl

@[simp] theorem setMail_mails (s : MailState) (m : ObjPtr) (mail : Mail) :
    (s.setMail m mail).mails = Function.update s.mails m mail := rfl

theorem lockBox_free (h : (s.boxes b).sgrtLock = 0) :
    s.lockBox b = .ok (s.setBox b { s.boxes b with sgrtLock := 1 }) := by
  rw [lockBox, h, mutexLock_alone_zero]

theorem unlockBox_taken (h : (s.boxes b).sgrtLock = 1) :
    s.unlockBox b = .ok (s.setBox b { s.boxes b with sgrtLock := 0 }) := by
  rw [unlockBox, h, mutexUnlock_alone_one]

theorem lockMail_free (h : (s.mails m).sgrtLock = 0) :
    s.lockMail m = .ok (s.setMail m { s.mails m with sgrtLock := 1 }) := by
  rw [lockMail, h, mutexLock_alone_zero]

theorem unlockMail_taken (h : (s.mails m).sgrtLock = 1) :
    s.unlockMail m = .ok (s.setMail m { s.mails m with sgrtLock := 0 }) := by
  rw [unlockMail, h, mutexUnlock_alone_one]

/-! ## Sending -/

/-- The mail at the end of the mailbox's list. -/
def posted (s : MailState) (b m : ObjPtr) : MailState where
  links := listHeadAddTail s.links (.boxMail b) (.mailLink m)
  boxes := Function.update s.boxes b
    { s.boxes b with numMails := add32 (s.boxes b).numMails 1 }
  mails := Function.update s.mails m { s.mails m with status := .none }

end MailState

@[simp] theorem MailState.posted_name (s : MailState) (b m c : ObjPtr) :
    ((s.posted b m).boxes c).name = (s.boxes c).name := by
  by_cases hc : c = b
  · subst hc
    simp [MailState.posted]
  · simp [MailState.posted, Function.update_of_ne hc]

@[simp] theorem MailState.posted_lock (s : MailState) (b m c : ObjPtr) :
    ((s.posted b m).boxes c).sgrtLock = (s.boxes c).sgrtLock := by
  by_cases hc : c = b
  · subst hc
    simp [MailState.posted]
  · simp [MailState.posted, Function.update_of_ne hc]

/-- Sending touches the status of the mail only. -/
theorem MailState.posted_mails (s : MailState) (b m x : ObjPtr) :
    ∃ status, (s.posted b m).mails x = { s.mails x with status } := by
  by_cases hx : x = m
  · subst hx
    exact ⟨.none, by simp [MailState.posted]⟩
  · exact ⟨(s.mails x).status, by simp [MailState.posted, Function.update_of_ne hx]⟩

/-- The mailboxes of the global list are searched in order. -/
theorem mailboxFind_eq {boxes : List ObjPtr} {name : List UInt8} {rounds : Nat}
    (r : Ring s.links .sgrtKernelMailboxs (boxes.map .boxLink)) (hname : cString name ≠ [])
    (hrounds : boxes.length < rounds) :
    mailboxFind rounds s (some name) =
      .ok (boxes.find? fun b => strEqual (s.boxes b).name name) := by
  rw [mailboxFind, if_neg hname, List.find?_eq_findSome?_guard]
  exact foreachEntry_next r (fun b _ => rfl) hrounds

/-- A mail without a message array, or for a name nobody registered, is refused. -/
theorem mailSend_refused {name : Option (List UInt8)} {rounds : Nat}
    (hfreed : (s.mails m).freed = false)
    (h : (s.mails m).sprtMsg = none ∨ mailboxFind rounds s name = .ok none) :
    mailSend rounds s name (some m) = .ok (s, -erNomem) := by
  by_cases hmsg : (s.mails m).sprtMsg = none
  · simp [mailSend, hfreed, hmsg]
  · have hfind := h.resolve_left hmsg
    simp only [mailSend, hfreed, Bool.false_eq_true, if_false, if_neg hmsg, hfind]
    rfl

/-- **`mail_send`** links the mail at the end of the list and counts it. -/
theorem mailSend_posted {name : Option (List UInt8)} {rounds : Nat}
    (hfreed : (s.mails m).freed = false) (hmsg : (s.mails m).sprtMsg ≠ none)
    (hfind : mailboxFind rounds s name = .ok (some b)) (hmail : (s.mails m).sgrtLock = 0)
    (hbox : (s.boxes b).sgrtLock = 0) :
    mailSend rounds s name (some m) = .ok (s.posted b m, erNormal) := by
  simp only [mailSend, hfreed, Bool.false_eq_true, if_false, if_neg hmsg, hfind]
  simp [bind, Except.bind, pure, Except.pure, MailState.lockMail_free, MailState.lockBox_free,
    MailState.unlockBox_taken, MailState.unlockMail_taken, hmail, hbox, MailState.setBox,
    MailState.setMail, MailState.posted]

/-! ## Receiving -/

/-- The messages of a mail. -/
def Mail.messages (mail : Mail) : List MailMsg := (mail.sprtMsg.getD []).take mail.numMsgs

/-- What is left of a mail when it has been taken off the list of a mailbox. -/
def Mail.released (mail : Mail) (box : Mailbox) : Mail :=
  if strEqual box.name (mail.srcName.getD []) then { mail with sgrtLock := 1, freed := true }
  else { mail with sgrtLock := 0 }

/-- The receiver's object with messages in it. -/
def Mail.filled (mail : Mail) (messages : Option (List MailMsg)) (numMsgs : Nat) : Mail :=
  { mail with srcName := none, sprtMsg := messages, numMsgs, status := .none, sgrtLock := 0 }

/-- The mail `m` off the list, with the contents `mail`, and the object `r` with the contents
`object`. -/
def MailState.received (s : MailState) (b m r : ObjPtr) (mail object : Mail) : MailState where
  links := listHeadDel s.links (.mailLink m)
  boxes := Function.update s.boxes b
    { s.boxes b with numMails := sub32 (s.boxes b).numMails 1 }
  mails := Function.update (Function.update s.mails r object) m mail

@[simp] theorem MailState.received_name (s : MailState) (b m r c : ObjPtr) (mail object : Mail) :
    ((s.received b m r mail object).boxes c).name = (s.boxes c).name := by
  by_cases hc : c = b
  · subst hc
    simp [MailState.received]
  · simp [MailState.received, Function.update_of_ne hc]

/-- `mail_recv` from `END` on: the mail is counted off, unlinked, and freed if it is the mailbox's
own. -/
theorem mailRecvEnd_eq {retval : Int} (srcName : List UInt8)
    (hlock : (s.mails m).sgrtLock = 1) (hsrc : (s.mails m).srcName = some srcName) :
    mailRecvEnd s b m retval =
      .ok (s.received b m m ((s.mails m).released (s.boxes b)) (s.mails m), retval) := by
  by_cases hown : strEqual (s.boxes b).name srcName = true <;>
    simp [mailRecvEnd, mailDestroy, bind, Except.bind, pure, Except.pure, MailState.lockMail_free,
      MailState.unlockMail_taken, hlock, hsrc, hown, MailState.setBox, MailState.setMail,
      MailState.received, Mail.released]

/-- A copy into memory that was there is the message itself. -/
theorem MailMsg.copy_eq {msg : MailMsg} {buffer : Nat} (h : isValid buffer = true) :
    msg.copy buffer = msg := by
  have htake : msg.buffer.take msg.size = msg.buffer := List.take_of_length_le (by rw [msg.sized])
  simp [MailMsg.copy, h, htake]

/-- The loop copies the messages as they are. -/
theorem copyMsgs_eq {alloc : Nat → Nat} {sprtMsg : List MailMsg} {todo msgIdx : Nat}
    (halloc : ∀ k, isValid (alloc k) = true) (h : msgIdx + todo ≤ sprtMsg.length) :
    copyMsgs alloc sprtMsg todo msgIdx = .ok ((sprtMsg.drop msgIdx).take todo) := by
  induction todo generalizing msgIdx with
  | zero => simp [copyMsgs]
  | succ todo ih =>
    have hlt : msgIdx < sprtMsg.length := by omega
    have hdrop : sprtMsg.drop msgIdx = sprtMsg[msgIdx] :: sprtMsg.drop (msgIdx + 1) :=
      List.drop_eq_getElem_cons hlt
    have hget : sprtMsg[msgIdx]? = some sprtMsg[msgIdx] := List.getElem?_eq_getElem hlt
    rw [hdrop, List.take_succ_cons]
    have hrest := ih (show (msgIdx + 1) + todo ≤ sprtMsg.length by omega)
    simp only [copyMsgs, hget, hrest, MailMsg.copy_eq (halloc _)]
    rfl

/-- The object a receiver hands in is emptied first. -/
theorem mailRecvFinish_eq (s : MailState) (r : ObjPtr) :
    (mailRecvFinish s r).setMail r { (mailRecvFinish s r).mails r with status := .none } =
      s.setMail r ((s.mails r).filled none
        (if (s.mails r).sprtMsg.isSome then 0 else (s.mails r).numMsgs)) := by
  cases hmsg : (s.mails r).sprtMsg with
  | none => simp [mailRecvFinish, MailState.setMail, Mail.filled, hmsg, atomicSet]
  | some sprtMsg => simp [mailRecvFinish, MailState.setMail, Mail.filled, hmsg, atomicSet]

/-- **Receiving a mail that carries messages**: they are copied into the receiver's object, and
their number is returned. -/
theorem mailRecvTake_messages {alloc : Nat → Nat} (srcName : List UInt8) (sprtMsg : List MailMsg)
    (halloc : ∀ k, isValid (alloc k) = true) (hmr : m ≠ r) (hlock : (s.mails m).sgrtLock = 1)
    (hsrc : (s.mails m).srcName = some srcName) (hmsg : (s.mails m).sprtMsg = some sprtMsg)
    (hnum : (s.mails m).numMsgs ≤ sprtMsg.length) (hpos : (s.mails m).numMsgs ≠ 0) :
    mailRecvTake alloc s b m r =
      .ok (s.received b m r (Mail.released { s.mails m with status := .alreadyRead } (s.boxes b))
        ((s.mails r).filled (some (s.mails m).messages) (s.mails m).numMsgs),
        ((s.mails m).numMsgs : Int).bmod (2 ^ 32)) := by
  have hcopy : copyMsgs alloc sprtMsg (s.mails m).numMsgs 0 = .ok (s.mails m).messages := by
    rw [copyMsgs_eq halloc (by omega)]
    simp [Mail.messages, hmsg]
  simp only [mailRecvTake, mailRecvFinish_eq]
  simp only [MailState.setMail_mails, Function.update_of_ne hmr, hmsg, if_neg hpos, halloc,
    Bool.true_eq_false, if_false, hcopy]
  refine (mailRecvEnd_eq srcName ?_ ?_).trans ?_
  · simpa using hlock
  · simpa using hsrc
  · simp [MailState.received, MailState.setMail, Mail.filled, Mail.released]

/-- Receiving a mail that carries none leaves the receiver's object empty. -/
theorem mailRecvTake_empty (alloc : Nat → Nat) (srcName : List UInt8)
    (hmr : m ≠ r) (hlock : (s.mails m).sgrtLock = 1)
    (hsrc : (s.mails m).srcName = some srcName) (hnum : (s.mails m).numMsgs = 0) :
    ∃ object, mailRecvTake alloc s b m r =
      .ok (s.received b m r (Mail.released { s.mails m with status := .error } (s.boxes b)) object,
        -erEmpty) := by
  refine ⟨(s.mails r).filled none
    (if (s.mails r).sprtMsg.isSome then 0 else (s.mails r).numMsgs), ?_⟩
  have hend : mailRecvTake alloc s b m r = mailRecvEnd ((s.setMail r ((s.mails r).filled none
      (if (s.mails r).sprtMsg.isSome then 0 else (s.mails r).numMsgs))).setMail m
        { s.mails m with status := .error }) b m (-erEmpty) := by
    simp only [mailRecvTake, mailRecvFinish_eq, MailState.setMail_mails, Function.update_of_ne hmr,
      hnum, if_true]
    cases (s.mails m).sprtMsg <;> rfl
  refine hend.trans ((mailRecvEnd_eq srcName ?_ ?_).trans ?_)
  · simpa using hlock
  · simpa using hsrc
  · simp [MailState.received, MailState.setMail, Mail.released]

/-- The first mail of a list, locked by the receiver. -/
def MailState.opened (s : MailState) (m : ObjPtr) : MailState :=
  s.setMail m { s.mails m with sgrtLock := 1 }

/-- `mail_recv` on a mailbox with mail goes on with the first mail of the list. -/
theorem mailRecv_first {alloc : Nat → Nat} {timeout : Nat} {rest : List ObjPtr}
    (hring : Ring s.links (.boxMail b) ((m :: rest).map .mailLink))
    (hbox : (s.boxes b).sgrtLock = 0) (hmail : (s.mails m).sgrtLock = 0)
    (hfreed : (s.mails m).freed = false) :
    mailRecv alloc s (some b) (some r) timeout = mailRecvTake alloc (s.opened m) b m r := by
  have hempty : mrtListHeadEmpty s.links (.boxMail b) = false := by
    rw [Bool.eq_false_iff, Ne, mrtListHeadEmpty_iff hring]
    simp
  have hfirst : s.links.next (.boxMail b) = .mailLink m := hring.path.1.1
  have hlinked : mrtListHeadEmpty s.links (.mailLink m) = false := by
    have hprev : s.links.prev (.mailLink m) = .boxMail b := hring.path.1.2
    simp [mrtListHeadEmpty, hprev]
  have hboxes : { s.boxes b with sgrtLock := 0 } = s.boxes b := by rw [← hbox]
  simp [mailRecv, hempty, bind, Except.bind, MailState.lockBox_free, hbox,
    MailState.unlockBox_taken, hfirst, hfreed, MailState.lockMail_free, hmail, hlinked, hboxes,
    MailState.setBox, MailState.setMail, MailState.opened]

/-- Taking the mail off undoes the lock as well. -/
theorem received_opened {mail object : Mail} (hmr : m ≠ r) :
    (s.opened m).received b m r mail object = s.received b m r mail object := by
  simp [MailState.opened, MailState.received, Function.update_comm hmr]

/-- **`mail_recv`** takes the first mail off the list and hands over its messages. -/
theorem mailRecv_messages {alloc : Nat → Nat} {timeout : Nat} {rest : List ObjPtr}
    {srcName : List UInt8} {sprtMsg : List MailMsg}
    (hring : Ring s.links (.boxMail b) ((m :: rest).map .mailLink))
    (hbox : (s.boxes b).sgrtLock = 0) (hmail : (s.mails m).sgrtLock = 0)
    (hfreed : (s.mails m).freed = false) (halloc : ∀ k, isValid (alloc k) = true) (hmr : m ≠ r)
    (hsrc : (s.mails m).srcName = some srcName) (hmsg : (s.mails m).sprtMsg = some sprtMsg)
    (hnum : (s.mails m).numMsgs ≤ sprtMsg.length) (hpos : (s.mails m).numMsgs ≠ 0) :
    mailRecv alloc s (some b) (some r) timeout =
      .ok (s.received b m r (Mail.released { s.mails m with status := .alreadyRead } (s.boxes b))
        ((s.mails r).filled (some (s.mails m).messages) (s.mails m).numMsgs),
        ((s.mails m).numMsgs : Int).bmod (2 ^ 32)) := by
  rw [mailRecv_first hring hbox hmail hfreed, mailRecvTake_messages srcName sprtMsg
    halloc hmr (by simp [MailState.opened]) (by simpa [MailState.opened])
    (by simpa [MailState.opened]) (by simpa [MailState.opened]) (by simpa [MailState.opened]),
    received_opened hmr]
  simp [MailState.opened, Function.update_of_ne hmr.symm, Mail.released, Mail.messages]

/-- A first mail without messages is taken off all the same, and reported as no mail. -/
theorem mailRecv_empty {rest : List ObjPtr} {srcName : List UInt8} (alloc : Nat → Nat)
    (timeout : Nat) (hring : Ring s.links (.boxMail b) ((m :: rest).map .mailLink))
    (hbox : (s.boxes b).sgrtLock = 0) (hmail : (s.mails m).sgrtLock = 0)
    (hfreed : (s.mails m).freed = false) (hmr : m ≠ r)
    (hsrc : (s.mails m).srcName = some srcName) (hnum : (s.mails m).numMsgs = 0) :
    ∃ mail object, mailRecv alloc s (some b) (some r) timeout =
      .ok (s.received b m r mail object, -erEmpty) := by
  obtain ⟨object, htake⟩ := mailRecvTake_empty (s := s.opened m) (b := b) alloc
    srcName hmr (by simp [MailState.opened]) (by simpa [MailState.opened])
    (by simpa [MailState.opened])
  rw [mailRecv_first hring hbox hmail hfreed, htake, received_opened hmr]
  exact ⟨_, _, rfl⟩

/-- `mail_recv` on a mailbox without mail returns if it has no timeout, and waits if it has one. -/
theorem mailRecv_none {alloc : Nat → Nat} {timeout : Nat}
    (hring : Ring s.links (.boxMail b) []) :
    mailRecv alloc s (some b) (some r) timeout =
      if timeout = 0 then .ok (s, -erEmpty) else .error .spins := by
  have hempty : mrtListHeadEmpty s.links (.boxMail b) = true := (mrtListHeadEmpty_iff hring).mpr rfl
  simp [mailRecv, hempty]

end HeavenFox.Kernel
