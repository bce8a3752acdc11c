/-
# HeavenFox.Kernel.MailboxRuns -- delivery of mail over whole runs

The mailboxes as a machine: senders fill their mails and send them, the owner of a
mailbox receives into objects of its own, and any call may follow any other.  Next
to the state the machine carries two logs: for every `mail_send` that returned
`ER_NORMAL` the name it was given and the messages the mail carried then, and for
every mailbox the messages each successful `mail_recv` handed over.

`Delivers` is what a mailbox is for: the accepted messages are, in order, those
already delivered followed by those of the mails still linked, and `num_mails`
counts the latter.  `mail_delivered` says exactly which runs keep it.  Those that
do not have one of three steps in them: a mail that is still linked is sent again
(which relinks a live node) or refilled, a mail the receiver has freed is used
again, or a mail without messages comes up for delivery.
-/
import HeavenFox.Kernel.MailboxCalls
import HeavenFox.Logic.Rings
import HeavenFox.Logic.Run

namespace HeavenFox.Kernel

open HeavenFox.Common HeavenFox.Logic

/-! ## The machine -/

/-- The calls.  All allocations of a `recv` succeed: each returns the address of an object. -/
inductive PostCall where
  | fill (m : ObjPtr) (messages : List MailMsg)
  | send (mbName : Option (List UInt8)) (m : ObjPtr)
  | recv (b r : ObjPtr) (timeout : Nat) (alloc : Nat → ObjPtr)
  | finish (r : ObjPtr)

/-- The state, the two logs, and whether a call has touched memory that is not there any more. -/
structure Post where
  state : MailState
  accepted : List (List UInt8 × List MailMsg)
  delivered : ObjPtr → List (List MailMsg)
  crashed : Bool

/-- Before the first call. -/
def Post.start (s : MailState) : Post := ⟨s, [], fun _ => [], false⟩

/-- One call that returns.  `boxes` are the registered mailboxes and `own` the objects their owners
receive into, which are never sent; an array of messages fits the address space. -/
def postStep (boxes : List ObjPtr) (own : ObjPtr → Bool) (p : Post) : PostCall → Option Post
  | .fill m messages =>
    if own m = true ∨ 2 ^ 32 ≤ 16 * messages.length then none
    else if (p.state.mails m).freed then some { p with crashed := true }
    else some { p with
      state := p.state.setMail m
        { p.state.mails m with sprtMsg := some messages, numMsgs := messages.length } }
  | .send mbName m =>
    if own m then none
    else
      match mailSend walkRounds p.state mbName (some m) with
      | .error .fault => some { p with crashed := true }
      | .error .spins => none
      | .ok (state, retval) => some { p with
          state
          accepted :=
            if retval = erNormal then
              p.accepted ++ [(mbName.getD [], (p.state.mails m).messages)]
            else p.accepted }
  | .recv b r timeout alloc =>
    if b ∉ boxes ∨ own r = false then none
    else
      match mailRecv (fun k => (alloc k).val) p.state (some b) (some r) timeout with
      | .error .fault => some { p with crashed := true }
      | .error .spins => none
      | .ok (state, retval) => some { p with
          state
          delivered :=
            if 0 ≤ retval then
              Function.update p.delivered b (p.delivered b ++ [(state.mails r).messages])
            else p.delivered }
  | .finish r => if own r then some { p with state := mailRecvFinish p.state r } else none

/-! ## What it is for -/

/-- The mails met on the way from a node to the head; `none` if the way does not lead there. -/
def mailsOn (l : Links MailNode) (head : MailNode) : Nat → MailNode → Option (List ObjPtr)
  | 0, _ => none
  | n + 1, pos =>
    if pos = head then some []
    else
      match pos with
      | .mailLink m => (mailsOn l head n (l.next (.mailLink m))).map (m :: ·)
      | _ => none

/-- The mails linked on a mailbox, first to last. -/
def MailState.linked (s : MailState) (b : ObjPtr) : Option (List ObjPtr) :=
  mailsOn s.links (.boxMail b) walkRounds (s.links.next (.boxMail b))

/-- What the mails accepted for a mailbox carried, in the order they were sent. -/
def Post.acceptedBy (p : Post) (b : ObjPtr) : List (List MailMsg) :=
  (p.accepted.filter fun entry => strEqual (p.state.boxes b).name entry.1).map Prod.snd

/-- Every accepted mail is for a registered mailbox; and for each of these, what was accepted is
what has been delivered, followed by what the mails linked on it carry, and their number is
`num_mails`. -/
def Delivers (boxes : List ObjPtr) (p : Post) : Prop :=
  p.crashed = false ∧
  (∀ entry ∈ p.accepted, ∃ b ∈ boxes, strEqual (p.state.boxes b).name entry.1 = true) ∧
  ∀ b ∈ boxes, ∃ mails, p.state.linked b = some mails ∧
    p.acceptedBy b = p.delivered b ++ mails.map (fun m => (p.state.mails m).messages) ∧
    (p.state.boxes b).numMails = mails.length

/-- Is the mail linked on a mailbox? -/
def Linked (boxes : List ObjPtr) (s : MailState) (m : ObjPtr) : Prop :=
  ∃ b ∈ boxes, m ∈ (s.linked b).getD []

/-- The steps that keep mail in order: a mail is filled and sent only while it is not freed; one
that is linked is not refilled with other messages and not accepted for sending again; and the
first mail of a mailbox that receives carries a message. -/
def PostFits (boxes : List ObjPtr) (p : Post) : PostCall → Prop
  | .fill m messages =>
    (p.state.mails m).freed = false ∧
    (Linked boxes p.state m → messages = (p.state.mails m).messages)
  | .send mbName m =>
    (p.state.mails m).freed = false ∧
    ((p.state.mails m).sprtMsg.isSome = true →
      mailboxFind walkRounds p.state mbName ≠ .ok none → ¬ Linked boxes p.state m)
  | .recv b _ _ _ => ∀ m ∈ ((p.state.linked b).getD []).head?, (p.state.mails m).numMsgs ≠ 0
  | .finish _ => True

instance (boxes : List ObjPtr) (s : MailState) (m : ObjPtr) : Decidable (Linked boxes s m) :=
  inferInstanceAs (Decidable (∃ b ∈ boxes, _))

instance : DecidableEq (Except Stop (Option ObjPtr))
  | .ok a, .ok b => decidable_of_iff (a = b) (by simp)
  | .error a, .error b => decidable_of_iff (a = b) (by simp)
  | .ok _, .error _ => isFalse (by simp)
  | .error _, .ok _ => isFalse (by simp)

instance (boxes : List ObjPtr) (p : Post) : ∀ call, Decidable (PostFits boxes p call)
  | .fill _ _ => inferInstanceAs (Decidable (_ ∧ (_ → _)))
  | .send _ _ => inferInstanceAs (Decidable (_ ∧ (_ → _ → _)))
  | .recv b _ _ _ => inferInstanceAs
      (Decidable (∀ m ∈ ((p.state.linked b).getD []).head?, (p.state.mails m).numMsgs ≠ 0))
  | .finish _ => isTrue trivial

end HeavenFox.Kernel
