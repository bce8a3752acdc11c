/-
# HeavenFox.Kernel.MailboxDelivery -- mail is delivered once, in order and unchanged

The invariant behind `Delivers`: the list of the registered mailboxes and the list
of mails of each of them are rings that share no node, every lock is free, and the
logs agree with the lists.  Each call that fits keeps it; each call that does not
breaks `Delivers` on the spot.  So the runs along which mail is delivered are
exactly those whose calls all fit.
-/
import HeavenFox.Kernel.MailboxRuns

namespace HeavenFox.Kernel

open HeavenFox.Common HeavenFox.Logic

/-! ## The invariant -/

/-- The heads of the lists: the global one, and one for each mailbox. -/
def mailHead : Option ObjPtr → MailNode
  | none => .sgrtKernelMailboxs
  | some b => .boxMail b

/-- The links of the members of the lists. -/
def memberLink : Option ObjPtr → ObjPtr → MailNode
  | none => .boxLink
  | some _ => .mailLink

/-- The lists that are there: the global one, and those of the registered mailboxes. -/
def IsList (boxes : List ObjPtr) (i : Option ObjPtr) : Prop := ∀ b ∈ i, b ∈ boxes

/-- A mail between two calls: it names a source, it is not locked unless freed, and it has as many
messages as it says. -/
structure MailOk (mail : Mail) : Prop where
  named : mail.srcName.isSome = true
  unlocked : mail.freed = false → mail.sgrtLock = 0
  counted : mail.numMsgs = (mail.sprtMsg.getD []).length
  fits : 16 * mail.numMsgs < 2 ^ 32

/-- The mails `q (some b)` are linked on the mailboxes, and everything agrees with that. -/
structure MailsInOrder (boxes : List ObjPtr) (own : ObjPtr → Bool) (q : Option ObjPtr → List ObjPtr)
    (p : Post) : Prop where
  sound : p.crashed = false
  rings : Rings p.state.links (IsList boxes) mailHead memberLink q
  registry : q none = boxes
  names : ∀ b ∈ boxes, ∀ c ∈ boxes,
    strEqual (p.state.boxes b).name (p.state.boxes c).name = true → b = c
  unlocked : ∀ b ∈ boxes, (p.state.boxes b).sgrtLock = 0
  count : ∀ b ∈ boxes, (p.state.boxes b).numMails = (q (some b)).length
  queued : ∀ b ∈ boxes, ∀ m ∈ q (some b), own m = false ∧ (p.state.mails m).freed = false
  mails : ∀ m, own m = false → MailOk (p.state.mails m)
  addressed : ∀ entry ∈ p.accepted, ∃ b ∈ boxes, strEqual (p.state.boxes b).name entry.1 = true
  fifo : ∀ b ∈ boxes, p.acceptedBy b =
    p.delivered b ++ (q (some b)).map fun m => (p.state.mails m).messages

/-- The mailboxes as `mailbox_init` leaves them, under different names and with no mail; and the
mails as `mail_create` leaves them. -/
structure Opened (boxes : List ObjPtr) (own : ObjPtr → Bool) (s : MailState) : Prop where
  registry : Ring s.links .sgrtKernelMailboxs (boxes.map .boxLink)
  names : ∀ b ∈ boxes, ∀ c ∈ boxes, strEqual (s.boxes b).name (s.boxes c).name = true → b = c
  empty : ∀ b ∈ boxes, mrtListHeadEmpty s.links (.boxMail b) = true
  unlocked : ∀ b ∈ boxes, (s.boxes b).sgrtLock = 0
  count : ∀ b ∈ boxes, (s.boxes b).numMails = 0
  mails : ∀ m, own m = false → ∃ box, s.mails m = mailCreate box

variable {boxes : List ObjPtr} {own : ObjPtr → Bool} {q : Option ObjPtr → List ObjPtr}
  {p p' : Post} {b c m r : ObjPtr}

theorem isList_none : IsList boxes none := by simp [IsList]

theorem isList_some : IsList boxes (some b) ↔ b ∈ boxes := by simp [IsList]

theorem mailLink_mem_nodes {i : Option ObjPtr} :
    MailNode.mailLink m ∈ ringNodes mailHead memberLink q i ↔ ∃ b, i = some b ∧ m ∈ q (some b) := by
  cases i with
  | none => simp [ringNodes, mailHead, memberLink]
  | some b => simp [ringNodes, mailHead, memberLink]

theorem inOrder_start {s : MailState} (h : Opened boxes own s) :
    MailsInOrder boxes own (fun i => if i = none then boxes else []) (.start s) where
  sound := rfl
  rings := by
    refine ⟨fun i hi => ?_, fun i j hi hj hij => ?_⟩
    · cases i with
      | none => exact h.registry
      | some b =>
        have hempty := h.empty b (isList_some.mp hi)
        simp only [mrtListHeadEmpty, Bool.and_eq_true, decide_eq_true_eq] at hempty
        exact Ring.nil_iff.mpr hempty.symm
    · intro a ha hb
      cases i with
      | none =>
        cases j with
        | none => exact hij rfl
        | some c =>
          obtain rfl : a = .boxMail c := by simpa [ringNodes, mailHead] using hb
          simp [ringNodes, mailHead, memberLink] at ha
      | some b =>
        obtain rfl : a = .boxMail b := by simpa [ringNodes, mailHead] using ha
        cases j with
        | none => simp [ringNodes, mailHead, memberLink] at hb
        | some c =>
          have hbc : b = c := by simpa [ringNodes, mailHead] using hb
          exact hij (congrArg some hbc)
  registry := by simp
  names := h.names
  unlocked := h.unlocked
  count := by simpa [Post.start] using h.count
  queued := by simp
  mails := by
    intro m hm
    obtain ⟨box, hbox⟩ := h.mails m hm
    simp only [Post.start, hbox]
    exact ⟨rfl, fun _ => rfl, rfl, by simp [mailCreate]⟩
  addressed := by simp [Post.start]
  fifo := by simp [Post.start, Post.acceptedBy]

/-! ## The lists of a state in order -/

theorem MailsInOrder.ring (h : MailsInOrder boxes own q p) (hb : b ∈ boxes) :
    Ring p.state.links (.boxMail b) ((q (some b)).map .mailLink) :=
  h.rings.ring (some b) (isList_some.mpr hb)

theorem MailsInOrder.nodup (h : MailsInOrder boxes own q p) (hb : b ∈ boxes) : (q (some b)).Nodup :=
  (h.ring hb).members_nodup.of_map

/-- A mail is linked on one mailbox at most. -/
theorem MailsInOrder.apart (h : MailsInOrder boxes own q p) (hb : b ∈ boxes) (hc : c ∈ boxes)
    (hmb : m ∈ q (some b)) (hmc : m ∈ q (some c)) : b = c := by
  by_contra hbc
  exact h.rings.apart (some b) (some c) (isList_some.mpr hb) (isList_some.mpr hc) (by simpa using hbc)
    (mailLink_mem_nodes.mpr ⟨b, rfl, hmb⟩) (mailLink_mem_nodes.mpr ⟨c, rfl, hmc⟩)

theorem mailsOn_mailLink {l : Links MailNode} {k : Nat} :
    mailsOn l (.boxMail b) (k + 1) (.mailLink m) =
      (mailsOn l (.boxMail b) k (l.next (.mailLink m))).map (m :: ·) := by
  simp [mailsOn]

theorem mailsOn_boxMail {l : Links MailNode} {k : Nat} :
    mailsOn l (.boxMail b) (k + 1) (.boxMail c) = if c = b then some [] else none := by
  by_cases hcb : c = b <;> simp [mailsOn, hcb]

/-- A walk along a path that is still there, and on from its end. -/
theorem mailsOn_path {l l' : Links MailNode} {x z : MailNode} {mails : List ObjPtr} {k : Nat}
    (hp : l.Path x (mails.map .mailLink) z)
    (hnext : ∀ a ∈ x :: mails.map .mailLink, l'.next a = l.next a) :
    mailsOn l' (.boxMail b) (mails.length + k) (l'.next x) =
      (mailsOn l' (.boxMail b) k z).map (mails ++ ·) := by
  induction mails generalizing x with
  | nil =>
    rw [hnext x (by simp), hp.1]
    simp
  | cons y mails ih =>
    have hlen : (y :: mails).length + k = (mails.length + k) + 1 := by simp; omega
    rw [hnext x (by simp), hp.1.1, hlen, mailsOn_mailLink,
      ih hp.2 fun a ha => hnext a (List.mem_cons_of_mem x ha)]
    simp [Function.comp_def]

/-- The mails linked on a mailbox are those of its ring. -/
theorem linked_eq {s : MailState} {mails : List ObjPtr}
    (hring : Ring s.links (.boxMail b) (mails.map .mailLink)) : s.linked b = some mails := by
  have hlen := ObjPtr.length_of_nodup hring.members_nodup.of_map
  obtain ⟨k, hk⟩ : ∃ k, walkRounds = mails.length + (k + 1) :=
    ⟨walkRounds - mails.length - 1, by unfold walkRounds; omega⟩
  rw [MailState.linked, hk, mailsOn_path hring.path fun _ _ => rfl, mailsOn_boxMail, if_pos rfl]
  simp

theorem MailsInOrder.linked_eq (h : MailsInOrder boxes own q p) (hb : b ∈ boxes) :
    p.state.linked b = some (q (some b)) :=
  Kernel.linked_eq (h.ring hb)

theorem MailsInOrder.linked_iff (h : MailsInOrder boxes own q p) :
    Linked boxes p.state m ↔ ∃ b ∈ boxes, m ∈ q (some b) := by
  constructor
  · rintro ⟨b, hb, hm⟩
    rw [h.linked_eq hb] at hm
    exact ⟨b, hb, hm⟩
  · rintro ⟨b, hb, hm⟩
    refine ⟨b, hb, ?_⟩
    rw [h.linked_eq hb]
    exact hm

theorem MailsInOrder.delivers (h : MailsInOrder boxes own q p) : Delivers boxes p :=
  ⟨h.sound, h.addressed, fun b hb => ⟨q (some b), h.linked_eq hb, h.fifo b hb, h.count b hb⟩⟩

/-! ## Writing to mails -/

/-- A write to a mail that leaves it in shape, and as it was if it is linked. -/
theorem MailsInOrder.write {mail : Mail} (h : MailsInOrder boxes own q p)
    (hok : own m = false → MailOk mail)
    (hqueued : ∀ b ∈ boxes, m ∈ q (some b) →
      mail.freed = false ∧ mail.messages = (p.state.mails m).messages) :
    MailsInOrder boxes own q { p with state := p.state.setMail m mail } where
  sound := h.sound
  rings := h.rings
  registry := h.registry
  names := h.names
  unlocked := h.unlocked
  count := h.count
  queued := by
    intro b hb x hx
    refine ⟨(h.queued b hb x hx).1, ?_⟩
    by_cases hxm : x = m
    · subst hxm
      simpa using (hqueued b hb hx).1
    · simpa [Function.update_of_ne hxm] using (h.queued b hb x hx).2
  mails := by
    intro x hx
    by_cases hxm : x = m
    · subst hxm
      simpa using hok hx
    · simpa [Function.update_of_ne hxm] using h.mails x hx
  addressed := h.addressed
  fifo := by
    intro b hb
    refine (h.fifo b hb).trans (congrArg _ (List.map_congr_left fun x hx => ?_))
    by_cases hxm : x = m
    · subst hxm
      simpa using (hqueued b hb hx).2.symm
    · simp [Function.update_of_ne hxm]

/-- A sender fills a mail that is not freed, and not linked with other messages in it. -/
theorem fill_inOrder {messages : List MailMsg} (h : MailsInOrder boxes own q p)
    (hfit : PostFits boxes p (.fill m messages))
    (hstep : postStep boxes own p (.fill m messages) = some p') : MailsInOrder boxes own q p' := by
  obtain ⟨hfreed, hsame⟩ := hfit
  simp only [postStep] at hstep
  split at hstep
  · cases hstep
  · rename_i hguard
    simp only [not_or, Bool.not_eq_true, not_le] at hguard
    rw [if_neg (by simp [hfreed])] at hstep
    cases hstep
    refine h.write (fun hm => ?_) (fun b hb hm => ⟨hfreed, ?_⟩)
    · have hok := h.mails m hm
      exact ⟨hok.named, hok.unlocked, rfl, hguard.2⟩
    · exact List.take_length.trans (hsame (h.linked_iff.mpr ⟨b, hb, hm⟩))

/-- An owner empties an object of its own. -/
theorem finish_inOrder (h : MailsInOrder boxes own q p)
    (hstep : postStep boxes own p (.finish r) = some p') : MailsInOrder boxes own q p' := by
  simp only [postStep] at hstep
  split at hstep
  · rename_i hown
    cases hstep
    refine h.write (fun hr => ?_) (fun b hb hr => ?_)
    · rw [hown] at hr
      cases hr
    · have := (h.queued b hb r hr).1
      rw [hown] at this
      cases this
  · cases hstep

/-! ## Sending -/

theorem MailsInOrder.boxes_length (h : MailsInOrder boxes own q p) : boxes.length < walkRounds := by
  have hring := h.rings.ring none isList_none
  rw [h.registry] at hring
  have hlen := ObjPtr.length_of_nodup (hring.members_nodup.of_map (memberLink none))
  unfold walkRounds
  omega

/-- A name leads to no mailbox, or to the registered one of that name. -/
theorem MailsInOrder.find (h : MailsInOrder boxes own q p) (mbName : Option (List UInt8)) :
    mailboxFind walkRounds p.state mbName = .ok none ∨
      ∃ b name, b ∈ boxes ∧ mbName = some name ∧ strEqual (p.state.boxes b).name name = true ∧
        mailboxFind walkRounds p.state mbName = .ok (some b) := by
  cases mbName with
  | none => exact Or.inl rfl
  | some name =>
    by_cases hname : cString name = []
    · exact Or.inl (by rw [mailboxFind, if_pos hname])
    · have hring := h.rings.ring none isList_none
      rw [h.registry] at hring
      have hfind := mailboxFind_eq hring hname h.boxes_length
      rw [hfind]
      cases hb : boxes.find? fun b => strEqual (p.state.boxes b).name name with
      | none => exact Or.inl rfl
      | some b =>
        have hname := List.find?_some (p := fun b => strEqual (p.state.boxes b).name name) hb
        exact Or.inr ⟨b, name, List.mem_of_find?_eq_some hb, rfl, hname, rfl⟩

/-- The logs after a `mail_send` that was accepted. -/
def Post.afterSend (p : Post) (name : List UInt8) (b m : ObjPtr) : Post :=
  { p with
    state := p.state.posted b m
    accepted := p.accepted ++ [(name, (p.state.mails m).messages)] }

/-- What a `mail_send` of a mail that is not freed does: nothing, or it is accepted for a
registered mailbox. -/
theorem send_cases {mbName : Option (List UInt8)} (h : MailsInOrder boxes own q p)
    (hfreed : (p.state.mails m).freed = false)
    (hstep : postStep boxes own p (.send mbName m) = some p') :
    own m = false ∧
      ((p' = p ∧ ((p.state.mails m).sprtMsg = none ∨
          mailboxFind walkRounds p.state mbName = .ok none)) ∨
        ∃ b name, b ∈ boxes ∧ strEqual (p.state.boxes b).name name = true ∧
          (p.state.mails m).sprtMsg.isSome = true ∧
          mailboxFind walkRounds p.state mbName = .ok (some b) ∧ p' = p.afterSend name b m) := by
  simp only [postStep] at hstep
  split at hstep
  · cases hstep
  · rename_i hown
    rw [Bool.not_eq_true] at hown
    refine ⟨hown, ?_⟩
    by_cases hrefused : (p.state.mails m).sprtMsg = none ∨
        mailboxFind walkRounds p.state mbName = .ok none
    · rw [mailSend_refused hfreed hrefused] at hstep
      left
      exact ⟨(by simpa [erNormal, erNomem] using hstep : p = p').symm, hrefused⟩
    · obtain ⟨hmsg, hfound⟩ := not_or.mp hrefused
      obtain ⟨b, name, hb, rfl, hname, hfind⟩ := (h.find mbName).resolve_left hfound
      rw [mailSend_posted hfreed hmsg hfind ((h.mails m hown).unlocked hfreed)
        (h.unlocked b hb)] at hstep
      right
      refine ⟨b, name, hb, hname, Option.isSome_iff_ne_none.mpr hmsg, hfind, ?_⟩
      simpa [Post.afterSend, eq_comm] using hstep

/-- Two names that equal the same name are equal. -/
theorem strEqual_trans {a b c : List UInt8} (hab : strEqual a b = true) (hcb : strEqual c b = true) :
    strEqual a c = true := by
  simp only [strEqual, decide_eq_true_eq] at *
  rw [hab, hcb]

/-- What a mailbox has accepted grows by the mails sent to its name. -/
theorem acceptedBy_afterSend {name : List UInt8} (h : MailsInOrder boxes own q p) (hb : b ∈ boxes)
    (hname : strEqual (p.state.boxes b).name name = true) (hc : c ∈ boxes) :
    (p.afterSend name b m).acceptedBy c =
      p.acceptedBy c ++ if c = b then [(p.state.mails m).messages] else [] := by
  have hiff : strEqual (p.state.boxes c).name name = true ↔ c = b := by
    constructor
    · intro hcn
      exact h.names c hc b hb (strEqual_trans hcn hname)
    · rintro rfl
      exact hname
  simp only [Post.acceptedBy, Post.afterSend, MailState.posted_name, List.filter_append,
    List.map_append]
  congr 1
  by_cases hcb : c = b
  · simp [hiff.mpr hcb, if_pos hcb]
  · simp [mt hiff.mp hcb, if_neg hcb]

theorem posted_messages (s : MailState) (b m x : ObjPtr) :
    ((s.posted b m).mails x).messages = (s.mails x).messages := by
  obtain ⟨status, hx⟩ := s.posted_mails b m x
  rw [hx]
  rfl

/-- The members of a list after the mail has been added to one. -/
theorem mem_update_concat {x : ObjPtr}
    (hx : x ∈ Function.update q (some b) (q (some b) ++ [m]) (some c)) :
    x ∈ q (some c) ∨ x = m := by
  by_cases hcb : c = b
  · subst hcb
    simpa using hx
  · rw [Function.update_of_ne (by simpa using hcb)] at hx
    exact Or.inl hx

/-- A mail that is linked nowhere goes to the end of the list. -/
theorem MailsInOrder.afterSend {name : List UInt8} (h : MailsInOrder boxes own q p) (hb : b ∈ boxes)
    (hname : strEqual (p.state.boxes b).name name = true) (hown : own m = false)
    (hfreed : (p.state.mails m).freed = false) (hnew : ∀ c ∈ boxes, m ∉ q (some c)) :
    MailsInOrder boxes own (Function.update q (some b) (q (some b) ++ [m])) (p.afterSend name b m) where
  sound := h.sound
  rings := by
    have hlinks : (p.afterSend name b m).state.links = p.state.links.insertAfter
        (Ring.before (.boxMail b) ((q (some b)).map .mailLink)) (.mailLink m) :=
      listHeadAddTail_eq (h.ring hb)
    rw [hlinks]
    refine h.rings.insert (isList_some.mpr hb) (List.append_nil _).symm fun i hi hmem => ?_
    obtain ⟨c, rfl, hc⟩ := mailLink_mem_nodes.mp hmem
    exact hnew c (isList_some.mp hi) hc
  registry := by
    rw [Function.update_of_ne (by simp)]
    exact h.registry
  names := by simpa [Post.afterSend] using h.names
  unlocked := by simpa [Post.afterSend] using h.unlocked
  count := by
    intro c hc
    have hcount := h.count c hc
    by_cases hcb : c = b
    · subst hcb
      have hlen := ObjPtr.length_of_nodup (h.nodup hc)
      simp only [Post.afterSend, MailState.posted, Function.update_self, List.length_append,
        List.length_singleton, hcount]
      exact add32_of_lt (by omega)
    · simpa [Post.afterSend, MailState.posted, Function.update_of_ne hcb, hcb] using hcount
  queued := by
    intro c hc x hx
    obtain ⟨status, hmail⟩ := p.state.posted_mails b m x
    simp only [Post.afterSend, hmail]
    rcases mem_update_concat hx with hx | rfl
    · exact h.queued c hc x hx
    · exact ⟨hown, hfreed⟩
  mails := by
    intro x hx
    obtain ⟨status, hmail⟩ := p.state.posted_mails b m x
    have hok := h.mails x hx
    simp only [Post.afterSend, hmail]
    exact ⟨hok.named, hok.unlocked, hok.counted, hok.fits⟩
  addressed := by
    intro entry hentry
    simp only [Post.afterSend, MailState.posted_name, List.mem_append, List.mem_singleton] at *
    rcases hentry with hentry | rfl
    · exact h.addressed entry hentry
    · exact ⟨b, hb, hname⟩
  fifo := by
    intro c hc
    rw [acceptedBy_afterSend h hb hname hc, h.fifo c hc]
    simp only [Post.afterSend, posted_messages, List.append_assoc]
    by_cases hcb : c = b
    · subst hcb
      simp
    · simp [Function.update_of_ne, hcb]

/-- A mail that is sent only while it is not linked keeps everything in order. -/
theorem send_inOrder {mbName : Option (List UInt8)} (h : MailsInOrder boxes own q p)
    (hfit : PostFits boxes p (.send mbName m))
    (hstep : postStep boxes own p (.send mbName m) = some p') : ∃ q', MailsInOrder boxes own q' p' := by
  obtain ⟨hfreed, hnew⟩ := hfit
  obtain ⟨hown, ⟨rfl, -⟩ | ⟨b, name, hb, hname, hmsg, hfind, rfl⟩⟩ := send_cases h hfreed hstep
  · exact ⟨q, h⟩
  · have hlinked := hnew hmsg (by simp [hfind])
    exact ⟨_, h.afterSend hb hname hown hfreed fun c hc hm =>
      hlinked (h.linked_iff.mpr ⟨c, hc, hm⟩)⟩

/-! ## Receiving -/

theorem MailOk.released {mail : Mail} (h : MailOk mail) (box : Mailbox) :
    MailOk (mail.released box) := by
  unfold Mail.released
  split
  · exact ⟨h.named, by simp, h.counted, h.fits⟩
  · exact ⟨h.named, fun _ => rfl, h.counted, h.fits⟩

/-- The state and the log after a `mail_recv` that handed over the messages of the mail. -/
def Post.afterRecv (p : Post) (b m r : ObjPtr) (mail object : Mail) : Post :=
  { p with
    state := p.state.received b m r mail object
    delivered := Function.update p.delivered b (p.delivered b ++ [(p.state.mails m).messages]) }

theorem received_mails {s : MailState} {mail object : Mail} {x : ObjPtr} (hm : x ≠ m)
    (hr : x ≠ r) : (s.received b m r mail object).mails x = s.mails x := by
  simp [MailState.received, Function.update_of_ne hm, Function.update_of_ne hr]

/-- The members of a list after the first has been taken off one are others than that one. -/
theorem MailsInOrder.mem_update_tail {rest : List ObjPtr} {x : ObjPtr} (h : MailsInOrder boxes own q p)
    (hb : b ∈ boxes) (hc : c ∈ boxes) (hq : q (some b) = m :: rest)
    (hx : x ∈ Function.update q (some b) rest (some c)) : x ∈ q (some c) ∧ x ≠ m := by
  have hnodup := h.nodup hb
  rw [hq, List.nodup_cons] at hnodup
  by_cases hcb : c = b
  · subst hcb
    rw [Function.update_self] at hx
    refine ⟨by simp [hq, hx], ?_⟩
    rintro rfl
    exact hnodup.1 hx
  · rw [Function.update_of_ne (by simpa using hcb)] at hx
    refine ⟨hx, ?_⟩
    rintro rfl
    exact hcb (h.apart hc hb hx (by simp [hq]))

/-- The mail is off its list, and the lists are rings as before. -/
theorem MailsInOrder.rings_received {rest : List ObjPtr} (r : ObjPtr) (mail object : Mail)
    (h : MailsInOrder boxes own q p) (hb : b ∈ boxes) (hq : q (some b) = m :: rest) :
    Rings (p.state.received b m r mail object).links (IsList boxes) mailHead memberLink
      (Function.update q (some b) rest) := by
  rw [MailState.received, listHeadDel_eq]
  exact h.rings.remove (isList_some.mpr hb) (show q (some b) = [] ++ m :: rest from hq)

/-- The first mail of a list is delivered and taken off. -/
theorem MailsInOrder.afterRecv {rest : List ObjPtr} {mail object : Mail} (h : MailsInOrder boxes own q p)
    (hb : b ∈ boxes) (hq : q (some b) = m :: rest) (hr : own r = true) (hok : MailOk mail) :
    MailsInOrder boxes own (Function.update q (some b) rest) (p.afterRecv b m r mail object) where
  sound := h.sound
  rings := h.rings_received r mail object hb hq
  registry := by
    rw [Function.update_of_ne (by simp)]
    exact h.registry
  names := by simpa [Post.afterRecv] using h.names
  unlocked := by
    intro c hc
    have hlock := h.unlocked c hc
    by_cases hcb : c = b
    · subst hcb
      simpa [Post.afterRecv, MailState.received] using hlock
    · simpa [Post.afterRecv, MailState.received, Function.update_of_ne hcb] using hlock
  count := by
    intro c hc
    have hcount := h.count c hc
    by_cases hcb : c = b
    · subst hcb
      have hlen := ObjPtr.length_of_nodup (h.nodup hc)
      rw [hq, List.length_cons] at hcount hlen
      simp only [Post.afterRecv, MailState.received, Function.update_self, hcount]
      rw [sub32_of_le (by omega) (by omega)]
      rfl
    · simpa [Post.afterRecv, MailState.received, Function.update_of_ne hcb, hcb] using hcount
  queued := by
    intro c hc x hx
    obtain ⟨hx, hxm⟩ := h.mem_update_tail hb hc hq hx
    obtain ⟨hown, hfreed⟩ := h.queued c hc x hx
    have hxr : x ≠ r := by
      rintro rfl
      simp [hown] at hr
    simp only [Post.afterRecv, received_mails hxm hxr]
    exact ⟨hown, hfreed⟩
  mails := by
    intro x hx
    have hxr : x ≠ r := by
      rintro rfl
      simp [hx] at hr
    by_cases hxm : x = m
    · subst hxm
      simpa [Post.afterRecv, MailState.received] using hok
    · simpa only [Post.afterRecv, received_mails hxm hxr] using h.mails x hx
  addressed := by simpa [Post.afterRecv] using h.addressed
  fifo := by
    intro c hc
    have hsame : ∀ x ∈ Function.update q (some b) rest (some c),
        ((p.afterRecv b m r mail object).state.mails x).messages = (p.state.mails x).messages := by
      intro x hx
      obtain ⟨hx, hxm⟩ := h.mem_update_tail hb hc hq hx
      have hxr : x ≠ r := by
        rintro rfl
        simp [(h.queued c hc x hx).1] at hr
      simp only [Post.afterRecv, received_mails hxm hxr]
    have haccepted : (p.afterRecv b m r mail object).acceptedBy c = p.acceptedBy c := by
      simp [Post.acceptedBy, Post.afterRecv]
    rw [haccepted, h.fifo c hc, List.map_congr_left hsame]
    by_cases hcb : c = b
    · subst hcb
      simp [Post.afterRecv, hq]
    · simp [Post.afterRecv, hcb, Function.update_of_ne]

/-- `mail_recv` with a mail on the list takes it off, and hands over its messages if it has any. -/
theorem MailsInOrder.recv_first {rest : List ObjPtr} (timeout : Nat) (alloc : Nat → ObjPtr)
    (h : MailsInOrder boxes own q p) (hb : b ∈ boxes) (hmr : m ≠ r) (hq : q (some b) = m :: rest) :
    ∃ mail object retval, mailRecv (fun k => (alloc k).val) p.state (some b) (some r) timeout =
        .ok (p.state.received b m r mail object, retval) ∧
      (0 ≤ retval ↔ (p.state.mails m).numMsgs ≠ 0) ∧
      ((p.state.mails m).numMsgs ≠ 0 →
        MailOk mail ∧ object.messages = (p.state.mails m).messages) := by
  have hring := h.ring hb
  rw [hq] at hring
  obtain ⟨hown, hfreed⟩ := h.queued b hb m (by simp [hq])
  have hok := h.mails m hown
  have hlock := hok.unlocked hfreed
  obtain ⟨srcName, hsrc⟩ := Option.isSome_iff_exists.mp hok.named
  have hcounted := hok.counted
  by_cases hnum : (p.state.mails m).numMsgs = 0
  · obtain ⟨mail, object, hrecv⟩ := mailRecv_empty (fun k => (alloc k).val) timeout hring
      (h.unlocked b hb) hlock hfreed hmr hsrc hnum
    exact ⟨mail, object, _, hrecv, by simp [hnum, erEmpty], fun hne => absurd hnum hne⟩
  · cases hmsg : (p.state.mails m).sprtMsg with
    | none =>
      rw [hmsg] at hcounted
      exact absurd hcounted hnum
    | some sprtMsg =>
      rw [hmsg, Option.getD_some] at hcounted
      refine ⟨_, _, _, mailRecv_messages hring (h.unlocked b hb) hlock hfreed
        (fun k => (alloc k).2) hmr hsrc hmsg hcounted.le hnum, ?_, fun _ => ⟨?_, ?_⟩⟩
      · have hfits := hok.fits
        rw [Int.bmod_def]
        omega
      · have hread : MailOk { p.state.mails m with status := .alreadyRead } :=
          ⟨hok.named, hok.unlocked, hok.counted, hok.fits⟩
        exact hread.released (p.state.boxes b)
      · simp [Mail.messages, Mail.filled]

/-- What a `mail_recv` does: nothing, if there is no mail; otherwise it takes off the first mail,
and delivers it if it has messages. -/
theorem recv_cases {timeout : Nat} {alloc : Nat → ObjPtr} (h : MailsInOrder boxes own q p)
    (hstep : postStep boxes own p (.recv b r timeout alloc) = some p') :
    b ∈ boxes ∧ own r = true ∧
      ((p' = p ∧ q (some b) = []) ∨ ∃ m rest mail object, q (some b) = m :: rest ∧
        if (p.state.mails m).numMsgs = 0 then
          p' = { p with state := p.state.received b m r mail object }
        else p' = p.afterRecv b m r mail object ∧ MailOk mail) := by
  simp only [postStep] at hstep
  split at hstep
  · cases hstep
  · rename_i hguard
    simp only [not_or, not_not, Bool.not_eq_false] at hguard
    obtain ⟨hb, hr⟩ := hguard
    refine ⟨hb, hr, ?_⟩
    cases hq : q (some b) with
    | nil =>
      have hring := h.ring hb
      rw [hq] at hring
      rw [mailRecv_none hring] at hstep
      left
      by_cases ht : timeout = 0
      · exact ⟨(by simpa [ht, erEmpty] using hstep : p = p').symm, rfl⟩
      · simp [ht] at hstep
    | cons m rest =>
      right
      have hmr : m ≠ r := by
        rintro rfl
        simp [(h.queued b hb m (by simp [hq])).1] at hr
      obtain ⟨mail, object, retval, hrecv, hretval, hobject⟩ :=
        h.recv_first timeout alloc hb hmr hq
      rw [hrecv] at hstep
      refine ⟨m, rest, mail, object, rfl, ?_⟩
      by_cases hnum : (p.state.mails m).numMsgs = 0
      · have hneg : ¬ 0 ≤ retval := fun hle => hretval.mp hle hnum
        rw [if_pos hnum]
        simpa [hneg, eq_comm] using hstep
      · obtain ⟨hok, hmessages⟩ := hobject hnum
        have hr' : (p.state.received b m r mail object).mails r = object := by
          simp [MailState.received, Function.update_of_ne hmr.symm]
        rw [if_neg hnum]
        refine ⟨?_, hok⟩
        simpa [hretval.mpr hnum, hr', hmessages, Post.afterRecv, eq_comm] using hstep

/-- A first mail with messages is delivered, and everything stays in order. -/
theorem recv_inOrder {timeout : Nat} {alloc : Nat → ObjPtr} (h : MailsInOrder boxes own q p)
    (hfit : PostFits boxes p (.recv b r timeout alloc))
    (hstep : postStep boxes own p (.recv b r timeout alloc) = some p') :
    ∃ q', MailsInOrder boxes own q' p' := by
  obtain ⟨hb, hr, ⟨rfl, -⟩ | ⟨m, rest, mail, object, hq, hp'⟩⟩ := recv_cases h hstep
  · exact ⟨q, h⟩
  · have hnum : (p.state.mails m).numMsgs ≠ 0 := hfit m (by simp [h.linked_eq hb, hq])
    rw [if_neg hnum] at hp'
    obtain ⟨rfl, hok⟩ := hp'
    exact ⟨_, h.afterRecv hb hq hr hok⟩

/-- **One call that fits** keeps everything in order. -/
theorem call_inOrder {call : PostCall} (h : MailsInOrder boxes own q p)
    (hfit : PostFits boxes p call) (hstep : postStep boxes own p call = some p') :
    ∃ q', MailsInOrder boxes own q' p' := by
  cases call with
  | fill m messages => exact ⟨q, fill_inOrder h hfit hstep⟩
  | send mbName m => exact send_inOrder h hfit hstep
  | recv b r timeout alloc => exact recv_inOrder h hfit hstep
  | finish r => exact ⟨q, finish_inOrder h hstep⟩

end HeavenFox.Kernel
