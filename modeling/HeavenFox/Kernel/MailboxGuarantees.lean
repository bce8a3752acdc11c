/-
# HeavenFox.Kernel.MailboxGuarantees -- which runs deliver their mail

A call that does not fit breaks `Delivers` at once: a freed mail is touched, a
linked mail is refilled, the ring of a mailbox loses or borrows members when one
of them is sent again, or a mail leaves the list undelivered.  Together with the
preservation lemmas this makes the condition exact.
-/
import HeavenFox.Kernel.MailboxDelivery

namespace HeavenFox.Kernel

open HeavenFox.Common HeavenFox.Logic

variable {boxes : List ObjPtr} {own : ObjPtr → Bool} {q : Option ObjPtr → List ObjPtr}
  {p p' : Post} {b c m r : ObjPtr}

theorem not_delivers_crashed : ¬ Delivers boxes { p with crashed := true } :=
  fun h => Bool.noConfusion h.1

/-! ## Filling a linked mail -/

theorem fill_miss {messages : List MailMsg} (h : MailsInOrder boxes own q p)
    (hmiss : ¬ PostFits boxes p (.fill m messages))
    (hstep : postStep boxes own p (.fill m messages) = some p') : ¬ Delivers boxes p' := by
  simp only [postStep] at hstep
  split at hstep
  · cases hstep
  · split at hstep
    · cases hstep
      exact not_delivers_crashed
    · rename_i hfreed
      cases hstep
      obtain ⟨hlinked, hne⟩ := Classical.not_imp.mp
        ((not_and.mp hmiss) (Bool.not_eq_true _ ▸ hfreed))
      obtain ⟨b, hb, hm⟩ := h.linked_iff.mp hlinked
      rintro ⟨-, -, hdelivers⟩
      obtain ⟨mails, hmails, haccepted, -⟩ := hdelivers b hb
      obtain rfl : q (some b) = mails := Option.some.inj ((h.linked_eq hb).symm.trans hmails)
      -- the log still has what the mail carried when it was sent
      have hsame := List.append_cancel_left ((h.fifo b hb).symm.trans haccepted)
      have hmessages := List.map_inj_left.mp hsame m hm
      refine hne ?_
      simpa [Mail.messages] using hmessages.symm

/-! ## Sending a linked mail -/

/-- A linked mail is put at the end of a list.  A walk along the list it was on goes as before up to
the mail, and from there to the head of the list it was put on. -/
theorem linked_relinked {pre post : List ObjPtr} {s : MailState} (h : MailsInOrder boxes own q p)
    (hb : b ∈ boxes) (hc : c ∈ boxes) (hq : q (some c) = pre ++ m :: post)
    (hs : s.links = listHeadAddTail p.state.links (.boxMail b) (.mailLink m)) :
    s.linked c = if c = b then some (pre ++ [m]) else none := by
  have hring := h.ring hc
  have hpath := hring.path
  rw [hq, List.map_append, List.map_cons, Links.path_append] at hpath
  have hlast := listHeadAddTail_eq (x := .mailLink m) (h.ring hb)
  have hend : p.state.links.next (Ring.before (.boxMail b) ((q (some b)).map .mailLink)) =
      .boxMail b := by
    have hr := h.ring hb
    rw [← List.append_nil ((q (some b)).map _)] at hr
    exact hr.path_from.1
  have hsplit : ∀ a ∈ MailNode.boxMail c :: pre.map .mailLink,
      a ∉ MailNode.mailLink m :: post.map .mailLink := by
    have hnodup := hring.nodup
    rw [hq, List.map_append, List.map_cons, ← List.cons_append, List.nodup_append] at hnodup
    exact fun a ha hp => hnodup.2.2 a ha a hp rfl
  -- up to the mail nothing has changed
  have hsame : ∀ a ∈ MailNode.boxMail c :: pre.map .mailLink,
      s.links.next a = p.state.links.next a := by
    intro a ha
    have ham : a ≠ .mailLink m := by
      rintro rfl
      exact hsplit _ ha List.mem_cons_self
    have hab : a ≠ Ring.before (.boxMail b) ((q (some b)).map .mailLink) := by
      rintro rfl
      by_cases hcb : c = b
      · subst hcb
        refine hsplit _ ha ?_
        rw [hq, List.map_append, List.map_cons]
        exact Ring.before_append_mem _ _ _ _
      · have hmem : Ring.before (.boxMail b) ((q (some b)).map .mailLink) ∈
            ringNodes mailHead memberLink q (some b) :=
          Rings.before_mem (i := some b) (List.append_nil _).symm
        refine h.rings.apart (some b) (some c) (isList_some.mpr hb) (isList_some.mpr hc)
          (by simpa using Ne.symm hcb) hmem ?_
        rw [ringNodes, hq, List.map_append, ← List.cons_append]
        exact List.mem_append_left _ ha
    rw [hs, hlast, Links.insertAfter_next, if_neg ham, if_neg hab]
  have hnext : s.links.next (.mailLink m) = .boxMail b := by
    rw [hs, hlast, Links.insertAfter_next, if_pos rfl, hend]
  have hlen := ObjPtr.length_of_nodup (h.nodup hc)
  rw [hq, List.length_append] at hlen
  obtain ⟨k, hk⟩ : ∃ k, walkRounds = pre.length + (k + 2) :=
    ⟨walkRounds - pre.length - 2, by unfold walkRounds; omega⟩
  rw [MailState.linked, hk, mailsOn_path hpath.1 hsame, mailsOn_mailLink, hnext, mailsOn_boxMail]
  by_cases hcb : c = b
  · simp [hcb]
  · simp [hcb, Ne.symm hcb]

theorem send_miss {mbName : Option (List UInt8)} (h : MailsInOrder boxes own q p)
    (hmiss : ¬ PostFits boxes p (.send mbName m))
    (hstep : postStep boxes own p (.send mbName m) = some p') : ¬ Delivers boxes p' := by
  cases hfreed : (p.state.mails m).freed with
  | true =>
    simp only [postStep] at hstep
    split at hstep
    · cases hstep
    · have hfault : mailSend walkRounds p.state mbName (some m) = .error .fault := by
        simp [mailSend, hfreed]
      rw [hfault] at hstep
      cases hstep
      exact not_delivers_crashed
  | false =>
    have hagain := not_and.mp hmiss hfreed
    obtain ⟨-, ⟨-, hrefused⟩ | ⟨b, name, hb, hname, hmsg, hfind, rfl⟩⟩ :=
      send_cases h hfreed hstep
    · refine absurd (fun hmsg hfound => ?_) hagain
      rcases hrefused with hnone | hnone
      · simp [hnone] at hmsg
      · exact absurd hnone hfound
    · have hlinked : Linked boxes p.state m := by
        by_contra hn
        exact hagain fun _ _ => hn
      obtain ⟨c, hc, hm⟩ := h.linked_iff.mp hlinked
      obtain ⟨pre, post, hq⟩ := List.append_of_mem hm
      have hwalk := linked_relinked (s := (p.afterSend name b m).state) h hb hc hq rfl
      rintro ⟨-, -, hdelivers⟩
      obtain ⟨mails, hmails, -, hcount⟩ := hdelivers c hc
      rw [hwalk] at hmails
      by_cases hcb : c = b
      · subst hcb
        rw [if_pos rfl, Option.some.injEq] at hmails
        have hlen := ObjPtr.length_of_nodup (h.nodup hc)
        have hbefore := h.count c hc
        rw [hq, List.length_append, List.length_cons] at hlen hbefore
        have hafter : ((p.afterSend name c m).state.boxes c).numMails =
            add32 (p.state.boxes c).numMails 1 := by
          simp [Post.afterSend, MailState.posted]
        rw [hafter, hbefore, add32_of_lt (by omega), ← hmails, List.length_append,
          List.length_singleton] at hcount
        omega
      · rw [if_neg hcb] at hmails
        cases hmails

/-! ## Receiving a mail without messages -/

theorem recv_miss {timeout : Nat} {alloc : Nat → ObjPtr} (h : MailsInOrder boxes own q p)
    (hmiss : ¬ PostFits boxes p (.recv b r timeout alloc))
    (hstep : postStep boxes own p (.recv b r timeout alloc) = some p') : ¬ Delivers boxes p' := by
  obtain ⟨hb, hr, ⟨-, hq⟩ | ⟨m, rest, mail, object, hq, hp'⟩⟩ := recv_cases h hstep
  · refine absurd (fun m hm => ?_) hmiss
    simp [h.linked_eq hb, hq] at hm
  · by_cases hnum : (p.state.mails m).numMsgs = 0
    · rw [if_pos hnum] at hp'
      subst hp'
      rintro ⟨-, -, hdelivers⟩
      obtain ⟨mails, hmails, haccepted, -⟩ := hdelivers b hb
      have hring := (h.rings_received r mail object hb hq).ring (some b) (isList_some.mpr hb)
      rw [Function.update_self] at hring
      obtain rfl : rest = mails := Option.some.inj ((linked_eq hring).symm.trans hmails)
      -- one mail fewer is linked, and no more are delivered
      have hbefore := congrArg List.length (h.fifo b hb)
      have hafter := congrArg List.length haccepted
      simp only [Post.acceptedBy, MailState.received_name, List.length_append, List.length_map, hq,
        List.length_cons] at hbefore hafter
      omega
    · refine absurd (fun x hx => ?_) hmiss
      obtain rfl : m = x := by simpa [h.linked_eq hb, hq] using hx
      exact hnum

/-! ## The exact condition -/

/-- **One call that does not fit** and mail is not delivered any more. -/
theorem call_miss {call : PostCall} (h : MailsInOrder boxes own q p)
    (hmiss : ¬ PostFits boxes p call) (hstep : postStep boxes own p call = some p') :
    ¬ Delivers boxes p' := by
  cases call with
  | fill m messages => exact fill_miss h hmiss hstep
  | send mbName m => exact send_miss h hmiss hstep
  | recv b r timeout alloc => exact recv_miss h hmiss hstep
  | finish r => exact absurd trivial hmiss

/-- **Mailbox delivery, exactly.**  For every set of registered mailboxes, any number of senders
and every order of calls with all allocations succeeding: in every state of the run the accepted
messages are, in order and unchanged, those delivered and those still linked, and `num_mails`
counts the latter, if and only if every call of the run fits. -/
theorem mail_delivered {s : MailState} {calls : List PostCall} (h : Opened boxes own s)
    (hrun : exec (postStep boxes own) (.start s) calls = some p) :
    Always (postStep boxes own) (Delivers boxes) (.start s) calls ↔
      Meets (postStep boxes own) (PostFits boxes) (.start s) calls := by
  have hpres : ∀ p call p', (∃ q, MailsInOrder boxes own q p) → PostFits boxes p call →
      postStep boxes own p call = some p' → ∃ q, MailsInOrder boxes own q p' := by
    rintro p call p' ⟨q, hq⟩ hfit hstep
    exact call_inOrder hq hfit hstep
  refine always_iff_meets hpres ?_ ?_ ⟨_, inOrder_start h⟩ hrun
  · rintro p ⟨q, hq⟩
    exact hq.delivers
  · rintro p call p' ⟨q, hq⟩ hmiss hstep
    exact call_miss hq hmiss hstep

/-! ## The light and button apps -/

/-- `sgrt_light_app_mailbox`. -/
def lightAppMailbox : ObjPtr := ⟨0x1000, by decide⟩

/-- The mail of the button app. -/
def buttonAppMail : ObjPtr := ⟨0x2000, by decide⟩

/-- The object the light app receives into. -/
def lightAppMail : ObjPtr := ⟨0x3000, by decide⟩

/-- One message of one byte, as the button app sends. -/
def buttonAppMsg : MailMsg := ⟨1, 0, 1, [1], rfl⟩

/-- The light app has registered its mailbox, and the button app has created its mails. -/
def appsStart : MailState where
  links :=
    let init : MailNode → MailNode
      | .sgrtKernelMailboxs => .boxLink lightAppMailbox
      | .boxLink b => if b = lightAppMailbox then .sgrtKernelMailboxs else .boxLink b
      | node => node
    ⟨init, init⟩
  boxes := fun _ => ⟨[108, 105, 103, 104, 116], 0, 0⟩
  mails := fun _ => mailCreate ⟨[98, 117, 116, 116, 111, 110], 0, 0⟩

theorem opened_appsStart :
    Opened [lightAppMailbox] (fun m => decide (m = lightAppMail)) appsStart where
  registry := ⟨by decide, ⟨rfl, rfl⟩, rfl, rfl⟩
  names := by simp
  empty := by decide
  unlocked := by simp [appsStart]
  count := by simp [appsStart]
  mails := fun _ _ => ⟨_, rfl⟩

/-- The button app sends its mail to the light app. -/
def buttonAppSend : PostCall := .send (some [108, 105, 103, 104, 116]) buttonAppMail

/-- The light app receives. -/
def lightAppRecv : PostCall :=
  .recv lightAppMailbox lightAppMail 0 fun _ => ⟨0x4000, by decide⟩

/-- A mail that is sent again after it was read arrives again. -/
theorem mail_delivered_again :
    (exec (postStep [lightAppMailbox] fun m => decide (m = lightAppMail)) (.start appsStart)
        [.fill buttonAppMail [buttonAppMsg], buttonAppSend, lightAppRecv, buttonAppSend,
          lightAppRecv]).isSome = true ∧
      Always (postStep [lightAppMailbox] fun m => decide (m = lightAppMail))
        (Delivers [lightAppMailbox]) (.start appsStart)
        [.fill buttonAppMail [buttonAppMsg], buttonAppSend, lightAppRecv, buttonAppSend,
          lightAppRecv] := by
  have hrun : (exec (postStep [lightAppMailbox] fun m => decide (m = lightAppMail))
      (.start appsStart) [.fill buttonAppMail [buttonAppMsg], buttonAppSend, lightAppRecv,
        buttonAppSend, lightAppRecv]).isSome = true := by decide +kernel
  obtain ⟨p, hp⟩ := Option.isSome_iff_exists.mp hrun
  exact ⟨hrun, (mail_delivered opened_appsStart hp).mpr (by decide +kernel)⟩

/-- A mail that is sent again before it was read is delivered without end: two sends, three
deliveries, and `num_mails` has wrapped around. -/
theorem mail_delivered_twice_over :
    ∃ p, exec (postStep [lightAppMailbox] fun m => decide (m = lightAppMail)) (.start appsStart)
        [.fill buttonAppMail [buttonAppMsg], buttonAppSend, buttonAppSend, lightAppRecv,
          lightAppRecv, lightAppRecv] = some p ∧
      (p.acceptedBy lightAppMailbox).length = 2 ∧
      (p.delivered lightAppMailbox).length = 3 ∧
      (p.state.boxes lightAppMailbox).numMails = 2 ^ 32 - 1 ∧
      p.state.linked lightAppMailbox = some [buttonAppMail] ∧
      ¬ Delivers [lightAppMailbox] p := by
  have hcounts : ∀ p : Post, (p.acceptedBy lightAppMailbox).length = 2 →
      (p.delivered lightAppMailbox).length = 3 → ¬ Delivers [lightAppMailbox] p := by
    rintro p haccepted hdelivered ⟨-, -, hdelivers⟩
    obtain ⟨mails, -, hlog, -⟩ := hdelivers lightAppMailbox (by simp)
    have hlen := congrArg List.length hlog
    rw [List.length_append] at hlen
    omega
  refine ⟨_, rfl, ?_, ?_, ?_, ?_, hcounts _ ?_ ?_⟩ <;> decide +kernel

end HeavenFox.Kernel
