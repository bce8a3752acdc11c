/-
# HeavenFox.Drivers.ImxI2cXfer -- errors of a transfer

`imx_i2c_adap_write` and `imx_i2c_adap_read` return a code when a byte is not acknowledged, but
`__imx_i2c_adap_xfer` passes only that of a read on.  After a write that was refused the transfer
goes on with the next message, or ends with `ER_NORMAL`.

`i2c_errors_reported_iff` says when errors do reach the caller: the first byte that is refused is
the address of a read message, or the repeated start after its message is refused.
-/
import HeavenFox.Drivers.ImxI2cAdapter
import HeavenFox.Logic.StopsAt

namespace HeavenFox.Drivers

open HeavenFox.Common HeavenFox.Logic

/-! ## Logs -/

namespace BusEvent

/-- A byte that was not acknowledged. -/
def Refused : BusEvent → Prop
  | sent _ answer => answer ≠ .ack
  | _ => False

/-- A byte goes out. -/
def isSent : BusEvent → Bool
  | sent _ _ => true
  | _ => false

end BusEvent

/-- No byte is refused, and the bus is not stopped. -/
def Smooth (log : List BusEvent) : Prop := ∀ e ∈ log, ¬ e.Refused ∧ e ≠ .stop

/-- How many bytes go out. -/
def sentCount (log : List BusEvent) : Nat := log.countP BusEvent.isSent

variable {log log' ev ev' : List BusEvent} {n m : Nat}

theorem Smooth.append (h : Smooth ev) (h' : Smooth ev') : Smooth (ev ++ ev') := by
  intro e he
  rcases List.mem_append.mp he with he | he
  · exact h e he
  · exact h' e he

theorem Smooth.not_refused (h : Smooth ev) : ∀ e ∈ ev, ¬ e.Refused := fun e he => (h e he).1

theorem Smooth.not_stop (h : Smooth ev) : .stop ∉ ev := fun hstop => (h .stop hstop).2 rfl

theorem smooth_nil : Smooth [] := by
  intro e he
  cases he

theorem smooth_singleton {e : BusEvent} (h : ¬ e.Refused) (hstop : e ≠ .stop) : Smooth [e] := by
  intro e' he'
  rw [List.mem_singleton.mp he']
  exact ⟨h, hstop⟩

theorem sentCount_append (ev ev' : List BusEvent) :
    sentCount (ev ++ ev') = sentCount ev + sentCount ev' := List.countP_append

/-! ## What one message does -/

namespace FwkI2cMsg

/-- The message is read. -/
def isRead (msg : FwkI2cMsg) : Bool := decide (msg.flags &&& fwkI2cMRd ≠ 0)

/-- How many bytes the adapter has to send for it: the address, and the data of a write. -/
def sends (msg : FwkI2cMsg) : Nat := if msg.isRead then 1 else msg.len.toNat + 1

end FwkI2cMsg

/-- The first of `n` answers, from the answer `k` on, that is no acknowledge. -/
def firstRefusal (bus : MsgBus) : Nat → Nat → Option BusAnswer
  | 0, _ => none
  | n + 1, k => if bus.answer k = .ack then firstRefusal bus n (k + 1) else some (bus.answer k)

/-- The controller is still master after an answer. -/
def BusAnswer.keeps : BusAnswer → Bool
  | .lost msta => msta
  | _ => true

/-- What is added to a log when `n` bytes are sent up to the first that is refused. -/
def Sends (log log' : List BusEvent) (n : Nat) : Option BusAnswer → Prop
  | none => ∃ ev, log' = log ++ ev ∧ Smooth ev ∧ sentCount ev = n
  | some answer => answer ≠ .ack ∧ ∃ ev byte, log' = log ++ ev ++ [.sent byte answer] ∧ Smooth ev

theorem Sends.after {answer : Option BusAnswer} (hev : Smooth ev) (hn : sentCount ev = n)
    (h : Sends (log ++ ev) log' m answer) : Sends log log' (n + m) answer := by
  cases answer with
  | none =>
    obtain ⟨ev', rfl, hev', hm⟩ := h
    refine ⟨ev ++ ev', List.append_assoc .., hev.append hev', ?_⟩
    rw [sentCount_append, hn, hm]
  | some answer =>
    obtain ⟨hrefused, ev', byte, rfl, hev'⟩ := h
    exact ⟨hrefused, ev ++ ev', byte, by rw [List.append_assoc log], hev.append hev'⟩

variable {bus : MsgBus} {k : Nat} {s s' : ImxI2c}

/-- What stays as it is during a message. -/
structure SameXfer (s s' : ImxI2c) : Prop where
  lock : s'.sgrtLock = s.sgrtLock
  last : s'.isLastMsgs = s.isLastMsgs

/-- The controller after bytes were sent, with the answer that refused one of them. -/
structure AfterBytes (s s' : ImxI2c) (answer : Option BusAnswer) : Prop extends SameXfer s s' where
  ial : s'.ial = false
  msta : s.msta = true → s'.msta = answer.elim true BusAnswer.keeps

/-- A byte of a row. -/
theorem sendByte_row (bus : MsgBus) (k : Nat) (data : UInt8) (s : ImxI2c) (hial : s.ial = false) :
    ∃ s', sendByte bus k data s = (if bus.answer k = .ack then erNormal else -erRdataFaild, s') ∧
      s'.log = s.log ++ [.sent data (bus.answer k)] ∧ s'.onBus = none ∧
      AfterBytes s s' (if bus.answer k = .ack then none else some (bus.answer k)) := by
  obtain ⟨s', hsend, hlog, hial', hbus, -, -, hlast, hlock, hmsta⟩ :=
    sendByte_spec bus k data s hial
  refine ⟨s', hsend, hlog, hbus, ⟨hlock, hlast⟩, hial', fun hs => ?_⟩
  rw [hmsta]
  cases bus.answer k with
  | ack => exact hs
  | nack => exact hs
  | lost msta => rfl

theorem smooth_acked (data : UInt8) : Smooth [.sent data .ack] :=
  smooth_singleton (fun h => h rfl) (fun h => by cases h)

/-- **The rest of a write** sends its bytes up to the first that is refused. -/
theorem writeLoop_spec (bus : MsgBus) (buffer k size : Nat) (hial : s.ial = false)
    (hmsta : s.msta = true) :
    ∃ retval s', writeLoop bus buffer size k s = (retval, s') ∧
      Sends s.log s'.log size (firstRefusal bus size (k + 1)) ∧
      AfterBytes s s' (firstRefusal bus size (k + 1)) := by
  induction size generalizing k s with
  | zero =>
    exact ⟨erNormal, s, rfl, ⟨[], (List.append_nil _).symm, smooth_nil, rfl⟩, ⟨rfl, rfl⟩, hial, id⟩
  | succ size ih =>
    obtain ⟨t, hsend, htlog, -, hafter⟩ := sendByte_row bus (k + 1) (s.mem (buffer + k)) s hial
    rw [writeLoop, firstRefusal, hsend]
    by_cases hack : bus.answer (k + 1) = .ack
    · simp only [hack, if_true, ne_eq, not_true_eq_false, if_false] at hafter ⊢
      obtain ⟨retval, s', hloop, hsends, hrest⟩ := ih (k + 1) hafter.ial (hafter.msta hmsta)
      rw [htlog, hack] at hsends
      refine ⟨retval, s', hloop, ?_, ⟨hrest.lock.trans hafter.lock, hrest.last.trans hafter.last⟩,
        hrest.ial, fun _ => hrest.msta (hafter.msta hmsta)⟩
      rw [Nat.add_comm size 1]
      exact hsends.after (smooth_acked _) rfl
    · -- the rest is not sent
      simp only [hack, if_false] at hafter ⊢
      refine ⟨-erRdataFaild, t, rfl, ⟨hack, [], s.mem (buffer + k), ?_, smooth_nil⟩, hafter⟩
      rw [htlog, List.append_nil]

/-- **`imx_i2c_adap_write`** sends the address and the data up to the first byte that is refused. -/
theorem write_spec (bus : MsgBus) (slave : UInt16) (buffer size : Nat) (hial : s.ial = false)
    (hmsta : s.msta = true) :
    ∃ retval s', imxI2cAdapWrite bus slave buffer size s = (retval, s') ∧
      Sends s.log s'.log (size + 1) (firstRefusal bus (size + 1) 0) ∧
      AfterBytes s s' (firstRefusal bus (size + 1) 0) := by
  obtain ⟨t, hsend, htlog, -, hafter⟩ :=
    sendByte_row bus 0 (slave <<< 1).toUInt8 { s with mtx := true } hial
  rw [imxI2cAdapWrite, firstRefusal, hsend]
  by_cases hack : bus.answer 0 = .ack
  · simp only [hack, if_true, ne_eq, not_true_eq_false, if_false] at hafter ⊢
    obtain ⟨retval, s', hloop, hsends, hrest⟩ :=
      writeLoop_spec bus buffer 0 size hafter.ial (hafter.msta hmsta)
    rw [htlog, hack] at hsends
    refine ⟨retval, s', hloop, ?_, ⟨hrest.lock.trans hafter.lock, hrest.last.trans hafter.last⟩,
      hrest.ial, fun _ => hrest.msta (hafter.msta hmsta)⟩
    rw [Nat.add_comm size 1]
    exact hsends.after (smooth_acked _) rfl
  · simp only [hack, if_false] at hafter ⊢
    refine ⟨-erRdataFaild, t, rfl, ⟨hack, [], (slave <<< 1).toUInt8, ?_, smooth_nil⟩,
      ⟨hafter.lock, hafter.last⟩, hafter.ial, hafter.msta⟩
    rw [htlog, List.append_nil]

/-- Steps of a read behind its address: at most receptions are begun. -/
structure Quiet (s s' : ImxI2c) : Prop extends SameXfer s s' where
  log : ∃ ev, s'.log = s.log ++ ev ∧ Smooth ev ∧ sentCount ev = 0
  ial : s'.ial = s.ial
  onBus : ∀ byte, s'.onBus ≠ some (.send byte)
  msta : s.isLastMsgs = false → s'.msta = s.msta

variable {t u : ImxI2c}

theorem Quiet.trans (h : Quiet s t) (h' : Quiet t u) : Quiet s u where
  lock := h'.lock.trans h.lock
  last := h'.last.trans h.last
  log := by
    obtain ⟨ev, hlog, hev, hn⟩ := h.log
    obtain ⟨ev', hlog', hev', hn'⟩ := h'.log
    refine ⟨ev ++ ev', by rw [hlog', hlog, List.append_assoc], hev.append hev', ?_⟩
    rw [sentCount_append, hn, hn']
  ial := h'.ial.trans h.ial
  onBus := h'.onBus
  msta := fun hlast => (h'.msta (h.last.trans hlast)).trans (h.msta hlast)

/-- Nothing is begun. -/
theorem quiet_of_log (hlog : s'.log = s.log) (hsame : SameXfer s s') (hial : s'.ial = s.ial)
    (hbus : ∀ byte, s'.onBus ≠ some (.send byte))
    (hmsta : s.isLastMsgs = false → s'.msta = s.msta) : Quiet s s' where
  toSameXfer := hsame
  log := ⟨[], by rw [hlog, List.append_nil], smooth_nil, rfl⟩
  ial := hial
  onBus := hbus
  msta := hmsta

theorem wait_quiet (bus : MsgBus) (k : Nat) (hbus : ∀ byte, s.onBus ≠ some (.send byte)) :
    ∃ s', imxI2cAdapWaitComplete bus k s = (true, s') ∧ Quiet s s' := by
  rw [imxI2cAdapWaitComplete]
  match h : s.onBus with
  | none => exact ⟨s, rfl, quiet_of_log rfl ⟨rfl, rfl⟩ rfl hbus fun _ => rfl⟩
  | some (.send byte) => exact absurd h (hbus byte)
  | some .receive =>
    exact ⟨_, rfl, quiet_of_log rfl ⟨rfl, rfl⟩ rfl (fun byte hne => by cases hne) fun _ => rfl⟩

theorem readSetup_quiet (bus : MsgBus) (size count : Nat)
    (hbus : ∀ byte, s.onBus ≠ some (.send byte)) :
    ∃ retval s', readSetup bus size count s = (retval, s') ∧ Quiet s s' ∧
      (s.isLastMsgs = false → retval = 0) := by
  unfold readSetup
  by_cases hend : count = sub32 size 1
  · rw [if_pos hend]
    by_cases hlast : s.isLastMsgs = true
    · have hoff : ¬ s.isLastMsgs = false := by simp [hlast]
      rw [if_neg (by simp [hlast])]
      have hquiet : Quiet s { s with mtx := false, msta := false } :=
        quiet_of_log rfl ⟨rfl, rfl⟩ rfl hbus fun h => absurd h hoff
      cases bus.idle with
      | true => exact ⟨erNormal, _, rfl, hquiet, fun h => absurd h hoff⟩
      | false => exact ⟨-erBusy, _, rfl, hquiet, fun h => absurd h hoff⟩
    · rw [if_pos (by simp [hlast])]
      exact ⟨erNormal, _, rfl, quiet_of_log rfl ⟨rfl, rfl⟩ rfl hbus fun _ => rfl, fun _ => rfl⟩
  · rw [if_neg hend]
    by_cases hsecond : count = sub32 size 2
    · rw [if_pos hsecond]
      exact ⟨erNormal, _, rfl, quiet_of_log rfl ⟨rfl, rfl⟩ rfl hbus fun _ => rfl, fun _ => rfl⟩
    · rw [if_neg hsecond]
      exact ⟨erNormal, _, rfl, quiet_of_log rfl ⟨rfl, rfl⟩ rfl hbus fun _ => rfl, fun _ => rfl⟩

theorem readData_quiet (hbus : ∀ byte, s.onBus ≠ some (.send byte)) :
    Quiet s (imxI2cAdapReadData s).2 := by
  rw [imxI2cAdapReadData]
  by_cases hon : (s.msta && !s.mtx) = true
  · rw [if_pos hon]
    refine ⟨⟨rfl, rfl⟩, ⟨[.reception s.txak], rfl, ?_, rfl⟩, rfl, (fun byte h => by cases h),
      fun _ => rfl⟩
    exact smooth_singleton id fun h => by cases h
  · rw [if_neg hon]
    exact quiet_of_log rfl ⟨rfl, rfl⟩ rfl hbus fun _ => rfl

/-- **The loop of a read** sends nothing; and it has no error unless the message is the last. -/
theorem readLoop_quiet (bus : MsgBus) (buffer size rounds count : Nat)
    (hbus : ∀ byte, s.onBus ≠ some (.send byte)) :
    ∃ retval s', readLoop bus buffer size rounds count s = (retval, s') ∧ Quiet s s' ∧
      (s.isLastMsgs = false → retval = 0) := by
  induction rounds generalizing count s with
  | zero =>
    exact ⟨erNormal, s, rfl, quiet_of_log rfl ⟨rfl, rfl⟩ rfl hbus fun _ => rfl, fun _ => rfl⟩
  | succ rounds ih =>
    obtain ⟨t, hwait, htquiet⟩ := wait_quiet bus count hbus
    have hclear : Quiet t (imxI2cAdapClearIntr t) :=
      quiet_of_log rfl ⟨rfl, rfl⟩ rfl htquiet.onBus fun _ => rfl
    have hready := htquiet.trans hclear
    obtain ⟨retval, u, hsetup, huquiet, hcode⟩ := readSetup_quiet bus size count hready.onBus
    have hset := hready.trans huquiet
    rw [readLoop, hwait]
    simp only [Bool.not_true, Bool.false_eq_true, if_false, hsetup]
    by_cases hret : retval ≠ 0
    · rw [if_pos hret]
      exact ⟨retval, u, rfl, hset, fun h => hcode (hready.last.trans h)⟩
    · rw [if_neg hret]
      have hread := hset.trans (readData_quiet hset.onBus)
      obtain ⟨retval', s', hloop, hquiet, hnormal⟩ := @ih
        { (imxI2cAdapReadData u).2 with
          mem := Function.update (imxI2cAdapReadData u).2.mem (buffer + count)
            (imxI2cAdapReadData u).1 } (count + 1) hread.onBus
      refine ⟨retval', s', hloop, ?_, fun h => hnormal (hread.last.trans h)⟩
      exact hread.trans
        ⟨⟨hquiet.lock, hquiet.last⟩, hquiet.log, hquiet.ial, hquiet.onBus, hquiet.msta⟩

/-- **`imx_i2c_adap_read`** returns a code if its address is refused; else there is no error unless
the message is the last. -/
theorem read_spec (bus : MsgBus) (slave : UInt16) (buffer size : Nat) (hial : s.ial = false)
    (hmsta : s.msta = true) :
    ∃ retval s', imxI2cAdapRead bus slave buffer size s = (retval, s') ∧ SameXfer s s' ∧
      s'.ial = false ∧ Sends s.log s'.log 1 (firstRefusal bus 1 0) ∧
      ((firstRefusal bus 1 0).isSome = true → retval ≠ 0) ∧
      (firstRefusal bus 1 0 = none → s.isLastMsgs = false → retval = 0 ∧ s'.msta = true) := by
  obtain ⟨t, hsend, htlog, htbus, hafter⟩ :=
    sendByte_row bus 0 (slave <<< 1 ||| 1).toUInt8 { s with mtx := true } hial
  rw [imxI2cAdapRead, firstRefusal, hsend]
  by_cases hack : bus.answer 0 = .ack
  · simp only [hack, if_true, ne_eq, not_true_eq_false, if_false, firstRefusal] at hafter ⊢
    have hfree : ∀ byte, t.onBus ≠ some (.send byte) := by
      intro byte h
      rw [htbus] at h
      cases h
    have hset : Quiet t { imxI2cAdapSetAck (decide (¬ size > 1)) t with mtx := false } :=
      quiet_of_log rfl ⟨rfl, rfl⟩ rfl hfree fun _ => rfl
    have hdummy := hset.trans (readData_quiet hset.onBus)
    obtain ⟨retval, s', hloop, hrest, hcode⟩ :=
      readLoop_quiet bus buffer size size 0 hdummy.onBus
    have hquiet := hdummy.trans hrest
    obtain ⟨ev, hlog, hev, hn⟩ := hquiet.log
    have hlast : t.isLastMsgs = s.isLastMsgs := hafter.last
    refine ⟨retval, s', hloop, ⟨hquiet.lock.trans hafter.lock, hquiet.last.trans hlast⟩,
      hquiet.ial.trans hafter.ial, ?_, (fun h => by cases h), fun _ h => ?_⟩
    · have hsends : Sends (s.log ++ [.sent (slave <<< 1 ||| 1).toUInt8 .ack]) s'.log 0 none := by
        refine ⟨ev, ?_, hev, hn⟩
        rw [hlog, htlog, hack]
      exact hsends.after (smooth_acked _) rfl
    · have hmore : t.isLastMsgs = false := hlast.trans h
      exact ⟨hcode (hdummy.last.trans hmore), (hquiet.msta hmore).trans (hafter.msta hmsta)⟩
  · simp only [hack, if_false] at hafter ⊢
    refine ⟨-erRdataFaild, t, rfl, ⟨hafter.lock, hafter.last⟩, hafter.ial,
      ⟨hack, [], (slave <<< 1 ||| 1).toUInt8, ?_, smooth_nil⟩, fun _ => by decide,
      fun h => by cases h⟩
    rw [htlog, List.append_nil]

/-- **One message.**  A refused byte ends a read with an error and a write with none; and if no byte
is refused then there is no error unless the message is the last. -/
theorem xferMsg_spec (bus : MsgBus) (msg : FwkI2cMsg) (hial : s.ial = false)
    (hmsta : s.msta = true) :
    ∃ retval s', imxI2cAdapXferMsg bus msg s = (retval, s') ∧ SameXfer s s' ∧ s'.ial = false ∧
      Sends s.log s'.log msg.sends (firstRefusal bus msg.sends 0) ∧ (retval = 0 ∨ retval < 0) ∧
      (∀ answer, firstRefusal bus msg.sends 0 = some answer →
        if msg.isRead then retval < 0 else retval = 0 ∧ s'.msta = answer.keeps) ∧
      (firstRefusal bus msg.sends 0 = none → s.isLastMsgs = false →
        retval = 0 ∧ s'.msta = true) := by
  rw [imxI2cAdapXferMsg]
  by_cases hread : msg.isRead = true
  · have hflag : msg.flags &&& fwkI2cMRd ≠ 0 := of_decide_eq_true hread
    have hsends : msg.sends = 1 := if_pos hread
    rw [if_pos hflag, hsends]
    obtain ⟨retval, s', hcall, hsame, hial', hlog, hrefused, hacked⟩ :=
      read_spec bus msg.addr msg.ptrBuf msg.len.toNat hial hmsta
    simp only [hcall, hread, if_true]
    by_cases hret : retval ≠ 0
    · -- the error of a read is returned
      rw [if_pos hret]
      refine ⟨-erTrxerr, s', rfl, hsame, hial', hlog, Or.inr (by decide), fun _ _ => by decide,
        fun hnone hlast => ?_⟩
      exact absurd (hacked hnone hlast).1 hret
    · rw [if_neg hret]
      refine ⟨erNormal, s', rfl, hsame, hial', hlog, Or.inl rfl, fun answer hanswer => ?_,
        fun hnone hlast => ⟨rfl, (hacked hnone hlast).2⟩⟩
      exact absurd (hrefused (by rw [hanswer]; rfl)) hret
  · have hflag : ¬ msg.flags &&& fwkI2cMRd ≠ 0 := fun h => hread (decide_eq_true h)
    have hsends : msg.sends = msg.len.toNat + 1 := if_neg hread
    rw [if_neg hflag, hsends]
    obtain ⟨retval, s', hcall, hlog, hafter⟩ :=
      write_spec bus msg.addr msg.ptrBuf msg.len.toNat hial hmsta
    have hmaster := hafter.msta hmsta
    -- what a write returns is dropped
    simp only [hcall]
    refine ⟨erNormal, s', rfl, hafter.toSameXfer, hafter.ial, hlog, Or.inl rfl,
      fun answer hanswer => ?_, fun hnone _ => ⟨rfl, ?_⟩⟩
    · rw [if_neg hread, hmaster, hanswer]
      exact ⟨rfl, rfl⟩
    · rw [hmaster, hnone]
      rfl

/-! ## The messages one after another -/

/-- The bytes that the messages have to send. -/
def sendsOf (msgs : List (FwkI2cMsg × MsgBus)) : Nat := (msgs.map fun x => x.1.sends).sum

/-- The first byte that is refused, if the transfer comes to one, is the address of a read message,
or the repeated start after its message is refused: the controller is no longer master, or the bus
is not seen busy in time. -/
def Reported : List (FwkI2cMsg × MsgBus) → Prop
  | [] => True
  | (msg, bus) :: rest =>
    match firstRefusal bus msg.sends 0 with
    | some answer => msg.isRead = true ∨
        ∃ next ∈ rest.head?, answer.keeps = false ∨ next.2.busy = false
    | none => ∀ next ∈ rest.head?, next.2.busy = true → Reported rest

/-- What the messages leave if errors are reported. -/
structure Good (n : Nat) (retval : Int) (ev : List BusEvent) : Prop where
  acked : retval = erNormal → Smooth ev ∧ sentCount ev = n
  stops : StopsAt BusEvent.Refused ev
  running : .stop ∉ ev

/-- What they leave if one is not. -/
def Bad (retval : Int) (ev : List BusEvent) : Prop :=
  ∃ pre byte answer post, ev = pre ++ .sent byte answer :: post ∧ answer ≠ .ack ∧
    (retval = erNormal ∨ post ≠ [])

variable {retval : Int}

theorem good_of_smooth (hev : Smooth ev) (hn : retval = erNormal → sentCount ev = n) :
    Good n retval ev where
  acked := fun h => ⟨hev, hn h⟩
  stops := stopsAt_of_none hev.not_refused
  running := hev.not_stop

/-- A refused byte is the last thing, and there is an error. -/
theorem good_of_refused (byte : UInt8) (answer : BusAnswer) (hev : Smooth ev) (hret : retval < 0) :
    Good n retval (ev ++ [.sent byte answer]) where
  acked := fun h => absurd h hret.ne
  stops := stopsAt_snoc hev.not_refused _
  running := by
    intro hstop
    rcases List.mem_append.mp hstop with h | h
    · exact hev.not_stop h
    · cases List.mem_singleton.mp h

theorem Good.after (hev : Smooth ev) (hn : sentCount ev = n) (h : Good m retval ev') :
    Good (n + m) retval (ev ++ ev') where
  acked := by
    intro hret
    obtain ⟨hev', hm⟩ := h.acked hret
    exact ⟨hev.append hev', by rw [sentCount_append, hn, hm]⟩
  stops := (stopsAt_append hev.not_refused).mpr h.stops
  running := by
    intro hstop
    rcases List.mem_append.mp hstop with hleft | hright
    · exact hev.not_stop hleft
    · exact h.running hright

theorem Bad.after (ev : List BusEvent) (h : Bad retval ev') : Bad retval (ev ++ ev') := by
  obtain ⟨pre, byte, answer, post, rfl, hrefused, hmore⟩ := h
  exact ⟨ev ++ pre, byte, answer, post, (List.append_assoc ..).symm, hrefused, hmore⟩

variable {msg : FwkI2cMsg} {rest msgs : List (FwkI2cMsg × MsgBus)} {idx : Nat}

/-- A repeated start that is refused ends the transfer. -/
theorem xferLoop_refused (msg : FwkI2cMsg) (bus : MsgBus) (rest : List (FwkI2cMsg × MsgBus))
    (retval : Int) (hidx : idx ≠ 0) (h : s.msta = false ∨ bus.busy = false) :
    ∃ code s', xferLoop ((msg, bus) :: rest) idx retval s = (code, s') ∧ code < 0 ∧
      s'.log = s.log ∧ s'.sgrtLock = s.sgrtLock := by
  rw [xferLoop]
  simp only [if_pos hidx, imxI2cAdapRestart]
  by_cases hmsta : s.msta = true
  · have hbusy : bus.busy = false := h.resolve_left (by simp [hmsta])
    refine ⟨-erWildptr, { s with isLastMsgs := rest.isEmpty }, ?_, by decide, rfl, rfl⟩
    simp [hmsta, hbusy, imxI2cAdapForBusy]
  · refine ⟨-erCheckerr, { s with isLastMsgs := rest.isEmpty }, ?_, by decide, rfl, rfl⟩
    simp [hmsta]

/-- The repeated start of a message, which the first one has not. -/
def restartOf (idx : Nat) : List BusEvent := if idx ≠ 0 then [.restart] else []

theorem smooth_restartOf (idx : Nat) : Smooth (restartOf idx) ∧ sentCount (restartOf idx) = 0 := by
  unfold restartOf
  split
  · exact ⟨smooth_singleton id (fun h => by cases h), rfl⟩
  · exact ⟨smooth_nil, rfl⟩

/-- A message is begun. -/
theorem xferLoop_begin (msg : FwkI2cMsg) (bus : MsgBus) (rest : List (FwkI2cMsg × MsgBus))
    (retval : Int) (hmsta : s.msta = true) (hidx : idx ≠ 0 → bus.busy = true) :
    ∃ t : ImxI2c, xferLoop ((msg, bus) :: rest) idx retval s =
        (let (retval, s) := imxI2cAdapXferMsg bus msg t
        if retval < 0 then (retval, s) else xferLoop rest (idx + 1) retval s) ∧
      t.log = s.log ++ restartOf idx ∧ t.ial = s.ial ∧ t.msta = true ∧ t.sgrtLock = s.sgrtLock ∧
      t.isLastMsgs = rest.isEmpty := by
  rw [xferLoop]
  by_cases hfirst : idx ≠ 0
  · have hlog : restartOf idx = [.restart] := if_pos hfirst
    refine ⟨{ s with isLastMsgs := rest.isEmpty, log := s.log ++ [.restart] }, ?_, ?_, rfl, hmsta,
      rfl, rfl⟩
    · simp [hfirst, imxI2cAdapRestart, hmsta, hidx hfirst, imxI2cAdapForBusy]
    · rw [hlog]
  · have hlog : restartOf idx = [] := if_neg hfirst
    refine ⟨{ s with isLastMsgs := rest.isEmpty }, ?_, ?_, rfl, hmsta, rfl, rfl⟩
    · simp [hfirst]
    · rw [hlog, List.append_nil]

/-- What the messages add to the log, by the condition. -/
def Outcome (msgs : List (FwkI2cMsg × MsgBus)) (retval : Int) (ev : List BusEvent) : Prop :=
  (Reported msgs → Good (sendsOf msgs) retval ev) ∧ (¬ Reported msgs → Bad retval ev)

theorem outcome_of_good (hrep : Reported msgs) (h : Good (sendsOf msgs) retval ev) :
    Outcome msgs retval ev :=
  ⟨fun _ => h, fun hnot => absurd hrep hnot⟩

theorem outcome_of_bad (hrep : ¬ Reported msgs) (h : Bad retval ev) : Outcome msgs retval ev :=
  ⟨fun hyes => absurd hyes hrep, fun _ => h⟩

/-- The loop goes on behind a message: what it adds to the log after `ev`. -/
def GoesOn (msgs rest : List (FwkI2cMsg × MsgBus)) (idx : Nat) (retval : Int) (s : ImxI2c)
    (ev : List BusEvent) : Prop :=
  ∃ code s' ev', (if retval < 0 then (retval, s) else xferLoop rest idx retval s) = (code, s') ∧
    s'.log = s.log ++ ev' ∧ s'.sgrtLock = s.sgrtLock ∧ Outcome msgs code (ev ++ ev')

/-- The loop from the message `idx` on, which is begun. -/
def LoopRight (msgs : List (FwkI2cMsg × MsgBus)) (idx : Nat) (s : ImxI2c) : Prop :=
  ∃ code s' ev, xferLoop msgs idx erNormal s = (code, s') ∧ s'.log = s.log ++ ev ∧
    s'.sgrtLock = s.sgrtLock ∧ Outcome msgs code ev ∧ (idx ≠ 0 → msgs ≠ [] → ev ≠ [])

/-- An error ends the loop. -/
theorem goesOn_error (hret : retval < 0) (h : Outcome msgs retval ev) :
    GoesOn msgs rest idx retval s ev := by
  refine ⟨retval, s, [], if_pos hret, (List.append_nil _).symm, rfl, ?_⟩
  rwa [List.append_nil]

/-- The next message is not begun. -/
theorem goesOn_refused {next : FwkI2cMsg × MsgBus} (hidx : idx ≠ 0)
    (hrefuses : s.msta = false ∨ next.2.busy = false)
    (h : ∀ code < 0, Outcome msgs code ev) :
    GoesOn msgs (next :: rest) idx erNormal s ev := by
  obtain ⟨code, s', hloop, hcode, hlog, hlock⟩ :=
    xferLoop_refused next.1 next.2 rest erNormal hidx hrefuses
  refine ⟨code, s', [], ?_, by rw [hlog, List.append_nil], hlock, ?_⟩
  · rw [if_neg (lt_irrefl 0)]
    exact hloop
  · rw [List.append_nil]
    exact h code hcode

/-- **After a byte of a write was refused** nobody is told, unless the next message is not begun. -/
theorem goesOn_after_refusal {answer : BusAnswer} {byte : UInt8} (hev : Smooth ev)
    (hwrite : msg.isRead = false) (hanswer : firstRefusal bus msg.sends 0 = some answer)
    (hack : answer ≠ .ack) (hmsta : s.msta = answer.keeps)
    (ih : s.msta = true → (∀ head ∈ rest.head?, head.2.busy = true) → LoopRight rest (idx + 1) s) :
    GoesOn ((msg, bus) :: rest) rest (idx + 1) erNormal s (ev ++ [.sent byte answer]) := by
  have hrep : Reported ((msg, bus) :: rest) ↔
      ∃ next ∈ rest.head?, answer.keeps = false ∨ next.2.busy = false := by
    rw [Reported]
    simp only [hanswer]
    exact or_iff_right (by simp [hwrite])
  cases rest with
  | nil =>
    -- it was the last message
    refine ⟨erNormal, s, [], rfl, (List.append_nil _).symm, rfl, outcome_of_bad ?_ ?_⟩
    · rw [hrep]
      rintro ⟨next, hnext, -⟩
      cases hnext
    · exact ⟨ev, byte, answer, [], by simp, hack, Or.inl rfl⟩
  | cons next later =>
    by_cases hgo : answer.keeps = true ∧ next.2.busy = true
    · -- the next message begins, so something comes after the refused byte
      obtain ⟨code, s', ev', hloop, hlog, hlock, -, hmore⟩ := ih (hmsta.trans hgo.1) <| by
        intro head hhead
        cases hhead
        exact hgo.2
      refine ⟨code, s', ev', hloop, hlog, hlock, outcome_of_bad ?_ ?_⟩
      · rw [hrep]
        rintro ⟨other, hother, hoff⟩
        cases hother
        simp [hgo.1, hgo.2] at hoff
      · have hne : ev' ≠ [] := hmore (Nat.succ_ne_zero idx) (List.cons_ne_nil _ _)
        exact ⟨ev, byte, answer, ev', by simp, hack, Or.inr hne⟩
    · have hoff : answer.keeps = false ∨ next.2.busy = false := by
        revert hgo
        cases answer.keeps <;> cases next.2.busy <;> simp
      apply goesOn_refused (Nat.succ_ne_zero idx) (hmsta ▸ hoff)
      intro code hcode
      exact outcome_of_good (hrep.mpr ⟨next, rfl, hoff⟩) (good_of_refused byte answer hev hcode)

/-- **After all bytes of a message were acknowledged** it depends on the messages behind it. -/
theorem goesOn_after_acked (hev : Smooth ev) (hn : sentCount ev = msg.sends)
    (hnone : firstRefusal bus msg.sends 0 = none) (hsign : retval = 0 ∨ retval < 0)
    (hmore : rest ≠ [] → retval = 0 ∧ s.msta = true)
    (ih : s.msta = true → (∀ head ∈ rest.head?, head.2.busy = true) → LoopRight rest (idx + 1) s) :
    GoesOn ((msg, bus) :: rest) rest (idx + 1) retval s ev := by
  have hrep : Reported ((msg, bus) :: rest) ↔
      ∀ next ∈ rest.head?, next.2.busy = true → Reported rest := by
    rw [Reported]
    simp only [hnone]
  cases rest with
  | nil =>
    have hgood : Outcome [(msg, bus)] retval ev := by
      apply outcome_of_good (hrep.mpr _) (good_of_smooth hev fun _ => hn)
      intro next hnext
      cases hnext
    rcases hsign with rfl | hneg
    · refine ⟨0, s, [], rfl, (List.append_nil _).symm, rfl, ?_⟩
      rwa [List.append_nil]
    · exact goesOn_error hneg hgood
  | cons next later =>
    obtain ⟨rfl, hmsta⟩ := hmore (List.cons_ne_nil _ _)
    by_cases hbusy : next.2.busy = true
    · -- the condition for these messages is that for the later ones
      obtain ⟨code, s', ev', hloop, hlog, hlock, ⟨hgood, hbad⟩, -⟩ := ih hmsta <| by
        intro head hhead
        cases hhead
        exact hbusy
      have hlater : Reported ((msg, bus) :: next :: later) ↔ Reported (next :: later) := by
        rw [hrep]
        constructor
        · exact fun h => h next rfl hbusy
        · exact fun h _ _ _ => h
      refine ⟨code, s', ev', hloop, hlog, hlock, fun h => ?_, fun h => ?_⟩
      · exact (hgood (hlater.mp h)).after hev hn
      · exact (hbad (hlater.not.mp h)).after ev
    · apply goesOn_refused (Nat.succ_ne_zero idx) (Or.inr (Bool.eq_false_of_not_eq_true hbusy))
      intro code hcode
      apply outcome_of_good (hrep.mpr _) (good_of_smooth hev fun h => absurd h hcode.ne)
      intro other hother hon
      cases hother
      exact absurd hon hbusy

/-- **The loop over the messages.** -/
theorem xferLoop_spec (msgs : List (FwkI2cMsg × MsgBus)) (idx : Nat) (hial : s.ial = false)
    (hmsta : s.msta = true) (hidx : idx ≠ 0 → ∀ head ∈ msgs.head?, head.2.busy = true) :
    LoopRight msgs idx s := by
  induction msgs generalizing idx s with
  | nil =>
    refine ⟨erNormal, s, [], rfl, (List.append_nil _).symm, rfl, outcome_of_good trivial ?_,
      fun _ h => absurd rfl h⟩
    exact good_of_smooth smooth_nil fun _ => rfl
  | cons head rest ih =>
    obtain ⟨msg, bus⟩ := head
    obtain ⟨t, hbegin, htlog, htial, htmsta, htlock, htlast⟩ :=
      xferLoop_begin msg bus rest erNormal hmsta fun h => hidx h (msg, bus) rfl
    obtain ⟨retval, u, hcall, hsame, hual, hlog, hsign, hrefused, hacked⟩ :=
      xferMsg_spec bus msg (htial.trans hial) htmsta
    obtain ⟨hsmooth, hcount⟩ := smooth_restartOf idx
    have hlater : u.msta = true → (∀ head ∈ rest.head?, head.2.busy = true) →
        LoopRight rest (idx + 1) u := fun humsta hbusy => ih (idx + 1) hual humsta fun _ => hbusy
    -- what the message adds to the log, and what comes after it
    obtain ⟨ev, hulog, hgoes⟩ : ∃ ev, u.log = s.log ++ (restartOf idx ++ ev) ∧
        GoesOn ((msg, bus) :: rest) rest (idx + 1) retval u (restartOf idx ++ ev) := by
      rcases Option.eq_none_or_eq_some (firstRefusal bus msg.sends 0) with
        hnone | ⟨answer, hanswer⟩
      · rw [hnone] at hlog
        obtain ⟨ev, hev, hevsmooth, hn⟩ := hlog
        refine ⟨ev, by rw [hev, htlog, List.append_assoc], ?_⟩
        apply goesOn_after_acked (hsmooth.append hevsmooth) _ hnone hsign _ hlater
        · rw [sentCount_append, hcount, hn, Nat.zero_add]
        · intro hne
          exact hacked hnone (htlast.trans (List.isEmpty_eq_false_iff.mpr hne))
      · rw [hanswer] at hlog
        obtain ⟨hack, ev, byte, hev, hevsmooth⟩ := hlog
        have hcode := hrefused answer hanswer
        refine ⟨ev ++ [.sent byte answer], by rw [hev, htlog]; simp only [List.append_assoc], ?_⟩
        rw [← List.append_assoc]
        by_cases hread : msg.isRead = true
        · -- the read has returned the error
          rw [if_pos hread] at hcode
          apply goesOn_error hcode (outcome_of_good _ _)
          · rw [Reported]
            simp only [hanswer]
            exact Or.inl hread
          · exact good_of_refused byte answer (hsmooth.append hevsmooth) hcode
        · rw [if_neg hread] at hcode
          obtain ⟨rfl, humsta⟩ := hcode
          exact goesOn_after_refusal (hsmooth.append hevsmooth)
            (Bool.eq_false_of_not_eq_true hread) hanswer hack humsta hlater
    obtain ⟨code, s', ev', hloop, hlog', hlock', houtcome⟩ := hgoes
    rw [LoopRight, hbegin, hcall]
    refine ⟨code, s', restartOf idx ++ ev ++ ev', hloop, ?_,
      hlock'.trans (hsame.lock.trans htlock), houtcome, fun h _ => ?_⟩
    · rw [hlog', hulog, List.append_assoc]
    · rw [restartOf, if_pos h]
      exact List.cons_ne_nil _ _

/-! ## The whole transfer -/

/-- `ER_NORMAL` means that every byte the messages have to send was sent and acknowledged; behind a
byte that is not there is only the stop, the first one; and the lock is released. -/
structure ErrorsReported (msgs : List FwkI2cMsg) (retval : Int) (s : ImxI2c) : Prop where
  acked : retval = erNormal →
    (∀ e ∈ s.log, ¬ e.Refused) ∧ sentCount s.log = (msgs.map FwkI2cMsg.sends).sum
  stopped : ∀ pre byte answer post, s.log = pre ++ .sent byte answer :: post → answer ≠ .ack →
    post = [.stop] ∧ .stop ∉ pre
  released : s.sgrtLock = false

/-- A start that the bus does not follow. -/
theorem xfer_not_started (msgs : List (FwkI2cMsg × MsgBus)) (s : ImxI2c) :
    ∃ retval s', imxI2cAdapXfer false msgs { s with log := [] } = (retval, s') ∧ retval < 0 ∧
      s'.log = [.start] ∧ s'.sgrtLock = false :=
  ⟨-erNready, _, rfl, by decide, rfl, rfl⟩

theorem start_spec (s : ImxI2c) :
    ∃ t, imxI2cAdapStart true s = (erNormal, t) ∧ t.log = s.log ++ [.start] ∧ t.ial = false ∧
      t.msta = true :=
  ⟨_, rfl, rfl, rfl, rfl⟩

theorem xfer_started (msgs : List (FwkI2cMsg × MsgBus)) (s : ImxI2c) :
    ∃ retval s' ev, imxI2cAdapXfer true msgs { s with log := [] } = (retval, s') ∧
      s'.log = .start :: ev ++ [.stop] ∧ s'.sgrtLock = false ∧ Outcome msgs retval ev := by
  obtain ⟨t, hstart, htlog, htial, htmsta⟩ := start_spec { s with log := [], sgrtLock := true }
  obtain ⟨code, u, ev, hloop, hlog, -, houtcome, -⟩ :=
    xferLoop_spec msgs 0 htial htmsta fun h => absurd rfl h
  refine ⟨code, { imxI2cAdapStop u with isLastMsgs := false, sgrtLock := false }, ev, ?_, ?_, rfl,
    houtcome⟩
  · simp only [imxI2cAdapXfer, hstart, ne_eq, not_true_eq_false, if_false, hloop]
  · show u.log ++ [.stop] = _
    rw [hlog, htlog]
    rfl

/-- The stop is behind everything else. -/
theorem before_stop {l pre post : List BusEvent} {byte : UInt8} {answer : BusAnswer}
    (h : l ++ [.stop] = pre ++ .sent byte answer :: post) :
    ∃ post', post = post' ++ [.stop] ∧ l = pre ++ .sent byte answer :: post' := by
  rcases List.eq_nil_or_concat post with rfl | ⟨post', last, rfl⟩
  · have hlast := List.append_inj_right' h rfl
    cases hlast
  · rw [List.concat_eq_append, ← List.cons_append, ← List.append_assoc] at h
    obtain ⟨hl, hlast⟩ := List.append_inj' h rfl
    cases hlast
    exact ⟨post', List.concat_eq_append, hl⟩

theorem Good.reported (h : Good (sendsOf msgs) retval ev) (hlog : s.log = .start :: ev ++ [.stop])
    (hlock : s.sgrtLock = false) : ErrorsReported (msgs.map Prod.fst) retval s where
  acked := by
    intro hret
    obtain ⟨hsmooth, hcount⟩ := h.acked hret
    constructor
    · intro e he
      rw [hlog] at he
      rcases List.mem_append.mp he with he | he
      · rcases List.mem_cons.mp he with rfl | he
        · exact id
        · exact (hsmooth e he).1
      · rw [List.mem_singleton.mp he]
        exact id
    · have hsum : sendsOf msgs = ((msgs.map Prod.fst).map FwkI2cMsg.sends).sum := by
        rw [sendsOf, List.map_map]
        rfl
      rw [hlog, sentCount_append, ← hsum, ← hcount]
      rfl
  stopped := by
    intro pre byte answer post heq hrefused
    rw [hlog] at heq
    obtain ⟨post', rfl, hbefore⟩ := before_stop heq
    have hstops : StopsAt BusEvent.Refused (.start :: ev) := (stopsAt_cons id).mpr h.stops
    rw [hstops pre _ post' hbefore hrefused]
    refine ⟨rfl, fun hstop => ?_⟩
    have hmem : BusEvent.stop ∈ BusEvent.start :: ev := by
      rw [hbefore]
      exact List.mem_append_left _ hstop
    rcases List.mem_cons.mp hmem with hstart | hin
    · cases hstart
    · exact h.running hin
  released := hlock

theorem Bad.not_reported {all : List FwkI2cMsg} (h : Bad retval ev)
    (hlog : s.log = .start :: ev ++ [.stop]) : ¬ ErrorsReported all retval s := by
  obtain ⟨pre, byte, answer, post, rfl, hrefused, hor⟩ := h
  have hsplit : s.log = (.start :: pre) ++ .sent byte answer :: (post ++ [.stop]) := by
    rw [hlog]
    simp only [List.cons_append, List.append_assoc]
  intro hreported
  rcases hor with hret | hmore
  · -- the caller is told that all is well
    have hmem : BusEvent.sent byte answer ∈ s.log := by
      rw [hsplit]
      exact List.mem_append_right _ List.mem_cons_self
    exact (hreported.acked hret).1 _ hmem hrefused
  · -- the transfer has gone on
    obtain ⟨hpost, -⟩ := hreported.stopped _ byte answer _ hsplit hrefused
    exact hmore (List.append_left_eq_self.mp hpost)

/-- **When errors reach the caller.**  For every list of messages and everything that the bus does:
the transfer reports its errors, and stops after them, if and only if it does not begin, or the
first byte that is refused is the address of a read message, or the repeated start after its message
is refused. -/
theorem i2c_errors_reported_iff (busy : Bool) (msgs : List (FwkI2cMsg × MsgBus)) (s : ImxI2c) :
    ErrorsReported (msgs.map Prod.fst) (imxI2cAdapXfer busy msgs { s with log := [] }).1
        (imxI2cAdapXfer busy msgs { s with log := [] }).2 ↔
      (busy = true → Reported msgs) := by
  cases busy with
  | false =>
    obtain ⟨retval, s', hrun, hret, hlog, hlock⟩ := xfer_not_started msgs s
    rw [hrun]
    refine iff_of_true ⟨fun h => absurd h hret.ne, ?_, hlock⟩ fun h => by cases h
    intro pre byte answer post heq _
    have hmem : BusEvent.sent byte answer ∈ s'.log := by
      rw [heq]
      exact List.mem_append_right _ List.mem_cons_self
    rw [hlog, List.mem_singleton] at hmem
    cases hmem
  | true =>
    obtain ⟨retval, s', ev, hrun, hlog, hlock, hgood, hbad⟩ := xfer_started msgs s
    rw [hrun]
    constructor
    · intro hreported _
      by_contra hrep
      exact (hbad hrep).not_reported hlog hreported
    · intro hrep
      exact (hgood (hrep rfl)).reported hlog hlock

/-- A write of one byte to a slave that is not there returns `ER_NORMAL`. -/
theorem missing_slave_unnoticed :
    ¬ ErrorsReported [⟨0x50, 0, 1, 0⟩]
      (imxI2cAdapXfer true [(⟨0x50, 0, 1, 0⟩, ⟨true, fun _ => .nack, fun _ => 0, true⟩)]
        ImxI2c.reset).1
      (imxI2cAdapXfer true [(⟨0x50, 0, 1, 0⟩, ⟨true, fun _ => .nack, fun _ => 0, true⟩)]
        ImxI2c.reset).2 := by
  intro h
  have hmem : BusEvent.sent 0xa0 .nack ∈ [BusEvent.start, .sent 0xa0 .nack, .stop] := by decide
  exact (h.acked rfl).1 _ hmem fun hack => by cases hack

end HeavenFox.Drivers
