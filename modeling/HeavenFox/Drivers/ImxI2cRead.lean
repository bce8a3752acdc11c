/-
# HeavenFox.Drivers.ImxI2cRead -- the handshake of `imx_i2c_adap_read`

The controller is one byte ahead: when a byte is read the next one is already received, with the
answer that was set before.  So the answer to the last byte is set one round early, and before the
last read the controller is taken out of receive mode or stops to be master, so that no further byte
is asked for.  For the first two bytes this is done in front of the loop and with `size - 2` below
zero, and it is right for every length (`read_handshake`).
-/
import HeavenFox.Drivers.ImxI2cAdapter

namespace HeavenFox.Drivers

open HeavenFox.Common HeavenFox.Logic

variable {bus : MsgBus} {buffer size count rounds : Nat} {s : ImxI2c}

/-! ## One round -/

/-- A byte that is on its way has come when the wait is over. -/
theorem wait_receive (h : s.onBus = some .receive) :
    imxI2cAdapWaitComplete bus count s =
      (true, { s with onBus := none, iif := true, data := bus.incoming count }) := by
  rw [imxI2cAdapWaitComplete, h]

theorem readData_receiving (s : ImxI2c) (hmsta : s.msta = true) (hmtx : s.mtx = false) :
    imxI2cAdapReadData s =
      (s.data, { s with onBus := some .receive, log := s.log ++ [.reception s.txak] }) := by
  have hon : (s.msta && !s.mtx) = true := by simp [hmsta, hmtx]
  rw [imxI2cAdapReadData, if_pos hon]

theorem readData_idle (h : (s.msta && !s.mtx) = false) : imxI2cAdapReadData s = (s.data, s) := by
  have hoff : ¬ (s.msta && !s.mtx) = true := by simp [h]
  rw [imxI2cAdapReadData, if_neg hoff]

/-- Before the last read the controller stops to receive. -/
theorem readSetup_last (s : ImxI2c) (hcount : count + 1 = size) (hsize : size < 2 ^ 32)
    (hidle : bus.idle = true) :
    ∃ s', readSetup bus size count s = (erNormal, s') ∧ (s'.msta && !s'.mtx) = false ∧
      s'.onBus = s.onBus ∧ s'.data = s.data ∧ s'.mem = s.mem ∧ s'.log = s.log := by
  have hlast : count = sub32 size 1 := by
    unfold sub32
    omega
  unfold readSetup
  rw [if_pos hlast]
  by_cases hmsgs : s.isLastMsgs = true
  · refine ⟨{ s with mtx := false, msta := false }, ?_, rfl, rfl, rfl, rfl, rfl⟩
    simp [imxI2cAdapForBusy, hidle, hmsgs]
  · refine ⟨{ s with mtx := true }, ?_, by simp, rfl, rfl, rfl, rfl⟩
    simp [hmsgs]

/-- Before the others the answer to the byte behind the next one is set. -/
theorem readSetup_more (bus : MsgBus) (s : ImxI2c) (hcount : count + 1 < size)
    (hsize : size < 2 ^ 32) :
    readSetup bus size count s = (erNormal, imxI2cAdapSetAck (decide (count + 2 = size)) s) := by
  have hlast : count ≠ sub32 size 1 := by
    unfold sub32
    omega
  have hsecond : count = sub32 size 2 ↔ count + 2 = size := by
    unfold sub32
    omega
  unfold readSetup
  rw [if_neg hlast]
  by_cases hnext : count + 2 = size
  · rw [if_pos (hsecond.mpr hnext), decide_eq_true hnext]
  · rw [if_neg (fun h => hnext (hsecond.mp h)), decide_eq_false hnext]

/-- One round of the loop. -/
theorem readLoop_step (buffer rounds : Nat) {t u : ImxI2c} {byte : UInt8}
    (hbus : s.onBus = some .receive)
    (hsetup : readSetup bus size count
      { s with onBus := none, iif := false, data := bus.incoming count } = (erNormal, t))
    (hread : imxI2cAdapReadData t = (byte, u)) :
    readLoop bus buffer size (rounds + 1) count s =
      readLoop bus buffer size rounds (count + 1)
        { u with mem := Function.update u.mem (buffer + count) byte } := by
  rw [readLoop, wait_receive hbus]
  simp only [Bool.not_true, Bool.false_eq_true, if_false, imxI2cAdapClearIntr, hsetup, ne_eq,
    not_true_eq_false, hread]

/-! ## The loop -/

/-- The reception of the byte `i`: all bytes but the last are acknowledged. -/
def receptionOf (size i : Nat) : BusEvent := .reception (decide (i + 1 = size))

/-- **The loop** stands in front of the byte `count`, which is on its way.  It reads this byte and
the others, and begins the receptions of the others. -/
theorem readLoop_spec (buffer : Nat) (hcount : count + (rounds + 1) = size) (hsize : size < 2 ^ 32)
    (hidle : bus.idle = true) (hbus : s.onBus = some .receive) (hmsta : s.msta = true)
    (hmtx : s.mtx = false) :
    ∃ s', readLoop bus buffer size (rounds + 1) count s = (erNormal, s') ∧
      (∀ i, count ≤ i → i < size → s'.mem (buffer + i) = bus.incoming i) ∧
      (∀ a, (∀ i, count ≤ i → i < size → a ≠ buffer + i) → s'.mem a = s.mem a) ∧
      s'.log = s.log ++ (List.range' (count + 1) rounds).map (receptionOf size) ∧
      s'.onBus = none := by
  induction rounds generalizing count s with
  | zero =>
    obtain ⟨t, hsetup, hoff, htbus, htdata, htmem, htlog⟩ := readSetup_last
      { s with onBus := none, iif := false, data := bus.incoming count } hcount hsize hidle
    refine ⟨_, readLoop_step buffer 0 hbus hsetup (readData_idle hoff), ?_, ?_, ?_, htbus⟩
    · intro i hlow hhigh
      obtain rfl : i = count := by omega
      show Function.update t.mem (buffer + i) t.data (buffer + i) = _
      rw [Function.update_self, htdata]
    · intro a ha
      show Function.update t.mem (buffer + count) t.data a = s.mem a
      rw [Function.update_of_ne (ha count (Nat.le_refl _) (by omega)), htmem]
    · show t.log = s.log ++ []
      rw [htlog, List.append_nil]
  | succ rounds ih =>
    -- the next byte is on its way with the answer that is set in this round
    have hmore : count + 1 < size := by omega
    have hsetup := readSetup_more bus
      { s with onBus := none, iif := false, data := bus.incoming count } hmore hsize
    have hstep := readLoop_step buffer (rounds + 1) hbus hsetup (readData_receiving _ hmsta hmtx)
    obtain ⟨s', hloop, hread, hothers, hlog, hnone⟩ := @ih (count + 1)
      { s with
        onBus := some .receive
        iif := false
        data := bus.incoming count
        txak := decide (count + 2 = size)
        mem := Function.update s.mem (buffer + count) (bus.incoming count)
        log := s.log ++ [receptionOf size (count + 1)] }
      (by omega) rfl hmsta hmtx
    refine ⟨s', hstep.trans hloop, ?_, ?_, ?_, hnone⟩
    · intro i hlow hhigh
      rcases Nat.eq_or_lt_of_le hlow with rfl | hlow
      · -- the byte of this round is not written again
        rw [hothers (buffer + count) (fun j hj _ => by omega)]
        exact Function.update_self ..
      · exact hread i hlow hhigh
    · intro a ha
      rw [hothers a fun i hlow hhigh => ha i (by omega) hhigh]
      exact Function.update_of_ne (ha count (Nat.le_refl _) (by omega)) ..
    · rw [hlog, List.range'_succ, List.map_cons, List.append_assoc]
      rfl

/-! ## The whole read -/

/-- After the address the first byte is on its way. -/
theorem read_begins (slave : UInt16) (buffer size : Nat) (hial : s.ial = false)
    (hmsta : s.msta = true) (hack : bus.answer 0 = .ack) :
    ∃ t, imxI2cAdapRead bus slave buffer size s = readLoop bus buffer size size 0 t ∧
      t.onBus = some .receive ∧ t.msta = true ∧ t.mtx = false ∧ t.mem = s.mem ∧
      t.log = s.log ++ [.sent (slave <<< 1 ||| 1).toUInt8 .ack] ++
        [.reception (decide (¬ size > 1))] := by
  obtain ⟨t, hsend, htlog, -, -, htmem, -, -, -, htmsta⟩ :=
    sendByte_spec bus 0 (slave <<< 1 ||| 1).toUInt8 { s with mtx := true } hial
  rw [hack] at hsend htlog htmsta
  have hmaster : t.msta = true := htmsta.trans hmsta
  have hread := readData_receiving
    { imxI2cAdapSetAck (decide (¬ size > 1)) t with mtx := false } hmaster rfl
  refine ⟨{ t with
    txak := decide (¬ size > 1)
    mtx := false
    onBus := some .receive
    log := t.log ++ [.reception (decide (¬ size > 1))] }, ?_, rfl, hmaster, rfl, htmem, ?_⟩
  · rw [imxI2cAdapRead]
    simp only [hsend, if_true, ne_eq, not_true_eq_false, if_false, hread]
    rfl
  · rw [htlog]

/-- **The handshake.**  A read of any length, the last of its transfer or not, of a slave that
acknowledges its address stores exactly the bytes received, in their order; it begins one reception
for each byte and none for a byte behind them, and the last is answered with NACK, the others with
ACK. -/
theorem read_handshake (bus : MsgBus) (slave : UInt16) (buffer size : Nat) (s : ImxI2c)
    (hone : 1 ≤ size) (hsize : size < 2 ^ 32) (hmsta : s.msta = true) (hial : s.ial = false)
    (hack : bus.answer 0 = .ack) (hidle : bus.idle = true) :
    ∃ s', imxI2cAdapRead bus slave buffer size s = (erNormal, s') ∧
      (∀ i < size, s'.mem (buffer + i) = bus.incoming i) ∧
      (∀ a, (∀ i < size, a ≠ buffer + i) → s'.mem a = s.mem a) ∧
      s'.log = s.log ++ [BusEvent.sent (slave <<< 1 ||| 1).toUInt8 .ack] ++
        (List.range size).map (fun i => BusEvent.reception (decide (i + 1 = size))) ∧
      s'.onBus = none := by
  obtain ⟨t, hbegin, htbus, htmsta, htmtx, htmem, htlog⟩ :=
    read_begins slave buffer size hial hmsta hack
  obtain ⟨rounds, rfl⟩ : ∃ rounds, size = rounds + 1 := ⟨size - 1, by omega⟩
  obtain ⟨s', hloop, hread, hothers, hlog, hnone⟩ :=
    readLoop_spec buffer (Nat.zero_add (rounds + 1)) hsize hidle htbus htmsta htmtx
  refine ⟨s', hbegin.trans hloop, fun i hi => hread i (Nat.zero_le _) hi, ?_, ?_, hnone⟩
  · intro a ha
    rw [hothers a fun i _ hi => ha i hi, htmem]
  · -- the reception of the first byte was begun by the dummy read
    have hfirst : decide (¬ rounds + 1 > 1) = decide (0 + 1 = rounds + 1) := by
      rw [decide_eq_decide]
      omega
    rw [hlog, htlog, hfirst, List.range_eq_range', List.range'_succ, List.map_cons,
      List.append_assoc _ [_]]
    rfl

/-- Three bytes from a slave that counts. -/
theorem read_handshake_three :
    ∃ s', imxI2cAdapRead ⟨true, fun _ => .ack, UInt8.ofNat, true⟩ 0x50 0x1000 3
        { ImxI2c.reset with msta := true } = (erNormal, s') ∧
      s'.log = [.sent 0xa1 .ack, .reception false, .reception false, .reception true] := by
  obtain ⟨s', hrun, -, -, hlog, -⟩ := read_handshake ⟨true, fun _ => .ack, UInt8.ofNat, true⟩ 0x50
    0x1000 3 { ImxI2c.reset with msta := true } (by decide) (by decide) rfl rfl rfl rfl
  exact ⟨s', hrun, hlog⟩

end HeavenFox.Drivers
