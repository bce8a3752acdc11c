/-
# HeavenFox.Drivers.ImxI2cAdapter -- transfers of `imx-i2c.c`

The adapter sends and receives byte by byte.  A byte that is written to the data register goes out,
and the bus answers.  In receive mode a read of the data register returns the byte that came last,
and as long as the controller is master it starts the reception of the next one, which is answered
with what `txak` is then.

What happens on the bus is written down in a log, in the order in which it is begun.
-/
import HeavenFox.Common.ErrorTypes

namespace HeavenFox.Drivers

open HeavenFox.Common HeavenFox.Logic

/-! ## Messages and the bus -/

/-- `struct fwk_i2c_msg` -/
structure FwkI2cMsg where
  addr : UInt16
  flags : UInt16
  len : UInt16
  ptrBuf : Nat
  deriving DecidableEq, Repr

/-- `FWK_I2C_M_RD` -/
def fwkI2cMRd : UInt16 := 1

/-- What the bus answers to a byte.  A controller that has lost the arbitration may be master no
longer. -/
inductive BusAnswer where
  | ack
  | nack
  | lost (msta : Bool)
  deriving DecidableEq, Repr

/-- What the bus does during a message: whether it is seen busy before a repeated start, what it
answers to the bytes, which bytes come in, and whether it is seen idle at the end of a read. -/
structure MsgBus where
  busy : Bool
  answer : Nat → BusAnswer
  incoming : Nat → UInt8
  idle : Bool

/-- What is begun on the bus; a reception with the answer that it gets. -/
inductive BusEvent where
  | start
  | restart
  | sent (byte : UInt8) (answer : BusAnswer)
  | reception (nack : Bool)
  | stop
  deriving DecidableEq, Repr

/-- A byte on its way. -/
inductive Transmission where
  | send (byte : UInt8)
  | receive
  deriving DecidableEq, Repr

/-! ## The controller -/

/-- The registers of a `struct imx_i2c_reg`, what of `struct imx_i2c_drv_data` a transfer uses, the
byte that is on its way, the memory of the buffers, and the log. -/
structure ImxI2c where
  txak : Bool
  mtx : Bool
  msta : Bool
  ien : Bool
  rxak : Bool
  iif : Bool
  ial : Bool
  data : UInt8
  isLastMsgs : Bool
  sgrtLock : Bool
  onBus : Option Transmission
  mem : Nat → UInt8
  log : List BusEvent

namespace ImxI2c

/-- All registers as after a reset, and nothing is stored. -/
def reset : ImxI2c where
  txak := false
  mtx := false
  msta := false
  ien := false
  rxak := false
  iif := false
  ial := false
  data := 0
  isLastMsgs := false
  sgrtLock := false
  onBus := none
  mem := fun _ => 0
  log := []

/-- The bus answers to a byte that goes out. -/
def answered (byte : UInt8) (answer : BusAnswer) (s : ImxI2c) : ImxI2c :=
  let log := s.log ++ [.sent byte answer]
  match answer with
  | .ack => { s with rxak := false, log }
  | .nack => { s with rxak := true, log }
  | .lost msta => { s with ial := true, msta, log }

end ImxI2c

/-- `imx_i2c_adap_set_ack`, for `NR_I2C_NACK` or `NR_I2C_ACK`. -/
def imxI2cAdapSetAck (nack : Bool) (s : ImxI2c) : ImxI2c := { s with txak := nack }

/-- `imx_i2c_adap_get_ack`: whether it is `NR_I2C_NACK`. -/
def imxI2cAdapGetAck (s : ImxI2c) : Bool := s.rxak

/-- `imx_i2c_adap_write_data`. -/
def imxI2cAdapWriteData (data : UInt8) (s : ImxI2c) : ImxI2c :=
  { s with onBus := some (.send data) }

/-- `imx_i2c_adap_read_data`: what it returns is the byte that came last. -/
def imxI2cAdapReadData (s : ImxI2c) : UInt8 × ImxI2c :=
  (s.data,
    if s.msta && !s.mtx then
      { s with onBus := some .receive, log := s.log ++ [.reception s.txak] }
    else s)

/-- `imx_i2c_adap_wait_complete` for the byte `k` of a message in its direction. -/
def imxI2cAdapWaitComplete (bus : MsgBus) (k : Nat) (s : ImxI2c) : Bool × ImxI2c :=
  (true,
    match s.onBus with
    | none => s
    | some (.send byte) => { s with onBus := none, iif := true }.answered byte (bus.answer k)
    | some .receive => { s with onBus := none, iif := true, data := bus.incoming k })

/-- `imx_i2c_adap_for_busy`: whether the bus is seen as it should be before the time is over. -/
def imxI2cAdapForBusy (inTime : Bool) : Int := if inTime then erNormal else -erTimeout

/-- `imx_i2c_adap_clear_intr`. -/
def imxI2cAdapClearIntr (s : ImxI2c) : ImxI2c := { s with iif := false }

/-- `imx_i2c_adap_check_ack`. -/
def imxI2cAdapCheckAck (s : ImxI2c) : Bool × ImxI2c :=
  if s.ial then (false, { s with ial := false, ien := true })
  else if imxI2cAdapGetAck s then (false, s)
  else (true, s)

/-- `imx_i2c_adap_start`; `busy` is whether the bus is seen busy in time. -/
def imxI2cAdapStart (busy : Bool) (s : ImxI2c) : Int × ImxI2c :=
  let s := { s with iif := false, ial := false, ien := true }
  let s := { s with rxak := false, msta := true, log := s.log ++ [.start] }
  if imxI2cAdapForBusy busy ≠ 0 then (-erNready, s)
  else (erNormal, imxI2cAdapSetAck true { s with mtx := true })

/-- `imx_i2c_adap_restart`. -/
def imxI2cAdapRestart (busy : Bool) (s : ImxI2c) : Int × ImxI2c :=
  if !s.msta then (-erCheckerr, s)
  else if imxI2cAdapForBusy busy ≠ 0 then (-erWildptr, s)
  else (erNormal, { s with log := s.log ++ [.restart] })

/-- `imx_i2c_adap_stop`; it goes on even if the bus stays busy. -/
def imxI2cAdapStop (s : ImxI2c) : ImxI2c :=
  { s with msta := false, mtx := false, txak := false, ien := false, log := s.log ++ [.stop] }

/-! ## Writing -/

/-- A byte is written, and its answer is waited for and checked. -/
def sendByte (bus : MsgBus) (k : Nat) (data : UInt8) (s : ImxI2c) : Int × ImxI2c :=
  let (complete, s) := imxI2cAdapWaitComplete bus k (imxI2cAdapWriteData data s)
  if !complete then (-erTimeout, s)
  else
    let (acked, s) := imxI2cAdapCheckAck (imxI2cAdapClearIntr s)
    if !acked then (-erRdataFaild, s) else (erNormal, s)

/-- The loop of `imx_i2c_adap_write`, from the byte `k` of the buffer on. -/
def writeLoop (bus : MsgBus) (buffer : Nat) : Nat → Nat → ImxI2c → Int × ImxI2c
  | 0, _, s => (erNormal, s)
  | size + 1, k, s =>
    let (retval, s) := sendByte bus (k + 1) (s.mem (buffer + k)) s
    if retval ≠ 0 then (retval, s) else writeLoop bus buffer size (k + 1) s

/-- `imx_i2c_adap_write`. -/
def imxI2cAdapWrite (bus : MsgBus) (slave : UInt16) (buffer size : Nat) (s : ImxI2c) :
    Int × ImxI2c :=
  let (retval, s) := sendByte bus 0 (slave <<< 1).toUInt8 { s with mtx := true }
  if retval ≠ 0 then (retval, s) else writeLoop bus buffer size 0 s

/-! ## Reading -/

/-- What is set before the byte `count` is read. -/
def readSetup (bus : MsgBus) (size count : Nat) (s : ImxI2c) : Int × ImxI2c :=
  if count = sub32 size 1 then
    if !s.isLastMsgs then (erNormal, { s with mtx := true })
    else
      let s := { s with mtx := false, msta := false }
      if imxI2cAdapForBusy bus.idle ≠ 0 then (-erBusy, s) else (erNormal, s)
  else if count = sub32 size 2 then (erNormal, imxI2cAdapSetAck true s)
  else (erNormal, imxI2cAdapSetAck false s)

/-- The loop of `imx_i2c_adap_read`, from `count` on. -/
def readLoop (bus : MsgBus) (buffer size : Nat) : Nat → Nat → ImxI2c → Int × ImxI2c
  | 0, _, s => (erNormal, s)
  | rounds + 1, count, s =>
    let (complete, s) := imxI2cAdapWaitComplete bus count s
    if !complete then (-erTimeout, s)
    else
      let (retval, s) := readSetup bus size count (imxI2cAdapClearIntr s)
      if retval ≠ 0 then (retval, s)
      else
        let (byte, s) := imxI2cAdapReadData s
        readLoop bus buffer size rounds (count + 1)
          { s with mem := Function.update s.mem (buffer + count) byte }

/-- `imx_i2c_adap_read`. -/
def imxI2cAdapRead (bus : MsgBus) (slave : UInt16) (buffer size : Nat) (s : ImxI2c) :
    Int × ImxI2c :=
  let (retval, s) := sendByte bus 0 (slave <<< 1 ||| 1).toUInt8 { s with mtx := true }
  if retval ≠ 0 then (retval, s)
  else
    let s := imxI2cAdapSetAck (decide (¬ size > 1)) s
    let (_, s) := imxI2cAdapReadData { s with mtx := false }
    readLoop bus buffer size size 0 s

/-! ## Transfers -/

/-- `__imx_i2c_adap_xfer`: the result of a write is dropped. -/
def imxI2cAdapXferMsg (bus : MsgBus) (msg : FwkI2cMsg) (s : ImxI2c) : Int × ImxI2c :=
  if msg.flags &&& fwkI2cMRd ≠ 0 then
    let (retval, s) := imxI2cAdapRead bus msg.addr msg.ptrBuf msg.len.toNat s
    if retval ≠ 0 then (-erTrxerr, s) else (erNormal, s)
  else
    let (_, s) := imxI2cAdapWrite bus msg.addr msg.ptrBuf msg.len.toNat s
    (erNormal, s)

/-- The loop of `imx_i2c_adap_xfer`, from the message `idx` on, with what the bus does during each
message. -/
def xferLoop : List (FwkI2cMsg × MsgBus) → Nat → Int → ImxI2c → Int × ImxI2c
  | [], _, retval, s => (retval, s)
  | (msg, bus) :: rest, idx, _, s =>
    let s := { s with isLastMsgs := rest.isEmpty }
    let (retval, s) := if idx ≠ 0 then imxI2cAdapRestart bus.busy s else (erNormal, s)
    if retval ≠ 0 then (retval, s)
    else
      let (retval, s) := imxI2cAdapXferMsg bus msg s
      if retval < 0 then (retval, s) else xferLoop rest (idx + 1) retval s

/-- `imx_i2c_adap_xfer`; `busy` is whether the bus is seen busy after the start. -/
def imxI2cAdapXfer (busy : Bool) (msgs : List (FwkI2cMsg × MsgBus)) (s : ImxI2c) : Int × ImxI2c :=
  let (retval, s) := imxI2cAdapStart busy { s with sgrtLock := true }
  if retval ≠ 0 then (retval, { s with sgrtLock := false })
  else
    let (retval, s) := xferLoop msgs 0 retval s
    (retval, { imxI2cAdapStop s with isLastMsgs := false, sgrtLock := false })

/-! ## Sending a byte -/

/-- **A byte is sent** and is in the log with its answer; the code says whether it was acknowledged.
No reception is under way after it. -/
theorem sendByte_spec (bus : MsgBus) (k : Nat) (data : UInt8) (s : ImxI2c) (hial : s.ial = false) :
    ∃ s', sendByte bus k data s = (if bus.answer k = .ack then erNormal else -erRdataFaild, s') ∧
      s'.log = s.log ++ [.sent data (bus.answer k)] ∧ s'.ial = false ∧ s'.onBus = none ∧
      s'.mem = s.mem ∧ s'.mtx = s.mtx ∧ s'.isLastMsgs = s.isLastMsgs ∧ s'.sgrtLock = s.sgrtLock ∧
      s'.msta = match bus.answer k with
        | .lost msta => msta
        | _ => s.msta := by
  unfold sendByte imxI2cAdapWaitComplete imxI2cAdapWriteData imxI2cAdapClearIntr
    imxI2cAdapCheckAck imxI2cAdapGetAck ImxI2c.answered
  let t : ImxI2c := { s with
    onBus := none
    iif := false
    log := s.log ++ [.sent data (bus.answer k)] }
  cases hanswer : bus.answer k with
  | ack =>
    refine ⟨{ t with rxak := false }, ?_, ?_, hial, rfl, rfl, rfl, rfl, rfl, rfl⟩
    · simp [t, hial, hanswer]
    · simp [t, hanswer]
  | nack =>
    refine ⟨{ t with rxak := true }, ?_, ?_, hial, rfl, rfl, rfl, rfl, rfl, rfl⟩
    · simp [t, hial, hanswer]
    · simp [t, hanswer]
  | lost msta =>
    -- the controller is rebooted
    refine ⟨{ t with ial := false, ien := true, msta := msta }, ?_, ?_, rfl, rfl, rfl, rfl, rfl,
      rfl, rfl⟩
    · simp [t, hanswer]
    · simp [t, hanswer]

end HeavenFox.Drivers
