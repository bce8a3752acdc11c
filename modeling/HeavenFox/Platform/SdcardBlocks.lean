/-
# HeavenFox.Platform.SdcardBlocks -- block transfers of `fwk_sdcard.c`

`fwk_sdcard_rw_blocks` cuts a request into commands of at most as many blocks as the host can move at
once.  Its loop moves start, count and buffer together, and what it sends tiles the request for
every limit of the host (`rwLoop_tiled`).  The test in front of the loop, however, compares the end
of the request with the limit of the host and not with the size of the card.  So a request is right
exactly if the card and the host agree on it (`blocks_tile_iff`).
-/
import HeavenFox.Logic.Tiling
import HeavenFox.Platform.SdcardCsd

namespace HeavenFox.Platform

open HeavenFox.Common HeavenFox.Logic

/-! ## Commands and answers -/

/-- `ert_fwk_sdcard_rw_t` -/
inductive SdcardRw where
  | readToHost
  | writeToCard
  | eraseSector
  deriving DecidableEq, Repr

/-- `NR_SdCard_Cmd_StopTrans` -/
def nrSdCardCmdStopTrans : UInt8 := 12

/-- `NR_SdCard_Cmd_GetStatus` -/
def nrSdCardCmdGetStatus : UInt8 := 13

/-- `NR_SdCard_Cmd_ReadSingleBlock` -/
def nrSdCardCmdReadSingleBlock : UInt8 := 17

/-- `NR_SdCard_Cmd_ReadMultiBlock` -/
def nrSdCardCmdReadMultiBlock : UInt8 := 18

/-- `NR_SdCard_Cmd_WriteSingleBlock` -/
def nrSdCardCmdWriteSingleBlock : UInt8 := 24

/-- `NR_SdCard_Cmd_WriteMultiBlock` -/
def nrSdCardCmdWriteMultiBlock : UInt8 := 25

/-- `NR_SdCard_R1_AllErrBit`: bits 3, 16 and 19 to 31. -/
def nrSdCardR1AllErrBit : UInt32 := 0xfff90008

/-- `NR_SdCard_R1_ReadyForData_Bit` -/
def nrSdCardR1ReadyForDataBit : UInt32 := mrtBit 8

/-- `NR_SdCard_R1_StateProgram_Bit`: state 7 in bits 9 to 12. -/
def nrSdCardR1StateProgramBit : UInt32 := 0xe00

/-- `NR_SdCard_CmdFlagsReadEnable` -/
def nrSdCardCmdFlagsReadEnable : UInt32 := mrtBit 1

/-- `NR_SdCard_CmdFlagsAuto12Enable` -/
def nrSdCardCmdFlagsAuto12Enable : UInt32 := mrtBit 2

/-- The test of `fwk_sdcard_command_get_status`. -/
def r1Ready (resp : UInt32) : Bool :=
  resp &&& nrSdCardR1AllErrBit == 0 &&
    resp &&& nrSdCardR1ReadyForDataBit == nrSdCardR1ReadyForDataBit &&
    resp &&& nrSdCardR1StateProgramBit != nrSdCardR1StateProgramBit

section Calls

variable (sprtIf : FwkSdcardIf) (rounds : Nat)

/-- A command as it is sent. -/
def FwkSdcardIf.prepared (cmd : FwkSdcardCmd) : FwkSdcardCmd :=
  if sprtIf.addHeadTail then fwkSdcardAddPrefixSuffix cmd else cmd

/-- A command that is sent again until it has gone out and its response is accepted. -/
def commandLoop (accept : UInt32 → Bool) (cmd : FwkSdcardCmd) :
    Nat → List SdEvent → Except Stop (Int × List SdEvent)
  | 0, _ => .error .spins
  | rounds + 1, bus =>
    let bus := bus ++ [.command cmd]
    if sprtIf.sendCommand bus = 0 ∧ accept (sprtIf.recvResp bus 0) then .ok (erNormal, bus)
    else commandLoop accept cmd rounds bus

/-- `fwk_sdcard_command_get_status` without an interface. -/
def getStatusCommand (flags : UInt16) : FwkSdcardCmd :=
  fwkSdcardInitialCommand nrSdCardCmdGetStatus (fwkSdcardCmdRcaArgs flags) .response1

/-- `fwk_sdcard_command_get_status` with an interface. -/
def fwkSdcardCommandGetStatus (cmd : FwkSdcardCmd) (bus : List SdEvent) :
    Except Stop (Int × List SdEvent) :=
  commandLoop sprtIf r1Ready cmd rounds bus

/-- `fwk_sdcard_command_stop_transmission` without an interface. -/
def stopTransmissionCommand : FwkSdcardCmd :=
  fwkSdcardInitialCommand nrSdCardCmdStopTrans 0 .response1b

/-- `fwk_sdcard_command_stop_transmission` with an interface: the response is not looked at. -/
def fwkSdcardCommandStopTransmission (cmd : FwkSdcardCmd) (bus : List SdEvent) :
    Except Stop (Int × List SdEvent) :=
  commandLoop sprtIf (fun _ => true) cmd rounds bus

/-- `fwk_sdcard_send_command`, with the command that the controller has set up. -/
def fwkSdcardSendCommand (cmd : FwkSdcardCmd)
    (cmdController : FwkSdcardCmd → List SdEvent → Except Stop (Int × List SdEvent))
    (bus : List SdEvent) : Except Stop (Int × List SdEvent) :=
  cmdController (sprtIf.prepared cmd) bus

/-- `fwk_sdcard_send_rw_command`, where it sets up the command of a transfer. -/
def rwCommand (index : UInt8) (flags : Nat) : FwkSdcardCmd :=
  sprtIf.prepared (fwkSdcardInitialCommand index flags .response1)

/-- `fwk_sdcard_send_rw_command`, where it sends the command. -/
def fwkSdcardSendRwCommand (cmd : FwkSdcardCmd) (errbit : UInt32) (bus : List SdEvent) :
    Int × List SdEvent :=
  let bus := bus ++ [.command cmd]
  let iRetval := sprtIf.sendCommand bus
  if iRetval ≠ 0 then (iRetval, bus)
  else if sprtIf.recvResp bus 0 &&& errbit = 0 then (erNormal, bus)
  else (-erError, bus)

/-! ## Transfers -/

/-- What `fwk_sdcard_read_blocks` and `fwk_sdcard_write_blocks` do differently. -/
structure SdMove where
  single : UInt8
  multi : UInt8
  rxBuffer : Nat → Nat
  txBuffer : Nat → Nat
  flags : UInt32
  event : FwkSdcardData → SdEvent
  moved : List SdEvent → Int
  faild : Int

/-- The data structure of a transfer. -/
def SdMove.data (move : SdMove) (buffer count size : Nat) : FwkSdcardData where
  blockSize := size
  blockCount := count
  rxBuffer := move.rxBuffer buffer
  txBuffer := move.txBuffer buffer
  flags := move.flags

/-- The command of a transfer.  A card of version 1.0 counts in bytes. -/
def SdMove.command (move : SdMove) (card : FwkSdcard) (buffer start count size : Nat) :
    FwkSdcardCmd :=
  let index := if count = 1 then move.single else move.multi
  let argument := if card.csd.csdStructure ≠ 0 then start else start * size % 2 ^ 32
  { rwCommand sprtIf index argument with ptrData := some (move.data buffer count size) }

/-- The loop that sends the command and moves the data; `iRetry` lets it run once. -/
def sdMoveData (move : SdMove) (cmd : FwkSdcardCmd) (data : FwkSdcardData) (bus : List SdEvent) :
    Int × List SdEvent :=
  let (iRetval, bus) := fwkSdcardSendRwCommand sprtIf cmd nrSdCardR1AllErrBit bus
  if iRetval = 0 then
    let bus := bus ++ [move.event data]
    (move.moved bus, bus)
  else (iRetval, bus)

/-- Several blocks are ended by a command of their own. -/
def sdMoveEnd (data : FwkSdcardData) (bus : List SdEvent) : Except Stop (Int × List SdEvent) :=
  if data.blockCount > 1 ∧ data.flags &&& nrSdCardCmdFlagsAuto12Enable = 0 then do
    let (iRetval, bus) ← fwkSdcardSendCommand sprtIf stopTransmissionCommand
      (fwkSdcardCommandStopTransmission sprtIf rounds) bus
    if iRetval ≠ 0 then .ok (-erStopFaild, bus) else .ok (erNormal, bus)
  else .ok (erNormal, bus)

/-- The body that both share. -/
def fwkSdcardMoveBlocks (move : SdMove) (card : FwkSdcard) (buffer start count size : Nat)
    (bus : List SdEvent) : Except Stop (Int × List SdEvent) := do
  let (iRetval, bus) ← fwkSdcardSendCommand sprtIf (getStatusCommand card.relativeAddr)
    (fwkSdcardCommandGetStatus sprtIf rounds) bus
  if iRetval ≠ 0 then .ok (-erNready, bus)
  else
    let data := move.data buffer count size
    let (iRetval, bus) :=
      sdMoveData sprtIf move (move.command sprtIf card buffer start count size) data bus
    if iRetval ≠ 0 then .ok (-move.faild, bus) else sdMoveEnd sprtIf rounds data bus

/-- The values of `fwk_sdcard_read_blocks`. -/
def sdReading : SdMove where
  single := nrSdCardCmdReadSingleBlock
  multi := nrSdCardCmdReadMultiBlock
  rxBuffer := id
  txBuffer := fun _ => 0
  flags := 0 ||| nrSdCardCmdFlagsReadEnable
  event := .receive
  moved := sprtIf.recvData
  faild := erRdataFaild

/-- The values of `fwk_sdcard_write_blocks`. -/
def sdWriting : SdMove where
  single := nrSdCardCmdWriteSingleBlock
  multi := nrSdCardCmdWriteMultiBlock
  rxBuffer := fun _ => 0
  txBuffer := id
  flags := 0 &&& ~~~nrSdCardCmdFlagsReadEnable
  event := .send
  moved := sprtIf.sendData
  faild := erSdataFaild

/-- `fwk_sdcard_read_blocks` -/
def fwkSdcardReadBlocks := fwkSdcardMoveBlocks sprtIf rounds (sdReading sprtIf)

/-- `fwk_sdcard_write_blocks` -/
def fwkSdcardWriteBlocks := fwkSdcardMoveBlocks sprtIf rounds (sdWriting sprtIf)

/-- The commands of one round of the loop in `fwk_sdcard_rw_blocks`. -/
def rwChunk (card : FwkSdcard) (rw : SdcardRw) (buffer start trans : Nat) (bus : List SdEvent) :
    Except Stop (Int × List SdEvent) :=
  match rw with
  | .readToHost =>
    fwkSdcardReadBlocks sprtIf rounds card buffer start trans fwkSdcardDefaultBlocksize bus
  | .writeToCard =>
    fwkSdcardWriteBlocks sprtIf rounds card buffer start trans fwkSdcardDefaultBlocksize bus
  | .eraseSector => .ok (-erError, bus)

/-- The loop of `fwk_sdcard_rw_blocks`. -/
def rwLoop (card : FwkSdcard) (rw : SdcardRw) :
    Nat → Int → Nat → Nat → Nat → List SdEvent → Except Stop (Int × List SdEvent)
  | _, iRetval, _, _, 0, bus => .ok (iRetval, bus)
  | 0, _, _, _, _ + 1, _ => .error .spins
  | turns + 1, _, buffer, start, count + 1, bus => do
    let trans := min (count + 1) sprtIf.maxBlockCount
    let (iRetval, bus) ← rwChunk sprtIf rounds card rw buffer start trans bus
    if iRetval ≠ 0 then .ok (iRetval, bus)
    else
      rwLoop card rw turns iRetval (add32 buffer (trans * fwkSdcardDefaultBlocksize % 2 ^ 32))
        (add32 start trans) (count + 1 - trans) bus

/-- `fwk_sdcard_rw_blocks` -/
def fwkSdcardRwBlocks (card : FwkSdcard) (buffer start count : Nat) (rw : SdcardRw) :
    Except Stop (Bool × List SdEvent) :=
  if isValid buffer = false then .ok (false, [])
  else if sprtIf.maxBlockCount = 0 ∨ add32 start count > sprtIf.maxBlockCount then .ok (false, [])
  else do
    let (iRetval, bus) ← rwLoop sprtIf rounds card rw count (-erError) buffer start count []
    return (!decide (iRetval < 0), bus)

end Calls

/-! ## What a request is to do -/

/-- A card counts in bytes up to four gigabytes only. -/
def FwkSdcard.Addressed (card : FwkSdcard) : Prop :=
  card.csd.csdStructure = 0 → card.blockCount.toNat ≤ 2 ^ 21

/-- Every command succeeds, and a card that is asked for its state gets ready in time. -/
structure FwkSdcardIf.Succeeds (sprtIf : FwkSdcardIf) (rounds : Nat) : Prop where
  pos : 0 < rounds
  sends : ∀ bus, sprtIf.sendCommand bus = 0
  clean : ∀ bus, sprtIf.recvResp bus 0 &&& nrSdCardR1AllErrBit = 0
  ready : ∀ cmd bus, ∃ k < rounds,
    r1Ready (sprtIf.recvResp (bus ++ List.replicate (k + 1) (.command cmd)) 0) = true
  receives : ∀ bus, sprtIf.recvData bus = 0
  transmits : ∀ bus, sprtIf.sendData bus = 0

/-- A word that is kept with its first byte in front. -/
def beWord (l : List UInt8) : Nat := l.foldl (fun n b => 256 * n + b.toNat) 0

/-- A command that starts a transfer, with its data. -/
def SdEvent.transfer : SdEvent → Option (FwkSdcardCmd × FwkSdcardData)
  | .command cmd => cmd.ptrData.map fun data => (cmd, data)
  | _ => none

/-- A transfer on the data lines. -/
def SdEvent.moves : SdEvent → Option (SdcardRw × FwkSdcardData)
  | .receive data => some (.readToHost, data)
  | .send data => some (.writeToCard, data)
  | .command _ => none

/-- The commands with data among all that happened. -/
def transfers (bus : List SdEvent) : List (FwkSdcardCmd × FwkSdcardData) :=
  bus.filterMap SdEvent.transfer

/-- The two commands of each direction. -/
def SdcardRw.index : SdcardRw → Nat → UInt8
  | .readToHost, count => if count = 1 then nrSdCardCmdReadSingleBlock else nrSdCardCmdReadMultiBlock
  | _, count => if count = 1 then nrSdCardCmdWriteSingleBlock else nrSdCardCmdWriteMultiBlock

/-- The buffer of each direction. -/
def SdcardRw.buffer : SdcardRw → FwkSdcardData → Nat
  | .readToHost, data => data.rxBuffer
  | _, data => data.txBuffer

/-- The blocks of the card that a command moves, and where they lie behind `base`. -/
def sdPiece (card : FwkSdcard) (rw : SdcardRw) (base : Nat) (t : FwkSdcardCmd × FwkSdcardData) :
    Piece where
  place :=
    if card.csd.csdStructure ≠ 0 then beWord t.1.bytes
    else beWord t.1.bytes / fwkSdcardDefaultBlocksize
  source := rw.buffer t.2 - base
  count := t.2.blockCount

/-- What happens tiles the request: commands of the right kind and of at most `limit` blocks move its
blocks in order, and each is followed by its data. -/
structure SdTiled (card : FwkSdcard) (rw : SdcardRw) (limit base : Nat) (request : Piece)
    (bus : List SdEvent) : Prop where
  tiles : Tiles fwkSdcardDefaultBlocksize ((transfers bus).map (sdPiece card rw base)) request
  limited : ∀ t ∈ transfers bus, t.2.blockCount ≤ limit
  kind : ∀ t ∈ transfers bus, t.1.index &&& 0x3f = rw.index t.2.blockCount ∧
    t.2.blockSize = fwkSdcardDefaultBlocksize
  moved : bus.filterMap SdEvent.moves = (transfers bus).map fun t => (rw, t.2)

/-- The request is carried out if it lies on the card, and refused without a command if it does
not. -/
structure BlocksRight (sprtIf : FwkSdcardIf) (rounds : Nat) (card : FwkSdcard) (rw : SdcardRw)
    (buffer start count : Nat) : Prop where
  onCard : start + count ≤ card.blockCount.toNat →
    ∃ bus, fwkSdcardRwBlocks sprtIf rounds card buffer start count rw = .ok (true, bus) ∧
      SdTiled card rw sprtIf.maxBlockCount buffer ⟨start, 0, count⟩ bus
  beyond : card.blockCount.toNat < start + count →
    fwkSdcardRwBlocks sprtIf rounds card buffer start count rw = .ok (false, [])

/-! ## One transfer -/

theorem beWord_beBytes {n : Nat} (h : n < 2 ^ 32) : beWord (beBytes n) = n := by
  simp only [beWord, beBytes, List.foldl_cons, List.foldl_nil, UInt8.toNat_ofNat']
  omega

section Transfer

variable {sprtIf : FwkSdcardIf} {rounds : Nat} {card : FwkSdcard} {rw : SdcardRw}

/-- The values that a direction uses. -/
def SdcardRw.move (sprtIf : FwkSdcardIf) : SdcardRw → SdMove
  | .readToHost => sdReading sprtIf
  | _ => sdWriting sprtIf

/-- A loop whose command goes out ends, and only sends that command. -/
theorem commandLoop_ok {accept : UInt32 → Bool} {cmd : FwkSdcardCmd}
    (hsends : ∀ bus, sprtIf.sendCommand bus = 0) :
    ∀ (rounds : Nat) (bus : List SdEvent), (∃ k < rounds,
      accept (sprtIf.recvResp (bus ++ List.replicate (k + 1) (.command cmd)) 0) = true) →
    ∃ n, commandLoop sprtIf accept cmd rounds bus =
      .ok (erNormal, bus ++ List.replicate (n + 1) (.command cmd)) := by
  intro rounds
  induction rounds with
  | zero =>
    rintro bus ⟨k, hk, -⟩
    exact absurd hk (Nat.not_lt_zero k)
  | succ rounds ih =>
    rintro bus ⟨k, hk, haccept⟩
    by_cases hnow : accept (sprtIf.recvResp (bus ++ [.command cmd]) 0) = true
    · exact ⟨0, if_pos ⟨hsends _, hnow⟩⟩
    · cases k with
      | zero => exact absurd haccept hnow
      | succ k =>
        rw [List.replicate_succ, ← List.singleton_append, ← List.append_assoc] at haccept
        obtain ⟨n, hn⟩ := ih (bus ++ [.command cmd]) ⟨k, Nat.lt_of_succ_lt_succ hk, haccept⟩
        refine ⟨n + 1, (if_neg fun h => hnow h.2).trans ?_⟩
        rw [hn, List.append_assoc]
        rfl

theorem getStatus_ok (hok : sprtIf.Succeeds rounds) (cmd : FwkSdcardCmd) (bus : List SdEvent) :
    ∃ n, fwkSdcardSendCommand sprtIf cmd (fwkSdcardCommandGetStatus sprtIf rounds) bus =
      .ok (erNormal, bus ++ List.replicate (n + 1) (.command (sprtIf.prepared cmd))) :=
  commandLoop_ok hok.sends rounds bus (hok.ready _ bus)

theorem stopTransmission_ok (hok : sprtIf.Succeeds rounds) (cmd : FwkSdcardCmd)
    (bus : List SdEvent) :
    ∃ n, fwkSdcardSendCommand sprtIf cmd (fwkSdcardCommandStopTransmission sprtIf rounds) bus =
      .ok (erNormal, bus ++ List.replicate (n + 1) (.command (sprtIf.prepared cmd))) :=
  commandLoop_ok hok.sends rounds bus ⟨0, hok.pos, rfl⟩

theorem move_moved (hok : sprtIf.Succeeds rounds) (bus : List SdEvent) :
    (rw.move sprtIf).moved bus = 0 := by
  cases rw with
  | readToHost => exact hok.receives bus
  | writeToCard => exact hok.transmits bus
  | eraseSector => exact hok.transmits bus

theorem sdMoveData_ok (hok : sprtIf.Succeeds rounds) (cmd : FwkSdcardCmd) (data : FwkSdcardData)
    (bus : List SdEvent) :
    sdMoveData sprtIf (rw.move sprtIf) cmd data bus =
      (erNormal, bus ++ [.command cmd] ++ [(rw.move sprtIf).event data]) := by
  have hsend : fwkSdcardSendRwCommand sprtIf cmd nrSdCardR1AllErrBit bus =
      (erNormal, bus ++ [.command cmd]) := by
    rw [fwkSdcardSendRwCommand, if_neg (not_not_intro (hok.sends _)), if_pos (hok.clean _)]
  rw [sdMoveData, hsend]
  show ((rw.move sprtIf).moved _, _) = _
  rw [move_moved hok]

theorem sdMoveEnd_ok (hok : sprtIf.Succeeds rounds) (data : FwkSdcardData) (bus : List SdEvent) :
    ∃ m, sdMoveEnd sprtIf rounds data bus =
      .ok (erNormal, bus ++
        List.replicate m (.command (sprtIf.prepared stopTransmissionCommand))) := by
  rw [sdMoveEnd]
  split
  · obtain ⟨n, hstop⟩ := stopTransmission_ok hok stopTransmissionCommand bus
    refine ⟨n + 1, ?_⟩
    rw [hstop]
    rfl
  · exact ⟨0, by rw [List.replicate_zero, List.append_nil]⟩

/-- What a transfer that succeeds adds: the card is asked, the command and its data follow, and
perhaps the end of the transmission. -/
theorem fwkSdcardMoveBlocks_ok (card : FwkSdcard) (rw : SdcardRw) (hok : sprtIf.Succeeds rounds)
    (buffer start count size : Nat)
    (bus : List SdEvent) :
    ∃ n m, fwkSdcardMoveBlocks sprtIf rounds (rw.move sprtIf) card buffer start count size bus =
      .ok (erNormal, bus ++
        (List.replicate (n + 1) (.command (sprtIf.prepared (getStatusCommand card.relativeAddr))) ++
          [.command ((rw.move sprtIf).command sprtIf card buffer start count size)] ++
          [(rw.move sprtIf).event ((rw.move sprtIf).data buffer count size)] ++
          List.replicate m (.command (sprtIf.prepared stopTransmissionCommand)))) := by
  obtain ⟨n, hstatus⟩ := getStatus_ok hok (getStatusCommand card.relativeAddr) bus
  obtain ⟨m, hend⟩ := sdMoveEnd_ok hok ((rw.move sprtIf).data buffer count size)
    (bus ++ List.replicate (n + 1)
        (.command (sprtIf.prepared (getStatusCommand card.relativeAddr))) ++
      [.command ((rw.move sprtIf).command sprtIf card buffer start count size)] ++
      [(rw.move sprtIf).event ((rw.move sprtIf).data buffer count size)])
  refine ⟨n, m, ?_⟩
  simp only [← List.append_assoc]
  rw [← hend, fwkSdcardMoveBlocks, hstatus]
  show (if (sdMoveData _ _ _ _ _).1 ≠ 0 then _ else sdMoveEnd _ _ _ (sdMoveData _ _ _ _ _).2) = _
  rw [sdMoveData_ok hok]
  rfl

/-! ## What a transfer moves -/

@[simp] theorem prepared_ptrData (cmd : FwkSdcardCmd) :
    (sprtIf.prepared cmd).ptrData = cmd.ptrData := by
  unfold FwkSdcardIf.prepared
  split <;> rfl

@[simp] theorem prepared_bytes (cmd : FwkSdcardCmd) :
    (sprtIf.prepared cmd).bytes = cmd.bytes := by
  unfold FwkSdcardIf.prepared
  split <;> rfl

/-- The prefix leaves the index in the lower six bits. -/
theorem prepared_index (cmd : FwkSdcardCmd) :
    (sprtIf.prepared cmd).index &&& 0x3f = cmd.index &&& 0x3f := by
  have hmask : ∀ x : BitVec 8, (x ||| 0xc0#8) &&& 0x3f#8 = x &&& 0x3f#8 := by decide
  unfold FwkSdcardIf.prepared
  split
  · exact UInt8.toBitVec_inj.mp (hmask cmd.index.toBitVec)
  · rfl

theorem transfers_append (bus bus' : List SdEvent) :
    transfers (bus ++ bus') = transfers bus ++ transfers bus' := List.filterMap_append

/-- A command without data moves nothing. -/
theorem transfers_replicate {cmd : FwkSdcardCmd} (h : cmd.ptrData = none) (n : Nat) :
    transfers (List.replicate n (.command cmd)) = [] := by
  apply List.filterMap_eq_nil_iff.mpr
  intro e he
  obtain ⟨-, rfl⟩ := List.mem_replicate.mp he
  rw [SdEvent.transfer, h]
  rfl

theorem moves_replicate (cmd : FwkSdcardCmd) (n : Nat) :
    (List.replicate n (.command cmd)).filterMap SdEvent.moves = [] := by
  apply List.filterMap_eq_nil_iff.mpr
  intro e he
  obtain ⟨-, rfl⟩ := List.mem_replicate.mp he
  rfl

theorem SdTiled.nil {limit base a b : Nat} : SdTiled card rw limit base ⟨a, b, 0⟩ [] :=
  ⟨tiles_nil, fun _ h => absurd h List.not_mem_nil, fun _ h => absurd h List.not_mem_nil, rfl⟩

theorem SdTiled.append {limit base a b m n : Nat} {bus bus' : List SdEvent}
    (h : SdTiled card rw limit base ⟨a, b, m⟩ bus)
    (h' : SdTiled card rw limit base ⟨a + m, b + fwkSdcardDefaultBlocksize * m, n⟩ bus') :
    SdTiled card rw limit base ⟨a, b, m + n⟩ (bus ++ bus') := by
  refine ⟨?_, ?_, ?_, ?_⟩
  · rw [transfers_append, List.map_append]
    exact h.tiles.append h'.tiles
  · intro t ht
    rw [transfers_append] at ht
    rcases List.mem_append.mp ht with ht | ht
    · exact h.limited t ht
    · exact h'.limited t ht
  · intro t ht
    rw [transfers_append] at ht
    rcases List.mem_append.mp ht with ht | ht
    · exact h.kind t ht
    · exact h'.kind t ht
  · rw [List.filterMap_append, h.moved, h'.moved, transfers_append, List.map_append]

/-- The block that a command names. -/
theorem place_command (haddressed : card.Addressed) (rw : SdcardRw) {move : SdMove}
    {base buffer start count : Nat} (h : start < card.blockCount.toNat) :
    (sdPiece card rw base (move.command sprtIf card buffer start count fwkSdcardDefaultBlocksize,
      move.data buffer count fwkSdcardDefaultBlocksize)).place = start := by
  have hcount := card.blockCount.toNat_lt
  by_cases hcase : card.csd.csdStructure = 0
  · have hsmall := haddressed hcase
    have hfits : start * fwkSdcardDefaultBlocksize < 2 ^ 32 := by
      show start * 512 < 2 ^ 32
      omega
    have hargs : (move.command sprtIf card buffer start count fwkSdcardDefaultBlocksize).bytes =
        beBytes (start * fwkSdcardDefaultBlocksize) := by
      show (rwCommand sprtIf _ (if card.csd.csdStructure ≠ 0 then _ else _)).bytes = _
      rw [if_neg (not_not_intro hcase), rwCommand, prepared_bytes, Nat.mod_eq_of_lt hfits]
      rfl
    refine (if_neg (not_not_intro hcase)).trans ?_
    show beWord (move.command _ _ _ _ _ _).bytes / fwkSdcardDefaultBlocksize = start
    rw [hargs, beWord_beBytes hfits]
    exact Nat.mul_div_cancel _ (by decide)
  · have hargs : (move.command sprtIf card buffer start count fwkSdcardDefaultBlocksize).bytes =
        beBytes start := by
      show (rwCommand sprtIf _ (if card.csd.csdStructure ≠ 0 then _ else _)).bytes = _
      rw [if_pos hcase, rwCommand, prepared_bytes]
      rfl
    refine (if_pos hcase).trans ?_
    show beWord (move.command _ _ _ _ _ _).bytes = start
    rw [hargs, beWord_beBytes (by omega)]

theorem index_low (hrw : rw ≠ .eraseSector) (count : Nat) :
    (if count = 1 then (rw.move sprtIf).single else (rw.move sprtIf).multi) &&& 0x3f =
      rw.index count := by
  cases rw with
  | readToHost =>
    show (if count = 1 then (17 : UInt8) else 18) &&& 0x3f = if count = 1 then (17 : UInt8) else 18
    split <;> decide
  | writeToCard =>
    show (if count = 1 then (24 : UInt8) else 25) &&& 0x3f = if count = 1 then (24 : UInt8) else 25
    split <;> decide
  | eraseSector => exact absurd rfl hrw

/-- What one transfer adds to the bus: the card is asked for its state until it is ready, and it is
stopped after more than one block. -/
def transferEvents (sprtIf : FwkSdcardIf) (card : FwkSdcard) (move : SdMove)
    (buffer start count n m : Nat) : List SdEvent :=
  List.replicate (n + 1) (.command (sprtIf.prepared (getStatusCommand card.relativeAddr))) ++
    [.command (move.command sprtIf card buffer start count fwkSdcardDefaultBlocksize)] ++
    [move.event (move.data buffer count fwkSdcardDefaultBlocksize)] ++
    List.replicate m (.command (sprtIf.prepared stopTransmissionCommand))

/-- One of its commands moves data. -/
theorem transfers_transferEvents (sprtIf : FwkSdcardIf) (card : FwkSdcard) (rw : SdcardRw)
    (buffer start count n m : Nat) :
    transfers (transferEvents sprtIf card (rw.move sprtIf) buffer start count n m) =
      [((rw.move sprtIf).command sprtIf card buffer start count fwkSdcardDefaultBlocksize,
        (rw.move sprtIf).data buffer count fwkSdcardDefaultBlocksize)] := by
  have hevent : ∀ data, transfers [(rw.move sprtIf).event data] = [] := by
    intro data
    cases rw <;> rfl
  simp only [transferEvents, transfers_append, hevent]
  rw [transfers_replicate (prepared_ptrData _), transfers_replicate (prepared_ptrData _)]
  rfl

/-- The piece of the request that it moves. -/
theorem sdPiece_transfer (hrw : rw ≠ .eraseSector) (haddressed : card.Addressed)
    {base off start count : Nat} (hstart : start < card.blockCount.toNat) :
    sdPiece card rw base
        ((rw.move sprtIf).command sprtIf card (base + off) start count fwkSdcardDefaultBlocksize,
          (rw.move sprtIf).data (base + off) count fwkSdcardDefaultBlocksize) =
      ⟨start, off, count⟩ := by
  have hbuffer : rw.buffer ((rw.move sprtIf).data (base + off) count fwkSdcardDefaultBlocksize) =
      base + off := by
    cases rw with
    | readToHost => rfl
    | writeToCard => rfl
    | eraseSector => exact absurd rfl hrw
  have hsource : rw.buffer ((rw.move sprtIf).data (base + off) count fwkSdcardDefaultBlocksize) -
      base = off := by
    rw [hbuffer, Nat.add_sub_cancel_left]
  show Piece.mk (sdPiece card rw base _).place (rw.buffer _ - base) count = _
  rw [place_command haddressed rw hstart, hsource]

/-- What one transfer adds tiles its blocks. -/
theorem sdTiled_one (hrw : rw ≠ .eraseSector) (haddressed : card.Addressed)
    {limit base off start count : Nat} (hstart : start < card.blockCount.toNat)
    (hlimit : count ≤ limit) (n m : Nat) :
    SdTiled card rw limit base ⟨start, off, count⟩
      (transferEvents sprtIf card (rw.move sprtIf) (base + off) start count n m) := by
  have htransfers := transfers_transferEvents sprtIf card rw (base + off) start count n m
  refine ⟨?_, ?_, ?_, ?_⟩
  · rw [htransfers, List.map_singleton, sdPiece_transfer hrw haddressed hstart]
    exact tiles_one
  · rw [htransfers]
    intro t ht
    rw [List.mem_singleton.mp ht]
    exact hlimit
  · rw [htransfers]
    intro t ht
    rw [List.mem_singleton.mp ht]
    refine ⟨?_, rfl⟩
    exact (prepared_index _).trans (index_low hrw count)
  · rw [htransfers]
    simp only [transferEvents, List.filterMap_append, moves_replicate]
    cases rw with
    | readToHost => rfl
    | writeToCard => rfl
    | eraseSector => exact absurd rfl hrw

/-! ## The loop -/

/-- One round of the loop. -/
theorem rwChunk_tiled (card : FwkSdcard) (hok : sprtIf.Succeeds rounds) (hrw : rw ≠ .eraseSector)
    (buffer start count : Nat) (bus : List SdEvent) :
    ∃ chunk, rwChunk sprtIf rounds card rw buffer start count bus = .ok (erNormal, bus ++ chunk) ∧
      ∀ base off limit, card.Addressed → buffer = base + off → start < card.blockCount.toNat →
        count ≤ limit → SdTiled card rw limit base ⟨start, off, count⟩ chunk := by
  have hcase : rwChunk sprtIf rounds card rw buffer start count bus =
      fwkSdcardMoveBlocks sprtIf rounds (rw.move sprtIf) card buffer start count
        fwkSdcardDefaultBlocksize bus := by
    cases rw with
    | readToHost => rfl
    | writeToCard => rfl
    | eraseSector => exact absurd rfl hrw
  obtain ⟨n, m, hrun⟩ := fwkSdcardMoveBlocks_ok card rw hok buffer start count
    fwkSdcardDefaultBlocksize bus
  refine ⟨_, hcase.trans hrun, ?_⟩
  rintro base off limit haddressed rfl hstart hlimit
  exact sdTiled_one hrw haddressed hstart hlimit n m

/-- **The loop tiles what it is given**, for every limit of the host.  It ends without an error in
any case; where the request lies on the card and the buffer in memory, nothing wraps. -/
theorem rwLoop_tiled (card : FwkSdcard) (hok : sprtIf.Succeeds rounds) (hrw : rw ≠ .eraseSector)
    (hmax : 0 < sprtIf.maxBlockCount) (base : Nat) :
    ∀ (turns count : Nat) (iRetval : Int) (buffer start : Nat) (bus : List SdEvent),
      count ≤ turns → ∃ bus',
        rwLoop sprtIf rounds card rw turns iRetval buffer start count bus =
          .ok (if count = 0 then iRetval else erNormal, bus ++ bus') ∧
        ∀ off, card.Addressed → (0 < count → buffer = base + off) →
          start + count ≤ card.blockCount.toNat →
          base + off + fwkSdcardDefaultBlocksize * count ≤ 2 ^ 32 →
          SdTiled card rw sprtIf.maxBlockCount base ⟨start, off, count⟩ bus' := by
  intro turns
  induction turns with
  | zero =>
    intro count iRetval buffer start bus hcount
    obtain rfl := Nat.le_zero.mp hcount
    exact ⟨[], by rw [List.append_nil]; rfl, fun _ _ _ _ _ => SdTiled.nil⟩
  | succ turns ih =>
    intro count iRetval buffer start bus hcount
    cases count with
    | zero => exact ⟨[], by rw [List.append_nil]; rfl, fun _ _ _ _ _ => SdTiled.nil⟩
    | succ count =>
      let trans := min (count + 1) sprtIf.maxBlockCount
      have htrans : 0 < trans := Nat.lt_min.mpr ⟨Nat.succ_pos _, hmax⟩
      have hle : trans ≤ count + 1 := Nat.min_le_left _ _
      obtain ⟨chunk, hchunk, hone⟩ := rwChunk_tiled card hok hrw buffer start trans bus
      obtain ⟨rest, hrest, htiled⟩ := ih (count + 1 - trans) erNormal
        (add32 buffer (trans * fwkSdcardDefaultBlocksize % 2 ^ 32)) (add32 start trans)
        (bus ++ chunk) (by omega)
      refine ⟨chunk ++ rest, ?_, ?_⟩
      · rw [rwLoop, hchunk]
        show rwLoop _ _ _ _ _ _ _ _ _ _ = _
        rw [hrest, ite_self, if_neg (Nat.succ_ne_zero _), List.append_assoc]
      · intro off haddressed hbuffer hon hmem
        have hblocks := card.blockCount.toNat_lt
        have hstart : add32 start trans = start + trans := add32_of_lt (by omega)
        have hsplit : count + 1 = trans + (count + 1 - trans) := by omega
        have hbytes : fwkSdcardDefaultBlocksize * (count + 1) =
            fwkSdcardDefaultBlocksize * trans +
              fwkSdcardDefaultBlocksize * (count + 1 - trans) := by
          rw [← Nat.mul_add, ← hsplit]
        -- the pointer may only reach the end of memory behind the last block
        have hnext : 0 < count + 1 - trans →
            add32 buffer (trans * fwkSdcardDefaultBlocksize % 2 ^ 32) =
              base + (off + fwkSdcardDefaultBlocksize * trans) := by
          intro hmore
          have hpos : 0 < fwkSdcardDefaultBlocksize * (count + 1 - trans) :=
            Nat.mul_pos (by decide) hmore
          have hbuffer' := hbuffer (Nat.succ_pos _)
          rw [Nat.mul_comm trans, Nat.mod_eq_of_lt (by omega), add32_of_lt (by omega), hbuffer',
            Nat.add_assoc]
        rw [hsplit]
        apply (hone base off _ haddressed (hbuffer (Nat.succ_pos _)) (by omega)
          (Nat.min_le_right _ _)).append
        rw [hstart] at htiled
        exact htiled (off + fwkSdcardDefaultBlocksize * trans) haddressed hnext (by omega) (by omega)

end Transfer

/-- The blocks of version 1.0. -/
theorem csdVersion1_blockCount_le (card : FwkSdcard) (resp : Fin 4 → UInt32) :
    (csdVersion1 card resp).blockCount.toNat ≤ 2 ^ 21 := by
  let c := (csdVersion1 card resp).csd
  have hsize : c.deviceSize.toNat < 2 ^ 8 := by
    have hhigh : (resp 2 <<< (2 : UInt32) &&& 0xfc).toNat < 2 ^ 8 := by
      rw [UInt32.toNat_and]
      exact Nat.and_lt_two_pow _ (by decide)
    have hlow : (resp 1 >>> (30 : UInt32) &&& 0x3).toNat < 2 ^ 8 := by
      rw [UInt32.toNat_and]
      exact Nat.and_lt_two_pow _ (by decide)
    show ((resp 2 <<< (2 : UInt32) &&& 0xfc) ||| (resp 1 >>> (30 : UInt32) &&& 0x3)).toNat < _
    rw [UInt32.toNat_or]
    exact Nat.or_lt_two_pow hhigh hlow
  have hmult : c.deviceSizeMultiplier.toNat ≤ 7 := by
    show (resp 1 >>> 15 &&& 0x7).toUInt8.toNat ≤ 7
    rw [UInt32.toNat_toUInt8, UInt32.toNat_and]
    exact (Nat.mod_le _ _).trans Nat.and_le_right
  have hshift : (c.deviceSizeMultiplier.toUInt32 + 2).toNat = c.deviceSizeMultiplier.toNat + 2 := by
    rw [UInt32.toNat_add, UInt8.toNat_toUInt32]
    exact Nat.mod_eq_of_lt (by show _ + 2 < _; omega)
  have hplus : (c.deviceSize + 1).toNat = c.deviceSize.toNat + 1 := by
    rw [UInt32.toNat_add]
    exact Nat.mod_eq_of_lt (by show _ + 1 < _; omega)
  have hbound : (c.deviceSize.toNat + 1) * 2 ^ (c.deviceSizeMultiplier.toNat + 2) ≤ 2 ^ 8 * 2 ^ 9 :=
    Nat.mul_le_mul hsize (Nat.pow_le_pow_right (by decide) (by omega))
  show ((c.deviceSize + 1) <<< (c.deviceSizeMultiplier.toUInt32 + 2)).toNat ≤ _
  rw [toNat_shiftLeft_of_lt (by omega) (by rw [hshift, hplus]; omega), hshift, hplus]
  omega

/-- A card whose register has been read counts in bytes only if it is small. -/
theorem updateCsd_addressed (card : FwkSdcard) (resp : Fin 4 → UInt32) :
    (updateCsd card resp).Addressed := by
  intro hcase
  by_cases h0 : (csdFront card resp).csd.csdStructure = 0
  · simp only [updateCsd, if_pos h0, csdBack_blockCount]
    exact csdVersion1_blockCount_le _ _
  · have hstructure : (updateCsd card resp).csd.csdStructure =
        (csdFront card resp).csd.csdStructure := by
      simp only [updateCsd, if_neg h0]
      split <;> rfl
    exact absurd (hstructure.symm.trans hcase) h0

/-! ## Which requests are right -/

section Requests

variable {sprtIf : FwkSdcardIf} {rounds : Nat} {rw : SdcardRw} (card : FwkSdcard)
  (buffer start count : Nat)

/-- A request that passes the test is carried out. -/
theorem rwBlocks_admitted (hok : sprtIf.Succeeds rounds) (hrw : rw ≠ .eraseSector)
    (hmax : 0 < sprtIf.maxBlockCount) (hbuffer : isValid buffer = true) (hcount : 0 < count)
    (htest : add32 start count ≤ sprtIf.maxBlockCount) :
    ∃ bus, fwkSdcardRwBlocks sprtIf rounds card buffer start count rw = .ok (true, bus) ∧
      (card.Addressed → start + count ≤ card.blockCount.toNat →
        buffer + fwkSdcardDefaultBlocksize * count ≤ 2 ^ 32 →
        SdTiled card rw sprtIf.maxBlockCount buffer ⟨start, 0, count⟩ bus) := by
  obtain ⟨bus, hrun, htiled⟩ := rwLoop_tiled card hok hrw hmax buffer count count
    (-erError) buffer start [] le_rfl
  have htest' : ¬ (sprtIf.maxBlockCount = 0 ∨ add32 start count > sprtIf.maxBlockCount) := by omega
  refine ⟨bus, ?_, fun haddressed hon hmem => htiled 0 haddressed (fun _ => rfl) hon hmem⟩
  rw [fwkSdcardRwBlocks, hbuffer, if_neg Bool.true_eq_false.mp, if_neg htest', hrun,
    if_neg (Nat.ne_of_gt hcount)]
  rfl

/-- A request that does not pass it is refused without a command. -/
theorem rwBlocks_refused (hbuffer : isValid buffer = true)
    (htest : sprtIf.maxBlockCount < add32 start count) :
    fwkSdcardRwBlocks sprtIf rounds card buffer start count rw = .ok (false, []) := by
  rw [fwkSdcardRwBlocks, hbuffer, if_neg Bool.true_eq_false.mp, if_pos (Or.inr htest)]

end Requests

/-- **Requests are right** if those on the card end within the limit of the host, and the 32-bit sum
of those that reach beyond the card exceeds it. -/
theorem blocks_tile_iff (sprtIf : FwkSdcardIf) (rounds : Nat) (card : FwkSdcard) (rw : SdcardRw)
    (buffer start count : Nat) (hok : sprtIf.Succeeds rounds) (hrw : rw ≠ .eraseSector)
    (hmax : 0 < sprtIf.maxBlockCount) (haddressed : card.Addressed)
    (hbuffer : isValid buffer = true) (hcount : 0 < count)
    (hmem : start + count ≤ card.blockCount.toNat →
      buffer + fwkSdcardDefaultBlocksize * count ≤ 2 ^ 32) :
    BlocksRight sprtIf rounds card rw buffer start count ↔
      (start + count ≤ card.blockCount.toNat → start + count ≤ sprtIf.maxBlockCount) ∧
        (card.blockCount.toNat < start + count → sprtIf.maxBlockCount < add32 start count) := by
  have hblocks := card.blockCount.toNat_lt
  constructor
  · intro h
    refine ⟨fun hon => ?_, fun hbeyond => ?_⟩
    · by_contra hover
      obtain ⟨bus, hrun, -⟩ := h.onCard hon
      have hsum : add32 start count = start + count := add32_of_lt (by omega)
      rw [rwBlocks_refused card buffer start count hbuffer (by omega)] at hrun
      cases hrun
    · by_contra hpass
      obtain ⟨bus, hrun, -⟩ := rwBlocks_admitted card buffer start count hok hrw hmax hbuffer hcount
        (Nat.le_of_not_lt hpass)
      rw [h.beyond hbeyond] at hrun
      cases hrun
  · rintro ⟨hon, hbeyond⟩
    refine ⟨fun h => ?_, fun h => rwBlocks_refused card buffer start count hbuffer (hbeyond h)⟩
    have hsum : add32 start count = start + count := add32_of_lt (by omega)
    obtain ⟨bus, hrun, htiled⟩ := rwBlocks_admitted card buffer start count hok hrw hmax hbuffer
      hcount (hsum.trans_le (hon h))
    exact ⟨bus, hrun, htiled haddressed h (hmem h)⟩

/-- The response of a card in the transfer state that is ready for data. -/
def readyResp (_ : Fin 4) : UInt32 := 0x900

theorem answering_succeeds (maxBlockCount : Nat) : (answering maxBlockCount readyResp).Succeeds 1 :=
  have hready : r1Ready (readyResp 0) = true := by decide
  have hclean : readyResp 0 &&& nrSdCardR1AllErrBit = 0 := by decide
  ⟨by decide, fun _ => rfl, fun _ => hclean, fun _ _ => ⟨0, by decide, hready⟩, fun _ => rfl,
    fun _ => rfl⟩

/-- A card of version 2.0. -/
def blockCard (blockCount : UInt32) : FwkSdcard :=
  { blankCard with blockCount, csd := { blankCard.csd with csdStructure := 1 } }

/-- Three blocks of a card that has as many blocks as the host moves at once. -/
theorem blocks_tile_iff_small :
    BlocksRight (answering 4 readyResp) 1 (blockCard 4) .readToHost 0x80000000 1 3 :=
  (blocks_tile_iff (answering 4 readyResp) 1 (blockCard 4) .readToHost 0x80000000 1 3
    (answering_succeeds 4) (by decide) (by decide) (fun h => absurd h (by decide)) (by decide)
    (by decide) (fun _ => by decide)).mpr ⟨by decide, by decide⟩

/-- With a host that moves `0xffff` blocks at once, block `0x10000` of a larger card cannot be read,
and a block behind the end of a smaller card is asked for. -/
theorem limit_is_taken_for_size :
    ¬ BlocksRight (answering 0xffff readyResp) 1 (blockCard 0x200000) .readToHost 0x80000000
        0x10000 1 ∧
      ¬ BlocksRight (answering 0xffff readyResp) 1 (blockCard 0x1000) .readToHost 0x80000000
        0x2000 1 := by
  refine ⟨fun h => ?_, fun h => ?_⟩
  · obtain ⟨bus, hrun, -⟩ := h.onCard (by decide)
    rw [rwBlocks_refused (blockCard 0x200000) 0x80000000 0x10000 1 (by decide) (by decide)] at hrun
    cases hrun
  · obtain ⟨bus, hrun, -⟩ := rwBlocks_admitted (blockCard 0x1000) 0x80000000 0x2000 1
      (answering_succeeds 0xffff) (by decide : SdcardRw.readToHost ≠ .eraseSector) (by decide)
      (by decide) (by decide) (by decide)
    rw [h.beyond (by decide)] at hrun
    cases hrun

end HeavenFox.Platform
