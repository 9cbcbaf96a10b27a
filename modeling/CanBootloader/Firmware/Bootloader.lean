/-
  bootloader.c: `bootloader_main`, with the two timers of timeout_timer.c.

  One round of `while (true)` is `roundStep`: it gets what the round sees of the world outside
  (clock readings, a received frame, whether transmissions succeed, leftover stack contents)
  and yields the events of the round and the state after it, or none if the board was
  rebooted. Clock readings are real milliseconds; the code sees them modulo 2^32.

  Flash memory is a `Platform`, an arbitrary state with arbitrary flash operations. LEDs, the
  delay between frames and the CAN filter are left out.
-/
import CanBootloader.Firmware.Command

namespace CanBootloader

open Lib

/-- The flash memory a build runs on. -/
structure Platform (σ : Type) where
  mem : σ → Mem
  unlock : σ → σ
  lock : σ → σ
  pageErase : UInt32 → σ → σ
  pageWrite : UInt32 → List UInt8 → σ → σ

/-- How the platform answers the calls of the code; a reboot halts. -/
def Platform.handler {σ : Type} (p : Platform σ) : (c : Call) → σ → Option (c.Resp × σ)
  | .flashWriterUnlock, w => some ((), p.unlock w)
  | .flashWriterLock, w => some ((), p.lock w)
  | .flashWriterPageErase page, w => some ((), p.pageErase page w)
  | .flashWriterPageWrite page data, w => some ((), p.pageWrite page data w)
  | .memory, w => some (p.mem w, w)
  | .rebootSystem _, _ => none

variable (fw : Firmware)

/-! ## Replies -/

/-- A call of `can_interface_send_message`, with its result. -/
structure Transmission where
  id : UInt32
  data : List UInt8
  ok : Bool
  deriving DecidableEq, Repr

/-- The loop of `return_datagram`, with `transmission_count` rounds left; `send k` is the result
    of the `k`-th transmission. -/
def returnLoop (sourceId : UInt8) (send : Nat → Bool) :
    Nat → Nat → Bool → CanDatagram → List Transmission
  | 0, _, _, _ => []
  | transmissionCount + 1, k, startOfDatagram, dt =>
      let (buf, dt) := canDatagramOutputBytes dt 8
      if buf = [] then []
      else
        let id := if startOfDatagram then sourceId.toUInt32 ||| idStartMask
          else sourceId.toUInt32
        ⟨id, buf, send k⟩ ::
          if send k then returnLoop sourceId send transmissionCount (k + 1) false dt else []

/-- The datagram that `return_datagram` transmits. -/
def returnedDatagram (destId : UInt8) (data : Store) (len : Nat) : CanDatagram :=
  let dt := canDatagramSetDataBuffer
    (canDatagramSetAddressBuffer canDatagramInit fun _ => 0) data len
  let dt := { dt with
    destinationNodes := dt.destinationNodes.write 0 destId
    destinationNodesLen := 1
    dataLen := UInt32.ofNat len }
  { dt with crc := canDatagramComputeCrc fw.crc32 dt }

def returnDatagram (sourceId destId : UInt8) (data : Store) (len : Nat) (send : Nat → Bool) :
    List Transmission :=
  returnLoop sourceId send 100 0 true (returnedDatagram fw destId data len)

/-- `return_error_datagram`: the frames sent, and the output buffer after it. -/
def returnErrorDatagram (sourceId : UInt8) (outputBuf : Store) (errorCode : UInt8)
    (send : Nat → Bool) : List Transmission × Store :=
  let w := fw.cmp.writeUint (.init outputBuf fw.outputBufferSize) errorCode.toUInt64
  (returnDatagram fw (sourceId &&& ~~~0x80) 0 w.buf w.pos send, w.buf)

/-! ## State -/

/-- The reception datagram of `bootloader_main`, whose data buffer is `data_buf`. -/
structure Inbox where
  dt : CanDatagram
  sized : dt.dataBufferSize = UInt32.ofNat fw.inputBufferSize

variable {fw}

def Inbox.start (i : Inbox fw) : Inbox fw := ⟨canDatagramStart i.dt, i.sized⟩

def Inbox.input (i : Inbox fw) (bs : List UInt8) : Inbox fw :=
  ⟨canDatagramInput i.dt bs, by rw [input_dataBufferSize, i.sized]⟩

/-- The bytes handed to `execute_datagram_commands`. -/
def Inbox.payload (i : Inbox fw) : List UInt8 := i.dt.data.slice 0 i.dt.dataLen.toNat

/-- Is the node among the destinations? -/
def Inbox.addressed (i : Inbox fw) (id : UInt8) : Bool :=
  (i.dt.destinationNodes.slice 0 i.dt.destinationNodesLen.toNat).any (· == id)

variable (fw)

/-- The locals of `bootloader_main`, the statics of command.c and timeout_timer.c, and the flash
    memory, at the head of the main loop. -/
structure LoopState (σ : Type) where
  config : BootloaderConfig
  inbox : Inbox fw
  outputBuf : Store
  datagramTimeoutRunning : Bool
  bootloaderTimeoutEnabled : Bool
  status : UInt8
  bootloaderTimeoutStartMs : UInt32
  datagramTimeoutStartMs : UInt32
  world : σ

/-- A received CAN frame. -/
structure RxFrame where
  id : UInt32
  data : List UInt8
  data_le : data.length ≤ 8

/-- What one round sees of the world outside. -/
structure Round where
  bootloaderClock : Nat
  datagramClock : Nat
  resetClock : Nat
  frame : Option RxFrame
  /-- Results of the transmissions of the timeout reply and of the reply to a datagram. -/
  timeoutSend : Nat → Bool
  replySend : Nat → Bool
  locals : Locals

/-- What a round does. -/
inductive Event (σ : Type) where
  | jumpOnTimeout
  | datagramTimeout
  | execute (data : List UInt8)
  | call (world : σ) (c : Call)
  | sent (t : Transmission)

def callEvents {σ : Type} (calls : List (σ × Call)) : List (Event σ) :=
  calls.map fun (w, c) => .call w c

/-! ## Timers -/

/-- `time_ms` after `clock` milliseconds. -/
def timeMs (clock : Nat) : UInt32 := UInt32.ofNat clock

/-- `bootloader_timeout_reached` and `datagram_timeout_reached`. -/
def timeoutReached (now start timeout : UInt32) : Bool := now - start ≥ timeout

/-! ## Boot -/

/-- The configuration selected at boot: page 1 if valid, else page 2, else a new one. -/
def bootConfig (m : Mem) (l : Locals) : BootloaderConfig :=
  let config :=
    if configIsValid fw m fw.config1 fw.configPageSize then
      configRead fw l (m.ptr fw.config1) fw.configPageSize
    else if configIsValid fw m fw.config2 fw.configPageSize then
      configRead fw l (m.ptr fw.config2) fw.configPageSize
    else
      { l.config with
        deviceClass := l.config.deviceClass.blit 0 (fw.platformDeviceClass ++ [0])
        boardName := l.config.boardName.blit 0 (fw.platformDefaultName ++ [0])
        ID := fw.platformDefaultId
        applicationCrc := 0xDEADC0DE
        applicationSize := 0
        updateCount := 1 }
  { config with
    bootloaderCommit := fw.bootloaderCommit
    bootloaderVersion := fw.bootloaderVersion }

/-- The reader `bootloader_main` starts with, on uninitialised buffers. -/
def bootInbox (addrBuf dataBuf : Store) : Inbox fw where
  dt := canDatagramStart (canDatagramSetDataBuffer
    (canDatagramSetAddressBuffer canDatagramInit addrBuf) dataBuf fw.inputBufferSize)
  sized := rfl

/-- `bootloader_main` up to its loop, entered with boot argument `arg` at time `clock`. -/
def boot {σ : Type} (p : Platform σ) (arg : UInt8) (l : Locals)
    (addrBuf dataBuf outputBuf : Store) (clock : Nat) (w : σ) : LoopState fw σ where
  config := bootConfig fw (p.mem w) l
  inbox := bootInbox fw addrBuf dataBuf
  outputBuf := outputBuf
  datagramTimeoutRunning := false
  bootloaderTimeoutEnabled :=
    if fw.bootloaderTimeoutDisable then false else arg ≠ bootArgStartBootloaderNoTimeout
  status := 0
  bootloaderTimeoutStartMs := timeMs clock
  datagramTimeoutStartMs := 0
  world := w

/-! ## Main loop -/

variable {fw} {σ : Type} (p : Platform σ)

/-- The check of the datagram timeout. -/
def checkDatagramTimeout (s : LoopState fw σ) (r : Round) : List (Event σ) × LoopState fw σ :=
  if s.datagramTimeoutRunning &&
      timeoutReached (timeMs r.datagramClock) s.datagramTimeoutStartMs fw.datagramTimeoutMs then
    let (txs, outputBuf) :=
      returnErrorDatagram fw s.config.ID s.outputBuf errorDatagramTimeout r.timeoutSend
    (.datagramTimeout :: txs.map .sent,
      { s with
        outputBuf
        status := errorDatagramTimeout
        inbox := s.inbox.start
        datagramTimeoutRunning := false })
  else ([], s)

/-- Is the frame a broadcast, or for this node? -/
def frameIsForUs (config : BootloaderConfig) (id : UInt32) : Bool :=
  !(id ≠ idStartMask && id ≠ 0x000 && id ≠ (config.ID.toUInt32 ||| idStartMask) &&
    id ≠ config.ID.toUInt32)

/-- Behind the handling of a datagram: begin a new one. -/
def LoopState.restart (s : LoopState fw σ) : LoopState fw σ :=
  { s with inbox := s.inbox.start, datagramTimeoutRunning := false }

/-- The reply to an executed command. -/
def sendReply (s : LoopState fw σ) (id : UInt32) (e : Execution) (send : Nat → Bool) :
    List (Event σ) × LoopState fw σ :=
  -- the result goes through a `uint8_t`
  let replyLength := UInt8.ofInt e.result
  if replyLength > 0 then
    let returnId := (id &&& ~~~idStartMask).toUInt8
    let txs := returnDatagram fw e.config.ID returnId e.outBuf replyLength.toNat send
    (txs.map .sent, { s with config := e.config, outputBuf := e.outBuf, status := success })
  else
    let (txs, outputBuf) := returnErrorDatagram fw e.config.ID e.outBuf (-replyLength) send
    (txs.map .sent, { s with config := e.config, outputBuf, status := -replyLength })

/-- A complete datagram, or the last frame of one. -/
def handleDatagram (s : LoopState fw σ) (id : UInt32) (r : Round) :
    List (Event σ) × Option (LoopState fw σ) :=
  if canDatagramIsValid fw.crc32 s.inbox.dt then
    let s := { s with datagramTimeoutRunning := false, status := success }
    if s.inbox.addressed s.config.ID then
      let s := { s with bootloaderTimeoutEnabled := false }
      let o := Prog.run p.handler
        (executeDatagramCommands fw s.inbox.dt.data s.inbox.dt.dataLen.toNat s.outputBuf
          fw.outputBufferSize s.config s.status r.locals) s.world
      let events := .execute s.inbox.payload :: callEvents o.calls
      match o.value with
      | none => (events, none)
      | some e =>
          let (txs, s) := sendReply { s with world := o.world } id e r.replySend
          (events ++ txs, some s.restart)
    else ([], some s.restart)
  else
    let (txs, outputBuf) :=
      returnErrorDatagram fw s.config.ID s.outputBuf errorCorruptDatagram r.replySend
    (txs.map .sent,
      some { s with outputBuf, status := errorCorruptDatagram }.restart)

/-- A frame that is for this node is appended to the reception datagram. -/
def appendFrame (s : LoopState fw σ) (f : RxFrame) (clock : Nat) : LoopState fw σ :=
  let s := { s with datagramTimeoutStartMs := timeMs clock }
  let s :=
    if f.id &&& idStartMask ≠ 0 then
      { s with
        inbox := s.inbox.start
        datagramTimeoutRunning := true
        status := errorUnspecified }
    else s
  { s with inbox := s.inbox.input f.data }

/-- The reception of a frame. -/
def receive (s : LoopState fw σ) (r : Round) : List (Event σ) × Option (LoopState fw σ) :=
  match r.frame with
  | none => ([], some s)
  | some f =>
      if frameIsForUs s.config f.id then
        let s := appendFrame s f r.resetClock
        -- frames with fewer than 8 bytes can only mean end of datagram
        if canDatagramIsComplete s.inbox.dt || f.data.length < 8 then handleDatagram p s f.id r
        else ([], some s)
      else ([], some s)

/-- One round of the main loop: its events, and the state at the next round if there is one. -/
def roundStep (s : LoopState fw σ) (r : Round) : List (Event σ) × Option (LoopState fw σ) :=
  if s.bootloaderTimeoutEnabled &&
      timeoutReached (timeMs r.bootloaderClock) s.bootloaderTimeoutStartMs
        fw.bootloaderTimeoutMs then
    let o := Prog.run p.handler (jumpToApplication fw s.config : Code Empty) s.world
    (.jumpOnTimeout :: callEvents o.calls, none)
  else
    let (timeouts, s) := checkDatagramTimeout s r
    let (events, s) := receive p s r
    (timeouts ++ events, s)

/-- Round after round, until a reboot or the end of the list. -/
def runRounds (s : LoopState fw σ) : List Round → List (Event σ) × Option (LoopState fw σ)
  | [] => ([], some s)
  | r :: rounds =>
      match roundStep p s r with
      | (events, none) => (events, none)
      | (events, some s) =>
          let (rest, s) := runRounds s rounds
          (events ++ rest, s)

end CanBootloader
