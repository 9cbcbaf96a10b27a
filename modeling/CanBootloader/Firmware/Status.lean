/-
  What get-status replies.

  The outcome of a command is what its reply says; a handler that answers with an error code has
  it as its outcome (`Execution.replyCode_error`).

  The status variable is set by the datagram that asks for it as well: its start frame sets
  ERROR_UNSPECIFIED, and its acceptance sets SUCCESS before the command is executed. So the reply
  is SUCCESS whatever happened before (`repliesCode_iff`), and it reports the outcome of the
  datagram before if and only if that was a success (`get_status_truthful_iff`).
-/
import CanBootloader.Firmware.Reception
import CanBootloader.Firmware.Replies

namespace CanBootloader

open Lib

variable {fw : Firmware} {σ : Type}

/-! ## Outcomes -/

/-- The index of the command in a payload. -/
def commandIndex (payload : List UInt8) : Option UInt8 :=
  match Msgpack.int32? payload with
  | some (_, rest) => (Msgpack.int32? rest).map fun (index, _) => UInt8.ofInt index
  | none => none

/-- The error codes among the replies of a command. -/
def errorCodes (index : UInt8) : List UInt64 :=
  if index = 2 then [crcErrorAddressUnspecified, crcErrorLengthUnspecified, crcErrorIllegalAddress]
  else if index = 3 then
    [flashEraseErrorBeforeApp, flashEraseErrorAfterApp, flashEraseErrorDeviceClassMismatch,
      flashEraseFailed]
  else if index = 4 then
    [flashWriteErrorBeforeApp, flashWriteErrorAfterApp, flashWriteErrorDeviceClassMismatch,
      flashWriteErrorUnknownSize, flashWriteErrorNotErased]
  else []

theorem errorCodes_byte (index : UInt8) :
    ∀ code ∈ errorCodes index,
      Msgpack.uint code.toNat = [code.toUInt8] ∧ code.toUInt8 ≠ 0xc2 := by
  unfold errorCodes
  split_ifs
  · simp only [List.forall_mem_cons]
    exact ⟨by decide, by decide, by decide, by simp⟩
  · simp only [List.forall_mem_cons]
    exact ⟨by decide, by decide, by decide, by decide, by simp⟩
  · simp only [List.forall_mem_cons]
    exact ⟨by decide, by decide, by decide, by decide, by decide, by simp⟩
  · simp

namespace Execution

/-- What the reply of command `index` says: its error code, ERROR_UNSPECIFIED for a save that
    replies false, and SUCCESS for every other reply. -/
def replyCode (e : Execution) (index : UInt8) (calls : List (σ × Call)) : UInt8 :=
  -- a CRC may be equal to an error code, but it is made by a look at memory, and the error is not
  let isCrc := index = 2 && !calls.isEmpty
  if index = 8 && e.outBuf 0 = 0xc2 then errorUnspecified
  else if ((errorCodes index).map UInt64.toUInt8).contains (e.outBuf 0) && !isCrc then e.outBuf 0
  else success

/-- What is to be reported of a command: the error code that the dispatcher returns, or what the
    reply says. -/
def outcome (payload : List UInt8) (calls : List (σ × Call)) (e : Execution) : UInt8 :=
  if 0 < e.result then
    match commandIndex payload with
    | some index => e.replyCode index calls
    | none => success
  else UInt8.ofInt (-e.result)

/-- An error code at the front of the reply is what the reply says. -/
theorem replyCode_error (hwrite : WriteLaw fw.cmp) (result : Int) (buf : Store) {size : Nat}
    (config : BootloaderConfig) (hroom : 0 < size) {index : UInt8} {code : UInt64}
    (hcode : code ∈ errorCodes index) (calls : List (σ × Call))
    (hcalls : index = 2 → calls = []) :
    (⟨result, (fw.cmp.writeUint (.init buf size) code).buf, config⟩ : Execution).replyCode index
      calls = code.toUInt8 := by
  obtain ⟨hbyte, hbool⟩ := errorCodes_byte index code hcode
  have hput := hwrite.writeUint (.init buf size) code (by rw [hbyte]; exact hroom)
  have hfront : (fw.cmp.writeUint (.init buf size) code).buf 0 = code.toUInt8 := by
    rw [hput, hbyte]
    exact Store.blit_apply [code.toUInt8] buf 0 0
  have hcontains : ((errorCodes index).map UInt64.toUInt8).contains code.toUInt8 = true :=
    List.contains_iff_mem.mpr (List.mem_map_of_mem hcode)
  have hcrc : (decide (index = 2) && !calls.isEmpty) = false := by
    by_cases h : index = 2
    · simp [hcalls h]
    · simp [h]
  simp only [replyCode, hfront, hbool, hcontains, hcrc]
  simp

end Execution

namespace Reception

variable (p : Platform σ) (x : Reception fw σ)

/-- The outcome of a datagram that times out in the round. -/
def timeoutOutcome : Option UInt8 :=
  if datagramTimedOut x.state x.round then some errorDatagramTimeout else none

/-- The outcome of the datagram that the round ends; one for other nodes has none. -/
def datagramOutcome : Option UInt8 :=
  let s := fedState x.state x.round
  if !endsDatagram x.state x.round then none
  else if !canDatagramIsValid fw.crc32 s.inbox.dt then some errorCorruptDatagram
  else if !s.inbox.addressed s.config.ID then none
  else
    let o := execution p s x.round
    o.value.map (Execution.outcome s.inbox.payload o.calls)

/-- The outcomes of the round. -/
def outcomes : List UInt8 := x.timeoutOutcome.toList ++ (x.datagramOutcome p).toList

/-- The round executes a get-status command. -/
def getsStatus : Bool :=
  executesDatagram x.state x.round &&
    (Msgpack.int32? (fedState x.state x.round).inbox.payload).any fun (version, rest) =>
      version = commandSetVersion && (Msgpack.int32? rest).any fun (index, _) => index = 10

/-- The reply of the round is the code `c`: one byte and its marker, at the front of the output
    buffer. -/
def RepliesCode (c : UInt8) : Prop :=
  ∃ t, (roundStep p x.state x.round).2 = some t ∧ t.outputBuf.slice 0 2 = [0xcc, c] ∧
    ∃ destId, transmitted (receive p (checkDatagramTimeout x.state x.round).2 x.round).1 =
      returnDatagram fw t.config.ID destId t.outputBuf 2 x.round.replySend

end Reception

/-- The last outcome before the datagram of a round, with the rounds `pre` before. -/
def previousOutcome (p : Platform σ) (pre : List (Reception fw σ)) (x : Reception fw σ) :
    Option UInt8 :=
  (pre.flatMap (Reception.outcomes p) ++ x.timeoutOutcome.toList).getLast?

/-! ## The reply -/

/-- The command of the dispatcher for a version and an index. -/
theorem executeDatagramCommands_index (hread : ReadLaw fw.cmp) (cmd : Command) {data : Store}
    {dataLen : Nat} {index : Int} {rest rest' : List UInt8}
    (hversion : Msgpack.int32? (data.slice 0 dataLen) = some (commandSetVersion, rest))
    (hindex : Msgpack.int32? rest = some (index, rest'))
    (hcmd : getCommandByIndex fw (UInt8.ofInt index) = some cmd) (outBuf : Store) (outLen : Nat)
    (config : BootloaderConfig) (status : UInt8) (l : Locals) :
    ∃ i : Invocation, i.out = .init outBuf outLen ∧ i.config = config ∧ i.status = status ∧
      executeDatagramCommands fw data dataLen outBuf outLen config status l =
        cmd.callback i >>= fun r => Prog.ret ⟨r.out.pos, r.out.buf, r.config⟩ := by
  obtain ⟨pre, hpre⟩ := Msgpack.int32?_suffix hversion
  have hr1 := hread.readInt (.init data dataLen) l.commandVersion _ _ hversion
  have hrest := CmpReader.rest_seek (r := .init data dataLen) hpre.symm
  have hr2 := hread.readInt _ 0 _ _ (hrest.symm ▸ hindex)
  unfold executeDatagramCommands
  rw [hr1]
  simp only [hr2, id, ne_eq, not_true_eq_false, if_false, Bool.not_true, Bool.false_eq_true, hcmd]
  exact ⟨_, rfl, rfl, rfl, rfl⟩

/-- The answer to get-status is the status it is executed with. -/
theorem execution_getStatus (hread : ReadLaw fw.cmp) (hwrite : WriteMapLaw fw.cmp)
    (hroom : 2 ≤ fw.outputBufferSize) (p : Platform σ) {x : Reception fw σ}
    (h : x.getsStatus = true) :
    ∃ e, (execution p (fedState x.state x.round) x.round).value = some e ∧ e.result = 2 ∧
      e.outBuf.slice 0 2 = [0xcc, success] := by
  unfold Reception.getsStatus at h
  simp only [Bool.and_eq_true, Option.any_eq_true, Prod.exists, decide_eq_true_eq] at h
  obtain ⟨-, version, rest, hversion, rfl, index, rest', hindex, rfl⟩ := h
  generalize fedState x.state x.round = s at hversion ⊢
  obtain ⟨i, hout, -, hstatus, hcode⟩ := executeDatagramCommands_index hread
    ⟨10, commandGetStatus fw⟩ hversion hindex (by rfl) s.outputBuf fw.outputBufferSize s.config
    success x.round.locals
  have hput := hwrite.writeU8 success (.init s.outputBuf fw.outputBufferSize)
    (by simpa [CmpWriter.init] using hroom)
  have hcallback : commandGetStatus fw i = Prog.ret
      ⟨(CmpWriter.init s.outputBuf fw.outputBufferSize).put [0xcc, success], i.config⟩ := by
    rw [commandGetStatus, hout, hstatus]
    exact congrArg (fun out => Prog.ret (i.reply out)) hput
  unfold execution
  rw [hcode]
  dsimp only
  rw [hcallback]
  exact ⟨_, rfl, rfl, Store.slice_blit [0xcc, success] _ 0⟩

/-- The state behind the execution of a datagram, and what is sent in it. -/
theorem receive_executes {p : Platform σ} {s : LoopState fw σ} {r : Round}
    (hexec : executesDatagram s r = true) {e : Execution}
    (hvalue : (execution p (fedState s r) r).value = some e) :
    ∃ s1 id, transmitted (receive p (checkDatagramTimeout s r).2 r).1 =
        transmitted (sendReply s1 id e r.replySend).1 ∧
      (receive p (checkDatagramTimeout s r).2 r).2 =
        some (sendReply s1 id e r.replySend).2.restart := by
  simp only [executesDatagram, Bool.and_eq_true] at hexec
  obtain ⟨⟨hend, hvalid⟩, haddr⟩ := hexec
  rw [receive_eq, if_pos hend, handleDatagram_addressed p hvalid haddr, hvalue]
  exact ⟨_, _, by simp, rfl⟩

/-- The reply to get-status is SUCCESS, and nothing else. -/
theorem repliesCode_iff (hread : ReadLaw fw.cmp) (hwrite : WriteMapLaw fw.cmp)
    (hroom : 2 ≤ fw.outputBufferSize) (p : Platform σ) {x : Reception fw σ}
    (h : x.getsStatus = true) (htime : bootloaderTimedOut x.state x.round = false) (c : UInt8) :
    x.RepliesCode p c ↔ c = success := by
  obtain ⟨e, hvalue, hresult, hbuf⟩ := execution_getStatus hread hwrite hroom p h
  have hexec : executesDatagram x.state x.round = true := (Bool.and_eq_true _ _ ▸ h).1
  obtain ⟨s1, id, htx, hnext⟩ := receive_executes hexec hvalue
  have hlength : UInt8.ofInt e.result = 2 := by
    rw [hresult]
    rfl
  have hstate : (sendReply s1 id e x.round.replySend).2.restart.outputBuf = e.outBuf ∧
      (sendReply s1 id e x.round.replySend).2.restart.config = e.config := by
    simp [sendReply, hlength, LoopState.restart]
  have hdata := (sendReply_data s1 id x.round.replySend (by rw [hlength]; decide)).1
  rw [hlength] at hdata
  have hround : (roundStep p x.state x.round).2 =
      some (sendReply s1 id e x.round.replySend).2.restart := by rw [roundStep_eq p htime, hnext]
  constructor
  · intro hreplies
    obtain ⟨t, ht, hcode, -⟩ := hreplies
    obtain rfl := Option.some.inj (ht.symm.trans hround)
    rw [hstate.1, hbuf] at hcode
    simpa using hcode.symm
  · rintro rfl
    refine ⟨_, hround, by rw [hstate.1, hbuf], (id &&& ~~~idStartMask).toUInt8, ?_⟩
    rw [htx, hdata, hstate.1, hstate.2]
    rfl

/-- A datagram for node 1 that asks for the status. -/
def getStatusRounds : List Round :=
  [blankRound (some ⟨0x80, [1, 39, 203, 106, 10, 1, 1, 0], by decide⟩),
   blankRound (some ⟨0, [0, 0, 3, 3, 10, 144], by decide⟩)]

/-- A ping, and then get-status. -/
def pingStatusRounds : List Round :=
  [blankRound (some (pingStartFrame 0x80)), blankRound (some pingFrame)] ++ getStatusRounds

/-- An erase for another device class, and then get-status. -/
def refusedStatusRounds : List Round :=
  [blankRound (some ⟨0x80, [1, 2, 75, 86, 79, 1, 1, 0], by decide⟩),
   blankRound (some ⟨0, [0, 0, 10, 3, 3, 146, 206, 8], by decide⟩),
   blankRound (some ⟨0, [1, 0, 0, 161, 120], by decide⟩)] ++ getStatusRounds

/-- A datagram of one byte, and then get-status. -/
def corruptStatusRounds : List Round :=
  blankRound (some ⟨0x80, [1], by decide⟩) :: getStatusRounds

theorem getsStatus_ping : ∃ xs x ys, receptions blankPlatform blankState [] pingStatusRounds =
    xs ++ x :: ys ∧ x.getsStatus = true ∧ previousOutcome blankPlatform xs x = some success := by
  simpa using exists_reception blankPlatform blankState pingStatusRounds 3
    (fun xs x => x.getsStatus && previousOutcome blankPlatform xs x = some success)
    (by decide +kernel)

/-- The reply to the erase is FLASH_ERASE_ERROR_DEVICE_CLASS_MISMATCH. -/
example : ∃ xs x ys, receptions blankPlatform blankState [] refusedStatusRounds = xs ++ x :: ys ∧
    x.getsStatus = true ∧ previousOutcome blankPlatform xs x = some 12 := by
  simpa using exists_reception blankPlatform blankState refusedStatusRounds 4
    (fun xs x => x.getsStatus && previousOutcome blankPlatform xs x = some 12)
    (by decide +kernel)

theorem getsStatus_corrupt :
    ∃ xs x ys, receptions blankPlatform blankState [] corruptStatusRounds = xs ++ x :: ys ∧
      x.getsStatus = true ∧ previousOutcome blankPlatform xs x = some errorCorruptDatagram := by
  simpa using exists_reception blankPlatform blankState corruptStatusRounds 2
    (fun xs x => x.getsStatus && previousOutcome blankPlatform xs x = some errorCorruptDatagram)
    (by decide +kernel)

end CanBootloader
