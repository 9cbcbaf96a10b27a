/-
  The boards of a session: the firmware as a node that executes the commands of the client.

  `boardExec` is `execute_datagram_commands` on the bytes of a command, with whatever was left in
  the output buffer and the locals of the handlers, and `Execution.reply` the contents of the
  datagram that the main loop sends back.

  There is one lemma for each command that `flash_image` sends. A write is refused, or programs
  its data where it has found erased memory (`WriteOutcome`); an erase makes attempts at an
  application address; an update and a save change the configuration, which the save puts on both
  pages.
-/
import CanBootloader.Client.Flash
import CanBootloader.Client.Session
import CanBootloader.Firmware.ConfigPages
import CanBootloader.Firmware.Dispatch
import CanBootloader.Firmware.WriterLaws

namespace CanBootloader

open Lib AtLeastOnce

/-! ## Executions -/

/-- A board in the bootloader: the configuration in RAM, and flash memory. -/
structure Board (σ : Type) where
  config : BootloaderConfig
  world : σ

/-- What an execution shows: the bytes of the reply, and the calls of the platform. -/
structure BoardReply where
  bytes : List UInt8
  calls : List Call

variable (fw : Firmware)

/-- The contents of the reply datagram, as `sendReply` chooses them. -/
def Execution.reply (e : Execution) : List UInt8 :=
  let replyLength := UInt8.ofInt e.result
  if replyLength > 0 then e.outBuf.slice 0 replyLength.toNat
  else
    let w := fw.cmp.writeUint (.init e.outBuf fw.outputBufferSize) (-replyLength).toUInt64
    w.buf.slice 0 w.pos

/-- The board executes the command and goes on. -/
def boardExec {σ : Type} (p : Platform σ) : Node (Board σ) (List UInt8) BoardReply :=
  fun n command a n' => ∃ (x : DatagramCall) (e : Execution),
    x.Carries command ∧ x.outLen = fw.outputBufferSize ∧ x.config = n.config ∧
      x.status = success ∧ Prog.Returns p.handler (x.code fw) n.world e n'.world ∧
      n'.config = e.config ∧
      a = ⟨e.reply fw, (Prog.run p.handler (x.code fw) n.world).calls.map Prod.snd⟩

/-- The boards with this firmware. The codes that their main loop sends without an execution are
    `ERROR_CORRUPT_DATAGRAM` and `ERROR_DATAGRAM_TIMEOUT`. -/
def firmwareBoards {σ : Type} (p : Platform σ) : BoardModel (Board σ) BoardReply where
  exec := boardExec fw p
  id n := n.config.ID.toNat
  bytes := BoardReply.bytes
  Complaint data := data = Msgpack.uint errorCorruptDatagram.toNat ∨
    data = Msgpack.uint errorDatagramTimeout.toNat

variable {fw} {σ : Type} {p : Platform σ}

/-- A handler that is called for a command: what it finds, and what becomes of its reply. -/
structure Handled (fw : Firmware) (p : Platform σ) (callback : Callback) (args : List UInt8)
    (n : Board σ) (a : BoardReply) (n' : Board σ) (i : Invocation) (r : Reply) : Prop where
  args_rest : i.args.rest = args
  config : i.config = n.config
  out_pos : i.out.pos = 0
  out_size : i.out.size = fw.outputBufferSize
  returns : Prog.Returns p.handler (callback i) n.world r n'.world
  config' : n'.config = r.config
  bytes : 0 < (i.out.written r.out).length → (i.out.written r.out).length < 256 →
    a.bytes = i.out.written r.out
  calls : a.calls = (Prog.run p.handler (callback i) n.world).calls.map Prod.snd

/-- An execution of a command calls its handler. -/
theorem boardExec.handled {command args : List UInt8} {callback : Callback}
    (hcalls : ∀ x : DatagramCall, x.Carries command →
      ∃ i, x.Calls fw callback i ∧ i.args.rest = args)
    {n n' : Board σ} {a : BoardReply} (h : boardExec fw p n command a n') :
    ∃ i r, Handled fw p callback args n a n' i r := by
  obtain ⟨x, e, hx, hlen, hconfig, -, hreturns, hconfig', ha⟩ := h
  obtain ⟨i, hcall, hargs⟩ := hcalls x hx
  rw [hcall.code_eq] at hreturns ha
  obtain ⟨r, v, hcallback, hret⟩ := hreturns.of_bind
  obtain ⟨rfl, rfl⟩ := hret.unique (.ret _ v)
  have hinit : i.out.pos = 0 := by rw [hcall.out]; rfl
  refine ⟨i, r, hargs, by rw [hcall.config, hconfig], hinit, by rw [hcall.out, ← hlen]; rfl,
    hcallback, hconfig', fun hpos hlt => ?_, ?_⟩
  · rw [CmpWriter.written, hinit, Nat.sub_zero, Store.slice_length] at hpos hlt
    have hresult : (UInt8.ofInt (r.out.pos : Int)).toNat = r.out.pos := by
      have hmod := toNat_ofInt r.out.pos
      omega
    have hgt : UInt8.ofInt (r.out.pos : Int) > 0 := by
      rw [gt_iff_lt, UInt8.lt_iff_toNat_lt, hresult]
      exact hpos
    rw [ha, CmpWriter.written, hinit, Nat.sub_zero]
    simp only [Execution.reply, if_pos hgt, hresult]
  · rw [ha, Prog.run_bind_ret_calls]

/-- The bytes of a reply that is one boolean. -/
theorem Handled.bytes_bool (hwrite : WriteLaw fw.cmp) (hroom : 0 < fw.outputBufferSize)
    {callback : Callback} {args : List UInt8} {n n' : Board σ} {a : BoardReply} {i : Invocation}
    {r : Reply} (h : Handled fw p callback args n a n' i r) {b : Bool}
    (hout : r.out = fw.cmp.writeBool i.out b) : a.bytes = Msgpack.bool b := by
  have hwritten : i.out.written r.out = Msgpack.bool b := by
    rw [hout, hwrite.writeBool _ _ (by rw [h.out_pos, h.out_size]; exact hroom),
      CmpWriter.written_put]
  rw [← hwritten]
  apply h.bytes
  · rw [hwritten]
    cases b <;> decide
  · rw [hwritten]
    cases b <;> decide

/-- A board that gets a command executes it, unless its handler reboots. -/
theorem exists_boardExec (callback : Callback) {command : List UInt8} {n : Board σ}
    (hcalls : ∀ x : DatagramCall, x.Carries command → ∃ i, x.Calls fw callback i)
    (hreturns : ∀ i : Invocation, ∃ r v, Prog.Returns p.handler (callback i) n.world r v) :
    ∃ a n', boardExec fw p n command a n' := by
  let x : DatagramCall :=
    ⟨Store.ofList command, command.length, fun _ => 0, fw.outputBufferSize, n.config, success,
      blankLocals⟩
  have hx : x.Carries command := Store.slice_ofList [] command
  obtain ⟨i, hcall⟩ := hcalls x hx
  obtain ⟨r, v, hrun⟩ := hreturns i
  have hexec : Prog.Returns p.handler (x.code fw) n.world
      ⟨r.out.pos, r.out.buf, r.config⟩ v := by
    rw [hcall.code_eq]
    exact hrun.bind (.ret _ v)
  exact ⟨_, ⟨r.config, v⟩, x, _, hx, rfl, rfl, rfl, hexec, rfl, rfl⟩

/-! ## Write commands -/

/-- A flash command is for this board: its address and its device class. -/
structure ForBoard (fw : Firmware) (config : BootloaderConfig) (address : UInt32)
    (deviceClass : List UInt8) : Prop where
  app_le : fw.app ≤ address
  lt_end : address < fw.app + fw.appSize
  class_eq : beforeNul deviceClass = cString config.deviceClass

/-- The erase and write commands read the target that the client names. -/
theorem readsForBoard {i : Invocation} (hread : ReadLaw fw.cmp) (hstr : ReadStrLaw fw.cmp)
    {address : Nat} {deviceClass t : List UInt8} (haddress : address < 2 ^ 32)
    (hlen : deviceClass.length ≤ 63)
    (hargs : i.args.rest = (Argument.int address).pack ++ ((Argument.str deviceClass).pack ++ t)) :
    (writeAddress fw i).toUInt32 = UInt32.ofNat address ∧
      (readDeviceClass fw i).size = UInt32.ofNat deviceClass.length ∧
      (readDeviceClass fw i).reader.rest = t ∧
      (EraseArgumentsOk fw i ↔ ForBoard fw i.config (UInt32.ofNat address) deviceClass) := by
  obtain ⟨r, haddr, r', hclass, hrest⟩ :=
    readDeviceClass_encoded hread hstr haddress hlen hargs
  have hadd : (fw.cmp.readUinteger i.args 0).value.toUInt32 = UInt32.ofNat address := by
    rw [haddr, UInt64.toUInt32_ofNat']
  have hread' : readDeviceClass fw i = _ := (congrArg (fun x : ReadResult UInt64 =>
    fw.cmp.readStr x.reader i.locals.deviceClass 64) haddr).trans hclass
  refine ⟨hadd, by rw [hread'], by rw [hread', hrest], ?_⟩
  have hequal : strcmpEq (readDeviceClass fw i).data (cString i.config.deviceClass) = true ↔
      beforeNul deviceClass = cString i.config.deviceClass := by
    rw [hread']
    exact strcmpEq_blit _ _ (nul_notMem_cString _)
  rw [EraseArgumentsOk, AddressInApp, hadd, hequal]
  exact ⟨fun h => ⟨h.1.1, h.1.2, h.2⟩, fun h => ⟨⟨h.1, h.2⟩, h.3⟩⟩

/-- `command_write_flash` reads the arguments of the client. -/
theorem readsWrite {i : Invocation} (hread : ReadLaw fw.cmp) (hstr : ReadStrLaw fw.cmp)
    {address : Nat} {deviceClass data : List UInt8} (haddress : address < 2 ^ 32)
    (hlen : deviceClass.length ≤ 63) (hdata : data.length < 2 ^ 32)
    (hargs : i.args.rest = (Argument.int address).pack ++
      ((Argument.str deviceClass).pack ++ ((Argument.bytes data).pack ++ []))) :
    (writeAddress fw i).toUInt32 = UInt32.ofNat address ∧
      (readDataSize fw i).value = UInt32.ofNat data.length ∧ writeSource fw i = data ∧
      (WriteArgumentsOk fw i ↔ ForBoard fw i.config (UInt32.ofNat address) deviceClass) := by
  obtain ⟨hadd, -, hrest, hboard⟩ := readsForBoard hread hstr haddress hlen hargs
  have hsize : readDataSize fw i = _ :=
    readBinSize_bytes hread hdata hrest (readDeviceClass fw i).size
  have hvalue : (readDataSize fw i).value = UInt32.ofNat data.length := by rw [hsize]
  have hcarried : carriedData fw i = data := by
    rw [Argument.pack, List.append_assoc] at hrest
    rw [carriedData, hsize]
    exact (CmpReader.rest_seek hrest).trans (List.append_nil _)
  refine ⟨hadd, hvalue, ?_, ?_⟩
  · have hnat : (readDataSize fw i).value.toNat = (carriedData fw i).length := by
      rw [hvalue, UInt32.toNat_ofNat_of_lt' hdata, hcarried]
    rw [writeSource_eq hnat, hcarried]
  · have hok : (readDataSize fw i).ok = true := by rw [hsize]
    rw [WriteArgumentsOk, ← and_assoc, and_iff_left hok]
    exact hboard

/-- The codes of a write command that is refused. -/
theorem commandWriteFlash_code {i : Invocation} (h : ¬ WriteArgumentsOk fw i) :
    ∃ code : UInt64, 20 ≤ code.toNat ∧ code.toNat < 128 ∧
      commandWriteFlash fw i = Prog.ret (i.reply (fw.cmp.writeUint i.out code)) := by
  unfold commandWriteFlash
  simp only
  split_ifs with hbefore hafter hclass hsize
  · exact ⟨_, by decide, by decide, rfl⟩
  · exact ⟨_, by decide, by decide, rfl⟩
  · exact ⟨_, by decide, by decide, rfl⟩
  · exact ⟨_, by decide, by decide, rfl⟩
  · refine absurd ⟨⟨UInt32.not_lt.mp hbefore, UInt32.not_le.mp hafter⟩, ?_, ?_⟩ h
    · simpa [readDeviceClass] using hclass
    · simpa [readDataSize, readDeviceClass] using hsize

/-- The calls of a write command that is accepted. -/
def acceptedCalls (address : UInt32) (data : List UInt8) : List Call :=
  [.memory, .flashWriterUnlock, .flashWriterPageWrite address data, .flashWriterLock]

theorem calls_write_accepted {i : Invocation} {w : σ} (h : WriteAccepted fw (p.mem w) i) :
    (Prog.run p.handler (commandWriteFlash fw i) w).calls.map Prod.snd =
      acceptedCalls (writeAddress fw i).toUInt32 (writeSource fw i) := by
  obtain ⟨hrefused, -⟩ | ⟨-, heq⟩ := commandWriteFlash_cases fw i
  · exact absurd h.1 hrefused
  · rw [heq]
    simp [readMemory, flashWriterUnlock, flashWriterPageWrite, flashWriterLock, Prog.run,
      Platform.handler, h.2, acceptedCalls]

/-- A write command that is refused looks at memory at most. -/
theorem calls_write_refused {i : Invocation} {w : σ} (h : ¬ WriteAccepted fw (p.mem w) i) :
    ∀ c ∈ (Prog.run p.handler (commandWriteFlash fw i) w).calls, c.2 = .memory := by
  obtain ⟨-, code, -, heq⟩ | ⟨hok, heq⟩ := commandWriteFlash_cases fw i
  · simp [heq]
  · have herased : flashPageIsErased (p.mem w) (writeAddress fw i).toUInt32
        (readDataSize fw i).value = false := by
      simpa using fun hall => h ⟨hok, hall⟩
    rw [heq]
    simp [readMemory, Prog.run, Platform.handler, herased]

/-- The target of a write is erased. -/
def Erased (p : Platform σ) (n : Board σ) (address : UInt32) (len : Nat) : Prop :=
  ∀ b ∈ (p.mem n.world).read address len, b = 0xFF

/-- What an execution of a write command does: it is refused with a code and leaves the board as
    it was, or finds its target erased and programs the data. -/
inductive WriteOutcome (fw : Firmware) (p : Platform σ) (n : Board σ) (address : UInt32)
    (data deviceClass : List UInt8) : BoardReply → Board σ → Prop
  | refused {a : BoardReply} (code : UInt64) (hcode : 20 ≤ code.toNat)
      (hbytes : a.bytes = Msgpack.uint code.toNat) (hcalls : ∀ c ∈ a.calls, c = .memory)
      (hwhy : ForBoard fw n.config address deviceClass →
        code = flashWriteErrorNotErased ∧ ¬ Erased p n address data.length) :
      WriteOutcome fw p n address data deviceClass a n
  | accepted (hboard : ForBoard fw n.config address deviceClass)
      (herased : Erased p n address data.length) :
      WriteOutcome fw p n address data deviceClass
        ⟨Msgpack.bool true, acceptedCalls address data⟩
        ⟨n.config, p.lock (p.pageWrite address data (p.unlock n.world))⟩

/-- The end of the application region does not wrap around. -/
theorem lt_flashEnd_of_app {a : UInt32} (h : a < fw.app + fw.appSize) : a < fw.flashEnd := by
  have hend := fw.app_end
  have hflash := fw.flashEnd.toNat_lt
  rw [UInt32.lt_iff_toNat_lt, UInt32.toNat_add] at h
  rw [UInt32.lt_iff_toNat_lt]
  omega

/-- An execution of a write command of the client. -/
theorem boardExec.write (hread : ReadLaw fw.cmp) (hstr : ReadStrLaw fw.cmp)
    (hwrite : WriteLaw fw.cmp) (hroom : 0 < fw.outputBufferSize) {address : Nat}
    {deviceClass data : List UInt8} (haddress : address < 2 ^ 32)
    (hlen : deviceClass.length ≤ 63) (hdata : data.length < 2 ^ 32) {n n' : Board σ}
    {a : BoardReply}
    (h : boardExec fw p n (encodeWriteFlash data address deviceClass) a n') :
    WriteOutcome fw p n (UInt32.ofNat address) data deviceClass a n' := by
  obtain ⟨i, r, hi⟩ := h.handled fun x hx => calls_write hread hx
  obtain ⟨hadd, hsize, hsource, hargs⟩ :=
    readsWrite hread hstr haddress hlen hdata hi.args_rest
  rw [hi.config] at hargs
  have herased : flashPageIsErased (p.mem n.world) (writeAddress fw i).toUInt32
      (readDataSize fw i).value = true ↔ Erased p n (UInt32.ofNat address) data.length := by
    rw [hadd, hsize, flashPageIsErased, UInt32.toNat_ofNat_of_lt' hdata]
    simp [Erased]
  have hroom' : i.out.pos < i.out.size := by rw [hi.out_pos, hi.out_size]; exact hroom
  by_cases haccept : WriteAccepted fw (p.mem n.world) i
  · obtain ⟨rfl, hworld⟩ := hi.returns.unique (returns_write_accepted p haccept)
    have hbytes : a.bytes = Msgpack.bool true := hi.bytes_bool hwrite hroom rfl
    have hcalls := hi.calls.trans (calls_write_accepted haccept)
    rw [hadd, hsource] at hworld hcalls
    obtain rfl : a = ⟨Msgpack.bool true, acceptedCalls (UInt32.ofNat address) data⟩ := by
      cases a
      simp only [BoardReply.mk.injEq]
      exact ⟨hbytes, hcalls⟩
    obtain rfl : n' = ⟨n.config, p.lock (p.pageWrite (UInt32.ofNat address) data
        (p.unlock n.world))⟩ := by
      cases n'
      simp only [Board.mk.injEq]
      exact ⟨hi.config'.trans hi.config, hworld⟩
    exact .accepted (hargs.mp haccept.1) (herased.mp haccept.2)
  · obtain ⟨code, hlow, hhigh, hreturns, hwhy⟩ : ∃ code : UInt64, 20 ≤ code.toNat ∧
        code.toNat < 128 ∧ Prog.Returns p.handler (commandWriteFlash fw i) n.world
          (i.reply (fw.cmp.writeUint i.out code)) n.world ∧
        (WriteArgumentsOk fw i → code = flashWriteErrorNotErased) := by
      by_cases hok : WriteArgumentsOk fw i
      · exact ⟨_, by decide, by decide, returns_write_notErased p hok haccept, fun _ => rfl⟩
      · obtain ⟨code, hlow, hhigh, heq⟩ := commandWriteFlash_code hok
        exact ⟨code, hlow, hhigh, heq ▸ .ret _ _, fun h => absurd h hok⟩
    obtain ⟨rfl, hworld⟩ := hi.returns.unique hreturns
    have hwritten := written_code hwrite hroom' hhigh
    have hlength : (Msgpack.uint code.toNat).length = 1 := by
      rw [Msgpack.uint, if_pos hhigh]
      rfl
    have hbytes := hi.bytes (by rw [Invocation.reply, hwritten, hlength]; decide)
      (by rw [Invocation.reply, hwritten, hlength]; decide)
    obtain rfl : n' = n := by
      cases n
      cases n'
      simp only [Board.mk.injEq]
      exact ⟨hi.config'.trans hi.config, hworld⟩
    refine .refused code hlow (hbytes.trans hwritten) (fun c hc => ?_) fun hboard => ?_
    · rw [hi.calls] at hc
      obtain ⟨d, hd, rfl⟩ := List.mem_map.mp hc
      exact calls_write_refused haccept d hd
    · have hok := hargs.mpr hboard
      exact ⟨hwhy hok, fun h => haccept ⟨hok, herased.mpr h⟩⟩

theorem exists_write (hread : ReadLaw fw.cmp) (address : Nat) (data deviceClass : List UInt8)
    (n : Board σ) : ∃ a n', boardExec fw p n (encodeWriteFlash data address deviceClass) a n' := by
  refine exists_boardExec (commandWriteFlash fw) (fun x hx => ?_) fun i => ?_
  · obtain ⟨i, hcall, -⟩ := calls_write hread hx
    exact ⟨i, hcall⟩
  · by_cases haccept : WriteAccepted fw (p.mem n.world) i
    · exact ⟨_, _, returns_write_accepted p haccept⟩
    · by_cases hok : WriteArgumentsOk fw i
      · exact ⟨_, _, returns_write_notErased p hok haccept⟩
      · obtain ⟨code, -, hrefused⟩ := returns_write_refused p hok n.world
        exact ⟨_, _, hrefused⟩

/-! ## Erase commands -/

/-- An execution of an erase command keeps the configuration, and makes some attempts to erase an
    application address. -/
theorem boardExec.erase (hread : ReadLaw fw.cmp) {address : Nat} {deviceClass : List UInt8}
    {n n' : Board σ} {a : BoardReply}
    (h : boardExec fw p n (encodeEraseFlashPage address deviceClass) a n') :
    n'.config = n.config ∧ (n'.world = n.world ∨ ∃ page k, fw.app ≤ page ∧ page < fw.flashEnd ∧
      n'.world = afterAttempts p page k n.world) := by
  obtain ⟨i, r, hi⟩ := h.handled fun x hx => calls_erase hread hx
  obtain ⟨-, code, heq⟩ | ⟨hok, heq⟩ := commandEraseFlashPage_cases fw i
  · have hreturns := hi.returns
    rw [heq] at hreturns
    obtain ⟨rfl, hworld⟩ := hreturns.unique (.ret _ n.world)
    exact ⟨hi.config'.trans hi.config, .inl hworld⟩
  · obtain ⟨b, k, hloop⟩ : ∃ b k, Erases p k (eraseLoop (writeAddress fw i).toUInt32
        (readDeviceClass fw i).size fw.flashEraseRetries.toNat) n.world b
        (afterAttempts p (writeAddress fw i).toUInt32 k n.world) := by
      rcases erases_eraseLoop p (writeAddress fw i).toUInt32 (readDeviceClass fw i).size n.world
        fw.flashEraseRetries.toNat with ⟨j, -, -, -, hloop⟩ | ⟨-, hloop⟩
      · exact ⟨_, _, hloop⟩
      · exact ⟨_, _, hloop⟩
    obtain ⟨rfl, hworld⟩ := hi.returns.unique (erases_commandErase hok hloop).1
    exact ⟨hi.config'.trans hi.config,
      .inr ⟨_, k, hok.1.1, lt_flashEnd_of_app hok.1.2, hworld⟩⟩

/-- If the first attempt of an erase is seen as a success, there is no other, and the reply is
    `FLASH_ERASE_SUCCESS`. -/
theorem boardExec.erase_first (hread : ReadLaw fw.cmp) (hstr : ReadStrLaw fw.cmp)
    (hwrite : WriteLaw fw.cmp) (hroom : 0 < fw.outputBufferSize)
    (hretries : fw.flashEraseRetries ≠ 0) {address : Nat} {deviceClass : List UInt8}
    (haddress : address < 2 ^ 32) (hlen : deviceClass.length ≤ 63) {n n' : Board σ}
    {a : BoardReply} (hboard : ForBoard fw n.config (UInt32.ofNat address) deviceClass)
    (hseen : ∀ b ∈ (p.mem (eraseAttempt p (UInt32.ofNat address) n.world)).read
      (UInt32.ofNat address) deviceClass.length, b = 0xFF)
    (h : boardExec fw p n (encodeEraseFlashPage address deviceClass) a n') :
    a.bytes = Msgpack.uint 1 ∧ n' = ⟨n.config, eraseAttempt p (UInt32.ofNat address) n.world⟩ := by
  obtain ⟨i, r, hi⟩ := h.handled fun x hx => calls_erase hread hx
  obtain ⟨hadd, hsize, -, hok⟩ := readsForBoard hread hstr haddress hlen hi.args_rest
  rw [hi.config] at hok
  have hseen : SeenErased p (writeAddress fw i).toUInt32 (readDeviceClass fw i).size n.world 1 := by
    rw [SeenErased, hadd, hsize, flashPageIsErased,
      UInt32.toNat_ofNat_of_lt' (show deviceClass.length < 2 ^ 32 by omega)]
    simpa [afterAttempts] using hseen
  have hloop : Erases p 1 (eraseLoop (writeAddress fw i).toUInt32 (readDeviceClass fw i).size
      fw.flashEraseRetries.toNat) n.world (UInt8.ofNat fw.flashEraseRetries.toNat)
      (eraseAttempt p (writeAddress fw i).toUInt32 n.world) := erases_eraseLoop_erased hseen
  rw [UInt8.ofNat_toNat] at hloop
  obtain ⟨rfl, hworld⟩ := hi.returns.unique (erases_commandErase (hok.mpr hboard) hloop).1
  rw [if_neg hretries] at hi
  have hroom' : i.out.pos < i.out.size := by rw [hi.out_pos, hi.out_size]; exact hroom
  have hwritten : i.out.written (fw.cmp.writeUint i.out flashEraseSuccess) = Msgpack.uint 1 :=
    written_code hwrite hroom' (by decide)
  refine ⟨?_, ?_⟩
  · rw [hi.bytes (by rw [Invocation.reply, hwritten]; decide)
      (by rw [Invocation.reply, hwritten]; decide)]
    exact hwritten
  · cases n'
    simp only [Board.mk.injEq]
    exact ⟨hi.config'.trans hi.config, hadd ▸ hworld⟩

/-! ## Configuration -/

/-- What `flash_image` updates: the size and the checksum of the image. -/
def applicationItems (size crc : Nat) : List (List UInt8 × Argument) :=
  [(ascii "application_size", .int size), (ascii "application_crc", .int crc)]

/-- The same as the firmware reads it. -/
def applicationMap (size crc : Nat) : ConfigMap where
  format := .fixmap
  entries :=
    [.known .applicationSize (Msgpack.uint size) Msgpack.objects_uint,
     .known .applicationCrc (Msgpack.uint crc) Msgpack.objects_uint]
  fits := show 2 < 16 by decide

theorem packDict_applicationItems (size crc : Nat) :
    packDict (applicationItems size crc) = (applicationMap size crc).bytes := rfl

/-- The configuration with an application of this size and checksum. -/
def BootloaderConfig.withApplication (config : BootloaderConfig) (size crc : Nat) :
    BootloaderConfig :=
  { config with applicationSize := UInt32.ofNat size, applicationCrc := UInt32.ofNat crc }

/-- An update command reaches its handler. -/
theorem calls_update (hread : ReadLaw fw.cmp) {x : DatagramCall}
    {items : List (List UInt8 × Argument)} (hx : x.Carries (encodeUpdateConfig items)) :
    ∃ i, x.Calls fw (commandConfigUpdate fw) i ∧ i.args.rest = packDict items :=
  executeDatagramCommands_carried hread hx (by decide) (by decide)
    (show getCommandByIndex fw _ = some ⟨7, commandConfigUpdate fw⟩ from rfl)

/-- So does a save command. -/
theorem calls_save (hread : ReadLaw fw.cmp) {x : DatagramCall} (hx : x.Carries encodeSaveConfig) :
    ∃ i, x.Calls fw (commandConfigWriteToFlash fw) i ∧ i.args.rest = [] :=
  executeDatagramCommands_encoded hread hx (by decide) (by decide)
    (show getCommandByIndex fw _ = some ⟨8, commandConfigWriteToFlash fw⟩ from rfl)

/-- An update of the size and the checksum. -/
theorem boardExec.update (hread : ReadLaw fw.cmp) (hstr : ReadStrLaw fw.cmp) {size crc : Nat}
    (hsize : size < 2 ^ 32) (hcrc : crc < 2 ^ 32) {n n' : Board σ} {a : BoardReply}
    (h : boardExec fw p n (encodeUpdateConfig (applicationItems size crc)) a n') :
    n' = ⟨n.config.withApplication size crc, n.world⟩ := by
  obtain ⟨i, r, hi⟩ := h.handled fun x hx => calls_update hread hx
  have huint : ∀ n < 2 ^ 32, Msgpack.uint? 4 (Msgpack.uint n) = some (n, []) := by
    intro n hn
    have h := Msgpack.uint?_uint (w := 4) (by simp) (show n < 2 ^ (8 * 4) by omega) []
    rwa [List.append_nil] at h
  have happly : applyAll i.config (applicationMap size crc).entries =
      some (i.config.withApplication size crc) := by
    simp only [applyAll, applicationMap, List.foldlM_cons, List.foldlM_nil]
    rw [ConfigEntry.applied?_known (v := .number size) (by simp [ConfigKey.value?, huint _ hsize])]
    simp only [Option.bind_eq_bind, Option.bind_some]
    rw [ConfigEntry.applied?_known (v := .number crc) (by simp [ConfigKey.value?, huint _ hcrc])]
    rfl
  have hupdate := configUpdateFromSerialized_applied hread hstr (applicationMap size crc) (t := [])
    (by rw [hi.args_rest, packDict_applicationItems, List.append_nil]) i.locals happly
  obtain ⟨rfl, hworld⟩ := hi.returns.unique (.ret _ n.world)
  have hconfig := hi.config'
  rw [hupdate, hi.config] at hconfig
  cases n'
  simp only [Board.mk.injEq]
  exact ⟨hconfig, hworld⟩

/-- Both pages hold the configuration in RAM. -/
def Board.Saved (fw : Firmware) (p : Platform σ) (n : Board σ) : Prop :=
  ∀ i, (p.mem n.world).read (fw.configPage i) fw.configPageSize = configPageBuffer fw n.config

theorem exists_update (hread : ReadLaw fw.cmp) (items : List (List UInt8 × Argument))
    (n : Board σ) : ∃ a n', boardExec fw p n (encodeUpdateConfig items) a n' := by
  refine exists_boardExec (commandConfigUpdate fw) (fun x hx => ?_) fun i => ⟨_, _, .ret _ _⟩
  obtain ⟨i, hcall, -⟩ := calls_update hread hx
  exact ⟨i, hcall⟩

/-- The reply to an update. -/
theorem boardExec.update_bytes (hread : ReadLaw fw.cmp) (hwrite : WriteLaw fw.cmp)
    (hroom : 0 < fw.outputBufferSize) {items : List (List UInt8 × Argument)} {n n' : Board σ}
    {a : BoardReply} (h : boardExec fw p n (encodeUpdateConfig items) a n') :
    a.bytes = Msgpack.bool true := by
  obtain ⟨i, r, hi⟩ := h.handled fun x hx => calls_update hread hx
  obtain ⟨rfl, -⟩ := hi.returns.unique (.ret _ n.world)
  exact hi.bytes_bool hwrite hroom rfl

/-- A save counts, and rewrites both pages. -/
theorem boardExec.save {Programs : UInt32 → List UInt8 → Prop} (hread : ReadLaw fw.cmp)
    (hlaws : WriterLaws fw p Programs) {n n' : Board σ} {a : BoardReply}
    (h : boardExec fw p n encodeSaveConfig a n') :
    n'.config = { n.config with updateCount := n.config.updateCount + 1 } ∧ n'.Saved fw p ∧
      ∀ x, x < fw.config1 ∨ fw.app ≤ x → p.mem n'.world x = p.mem n.world x := by
  obtain ⟨i, r, hi⟩ := h.handled fun x hx => calls_save hread hx
  let config : BootloaderConfig := { i.config with updateCount := i.config.updateCount + 1 }
  have hlen := configPageBuffer_length fw config
  obtain ⟨b, v, hrun, hworld, hiff⟩ := rewritesBoth_saveConfigPages p hlen n.world
  obtain ⟨rfl, rfl⟩ := hi.returns.unique (hrun.bind (.ret _ v))
  -- the page that is rewritten first is valid, and still there behind the other one
  generalize saveOrder fw (p.mem n.world) = j at hworld hiff
  obtain ⟨hfirst, -, hout⟩ := hlaws.rewrite j hlen (w := n.world)
  obtain ⟨hsecond, hkeep, hout'⟩ := hlaws.rewrite j.other hlen
    (w := p.rewrite (fw.configPage j) (configPageBuffer fw config) n.world)
  have hvalid : ∀ {i : Slot} {m : Mem}, m.read (fw.configPage i) fw.configPageSize =
      configPageBuffer fw config → PageValid fw i m := by
    intro i m hm
    rw [← pageContent_isSome, pageContent_of_write hm]
    rfl
  have hend := hworld (hiff.mpr ⟨hvalid hfirst, hvalid hsecond⟩)
  have hconfig : n'.config = config := hi.config'
  refine ⟨by rw [hconfig, ← hi.config], fun k => ?_, fun x hx => ?_⟩
  · rw [hconfig, hend]
    rcases j.eq_or_eq_other k with rfl | rfl
    · rw [hkeep k (configPage_ne_other fw k).symm]
      exact hfirst
    · exact hsecond
  · rw [hend, hout' x hx, hout x hx]

theorem exists_save (hread : ReadLaw fw.cmp) (n : Board σ) :
    ∃ a n', boardExec fw p n encodeSaveConfig a n' := by
  refine exists_boardExec (commandConfigWriteToFlash fw) (fun x hx => ?_) fun i => ?_
  · obtain ⟨i, hcall, -⟩ := calls_save hread hx
    exact ⟨i, hcall⟩
  · obtain ⟨b, v, hrun, -⟩ := rewritesBoth_saveConfigPages p (configPageBuffer_length fw
      { i.config with updateCount := i.config.updateCount + 1 }) n.world
    exact ⟨_, _, hrun.bind (.ret _ v)⟩

/-- The reply to a save. -/
theorem boardExec.save_bytes (hread : ReadLaw fw.cmp) (hwrite : WriteLaw fw.cmp)
    (hroom : 0 < fw.outputBufferSize) {n n' : Board σ} {a : BoardReply}
    (h : boardExec fw p n encodeSaveConfig a n') : ∃ b, a.bytes = Msgpack.bool b := by
  obtain ⟨i, r, hi⟩ := h.handled fun x hx => calls_save hread hx
  obtain ⟨b, v, hrun, -⟩ := rewritesBoth_saveConfigPages p (configPageBuffer_length fw
    { i.config with updateCount := i.config.updateCount + 1 }) n.world
  obtain ⟨rfl, -⟩ := hi.returns.unique (hrun.bind (.ret _ v))
  exact ⟨b, hi.bytes_bool hwrite hroom rfl⟩

/-! ## Reading the configuration back -/

/-- A page that holds a configuration is read as this configuration. -/
theorem configRead_pageBuffer (hread : ReadLaw fw.cmp) (hstr : ReadStrLaw fw.cmp)
    (hwrite : WriteLaw fw.cmp) (hmap : WriteMapLaw fw.cmp) {config : BootloaderConfig}
    (h : Storable config) (hcommit : ConfigKey.ofString? config.bootloaderCommit = none) {m : Mem}
    {page : UInt32} (hsize : 512 ≤ fw.configPageSize)
    (hpage : m.read page fw.configPageSize = configPageBuffer fw config) (l : Locals) :
    SameStored (configRead fw l (m.ptr page) fw.configPageSize) config := by
  obtain ⟨t, ht⟩ := configWrite_rest h hwrite hmap (fun _ => 0) hsize
  obtain ⟨config', happly, hsame⟩ := applyAll_knownEntries h l.config
  have hcontext : (CmpReader.init (fun i => m.ptr page (i + 4)) (fw.configPageSize - 4)).rest =
      (writtenMap h).bytes ++ t := by
    rw [← ht, CmpReader.rest_init, Store.slice_shift]
    apply Store.slice_congr
    intro i hi
    have hbyte := Store.slice_eq_iff.mp hpage (4 + i) (by omega)
    rwa [Nat.zero_add] at hbyte
  -- the commit is read as a key
  have hunknown : (commitEntry h).configKey? = none :=
    show ConfigKey.ofString? configKeyBootloaderCommit = none by decide
  have hlen := h.commit_le
  have hloop := unknown_string_loses hread hstr l hcontext
    (show (writtenMap h).entries = knownEntries h ++ [commitEntry h, versionEntry h] from rfl)
    happly hunknown (str?_strBytes (by omega)) (by omega) hcommit
  rw [configRead, hloop]
  exact hsame

/-- The configuration of a board that has saved it is the one that it boots with. -/
theorem Board.Saved.bootConfig (hread : ReadLaw fw.cmp) (hstr : ReadStrLaw fw.cmp)
    (hwrite : WriteLaw fw.cmp) (hmap : WriteMapLaw fw.cmp) {n : Board σ} (h : n.Saved fw p)
    (hstorable : Storable n.config)
    (hcommit : ConfigKey.ofString? n.config.bootloaderCommit = none)
    (hsize : 512 ≤ fw.configPageSize) (l : Locals) :
    SameStored (bootConfig fw (p.mem n.world) l) n.config := by
  have hvalid : configIsValid fw (p.mem n.world) fw.config1 fw.configPageSize = true :=
    (pageContent_isSome .first _).mp (by rw [pageContent_of_write (h .first)]; rfl)
  have hsame := configRead_pageBuffer hread hstr hwrite hmap hstorable hcommit hsize (h .first) l
  rw [CanBootloader.bootConfig, if_pos hvalid]
  exact hsame

end CanBootloader
