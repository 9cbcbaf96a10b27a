/-
  The dispatcher looks a command up by its index, a 32-bit integer that it hands on as a
  `uint8_t`.

  * `getCommandByIndex_eq_iff`: the lookup finds the command with this index, or none if there is
    none, exactly for indices that the conversion does not map to another one of the table.
  * `dispatch_exact_iff`: so does the dispatcher.
-/
import CanBootloader.Firmware.Rounds

namespace CanBootloader

open Lib

variable (fw : Firmware)

/-! ## The table -/

/-- The entry whose index equals the integer. -/
def commandWithIndex (index : Int) : Option Command :=
  (commands fw).find? fun c => (c.index.toNat : Int) == index

/-- The indices of the table. -/
def HasCommand (index : Int) : Prop := 1 ≤ index ∧ index ≤ 10

theorem index_of_mem_commands {cmd : Command} (h : cmd ∈ commands fw) :
    HasCommand cmd.index.toNat := by
  simp only [commands, List.mem_cons, List.not_mem_nil, or_false] at h
  unfold HasCommand
  rcases h with rfl | rfl | rfl | rfl | rfl | rfl | rfl | rfl | rfl | rfl <;> simp

theorem commandWithIndex_eq_none {index : Int} (h : ¬ HasCommand index) :
    commandWithIndex fw index = none := by
  refine List.find?_eq_none.mpr fun cmd hcmd hindex => h ?_
  rw [← beq_iff_eq.mp hindex]
  exact index_of_mem_commands fw hcmd

theorem toNat_ofInt (index : Int) : ((UInt8.ofInt index).toNat : Int) = index % 256 := by
  have hlow := Int.emod_nonneg index (show (256 : Int) ≠ 0 by decide)
  have hhigh := Int.emod_lt_of_pos index (show (0 : Int) < 256 by decide)
  rw [UInt8.ofInt, UInt8.toNat_ofNat']
  omega

/-- The lookup of the dispatcher goes by the last eight bits. -/
theorem getCommandByIndex_ofInt (index : Int) :
    getCommandByIndex fw (UInt8.ofInt index) = commandWithIndex fw (index % 256) := by
  unfold getCommandByIndex commandWithIndex
  congr 1
  funext cmd
  rw [← toNat_ofInt, Bool.eq_iff_iff, beq_iff_eq, beq_iff_eq, Int.natCast_inj, UInt8.toNat_inj]

theorem commandWithIndex_isSome {index : Int} (h : HasCommand index) :
    (commandWithIndex fw index).isSome = true := by
  obtain ⟨hlow, hhigh⟩ := h
  interval_cases index <;> rfl

theorem getCommandByIndex_eq_iff (index : Int) :
    getCommandByIndex fw (UInt8.ofInt index) = commandWithIndex fw index ↔
      HasCommand index ∨ ¬ HasCommand (index % 256) := by
  rw [getCommandByIndex_ofInt]
  constructor
  · intro heq
    by_contra h
    obtain ⟨hindex, hmod⟩ := not_or.mp h
    have hsome := commandWithIndex_isSome fw (not_not.mp hmod)
    rw [heq, commandWithIndex_eq_none fw hindex] at hsome
    exact absurd hsome (by simp)
  · rintro (h | h)
    · rw [Int.emod_eq_of_lt (by unfold HasCommand at h; omega) (by unfold HasCommand at h; omega)]
    · have hindex : ¬ HasCommand index := by
        intro hindex
        unfold HasCommand at hindex h
        omega
      rw [commandWithIndex_eq_none fw h, commandWithIndex_eq_none fw hindex]

/-! ## The dispatcher -/

/-- What a handler is called with, when its arguments begin at this position. -/
def handlerInvocation (context : CmpReader) (out : CmpWriter) (config : BootloaderConfig)
    (status : UInt8) (l : Locals) : Invocation :=
  let argc := fw.cmp.readArray context 0
  ⟨if argc.ok then argc.value else 0, argc.reader, out, config, status, l⟩

/-- The handler of a command, or `-ERR_COMMAND_NOT_FOUND` with nothing changed. -/
def runCommand (i : Invocation) : Option Command → Code Execution
  | some cmd => cmd.callback i >>= fun r => Prog.ret ⟨r.out.pos, r.out.buf, r.config⟩
  | none => Prog.ret ⟨-errCommandNotFound, i.out.buf, i.config⟩

/-- No handler does what the dispatcher does when it finds none. -/
theorem runCommand_some_ne (i : Invocation) (cmd : Command) :
    runCommand i (some cmd) ≠ runCommand i none := by
  intro heq
  simp only [runCommand] at heq
  cases hcode : cmd.callback i with
  | ret r =>
      rw [hcode, Prog.ret_bind] at heq
      have hresult : (r.out.pos : Int) = -4 := congrArg Execution.result (Prog.ret.inj heq)
      omega
  | call op k =>
      rw [hcode, Prog.call_bind] at heq
      exact nomatch heq

variable {fw}

theorem executeDatagramCommands_eq (hread : ReadLaw fw.cmp) {data : Store} {dataLen : Nat}
    {outBuf : Store} {outLen : Nat} {config : BootloaderConfig} {status : UInt8} {l : Locals}
    {index : Int} {rest args : List UInt8}
    (hversion : Msgpack.int32? (data.slice 0 dataLen) = some (commandSetVersion, rest))
    (hindex : Msgpack.int32? rest = some (index, args)) :
    executeDatagramCommands fw data dataLen outBuf outLen config status l =
      runCommand (handlerInvocation fw (((CmpReader.init data dataLen).seek rest).seek args)
        (.init outBuf outLen) config status l) (getCommandByIndex fw (UInt8.ofInt index)) := by
  have hrest : ((CmpReader.init data dataLen).seek rest).rest = rest := by
    obtain ⟨pre, hpre⟩ := Msgpack.int32?_suffix hversion
    exact CmpReader.rest_seek hpre.symm
  have hfirst := hread.readInt (.init data dataLen) l.commandVersion _ _ hversion
  have hsecond := hread.readInt ((CmpReader.init data dataLen).seek rest) 0 _ _
    (hrest.symm ▸ hindex)
  unfold executeDatagramCommands
  simp only [hfirst, hsecond, id, ne_eq, not_true_eq_false, if_false, Bool.not_true,
    Bool.false_eq_true]
  cases getCommandByIndex fw (UInt8.ofInt index) with
  | none => rfl
  | some cmd => rfl

/-- The command with the index of the datagram is run, or none if there is none, exactly for
    indices in the table and those that the conversion to eight bits leaves outside it. -/
theorem dispatch_exact_iff (fw : Firmware) (hread : ReadLaw fw.cmp) (data : Store) (dataLen : Nat)
    (outBuf : Store) (outLen : Nat) (config : BootloaderConfig) (status : UInt8) (l : Locals)
    (index : Int) (rest args : List UInt8)
    (hversion : Msgpack.int32? (data.slice 0 dataLen) = some (commandSetVersion, rest))
    (hindex : Msgpack.int32? rest = some (index, args)) :
    executeDatagramCommands fw data dataLen outBuf outLen config status l =
        runCommand (handlerInvocation fw (((CmpReader.init data dataLen).seek rest).seek args)
          (.init outBuf outLen) config status l) (commandWithIndex fw index) ↔
      HasCommand index ∨ ¬ HasCommand (index % 256) := by
  rw [executeDatagramCommands_eq hread hversion hindex]
  constructor
  · intro heq
    by_contra h
    obtain ⟨hnone, hmod⟩ := not_or.mp h
    obtain ⟨cmd, hcmd⟩ := Option.isSome_iff_exists.mp
      (commandWithIndex_isSome fw (not_not.mp hmod))
    rw [getCommandByIndex_ofInt, hcmd, commandWithIndex_eq_none fw hnone] at heq
    exact runCommand_some_ne _ cmd heq
  · intro h
    rw [(getCommandByIndex_eq_iff fw index).mpr h]

/-- A datagram with this index and no arguments. -/
def indexDatagram (index : List UInt8) : List UInt8 := 3 :: index ++ [0x90]

theorem dispatch_exact_iff_ping :
    executeDatagramCommands nucleoFirmware (Store.ofList (indexDatagram [5])) 3 (fun _ => 0) 8
        blankConfig 0 blankLocals =
      runCommand (handlerInvocation nucleoFirmware
        (((CmpReader.init (Store.ofList (indexDatagram [5])) 3).seek [5, 0x90]).seek [0x90])
        (.init (fun _ => 0) 8) blankConfig 0 blankLocals) (commandWithIndex nucleoFirmware 5) :=
  (dispatch_exact_iff nucleoFirmware Cmp.reference_read (Store.ofList (indexDatagram [5])) 3
    (fun _ => 0) 8 blankConfig 0 blankLocals 5 [5, 0x90] [0x90] (by decide) (by decide)).mpr
    (.inl (by unfold HasCommand; decide))

/-- Index 261 is taken for 5, and the command is a ping. -/
theorem dispatch_wraps :
    Msgpack.int32? ((Store.ofList (indexDatagram [0xcd, 1, 5])).slice 0 5) =
      some (commandSetVersion, [0xcd, 1, 5, 0x90]) ∧
    Msgpack.int32? [0xcd, 1, 5, 0x90] = some (261, [0x90]) ∧
    commandWithIndex nucleoFirmware 261 = none ∧
    ((Prog.run blankPlatform.handler (executeDatagramCommands nucleoFirmware
      (Store.ofList (indexDatagram [0xcd, 1, 5])) 5 (fun _ => 0) 8 blankConfig 0 blankLocals)
      ()).value.map Execution.result) = some 1 := by
  refine ⟨by decide, by decide, ?_, by decide⟩
  exact commandWithIndex_eq_none nucleoFirmware (by unfold HasCommand; decide)

end CanBootloader
