/-
  The reply of a write command.

  `command_write_flash` looks at the first address of the range, not at the last; it does not
  compare the announced size with the bytes that came; and the flash writer returns nothing.
  `write_truthful_iff` says when its success reply is true, with each writer.

  A second execution of the same command meets the bytes that the first one has stored, so it
  fails the check that the range is erased: `write_again`.
-/
import CanBootloader.Firmware.DeviceClass
import CanBootloader.Firmware.Stm32f4Write
import CanBootloader.Firmware.Stm32f1

namespace CanBootloader

open Lib

/-! ## Boards -/

/-- Flash memory behind a writer: its functions run on the hardware. -/
def Platform.ofWriter {σ Op : Type} {Resp : Op → Type} (mem : σ → Mem)
    (hardware : (op : Op) → σ → Option (Resp op × σ))
    (writer : (call : Call) → Prog Op Resp call.Resp) : Platform σ where
  mem
  unlock w := (Prog.run hardware (writer .flashWriterUnlock) w).world
  lock w := (Prog.run hardware (writer .flashWriterLock) w).world
  pageErase page w := (Prog.run hardware (writer (.flashWriterPageErase page)) w).world
  pageWrite page data w := (Prog.run hardware (writer (.flashWriterPageWrite page data)) w).world

/-- A microcontroller with its flash writer; that of the stm32f3 is that of the stm32f1. -/
inductive Mcu where
  | stm32f4 (board : Stm32f4Board)
  | stm32f1 (board : Stm32f1Board)

def Mcu.memoryMap : Mcu → MemoryMap
  | stm32f4 board => board.toMemoryMap
  | stm32f1 board => board.toMemoryMap

abbrev Mcu.World : Mcu → Type
  | stm32f4 _ => FlashWorld
  | stm32f1 _ => Stm32f1World

/-- The flash memory of the microcontroller, when its hardware does not fail. -/
def Mcu.platform : (mcu : Mcu) → Platform mcu.World
  | stm32f4 board => .ofWriter FlashWorld.mem stm32f4Ideal (CanBootloader.stm32f4 board)
  | stm32f1 board => .ofWriter Stm32f1World.mem (stm32f1Ideal board) CanBootloader.stm32f1

/-! ## The command -/

variable (fw : Firmware)

/-- The data bytes that the datagram carries: those behind the header of the binary. -/
def carriedData (i : Invocation) : List UInt8 := (readDataSize fw i).reader.rest

/-- The arguments and the contents of flash memory pass the checks of the command. -/
def WriteAccepted (m : Mem) (i : Invocation) : Prop :=
  WriteArgumentsOk fw i ∧
    flashPageIsErased m (writeAddress fw i).toUInt32 (readDataSize fw i).value = true

variable {fw} {σ : Type} (p : Platform σ)

theorem returns_readMemory (w : σ) : Prog.Returns p.handler readMemory w (p.mem w) w :=
  .call rfl (.ret _ w)

/-- The command stops at its arguments. -/
theorem returns_write_refused {i : Invocation} (h : ¬ WriteArgumentsOk fw i) (w : σ) :
    ∃ code : UInt64, code.toNat < 128 ∧ Prog.Returns p.handler (commandWriteFlash fw i) w
      (i.reply (fw.cmp.writeUint i.out code)) w := by
  obtain ⟨-, code, hcode, heq⟩ | ⟨hok, -⟩ := commandWriteFlash_cases fw i
  · exact ⟨code, hcode, heq ▸ .ret _ w⟩
  · exact absurd hok h

/-- It stops at the contents of flash memory. -/
theorem returns_write_notErased {i : Invocation} {w : σ} (h : WriteArgumentsOk fw i)
    (herased : ¬ WriteAccepted fw (p.mem w) i) :
    Prog.Returns p.handler (commandWriteFlash fw i) w
      (i.reply (fw.cmp.writeUint i.out flashWriteErrorNotErased)) w := by
  obtain ⟨hrefused, -⟩ | ⟨-, heq⟩ := commandWriteFlash_cases fw i
  · exact absurd h hrefused
  · have hfull : (!flashPageIsErased (p.mem w) (writeAddress fw i).toUInt32
        (readDataSize fw i).value) = true := by
      simpa using fun hall => herased ⟨h, hall⟩
    rw [heq]
    refine (returns_readMemory p w).bind ?_
    rw [if_pos hfull]
    exact .ret _ w

/-- It calls the flash writer. -/
theorem returns_write_accepted {i : Invocation} {w : σ} (h : WriteAccepted fw (p.mem w) i) :
    Prog.Returns p.handler (commandWriteFlash fw i) w
      (i.reply (fw.cmp.writeBool i.out flashWriteSuccess))
      (p.lock (p.pageWrite (writeAddress fw i).toUInt32 (writeSource fw i) (p.unlock w))) := by
  obtain ⟨hrefused, -⟩ | ⟨-, heq⟩ := commandWriteFlash_cases fw i
  · exact absurd h.1 hrefused
  · rw [heq]
    refine (returns_readMemory p w).bind ?_
    rw [if_neg (by simp [h.2])]
    exact .call rfl (.call rfl (.call rfl (.ret _ _)))

/-! ## Replies -/

/-- The reply is `FLASH_WRITE_SUCCESS`. -/
def RepliesSuccess (i : Invocation) (o : Prog.Outcome σ Call Reply) : Prop :=
  ∃ r, o.value = some r ∧ i.out.written r.out = Msgpack.bool flashWriteSuccess

/-- The reply is this code. -/
def RepliesCode (i : Invocation) (code : UInt64) (o : Prog.Outcome σ Call Reply) : Prop :=
  ∃ r, o.value = some r ∧ i.out.written r.out = Msgpack.uint code.toNat

theorem written_code (hwrite : WriteLaw fw.cmp) {i : Invocation} (hroom : i.out.pos < i.out.size)
    {code : UInt64} (hcode : code.toNat < 128) :
    i.out.written (fw.cmp.writeUint i.out code) = Msgpack.uint code.toNat := by
  rw [hwrite.writeUint, CmpWriter.written_put]
  simp only [Msgpack.uint, if_pos hcode, List.length_singleton]
  omega

theorem uint_ne_bool {n : Nat} (h : n < 128) : Msgpack.uint n ≠ Msgpack.bool true := by
  rw [Msgpack.uint, if_pos h, Msgpack.bool]
  intro heq
  have hnat := congrArg UInt8.toNat (List.cons.inj heq).1
  rw [Msgpack.toNat_ofNat_of_lt (by omega)] at hnat
  simp at hnat
  omega

/-- The reply is success if and only if the command has called the flash writer. -/
theorem repliesSuccess_iff (hwrite : WriteLaw fw.cmp) {i : Invocation}
    (hroom : i.out.pos < i.out.size) (w : σ) :
    RepliesSuccess i (Prog.run p.handler (commandWriteFlash fw i) w) ↔
      WriteAccepted fw (p.mem w) i := by
  by_cases haccept : WriteAccepted fw (p.mem w) i
  · refine iff_of_true ⟨_, (returns_write_accepted p haccept).1, ?_⟩ haccept
    rw [Invocation.reply, hwrite.writeBool _ _ hroom, CmpWriter.written_put]
  · refine iff_of_false ?_ haccept
    obtain ⟨code, hcode, hvalue⟩ : ∃ code : UInt64, code.toNat < 128 ∧
        (Prog.run p.handler (commandWriteFlash fw i) w).value =
          some (i.reply (fw.cmp.writeUint i.out code)) := by
      by_cases hok : WriteArgumentsOk fw i
      · exact ⟨_, by decide, (returns_write_notErased p hok haccept).1⟩
      · obtain ⟨code, hcode, hreturns⟩ := returns_write_refused p hok w
        exact ⟨code, hcode, hreturns.1⟩
    intro ⟨r, hr, hwritten⟩
    obtain rfl := Option.some.inj (hvalue.symm.trans hr)
    rw [Invocation.reply, written_code hwrite hroom hcode] at hwritten
    exact uint_ne_bool hcode hwritten

/-! ## What is stored -/

/-- The range holds the data, and the other bytes of flash memory are as before. -/
structure StoresOnly (map : MemoryMap) (m m' : Mem) (address : UInt32) (data : List UInt8) :
    Prop where
  stored : m'.read address data.length = data
  others : ∀ x, map.flashBegin ≤ x → x < map.flashEnd → data.length ≤ (x - address).toNat →
    m' x = m x

/-- When the writer stores data in an erased range of flash memory and changes no other byte.
    The stm32f4 writer comes to the end of its marking loop, or there is nothing to change. The
    stm32f1 writer has no byte left over, or overwrites none with it: the byte behind the range
    becomes 0xFF. -/
def Mcu.Stores (m : Mem) (address : UInt32) (data : List UInt8) : Mcu → Prop
  | stm32f4 board => WriteMarkable board address data.length ∨ ∀ b ∈ data, b = 0xFF
  | stm32f1 board => data.length % 2 = 1 → address.toNat + data.length < board.flashEnd.toNat →
      m (address + UInt32.ofNat data.length) = 0xFF

variable {m : Mem} {address : UInt32} {data : List UInt8}

theorem mem_pageWrite_stm32f4 (board : Stm32f4Board) (address : UInt32) (data : List UInt8)
    (w : FlashWorld) :
    ∃ stored : Bool, ((Mcu.stm32f4 board).platform.pageWrite address data w).mem =
        (if stored = true then w.mem.blit address data else w.mem) ∧
      (board.app ≤ address → address < board.flashEnd →
        address.toNat + data.length ≤ board.flashEnd.toNat →
        (stored = true ↔ WriteMarkable board address data.length)) := by
  obtain ⟨stored, v, hreturns, hmem, hiff⟩ := returns_stm32f4PageWrite board address data w
  have hworld : (Mcu.stm32f4 board).platform.pageWrite address data w = v := hreturns.2
  exact ⟨stored, by rw [hworld, hmem], hiff⟩

theorem mem_pageWrite_stm32f1 (board : Stm32f1Board) (hlen : data.length < 2 ^ 32)
    {w : Stm32f1World} (herased : ∀ b ∈ w.mem.read address data.length, b = 0xFF) :
    ((Mcu.stm32f1 board).platform.pageWrite address data w).mem =
      w.mem.blit address (data ++ if data.length % 2 = 0 then [] else [0xFF]) := by
  obtain ⟨v, hreturns, hmem⟩ := returns_stm32f1PageWrite board address hlen w
  have hworld : (Mcu.stm32f1 board).platform.pageWrite address data w = v := hreturns.2
  rw [hworld, hmem, programmedBytes_erased herased]

/-- The stm32f4 writer. -/
theorem storesOnly_stm32f4 {board : Stm32f4Board} (happ : board.app ≤ address)
    (hlt : address < board.flashEnd) (hend : address.toNat + data.length ≤ board.flashEnd.toNat)
    (w : FlashWorld) (herased : ∀ b ∈ w.mem.read address data.length, b = 0xFF) :
    StoresOnly board.toMemoryMap w.mem
        ((Mcu.stm32f4 board).platform.pageWrite address data w).mem address data ↔
      (Mcu.stm32f4 board).Stores w.mem address data := by
  obtain ⟨v, hreturns, hothers, hiff⟩ := returns_pageWrite_reads address data w happ hlt hend herased
  have hworld : (Mcu.stm32f4 board).platform.pageWrite address data w = v := hreturns.2
  rw [hworld, Mcu.Stores, or_comm, ← hiff]
  exact ⟨StoresOnly.stored, fun hread => ⟨hread, fun x _ _ hx => hothers x hx⟩⟩

/-- The stm32f1 writer. -/
theorem storesOnly_stm32f1 {board : Stm32f1Board} (hlow : board.flashBegin ≤ address)
    (hend : address.toNat + data.length ≤ board.flashEnd.toNat) (w : Stm32f1World)
    (herased : ∀ b ∈ w.mem.read address data.length, b = 0xFF) :
    StoresOnly board.toMemoryMap w.mem
        ((Mcu.stm32f1 board).platform.pageWrite address data w).mem address data ↔
      (Mcu.stm32f1 board).Stores w.mem address data := by
  have hend32 := board.flashEnd.toNat_lt
  rw [mem_pageWrite_stm32f1 board (by omega) herased, Mcu.Stores]
  by_cases heven : data.length % 2 = 0
  · rw [if_pos heven, List.append_nil]
    refine iff_of_true ⟨Mem.read_blit _ _ (by omega), ?_⟩ (fun hodd => by omega)
    intro x _ _ hx
    exact Mem.blit_other _ hx
  · rw [if_neg heven]
    generalize hm' : w.mem.blit address (data ++ [0xFF]) = m'
    have hstored : m'.read address data.length = data := by
      rw [← hm', Mem.read_blit_append _ _ (by rw [List.length_singleton]; omega)]
    have hbehind : m' (address + UInt32.ofNat data.length) = 0xFF := by
      rw [← hm', Mem.blit_at _ _ _ (by omega)]
      simp
    have hnat : (address + UInt32.ofNat data.length).toNat = address.toNat + data.length :=
      toNat_add_ofNat (by omega)
    have hdist : (address + UInt32.ofNat data.length - address).toNat = data.length := by
      rw [UInt32.add_comm, UInt32.add_sub_cancel, UInt32.toNat_ofNat']
      omega
    constructor
    · intro h _ hin
      rw [← h.others _ ?_ ?_ hdist.ge, hbehind]
      · rw [UInt32.le_iff_toNat_le] at hlow ⊢
        omega
      · rw [UInt32.lt_iff_toNat_lt, hnat]
        exact hin
    · intro h
      refine ⟨hstored, ?_⟩
      intro x _ hx hdistx
      rcases Nat.eq_or_lt_of_le hdistx with heq | hlt
      · -- the byte behind the range
        have hxa : address + UInt32.ofNat data.length = x := by
          rw [heq, UInt32.ofNat_toNat, UInt32.add_comm, UInt32.sub_add_cancel]
        rw [UInt32.lt_iff_toNat_lt, ← hxa, hnat] at hx
        rw [← hxa, hbehind, h (by omega) hx]
      · rw [← hm', Mem.blit_other]
        simp only [List.length_append, List.length_singleton]
        omega

/-- The target of an accepted write is erased. -/
theorem erased_of_accepted {i : Invocation} (h : WriteAccepted fw m i) :
    ∀ b ∈ m.read (writeAddress fw i).toUInt32 (readDataSize fw i).value.toNat, b = 0xFF := by
  have hall := h.2
  rw [flashPageIsErased, List.all_eq_true] at hall
  intro b hb
  exact beq_iff_eq.mp (hall b hb)

/-- If the announced size is right, `src` is the data. -/
theorem writeSource_eq {i : Invocation}
    (h : (readDataSize fw i).value.toNat = (carriedData fw i).length) :
    writeSource fw i = carriedData fw i := by
  rw [writeSource, h, carriedData, CmpReader.slice_eq_take _ le_rfl, List.take_length]

/-! ## Truthful replies -/

variable (fw)

/-- A success reply is true: the range lies in the application region, the size is that of the
    data in the datagram, and the data and nothing else is stored. -/
def TruthfulWrite (i : Invocation) (w : σ) : Prop :=
  let o := Prog.run p.handler (commandWriteFlash fw i) w
  let address := writeAddress fw i
  let size := (readDataSize fw i).value
  RepliesSuccess i o →
    fw.app.toNat ≤ address.toNat ∧ address.toNat + size.toNat ≤ fw.flashEnd.toNat ∧
    size.toNat = (carriedData fw i).length ∧
    StoresOnly fw.toMemoryMap (p.mem w) (p.mem o.world) address.toUInt32 (carriedData fw i)

/-- The range ends in the application region, the announced size is right, and the writer stores
    the data. -/
def WriteFits (mcu : Mcu) (m : Mem) (i : Invocation) : Prop :=
  let address := writeAddress fw i
  let size := (readDataSize fw i).value
  address.toNat + size.toNat ≤ fw.flashEnd.toNat ∧ size.toNat = (carriedData fw i).length ∧
    mcu.Stores m address.toUInt32 (carriedData fw i)

variable {fw}

theorem Mcu.mem_unlock (mcu : Mcu) (w : mcu.World) :
    mcu.platform.mem (mcu.platform.unlock w) = mcu.platform.mem w := by
  cases mcu <;> rfl

theorem Mcu.mem_lock (mcu : Mcu) (w : mcu.World) :
    mcu.platform.mem (mcu.platform.lock w) = mcu.platform.mem w := by
  cases mcu <;> rfl

/-- What the writer of the board stores. -/
theorem storesOnly_iff (mcu : Mcu) (happ : mcu.memoryMap.app ≤ address)
    (hlt : address < mcu.memoryMap.flashEnd)
    (hend : address.toNat + data.length ≤ mcu.memoryMap.flashEnd.toNat) (w : mcu.World)
    (herased : ∀ b ∈ (mcu.platform.mem w).read address data.length, b = 0xFF) :
    StoresOnly mcu.memoryMap (mcu.platform.mem w)
        (mcu.platform.mem (mcu.platform.pageWrite address data w)) address data ↔
      mcu.Stores (mcu.platform.mem w) address data := by
  cases mcu with
  | stm32f4 board => exact storesOnly_stm32f4 happ hlt hend w herased
  | stm32f1 board =>
      have hlow : board.flashBegin ≤ address := by
        have h1 := board.flashBegin_lt
        have h2 := board.config1_lt
        have h3 := board.config2_lt
        change board.app ≤ address at happ
        simp only [UInt32.lt_iff_toNat_lt, UInt32.le_iff_toNat_le] at h1 h2 h3 happ ⊢
        omega
      exact storesOnly_stm32f1 hlow hend w herased

/-- After an accepted command the reply is true if and only if the write fits. -/
theorem accepted_truthful_iff (mcu : Mcu) (hmap : fw.toMemoryMap = mcu.memoryMap)
    (hwrite : WriteLaw fw.cmp) {i : Invocation} (hroom : i.out.pos < i.out.size) {w : mcu.World}
    (haccept : WriteAccepted fw (mcu.platform.mem w) i) :
    TruthfulWrite fw mcu.platform i w ↔ WriteFits fw mcu (mcu.platform.mem w) i := by
  have hsuccess := (repliesSuccess_iff mcu.platform hwrite hroom w).mpr haccept
  have hworld := (returns_write_accepted mcu.platform haccept).2
  have hend32 := fw.flashEnd.toNat_lt
  have happEnd := fw.app_end
  obtain ⟨happ, hlt⟩ := haccept.1.1
  change fw.app ≤ (writeAddress fw i).toUInt32 at happ
  change (writeAddress fw i).toUInt32 < fw.app + fw.appSize at hlt
  simp only [TruthfulWrite, WriteFits, hsuccess, true_implies, hworld, Mcu.mem_lock]
  -- with the first two conditions it is the writer that decides
  have hwriter : (writeAddress fw i).toNat + (readDataSize fw i).value.toNat ≤ fw.flashEnd.toNat →
      (readDataSize fw i).value.toNat = (carriedData fw i).length →
      fw.app.toNat ≤ (writeAddress fw i).toNat ∧
      (StoresOnly fw.toMemoryMap (mcu.platform.mem w)
        (mcu.platform.mem (mcu.platform.pageWrite (writeAddress fw i).toUInt32
          (writeSource fw i) (mcu.platform.unlock w)))
        (writeAddress fw i).toUInt32 (carriedData fw i) ↔
      mcu.Stores (mcu.platform.mem w) (writeAddress fw i).toUInt32 (carriedData fw i)) := by
    intro hend hsize
    have haddress : (writeAddress fw i).toUInt32.toNat = (writeAddress fw i).toNat := by
      rw [UInt64.toNat_toUInt32]
      omega
    have herased := erased_of_accepted haccept
    rw [hsize, ← mcu.mem_unlock] at herased
    rw [writeSource_eq hsize, hmap, ← mcu.mem_unlock w]
    rw [UInt32.le_iff_toNat_le, haddress] at happ
    refine ⟨hmap ▸ happ, storesOnly_iff mcu ?_ ?_ ?_ _ herased⟩
    · rw [← hmap, UInt32.le_iff_toNat_le, haddress]
      exact happ
    · rw [UInt32.lt_iff_toNat_lt, UInt32.toNat_add] at hlt
      rw [← hmap, UInt32.lt_iff_toNat_lt]
      omega
    · rw [← hmap, haddress, ← hsize]
      exact hend
  constructor
  · intro ⟨_, hend, hsize, hstores⟩
    exact ⟨hend, hsize, (hwriter hend hsize).2.mp hstores⟩
  · intro ⟨hend, hsize, hstores⟩
    obtain ⟨hlow, hiff⟩ := hwriter hend hsize
    exact ⟨hlow, hend, hsize, hiff.mpr hstores⟩

/-- A success reply is true exactly if an accepted write fits: for every command, every contents
    of flash memory and each writer. -/
theorem write_truthful_iff (mcu : Mcu) (fw : Firmware) (hmap : fw.toMemoryMap = mcu.memoryMap)
    (hwrite : WriteLaw fw.cmp) (i : Invocation) (hroom : i.out.pos < i.out.size) (w : mcu.World) :
    TruthfulWrite fw mcu.platform i w ↔
      (WriteAccepted fw (mcu.platform.mem w) i → WriteFits fw mcu (mcu.platform.mem w) i) := by
  by_cases haccept : WriteAccepted fw (mcu.platform.mem w) i
  · rw [accepted_truthful_iff mcu hmap hwrite hroom haccept]
    exact (imp_iff_right haccept).symm
  · refine iff_of_true ?_ fun h => absurd h haccept
    intro hsuccess
    exact absurd ((repliesSuccess_iff mcu.platform hwrite hroom w).mp hsuccess) haccept

/-- A write command for the Nucleo board that announces this size. -/
def writeInvocation (address size : Nat) (data : List UInt8) : Invocation :=
  let deviceClass := nucleoFirmware.platformDeviceClass
  let bytes := Msgpack.uint address ++ Msgpack.strHeader deviceClass.length ++ deviceClass ++
    Msgpack.binHeader size ++ data
  { blankInvocation blankConfig with
    argc := 3
    args := .init (Store.ofList bytes) bytes.length }

/-- Two bytes at the start of the application. -/
theorem twoBytes_fit : WriteFits nucleoFirmware (.stm32f4 nucleoBoardStm32f446reFlash)
    (fun _ => 0xFF) (writeInvocation 0x08010000 2 [1, 2]) := by
  refine ⟨by decide, by decide, .inl ?_⟩
  exact markable_start (show 0x08010002 ≤ sectorStart 8 by decide)

theorem write_truthful_iff_two :
    TruthfulWrite nucleoFirmware (Mcu.stm32f4 nucleoBoardStm32f446reFlash).platform
      (writeInvocation 0x08010000 2 [1, 2]) erasedFlash :=
  (write_truthful_iff (.stm32f4 nucleoBoardStm32f446reFlash) nucleoFirmware rfl
    Cmp.reference_write (writeInvocation 0x08010000 2 [1, 2]) (by decide) erasedFlash).mpr
    fun _ => twoBytes_fit

/-- The command announces four bytes and carries two. -/
theorem write_beyond_data :
    ¬ TruthfulWrite nucleoFirmware (Mcu.stm32f4 nucleoBoardStm32f446reFlash).platform
      (writeInvocation 0x08010000 4 [1, 2]) erasedFlash := by
  intro h
  have haccept : WriteAccepted nucleoFirmware (fun _ => 0xFF)
      (writeInvocation 0x08010000 4 [1, 2]) :=
    ⟨⟨⟨by decide, by decide⟩, by decide, by decide⟩, by decide⟩
  have hsize := (h ((repliesSuccess_iff _ Cmp.reference_write (by decide) _).mpr haccept)).2.2.1
  exact absurd hsize (by decide)

/-! ## The same command again -/

/-- The same command once more: the same datagram and configuration. The device class is a string
    that fits the local buffer, or the buffer holds what it held before. -/
structure SameCommand (fw : Firmware) (i j : Invocation) : Prop where
  args : j.args = i.args
  config : j.config = i.config
  deviceClass : (∃ s, secondArgument fw i.args = some s ∧ s.length < 64) ∨
    j.locals.deviceClass = i.locals.deviceClass

/-- The device class is read as before. -/
theorem SameCommand.readDeviceClass_eq {i j : Invocation} (hcmp : ReadStrLaw fw.cmp)
    (h : SameCommand fw i j) :
    (readDeviceClass fw j).reader = (readDeviceClass fw i).reader ∧
    (readDeviceClass fw j).size = (readDeviceClass fw i).size ∧
    strcmpEq (readDeviceClass fw j).data (cString j.config.deviceClass) =
      strcmpEq (readDeviceClass fw i).data (cString i.config.deviceClass) := by
  obtain ⟨hargs, hconfig, hclass⟩ := h
  rw [hconfig]
  unfold readDeviceClass
  rw [hargs]
  rcases hclass with ⟨s, hs, hlen⟩ | hlocals
  · obtain ⟨⟨t, rest⟩, hstr, rfl⟩ := Option.map_eq_some_iff.mp hs
    have hfits : t.length < (64 : UInt32).toNat := hlen
    rw [hcmp.fits _ _ _ _ _ hstr hfits, hcmp.fits _ _ _ _ _ hstr hfits]
    refine ⟨rfl, rfl, ?_⟩
    rw [Bool.eq_iff_iff, strcmpEq_blit _ _ (nul_notMem_cString _),
      strcmpEq_blit _ _ (nul_notMem_cString _)]
  · rw [hlocals]
    exact ⟨rfl, rfl, rfl⟩

/-- So are the other arguments. -/
theorem SameCommand.arguments {i j : Invocation} (hcmp : ReadStrLaw fw.cmp)
    (h : SameCommand fw i j) :
    writeAddress fw j = writeAddress fw i ∧ readDataSize fw j = readDataSize fw i ∧
      (WriteArgumentsOk fw j ↔ WriteArgumentsOk fw i) := by
  obtain ⟨hreader, hsize, hclass⟩ := h.readDeviceClass_eq hcmp
  have hdata : readDataSize fw j = readDataSize fw i := by
    rw [readDataSize, readDataSize, hreader, hsize]
  refine ⟨?_, hdata, ?_⟩
  · rw [writeAddress, writeAddress, h.args]
  · rw [WriteArgumentsOk, WriteArgumentsOk, h.args, hclass, hdata]

/-- The data is where the command has put it. -/
def StoresData (fw : Firmware) (m : Mem) (i : Invocation) : Prop :=
  (readDataSize fw i).value.toNat = (carriedData fw i).length ∧
    m.read (writeAddress fw i).toUInt32 (carriedData fw i).length = carriedData fw i

/-- A command whose data is stored is accepted once more if and only if all of it is 0xFF. -/
theorem accepted_again_iff {i j : Invocation} (hcmp : ReadStrLaw fw.cmp) (h : SameCommand fw i j)
    (hok : WriteArgumentsOk fw i) (hstored : StoresData fw m i) :
    WriteAccepted fw m j ↔ ∀ b ∈ carriedData fw i, b = 0xFF := by
  obtain ⟨haddress, hdata, hargs⟩ := h.arguments hcmp
  rw [WriteAccepted, and_iff_right (hargs.mpr hok), haddress, hdata, flashPageIsErased,
    hstored.1, hstored.2, List.all_eq_true]
  simp only [beq_iff_eq]

/-- Writing 0xFF to an erased range a second time changes nothing. -/
theorem pageWrite_again (mcu : Mcu) (hlen : data.length < 2 ^ 32) {w v : mcu.World}
    (herased : ∀ b ∈ (mcu.platform.mem w).read address data.length, b = 0xFF)
    (hdata : ∀ b ∈ data, b = 0xFF)
    (hmem : mcu.platform.mem v = mcu.platform.mem (mcu.platform.pageWrite address data w)) :
    mcu.platform.mem (mcu.platform.pageWrite address data v) = mcu.platform.mem v := by
  cases mcu with
  | stm32f4 board =>
      -- not even the first time
      have hsame : ∀ u : FlashWorld, u.mem.read address data.length = data →
          ((Mcu.stm32f4 board).platform.pageWrite address data u).mem = u.mem := by
        intro u hu
        obtain ⟨stored, hu', -⟩ := mem_pageWrite_stm32f4 board address data u
        rw [hu', Mem.blit_read _ _ hu, ite_self]
      have hread := Mem.read_eq_of_erased hdata herased
      have hv : v.mem = w.mem := hmem.trans (hsame w hread)
      refine hsame v ?_
      rw [hv]
      exact hread
  | stm32f1 board =>
      have htail : data.length +
          (if data.length % 2 = 0 then [] else [(0xFF : UInt8)]).length ≤ 2 ^ 32 := by
        split_ifs
        · simp only [List.length_nil]
          omega
        · simp only [List.length_singleton]
          omega
      have hv : v.mem = w.mem.blit address
          (data ++ if data.length % 2 = 0 then [] else [0xFF]) :=
        hmem.trans (mem_pageWrite_stm32f1 board hlen herased)
      have hread : v.mem.read address data.length = data := by
        rw [hv, Mem.read_blit_append _ _ htail]
      refine (mem_pageWrite_stm32f1 board hlen (w := v) (by rw [hread]; exact hdata)).trans
        (Mem.blit_read _ _ ?_)
      rw [hv]
      exact Mem.read_blit _ _ (by rw [List.length_append]; exact htail)

variable (fw) in
/-- Resending is safe: if a command replies success and stores its data, then the same command
    again replies success, and leaves flash memory unchanged. -/
def ResendSafe (i j : Invocation) (w : σ) : Prop :=
  let o := Prog.run p.handler (commandWriteFlash fw i) w
  let again := Prog.run p.handler (commandWriteFlash fw j) o.world
  RepliesSuccess i o → StoresData fw (p.mem o.world) i →
    RepliesSuccess j again ∧ p.mem again.world = p.mem o.world

/-- The same command again leaves flash memory unchanged. Its reply is success if all data bytes
    are 0xFF, and that the target is not erased otherwise. -/
theorem write_again (mcu : Mcu) (fw : Firmware) (hcmp : ReadStrLaw fw.cmp)
    (hwrite : WriteLaw fw.cmp) (i j : Invocation) (hsame : SameCommand fw i j)
    (hroom : i.out.pos < i.out.size) (hroom' : j.out.pos < j.out.size) (w : mcu.World)
    (hsuccess : RepliesSuccess i (Prog.run mcu.platform.handler (commandWriteFlash fw i) w))
    (hstored : StoresData fw (mcu.platform.mem
      (Prog.run mcu.platform.handler (commandWriteFlash fw i) w).world) i) :
    let v := (Prog.run mcu.platform.handler (commandWriteFlash fw i) w).world
    let again := Prog.run mcu.platform.handler (commandWriteFlash fw j) v
    mcu.platform.mem again.world = mcu.platform.mem v ∧
      ((∀ b ∈ carriedData fw i, b = 0xFF) → RepliesSuccess j again) ∧
      ((∃ b ∈ carriedData fw i, b ≠ 0xFF) → RepliesCode j flashWriteErrorNotErased again) := by
  intro v again
  have haccept := (repliesSuccess_iff mcu.platform hwrite hroom w).mp hsuccess
  have hagain := accepted_again_iff hcmp hsame haccept.1 hstored
  obtain ⟨haddress, hdata, hok⟩ := hsame.arguments hcmp
  by_cases hall : ∀ b ∈ carriedData fw i, b = 0xFF
  · have haccept' := hagain.mpr hall
    refine ⟨?_, fun _ => (repliesSuccess_iff mcu.platform hwrite hroom' v).mpr haccept', ?_⟩
    · have hsource : writeSource fw j = writeSource fw i := by
        rw [writeSource, hdata, writeSource]
      have hfirst := (returns_write_accepted mcu.platform haccept).2
      have hsecond := (returns_write_accepted mcu.platform haccept').2
      rw [haddress, hsource, writeSource_eq hstored.1] at hsecond
      rw [writeSource_eq hstored.1] at hfirst
      have herased := erased_of_accepted haccept
      rw [hstored.1, ← mcu.mem_unlock] at herased
      have hlen : (carriedData fw i).length < 2 ^ 32 := hstored.1 ▸ UInt32.toNat_lt _
      have hmem : mcu.platform.mem (mcu.platform.unlock v) = mcu.platform.mem
          (mcu.platform.pageWrite (writeAddress fw i).toUInt32 (carriedData fw i)
            (mcu.platform.unlock w)) := by
        rw [mcu.mem_unlock]
        exact (congrArg mcu.platform.mem hfirst).trans (mcu.mem_lock _)
      have hunchanged := pageWrite_again mcu hlen herased hall hmem
      rw [hsecond, mcu.mem_lock, hunchanged, mcu.mem_unlock]
    · intro ⟨b, hb, hne⟩
      exact absurd (hall b hb) hne
  · have hreturns := returns_write_notErased mcu.platform (hok.mpr haccept.1)
      (fun h => hall (hagain.mp h))
    refine ⟨congrArg mcu.platform.mem hreturns.2, fun h => absurd h hall, fun _ => ?_⟩
    refine ⟨_, hreturns.1, ?_⟩
    rw [Invocation.reply, written_code hwrite hroom' (by decide)]

/-- An accepted command that fits is one whose data is stored. -/
theorem stores_of_fits (mcu : Mcu) (hmap : fw.toMemoryMap = mcu.memoryMap)
    (hwrite : WriteLaw fw.cmp) {i : Invocation} (hroom : i.out.pos < i.out.size) {w : mcu.World}
    (haccept : WriteAccepted fw (mcu.platform.mem w) i)
    (hfits : WriteFits fw mcu (mcu.platform.mem w) i) :
    let o := Prog.run mcu.platform.handler (commandWriteFlash fw i) w
    RepliesSuccess i o ∧ StoresData fw (mcu.platform.mem o.world) i := by
  have hsuccess := (repliesSuccess_iff mcu.platform hwrite hroom w).mpr haccept
  have htruthful := (accepted_truthful_iff mcu hmap hwrite hroom haccept).mpr hfits hsuccess
  exact ⟨hsuccess, htruthful.2.2.1, htruthful.2.2.2.stored⟩

/-- Two bytes are stored at the start of the application of an erased board. -/
theorem twoBytes_stored :
    let i := writeInvocation 0x08010000 2 [1, 2]
    let mcu := Mcu.stm32f4 nucleoBoardStm32f446reFlash
    let o := Prog.run mcu.platform.handler (commandWriteFlash nucleoFirmware i) erasedFlash
    RepliesSuccess i o ∧ StoresData nucleoFirmware (mcu.platform.mem o.world) i := by
  refine stores_of_fits (.stm32f4 nucleoBoardStm32f446reFlash) rfl Cmp.reference_write (by decide)
    ?_ twoBytes_fit
  exact ⟨⟨⟨by decide, by decide⟩, by decide, by decide⟩, by decide⟩

/-- The same two bytes again. -/
theorem write_again_two :
    let i := writeInvocation 0x08010000 2 [1, 2]
    let handler := (Mcu.stm32f4 nucleoBoardStm32f446reFlash).platform.handler
    RepliesCode i flashWriteErrorNotErased (Prog.run handler (commandWriteFlash nucleoFirmware i)
      (Prog.run handler (commandWriteFlash nucleoFirmware i) erasedFlash).world) :=
  (write_again (.stm32f4 nucleoBoardStm32f446reFlash) nucleoFirmware Cmp.reference_readStr
    Cmp.reference_write (writeInvocation 0x08010000 2 [1, 2])
    (writeInvocation 0x08010000 2 [1, 2]) ⟨rfl, rfl, .inr rfl⟩ (by decide) (by decide) erasedFlash
    twoBytes_stored.1 twoBytes_stored.2).2.2 ⟨1, by decide, by decide⟩

/-- They are refused. -/
theorem resend_refused :
    ¬ ResendSafe nucleoFirmware (Mcu.stm32f4 nucleoBoardStm32f446reFlash).platform
      (writeInvocation 0x08010000 2 [1, 2]) (writeInvocation 0x08010000 2 [1, 2]) erasedFlash := by
  intro h
  obtain ⟨hsuccess, hstored⟩ := twoBytes_stored
  have haccept := (repliesSuccess_iff _ Cmp.reference_write (by decide) _).mp
    (h hsuccess hstored).1
  have hall := (accepted_again_iff Cmp.reference_readStr ⟨rfl, rfl, .inr rfl⟩ haccept.1
    hstored).mp haccept 1 (by decide)
  exact absurd hall (by decide)

end CanBootloader
