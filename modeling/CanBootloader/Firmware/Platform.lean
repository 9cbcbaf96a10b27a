/-
  What the portable code of the firmware is compiled against: the memory map of the linker
  script, the macros of the platform headers, the packages it links, and the calls by which
  it reaches flash memory and the reset controller.

  A pointer is a 32-bit address and `Mem` is the address space as the program sees it, so
  address arithmetic wraps. Calls that change flash memory are operations of a `Prog`: what
  they do is the business of the flash writer, not of the command code.
-/
import CanBootloader.Lib.Prog
import CanBootloader.Firmware.Cmp
import CanBootloader.Firmware.Datagram
import Mathlib.Data.List.GetD

namespace CanBootloader

open Lib

/-! ## Memory -/

/-- The address space. -/
abbrev Mem := UInt32 → UInt8

/-- The memory behind a pointer. -/
def Mem.ptr (m : Mem) (a : UInt32) : Store := fun i => m (a + UInt32.ofNat i)

/-- `len` bytes at a pointer. -/
def Mem.read (m : Mem) (a : UInt32) (len : Nat) : List UInt8 := (m.ptr a).slice 0 len

/-- Bytes stored from an address on. -/
def Mem.blit (m : Mem) (a : UInt32) (bs : List UInt8) : Mem := fun x => bs.getD (x - a).toNat (m x)

theorem toNat_add_ofNat {a : UInt32} {n : Nat} (h : a.toNat + n < 2 ^ 32) :
    (a + UInt32.ofNat n).toNat = a.toNat + n := by
  rw [UInt32.toNat_add, UInt32.toNat_ofNat']
  omega

theorem Mem.read_blit (m : Mem) (a : UInt32) {bs : List UInt8} (h : bs.length ≤ 2 ^ 32) :
    (m.blit a bs).read a bs.length = bs := by
  apply List.ext_getElem
  · simp [Mem.read]
  · intro i h1 h2
    have hi : (UInt32.ofNat i).toNat = i :=
      UInt32.toNat_ofNat_of_lt' (show i < 2 ^ 32 by omega)
    have hsub : a + UInt32.ofNat i - a = UInt32.ofNat i := by
      rw [UInt32.add_comm, UInt32.add_sub_cancel]
    have hbyte : (m.blit a bs) (a + UInt32.ofNat i) = bs[i] := by
      rw [Mem.blit, hsub, hi]
      exact (List.getElem_eq_getD _).symm
    simp only [Mem.read, Mem.ptr, Store.slice, List.getElem_map, List.getElem_range, Nat.zero_add]
    exact hbyte

/-- The first part of what was stored. -/
theorem Mem.read_blit_append (m : Mem) (a : UInt32) {bs cs : List UInt8}
    (h : bs.length + cs.length ≤ 2 ^ 32) : (m.blit a (bs ++ cs)).read a bs.length = bs := by
  rw [← List.length_append] at h
  have hread := Mem.read_blit m a h
  have htake := Store.slice_take ((m.blit a (bs ++ cs)).ptr a) 0
    (Nat.le_add_right bs.length cs.length)
  rw [Mem.read, List.length_append] at hread
  rw [Mem.read, ← htake, hread, List.take_left]

/-- Addresses at a distance of at least the length keep their bytes. -/
theorem Mem.blit_other (m : Mem) {a x : UInt32} {bs : List UInt8}
    (h : bs.length ≤ (x - a).toNat) : (m.blit a bs) x = m x := by
  simp [Mem.blit, List.getElem?_eq_none h]

/-- The byte at a position of a range. -/
theorem Mem.blit_at (m : Mem) (a : UInt32) (bs : List UInt8) {i : Nat} (h : i < 2 ^ 32) :
    (m.blit a bs) (a + UInt32.ofNat i) = bs.getD i (m (a + UInt32.ofNat i)) := by
  have hi : (a + UInt32.ofNat i - a).toNat = i := by
    rw [UInt32.add_comm, UInt32.add_sub_cancel, UInt32.toNat_ofNat']
    omega
  rw [Mem.blit, hi]

/-- Storing bytes behind those just stored. -/
theorem Mem.blit_append (m : Mem) (a : UInt32) {bs cs : List UInt8}
    (h : bs.length + cs.length ≤ 2 ^ 32) :
    (m.blit a bs).blit (a + UInt32.ofNat bs.length) cs = m.blit a (bs ++ cs) := by
  funext x
  have hx := (x - a).toNat_lt
  have hpos : (x - (a + UInt32.ofNat bs.length)).toNat =
      (2 ^ 32 - bs.length % 2 ^ 32 + (x - a).toNat) % 2 ^ 32 := by
    have ha := a.toNat_lt
    simp only [UInt32.toNat_sub, UInt32.toNat_add, UInt32.toNat_ofNat']
    omega
  simp only [Mem.blit, hpos]
  by_cases hin : (x - a).toNat < bs.length
  · rw [List.getD_append _ _ _ _ hin, List.getD_eq_default]
    omega
  · rw [List.getD_append_right _ _ _ _ (not_lt.mp hin),
      List.getD_eq_default bs _ (not_lt.mp hin)]
    congr 1
    omega

/-- Storing what is there. -/
theorem Mem.blit_read (m : Mem) (a : UInt32) {bs : List UInt8} (h : m.read a bs.length = bs) :
    m.blit a bs = m := by
  funext x
  have hx : a + (x - a) = x := by rw [UInt32.add_comm, UInt32.sub_add_cancel]
  by_cases hin : (x - a).toNat < bs.length
  · have hbyte : (m.read a bs.length).getD (x - a).toNat (m x) = m x := by
      simp [Mem.read, Mem.ptr, Store.slice, List.getD, hin, hx]
    rw [h] at hbyte
    exact hbyte
  · exact Mem.blit_other m (not_lt.mp hin)

/-- Data of 0xFF is in erased memory before it is stored. -/
theorem Mem.read_eq_of_erased {m : Mem} {address : UInt32} {data : List UInt8}
    (hdata : ∀ b ∈ data, b = 0xFF) (herased : ∀ b ∈ m.read address data.length, b = 0xFF) :
    m.read address data.length = data := by
  have hread := List.eq_replicate_of_mem herased
  rw [Mem.read, Store.slice_length] at hread
  rw [Mem.read, hread, ← List.eq_replicate_of_mem hdata]

/-- Symbols of a linker script: `flash_begin`, `config_page1`, `config_page2`,
    `application_address`, `application_size` and `flash_end`. -/
structure MemoryMap where
  flashBegin : UInt32
  config1 : UInt32
  config2 : UInt32
  app : UInt32
  appSize : UInt32
  flashEnd : UInt32
  flashBegin_lt : flashBegin < config1
  config1_lt : config1 < config2
  config2_lt : config2 < app
  app_end : app.toNat + appSize.toNat = flashEnd.toNat

/-! ## C strings -/

/-- A string literal, without its terminator. -/
def ascii (s : String) : List UInt8 := s.toList.map fun c => UInt8.ofNat c.toNat

/-- The string in a `char[64 + 1]` of `bootloader_config_t`. -/
def cString (s : Store) : List UInt8 := (s.slice 0 65).takeWhile (· ≠ 0)

/-- `strcmp(s, t) == 0`, for a terminated string `t`. -/
def strcmpEq (s : Store) (t : List UInt8) : Bool := s.slice 0 (t.length + 1) == t ++ [0]

/-! ## Configuration -/

/-- `bootloader_config_t`. -/
structure BootloaderConfig where
  ID : UInt8
  boardName : Store
  deviceClass : Store
  applicationCrc : UInt32
  applicationSize : UInt32
  updateCount : UInt32
  bootloaderCommit : List UInt8
  bootloaderVersion : List UInt8

/-! ## Build -/

/-- A build of the firmware: memory map, macros and packages. -/
structure Firmware extends MemoryMap where
  configPageSize : Nat
  flashEraseRetries : UInt8
  inputBufferSize : Nat
  outputBufferSize : Nat
  bootloaderTimeoutMs : UInt32
  datagramTimeoutMs : UInt32
  bootloaderTimeoutDisable : Bool
  addressBoundaryCheckDisabled : Bool
  commandJumpDisableCrcChecking : Bool
  platformDeviceClass : List UInt8
  platformDefaultName : List UInt8
  platformDefaultId : UInt8
  bootloaderCommit : List UInt8
  bootloaderVersion : List UInt8
  cmp : Cmp
  crc32 : CrcFn
  /-- A page holds the CRC and at least one byte, and ends before the next region. -/
  configPageSize_gt : 4 < configPageSize
  config1_end : config1.toNat + configPageSize ≤ config2.toNat
  config2_end : config2.toNat + configPageSize ≤ app.toNat
  inputBufferSize_pos : 0 < inputBufferSize
  inputBufferSize_lt : inputBufferSize < 2 ^ 32
  outputBufferSize_lt : outputBufferSize < 2 ^ 31

/-! ## Calls -/

/-- The calls out of the portable code. -/
inductive Call where
  | flashWriterUnlock
  | flashWriterLock
  | flashWriterPageErase (page : UInt32)
  | flashWriterPageWrite (page : UInt32) (data : List UInt8)
  | memory
  | rebootSystem (arg : UInt8)
  deriving DecidableEq, Repr

/-- Reading memory gives its contents; a reboot does not return. -/
abbrev Call.Resp : Call → Type
  | .memory => Mem
  | .rebootSystem _ => Empty
  | _ => Unit

/-- Code of the firmware. -/
abbrev Code := Prog Call Call.Resp

def flashWriterUnlock : Code Unit := .call .flashWriterUnlock .ret

def flashWriterLock : Code Unit := .call .flashWriterLock .ret

def flashWriterPageErase (page : UInt32) : Code Unit := .call (.flashWriterPageErase page) .ret

def flashWriterPageWrite (page : UInt32) (data : List UInt8) : Code Unit :=
  .call (.flashWriterPageWrite page data) .ret

/-- The contents of memory at this moment. -/
def readMemory : Code Mem := .call .memory .ret

def rebootSystem {α : Type} (arg : UInt8) : Code α := .call (.rebootSystem arg) Empty.elim

/-- `flash_page_is_erased`. -/
def flashPageIsErased (m : Mem) (address size : UInt32) : Bool :=
  (m.read address size.toNat).all (· == 0xFF)

/-- The bytes of a range. -/
theorem Mem.mem_read {m : Mem} {a : UInt32} {len i : Nat} (h : i < len) :
    m (a + UInt32.ofNat i) ∈ m.read a len := by
  simp only [Mem.read, Mem.ptr, Store.slice, List.mem_map, List.mem_range, Nat.zero_add]
  exact ⟨i, h, rfl⟩

theorem flashPageIsErased_iff {m : Mem} {address size : UInt32} :
    flashPageIsErased m address size = true ↔
      ∀ i < size.toNat, m (address + UInt32.ofNat i) = 0xFF := by
  simp [flashPageIsErased, Mem.read, Mem.ptr, Store.slice]

/-! ## Boards -/

/-- platform/nucleo-board-stm32f446re. -/
def nucleoBoardStm32f446re : MemoryMap where
  flashBegin := 0x08000000
  config1 := 0x08008000
  config2 := 0x0800C000
  app := 0x08010000
  appSize := 0x70000
  flashEnd := 0x08080000
  flashBegin_lt := by decide
  config1_lt := by decide
  config2_lt := by decide
  app_end := by decide

/-- platform/olimex-e407. -/
def olimexE407 : MemoryMap where
  flashBegin := 0x08000000
  config1 := 0x08004000
  config2 := 0x08008000
  app := 0x0800C000
  appSize := 0xF4000
  flashEnd := 0x08100000
  flashBegin_lt := by decide
  config1_lt := by decide
  config2_lt := by decide
  app_end := by decide

/-- platform/uwb-beacon, with the same layout. -/
def uwbBeacon : MemoryMap := olimexE407

/-- The firmware of the Nucleo board with its `platform_config.h`, and packages that behave as
    documented. -/
def nucleoFirmware : Firmware where
  toMemoryMap := nucleoBoardStm32f446re
  configPageSize := 512
  flashEraseRetries := 20
  inputBufferSize := 32768
  outputBufferSize := 8192
  bootloaderTimeoutMs := 4000
  datagramTimeoutMs := 500
  bootloaderTimeoutDisable := false
  addressBoundaryCheckDisabled := false
  commandJumpDisableCrcChecking := false
  platformDeviceClass := ascii "nucleo-board-stm32f446re"
  platformDefaultName := ascii "undefined"
  platformDefaultId := 1
  bootloaderCommit := ascii "undefined"
  bootloaderVersion := ascii "undefined"
  cmp := .reference
  crc32 := fun crc buf => Zlib.crc32 buf crc
  configPageSize_gt := by decide
  config1_end := by decide
  config2_end := by decide
  inputBufferSize_pos := by decide
  inputBufferSize_lt := by decide
  outputBufferSize_lt := by decide

end CanBootloader
