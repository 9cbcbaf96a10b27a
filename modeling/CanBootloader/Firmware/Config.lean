/-
  config.c: configuration pages.

  A page is a big-endian CRC-32, then the configuration as a MessagePack map, up to the page
  size. `config_update_from_serialized` reads such a map key by key; its `key` buffer, and the
  structure that `config_read` returns, are not initialised, so both are arguments
  (`Locals`). The build is the one without `CONFIG_APPLICATION_AS_STRUCT`.

  * `configIsValid_congr`: validity depends on the bytes of the page only.
  * `configIsValid_of_write`: what `config_write` produces is a valid page.
-/
import CanBootloader.Firmware.Platform
import CanBootloader.Firmware.Reader

namespace CanBootloader

open Lib

/-- What the uninitialised locals of the firmware hold when their function is entered. -/
structure Locals where
  deviceClass : Store
  key : Store
  tmp : UInt64
  size : UInt32
  commandVersion : Int
  config : BootloaderConfig

variable (fw : Firmware)

/-! ## Checksum -/

def configCalculateCrc (page : Store) (pageSize : Nat) : UInt32 :=
  fw.crc32 0 (page.slice 4 (pageSize - 4))

def configReadCrc (page : Store) : UInt32 :=
  (page 0).toUInt32 <<< 24 ||| (page 1).toUInt32 <<< 16 ||| (page 2).toUInt32 <<< 8 |||
    (page 3).toUInt32

def configIsValid (m : Mem) (page : UInt32) (pageSize : Nat) : Bool :=
  if !fw.addressBoundaryCheckDisabled && (page < fw.flashBegin || page > fw.flashEnd) then false
  else configReadCrc (m.ptr page) == configCalculateCrc fw (m.ptr page) pageSize

/-! ## Serialisation -/

def configKeyId : List UInt8 := ascii "ID"
def configKeyBoardName : List UInt8 := ascii "name"
def configKeyDeviceClass : List UInt8 := ascii "device_class"
def configKeyApplicationCrc : List UInt8 := ascii "application_crc"
def configKeyApplicationSize : List UInt8 := ascii "application_size"
def configKeyUpdateCount : List UInt8 := ascii "update_count"
def configKeyBootloaderCommit : List UInt8 := ascii "bootloader_commit"
def configKeyBootloaderVersion : List UInt8 := ascii "bootloader_version"

def configWriteMessagepack (context : CmpWriter) (config : BootloaderConfig) : CmpWriter :=
  let w := fw.cmp.writeMap context 8
  let w := fw.cmp.writeStr w configKeyId
  let w := fw.cmp.writeU8 w config.ID
  let w := fw.cmp.writeStr w configKeyBoardName
  let w := fw.cmp.writeStr w (cString config.boardName)
  let w := fw.cmp.writeStr w configKeyDeviceClass
  let w := fw.cmp.writeStr w (cString config.deviceClass)
  let w := fw.cmp.writeStr w configKeyApplicationCrc
  let w := fw.cmp.writeUint w config.applicationCrc.toUInt64
  let w := fw.cmp.writeStr w configKeyApplicationSize
  let w := fw.cmp.writeUint w config.applicationSize.toUInt64
  let w := fw.cmp.writeStr w configKeyUpdateCount
  let w := fw.cmp.writeUint w config.updateCount.toUInt64
  let w := fw.cmp.writeStr w configKeyBootloaderCommit
  let w := fw.cmp.writeStr w config.bootloaderCommit
  let w := fw.cmp.writeStr w configKeyBootloaderVersion
  fw.cmp.writeStr w config.bootloaderVersion

/-- The buffer of `config_write` once the map is behind its first four bytes. -/
def configWriteMap (buffer : Store) (config : BootloaderConfig) (bufferSize : Nat) : Store :=
  let context := .init (fun i => buffer (i + 4)) (bufferSize - 4)
  let w := configWriteMessagepack fw context config
  fun i => if i < 4 then buffer i else w.buf (i - 4)

/-- `config_write`: the CRC of the rest of the page goes to the first four bytes. -/
def configWrite (buffer : Store) (config : BootloaderConfig) (bufferSize : Nat) : Store :=
  let p := configWriteMap fw buffer config bufferSize
  p.blit 0 (be32 (configCalculateCrc fw p bufferSize))

/-! ## Parsing -/

/-- The value of a key: one comparison for each known key, as many bytes read as its type
    takes. -/
def configUpdateKey (key : Store) (config : BootloaderConfig) (context : CmpReader) :
    BootloaderConfig × CmpReader :=
  let (config, context) :=
    if strcmpEq key configKeyId then
      let r := fw.cmp.readUchar context config.ID
      ({ config with ID := r.value }, r.reader)
    else (config, context)
  let (config, context) :=
    if strcmpEq key configKeyBoardName then
      let r := fw.cmp.readStr context config.boardName 65
      ({ config with boardName := r.data }, r.reader)
    else (config, context)
  let (config, context) :=
    if strcmpEq key configKeyDeviceClass then
      let r := fw.cmp.readStr context config.deviceClass 65
      ({ config with deviceClass := r.data }, r.reader)
    else (config, context)
  let (config, context) :=
    if strcmpEq key configKeyApplicationCrc then
      let r := fw.cmp.readUint context config.applicationCrc
      ({ config with applicationCrc := r.value }, r.reader)
    else (config, context)
  let (config, context) :=
    if strcmpEq key configKeyApplicationSize then
      let r := fw.cmp.readUint context config.applicationSize
      ({ config with applicationSize := r.value }, r.reader)
    else (config, context)
  if strcmpEq key configKeyUpdateCount then
    let r := fw.cmp.readUint context config.updateCount
    ({ config with updateCount := r.value }, r.reader)
  else (config, context)

/-- `while (key_count--)`, with the key buffer left by the previous round. -/
def configUpdateLoop : Nat → Store → BootloaderConfig → CmpReader → BootloaderConfig
  | 0, _, config, _ => config
  | keyCount + 1, key, config, context =>
      let s := fw.cmp.readStr context key 64
      let key := s.data.write s.size.toNat 0
      let (config, context) := configUpdateKey fw key config s.reader
      configUpdateLoop keyCount key config context

def configUpdateFromSerialized (l : Locals) (config : BootloaderConfig) (context : CmpReader) :
    BootloaderConfig :=
  let r := fw.cmp.readMap context 0
  configUpdateLoop fw r.value.toNat l.key config r.reader

/-- `config_read`, on the uninitialised `result`. -/
def configRead (l : Locals) (buffer : Store) (bufferSize : Nat) : BootloaderConfig :=
  configUpdateFromSerialized fw l l.config
    (.init (fun i => buffer (i + 4)) (bufferSize - 4))

/-! ## Validity -/

/-- The CRC field is a big-endian word. -/
theorem configReadCrc_eq {page : Store} {x : UInt32} (h : page.slice 0 4 = be32 x) :
    configReadCrc page = x := by
  have hx := x.toNat_lt
  simp only [Store.slice_succ, Store.slice_zero, Nat.zero_add, be32, List.cons.injEq] at h
  obtain ⟨h0, h1, h2, h3, -⟩ := h
  apply UInt32.toNat.inj
  rw [configReadCrc, word_of_bytes, h0, h1, h2, h3]
  simp only [UInt32.toNat_toUInt8, UInt32.toNat_shiftRight, UInt32.reduceToNat,
    Nat.shiftRight_eq_div_pow, Nat.reduceMod, Nat.reducePow]
  omega

/-- Validity of a page is a matter of its bytes. -/
theorem configIsValid_congr {m m' : Mem} {page : UInt32} {pageSize : Nat} (h4 : 4 ≤ pageSize)
    (h : m.read page pageSize = m'.read page pageSize) :
    configIsValid fw m page pageSize = configIsValid fw m' page pageSize := by
  have hbyte : ∀ i, i < pageSize → m.ptr page i = m'.ptr page i := by
    intro i hi
    simpa using Store.slice_eq_iff.mp h i hi
  have hcrc : configReadCrc (m.ptr page) = configReadCrc (m'.ptr page) := by
    simp only [configReadCrc, hbyte 0 (by omega), hbyte 1 (by omega), hbyte 2 (by omega),
      hbyte 3 (by omega)]
  have hcalc : configCalculateCrc fw (m.ptr page) pageSize =
      configCalculateCrc fw (m'.ptr page) pageSize := by
    unfold configCalculateCrc
    rw [Store.slice_congr fun i hi => hbyte (4 + i) (by omega)]
  rw [configIsValid, configIsValid, hcrc, hcalc]

/-- The address check lets both configuration pages through. -/
theorem config_in_flash {page : UInt32} (h : page = fw.config1 ∨ page = fw.config2) :
    ¬ (page < fw.flashBegin ∨ page > fw.flashEnd) := by
  have h0 := UInt32.lt_iff_toNat_lt.mp fw.flashBegin_lt
  have h1 := UInt32.lt_iff_toNat_lt.mp fw.config1_lt
  have h2 := UInt32.lt_iff_toNat_lt.mp fw.config2_lt
  have h3 := fw.app_end
  rw [gt_iff_lt, UInt32.lt_iff_toNat_lt, UInt32.lt_iff_toNat_lt]
  rcases h with rfl | rfl
  · omega
  · omega

/-- A page inside flash memory is valid with the CRC of its contents in front. -/
theorem configIsValid_crc {m : Mem} {page : UInt32} {pageSize : Nat} (hsize : 4 ≤ pageSize)
    (hflash : ¬ (page < fw.flashBegin ∨ page > fw.flashEnd)) {p : Store}
    (h : m.read page pageSize =
      (p.blit 0 (be32 (configCalculateCrc fw p pageSize))).slice 0 pageSize) :
    configIsValid fw m page pageSize = true := by
  generalize hcrc : configCalculateCrc fw p pageSize = crc at h
  have hbyte : ∀ i, i < pageSize → m.ptr page i = p.blit 0 (be32 crc) i := by
    intro i hi
    simpa using Store.slice_eq_iff.mp h i hi
  have hread : configReadCrc (m.ptr page) = crc := by
    apply configReadCrc_eq
    have hfield : (m.ptr page).slice 0 4 = (p.blit 0 (be32 crc)).slice 0 4 := by
      apply Store.slice_congr
      intro i hi
      rw [Nat.zero_add]
      exact hbyte i (by omega)
    rw [hfield]
    exact Store.slice_blit (be32 crc) p 0
  have hcalc : configCalculateCrc fw (m.ptr page) pageSize = crc := by
    have hrest : (m.ptr page).slice 4 (pageSize - 4) = p.slice 4 (pageSize - 4) := by
      apply Store.slice_congr
      intro i hi
      rw [hbyte (4 + i) (by omega), Store.blit_ge _ _ _ _ (by simp)]
    rw [configCalculateCrc, hrest, ← hcrc, configCalculateCrc]
  rw [configIsValid, hread, hcalc]
  simp [not_or.mp hflash]

/-- So is one that holds what `config_write` produced. -/
theorem configIsValid_written {m : Mem} {page : UInt32} {pageSize : Nat} (hsize : 4 ≤ pageSize)
    (hflash : ¬ (page < fw.flashBegin ∨ page > fw.flashEnd)) {buffer : Store}
    {config : BootloaderConfig}
    (h : m.read page pageSize = (configWrite fw buffer config pageSize).slice 0 pageSize) :
    configIsValid fw m page pageSize = true :=
  configIsValid_crc fw hsize hflash h

/-- So is a configuration page that holds it. -/
theorem configIsValid_of_write {m : Mem} {page : UInt32}
    (hpage : page = fw.config1 ∨ page = fw.config2) {buffer : Store} {config : BootloaderConfig}
    (h : m.read page fw.configPageSize =
      (configWrite fw buffer config fw.configPageSize).slice 0 fw.configPageSize) :
    configIsValid fw m page fw.configPageSize = true :=
  configIsValid_written fw fw.configPageSize_gt.le (config_in_flash fw hpage) h

end CanBootloader
