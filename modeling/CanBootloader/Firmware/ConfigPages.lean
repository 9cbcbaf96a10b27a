/-
  config.c: what `config_write` stores is what `config_read` loads.

  The writer emits eight keys, of which the reader knows six. It reads the commit of the build as
  another key, and its rounds are over before it gets to the version, so the map is not read to its
  end (`unknown_string_loses`). What is read up to there is the configuration
  (`config_page_round_trip`).
-/
import CanBootloader.Firmware.ConfigUpdate

namespace CanBootloader

open Lib

/-! ## The written map -/

/-- A configuration within the limits of its fields, of a build with short strings. -/
structure Storable (config : BootloaderConfig) : Prop where
  boardName_le : (cString config.boardName).length ≤ 64
  deviceClass_le : (cString config.deviceClass).length ≤ 64
  commit_le : config.bootloaderCommit.length ≤ 40
  version_le : config.bootloaderVersion.length ≤ 40

/-- An entry in standard encoding. -/
def ConfigEntry.written (key value : List UInt8) (hkey : key.length < 64)
    (hvalue : Msgpack.Objects 1 value) : ConfigEntry where
  keyBytes := Msgpack.strHeader key.length ++ key
  key := key
  value := value
  key_str := by
    have hstr := Msgpack.str?_encode (show key.length < 2 ^ 32 by omega) []
    rwa [List.append_nil] at hstr
  key_lt := hkey
  value_object := hvalue

/-- The same with a key that the reader knows. -/
def ConfigEntry.known (k : ConfigKey) (value : List UInt8) (hvalue : Msgpack.Objects 1 value) :
    ConfigEntry :=
  .written k.name value k.name_length_lt hvalue

/-- A string with its header. -/
def strBytes (s : List UInt8) : List UInt8 := Msgpack.strHeader s.length ++ s

theorem objects_strBytes {s : List UInt8} (h : s.length ≤ 64) : Msgpack.Objects 1 (strBytes s) :=
  Msgpack.objects_str (by omega)

theorem strBytes_length_le {s : List UInt8} {n : Nat} (h : s.length ≤ n) (hn : n < 2 ^ 8) :
    (strBytes s).length ≤ n + 2 := by
  have hheader := Msgpack.strHeader_length_le (show s.length < 2 ^ 8 by omega)
  rw [strBytes, List.length_append]
  omega

/-- A byte with its marker. -/
def u8Bytes (v : UInt8) : List UInt8 := [0xcc, v]

theorem objects_u8Bytes (v : UInt8) : Msgpack.Objects 1 (u8Bytes v) :=
  Msgpack.objects_one (show Msgpack.head? [0xcc, v] = some ([v].length, 0, [v]) from rfl)

variable {config : BootloaderConfig} (h : Storable config)

/-- The entries with keys that the reader knows. -/
def knownEntries : List ConfigEntry :=
  [.known .ID (u8Bytes config.ID) (objects_u8Bytes config.ID),
   .known .boardName (strBytes (cString config.boardName)) (objects_strBytes h.boardName_le),
   .known .deviceClass (strBytes (cString config.deviceClass)) (objects_strBytes h.deviceClass_le),
   .known .applicationCrc (Msgpack.uint config.applicationCrc.toNat) Msgpack.objects_uint,
   .known .applicationSize (Msgpack.uint config.applicationSize.toNat) Msgpack.objects_uint,
   .known .updateCount (Msgpack.uint config.updateCount.toNat) Msgpack.objects_uint]

def commitEntry : ConfigEntry :=
  .written configKeyBootloaderCommit (strBytes config.bootloaderCommit) (by decide)
    (objects_strBytes (h.commit_le.trans (by decide)))

def versionEntry : ConfigEntry :=
  .written configKeyBootloaderVersion (strBytes config.bootloaderVersion) (by decide)
    (objects_strBytes (h.version_le.trans (by decide)))

def writtenMap : ConfigMap where
  format := .fixmap
  entries := knownEntries h ++ [commitEntry h, versionEntry h]
  fits := show 8 < 16 by decide

theorem writtenMap_length_le : (writtenMap h).bytes.length ≤ 400 := by
  have hname := strBytes_length_le h.boardName_le (by decide)
  have hclass := strBytes_length_le h.deviceClass_le (by decide)
  have hcommit := strBytes_length_le h.commit_le (by decide)
  have hversion := strBytes_length_le h.version_le (by decide)
  have hcrc := Msgpack.uint_length_le_of_lt config.applicationCrc.toNat_lt
  have hsize := Msgpack.uint_length_le_of_lt config.applicationSize.toNat_lt
  have hcount := Msgpack.uint_length_le_of_lt config.updateCount.toNat_lt
  have hkeys : ∀ s ∈ [configKeyId, configKeyBoardName, configKeyDeviceClass,
      configKeyApplicationCrc, configKeyApplicationSize, configKeyUpdateCount,
      configKeyBootloaderCommit, configKeyBootloaderVersion], (strBytes s).length ≤ 19 := by decide
  simp only [List.forall_mem_cons, List.not_mem_nil, false_imp_iff, implies_true, and_true,
    strBytes] at hkeys
  simp only [ConfigMap.bytes, writtenMap, knownEntries, commitEntry, versionEntry,
    ConfigEntry.bytes, ConfigEntry.known, ConfigEntry.written, ConfigKey.name,
    List.flatMap_append, List.flatMap_cons, List.flatMap_nil, List.append_nil, List.length_append,
    u8Bytes, List.length_cons, List.length_nil, Msgpack.MapFormat.header] at *
  omega

variable {fw : Firmware}

/-- Eight keys and their values, one behind the other. -/
theorem appends_configWriteMessagepack (hwrite : WriteLaw fw.cmp) (hmap : WriteMapLaw fw.cmp) :
    Appends (fun w => configWriteMessagepack fw w config) (writtenMap h).bytes := by
  have hstr := hmap.writeStr
  have huint : ∀ n : UInt32, Appends (fw.cmp.writeUint · n.toUInt64) (Msgpack.uint n.toNat) :=
    fun n w hw => hwrite.writeUint w n.toUInt64 hw
  have hall := (hmap.writeMap 8).comp <| (hstr configKeyId).comp <|
    (hmap.writeU8 config.ID).comp <| (hstr configKeyBoardName).comp <|
    (hstr (cString config.boardName)).comp <| (hstr configKeyDeviceClass).comp <|
    (hstr (cString config.deviceClass)).comp <| (hstr configKeyApplicationCrc).comp <|
    (huint config.applicationCrc).comp <| (hstr configKeyApplicationSize).comp <|
    (huint config.applicationSize).comp <| (hstr configKeyUpdateCount).comp <|
    (huint config.updateCount).comp <| (hstr configKeyBootloaderCommit).comp <|
    (hstr config.bootloaderCommit).comp <| (hstr configKeyBootloaderVersion).comp <|
    hstr config.bootloaderVersion
  refine Eq.mp (congrArg (Appends _) ?_) hall
  simp only [ConfigMap.bytes, writtenMap, knownEntries, commitEntry, versionEntry,
    ConfigEntry.bytes, ConfigEntry.known, ConfigEntry.written, ConfigKey.name, strBytes, u8Bytes,
    List.flatMap_append, List.flatMap_cons, List.flatMap_nil, List.append_assoc, List.append_nil]
  rfl

/-! ## What is read back -/

/-- The stored parts of two configurations are the same. -/
def SameStored (a b : BootloaderConfig) : Prop :=
  a.ID = b.ID ∧ cString a.boardName = cString b.boardName ∧
    cString a.deviceClass = cString b.deviceClass ∧ a.applicationCrc = b.applicationCrc ∧
    a.applicationSize = b.applicationSize ∧ a.updateCount = b.updateCount

theorem ConfigEntry.applied?_known {k : ConfigKey} {value : List UInt8}
    {hvalue : Msgpack.Objects 1 value} {v : ConfigValue} (hv : k.value? value = some v)
    (old : BootloaderConfig) :
    (ConfigEntry.known k value hvalue).applied? old = some (k.set old v) := by
  simp [ConfigEntry.applied?, ConfigEntry.configKey?, ConfigEntry.known, ConfigEntry.written,
    ConfigKey.ofString?_name, hv]

theorem uint?_uint32 (n : UInt32) : Msgpack.uint? 4 (Msgpack.uint n.toNat) = some (n.toNat, []) := by
  have hn := Msgpack.uint?_uint (w := 4) (by simp) (show n.toNat < 256 ^ 4 from n.toNat_lt) []
  rwa [List.append_nil] at hn

theorem str?_strBytes {s : List UInt8} (hs : s.length ≤ 64) :
    Msgpack.str? (strBytes s) = some (s, []) := by
  have hstr := Msgpack.str?_encode (show s.length < 2 ^ 32 by omega) []
  rwa [List.append_nil] at hstr

/-- A string in a field of the configuration. -/
theorem cString_blit_beforeNul {s : List UInt8} (hlen : s.length ≤ 64) (old : Store) :
    cString (old.blit 0 (s ++ [0])) = beforeNul s := by
  have hsize : 65 = (s ++ [0]).length + (64 - s.length) := by
    rw [List.length_append, List.length_singleton]
    omega
  have hfront : (old.blit 0 (s ++ [0])).slice 0 (s ++ [0]).length = s ++ [0] :=
    Store.slice_blit _ _ _
  rw [cString, hsize, ← Store.slice_append, hfront, List.append_assoc, List.singleton_append]
  exact beforeNul_append s _

theorem cString_blit {s : List UInt8} (hnul : 0 ∉ s) (hlen : s.length ≤ 64) (old : Store) :
    cString (old.blit 0 (s ++ [0])) = s := by
  rw [cString_blit_beforeNul hlen, beforeNul_eq_self hnul]

/-- The entries that the reader knows, applied to what was in the structure before. -/
theorem applyAll_knownEntries (old : BootloaderConfig) :
    ∃ config', applyAll old (knownEntries h) = some config' ∧ SameStored config' config := by
  have hstring : ∀ (k : ConfigKey) {s : List UInt8}, k = .boardName ∨ k = .deviceClass →
      s.length ≤ 64 → k.value? (strBytes s) = some (.string s) := by
    intro k s hk hs
    have hlt : s.length < 65 := by omega
    rcases hk with rfl | rfl
    · simp [ConfigKey.value?, str?_strBytes hs, hlt]
    · simp [ConfigKey.value?, str?_strBytes hs, hlt]
  have hnumber : ∀ (k : ConfigKey) (n : UInt32), k = .applicationCrc ∨ k = .applicationSize ∨
      k = .updateCount → k.value? (Msgpack.uint n.toNat) = some (.number n.toNat) := by
    rintro k n (rfl | rfl | rfl) <;> simp [ConfigKey.value?, uint?_uint32]
  have hid : ConfigKey.ID.value? (u8Bytes config.ID) = some (.number config.ID.toNat) := by
    simp [ConfigKey.value?, u8Bytes, Msgpack.uint?, Msgpack.number?, Msgpack.take?,
      Msgpack.ofBytes]
  simp only [applyAll, knownEntries, List.foldlM_cons, List.foldlM_nil,
    ConfigEntry.applied?_known hid,
    ConfigEntry.applied?_known (hstring .boardName (by simp) h.boardName_le),
    ConfigEntry.applied?_known (hstring .deviceClass (by simp) h.deviceClass_le),
    ConfigEntry.applied?_known (hnumber .applicationCrc config.applicationCrc (by simp)),
    ConfigEntry.applied?_known (hnumber .applicationSize config.applicationSize (by simp)),
    ConfigEntry.applied?_known (hnumber .updateCount config.updateCount (by simp)),
    Option.bind_eq_bind, Option.bind_some]
  refine ⟨_, rfl, UInt8.ofNat_toNat, ?_, ?_, UInt32.ofNat_toNat, UInt32.ofNat_toNat,
    UInt32.ofNat_toNat⟩
  · exact cString_blit (nul_notMem_cString _) h.boardName_le _
  · exact cString_blit (nul_notMem_cString _) h.deviceClass_le _

/-! ## Pages -/

variable (fw) in
/-- `config_write` on a page in memory. -/
def writeConfigPage (m : Mem) (page : UInt32) (config : BootloaderConfig) (pageSize : Nat) : Mem :=
  m.blit page ((configWrite fw (m.ptr page) config pageSize).slice 0 pageSize)

/-- What is behind the CRC of a written page: the map, and the rest of the page. -/
theorem configWrite_rest (hwrite : WriteLaw fw.cmp) (hmap : WriteMapLaw fw.cmp) (buffer : Store)
    {pageSize : Nat} (hsize : 512 ≤ pageSize) :
    ∃ t, (configWrite fw buffer config pageSize).slice 4 (pageSize - 4) =
      (writtenMap h).bytes ++ t := by
  have hlen := writtenMap_length_le h
  let context := CmpWriter.init (fun i => buffer (i + 4)) (pageSize - 4)
  have hput : configWriteMessagepack fw context config = context.put (writtenMap h).bytes :=
    appends_configWriteMessagepack h hwrite hmap context (by
      show 0 + (writtenMap h).bytes.length ≤ pageSize - 4
      omega)
  have hbehind : (configWrite fw buffer config pageSize).slice 4 (pageSize - 4) =
      (context.put (writtenMap h).bytes).buf.slice 0 (pageSize - 4) := by
    rw [← hput, ← Store.slice_shift]
    apply Store.slice_congr
    intro i _
    rw [configWrite, Store.blit_ge _ _ _ _ (by rw [be32_length]; omega), configWriteMap]
    simp only [Nat.zero_add, Nat.add_sub_cancel]
    rw [if_neg (by omega)]
  have hsplit : pageSize - 4 = (writtenMap h).bytes.length +
      (pageSize - 4 - (writtenMap h).bytes.length) := by omega
  have hfront : (context.put (writtenMap h).bytes).buf.slice 0 (writtenMap h).bytes.length =
      (writtenMap h).bytes := Store.slice_blit _ _ _
  rw [hbehind, hsplit, ← Store.slice_append, hfront]
  exact ⟨_, rfl⟩

/-- A configuration that is written to a page is valid there, and read back. -/
theorem config_page_round_trip (fw : Firmware) (hread : ReadLaw fw.cmp) (hstr : ReadStrLaw fw.cmp)
    (hwrite : WriteLaw fw.cmp) (hmap : WriteMapLaw fw.cmp) (config : BootloaderConfig)
    (h : Storable config) (hcommit : ConfigKey.ofString? config.bootloaderCommit = none) (m : Mem)
    (page : UInt32) (hflash : fw.flashBegin ≤ page ∧ page ≤ fw.flashEnd) (pageSize : Nat)
    (hsize : 512 ≤ pageSize) (hsize32 : pageSize < 2 ^ 32) (l : Locals) :
    configIsValid fw (writeConfigPage fw m page config pageSize) page pageSize = true ∧
      SameStored (configRead fw l ((writeConfigPage fw m page config pageSize).ptr page) pageSize)
        config := by
  have hpage : (writeConfigPage fw m page config pageSize).read page pageSize =
      (configWrite fw (m.ptr page) config pageSize).slice 0 pageSize := by
    have hblit := Mem.read_blit m page
      (show ((configWrite fw (m.ptr page) config pageSize).slice 0 pageSize).length ≤ 2 ^ 32 by
        rw [Store.slice_length]
        omega)
    rwa [Store.slice_length] at hblit
  refine ⟨configIsValid_written fw (by omega) ?_ hpage, ?_⟩
  · rw [not_or, gt_iff_lt, UInt32.not_lt, UInt32.not_lt]
    exact hflash
  · obtain ⟨t, ht⟩ := configWrite_rest h hwrite hmap (m.ptr page) hsize
    obtain ⟨config', happly, hsame⟩ := applyAll_knownEntries h l.config
    have hcontext : (CmpReader.init
        (fun i => (writeConfigPage fw m page config pageSize).ptr page (i + 4))
        (pageSize - 4)).rest = (writtenMap h).bytes ++ t := by
      rw [← ht, CmpReader.rest_init, Store.slice_shift]
      apply Store.slice_congr
      intro i hi
      have hbyte := Store.slice_eq_iff.mp hpage (4 + i) (by omega)
      rwa [Nat.zero_add] at hbyte
    -- the commit is read as a key
    have hunknown : (commitEntry h).configKey? = none :=
      show ConfigKey.ofString? configKeyBootloaderCommit = none by decide
    have hlen := h.commit_le
    have hloop := unknown_string_loses hread hstr l hcontext
      (show (writtenMap h).entries = knownEntries h ++ [commitEntry h, versionEntry h] from rfl)
      happly hunknown (str?_strBytes (by omega)) (by omega) hcommit
    rw [configRead, hloop]
    exact hsame

/-- The default configuration in page 1 of the Nucleo board. -/
theorem config_page_round_trip_default :
    configIsValid nucleoFirmware (writeConfigPage nucleoFirmware (fun _ => 0xFF)
        nucleoFirmware.config1 blankConfig 512) nucleoFirmware.config1 512 = true ∧
      SameStored (configRead nucleoFirmware blankLocals
        ((writeConfigPage nucleoFirmware (fun _ => 0xFF) nucleoFirmware.config1 blankConfig
          512).ptr nucleoFirmware.config1) 512) blankConfig :=
  config_page_round_trip nucleoFirmware Cmp.reference_read Cmp.reference_readStr
    Cmp.reference_write Cmp.reference_writeMap blankConfig
    ⟨by decide, by decide, by decide, by decide⟩ (by decide) _ _ (by decide) 512 (by decide)
    (by decide) blankLocals

end CanBootloader
