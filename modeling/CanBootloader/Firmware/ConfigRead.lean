/-
  config.c: what `config_read` makes of a page.

  The structure that it returns is not initialised, and the parser stores a field only where a
  round meets its key with a value that the reader takes. So a page determines the configuration if
  that happens to every field, and otherwise, valid or not, it leaves a field to what was on the
  stack (`config_read_determined_iff`).
-/
import CanBootloader.Firmware.LastWriter
import CanBootloader.Firmware.ParserTrace

namespace CanBootloader

open Lib

variable (fw : Firmware)

/-! ## Assignments of a page -/

/-- The value that the reader of a key takes, if it does; strings up to their first NUL. -/
def ConfigKey.delivered? (context : CmpReader) : ConfigKey → Option ConfigValue
  | ID =>
      let r := fw.cmp.readUchar context 0
      if r.ok then some (.number r.value.toNat) else none
  | boardName | deviceClass =>
      let r := fw.cmp.readStr context (fun _ => 0) 65
      if r.ok then some (.string (cString r.data)) else none
  | applicationCrc | applicationSize | updateCount =>
      let r := fw.cmp.readUint context 0
      if r.ok then some (.number r.value.toNat) else none

/-- The assignment of a round with this key. -/
def ConfigKey.assigned (context : CmpReader) (k : ConfigKey) : List Assignment :=
  (k.delivered? fw context).toList.map fun v => (k, v)

/-- The assignments of the rounds. After a failed read the round has the key that the buffer still
    holds. -/
def assignmentsRead : Nat → Store → CmpReader → List Assignment
  | 0, _, _ => []
  | keyCount + 1, key, context =>
      let s := fw.cmp.readStr context key 64
      let key := s.data.write s.size.toNat 0
      match ConfigKey.ofString? (key.slice 0 64) with
      | some k => k.assigned fw s.reader ++ assignmentsRead keyCount key (k.behind fw s.reader)
      | none => assignmentsRead keyCount key s.reader

/-- Those of the map in front of a reader. -/
def updateAssignments (key : Store) (context : CmpReader) : List Assignment :=
  let r := fw.cmp.readMap context 0
  assignmentsRead fw r.value.toNat key r.reader

/-- Those of a page. -/
def pageAssignments (key page : Store) (pageSize : Nat) : List Assignment :=
  updateAssignments fw key (.init (fun i => page (i + 4)) (pageSize - 4))

/-! ## The parser -/

variable {fw}

theorem strcmpEq_buffer (key : Store) (k : ConfigKey) :
    strcmpEq key k.name = true ↔ ConfigKey.ofString? (key.slice 0 64) = some k := by
  have hlen := k.name_length_lt
  rw [ConfigKey.ofString?_eq_some,
    beforeNul_eq_iff k.nul_notMem_name (by rwa [Store.slice_length]),
    Store.slice_take _ _ (by omega), strcmpEq, beq_iff_eq]

theorem ConfigKey.get_read (hfail : ReadOrFailLaw fw.cmp) (config : BootloaderConfig)
    (context : CmpReader) (k : ConfigKey) :
    k.get (k.read fw config context).1 = (k.delivered? fw context).getD (k.get config) := by
  have hstring : ∀ old : Store, cString (fw.cmp.readStr context old 65).data =
      if (fw.cmp.readStr context (fun _ => 0) 65).ok then
        cString (fw.cmp.readStr context (fun _ => 0) 65).data else cString old := by
    intro old
    obtain ⟨size, r, ⟨s, hlen, hs⟩ | hs⟩ := hfail.readStr context 65
    · have hle : s.length ≤ 64 := Nat.lt_succ_iff.mp hlen
      rw [hs, hs, if_pos rfl, cString_blit_beforeNul hle, cString_blit_beforeNul hle]
    · rw [hs, hs, if_neg (by simp)]
  cases k with
  | ID =>
      simp only [read, delivered?, get, hfail.readUchar.value_eq context config.ID 0]
      split_ifs <;> rfl
  | boardName =>
      simp only [read, delivered?, get, hstring config.boardName]
      split_ifs <;> rfl
  | deviceClass =>
      simp only [read, delivered?, get, hstring config.deviceClass]
      split_ifs <;> rfl
  | applicationCrc =>
      simp only [read, delivered?, get, hfail.readUint.value_eq context config.applicationCrc 0]
      split_ifs <;> rfl
  | applicationSize =>
      simp only [read, delivered?, get, hfail.readUint.value_eq context config.applicationSize 0]
      split_ifs <;> rfl
  | updateCount =>
      simp only [read, delivered?, get, hfail.readUint.value_eq context config.updateCount 0]
      split_ifs <;> rfl

theorem ConfigKey.get_read_other {k k' : ConfigKey} (h : k' ≠ k) (config : BootloaderConfig)
    (context : CmpReader) : k'.get (k.read fw config context).1 = k'.get config := by
  cases k <;> cases k' <;> first | rfl | exact absurd rfl h

theorem lastFor_assigned (context : CmpReader) (k k' : ConfigKey) :
    Patch.lastFor (k.assigned fw context) k' =
      if k' = k then k.delivered? fw context else none := by
  rw [ConfigKey.assigned]
  cases k.delivered? fw context with
  | none => exact (ite_self none).symm
  | some v => exact congrFun (Patch.lastFor_singleton k v) k'

/-- What a round does with the value of its key, seen through the fields. -/
theorem describes_keyRead (hfail : ReadOrFailLaw fw.cmp) (context : CmpReader) (k : ConfigKey) :
    Patch.Describes (fun k config => ConfigKey.get config k) (Patch.lastFor (k.assigned fw context))
      (fun config => (k.read fw config context).1) := by
  intro config k'
  rw [lastFor_assigned]
  split_ifs with hk
  · rw [hk]
    exact k.get_read hfail config context
  · exact ConfigKey.get_read_other hk config context

/-- The loop, seen through the fields. Induction on the rounds. -/
theorem describes_configUpdateLoop (hfail : ReadOrFailLaw fw.cmp) (keyCount : Nat) :
    ∀ (key : Store) (context : CmpReader),
      Patch.Describes (fun k config => ConfigKey.get config k)
        (Patch.lastFor (assignmentsRead fw keyCount key context))
        (fun config => configUpdateLoop fw keyCount key config context) := by
  induction keyCount with
  | zero =>
      intro key context
      exact Patch.Describes.id
  | succ keyCount ih =>
      intro key context
      generalize hs : fw.cmp.readStr context key 64 = s
      generalize hbuffer : s.data.write s.size.toNat 0 = buffer
      have hround : ∀ config, configUpdateLoop fw (keyCount + 1) key config context =
          let x := (ConfigKey.ofString? (buffer.slice 0 64)).elim (config, s.reader)
            fun k => k.read fw config s.reader
          configUpdateLoop fw keyCount buffer x.1 x.2 := by
        intro config
        rw [configUpdateLoop]
        simp only [hs, hbuffer, configUpdateKey_eq (strcmpEq_buffer buffer)]
      simp only [hround, assignmentsRead, hs, hbuffer]
      cases ConfigKey.ofString? (buffer.slice 0 64) with
      | none => exact ih buffer s.reader
      | some k =>
          simp only [Option.elim_some, k.read_reader hfail, Patch.lastFor_append]
          exact (describes_keyRead hfail s.reader k).comp (ih buffer (k.behind fw s.reader))

/-- `config_update_from_serialized`, seen through the fields: the last assignment to each. -/
theorem describes_configUpdateFromSerialized (hfail : ReadOrFailLaw fw.cmp) (l : Locals)
    (context : CmpReader) : Patch.Describes (fun k config => ConfigKey.get config k)
      (Patch.lastFor (updateAssignments fw l.key context))
      (fun config => configUpdateFromSerialized fw l config context) :=
  describes_configUpdateLoop hfail _ _ _

/-! ## Pages -/

/-- What `config_read` returns is the same whatever was in the structure before. -/
def DeterminesConfig (fw : Firmware) (l : Locals) (page : Store) (pageSize : Nat) : Prop :=
  ∀ a b : BootloaderConfig, SameStored (configRead fw { l with config := a } page pageSize)
    (configRead fw { l with config := b } page pageSize)

/-- An empty map leaves everything as it is. -/
theorem configUpdateFromSerialized_empty (hread : ReadLaw fw.cmp) {context : CmpReader}
    {rest : List UInt8} (h : Msgpack.mapLen? context.rest = some (0, rest)) (l : Locals)
    (config : BootloaderConfig) : configUpdateFromSerialized fw l config context = config := by
  rw [configUpdateFromSerialized, hread.readMap context 0 0 rest h]
  rfl

theorem sameStored_iff {a b : BootloaderConfig} :
    SameStored a b ↔ ∀ k : ConfigKey, k.get a = k.get b := by
  constructor
  · rintro ⟨hID, hname, hclass, hcrc, hsize, hcount⟩ k
    cases k with
    | ID => exact congrArg (ConfigValue.number ∘ UInt8.toNat) hID
    | boardName => exact congrArg ConfigValue.string hname
    | deviceClass => exact congrArg ConfigValue.string hclass
    | applicationCrc => exact congrArg (ConfigValue.number ∘ UInt32.toNat) hcrc
    | applicationSize => exact congrArg (ConfigValue.number ∘ UInt32.toNat) hsize
    | updateCount => exact congrArg (ConfigValue.number ∘ UInt32.toNat) hcount
  · intro h
    exact ⟨UInt8.toNat_inj.mp (ConfigValue.number.inj (h .ID)),
      ConfigValue.string.inj (h .boardName), ConfigValue.string.inj (h .deviceClass),
      UInt32.toNat_inj.mp (ConfigValue.number.inj (h .applicationCrc)),
      UInt32.toNat_inj.mp (ConfigValue.number.inj (h .applicationSize)),
      UInt32.toNat_inj.mp (ConfigValue.number.inj (h .updateCount))⟩

/-- A structure that differs from the default configuration in every field. -/
def zeroConfig : BootloaderConfig :=
  { blankConfig with
    ID := 0
    boardName := fun _ => 0
    deviceClass := fun _ => 0
    applicationCrc := 0
    applicationSize := 1
    updateCount := 0 }

theorem get_varies (k : ConfigKey) : ∃ a b : BootloaderConfig, k.get a ≠ k.get b := by
  refine ⟨blankConfig, zeroConfig, ?_⟩
  cases k <;> decide

/-- A page determines the whole configuration exactly if it assigns every field. -/
theorem config_read_determined_iff (fw : Firmware) (hfail : ReadOrFailLaw fw.cmp) (l : Locals)
    (page : Store) (pageSize : Nat) :
    DeterminesConfig fw l page pageSize ↔
      ∀ k : ConfigKey, ∃ v, (k, v) ∈ pageAssignments fw l.key page pageSize := by
  have hread := describes_configUpdateFromSerialized hfail l
    (.init (fun i => page (i + 4)) (pageSize - 4))
  have hforgets := hread.forgets_iff get_varies
  simp only [DeterminesConfig, sameStored_iff]
  refine hforgets.trans (forall_congr' fun k => ?_)
  rw [ne_eq, Patch.lastFor_eq_none]
  push Not
  constructor
  · rintro ⟨x, hx, rfl⟩
    exact ⟨x.2, hx⟩
  · rintro ⟨v, hv⟩
    exact ⟨(k, v), hv, rfl⟩

/-- A page with all keys, not in the order of `config_write`. -/
def fullPage : List UInt8 :=
  [0, 0, 0, 0, 0x86] ++ strBytes configKeyUpdateCount ++ [3] ++ strBytes configKeyId ++ [42] ++
    strBytes configKeyBoardName ++ strBytes (ascii "arm") ++ strBytes configKeyDeviceClass ++
    strBytes (ascii "motor") ++ strBytes configKeyApplicationSize ++ [0] ++
    strBytes configKeyApplicationCrc ++ [5]

theorem fullPage_assignments :
    pageAssignments nucleoFirmware blankLocals.key (Store.ofList fullPage) 512 =
      [(.updateCount, .number 3), (.ID, .number 42), (.boardName, .string (ascii "arm")),
        (.deviceClass, .string (ascii "motor")), (.applicationSize, .number 0),
        (.applicationCrc, .number 5)] := by
  decide +kernel

theorem config_read_determined_iff_full :
    DeterminesConfig nucleoFirmware blankLocals (Store.ofList fullPage) 512 := by
  rw [config_read_determined_iff nucleoFirmware Cmp.reference_readOrFail, fullPage_assignments]
  intro k
  cases k <;> simp

/-- A page with an empty map, and the CRC that it has. -/
def emptyMapPage : Store :=
  let p : Store := fun i => if i = 4 then 0x80 else 0xFF
  p.blit 0 (be32 (configCalculateCrc nucleoFirmware p 512))

/-- Flash memory with it as the first configuration page. -/
def emptyMapMem : Mem :=
  Mem.blit (fun _ => 0xFF) nucleoFirmware.config1 (emptyMapPage.slice 0 512)

theorem emptyMapMem_read :
    emptyMapMem.read nucleoFirmware.config1 512 = emptyMapPage.slice 0 512 := by
  have hlen := Store.slice_length emptyMapPage 0 512
  have hblit := Mem.read_blit (fun _ => 0xFF) nucleoFirmware.config1
    (show (emptyMapPage.slice 0 512).length ≤ 2 ^ 32 by omega)
  rwa [hlen] at hblit

/-- The page is valid, and `config_read` returns what was on the stack. -/
theorem config_read_of_empty_map :
    configIsValid nucleoFirmware emptyMapMem nucleoFirmware.config1 512 = true ∧
      ¬ DeterminesConfig nucleoFirmware blankLocals (emptyMapMem.ptr nucleoFirmware.config1)
        512 := by
  refine ⟨configIsValid_crc nucleoFirmware (by decide) (by decide) emptyMapMem_read, ?_⟩
  have hmap : emptyMapMem.ptr nucleoFirmware.config1 4 = 0x80 := by
    have hbyte := Store.slice_eq_iff.mp emptyMapMem_read 4 (by decide)
    rw [Nat.zero_add] at hbyte
    rw [hbyte]
    exact Store.blit_ge _ _ _ _ (by simp)
  have hempty : Msgpack.mapLen? (CmpReader.init (fun i =>
      emptyMapMem.ptr nucleoFirmware.config1 (i + 4)) 508).rest =
        some (0, Store.slice (fun i => emptyMapMem.ptr nucleoFirmware.config1 (i + 4)) 1 507) := by
    rw [CmpReader.rest_init, Store.slice_succ, Nat.zero_add, hmap]
    rfl
  have hstack : ∀ a, configRead nucleoFirmware { blankLocals with config := a }
      (emptyMapMem.ptr nucleoFirmware.config1) 512 = a :=
    fun a => configUpdateFromSerialized_empty Cmp.reference_read hempty _ a
  intro h
  have hsame := h blankConfig zeroConfig
  rw [hstack, hstack] at hsame
  exact absurd hsame.1 (by decide)

end CanBootloader
