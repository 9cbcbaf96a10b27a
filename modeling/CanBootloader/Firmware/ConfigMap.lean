/-
  Maps for `config_update_from_serialized`, entry by entry.

  The parser compares the key with each name it knows, and reads the value with the reader of the
  field; a value with a key that it does not know stays in front of the reader
  (`configUpdateLoop_entry`). As long as every key is known and every value is one that its
  reader takes, each round applies an entry (`configUpdateLoop_applied`).
-/
import CanBootloader.Firmware.DeviceClass

namespace CanBootloader

open Lib

/-! ## Keys -/

/-- The keys that the parser knows. -/
inductive ConfigKey where
  | ID
  | boardName
  | deviceClass
  | applicationCrc
  | applicationSize
  | updateCount
  deriving DecidableEq, Repr

def ConfigKey.all : List ConfigKey :=
  [ID, boardName, deviceClass, applicationCrc, applicationSize, updateCount]

def ConfigKey.name : ConfigKey → List UInt8
  | ID => configKeyId
  | boardName => configKeyBoardName
  | deviceClass => configKeyDeviceClass
  | applicationCrc => configKeyApplicationCrc
  | applicationSize => configKeyApplicationSize
  | updateCount => configKeyUpdateCount

/-- The key that a string stands for. As `strcmp` does, it goes by the part before a NUL. -/
def ConfigKey.ofString? (s : List UInt8) : Option ConfigKey :=
  ConfigKey.all.find? fun k => k.name == beforeNul s

theorem ConfigKey.mem_all (k : ConfigKey) : k ∈ ConfigKey.all := by
  cases k <;> decide

theorem ConfigKey.nul_notMem_name (k : ConfigKey) : 0 ∉ k.name := by
  cases k <;> decide

theorem ConfigKey.name_length_lt (k : ConfigKey) : k.name.length < 64 := by
  cases k <;> decide

theorem ConfigKey.name_injective {k k' : ConfigKey} (h : k.name = k'.name) : k = k' := by
  revert k'
  cases k <;> (intro k'; cases k' <;> decide)

theorem ConfigKey.ofString?_eq_some {s : List UInt8} {k : ConfigKey} :
    ConfigKey.ofString? s = some k ↔ beforeNul s = k.name := by
  unfold ConfigKey.ofString?
  cases hfind : ConfigKey.all.find? fun k => k.name == beforeNul s with
  | none =>
      have hnone := List.find?_eq_none.mp hfind k k.mem_all
      rw [beq_iff_eq] at hnone
      exact iff_of_false (by simp) fun heq => hnone heq.symm
  | some k' =>
      have hname : k'.name = beforeNul s := by simpa using List.find?_some hfind
      rw [← hname, Option.some.injEq]
      exact ⟨congrArg ConfigKey.name, ConfigKey.name_injective⟩

theorem ConfigKey.ofString?_name (k : ConfigKey) : ConfigKey.ofString? k.name = some k := by
  cases k <;> decide

/-! ## Values -/

/-- A value of one of the types that the fields take. -/
inductive ConfigValue where
  | number (n : Nat)
  | string (s : List UInt8)
  deriving DecidableEq, Repr

/-- The value for a key: a number of one byte, a string that leaves room for its terminator in
    a `char[65]`, or a number of four bytes. -/
def ConfigKey.value? (value : List UInt8) : ConfigKey → Option ConfigValue
  | ID => (Msgpack.uint? 1 value).map fun (n, _) => .number n
  | boardName | deviceClass =>
      match Msgpack.str? value with
      | some (s, _) => if s.length < 65 then some (.string s) else none
      | none => none
  | _ => (Msgpack.uint? 4 value).map fun (n, _) => .number n

/-- The value of a key with a string. -/
theorem ConfigKey.value?_string {value : List UInt8} {v : ConfigValue} (k : ConfigKey)
    (hk : k = .boardName ∨ k = .deviceClass) (hv : k.value? value = some v) :
    ∃ s rest, Msgpack.str? value = some (s, rest) ∧ s.length < 65 ∧ v = .string s := by
  cases hstr : Msgpack.str? value with
  | none => rcases hk with rfl | rfl <;> simp [ConfigKey.value?, hstr] at hv
  | some x =>
      by_cases hlen : x.1.length < 65
      · refine ⟨x.1, x.2, rfl, hlen, ?_⟩
        rcases hk with rfl | rfl <;> simpa [ConfigKey.value?, hstr, hlen] using hv.symm
      · rcases hk with rfl | rfl <;> simp [ConfigKey.value?, hstr, hlen] at hv

/-- The configuration with a value in the field of a key. -/
def ConfigKey.set (config : BootloaderConfig) : ConfigKey → ConfigValue → BootloaderConfig
  | ID, .number n => { config with ID := UInt8.ofNat n }
  | boardName, .string s => { config with boardName := config.boardName.blit 0 (s ++ [0]) }
  | deviceClass, .string s => { config with deviceClass := config.deviceClass.blit 0 (s ++ [0]) }
  | applicationCrc, .number n => { config with applicationCrc := UInt32.ofNat n }
  | applicationSize, .number n => { config with applicationSize := UInt32.ofNat n }
  | updateCount, .number n => { config with updateCount := UInt32.ofNat n }
  | _, _ => config

/-! ## Maps -/

/-- An entry of a map: a string of fewer than 64 bytes, and a well-formed object of any type. -/
structure ConfigEntry where
  keyBytes : List UInt8
  key : List UInt8
  value : List UInt8
  key_str : Msgpack.str? keyBytes = some (key, [])
  key_lt : key.length < 64
  value_object : Msgpack.Objects 1 value

def ConfigEntry.bytes (e : ConfigEntry) : List UInt8 := e.keyBytes ++ e.value

def ConfigEntry.configKey? (e : ConfigEntry) : Option ConfigKey := ConfigKey.ofString? e.key

/-- The value is one that the key takes. -/
def ConfigEntry.Fits (e : ConfigEntry) : Prop :=
  ∃ k v, e.configKey? = some k ∧ k.value? e.value = some v

/-- The configuration with the entry applied to it, if it fits. -/
def ConfigEntry.applied? (config : BootloaderConfig) (e : ConfigEntry) : Option BootloaderConfig := do
  let k ← e.configKey?
  let v ← k.value? e.value
  return k.set config v

/-- All entries, in order. -/
def applyAll (config : BootloaderConfig) (entries : List ConfigEntry) : Option BootloaderConfig :=
  entries.foldlM ConfigEntry.applied? config

/-- A well-formed map. -/
structure ConfigMap where
  format : Msgpack.MapFormat
  entries : List ConfigEntry
  fits : entries.length < format.limit

def ConfigMap.bytes (m : ConfigMap) : List UInt8 :=
  m.format.header m.entries.length ++ m.entries.flatMap ConfigEntry.bytes

theorem ConfigEntry.applied?_isSome {config : BootloaderConfig} {e : ConfigEntry} :
    (e.applied? config).isSome = true ↔ e.Fits := by
  simp only [ConfigEntry.applied?, Option.isSome_iff_exists, ConfigEntry.Fits, Option.bind_eq_bind,
    Option.bind_eq_some_iff]
  constructor
  · intro ⟨_, k, hk, v, hv, _⟩
    exact ⟨k, v, hk, hv⟩
  · intro ⟨k, v, hk, hv⟩
    exact ⟨_, k, hk, v, hv, rfl⟩

/-- A map can be applied if and only if each entry fits. -/
theorem applyAll_isSome (entries : List ConfigEntry) : ∀ config : BootloaderConfig,
    (applyAll config entries).isSome = true ↔ ∀ e ∈ entries, e.Fits := by
  induction entries with
  | nil =>
      intro config
      simp [applyAll]
  | cons e entries ih =>
      intro config
      have hfits : (e.applied? config).isSome = true ↔ e.Fits := ConfigEntry.applied?_isSome
      rw [List.forall_mem_cons, ← hfits]
      cases hstep : e.applied? config with
      | none => simp [applyAll, hstep]
      | some config' =>
          have hrest := ih config'
          simp only [applyAll] at hrest
          simpa [applyAll, hstep] using hrest

/-! ## Rounds of the loop -/

/-- Comparing the key buffer with a name, once the key is read into it. -/
theorem strcmpEq_key (data : Store) (s : List UInt8) (k : ConfigKey) :
    strcmpEq ((data.blit 0 (s ++ [0])).write s.length 0) k.name = true ↔
      ConfigKey.ofString? s = some k := by
  have hnul : (data.blit 0 (s ++ [0])) s.length = 0 := by
    rw [← Store.blit_append, Nat.zero_add]
    exact Store.write_same _ _ _
  rw [Store.write_eq_self hnul, strcmpEq_blit _ _ k.nul_notMem_name, ConfigKey.ofString?_eq_some]

variable {fw : Firmware}

/-- The branch of the parser for a key. -/
def ConfigKey.read (fw : Firmware) (config : BootloaderConfig) (context : CmpReader) :
    ConfigKey → BootloaderConfig × CmpReader
  | ID =>
      let r := fw.cmp.readUchar context config.ID
      ({ config with ID := r.value }, r.reader)
  | boardName =>
      let r := fw.cmp.readStr context config.boardName 65
      ({ config with boardName := r.data }, r.reader)
  | deviceClass =>
      let r := fw.cmp.readStr context config.deviceClass 65
      ({ config with deviceClass := r.data }, r.reader)
  | applicationCrc =>
      let r := fw.cmp.readUint context config.applicationCrc
      ({ config with applicationCrc := r.value }, r.reader)
  | applicationSize =>
      let r := fw.cmp.readUint context config.applicationSize
      ({ config with applicationSize := r.value }, r.reader)
  | updateCount =>
      let r := fw.cmp.readUint context config.updateCount
      ({ config with updateCount := r.value }, r.reader)

/-- The comparisons of a round take at most one branch. -/
theorem configUpdateKey_eq {key : Store} {key? : Option ConfigKey}
    (h : ∀ k : ConfigKey, strcmpEq key k.name = true ↔ key? = some k) (config : BootloaderConfig)
    (context : CmpReader) :
    configUpdateKey fw key config context =
      key?.elim (config, context) fun k => k.read fw config context := by
  have hID := h .ID
  have hname := h .boardName
  have hclass := h .deviceClass
  have hcrc := h .applicationCrc
  have hsize := h .applicationSize
  have hcount := h .updateCount
  simp only [ConfigKey.name] at hID hname hclass hcrc hsize hcount
  unfold configUpdateKey
  simp only [hID, hname, hclass, hcrc, hsize, hcount]
  cases key? with
  | none => simp
  | some k => cases k <;> simp [ConfigKey.read]

/-- A reader takes the value of an entry that fits, and stops behind it. -/
theorem ConfigKey.read_fits (hread : ReadLaw fw.cmp) (hstr : ReadStrLaw fw.cmp) {k : ConfigKey}
    {value t : List UInt8} {v : ConfigValue} (hobject : Msgpack.Objects 1 value)
    (hv : k.value? value = some v) (config : BootloaderConfig) {r : CmpReader}
    (hr : r.rest = value ++ t) : k.read fw config r = (k.set config v, r.seek t) := by
  have hnumber : ∀ {w n rest}, Msgpack.uint? w value = some (n, rest) →
      Msgpack.uint? w r.rest = some (n, t) := by
    intro w n rest h
    have hmore := Msgpack.uint?_more t h
    rwa [hobject.uint?_rest h, List.nil_append, ← hr] at hmore
  have hstring : ∀ {old : Store} {s rest}, Msgpack.str? value = some (s, rest) → s.length < 65 →
      fw.cmp.readStr r old 65 = ⟨true, old.blit 0 (s ++ [0]), UInt32.ofNat s.length, r.seek t⟩ := by
    intro old s rest h hlen
    have hmore := Msgpack.str?_more t h
    rw [hobject.str?_rest h, List.nil_append, ← hr] at hmore
    exact hstr.fits r old 65 s t hmore hlen
  cases k with
  | ID =>
      obtain ⟨⟨n, rest⟩, hn, rfl⟩ := Option.map_eq_some_iff.mp hv
      rw [ConfigKey.read, hread.readUchar r config.ID n t (hnumber hn)]
      rfl
  | applicationCrc =>
      obtain ⟨⟨n, rest⟩, hn, rfl⟩ := Option.map_eq_some_iff.mp hv
      rw [ConfigKey.read, hread.readUint r config.applicationCrc n t (hnumber hn)]
      rfl
  | applicationSize =>
      obtain ⟨⟨n, rest⟩, hn, rfl⟩ := Option.map_eq_some_iff.mp hv
      rw [ConfigKey.read, hread.readUint r config.applicationSize n t (hnumber hn)]
      rfl
  | updateCount =>
      obtain ⟨⟨n, rest⟩, hn, rfl⟩ := Option.map_eq_some_iff.mp hv
      rw [ConfigKey.read, hread.readUint r config.updateCount n t (hnumber hn)]
      rfl
  | boardName =>
      obtain ⟨s, rest, hs, hlen, rfl⟩ := ConfigKey.boardName.value?_string (.inl rfl) hv
      rw [ConfigKey.read, hstring hs hlen]
      rfl
  | deviceClass =>
      obtain ⟨s, rest, hs, hlen, rfl⟩ := ConfigKey.deviceClass.value?_string (.inr rfl) hv
      rw [ConfigKey.read, hstring hs hlen]
      rfl

/-- A round of the loop in front of a string that fits the key buffer: the branch of that key sees
    what is behind it. -/
theorem configUpdateLoop_round (hstr : ReadStrLaw fw.cmp) {s pre rest : List UInt8} {r : CmpReader}
    (hkey : Msgpack.str? r.rest = some (s, rest)) (hlen : s.length < 64)
    (hr : r.rest = pre ++ rest) (key : Store) (config : BootloaderConfig) :
    ∃ key' r', r'.rest = rest ∧ ∀ n,
      let x := (ConfigKey.ofString? s).elim (config, r') fun k => k.read fw config r'
      configUpdateLoop fw (n + 1) key config r = configUpdateLoop fw n key' x.1 x.2 := by
  have hnat : (UInt32.ofNat s.length).toNat = s.length :=
    UInt32.toNat_ofNat_of_lt' (show s.length < 2 ^ 32 by omega)
  refine ⟨(key.blit 0 (s ++ [0])).write s.length 0, r.seek rest, CmpReader.rest_seek hr, ?_⟩
  intro n
  rw [configUpdateLoop, hstr.fits r key 64 s rest hkey hlen]
  simp only [hnat]
  rw [configUpdateKey_eq (strcmpEq_key key s)]

/-- A round in front of an entry. -/
theorem configUpdateLoop_entry (hstr : ReadStrLaw fw.cmp) {e : ConfigEntry} {t : List UInt8}
    {r : CmpReader} (hr : r.rest = e.bytes ++ t) (key : Store) (config : BootloaderConfig) :
    ∃ key' r', r'.rest = e.value ++ t ∧ ∀ n,
      let x := e.configKey?.elim (config, r') fun k => k.read fw config r'
      configUpdateLoop fw (n + 1) key config r = configUpdateLoop fw n key' x.1 x.2 := by
  rw [ConfigEntry.bytes, List.append_assoc] at hr
  have hkey : Msgpack.str? r.rest = some (e.key, e.value ++ t) := by
    have hmore := Msgpack.str?_more (e.value ++ t) e.key_str
    rwa [List.nil_append, ← hr] at hmore
  exact configUpdateLoop_round hstr hkey e.key_lt hr key config

/-- Entries that fit, one round for each. -/
theorem configUpdateLoop_applied (hread : ReadLaw fw.cmp) (hstr : ReadStrLaw fw.cmp)
    (entries : List ConfigEntry) : ∀ (key : Store) (config config' : BootloaderConfig)
    (t : List UInt8) (r : CmpReader), applyAll config entries = some config' →
      r.rest = entries.flatMap ConfigEntry.bytes ++ t →
      ∃ key' r', r'.rest = t ∧ ∀ n, configUpdateLoop fw (entries.length + n) key config r =
        configUpdateLoop fw n key' config' r' := by
  induction entries with
  | nil =>
      intro key config config' t r happly hr
      obtain rfl : config = config' := Option.some.inj happly
      refine ⟨key, r, hr, fun n => ?_⟩
      rw [List.length_nil, Nat.zero_add]
  | cons e entries ih =>
      intro key config config' t r happly hr
      obtain ⟨config₁, hstep, hrest⟩ := Option.bind_eq_some_iff.mp happly
      obtain ⟨k, hk, hset⟩ := Option.bind_eq_some_iff.mp hstep
      obtain ⟨v, hv, hconfig⟩ := Option.bind_eq_some_iff.mp hset
      obtain rfl := Option.some.inj hconfig
      rw [List.flatMap_cons, List.append_assoc] at hr
      obtain ⟨key₁, r₁, hr₁, hround⟩ := configUpdateLoop_entry hstr hr key config
      have hvalue := ConfigKey.read_fits hread hstr e.value_object hv config hr₁
      obtain ⟨key', r', hr', hloop⟩ := ih key₁ (k.set config v) config' t _ hrest
        (CmpReader.rest_seek hr₁)
      refine ⟨key', r', hr', fun n => ?_⟩
      rw [List.length_cons, Nat.add_right_comm, hround]
      simp only [hk, Option.elim_some, hvalue]
      exact hloop n

end CanBootloader
