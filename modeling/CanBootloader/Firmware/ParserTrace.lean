/-
  config.c: the rounds of `config_update_from_serialized`.

  The parser does not look at the result of `cmp_read_str`: after a failed read it puts the
  terminating zero where `key_len` says, behind the `key` buffer, and goes on with the next round.
  The map header says how many rounds there are, whatever is behind it.

  * `key_zeros_in_buffer_iff`: the zeros stay in the buffer as long as each round finds a key.
  * `parser_rounds_le_iff`: the rounds are as many as the header announces.
-/
import CanBootloader.Firmware.ConfigUpdate

namespace CanBootloader

open Lib

variable (fw : Firmware)

/-! ## The trace -/

/-- The loop, with the index of the terminating zero in each round. -/
def configUpdateTrace : Nat → Store → BootloaderConfig → CmpReader → BootloaderConfig × List Nat
  | 0, _, config, _ => (config, [])
  | keyCount + 1, key, config, context =>
      let s := fw.cmp.readStr context key 64
      let key := s.data.write s.size.toNat 0
      let (config, context) := configUpdateKey fw key config s.reader
      let (config, zeros) := configUpdateTrace keyCount key config context
      (config, s.size.toNat :: zeros)

/-- `config_update_from_serialized`, with these indices. -/
def configUpdateTraced (l : Locals) (config : BootloaderConfig) (context : CmpReader) :
    BootloaderConfig × List Nat :=
  let r := fw.cmp.readMap context 0
  configUpdateTrace fw r.value.toNat l.key config r.reader

theorem configUpdateTrace_fst (keyCount : Nat) : ∀ (key : Store) (config : BootloaderConfig)
    (context : CmpReader), (configUpdateTrace fw keyCount key config context).1 =
      configUpdateLoop fw keyCount key config context := by
  induction keyCount with
  | zero =>
      intro key config context
      rfl
  | succ keyCount ih =>
      intro key config context
      exact ih _ _ _

/-- The trace is that of the parser. -/
theorem configUpdateTraced_fst (l : Locals) (config : BootloaderConfig) (context : CmpReader) :
    (configUpdateTraced fw l config context).1 = configUpdateFromSerialized fw l config context :=
  configUpdateTrace_fst fw _ _ _ _

theorem configUpdateTrace_length (keyCount : Nat) :
    ∀ (key : Store) (config : BootloaderConfig) (context : CmpReader),
      (configUpdateTrace fw keyCount key config context).2.length = keyCount := by
  induction keyCount with
  | zero =>
      intro key config context
      rfl
  | succ keyCount ih =>
      intro key config context
      exact congrArg (· + 1) (ih _ _ _)

/-! ## The key buffer -/

/-- The terminating zeros of the keys are written inside the key buffer. -/
def ZerosInBuffer (l : Locals) (config : BootloaderConfig) (context : CmpReader) : Prop :=
  ∀ i ∈ (configUpdateTraced fw l config context).2, i < 64

/-- Where a reader stands once the value of a key is read. -/
def ConfigKey.behind (context : CmpReader) : ConfigKey → CmpReader
  | ID => (fw.cmp.readUchar context 0).reader
  | boardName | deviceClass => (fw.cmp.readStr context (fun _ => 0) 65).reader
  | applicationCrc | applicationSize | updateCount => (fw.cmp.readUint context 0).reader

/-- Each round finds a key in front of it, of fewer than 64 characters: the first one behind the
    header, the next one behind what is read of the value. -/
def KeysFit : Nat → CmpReader → Prop
  | 0, _ => True
  | keyCount + 1, context => ∃ s rest, Msgpack.str? context.rest = some (s, rest) ∧
      s.length < 64 ∧
      let context := context.seek rest
      KeysFit keyCount ((ConfigKey.ofString? s).elim context fun k => k.behind fw context)

variable {fw}

theorem ConfigKey.read_reader (hfail : ReadOrFailLaw fw.cmp) (config : BootloaderConfig)
    (context : CmpReader) (k : ConfigKey) : (k.read fw config context).2 = k.behind fw context := by
  cases k with
  | ID => exact hfail.readUchar.reader_eq context config.ID 0
  | boardName => exact hfail.readStr_reader context config.boardName _ 65
  | deviceClass => exact hfail.readStr_reader context config.deviceClass _ 65
  | applicationCrc => exact hfail.readUint.reader_eq context config.applicationCrc 0
  | applicationSize => exact hfail.readUint.reader_eq context config.applicationSize 0
  | updateCount => exact hfail.readUint.reader_eq context config.updateCount 0

/-- Where the zero goes after a failed read: behind the buffer, or further. -/
theorem size_of_no_key (hsize : ReadStrSizeLaw fw.cmp) {context : CmpReader}
    (h : ∀ s rest, Msgpack.str? context.rest = some (s, rest) → 64 ≤ s.length) (key : Store) :
    64 ≤ (fw.cmp.readStr context key 64).size.toNat := by
  have hannounced : ∀ {n : Nat}, 64 ≤ n → n < 2 ^ 32 → 64 ≤ (UInt32.ofNat n).toNat := by
    intro n hle hlt
    rwa [UInt32.toNat_ofNat_of_lt' hlt]
  cases hstr : Msgpack.str? context.rest with
  | none =>
      obtain hsame | ⟨n, rest, hlen, hle, hset⟩ := hsize.no_string context key 64 hstr
      · rw [hsame]
        decide
      · rw [hset]
        exact hannounced hle (Msgpack.strLen?_lt hlen)
  | some x =>
      have hle := h x.1 x.2 hstr
      rw [hsize.too_long context key 64 x.1 x.2 hstr hle]
      exact hannounced hle (Msgpack.str?_length_lt hstr)

/-- A round that finds a key. -/
theorem configUpdateTrace_round (hstr : ReadStrLaw fw.cmp) (hfail : ReadOrFailLaw fw.cmp)
    {s rest : List UInt8} {context : CmpReader}
    (hkey : Msgpack.str? context.rest = some (s, rest)) (hlen : s.length < 64) (key : Store)
    (config : BootloaderConfig) (keyCount : Nat) :
    ∃ key' config', (configUpdateTrace fw (keyCount + 1) key config context).2 =
      s.length :: (configUpdateTrace fw keyCount key' config' ((ConfigKey.ofString? s).elim
        (context.seek rest) fun k => k.behind fw (context.seek rest))).2 := by
  have hnat : (UInt32.ofNat s.length).toNat = s.length :=
    UInt32.toNat_ofNat_of_lt' (show s.length < 2 ^ 32 by omega)
  obtain ⟨config', hvalue⟩ : ∃ config', ((ConfigKey.ofString? s).elim (config, context.seek rest)
      fun k => k.read fw config (context.seek rest)) = (config', (ConfigKey.ofString? s).elim
        (context.seek rest) fun k => k.behind fw (context.seek rest)) := by
    cases ConfigKey.ofString? s with
    | none => exact ⟨config, rfl⟩
    | some k => exact ⟨_, Prod.ext rfl (k.read_reader hfail config _)⟩
  refine ⟨(key.blit 0 (s ++ [0])).write s.length 0, config', ?_⟩
  rw [configUpdateTrace, hstr.fits context key 64 s rest hkey hlen]
  simp only [hnat]
  rw [configUpdateKey_eq (strcmpEq_key key s), hvalue]

/-- Round by round. -/
theorem configUpdateTrace_lt_iff (hstr : ReadStrLaw fw.cmp) (hsize : ReadStrSizeLaw fw.cmp)
    (hfail : ReadOrFailLaw fw.cmp) (keyCount : Nat) :
    ∀ (key : Store) (config : BootloaderConfig) (context : CmpReader),
      (∀ i ∈ (configUpdateTrace fw keyCount key config context).2, i < 64) ↔
        KeysFit fw keyCount context := by
  induction keyCount with
  | zero =>
      intro key config context
      simp [configUpdateTrace, KeysFit]
  | succ keyCount ih =>
      intro key config context
      by_cases hkey : ∃ s rest, Msgpack.str? context.rest = some (s, rest) ∧ s.length < 64
      · obtain ⟨s, rest, hs, hlen⟩ := hkey
        obtain ⟨key', config', hround⟩ :=
          configUpdateTrace_round hstr hfail hs hlen key config keyCount
        rw [hround, List.forall_mem_cons, ih, KeysFit]
        constructor
        · rintro ⟨-, hrest⟩
          exact ⟨s, rest, hs, hlen, hrest⟩
        · rintro ⟨s', rest', hs', -, hrest⟩
          obtain ⟨rfl, rfl⟩ := Prod.mk.inj (Option.some.inj (hs.symm.trans hs'))
          exact ⟨hlen, hrest⟩
      · have hzero := size_of_no_key hsize (fun s rest hs =>
          not_lt.mp fun hlen => hkey ⟨s, rest, hs, hlen⟩) key
        refine iff_of_false (fun hall => ?_) fun hfit => ?_
        · exact absurd (hall _ List.mem_cons_self) (not_lt.mpr hzero)
        · obtain ⟨s, rest, hs, hlen, -⟩ := hfit
          exact hkey ⟨s, rest, hs, hlen⟩

/-- The trace is that of the parser, and its terminating zeros are inside the key buffer exactly if
    every round that the map header announces finds a key that fits the buffer. -/
theorem key_zeros_in_buffer_iff (fw : Firmware) (hstr : ReadStrLaw fw.cmp)
    (hsize : ReadStrSizeLaw fw.cmp) (hfail : ReadOrFailLaw fw.cmp) (l : Locals)
    (config : BootloaderConfig) (context : CmpReader) :
    (configUpdateTraced fw l config context).1 = configUpdateFromSerialized fw l config context ∧
    (ZerosInBuffer fw l config context ↔
      KeysFit fw (fw.cmp.readMap context 0).value.toNat (fw.cmp.readMap context 0).reader) :=
  ⟨configUpdateTraced_fst fw l config context, configUpdateTrace_lt_iff hstr hsize hfail _ _ _ _⟩

/-- The reader of these bytes. -/
def bytesContext (bs : List UInt8) : CmpReader := .init (Store.ofList bs) bs.length

/-- An update of the ID. -/
theorem key_zeros_in_buffer_iff_id : ZerosInBuffer nucleoFirmware blankLocals blankConfig
    (bytesContext [0x81, 0xa2, 0x49, 0x44, 42]) := by
  rw [(key_zeros_in_buffer_iff nucleoFirmware Cmp.reference_readStr Cmp.reference_readStrSize
    Cmp.reference_readOrFail _ _ _).2]
  have hcount : (nucleoFirmware.cmp.readMap (bytesContext [0x81, 0xa2, 0x49, 0x44, 42])
      0).value.toNat = 1 := by decide
  rw [hcount]
  exact ⟨configKeyId, [42], by decide, by decide, trivial⟩

/-- A map of one pair with nothing behind it: the zero goes behind the buffer. -/
theorem key_zero_behind_buffer :
    ¬ ZerosInBuffer nucleoFirmware blankLocals blankConfig (bytesContext [0x81]) := by
  have hzero : (configUpdateTraced nucleoFirmware blankLocals blankConfig
      (bytesContext [0x81])).2 = [64] := by decide
  rw [ZerosInBuffer, hzero]
  decide

/-! ## The rounds -/

/-- The number of pairs that the header announces, if there is one. -/
def announcedKeys (bs : List UInt8) : Nat := (Msgpack.mapLen? bs).elim 0 Prod.fst

theorem readMap_value (hread : ReadLaw fw.cmp) (hmap : ReadMapLaw fw.cmp) (context : CmpReader) :
    (fw.cmp.readMap context 0).value.toNat = announcedKeys context.rest := by
  unfold announcedKeys
  cases hlen : Msgpack.mapLen? context.rest with
  | none =>
      rw [hmap context 0 hlen]
      rfl
  | some x =>
      rw [hread.readMap context 0 x.1 x.2 hlen]
      exact UInt32.toNat_ofNat_of_lt' (Msgpack.mapLen?_lt hlen)

/-- There are no more rounds than input bytes exactly if the header announces no more. -/
theorem parser_rounds_le_iff (fw : Firmware) (hread : ReadLaw fw.cmp) (hmap : ReadMapLaw fw.cmp)
    (l : Locals) (config : BootloaderConfig) (context : CmpReader) :
    (configUpdateTraced fw l config context).2.length ≤ context.rest.length ↔
      announcedKeys context.rest ≤ context.rest.length := by
  rw [configUpdateTraced, configUpdateTrace_length, readMap_value hread hmap]

/-- An update of the ID. -/
theorem parser_rounds_le_iff_id : (configUpdateTraced nucleoFirmware blankLocals blankConfig
    (bytesContext [0x81, 0xa2, 0x49, 0x44, 42])).2.length ≤ 5 :=
  (parser_rounds_le_iff nucleoFirmware Cmp.reference_read Cmp.reference_readMap blankLocals
    blankConfig (bytesContext [0x81, 0xa2, 0x49, 0x44, 42])).mpr (by decide)

/-- Five bytes for four billion rounds. -/
theorem parser_rounds_of_header : ¬ (configUpdateTraced nucleoFirmware blankLocals blankConfig
    (bytesContext [0xdf, 0xff, 0xff, 0xff, 0xff])).2.length ≤ 5 := by
  have hread : (Cmp.reference.readMap (bytesContext [0xdf, 0xff, 0xff, 0xff, 0xff]) 0).value =
      0xFFFFFFFF := by decide
  rw [configUpdateTraced, configUpdateTrace_length]
  change ¬ (Cmp.reference.readMap _ 0).value.toNat ≤ 5
  rw [hread]
  decide

end CanBootloader
