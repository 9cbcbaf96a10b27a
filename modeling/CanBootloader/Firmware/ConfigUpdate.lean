/-
  The configuration that an update leaves.

  The parser looks at no result of a read, and `command_config_update` always replies true.
  `config_update_truthful_iff` says when that is so: each value is one that its reader takes.

  The value of a key that the parser does not know is not skipped, so the next round takes it for
  a key. `unknown_ignored` is for maps in which there is no next round.
-/
import CanBootloader.Firmware.ConfigMap

namespace CanBootloader

open Lib

variable {fw : Firmware}

theorem ConfigMap.length_lt (m : ConfigMap) : m.entries.length < 2 ^ 32 :=
  lt_of_lt_of_le m.fits m.format.limit_le

/-- The parser makes a round for each entry. -/
theorem configUpdateFromSerialized_eq (hread : ReadLaw fw.cmp) (m : ConfigMap) {t : List UInt8}
    {r : CmpReader} (hr : r.rest = m.bytes ++ t) (l : Locals) (config : BootloaderConfig) :
    ∃ r', r'.rest = m.entries.flatMap ConfigEntry.bytes ++ t ∧
      configUpdateFromSerialized fw l config r =
        configUpdateLoop fw m.entries.length l.key config r' := by
  rw [ConfigMap.bytes, List.append_assoc] at hr
  have hmap := hread.readMap r 0 m.entries.length (m.entries.flatMap ConfigEntry.bytes ++ t)
    (hr ▸ Msgpack.mapLen?_header m.fits _)
  have hcount : (UInt32.ofNat m.entries.length).toNat = m.entries.length :=
    UInt32.toNat_ofNat_of_lt' m.length_lt
  refine ⟨_, CmpReader.rest_seek hr, ?_⟩
  rw [configUpdateFromSerialized, hmap, hcount]

/-- A map that fits is applied. -/
theorem configUpdateFromSerialized_applied (hread : ReadLaw fw.cmp) (hstr : ReadStrLaw fw.cmp)
    (m : ConfigMap) {t : List UInt8} {r : CmpReader} (hr : r.rest = m.bytes ++ t) (l : Locals)
    {config config' : BootloaderConfig} (h : applyAll config m.entries = some config') :
    configUpdateFromSerialized fw l config r = config' := by
  obtain ⟨r', hr', heq⟩ := configUpdateFromSerialized_eq hread m hr l config
  obtain ⟨key', r'', -, hloop⟩ := configUpdateLoop_applied hread hstr m.entries l.key config
    config' t r' h hr'
  rw [heq]
  exact hloop 0

/-! ## Replies -/

/-- The reply is true only if every entry of the map is applied, and otherwise the configuration
    is as it was. -/
def TruthfulUpdate {σ : Type} (i : Invocation) (m : ConfigMap)
    (o : Prog.Outcome σ Call Reply) : Prop :=
  ∃ r, o.value = some r ∧
    if i.out.written r.out = Msgpack.bool true then applyAll i.config m.entries = some r.config
    else r.config = i.config

/-- An update tells the truth if and only if each value is one that the reader of its key
    takes. -/
theorem config_update_truthful_iff {σ : Type} (fw : Firmware) (hread : ReadLaw fw.cmp)
    (hstr : ReadStrLaw fw.cmp) (hwrite : WriteLaw fw.cmp) (p : Platform σ) (w : σ)
    (i : Invocation) (hroom : i.out.pos < i.out.size) (m : ConfigMap) (t : List UInt8)
    (hargs : i.args.rest = m.bytes ++ t) :
    TruthfulUpdate i m (Prog.run p.handler (commandConfigUpdate fw i) w) ↔
      ∀ e ∈ m.entries, e.Fits := by
  have hvalue : (Prog.run p.handler (commandConfigUpdate fw i) w).value =
      some ⟨fw.cmp.writeBool i.out true,
        configUpdateFromSerialized fw i.locals i.config i.args⟩ := rfl
  have hreply : i.out.written (fw.cmp.writeBool i.out true) = Msgpack.bool true := by
    rw [hwrite.writeBool _ _ hroom, CmpWriter.written_put]
  rw [← applyAll_isSome m.entries i.config, Option.isSome_iff_exists]
  constructor
  · intro ⟨r, hr, happlied⟩
    obtain rfl := Option.some.inj (hvalue.symm.trans hr)
    rw [if_pos hreply] at happlied
    exact ⟨_, happlied⟩
  · intro ⟨config', happlied⟩
    refine ⟨_, hvalue, ?_⟩
    rw [if_pos hreply, configUpdateFromSerialized_applied hread hstr m hargs i.locals happlied]
    exact happlied

/-- An update with one entry, for a new board. -/
def updateInvocation (m : ConfigMap) : Invocation :=
  { blankInvocation blankConfig with
    argc := 1
    args := .init (Store.ofList m.bytes) m.bytes.length }

/-- An identifier as `ID`. -/
def idEntry : ConfigEntry where
  keyBytes := Msgpack.strHeader 2 ++ configKeyId
  key := configKeyId
  value := [42]
  key_str := by decide
  key_lt := by decide
  value_object := .cons rfl (by decide) .nil

/-- A number that does not fit the field. -/
def largeIdEntry : ConfigEntry :=
  { idEntry with
    value := Msgpack.uint 300
    value_object := .cons rfl (by decide) .nil }

theorem updateInvocation_args (m : ConfigMap) : (updateInvocation m).args.rest = m.bytes ++ [] := by
  rw [List.append_nil]
  exact Store.slice_ofList [] m.bytes

/-- An identifier that fits. -/
theorem config_update_truthful_iff_id :
    TruthfulUpdate (updateInvocation ⟨.fixmap, [idEntry], by decide⟩)
      ⟨.fixmap, [idEntry], by decide⟩
      (Prog.run blankPlatform.handler (commandConfigUpdate nucleoFirmware
        (updateInvocation ⟨.fixmap, [idEntry], by decide⟩)) ()) := by
  refine (config_update_truthful_iff nucleoFirmware Cmp.reference_read Cmp.reference_readStr
    Cmp.reference_write blankPlatform () _ (by decide) _ [] (updateInvocation_args _)).mpr ?_
  intro e he
  obtain rfl := List.mem_singleton.mp he
  exact ⟨.ID, .number 42, by decide, by decide⟩

/-- One that does not: the reply is true, and the entry is not applied. -/
theorem config_update_not_applied :
    ¬ TruthfulUpdate (updateInvocation ⟨.fixmap, [largeIdEntry], by decide⟩)
      ⟨.fixmap, [largeIdEntry], by decide⟩
      (Prog.run blankPlatform.handler (commandConfigUpdate nucleoFirmware
        (updateInvocation ⟨.fixmap, [largeIdEntry], by decide⟩)) ()) := by
  intro ⟨r, hr, happlied⟩
  have hreply : (updateInvocation ⟨.fixmap, [largeIdEntry], by decide⟩).out.written r.out =
      Msgpack.bool true := by
    obtain rfl := Option.some.inj hr
    decide
  rw [if_pos hreply] at happlied
  have hfits := (applyAll_isSome [largeIdEntry] _).mp (Option.isSome_iff_exists.mpr ⟨_, happlied⟩)
  obtain ⟨k, v, hk, hv⟩ := hfits largeIdEntry (by simp)
  obtain rfl : k = .ID := by
    have hid : largeIdEntry.configKey? = some .ID := by decide
    exact Option.some.inj (hk.symm.trans hid)
  exact absurd hv (by simp [ConfigKey.value?, largeIdEntry, Msgpack.uint, Msgpack.uint?])

/-! ## Unknown keys -/

/-- The map without the entries whose keys the parser does not know. -/
def ConfigMap.known (m : ConfigMap) : ConfigMap where
  format := m.format
  entries := m.entries.filter fun e => e.configKey?.isSome
  fits := lt_of_le_of_lt (List.length_filter_le _ _) m.fits

/-- The context of a map between other bytes. -/
def mapContext (front : List UInt8) (m : ConfigMap) (t : List UInt8) : CmpReader where
  buf := Store.ofList (front ++ (m.bytes ++ t))
  size := (front ++ (m.bytes ++ t)).length
  pos := front.length

theorem mapContext_rest (front : List UInt8) (m : ConfigMap) (t : List UInt8) :
    (mapContext front m t).rest = m.bytes ++ t := by
  have hlen : (front ++ (m.bytes ++ t)).length - front.length = (m.bytes ++ t).length := by
    rw [List.length_append, Nat.add_sub_cancel_left]
  rw [CmpReader.rest, mapContext, hlen]
  exact Store.slice_ofList front (m.bytes ++ t)

variable (fw) in
/-- The map has the same effect without its unknown keys and their values. -/
def IgnoresUnknown (l : Locals) (config : BootloaderConfig) (front : List UInt8) (m : ConfigMap)
    (t : List UInt8) : Prop :=
  configUpdateFromSerialized fw l config (mapContext front m t) =
    configUpdateFromSerialized fw l config (mapContext front m.known t)

/-- No round follows an unknown key: there is none, or only that of the last entry, and the
    values before it are ones that their readers take. -/
def UnknownLast (m : ConfigMap) : Prop :=
  (∀ e ∈ m.entries, e.configKey?.isSome = true) ∨
    ∃ entries last, m.entries = entries ++ [last] ∧ last.configKey? = none ∧
      ∀ e ∈ entries, e.Fits

theorem ConfigEntry.Fits.known {e : ConfigEntry} (h : e.Fits) : e.configKey?.isSome = true := by
  obtain ⟨k, v, hk, hv⟩ := h
  rw [hk, Option.isSome_some]

/-- Unknown keys are ignored where no round follows them. -/
theorem unknown_ignored (fw : Firmware) (hread : ReadLaw fw.cmp) (hstr : ReadStrLaw fw.cmp)
    (l : Locals) (config : BootloaderConfig) (front t : List UInt8) (m : ConfigMap)
    (hlast : UnknownLast m) : IgnoresUnknown fw l config front m t := by
  rcases hlast with hall | ⟨entries, last, hm, hunknown, hfits⟩
  · have hsame : m.known = m := by
      have hentries := List.filter_eq_self.mpr hall
      simp only [ConfigMap.known, hentries]
    rw [IgnoresUnknown, hsame]
  · have hknown : m.known.entries = entries := by
      have hfront := List.filter_eq_self.mpr fun e he => (hfits e he).known
      change m.entries.filter (fun e => e.configKey?.isSome) = entries
      rw [hm, List.filter_append, hfront, List.filter_singleton, hunknown]
      simp
    obtain ⟨config', happly⟩ :=
      Option.isSome_iff_exists.mp ((applyAll_isSome entries config).mpr hfits)
    -- with the last entry: one more round, which takes no branch
    obtain ⟨r, hr, hrounds⟩ :=
      configUpdateFromSerialized_eq hread m (mapContext_rest front m t) l config
    rw [hm, List.flatMap_append, List.append_assoc] at hr
    obtain ⟨key', r', hr', hloop⟩ := configUpdateLoop_applied hread hstr entries l.key config
      config' _ r happly hr
    rw [List.flatMap_singleton] at hr'
    obtain ⟨key'', r'', -, hround⟩ := configUpdateLoop_entry hstr hr' key' config'
    have hfull : configUpdateFromSerialized fw l config (mapContext front m t) = config' := by
      rw [hrounds, hm, List.length_append, List.length_singleton, hloop 1, hround 0, hunknown]
      rfl
    have happly' : applyAll config m.known.entries = some config' := by rw [hknown, happly]
    rw [IgnoresUnknown, hfull, configUpdateFromSerialized_applied hread hstr m.known
      (mapContext_rest front m.known t) l happly']

/-- A string with an unknown key takes the round of the entry behind it, which is lost. -/
theorem unknown_string_loses (hread : ReadLaw fw.cmp) (hstr : ReadStrLaw fw.cmp) (l : Locals)
    {config config' : BootloaderConfig} {m : ConfigMap} {t : List UInt8} {context : CmpReader}
    (hcontext : context.rest = m.bytes ++ t) {entries : List ConfigEntry} {e lost : ConfigEntry}
    {s : List UInt8} (hm : m.entries = entries ++ [e, lost])
    (happly : applyAll config entries = some config')
    (hunknown : e.configKey? = none) (hs : Msgpack.str? e.value = some (s, []))
    (hlen : s.length < 64) (hsunknown : ConfigKey.ofString? s = none) :
    configUpdateFromSerialized fw l config context = config' := by
  obtain ⟨r, hr, hrounds⟩ := configUpdateFromSerialized_eq hread m hcontext l config
  rw [hm, List.flatMap_append, List.append_assoc] at hr
  obtain ⟨key₁, r₁, hr₁, hloop⟩ := configUpdateLoop_applied hread hstr entries l.key config
    config' _ r happly hr
  rw [List.flatMap_cons, List.append_assoc] at hr₁
  obtain ⟨key₂, r₂, hr₂, hround₁⟩ := configUpdateLoop_entry hstr hr₁ key₁ config'
  -- the value is read as a key
  have hvalue := Msgpack.str?_more ([lost].flatMap ConfigEntry.bytes ++ t) hs
  rw [← hr₂] at hvalue
  obtain ⟨key₃, r₃, -, hround₂⟩ := configUpdateLoop_round hstr hvalue hlen hr₂ key₂ config'
  rw [hrounds, hm, List.length_append, List.length_cons, List.length_singleton, hloop 2,
    hround₁ 1, hunknown, Option.elim_none, hround₂ 0, hsunknown]
  rfl

/-- An identifier, and behind it a key that the parser does not know. -/
def unknownLastMap : ConfigMap where
  format := .fixmap
  entries := [idEntry,
    { idEntry with
      keyBytes := Msgpack.strHeader 3 ++ ascii "foo"
      key := ascii "foo"
      key_str := by decide
      key_lt := by decide }]
  fits := by decide

theorem unknown_ignored_last :
    IgnoresUnknown nucleoFirmware blankLocals blankConfig [] unknownLastMap [] := by
  refine unknown_ignored nucleoFirmware Cmp.reference_read Cmp.reference_readStr blankLocals
    blankConfig [] [] unknownLastMap (.inr ⟨[idEntry], _, rfl, by decide, ?_⟩)
  intro e he
  obtain rfl := List.mem_singleton.mp he
  exact ⟨.ID, .number 42, by decide, by decide⟩

/-- `"board_name": "foo"`, which is not a key of the parser. -/
def boardNameEntry : ConfigEntry where
  keyBytes := Msgpack.strHeader 10 ++ ascii "board_name"
  key := ascii "board_name"
  value := Msgpack.strHeader 3 ++ ascii "foo"
  key_str := by decide
  key_lt := by decide
  value_object := .cons rfl (by decide) .nil

/-- `"device_class": "bar"`. -/
def deviceClassEntry : ConfigEntry where
  keyBytes := Msgpack.strHeader 12 ++ configKeyDeviceClass
  key := configKeyDeviceClass
  value := Msgpack.strHeader 3 ++ ascii "bar"
  key_str := by decide
  key_lt := by decide
  value_object := .cons rfl (by decide) .nil

def boardNameMap : ConfigMap where
  format := .fixmap
  entries := [boardNameEntry, deviceClassEntry]
  fits := by decide

/-- The device class is not updated. -/
theorem unknown_not_ignored :
    ¬ IgnoresUnknown nucleoFirmware blankLocals blankConfig [] boardNameMap [] := by
  intro h
  have hfull : configUpdateFromSerialized nucleoFirmware blankLocals blankConfig
      (mapContext [] boardNameMap []) = blankConfig :=
    unknown_string_loses Cmp.reference_read Cmp.reference_readStr blankLocals
      (mapContext_rest [] boardNameMap [])
      (List.nil_append [boardNameEntry, deviceClassEntry]).symm rfl (by decide)
      (show Msgpack.str? _ = some (ascii "foo", []) by decide) (by decide) (by decide)
  have hknown : configUpdateFromSerialized nucleoFirmware blankLocals blankConfig
      (mapContext [] boardNameMap.known []) =
        ConfigKey.deviceClass.set blankConfig (.string (ascii "bar")) :=
    configUpdateFromSerialized_applied Cmp.reference_read Cmp.reference_readStr boardNameMap.known
      (mapContext_rest [] boardNameMap.known []) blankLocals rfl
  rw [IgnoresUnknown, hfull, hknown] at h
  exact absurd (congrArg (fun config => config.deviceClass 0) h) (by decide)

end CanBootloader
