/-
  Sequences of configuration updates.

  An update with well-typed values is a list of assignments to the fields. It is described by a
  patch, both of the values of the fields (`describes_get`) and of the bytes of the structure
  (`describes_read`), and what follows for patches follows for updates
  (`config_updates_last_writer`).
-/
import CanBootloader.Firmware.ConfigPages
import CanBootloader.Lib.Patch

namespace CanBootloader

open Lib

/-! ## Fields -/

/-- The value in the field of a key. -/
def ConfigKey.get (config : BootloaderConfig) : ConfigKey → ConfigValue
  | ID => .number config.ID.toNat
  | boardName => .string (cString config.boardName)
  | deviceClass => .string (cString config.deviceClass)
  | applicationCrc => .number config.applicationCrc.toNat
  | applicationSize => .number config.applicationSize.toNat
  | updateCount => .number config.updateCount.toNat

/-- A well-typed value: a byte, a string of at most 64 characters without NUL, or a 32-bit
    number. -/
def ConfigKey.Takes : ConfigKey → ConfigValue → Prop
  | ID, .number n => n < 2 ^ 8
  | boardName, .string s | deviceClass, .string s => s.length ≤ 64 ∧ 0 ∉ s
  | applicationCrc, .number n | applicationSize, .number n | updateCount, .number n => n < 2 ^ 32
  | _, _ => False

/-- An assignment to a field. -/
abbrev Assignment := ConfigKey × ConfigValue

theorem ConfigKey.get_set {k : ConfigKey} {v : ConfigValue} (h : k.Takes v)
    (config : BootloaderConfig) : k.get (k.set config v) = v := by
  have hnumber : ∀ {n : Nat}, n < 2 ^ 32 →
      ConfigValue.number (UInt32.ofNat n).toNat = .number n := by
    intro n hn
    rw [UInt32.toNat_ofNat_of_lt' hn]
  have hstring : ∀ {s : List UInt8} (old : Store), s.length ≤ 64 ∧ 0 ∉ s →
      ConfigValue.string (cString (old.blit 0 (s ++ [0]))) = .string s := by
    intro s old hs
    rw [cString_blit hs.2 hs.1]
  cases k with
  | ID =>
      cases v with
      | number n => exact congrArg ConfigValue.number (Msgpack.toNat_ofNat_of_lt h)
      | string s => exact h.elim
  | boardName =>
      cases v with
      | number n => exact h.elim
      | string s => exact hstring config.boardName h
  | deviceClass =>
      cases v with
      | number n => exact h.elim
      | string s => exact hstring config.deviceClass h
  | applicationCrc =>
      cases v with
      | number n => exact hnumber h
      | string s => exact h.elim
  | applicationSize =>
      cases v with
      | number n => exact hnumber h
      | string s => exact h.elim
  | updateCount =>
      cases v with
      | number n => exact hnumber h
      | string s => exact h.elim

theorem ConfigKey.get_set_other {k k' : ConfigKey} (h : k' ≠ k) (v : ConfigValue)
    (config : BootloaderConfig) : k'.get (k.set config v) = k'.get config := by
  cases k <;> cases v <;> cases k' <;> first | rfl | exact absurd rfl h

/-- An assignment, seen through the values of the fields. -/
theorem describes_get {x : Assignment} (h : x.1.Takes x.2) :
    Patch.Describes (fun k config => ConfigKey.get config k) (Patch.assign x.1 x.2)
      (fun config => x.1.set config x.2) := by
  intro config k
  rw [Patch.assign]
  split_ifs with hk
  · rw [hk]
    exact x.1.get_set h config
  · exact ConfigKey.get_set_other hk x.2 config

/-! ## Bytes -/

/-- The parts of a `bootloader_config_t`, down to the bytes of its arrays. -/
inductive ConfigCell where
  | ID
  | boardName (i : Nat)
  | deviceClass (i : Nat)
  | applicationCrc
  | applicationSize
  | updateCount
  | bootloaderCommit
  | bootloaderVersion

abbrev ConfigCell.Value : ConfigCell → Type
  | ID | boardName _ | deviceClass _ => UInt8
  | applicationCrc | applicationSize | updateCount => UInt32
  | bootloaderCommit | bootloaderVersion => List UInt8

def ConfigCell.read : (cell : ConfigCell) → BootloaderConfig → cell.Value
  | ID, config => config.ID
  | boardName i, config => config.boardName i
  | deviceClass i, config => config.deviceClass i
  | applicationCrc, config => config.applicationCrc
  | applicationSize, config => config.applicationSize
  | updateCount, config => config.updateCount
  | bootloaderCommit, config => config.bootloaderCommit
  | bootloaderVersion, config => config.bootloaderVersion

/-- The key whose field the part belongs to. -/
def ConfigCell.key? : ConfigCell → Option ConfigKey
  | ID => some .ID
  | boardName _ => some .boardName
  | deviceClass _ => some .deviceClass
  | applicationCrc => some .applicationCrc
  | applicationSize => some .applicationSize
  | updateCount => some .updateCount
  | bootloaderCommit | bootloaderVersion => none

theorem ConfigCell.separates : Patch.Separates ConfigCell.read := by
  intro a b h
  obtain ⟨aID, aName, aClass, aCrc, aSize, aCount, aCommit, aVersion⟩ := a
  obtain ⟨bID, bName, bClass, bCrc, bSize, bCount, bCommit, bVersion⟩ := b
  obtain rfl : aID = bID := h .ID
  obtain rfl : aName = bName := funext fun i => h (.boardName i)
  obtain rfl : aClass = bClass := funext fun i => h (.deviceClass i)
  obtain rfl : aCrc = bCrc := h .applicationCrc
  obtain rfl : aSize = bSize := h .applicationSize
  obtain rfl : aCount = bCount := h .updateCount
  obtain rfl : aCommit = bCommit := h .bootloaderCommit
  obtain rfl : aVersion = bVersion := h .bootloaderVersion
  rfl

/-- What an assignment overwrites: of a string as many bytes as it has, and its terminator. -/
def cellPatch : Assignment → Patch ConfigCell.Value
  | (.ID, .number n) => fun
    | .ID => some (UInt8.ofNat n)
    | _ => none
  | (.boardName, .string s) => fun
    | .boardName i => (s ++ [0])[i]?
    | _ => none
  | (.deviceClass, .string s) => fun
    | .deviceClass i => (s ++ [0])[i]?
    | _ => none
  | (.applicationCrc, .number n) => fun
    | .applicationCrc => some (UInt32.ofNat n)
    | _ => none
  | (.applicationSize, .number n) => fun
    | .applicationSize => some (UInt32.ofNat n)
    | _ => none
  | (.updateCount, .number n) => fun
    | .updateCount => some (UInt32.ofNat n)
    | _ => none
  | _ => fun _ => none

theorem cellPatch_other {x : Assignment} {cell : ConfigCell} (h : cell.key? ≠ some x.1) :
    cellPatch x cell = none := by
  obtain ⟨k, v⟩ := x
  cases k <;> cases v <;> cases cell <;> first | rfl | exact absurd rfl h

theorem blit_zero_apply (old : Store) (bs : List UInt8) (i : Nat) :
    old.blit 0 bs i = (bs[i]?).getD (old i) := by
  rw [Store.blit_apply, if_neg (Nat.not_lt_zero i), Nat.sub_zero, List.getD_eq_getElem?_getD]

/-- An assignment, seen through the bytes of the structure. -/
theorem describes_read (x : Assignment) :
    Patch.Describes ConfigCell.read (cellPatch x) (fun config => x.1.set config x.2) := by
  intro config cell
  obtain ⟨k, v⟩ := x
  cases k <;> cases v <;> cases cell <;> first | rfl | exact blit_zero_apply _ _ _

/-! ## Updates -/

/-- The entry is this assignment, with a well-typed value. -/
def ConfigEntry.Sends (e : ConfigEntry) (x : Assignment) : Prop :=
  e.configKey? = some x.1 ∧ x.1.value? e.value = some x.2 ∧ x.1.Takes x.2

/-- A configuration update whose map holds these assignments, and the bytes behind it. -/
structure ConfigUpdate where
  invocation : Invocation
  map : ConfigMap
  trailing : List UInt8
  sent : List Assignment
  args_rest : invocation.args.rest = map.bytes ++ trailing
  entries_send : List.Forall₂ ConfigEntry.Sends map.entries sent

/-- The assignments in the order of the map. -/
def assignAll (config : BootloaderConfig) (xs : List Assignment) : BootloaderConfig :=
  xs.foldl (fun config x => x.1.set config x.2) config

theorem applyAll_sent {entries : List ConfigEntry} {sent : List Assignment}
    (h : List.Forall₂ ConfigEntry.Sends entries sent) (config : BootloaderConfig) :
    applyAll config entries = some (assignAll config sent) := by
  induction h generalizing config with
  | nil => rfl
  | @cons e x entries sent hx _ ih =>
      have hstep : e.applied? config = some (x.1.set config x.2) := by
        simp [ConfigEntry.applied?, hx.1, hx.2.1]
      rw [applyAll, List.foldlM_cons, hstep]
      exact ih _

/-- The same map sends the same. -/
theorem ConfigUpdate.sent_eq {x y : ConfigUpdate} (h : x.map = y.map) : x.sent = y.sent := by
  have hunique : Relator.RightUnique ConfigEntry.Sends := by
    intro e a b ha hb
    obtain ⟨k, v⟩ := a
    obtain ⟨k', v'⟩ := b
    obtain rfl : k = k' := Option.some.inj (ha.1.symm.trans hb.1)
    obtain rfl : v = v' := Option.some.inj (ha.2.1.symm.trans hb.2.1)
    rfl
  have hx := x.entries_send
  rw [h] at hx
  exact List.right_unique_forall₂' hunique hx y.entries_send

variable (fw : Firmware)

/-- The commands of a sequence, each on the configuration that the one before it has left. -/
def runUpdates (config : BootloaderConfig) : List ConfigUpdate → Code BootloaderConfig
  | [] => return config
  | x :: xs => do
      let r ← commandConfigUpdate fw { x.invocation with config }
      runUpdates r.config xs

variable {fw}

/-- What a sequence does is the assignments of its maps. -/
theorem runUpdates_eq (hread : ReadLaw fw.cmp) (hstr : ReadStrLaw fw.cmp) (xs : List ConfigUpdate) :
    ∀ config, runUpdates fw config xs =
      Prog.ret (assignAll config (xs.flatMap ConfigUpdate.sent)) := by
  induction xs with
  | nil =>
      intro config
      rfl
  | cons x xs ih =>
      intro config
      have hupdate : configUpdateFromSerialized fw x.invocation.locals config x.invocation.args =
          assignAll config x.sent :=
        configUpdateFromSerialized_applied hread hstr x.map x.args_rest x.invocation.locals
          (applyAll_sent x.entries_send config)
      have hcommand : runUpdates fw config (x :: xs) = runUpdates fw (assignAll config x.sent) xs :=
        congrArg (runUpdates fw · xs) hupdate
      rw [hcommand, ih, List.flatMap_cons, assignAll, assignAll, assignAll, List.foldl_append]

/-! ## Sequences -/

/-- What a list of assignments overwrites. -/
def cellPatches (xs : List Assignment) : Patch ConfigCell.Value := .ofList (xs.map cellPatch)

theorem describes_assignAll (xs : List Assignment) :
    Patch.Describes ConfigCell.read (cellPatches xs) (fun config => assignAll config xs) :=
  .foldl xs fun x _ => describes_read x

/-- A part of the structure whose key is not among them. -/
theorem cellPatches_other {xs : List Assignment} {cell : ConfigCell}
    (h : ∀ x ∈ xs, cell.key? ≠ some x.1) : cellPatches xs cell = none := by
  refine Patch.ofList_eq_none fun a ha => ?_
  obtain ⟨x, hx, rfl⟩ := List.mem_map.mp ha
  exact cellPatch_other (h x hx)

theorem get_assignAll {xs : List Assignment} (h : ∀ x ∈ xs, x.1.Takes x.2)
    (config : BootloaderConfig) (k : ConfigKey) :
    k.get (assignAll config xs) = (Patch.lastFor xs k).getD (k.get config) := by
  have hall := Patch.Describes.foldl xs fun x hx => describes_get (h x hx)
  rw [Patch.ofList_assign] at hall
  exact hall config k

theorem takes_of_sends {entries : List ConfigEntry} {sent : List Assignment}
    (h : List.Forall₂ ConfigEntry.Sends entries sent) : ∀ x ∈ sent, x.1.Takes x.2 := by
  induction h with
  | nil => simp
  | cons hx _ ih => exact List.forall_mem_cons.mpr ⟨hx.2.2, ih⟩

/-- Each field ends with the last value that was sent for it, and keeps its bytes if there is
    none; updates without a common key commute; and the last update can come again. -/
theorem config_updates_last_writer (fw : Firmware) (hread : ReadLaw fw.cmp)
    (hstr : ReadStrLaw fw.cmp) (config : BootloaderConfig) :
    (∀ xs : List ConfigUpdate, ∃ final, runUpdates fw config xs = Prog.ret final ∧
      (∀ k : ConfigKey, k.get final =
        (Patch.lastFor (xs.flatMap ConfigUpdate.sent) k).getD (k.get config)) ∧
      ∀ cell : ConfigCell, (∀ x ∈ xs, ∀ a ∈ x.sent, cell.key? ≠ some a.1) →
        cell.read final = cell.read config) ∧
    (∀ (xs ys : List ConfigUpdate) (x y : ConfigUpdate), (∀ a ∈ x.sent, ∀ b ∈ y.sent, a.1 ≠ b.1) →
      runUpdates fw config (xs ++ x :: y :: ys) = runUpdates fw config (xs ++ y :: x :: ys)) ∧
    ∀ (xs : List ConfigUpdate) (x y : ConfigUpdate), y.map = x.map →
      runUpdates fw config (xs ++ [x, y]) = runUpdates fw config (xs ++ [x]) := by
  simp only [runUpdates_eq hread hstr]
  refine ⟨fun xs => ⟨_, rfl, fun k => ?_, fun cell hcell => ?_⟩, fun xs ys x y hdisjoint => ?_,
    fun xs x y hmap => ?_⟩
  · refine get_assignAll (fun a ha => ?_) config k
    obtain ⟨x, -, hx⟩ := List.mem_flatMap.mp ha
    exact takes_of_sends x.entries_send a hx
  · have hnone : cellPatches (xs.flatMap ConfigUpdate.sent) cell = none := by
      refine cellPatches_other fun a ha => ?_
      obtain ⟨x, hx, hax⟩ := List.mem_flatMap.mp ha
      exact hcell x hx a hax
    have hcells := describes_assignAll (xs.flatMap ConfigUpdate.sent) config cell
    rwa [hnone, Option.getD_none] at hcells
  · have hcells : ∀ cell, cellPatches x.sent cell = none ∨ cellPatches y.sent cell = none := by
      intro cell
      by_cases hcell : ∀ a ∈ x.sent, cell.key? ≠ some a.1
      · exact .inl (cellPatches_other hcell)
      · push Not at hcell
        obtain ⟨a, ha, hkey⟩ := hcell
        refine .inr (cellPatches_other fun b hb heq => hdisjoint a ha b hb ?_)
        exact Option.some.inj (hkey.symm.trans heq)
    have hcommute := Patch.Describes.commute ConfigCell.separates (describes_assignAll x.sent)
      (describes_assignAll y.sent) hcells (assignAll config (xs.flatMap ConfigUpdate.sent))
    simp only [assignAll] at hcommute
    simp only [List.flatMap_append, List.flatMap_cons, assignAll, List.foldl_append, hcommute]
  · have hagain := (describes_assignAll x.sent).idempotent ConfigCell.separates
      (assignAll config (xs.flatMap ConfigUpdate.sent))
    simp only [assignAll] at hagain
    simp only [List.flatMap_append, List.flatMap_cons, List.flatMap_nil, List.append_nil, assignAll,
      List.foldl_append, ConfigUpdate.sent_eq hmap, hagain]

/-- An update of the ID. -/
def idUpdate : ConfigUpdate where
  invocation := updateInvocation ⟨.fixmap, [idEntry], by decide⟩
  map := ⟨.fixmap, [idEntry], by decide⟩
  trailing := []
  sent := [(.ID, .number 42)]
  args_rest := updateInvocation_args _
  entries_send := .cons ⟨by decide, by decide, show 42 < 2 ^ 8 by decide⟩ .nil

/-- The ID behind it, once or twice. -/
theorem config_updates_last_writer_ID : ∃ final,
    runUpdates nucleoFirmware blankConfig [idUpdate, idUpdate] = Prog.ret final ∧
      ConfigKey.ID.get final = .number 42 := by
  obtain ⟨hlast, -, hagain⟩ := config_updates_last_writer nucleoFirmware Cmp.reference_read
    Cmp.reference_readStr blankConfig
  obtain ⟨final, hrun, hget, -⟩ := hlast [idUpdate]
  exact ⟨final, (hagain [] idUpdate idUpdate rfl).trans hrun, hget .ID⟩

end CanBootloader
