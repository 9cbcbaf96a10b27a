/-
  Which command changes which part of flash memory.

  The code of the bootloader, the configuration pages and the application are regions of flash
  memory. A `Life` of a board is any sequence of datagrams that it executes, with power cuts at any
  moment, on hardware whose operations may fail: an erase may leave anything in its sector and a
  write anything in its range, also when they complete.

  * `region_unchanged`: in every life the code stays as it is, the configuration pages unless a
    save is executed, and the application unless an erase or a write is. A run of the main loop is
    a life (`BoardRun.life`).
-/
import CanBootloader.Client.MainLoop
import CanBootloader.Firmware.FlashSafety

namespace CanBootloader

open Lib

variable {board : Stm32f4Board} {fw : Firmware}

/-! ## Regions -/

inductive Region where
  | code
  | config
  | application

variable (fw) in
def Region.Contains : Region → UInt32 → Prop
  | code, x => fw.flashBegin ≤ x ∧ x < fw.config1
  | config, x => fw.config1 ≤ x ∧ x < fw.app
  | application, x => fw.app ≤ x ∧ x < fw.flashEnd

instance : (region : Region) → (x : UInt32) → Decidable (region.Contains fw x)
  | .code, _ => inferInstanceAs (Decidable (_ ∧ _))
  | .config, _ => inferInstanceAs (Decidable (_ ∧ _))
  | .application, _ => inferInstanceAs (Decidable (_ ∧ _))

/-- The commands that may change a region. -/
def Region.commands : Region → List UInt8
  | code => []
  | config => [8]
  | application => [3, 4]

/-- Memory at these addresses is as in `m0`. -/
def Keeps (P : UInt32 → Prop) (m0 : Mem) (w : FlashWorld) : Prop := ∀ x, P x → w.mem x = m0 x

variable {P : UInt32 → Prop} {m0 : Mem}

/-! ## The writer -/

/-- Calls of the writer that change nothing at these addresses. -/
def FlashOp.Spares (board : Stm32f4Board) (P : UInt32 → Prop) : FlashOp → Prop
  | .flashEraseSector sector =>
      sector.toNat < board.sectorCount ∧ ∀ x, P x → ¬ InSector sector.toNat x
  | .flashProgram address data => ∀ x, P x → data.length ≤ (x - address).toNat
  | _ => True

theorem keeps_during {op : FlashOp} (hop : op.Spares board P) {w w' : FlashWorld}
    (hw : Keeps P m0 w) (h : (stm32f4Faulty board).during op w w') : Keeps P m0 w' := by
  intro x hx
  cases op with
  | flashEraseSector sector => exact (h.2 hop.1 x (hop.2 x hx)).trans (hw x hx)
  | flashProgram address data => exact (h.2 x (hop x hx)).trans (hw x hx)
  | _ => exact h.elim

theorem keeps_done {op : FlashOp} (hop : op.Spares board P) {w w' : FlashWorld} {r : op.Resp}
    (hw : Keeps P m0 w) (h : (stm32f4Faulty board).done op w r w') : Keeps P m0 w' := by
  intro x hx
  cases op with
  | flashEraseSector sector => exact (h.2 hop.1 x (hop.2 x hx)).trans (hw x hx)
  | flashProgram address data => exact (h.2 x (hop x hx)).trans (hw x hx)
  | _ =>
      rw [quiet_done (by trivial) h]
      exact hw x hx

theorem preserves_spares {α : Type} {p : FlashCode α} (hp : p.AllCalls (FlashOp.Spares board P)) :
    p.Preserves (stm32f4Faulty board) (Keeps P m0) :=
  .of_allCalls hp (fun _ _ _ hop => keeps_during hop) fun _ _ _ _ hop => keeps_done hop

/-- The calls of the writer besides those that erase and program. -/
def FlashOp.Housekeeping : FlashOp → Prop
  | .flashEraseSector _ => False
  | .flashProgram _ _ => False
  | .rebootSystem _ => False
  | _ => True

theorem FlashOp.Housekeeping.spares {op : FlashOp} (h : op.Housekeeping) : op.Spares board P := by
  cases op with
  | flashEraseSector sector => exact h.elim
  | flashProgram address data => exact h.elim
  | _ => trivial

section Writer

variable {Q : FlashOp → Prop} (hQ : ∀ op : FlashOp, op.Housekeeping → Q op)

include hQ

theorem pageErase_allCalls {page : UInt32}
    (herase : Q (.flashEraseSector (flashAddressToSector board page))) :
    (stm32f4PageErase board page).AllCalls Q := by
  unfold stm32f4PageErase
  simp only
  split_ifs
  · trivial
  refine ⟨hQ _ trivial, fun erased => ?_⟩
  cases erased with
  | true => trivial
  | false =>
      refine ⟨hQ _ trivial, fun _ => ⟨hQ _ trivial, fun _ => ⟨herase, fun _ =>
        ⟨hQ _ trivial, ?_⟩⟩⟩⟩
      intro failed
      cases failed with
      | true => exact ⟨hQ _ trivial, fun _ => trivial⟩
      | false => exact ⟨hQ _ trivial, fun _ => trivial⟩

theorem markSectors_allCalls (stop : UInt32) (a : ValidAddress board) :
    (markSectors board stop a).AllCalls Q := by
  induction a using markSectors.induct board stop with
  | case1 a hlt sector hmax =>
      rw [markSectors, if_pos hlt, if_pos hmax]
      trivial
  | case2 a hlt sector hmax ih =>
      rw [markSectors, if_pos hlt, if_neg hmax]
      refine ⟨hQ _ trivial, fun _ => ?_⟩
      split_ifs with hnext
      · exact ih hnext
      · trivial
  | case3 a hlt =>
      rw [markSectors, if_neg hlt]
      trivial

theorem pageWrite_allCalls {page : UInt32} {data : List UInt8}
    (hprogram : Q (.flashProgram page data)) : (stm32f4PageWrite board page data).AllCalls Q := by
  unfold stm32f4PageWrite
  simp only
  split_ifs
  · refine (markSectors_allCalls hQ _ _).bind fun marked => ?_
    cases marked with
    | true =>
        refine ⟨hQ _ trivial, fun _ => ⟨hQ _ trivial, fun _ => ⟨hprogram, fun _ =>
          ⟨hQ _ trivial, ?_⟩⟩⟩⟩
        intro failed
        cases failed with
        | true => exact ⟨hQ _ trivial, fun _ => trivial⟩
        | false => trivial
    | false => trivial
  · trivial

end Writer

/-! ## Calls -/

/-- Calls of the portable code that change nothing at these addresses. -/
def Call.Spares (board : Stm32f4Board) (P : UInt32 → Prop) (call : Call) : Prop :=
  (stm32f4 board call).AllCalls (FlashOp.Spares board P)

theorem Call.Quiet.spares {call : Call} (h : call.Quiet) : call.Spares board P := by
  cases call with
  | flashWriterPageErase page => exact h.elim
  | flashWriterPageWrite page data => exact h.elim
  | _ => exact ⟨trivial, fun _ => trivial⟩

theorem preserves_spareCalls {α : Type} {p : Code α} (hp : p.AllCalls (Call.Spares board P)) :
    p.Preserves (stm32f4FaultySemantics board) (Keeps P m0) :=
  .of_allCalls hp (fun _ w w' hcall hw h => (preserves_spares hcall w hw).1 w' h)
    fun _ w r w' hcall hw h => (preserves_spares hcall w hw).2 r w' h

theorem quiet_spares {α : Type} {p : Code α} (hp : p.AllCalls Call.Quiet) :
    p.AllCalls (Call.Spares board P) :=
  hp.mono fun _ => Call.Quiet.spares

/-! ## Commands -/

theorem app_le_flashEnd (board : Stm32f4Board) : board.app.toNat ≤ board.flashEnd.toNat := by
  have h := board.app_end
  omega

/-- An address in one configuration page is a page size away from the other. -/
theorem inConfigPage_apart {i : Slot} {x : UInt32} (hx : InConfigPage fw i.other x) :
    fw.configPageSize ≤ (x - fw.configPage i).toNat := by
  obtain ⟨hlow, hhigh⟩ := hx
  have h := configPage_apart (configPage_ne_other fw i)
    (k := x.toNat - (fw.configPage i.other).toNat) (by omega)
  have hlt := x.toNat_lt
  rwa [show fw.configPage i.other + UInt32.ofNat (x.toNat - (fw.configPage i.other).toNat) = x from
    UInt32.toNat.inj (by rw [toNat_add_ofNat (by omega)]; omega)] at h

/-- The writer at a configuration page, of which these addresses are no part. -/
theorem configPage_spares (hmap : fw.toMemoryMap = board.toMemoryMap)
    (hlayout : (Mcu.stm32f4 board).Layout fw) (i : Slot)
    (hP : ∀ x, P x → InConfigPage fw i.other x ∨ x < fw.config1 ∨ fw.app ≤ x)
    {data : List UInt8} (hdata : data.length = fw.configPageSize) :
    (Call.flashWriterPageErase (fw.configPage i)).Spares board P ∧
      (Call.flashWriterPageWrite (fw.configPage i) data).Spares board P := by
  constructor
  · refine pageErase_allCalls (fun _ => FlashOp.Housekeeping.spares) ⟨?_, fun x hx => ?_⟩
    · obtain ⟨sector, -, hpages⟩ := hlayout
      obtain ⟨hstart, happ, -, -⟩ := hpages i
      rw [inSector_of_configPage hmap i hstart (sectorSize_pos _)]
      by_contra hge
      have hcount := sectorStart_mono (not_lt.mp hge)
      have hlt := sectorStart_strictMono happ
      have hend := app_le_flashEnd board
      rw [board.app_eq, board.flashEnd_eq] at hend
      omega
    · exact Mcu.not_unit_of_configPage hmap hlayout i (hP x hx)
  · refine pageWrite_allCalls (fun _ => FlashOp.Housekeeping.spares) fun x hx => ?_
    have hstart := config1_le_configPage fw i
    have hend := configPage_end fw i
    have happ := fw.app.toNat_lt
    rw [hdata]
    rcases hP x hx with hpage | hlow | hhigh
    · exact inConfigPage_apart hpage
    · exact le_toNat_sub (UInt32.lt_iff_toNat_lt.mpr
        ((UInt32.lt_iff_toNat_lt.mp hlow).trans_le hstart)) (by omega)
    · rw [UInt32.le_iff_toNat_le] at hhigh
      rw [UInt32.toNat_sub_of_le _ _ (UInt32.le_iff_toNat_le.mpr (by omega))]
      omega

theorem flashWriteAndVerify_spares (hmap : fw.toMemoryMap = board.toMemoryMap)
    (hlayout : (Mcu.stm32f4 board).Layout fw) (hP : ∀ x, P x → x < fw.config1 ∨ fw.app ≤ x)
    (i : Slot) {data : List UInt8} (hdata : data.length = fw.configPageSize) :
    (flashWriteAndVerify fw (fw.configPage i) data).AllCalls (Call.Spares board P) := by
  obtain ⟨herase, hwrite⟩ :=
    configPage_spares hmap hlayout i (fun x hx => .inr (hP x hx)) hdata
  exact ⟨Call.Quiet.spares trivial, fun _ => ⟨herase, fun _ => ⟨hwrite, fun _ =>
    ⟨Call.Quiet.spares trivial, fun _ => ⟨Call.Quiet.spares trivial, fun _ => trivial⟩⟩⟩⟩⟩

/-- A save stays in the configuration pages. -/
theorem save_spares (hmap : fw.toMemoryMap = board.toMemoryMap)
    (hlayout : (Mcu.stm32f4 board).Layout fw) (hP : ∀ x, P x → x < fw.config1 ∨ fw.app ≤ x)
    (i : Invocation) : (commandConfigWriteToFlash fw i).AllCalls (Call.Spares board P) := by
  have hpage : ∀ slot, (flashWriteAndVerify fw (fw.configPage slot) (savedPage fw i)).AllCalls
      (Call.Spares board P) :=
    fun slot => flashWriteAndVerify_spares hmap hlayout hP slot (savedPage_length fw i)
  refine .bind (?_ : (saveConfigPages fw (savedPage fw i)).AllCalls _) fun _ => trivial
  unfold saveConfigPages
  refine .bind ⟨Call.Quiet.spares trivial, fun _ => trivial⟩ fun m => ?_
  split_ifs
  · exact .bind (hpage .first) fun b => by split_ifs; exacts [hpage .second, trivial]
  · exact .bind (hpage .second) fun b => by split_ifs; exacts [hpage .first, trivial]
  · exact .bind (hpage .first) fun _ => .bind (hpage .second) fun _ => trivial

theorem jump_quiet (i : Invocation) : (commandJumpToApplication fw i).AllCalls Call.Quiet := by
  unfold commandJumpToApplication jumpToApplication
  split_ifs
  · refine ⟨trivial, fun m => ?_⟩
    show Prog.AllCalls _ (ite _ _ _)
    split_ifs
    · exact ⟨trivial, fun r => r.elim⟩
    · exact ⟨trivial, fun r => r.elim⟩
  · exact ⟨trivial, fun r => r.elim⟩

theorem crcRegion_quiet (i : Invocation) : (commandCrcRegion fw i).AllCalls Call.Quiet := by
  unfold commandCrcRegion
  simp only
  split_ifs
  · trivial
  · trivial
  · trivial
  · exact ⟨trivial, fun _ => trivial⟩

/-- Three commands call the flash writer to erase or write. -/
theorem callback_flash {cmd : Command} (h : cmd ∈ commands fw) :
    (cmd.index = 3 ∧ cmd.callback = commandEraseFlashPage fw) ∨
      (cmd.index = 4 ∧ cmd.callback = commandWriteFlash fw) ∨
      (cmd.index = 8 ∧ cmd.callback = commandConfigWriteToFlash fw) ∨
      (cmd.index ∉ ([3, 4, 8] : List UInt8) ∧ ∀ i, (cmd.callback i).AllCalls Call.Quiet) := by
  simp only [commands, List.mem_cons, List.not_mem_nil, or_false] at h
  rcases h with rfl | rfl | rfl | rfl | rfl | rfl | rfl | rfl | rfl | rfl
  · exact .inr (.inr (.inr ⟨by simp, jump_quiet⟩))
  · exact .inr (.inr (.inr ⟨by simp, crcRegion_quiet⟩))
  · exact .inl ⟨rfl, rfl⟩
  · exact .inr (.inl ⟨rfl, rfl⟩)
  · exact .inr (.inr (.inr ⟨by simp, fun _ => trivial⟩))
  · exact .inr (.inr (.inr ⟨by simp, fun _ => ⟨trivial, fun _ => trivial⟩⟩))
  · exact .inr (.inr (.inr ⟨by simp, fun _ => trivial⟩))
  · exact .inr (.inr (.inl ⟨rfl, rfl⟩))
  · exact .inr (.inr (.inr ⟨by simp, fun _ => trivial⟩))
  · exact .inr (.inr (.inr ⟨by simp, fun _ => trivial⟩))

/-! ## Datagrams -/

variable (fw) in
/-- The command that the dispatcher looks up, if it comes to that and the table has it. -/
def DatagramCall.command (x : DatagramCall) : Option Command :=
  let commandVersion := fw.cmp.readInt (.init x.data x.dataLen) x.locals.commandVersion
  let commandIndex := fw.cmp.readInt commandVersion.reader 0
  if commandVersion.value ≠ commandSetVersion then none
  else if !commandIndex.ok then none
  else getCommandByIndex fw (UInt8.ofInt commandIndex.value)

/-- The command that a payload names. -/
theorem DatagramCall.command_of_index (hread : ReadLaw fw.cmp) {x : DatagramCall}
    {payload rest rest' : List UInt8} {index : Int} (hx : x.Carries payload)
    (hversion : Msgpack.int32? payload = some (commandSetVersion, rest))
    (hindex : Msgpack.int32? rest = some (index, rest')) :
    x.command fw = getCommandByIndex fw (UInt8.ofInt index) := by
  rw [← (hx : x.data.slice 0 x.dataLen = payload)] at hversion
  obtain ⟨pre, hpre⟩ := Msgpack.int32?_suffix hversion
  have hr1 := hread.readInt (.init x.data x.dataLen) x.locals.commandVersion _ _ hversion
  have hrest := CmpReader.rest_seek (r := .init x.data x.dataLen) hpre.symm
  have hr2 := hread.readInt _ 0 _ _ (hrest.symm ▸ hindex)
  unfold DatagramCall.command
  rw [hr1]
  simp [hr2]

/-- Without a command there is no call; else its callback is called. -/
theorem DatagramCall.code_cases (fw : Firmware) (x : DatagramCall) :
    (∃ e, x.code fw = Prog.ret e) ∨
      ∃ cmd ∈ commands fw, x.command fw = some cmd ∧ ∃ i : Invocation,
        x.code fw = cmd.callback i >>= fun r => Prog.ret ⟨r.out.pos, r.out.buf, r.config⟩ := by
  unfold DatagramCall.code executeDatagramCommands DatagramCall.command
  simp only
  split
  · exact .inl ⟨_, rfl⟩
  · split
    · exact .inl ⟨_, rfl⟩
    · split
      · next cmd hcmd =>
          exact .inr ⟨cmd, List.mem_of_find?_eq_some hcmd, hcmd, _, rfl⟩
      · exact .inl ⟨_, rfl⟩

variable (fw) in
/-- None of these datagrams has a command that may change the region. -/
def Region.Untouched (region : Region) (calls : List DatagramCall) : Prop :=
  ∀ x ∈ calls, ∀ cmd, x.command fw = some cmd → cmd.index ∉ region.commands

theorem keeps_of_belowApp (hmap : fw.toMemoryMap = board.toMemoryMap) {w : FlashWorld}
    (h : KeepsBelowApp board m0 w) {region : Region} (hne : region ≠ .application) :
    Keeps (region.Contains fw) m0 w := by
  intro a ha
  have hlow := fw.flashBegin_lt
  have hhigh := UInt32.lt_trans fw.config1_lt fw.config2_lt
  rw [hmap] at hlow hhigh
  cases region with
  | code =>
      simp only [Region.Contains, hmap] at ha
      exact h a ha.1 (UInt32.lt_trans ha.2 hhigh)
  | config =>
      simp only [Region.Contains, hmap] at ha
      exact h a (UInt32.le_of_lt (UInt32.lt_of_lt_of_le hlow ha.1)) ha.2
  | application => exact absurd rfl hne

section Life

variable (hmap : fw.toMemoryMap = board.toMemoryMap) (hlayout : (Mcu.stm32f4 board).Layout fw)

include hmap hlayout

/-- What is visible of one datagram. -/
theorem region_of_visible {region : Region} {x : DatagramCall}
    (hregion : region.Untouched fw [x]) {w v : FlashWorld} (hbegin : w.mem fw.flashBegin ≠ 0xFF)
    (h : Prog.Visible (stm32f4FaultySemantics board) (x.code fw) w v) :
    Keeps (region.Contains fw) w.mem v := by
  have hself : Keeps (region.Contains fw) w.mem w := fun _ _ => rfl
  rcases x.code_cases fw with ⟨e, heq⟩ | ⟨cmd, hcmd, hx, i, heq⟩
  · rw [heq] at h
    rwa [show v = w from h]
  have hindex := hregion x (List.mem_singleton_self x) cmd hx
  -- an invariant of the callback is one of the datagram
  have hinv : ∀ {I : FlashWorld → Prop}, I w →
      (cmd.callback i).Preserves (stm32f4FaultySemantics board) I → I v := by
    intro I hw hcallback
    rw [heq] at h
    exact ((hcallback.bind fun r => .ret _) w hw).1 v h
  rw [hmap] at hbegin
  rcases callback_flash hcmd with ⟨h3, hc⟩ | ⟨h4, hc⟩ | ⟨h8, hc⟩ | ⟨-, hquiet⟩
  · refine keeps_of_belowApp hmap (hinv (fun _ _ _ => rfl) (hc ▸ preserves_erase hmap i)) ?_
    rintro rfl
    exact hindex (by simp [h3, Region.commands])
  · refine keeps_of_belowApp hmap
      (hinv (fun _ _ _ => rfl) (hc ▸ preserves_write hmap hbegin i)) ?_
    rintro rfl
    exact hindex (by simp [h4, Region.commands])
  · refine hinv hself (hc ▸ preserves_spareCalls (save_spares hmap hlayout (fun a ha => ?_) i))
    cases region with
    | code => exact .inl ha.2
    | config => exact absurd (by simp [h8, Region.commands]) hindex
    | application => exact .inr ha.1
  · exact hinv hself (preserves_spareCalls (quiet_spares (hquiet i)))

omit hmap hlayout

variable (board fw) in
/-- A life of a board: datagrams that it executes, some of them up to a power cut, and resets.
    The flags of the sectors do not survive a reset. -/
inductive Life : FlashWorld → List DatagramCall → FlashWorld → Prop
  | nil (w : FlashWorld) : Life w [] w
  | executes {w u v : FlashWorld} {x : DatagramCall} {e : Execution} {calls : List DatagramCall}
      (h : Prog.Runs (stm32f4FaultySemantics board) (x.code fw) w e u) (hrest : Life u calls v) :
      Life w (x :: calls) v
  | cut {w u v : FlashWorld} {x : DatagramCall} {flags : Nat → Bool} {calls : List DatagramCall}
      (h : Prog.Visible (stm32f4FaultySemantics board) (x.code fw) w u)
      (hrest : Life ⟨u.mem, flags⟩ calls v) : Life w (x :: calls) v
  | reset {w v : FlashWorld} {flags : Nat → Bool} {calls : List DatagramCall}
      (hrest : Life ⟨w.mem, flags⟩ calls v) : Life w calls v

/-- What every datagram keeps at every moment of it, a life keeps. -/
theorem Life.preserves {I : Mem → Prop} {w v : FlashWorld} {calls : List DatagramCall}
    (h : Life board fw w calls v) (hcalls : ∀ x ∈ calls, ∀ u u' : FlashWorld, I u.mem →
      Prog.Visible (stm32f4FaultySemantics board) (x.code fw) u u' → I u'.mem) (hw : I w.mem) :
    I v.mem := by
  induction h with
  | nil w => exact hw
  | executes h _ ih =>
      obtain ⟨hfirst, hrest⟩ := List.forall_mem_cons.mp hcalls
      exact ih hrest (hfirst _ _ hw h.visible)
  | cut h _ ih =>
      obtain ⟨hfirst, hrest⟩ := List.forall_mem_cons.mp hcalls
      have hu := hfirst _ _ hw h
      exact ih hrest hu
  | reset _ ih => exact ih hcalls hw

include hmap hlayout

theorem begin_of_visible {x : DatagramCall} {w v : FlashWorld}
    (hbegin : w.mem fw.flashBegin ≠ 0xFF)
    (h : Prog.Visible (stm32f4FaultySemantics board) (x.code fw) w v) :
    v.mem fw.flashBegin ≠ 0xFF := by
  have hcode : Keeps (Region.code.Contains fw) w.mem v :=
    region_of_visible hmap hlayout (fun _ _ _ _ => List.not_mem_nil) hbegin h
  rw [hcode _ ⟨UInt32.le_refl _, fw.flashBegin_lt⟩]
  exact hbegin

theorem keeps_of_life {region : Region} {w v : FlashWorld} {calls : List DatagramCall}
    (h : Life board fw w calls v) (hbegin : w.mem fw.flashBegin ≠ 0xFF)
    (hcalls : region.Untouched fw calls) : Keeps (region.Contains fw) w.mem v := by
  refine (h.preserves (I := fun m => m fw.flashBegin ≠ 0xFF ∧
    ∀ a, region.Contains fw a → m a = w.mem a) ?_ ⟨hbegin, fun _ _ => rfl⟩).2
  rintro x hx u u' ⟨hu, hkept⟩ hvisible
  refine ⟨begin_of_visible hmap hlayout hu hvisible, fun a ha => ?_⟩
  have honly : region.Untouched fw [x] := fun y hy => List.mem_singleton.mp hy ▸ hcalls x hx
  rw [region_of_visible hmap hlayout honly hu hvisible a ha, hkept a ha]

end Life

/-! ## Runs of the main loop -/

/-- What the platform does to flash memory is something that the hardware may do. -/
def Platform.Behaves {σ : Type} (board : Stm32f4Board) (p : Platform σ) (flash : σ → FlashWorld) :
    Prop :=
  ∀ op w r v, p.handler op w = some (r, v) →
    (stm32f4FaultySemantics board).done op (flash w) r (flash v)

/-- Not to fail is something that it may do. -/
theorem stm32f4_behaves (board : Stm32f4Board) : (Mcu.stm32f4 board).platform.Behaves board id := by
  let Answered : FlashOp → Prop := fun op => ∀ w, ∃ r v, stm32f4Ideal op w = some (r, v)
  have hkeeping : ∀ op : FlashOp, op.Housekeeping → Answered op := by
    intro op hop w
    cases op with
    | flashEraseSector sector => exact hop.elim
    | flashProgram address data => exact hop.elim
    | rebootSystem arg => exact hop.elim
    | _ => exact ⟨_, _, rfl⟩
  have hruns : ∀ (call : Call) (w : FlashWorld), (stm32f4 board call).AllCalls Answered →
      ∃ a, (stm32f4FaultySemantics board).done call w a
        (Prog.run stm32f4Ideal (stm32f4 board call) w).world := by
    intro call w hcalls
    obtain ⟨a, v, hreturns⟩ := hcalls.returns (fun _ w h => h w) w
    rw [hreturns.2]
    exact ⟨a, Prog.Runs.mono (stm32f4Hardware_le board) (runs_of_returns hreturns)⟩
  have hcall : ∀ {op : FlashOp}, op.Housekeeping → (Prog.call op .ret : FlashCode _).AllCalls
      Answered := fun hop => ⟨hkeeping _ hop, fun _ => trivial⟩
  intro call w r v h
  cases call with
  | memory =>
      obtain ⟨rfl, rfl⟩ := Prod.mk.inj (Option.some.inj h)
      exact ⟨_, w, ⟨rfl, fun _ _ _ => rfl⟩, rfl, rfl⟩
  | rebootSystem arg => exact r.elim
  | flashWriterUnlock =>
      obtain ⟨-, rfl⟩ := Prod.mk.inj (Option.some.inj h)
      exact (hruns .flashWriterUnlock w (hcall trivial)).choose_spec
  | flashWriterLock =>
      obtain ⟨-, rfl⟩ := Prod.mk.inj (Option.some.inj h)
      exact (hruns .flashWriterLock w (hcall trivial)).choose_spec
  | flashWriterPageErase page =>
      obtain ⟨-, rfl⟩ := Prod.mk.inj (Option.some.inj h)
      exact (hruns (.flashWriterPageErase page) w (pageErase_allCalls hkeeping
        fun _ => ⟨_, _, rfl⟩)).choose_spec
  | flashWriterPageWrite page data =>
      obtain ⟨-, rfl⟩ := Prod.mk.inj (Option.some.inj h)
      exact (hruns (.flashWriterPageWrite page data) w (pageWrite_allCalls hkeeping
        fun _ => ⟨_, _, rfl⟩)).choose_spec

/-- A run of the main loop is a life. -/
theorem BoardRun.life {σ : Type} {p : Platform σ} {flash : σ → FlashWorld}
    (hp : p.Behaves board flash) {n m : Board σ} {acts : List Act}
    (h : BoardRun fw p n acts (some m)) :
    ∃ calls, Life board fw (flash n.world) calls (flash m.world) ∧
      List.Forall₂ DatagramCall.Carries calls (acts.filterMap Act.executed) := by
  generalize hm : some m = last at h
  induction h with
  | nil n =>
      cases hm
      exact ⟨[], .nil _, .nil⟩
  | execute h _ _ ih =>
      obtain ⟨x, e, hcarries, -, -, -, hreturns, -, -⟩ := h
      obtain ⟨calls, hlife, hpayloads⟩ := ih hm
      exact ⟨x :: calls, .executes (hreturns.runs_map flash hp) hlife, .cons hcarries hpayloads⟩
  | complain _ _ _ ih => exact ih hm
  | reboot => cases hm

variable (fw) in
/-- No execution of this payload comes to a command that may change the region. -/
def Region.UntouchedBy (region : Region) (payload : List UInt8) : Prop :=
  ∀ x : DatagramCall, x.Carries payload → ∀ cmd, x.command fw = some cmd →
    cmd.index ∉ region.commands

theorem Region.untouched_of_payloads {region : Region} {calls : List DatagramCall}
    {payloads : List (List UInt8)} (h : List.Forall₂ DatagramCall.Carries calls payloads)
    (hpayloads : ∀ payload ∈ payloads, region.UntouchedBy fw payload) :
    region.Untouched fw calls := by
  induction h with
  | nil => exact fun x hx => absurd hx List.not_mem_nil
  | cons hcarries _ ih =>
      obtain ⟨hfirst, hrest⟩ := List.forall_mem_cons.mp hpayloads
      exact List.forall_mem_cons.mpr ⟨hfirst _ hcarries, ih hrest⟩

/-! ## The result -/

/-- In every life of a board, whatever it receives and wherever power is cut, the code of the
    bootloader stays as it is. So do the configuration pages if no save is executed, and the
    application if no erase or write is. The same holds in every run of the main loop whose
    platform does what the hardware may do. -/
theorem region_unchanged (board : Stm32f4Board) (fw : Firmware)
    (hmap : fw.toMemoryMap = board.toMemoryMap) (hlayout : (Mcu.stm32f4 board).Layout fw)
    (region : Region) :
    (∀ (w v : FlashWorld) (calls : List DatagramCall), w.mem fw.flashBegin ≠ 0xFF →
      Life board fw w calls v → region.Untouched fw calls →
        ∀ a, region.Contains fw a → v.mem a = w.mem a) ∧
    ∀ {σ : Type} (p : Platform σ) (flash : σ → FlashWorld), p.Behaves board flash →
      CrcIsZlib fw.crc32 → WriteLaw fw.cmp → 0 < fw.outputBufferSize →
      fw.commandJumpDisableCrcChecking = false →
      ∀ (s t : LoopState fw σ) (rounds : List Round), (runRounds p s rounds).2 = some t →
        (flash s.world).mem fw.flashBegin ≠ 0xFF →
        (∀ payload ∈ executed (runRounds p s rounds).1, region.UntouchedBy fw payload) →
          ∀ a, region.Contains fw a → (flash t.world).mem a = (flash s.world).mem a := by
  have hlives : ∀ (w v : FlashWorld) (calls : List DatagramCall), w.mem fw.flashBegin ≠ 0xFF →
      Life board fw w calls v → region.Untouched fw calls →
        ∀ a, region.Contains fw a → v.mem a = w.mem a :=
    fun w v calls hbegin h hcalls => keeps_of_life hmap hlayout h hbegin hcalls
  refine ⟨hlives, ?_⟩
  intro σ p flash hp hcrc hwrite hroom hjump s t rounds hend hbegin hpayloads
  obtain ⟨acts, hrun, hshows⟩ := main_loop_acts (p := p) hcrc hwrite hroom hjump rounds s
  rw [hend] at hrun
  rw [hshows.executed] at hpayloads
  obtain ⟨calls, hlife, hcarries⟩ := hrun.life hp
  exact hlives _ _ calls hbegin hlife (Region.untouched_of_payloads hcarries hpayloads)

/-- An erase of the first sector of the application. -/
def eraseCall : DatagramCall where
  data := Store.ofList (encodeEraseFlashPage 0x08010000 nucleoFirmware.platformDeviceClass)
  dataLen := 33
  outBuf := fun _ => 0
  outLen := nucleoFirmware.outputBufferSize
  config := blankConfig
  status := 0
  locals := blankLocals

/-- An erase of a sector that is not known to be erased: it can complete with anything in the
    sector. -/
theorem visible_faultyErase {page : UInt32} (hvalid : flashAddressIsValid board page = true)
    {w w' : FlashWorld}
    (hflag : w.sectorIsErased (flashAddressToSector board page).toNat = false)
    (hflags : w'.sectorIsErased = w.sectorIsErased)
    (hchange : ChangesSector board (flashAddressToSector board page).toNat w.mem w'.mem) :
    Prog.Visible (stm32f4Faulty board) (stm32f4PageErase board page) w w' := by
  unfold stm32f4PageErase
  simp only [hvalid, Bool.not_true, Bool.false_eq_true, if_false]
  refine .inr (.inr ⟨false, w, ⟨rfl, fun _ => hflag.symm⟩, ?_⟩)
  refine .inr (.inr ⟨(), w, rfl, .inr (.inr ⟨(), w, rfl, ?_⟩)⟩)
  exact .inr (.inr ⟨(), w', ⟨hflags, hchange⟩, .inl rfl⟩)

/-- One byte of the sector is left as it was. -/
def sectorHalfErased : FlashWorld :=
  ⟨fun x => if InSector 4 x ∧ x ≠ 0x08010000 then 0xFF else 0, fun _ => false⟩

theorem visible_eraseCall :
    Prog.Visible (stm32f4FaultySemantics nucleoBoardStm32f446reFlash)
      (eraseCall.code nucleoFirmware) zeroFlash sectorHalfErased := by
  have hcarries : eraseCall.Carries
      (encodeEraseFlashPage 0x08010000 nucleoFirmware.platformDeviceClass) :=
    show eraseCall.data.slice 0 33 = _ by decide
  have hread : ReadLaw nucleoFirmware.cmp := Cmp.reference_read
  obtain ⟨i, hcalls, hargs⟩ := calls_erase hread hcarries
  have hclass : cString i.config.deviceClass = nucleoFirmware.platformDeviceClass := by
    rw [hcalls.config]
    decide
  obtain ⟨htarget, -⟩ := readsTarget hread Cmp.reference_readStr hargs (by decide) (by decide)
    (by decide) hclass
  have hsector : flashAddressToSector nucleoBoardStm32f446reFlash 0x08010000 = 4 := by decide
  have herase : Prog.Visible (stm32f4Faulty nucleoBoardStm32f446reFlash)
      (stm32f4PageErase nucleoBoardStm32f446reFlash 0x08010000) zeroFlash sectorHalfErased := by
    refine visible_faultyErase (by decide) rfl rfl ?_
    rw [hsector]
    exact fun _ x hx => if_neg fun h => hx h.1
  rw [hcalls.code_eq]
  refine Prog.Visible.bind_left ?_
  obtain ⟨hrefused, -⟩ | ⟨-, heq⟩ := commandEraseFlashPage_cases nucleoFirmware i
  · exact absurd ⟨htarget.in_app, htarget.class_matches⟩ hrefused
  rw [heq, htarget.address_eq, show nucleoFirmware.flashEraseRetries.toNat = 19 + 1 from rfl,
    eraseLoop]
  refine Prog.Visible.bind_left (Prog.Visible.bind_left ?_)
  exact .inr (.inr ⟨(), zeroFlash, ⟨(), zeroFlash, rfl, rfl, rfl⟩, .inr (.inl herase)⟩)

/-- The Nucleo board full of zeros, before it reads a datagram. -/
def zeroState : LoopState nucleoFirmware FlashWorld := { blankState with world := zeroFlash }

/-- Power is cut when the erase has left a byte of its sector: page 2, in front of it, is as before.
    And a ping leaves the application as it is. -/
theorem region_unchanged_erase :
    sectorHalfErased.mem 0x0800FFFF = zeroFlash.mem 0x0800FFFF ∧
    ∃ t, (runRounds (Mcu.stm32f4 nucleoBoardStm32f446reFlash).platform zeroState
      [blankRound (some (pingStartFrame 0x80)), blankRound (some pingFrame)]).2 = some t ∧
        ∀ a, Region.application.Contains nucleoFirmware a → t.world.mem a = 0 := by
  have hread : ReadLaw nucleoFirmware.cmp := Cmp.reference_read
  constructor
  · refine (region_unchanged nucleoBoardStm32f446reFlash nucleoFirmware rfl nucleo_layout
      .config).1 zeroFlash ⟨sectorHalfErased.mem, fun _ => false⟩ [eraseCall] (by decide)
      (.cut visible_eraseCall (.nil _)) ?_ 0x0800FFFF (by decide)
    intro x hx cmd hcmd
    obtain rfl := List.mem_singleton.mp hx
    rw [show eraseCall.command nucleoFirmware = getCommandByIndex nucleoFirmware 3 from rfl]
      at hcmd
    obtain rfl : ⟨3, commandEraseFlashPage nucleoFirmware⟩ = cmd := Option.some.inj hcmd
    decide
  · have hone : (runRounds (Mcu.stm32f4 nucleoBoardStm32f446reFlash).platform zeroState
        [blankRound (some (pingStartFrame 0x80)), blankRound (some pingFrame)]).2.isSome =
          true := by
      decide +kernel
    obtain ⟨t, ht⟩ := Option.isSome_iff_exists.mp hone
    refine ⟨t, ht, (region_unchanged nucleoBoardStm32f446reFlash nucleoFirmware rfl nucleo_layout
      .application).2 _ id (stm32f4_behaves _) (fun _ _ => rfl) Cmp.reference_write (by decide) rfl
      zeroState t _ ht (by decide) ?_⟩
    intro payload hpayload
    have hping : executed (runRounds (Mcu.stm32f4 nucleoBoardStm32f446reFlash).platform zeroState
        [blankRound (some (pingStartFrame 0x80)), blankRound (some pingFrame)]).1 = [[3, 5]] := by
      decide +kernel
    rw [hping, List.mem_singleton] at hpayload
    intro x hx cmd hcmd
    rw [hpayload] at hx
    have hcommand : x.command nucleoFirmware = getCommandByIndex nucleoFirmware (UInt8.ofInt 5) :=
      DatagramCall.command_of_index hread hx
        (show Msgpack.int32? [3, 5] = some (commandSetVersion, [5]) by decide)
        (show Msgpack.int32? [5] = some (5, []) by decide)
    rw [hcommand, show getCommandByIndex nucleoFirmware (UInt8.ofInt 5) =
      some ⟨5, commandPing nucleoFirmware⟩ from rfl] at hcmd
    rw [← Option.some.inj hcmd]
    decide

end CanBootloader
