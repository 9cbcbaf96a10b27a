/-
  Erase and write commands leave everything below the application alone.

  The commands check the start address only. An erase stays in the sector of that address,
  which begins no lower than the application (`preserves_pageErase`). A write could reach lower
  addresses only by wrapping around the address space; then the range in which the command
  looks for erased bytes includes the first byte of flash memory, or the writer refuses the end
  address (`no_wrap`). None of this needs an erase to succeed, so the lemmas are about hardware
  whose erases may fail (`stm32f4Faulty`).
-/
import CanBootloader.Firmware.Command
import CanBootloader.Firmware.Stm32f4

namespace CanBootloader

open Lib

variable {board : Stm32f4Board}

/-- Flash memory below the application is as in `m0`. -/
def KeepsBelowApp (board : Stm32f4Board) (m0 : Mem) (w : FlashWorld) : Prop :=
  ∀ x, board.flashBegin ≤ x → x < board.app → w.mem x = m0 x

variable {m0 : Mem} {α : Type}

/-! ## The writer -/

/-- The calls that do not change memory. -/
def FlashOp.Quiet : FlashOp → Prop
  | .flashEraseSector _ => False
  | .flashProgram _ _ => False
  | _ => True

theorem quiet_done {op : FlashOp} (hop : op.Quiet) {w w' : FlashWorld} {r : op.Resp}
    (h : (stm32f4Faulty board).done op w r w') : w'.mem = w.mem := by
  cases op with
  | flashEraseSector sector => exact hop.elim
  | flashProgram address data => exact hop.elim
  | sectorIsErased sector => exact congrArg FlashWorld.mem h.1
  | setSectorIsErased sector b => exact h.1
  | memory => exact congrArg FlashWorld.mem h.1
  | rebootSystem arg => exact r.elim
  | flashUnlock => exact congrArg FlashWorld.mem h
  | flashLock => exact congrArg FlashWorld.mem h
  | enableErrorInterrupts => exact congrArg FlashWorld.mem h
  | clearErrorFlags => exact congrArg FlashWorld.mem h
  | anyErrorFlag => exact congrArg FlashWorld.mem h

theorem KeepsBelowApp.of_mem_eq {w w' : FlashWorld} (h : KeepsBelowApp board m0 w)
    (hmem : w'.mem = w.mem) : KeepsBelowApp board m0 w' := by
  intro x h1 h2
  rw [hmem]
  exact h x h1 h2

theorem preserves_quiet {op : FlashOp} (hop : op.Quiet) {k : op.Resp → FlashCode α}
    (hk : ∀ r, (k r).Preserves (stm32f4Faulty board) (KeepsBelowApp board m0)) :
    (Prog.call op k).Preserves (stm32f4Faulty board) (KeepsBelowApp board m0) := by
  refine .call ?_ (fun w r w' h hdone => h.of_mem_eq (quiet_done hop hdone)) hk
  intro w w' _ hduring
  cases op with
  | flashEraseSector sector => exact hop.elim
  | flashProgram address data => exact hop.elim
  | _ => exact hduring.elim

/-- The sector of an application address has no byte below the application. -/
theorem KeepsBelowApp.of_sector {w w' : FlashWorld} {page : UInt32}
    (hvalid : flashAddressIsValid board page = true) (happ : board.app ≤ page)
    (hend : page < board.flashEnd)
    (hchange : ChangesSector board (flashAddressToSector board page).toNat w.mem w'.mem)
    (h : KeepsBelowApp board m0 w) : KeepsBelowApp board m0 w' := by
  have hin := inSector_flashAddressToSector hvalid hend
  rw [UInt32.le_iff_toNat_le, board.app_eq] at happ
  rw [UInt32.lt_iff_toNat_lt, board.flashEnd_eq] at hend
  have hstart := sectorStart_le hin happ
  have hcount : (flashAddressToSector board page).toNat < board.sectorCount := by
    by_contra hge
    have hmono := sectorStart_mono (not_lt.mp hge)
    have hpage := hin.1
    omega
  intro x h1 h2
  have hx : ¬ InSector (flashAddressToSector board page).toNat x := by
    intro hx
    have hlow := hx.1
    rw [UInt32.lt_iff_toNat_lt, board.app_eq] at h2
    omega
  rw [hchange hcount x hx]
  exact h x h1 h2

theorem preserves_pageErase {page : UInt32} (happ : board.app ≤ page)
    (hend : page < board.flashEnd) :
    (stm32f4PageErase board page).Preserves (stm32f4Faulty board) (KeepsBelowApp board m0) := by
  unfold stm32f4PageErase
  simp only
  split_ifs with hinvalid
  · exact .ret ()
  have hvalid : flashAddressIsValid board page = true := by simpa using hinvalid
  refine preserves_quiet (by trivial) fun erased => ?_
  split_ifs
  · exact .ret ()
  refine preserves_quiet (by trivial) fun _ => preserves_quiet (by trivial) fun _ => ?_
  refine .call (fun w w' h hduring => h.of_sector hvalid happ hend hduring.2)
    (fun w _ w' h hdone => h.of_sector hvalid happ hend hdone.2) fun _ => ?_
  refine preserves_quiet (by trivial) fun failed => ?_
  split_ifs
  · exact preserves_quiet (by trivial) fun _ => .ret ()
  · exact preserves_quiet (by trivial) fun _ => .ret ()

theorem preserves_markSectors (stop : UInt32) (a : ValidAddress board) :
    (markSectors board stop a).Preserves (stm32f4Faulty board) (KeepsBelowApp board m0) := by
  induction a using markSectors.induct board stop with
  | case1 a hlt sector hmax =>
      rw [markSectors, if_pos hlt]
      simp only
      rw [if_pos hmax]
      exact .ret false
  | case2 a hlt sector hmax ih =>
      rw [markSectors, if_pos hlt]
      simp only
      rw [if_neg hmax]
      refine preserves_quiet (by trivial) fun _ => ?_
      split_ifs with hnext
      · exact ih hnext
      · exact .ret false
  | case3 a hge =>
      rw [markSectors, if_neg hge]
      exact .ret true

/-- A range that begins in the application and does not wrap stays above it. -/
theorem KeepsBelowApp.of_range {w w' : FlashWorld} {page : UInt32} {len : Nat}
    (happ : board.app ≤ page) (hwrap : page.toNat + len < 2 ^ 32)
    (hchange : ChangesRange page len w.mem w'.mem) (h : KeepsBelowApp board m0 w) :
    KeepsBelowApp board m0 w' := by
  intro x h1 h2
  have hx : len ≤ (x - page).toNat := by
    rw [UInt32.le_iff_toNat_le] at happ
    rw [UInt32.lt_iff_toNat_lt] at h2
    rw [UInt32.toNat_sub]
    omega
  rw [hchange x hx]
  exact h x h1 h2

theorem preserves_pageWrite {page : UInt32} {data : List UInt8} (happ : board.app ≤ page)
    (hwrap : flashAddressIsValid board (page + UInt32.ofNat data.length) = true →
      page.toNat + data.length < 2 ^ 32) :
    (stm32f4PageWrite board page data).Preserves (stm32f4Faulty board)
      (KeepsBelowApp board m0) := by
  unfold stm32f4PageWrite
  simp only
  split_ifs with hvalid
  · have hstop := hwrap hvalid.2
    refine (preserves_markSectors _ _).bind fun marked => ?_
    split_ifs
    · refine preserves_quiet (by trivial) fun _ => preserves_quiet (by trivial) fun _ => ?_
      refine .call (fun w w' h hduring => h.of_range happ hstop hduring.2)
        (fun w _ w' h hdone => h.of_range happ hstop hdone.2) fun _ => ?_
      refine preserves_quiet (by trivial) fun failed => ?_
      split_ifs
      · exact preserves_quiet (by trivial) fun _ => .ret ()
      · exact .ret ()
    · exact .ret ()
  · exact .ret ()

/-! ## Commands -/

/-- What the calls of the portable code do on the board. -/
def stm32f4Semantics (board : Stm32f4Board) : Prog.Semantics Call Call.Resp FlashWorld :=
  (stm32f4Hardware board).via (stm32f4 board)

/-- What they can do when erases may fail, too. -/
def stm32f4FaultySemantics (board : Stm32f4Board) : Prog.Semantics Call Call.Resp FlashWorld :=
  (stm32f4Faulty board).via (stm32f4 board)

theorem stm32f4Semantics_le (board : Stm32f4Board) :
    stm32f4Semantics board ≤ stm32f4FaultySemantics board :=
  Prog.Semantics.via_mono (stm32f4Hardware_le board)

/-- The calls that do not change flash memory. -/
def Call.Quiet : Call → Prop
  | .flashWriterPageErase _ => False
  | .flashWriterPageWrite _ _ => False
  | _ => True

theorem preserves_quietCall {call : Call} (hcall : call.Quiet) {k : call.Resp → Code α}
    (hk : ∀ r, (k r).Preserves (stm32f4FaultySemantics board) (KeepsBelowApp board m0)) :
    (Prog.call call k).Preserves (stm32f4FaultySemantics board) (KeepsBelowApp board m0) := by
  refine .via ?_ hk
  cases call with
  | flashWriterUnlock => exact preserves_quiet (by trivial) fun _ => .ret ()
  | flashWriterLock => exact preserves_quiet (by trivial) fun _ => .ret ()
  | flashWriterPageErase page => exact hcall.elim
  | flashWriterPageWrite page data => exact hcall.elim
  | memory => exact preserves_quiet (by trivial) fun r => .ret r
  | rebootSystem arg => exact preserves_quiet (by trivial) fun r => r.elim

theorem preserves_eraseAndCheck {address : UInt32} (happ : board.app ≤ address)
    (hend : address < board.flashEnd) (size : UInt32) :
    (eraseAndCheck address size).Preserves (stm32f4FaultySemantics board)
      (KeepsBelowApp board m0) := by
  refine preserves_quietCall (by trivial) fun _ => ?_
  refine .via (preserves_pageErase happ hend) fun _ => ?_
  exact preserves_quietCall (by trivial) fun _ => preserves_quietCall (by trivial) fun m => .ret _

theorem preserves_eraseLoop {address : UInt32} (happ : board.app ≤ address)
    (hend : address < board.flashEnd) (size : UInt32) (retry : Nat) :
    (eraseLoop address size retry).Preserves (stm32f4FaultySemantics board)
      (KeepsBelowApp board m0) := by
  induction retry with
  | zero => exact (preserves_eraseAndCheck happ hend size).bind fun erased => .ret _
  | succ retry ih =>
      refine (preserves_eraseAndCheck happ hend size).bind fun erased => ?_
      split_ifs
      · exact .ret _
      · exact ih

variable {fw : Firmware}

/-- The address check of the commands, on this board. -/
theorem address_in_app (hmap : fw.toMemoryMap = board.toMemoryMap) {args : CmpReader}
    (h : AddressInApp fw args) :
    board.app ≤ (fw.cmp.readUinteger args 0).value.toUInt32 ∧
      (fw.cmp.readUinteger args 0).value.toUInt32 < board.flashEnd := by
  obtain ⟨hlow, hhigh⟩ := h
  rw [hmap] at hlow hhigh
  have hsum : board.app + board.appSize = board.flashEnd := by
    apply UInt32.toNat.inj
    have happEnd := board.app_end
    have hlt := board.flashEnd.toNat_lt
    rw [UInt32.toNat_add]
    omega
  rw [hsum] at hhigh
  exact ⟨hlow, hhigh⟩

theorem preserves_erase (hmap : fw.toMemoryMap = board.toMemoryMap) (i : Invocation) :
    (commandEraseFlashPage fw i).Preserves (stm32f4FaultySemantics board)
      (KeepsBelowApp board m0) := by
  obtain ⟨-, code, heq⟩ | ⟨hok, heq⟩ := commandEraseFlashPage_cases fw i
  · rw [heq]
    exact .ret _
  · obtain ⟨happ, hend⟩ := address_in_app hmap hok.1
    rw [heq]
    exact (preserves_eraseLoop happ hend _ _).bind fun retry => .ret _

/-- An erased range that begins in the application and ends at an address the writer takes does
    not wrap: it would include the first byte of flash memory. -/
theorem no_wrap {m : Mem} (hbegin : m board.flashBegin ≠ 0xFF) {address size : UInt32}
    (herased : flashPageIsErased m address size = true)
    (hstop : flashAddressIsValid board (address + size) = true) :
    address.toNat + size.toNat < 2 ^ 32 := by
  by_contra hwrap
  have hlow := (flashAddressIsValid_iff.mp hstop).1
  have haddress := address.toNat_lt
  have hsize := size.toNat_lt
  rw [UInt32.toNat_add] at hlow
  -- the position of the first byte of flash memory in the range
  have hpos : 2 ^ 32 + 0x08000000 - address.toNat < size.toNat := by omega
  have hptr : address + UInt32.ofNat (2 ^ 32 + 0x08000000 - address.toNat) = board.flashBegin := by
    rw [board.flashBegin_eq]
    apply UInt32.toNat.inj
    rw [UInt32.toNat_add, UInt32.toNat_ofNat', show (0x08000000 : UInt32).toNat = 0x08000000 from rfl]
    omega
  have hbyte := flashPageIsErased_iff.mp herased _ hpos
  rw [hptr] at hbyte
  exact hbegin hbyte

/-- Memory as the program reads it shows the first byte of flash memory. -/
theorem preserves_readMemory {k : Mem → Code Reply} (hbegin : m0 board.flashBegin ≠ 0xFF)
    (hk : ∀ m, m board.flashBegin ≠ 0xFF →
      (k m).Preserves (stm32f4FaultySemantics board) (KeepsBelowApp board m0)) :
    (readMemory >>= k).Preserves (stm32f4FaultySemantics board) (KeepsBelowApp board m0) := by
  have hread : Prog.Crash (stm32f4Faulty board) (KeepsBelowApp board m0)
      (stm32f4 board .memory) (KeepsBelowApp board m0)
      (fun m w => KeepsBelowApp board m0 w ∧ m board.flashBegin ≠ 0xFF) := by
    refine .call (fun m w => KeepsBelowApp board m0 w ∧ m board.flashBegin ≠ 0xFF)
      (fun _ h => h) (fun _ _ _ h => h.elim) ?_ fun m => .ret (fun _ h => h.1) fun _ h => h
    rintro w m w' h ⟨rfl, hflash⟩
    refine ⟨h, ?_⟩
    rw [hflash _ (UInt32.le_refl _) (flashBegin_lt_flashEnd board),
      h _ (UInt32.le_refl _) (flashBegin_lt_app board)]
    exact hbegin
  refine Prog.Crash.via hread fun m => ?_
  rintro w ⟨h, hm⟩
  exact hk m hm w h

theorem preserves_write (hmap : fw.toMemoryMap = board.toMemoryMap)
    (hbegin : m0 board.flashBegin ≠ 0xFF) (i : Invocation) :
    (commandWriteFlash fw i).Preserves (stm32f4FaultySemantics board) (KeepsBelowApp board m0) := by
  obtain ⟨-, code, -, heq⟩ | ⟨hok, heq⟩ := commandWriteFlash_cases fw i
  · rw [heq]
    exact .ret _
  obtain ⟨happ, hend⟩ := address_in_app hmap hok.1
  rw [heq]
  refine preserves_readMemory hbegin fun m hm => ?_
  split_ifs with herased
  · exact .ret _
  refine preserves_quietCall (by trivial) fun _ => .via (preserves_pageWrite happ ?_) fun _ =>
    preserves_quietCall (by trivial) fun _ => .ret _
  intro hstop
  rw [writeSource, Store.slice_length, UInt32.ofNat_toNat] at hstop
  rw [writeSource, Store.slice_length]
  exact no_wrap hm (by simpa using herased) hstop

/-! ## Sequences -/

/-- Commands one after the other. -/
def flashCommands (fw : Firmware) : List (FlashCommand × Invocation) → Code Unit
  | [] => .ret ()
  | (cmd, i) :: cs => cmd.callback fw i >>= fun _ => flashCommands fw cs

theorem preserves_flashCommands (hmap : fw.toMemoryMap = board.toMemoryMap)
    (hbegin : m0 board.flashBegin ≠ 0xFF) (cs : List (FlashCommand × Invocation)) :
    (flashCommands fw cs).Preserves (stm32f4FaultySemantics board) (KeepsBelowApp board m0) := by
  induction cs with
  | nil => exact .ret ()
  | cons c cs ih =>
      obtain ⟨cmd, i⟩ := c
      cases cmd with
      | erase => exact (preserves_erase hmap i).bind fun _ => ih
      | write => exact (preserves_write hmap hbegin i).bind fun _ => ih

/-- No sequence of erase and write commands, at any moment of it, has changed a byte of flash
    memory below the application. -/
theorem flash_below_app_unchanged (board : Stm32f4Board) (fw : Firmware)
    (hmap : fw.toMemoryMap = board.toMemoryMap) (cs : List (FlashCommand × Invocation))
    (w w' : FlashWorld) (hbegin : w.mem fw.flashBegin ≠ 0xFF)
    (h : Prog.Visible (stm32f4Semantics board) (flashCommands fw cs) w w') (x : UInt32)
    (hlow : fw.flashBegin ≤ x) (hhigh : x < fw.app) : w'.mem x = w.mem x := by
  rw [hmap] at hbegin hlow hhigh
  have hfaulty := Prog.Visible.mono (stm32f4Semantics_le board) h
  exact (preserves_flashCommands hmap hbegin cs w fun _ _ _ => rfl).1 w' hfaulty x hlow hhigh

/-- An erase of the first sector of the application. -/
def eraseFirstSector : Invocation :=
  { blankInvocation blankConfig with
    argc := 2
    args := .init (Store.ofList ([0xce, 0x08, 0x01, 0x00, 0x00, 0xb8] ++
      ascii "nucleo-board-stm32f446re")) 30 }

/-- The Nucleo board full of zeros. -/
def zeroFlash : FlashWorld := ⟨fun _ => 0, fun _ => false⟩

/-- The same with sector 4 erased. -/
def sectorErased : FlashWorld :=
  ⟨fun x => if InSector 4 x then 0xFF else 0, fun _ => false⟩

theorem visible_pageErase :
    Prog.Visible (stm32f4Hardware nucleoBoardStm32f446reFlash)
      (stm32f4PageErase nucleoBoardStm32f446reFlash 0x08010000) zeroFlash sectorErased := by
  have hsector : flashAddressToSector nucleoBoardStm32f446reFlash 0x08010000 = 4 := by decide
  have houtside : ∀ x, ¬ InSector 4 x → sectorErased.mem x = zeroFlash.mem x :=
    fun x hx => if_neg hx
  have hinside : ∀ x, InSector 4 x → sectorErased.mem x = 0xFF := fun x hx => if_pos hx
  unfold stm32f4PageErase
  simp only
  rw [if_neg (by decide), hsector]
  refine .inr (.inr ⟨false, zeroFlash, ⟨rfl, fun _ => rfl⟩, ?_⟩)
  refine .inr (.inr ⟨(), zeroFlash, rfl, .inr (.inr ⟨(), zeroFlash, rfl, ?_⟩)⟩)
  refine .inr (.inr ⟨(), sectorErased, ⟨rfl, fun _ => houtside, fun _ => hinside⟩, ?_⟩)
  exact .inl rfl

theorem visible_sectorErased :
    Prog.Visible (stm32f4Semantics nucleoBoardStm32f446reFlash)
      (flashCommands nucleoFirmware [(.erase, eraseFirstSector)]) zeroFlash sectorErased := by
  have haddress : (nucleoFirmware.cmp.readUinteger eraseFirstSector.args 0).value.toUInt32 =
      0x08010000 := by decide
  refine Prog.Visible.bind_left ?_
  unfold FlashCommand.callback commandEraseFlashPage
  simp only
  rw [if_neg (by decide), if_neg (by decide), if_neg (by decide), haddress]
  refine Prog.Visible.bind_left ?_
  rw [show nucleoFirmware.flashEraseRetries.toNat = 19 + 1 from rfl, eraseLoop]
  refine Prog.Visible.bind_left ?_
  exact .inr (.inr ⟨(), zeroFlash, ⟨(), zeroFlash, rfl, rfl, rfl⟩, .inr (.inl visible_pageErase)⟩)

/-- Erasing the sector behind it leaves the last byte below the application. -/
theorem flash_below_app_unchanged_erase :
    sectorErased.mem 0x0800FFFF = zeroFlash.mem 0x0800FFFF :=
  flash_below_app_unchanged nucleoBoardStm32f446reFlash nucleoFirmware rfl
    [(.erase, eraseFirstSector)] zeroFlash sectorErased (by decide) visible_sectorErased 0x0800FFFF
    (by decide) (by decide)

end CanBootloader
