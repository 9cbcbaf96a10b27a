/-
  platform/mcu/stm32f1/flash_writer.c and platform/mcu/stm32f3/flash_writer.c, whose functions
  are the same.

  Flash memory is programmed in half-words. Behind an odd number of bytes the last half-word
  takes a byte read from flash memory: `returns_stm32f1PageWrite` says which.
-/
import CanBootloader.Firmware.Platform

namespace CanBootloader

open Lib

/-- A board with this writer. -/
structure Stm32f1Board extends MemoryMap where
  flashPageSize : Nat

/-- platform/nucleo-board-stm32f103rb. -/
def nucleoBoardStm32f103rb : Stm32f1Board where
  flashBegin := 0x08000000
  config1 := 0x08002800
  config2 := 0x08002C00
  app := 0x08003000
  appSize := 0x1D000
  flashEnd := 0x08020000
  flashBegin_lt := by decide
  config1_lt := by decide
  config2_lt := by decide
  app_end := by decide
  flashPageSize := 0x400

/-! ## The writer -/

/-- Bits of `FLASH_CR`. -/
inductive FlashCr where
  | per
  | strt
  | pg
  deriving DecidableEq, Repr

/-- The calls of the writer: the routines of the peripheral library, the flash registers, and
    memory. -/
inductive Stm32f1Op where
  | flashUnlock
  | flashLock
  | flashWaitForLastOperation
  | setCr (bit : FlashCr)
  | clearCr (bit : FlashCr)
  | setAr (page : UInt32)
  | setSrEop
  | storeHalfWord (flash : UInt32) (halfWord : UInt16)
  | memory
  | rebootSystem (arg : UInt8)
  deriving DecidableEq, Repr

abbrev Stm32f1Op.Resp : Stm32f1Op → Type
  | .memory => Mem
  | .rebootSystem _ => Empty
  | _ => Unit

abbrev Stm32f1Code := Prog Stm32f1Op Stm32f1Op.Resp

def stm32f1PageErase (page : UInt32) : Stm32f1Code Unit :=
  .call .flashWaitForLastOperation fun _ =>
  .call (.setCr .per) fun _ =>
  .call (.setAr page) fun _ =>
  .call (.setCr .strt) fun _ =>
  .call .flashWaitForLastOperation fun _ =>
  .call (.clearCr .per) .ret

def flashWriteHalfWord (flash : UInt32) (halfWord : UInt16) : Stm32f1Code Unit :=
  .call (.setCr .pg) fun _ =>
  .call (.storeHalfWord flash halfWord) fun _ =>
  .call .flashWaitForLastOperation .ret

def halfWord (low high : UInt8) : UInt16 := low.toUInt16 ||| high.toUInt16 <<< 8

/-- The loop of `flash_writer_page_write`, and the byte that is left over. -/
def writeHalfWords (flash : UInt32) : List UInt8 → Stm32f1Code Unit
  | low :: high :: bytes => do
      flashWriteHalfWord flash (halfWord low high)
      writeHalfWords (flash + 2) bytes
  -- the other byte is read at `flash` itself
  | [low] => .call .memory fun m => flashWriteHalfWord flash (halfWord low (m flash))
  | [] => .ret ()

def stm32f1PageWrite (page : UInt32) (data : List UInt8) : Stm32f1Code Unit :=
  .call .flashWaitForLastOperation fun _ => do
    writeHalfWords page data
    .call (.clearCr .pg) fun _ => .call .setSrEop .ret

/-- The calls of the portable code, with this writer. -/
def stm32f1 : (call : Call) → Stm32f1Code call.Resp
  | .flashWriterUnlock => .call .flashUnlock .ret
  | .flashWriterLock => .call .flashLock .ret
  | .flashWriterPageErase page => stm32f1PageErase page
  | .flashWriterPageWrite page data => stm32f1PageWrite page data
  | .memory => .call .memory .ret
  | .rebootSystem arg => .call (.rebootSystem arg) .ret

/-! ## Hardware without faults -/

/-- Memory and the flash registers. -/
structure Stm32f1World where
  mem : Mem
  cr : FlashCr → Bool
  ar : UInt32

/-- The page of an address. -/
def Stm32f1Board.page (board : Stm32f1Board) (a : UInt32) : Nat := a.toNat / board.flashPageSize

/-- The bytes of a half-word in memory, the low one first. -/
def halfWordBytes (x : UInt16) : List UInt8 := [x.toUInt8, (x >>> 8).toUInt8]

/-- The hardware when no operation fails. A store to flash memory programs a half-word while
    `FLASH_CR_PG` is set. -/
def stm32f1Ideal (board : Stm32f1Board) :
    (op : Stm32f1Op) → Stm32f1World → Option (op.Resp × Stm32f1World)
  | .setCr .strt, w =>
      if w.cr .per = true then
        some ((), { w with
          mem := fun x => if board.page x = board.page w.ar then 0xFF else w.mem x })
      else some ((), w)
  | .setCr bit, w => some ((), { w with cr := Function.update w.cr bit true })
  | .clearCr bit, w => some ((), { w with cr := Function.update w.cr bit false })
  | .setAr page, w => some ((), { w with ar := page })
  | .storeHalfWord flash x, w =>
      if w.cr .pg = true then some ((), { w with mem := w.mem.blit flash (halfWordBytes x) })
      else some ((), w)
  | .memory, w => some (w.mem, w)
  | .rebootSystem _, _ => none
  | .flashUnlock, w => some ((), w)
  | .flashLock, w => some ((), w)
  | .flashWaitForLastOperation, w => some ((), w)
  | .setSrEop, w => some ((), w)

/-! ## Writing -/

theorem halfWordBytes_halfWord (low high : UInt8) :
    halfWordBytes (halfWord low high) = [low, high] := by
  have hlow : low.toNat < 2 ^ 8 := low.toNat_lt
  have hhigh : high.toNat < 2 ^ 8 := high.toNat_lt
  have hshift : high.toNat <<< 8 % 2 ^ 16 = high.toNat <<< 8 := by
    rw [Nat.shiftLeft_eq]
    omega
  have hnat : (halfWord low high).toNat = high.toNat * 2 ^ 8 + low.toNat := by
    rw [halfWord, UInt16.toNat_or, UInt16.toNat_shiftLeft, UInt8.toNat_toUInt16,
      UInt8.toNat_toUInt16, Nat.or_comm]
    simp only [UInt16.reduceToNat, Nat.reduceMod]
    rw [hshift, or_shiftLeft high.toNat 8 hlow]
  simp only [halfWordBytes, List.cons.injEq, and_true, ← UInt8.toNat_inj, UInt16.toNat_toUInt8,
    UInt16.toNat_shiftRight, UInt16.reduceToNat, Nat.shiftRight_eq_div_pow, Nat.reduceMod, hnat]
  omega

/-- What a write programs: the data, and behind an odd number of bytes the one that memory
    holds at the place of the last. -/
def programmedBytes (m : Mem) (flash : UInt32) (data : List UInt8) : List UInt8 :=
  if data.length % 2 = 0 then data else data ++ [m (flash + UInt32.ofNat (data.length - 1))]

/-- In an erased range the byte left over is 0xFF. -/
theorem programmedBytes_erased {m : Mem} {flash : UInt32} {data : List UInt8}
    (h : ∀ b ∈ m.read flash data.length, b = 0xFF) :
    programmedBytes m flash data = data ++ if data.length % 2 = 0 then [] else [0xFF] := by
  unfold programmedBytes
  split_ifs with heven
  · rw [List.append_nil]
  · rw [h _ (Mem.mem_read (by omega))]

variable (board : Stm32f1Board)

theorem returns_flashWriteHalfWord (flash : UInt32) (low high : UInt8) (w : Stm32f1World) :
    ∃ v, Prog.Returns (stm32f1Ideal board) (flashWriteHalfWord flash (halfWord low high)) w () v ∧
      v.mem = w.mem.blit flash [low, high] := by
  let u : Stm32f1World := { w with cr := Function.update w.cr .pg true }
  let v : Stm32f1World := { u with mem := w.mem.blit flash [low, high] }
  have hstore : stm32f1Ideal board (.storeHalfWord flash (halfWord low high)) u = some ((), v) := by
    have hpg : u.cr .pg = true := Function.update_self FlashCr.pg true w.cr
    simp only [stm32f1Ideal]
    rw [if_pos hpg, halfWordBytes_halfWord]
  exact ⟨v, .call rfl (.call hstore (.call rfl (.ret () v))), rfl⟩

/-- The step of the loop: the bytes behind the half-word just programmed are as before. -/
theorem programmedBytes_cons (m : Mem) (flash : UInt32) (low high : UInt8) {bytes : List UInt8}
    (hlen : bytes.length + 2 < 2 ^ 32) :
    programmedBytes m flash (low :: high :: bytes) =
      [low, high] ++ programmedBytes (m.blit flash [low, high]) (flash + 2) bytes := by
  by_cases heven : bytes.length % 2 = 0
  · have heven' : (low :: high :: bytes).length % 2 = 0 := by
      simp only [List.length_cons]
      omega
    rw [programmedBytes, programmedBytes, if_pos heven, if_pos heven']
    rfl
  · have hodd : ¬ (low :: high :: bytes).length % 2 = 0 := by
      simp only [List.length_cons]
      omega
    have hplace : flash + 2 + UInt32.ofNat (bytes.length - 1) =
        flash + UInt32.ofNat (bytes.length + 1) := by
      apply UInt32.toNat.inj
      simp only [UInt32.toNat_add, UInt32.toNat_ofNat', UInt32.reduceToNat]
      omega
    have hbyte : (m.blit flash [low, high]) (flash + UInt32.ofNat (bytes.length + 1)) =
        m (flash + UInt32.ofNat (bytes.length + 1)) := by
      rw [Mem.blit_at _ _ _ (by omega), List.getD_eq_default _ _ (by simp; omega)]
    rw [programmedBytes, programmedBytes, if_neg heven, if_neg hodd, hplace, hbyte]
    rfl

theorem programmedBytes_length (m : Mem) (flash : UInt32) (data : List UInt8) :
    (programmedBytes m flash data).length ≤ data.length + 1 := by
  unfold programmedBytes
  split_ifs
  · omega
  · simp

theorem returns_writeHalfWords (flash : UInt32) (data : List UInt8) :
    ∀ w : Stm32f1World, data.length < 2 ^ 32 →
      ∃ v, Prog.Returns (stm32f1Ideal board) (writeHalfWords flash data) w () v ∧
        v.mem = w.mem.blit flash (programmedBytes w.mem flash data) := by
  induction flash, data using writeHalfWords.induct with
  | case1 flash low high bytes ih =>
      intro w hlen
      simp only [List.length_cons] at hlen
      obtain ⟨u, hword, hmem⟩ := returns_flashWriteHalfWord board flash low high w
      obtain ⟨v, hrest, hmem'⟩ := ih u (by omega)
      refine ⟨v, hword.bind hrest, ?_⟩
      have hfits : [low, high].length + (programmedBytes u.mem (flash + 2) bytes).length ≤
          2 ^ 32 := by
        have hbytes := programmedBytes_length u.mem (flash + 2) bytes
        simp only [List.length_cons, List.length_nil]
        omega
      rw [hmem', hmem, programmedBytes_cons _ _ _ _ hlen]
      rw [hmem] at hfits
      exact Mem.blit_append w.mem flash hfits
  | case2 flash low =>
      intro w _
      obtain ⟨v, hword, hmem⟩ := returns_flashWriteHalfWord board flash low
        (w.mem flash) w
      refine ⟨v, .call rfl hword, ?_⟩
      rw [hmem, programmedBytes, if_neg (by simp)]
      simp
  | case3 flash =>
      intro w _
      exact ⟨w, .ret () w, rfl⟩

theorem returns_stm32f1PageWrite (page : UInt32) {data : List UInt8} (hlen : data.length < 2 ^ 32)
    (w : Stm32f1World) :
    ∃ v, Prog.Returns (stm32f1Ideal board) (stm32f1PageWrite page data) w () v ∧
      v.mem = w.mem.blit page (programmedBytes w.mem page data) := by
  obtain ⟨v, hrun, hmem⟩ := returns_writeHalfWords board page data w hlen
  exact ⟨_, .call rfl (hrun.bind (.call rfl (.call rfl (.ret () _)))), hmem⟩

/-! ## The half-words of a write -/

/-- A half-word handed to `flash_write_half_word`, with its address. -/
def Stm32f1Op.halfWord? : Stm32f1Op → Option (UInt32 × UInt16)
  | .storeHalfWord flash x => some (flash, x)
  | _ => none

/-- The half-words that a program hands to `flash_write_half_word`. -/
def halfWordsOf (p : Stm32f1Code Unit) (w : Stm32f1World) : List (UInt32 × UInt16) :=
  (Prog.run (stm32f1Ideal board) p w).calls.filterMap fun c => c.2.halfWord?

/-- Bytes as half-words at consecutive addresses, the low byte first. -/
def packed (flash : UInt32) : List UInt8 → List (UInt32 × UInt16)
  | low :: high :: bytes => (flash, halfWord low high) :: packed (flash + 2) bytes
  | [_] => []
  | [] => []

/-- An even number of bytes can be read back from the half-words. -/
theorem flatMap_packed (flash : UInt32) (bytes : List UInt8) (heven : bytes.length % 2 = 0) :
    (packed flash bytes).flatMap (fun x => halfWordBytes x.2) = bytes := by
  induction flash, bytes using packed.induct with
  | case1 flash low high bytes ih =>
      simp only [List.length_cons] at heven
      rw [packed, List.flatMap_cons, halfWordBytes_halfWord, ih (by omega)]
      rfl
  | case2 flash b => simp at heven
  | case3 flash => rfl

theorem packed_injective {flash : UInt32} {bytes bytes' : List UInt8}
    (heven : bytes.length % 2 = 0) (heven' : bytes'.length % 2 = 0)
    (h : packed flash bytes = packed flash bytes') : bytes = bytes' := by
  rw [← flatMap_packed flash bytes heven, h, flatMap_packed flash bytes' heven']

/-- The half-words of a sequence, from those of its parts. -/
theorem halfWordsOf_bind {p q : Stm32f1Code Unit} {w v : Stm32f1World}
    (hp : Prog.Returns (stm32f1Ideal board) p w () v) :
    halfWordsOf board (p >>= fun _ => q) w = halfWordsOf board p w ++ halfWordsOf board q v := by
  obtain ⟨hvalue, hworld⟩ := hp
  rw [halfWordsOf, Prog.run_bind_calls, hvalue, hworld, List.filterMap_append]
  rfl

theorem halfWordsOf_flashWriteHalfWord (flash : UInt32) (x : UInt16) (w : Stm32f1World) :
    halfWordsOf board (flashWriteHalfWord flash x) w = [(flash, x)] := by
  simp [halfWordsOf, flashWriteHalfWord, Prog.run, stm32f1Ideal, Stm32f1Op.halfWord?]

/-- The loop hands over the bytes that are programmed. -/
theorem halfWordsOf_writeHalfWords (flash : UInt32) (data : List UInt8) :
    ∀ w : Stm32f1World, data.length < 2 ^ 32 →
      halfWordsOf board (writeHalfWords flash data) w =
        packed flash (programmedBytes w.mem flash data) := by
  induction flash, data using writeHalfWords.induct with
  | case1 flash low high bytes ih =>
      intro w hlen
      obtain ⟨u, hword, hmem⟩ := returns_flashWriteHalfWord board flash low high w
      have hlen' : bytes.length + 2 < 2 ^ 32 := hlen
      rw [writeHalfWords, halfWordsOf_bind board hword, halfWordsOf_flashWriteHalfWord,
        ih u (by omega), hmem, programmedBytes_cons _ _ _ _ hlen']
      rfl
  | case2 flash low =>
      intro w _
      have hword := halfWordsOf_flashWriteHalfWord board flash (halfWord low (w.mem flash)) w
      have hplace : flash + UInt32.ofNat ([low].length - 1) = flash := UInt32.add_zero flash
      rw [programmedBytes, if_neg (by simp), hplace]
      exact hword
  | case3 flash =>
      intro w _
      rfl

/-- The half-words that `flash_writer_page_write` hands to `flash_write_half_word`. -/
def halfWordsWritten (page : UInt32) (data : List UInt8) (w : Stm32f1World) :
    List (UInt32 × UInt16) :=
  halfWordsOf board (stm32f1PageWrite page data) w

theorem halfWordsWritten_eq (page : UInt32) {data : List UInt8} (hlen : data.length < 2 ^ 32)
    (w : Stm32f1World) :
    halfWordsWritten board page data w = packed page (programmedBytes w.mem page data) := by
  obtain ⟨v, hrun, -⟩ := returns_writeHalfWords board page data w hlen
  rw [← halfWordsOf_writeHalfWords board page data w hlen, ← List.append_nil
    (halfWordsOf board (writeHalfWords page data) w)]
  exact halfWordsOf_bind board hrun

/-- The data, and behind an odd number of bytes the byte that memory holds there. -/
def neighbourKept (m : Mem) (page : UInt32) (data : List UInt8) : List UInt8 :=
  data ++ if data.length % 2 = 0 then [] else [m (page + UInt32.ofNat data.length)]

/-- The byte behind an odd number of bytes is kept if and only if it equals the byte that memory
    holds at the place of the last one: that is the one the writer reads. -/
theorem odd_write_keeps_iff (page : UInt32) {data : List UInt8} (hlen : data.length < 2 ^ 32)
    (w : Stm32f1World) :
    halfWordsWritten board page data w = packed page (neighbourKept w.mem page data) ↔
      data.length % 2 = 0 ∨
        w.mem (page + UInt32.ofNat (data.length - 1)) =
          w.mem (page + UInt32.ofNat data.length) := by
  rw [halfWordsWritten_eq board page hlen]
  unfold programmedBytes neighbourKept
  split_ifs with heven
  · simp [heven]
  · have hodd : ∀ b : UInt8, (data ++ [b]).length % 2 = 0 := by
      intro b
      rw [List.length_append, List.length_singleton]
      omega
    constructor
    · intro h
      have hbytes := packed_injective (hodd _) (hodd _) h
      exact .inr (by simpa using hbytes)
    · intro h
      rw [h.resolve_left heven]

/-- Flash memory that is erased but for one byte. -/
def oneByteProgrammed : Stm32f1World where
  mem := fun a => if a = 0x08003001 then 0 else 0xFF
  cr := fun _ => false
  ar := 0

/-- Three bytes in an erased range. -/
theorem odd_write_keeps_iff_erased :
    halfWordsWritten nucleoBoardStm32f103rb 0x08003400 [1, 2, 3] oneByteProgrammed =
        packed 0x08003400 (neighbourKept oneByteProgrammed.mem 0x08003400 [1, 2, 3]) ↔
      ([1, 2, 3] : List UInt8).length % 2 = 0 ∨
        oneByteProgrammed.mem (0x08003400 + UInt32.ofNat (([1, 2, 3] : List UInt8).length - 1)) =
          oneByteProgrammed.mem (0x08003400 + UInt32.ofNat ([1, 2, 3] : List UInt8).length) :=
  odd_write_keeps_iff nucleoBoardStm32f103rb 0x08003400 (by decide) oneByteProgrammed

/-- One byte before the programmed one, whose place takes 0xFF. -/
theorem odd_write_loses_neighbour :
    ¬ halfWordsWritten nucleoBoardStm32f103rb 0x08003000 [0xAA] oneByteProgrammed =
      packed 0x08003000 (neighbourKept oneByteProgrammed.mem 0x08003000 [0xAA]) := by
  decide

end CanBootloader
