/-
  bootloader_flash.py and page.py: what `flash_image` asks the boards to do, when every board
  replies success to every request.

  First a request to erase each page, at the offsets of a `range`; then a request to write each
  chunk of the image, cut by a generator. `flash_session` runs the requests on ideal flash
  memory: none is refused, and the image is stored.
-/
import CanBootloader.Client.Commands
import CanBootloader.Lib.PagedFlash

namespace CanBootloader

open Lib

/-! ## Requests -/

/-- Python's `range(0, stop, step)`. -/
def pyRange (stop : Nat) (step : ℕ+) : List Nat :=
  (List.range ((stop + step - 1) / step)).map fun k => k * step

def sliceIntoPages (data : List UInt8) (pageSize : ℕ+) : List (List UInt8) :=
  if pageSize < data.length then
    data.take pageSize :: sliceIntoPages (data.drop pageSize) pageSize
  else [data]
termination_by data.length
decreasing_by
  have hpos := pageSize.pos
  rw [List.length_drop]
  omega

/-- What `flash_image` sends to its destinations. -/
inductive FlashRequest where
  | erase (address : Nat)
  | write (data : List UInt8) (address : Nat)
  deriving DecidableEq, Repr

def FlashRequest.command (deviceClass : List UInt8) : FlashRequest → List UInt8
  | erase address => encodeEraseFlashPage address deviceClass
  | write data address => encodeWriteFlash data address deviceClass

/-- The requests of `flash_image`, in order. -/
def flashImage (binary : List UInt8) (baseAddress : Nat) (pageSize : ℕ+) : List FlashRequest :=
  ((pyRange binary.length pageSize).map fun offset => .erase (baseAddress + offset)) ++
    (sliceIntoPages binary pageSize).zipIdx.map fun (chunk, offset) =>
      .write chunk (baseAddress + offset * pageSize)

/-- A request as an operation on flash memory. -/
def FlashRequest.op : FlashRequest → PagedFlash.Op
  | erase address => .erase address
  | write data address => .write address data

/-! ## Chunks -/

theorem sliceIntoPages_flatten (data : List UInt8) (pageSize : ℕ+) :
    (sliceIntoPages data pageSize).flatten = data := by
  fun_induction sliceIntoPages data pageSize with
  | case1 data hmore ih => rw [List.flatten_cons, ih, List.take_append_drop]
  | case2 data hlast => simp

/-- The chunks adjoin: `offset * page_size` is the number of bytes in front of a chunk. -/
theorem zipIdx_sliceIntoPages (baseAddress : Nat) (data : List UInt8) (pageSize : ℕ+) (k : Nat) :
    ((sliceIntoPages data pageSize).zipIdx k).map
        (fun (chunk, offset) => PagedFlash.Op.write (baseAddress + offset * pageSize) chunk) =
      PagedFlash.writesFrom (baseAddress + k * pageSize) (sliceIntoPages data pageSize) := by
  fun_induction sliceIntoPages data pageSize generalizing k with
  | case1 data hmore ih =>
      have hlen : (data.take pageSize).length = pageSize := by
        rw [List.length_take]
        omega
      have hnext : baseAddress + k * pageSize + pageSize = baseAddress + (k + 1) * pageSize := by
        ring
      rw [List.zipIdx_cons, List.map_cons, ih (k + 1), PagedFlash.writesFrom, hlen, hnext]
  | case2 data hlast => rfl

/-- The writes of a session. -/
theorem flashImage_ops (binary : List UInt8) (baseAddress : Nat) (pageSize : ℕ+) :
    (flashImage binary baseAddress pageSize).map FlashRequest.op =
      ((pyRange binary.length pageSize).map (baseAddress + ·)).map PagedFlash.Op.erase ++
        PagedFlash.writesFrom baseAddress (sliceIntoPages binary pageSize) := by
  have hwrites := zipIdx_sliceIntoPages baseAddress binary pageSize 0
  rw [Nat.zero_mul, Nat.add_zero] at hwrites
  rw [flashImage, List.map_append, ← hwrites, List.map_map, List.map_map, List.map_map]
  rfl

/-! ## Sessions -/

/-- The last offset up to a byte of the image. -/
theorem mem_pyRange {len i : Nat} (pageSize : ℕ+) (hi : i < len) :
    i / pageSize * pageSize ∈ pyRange len pageSize := by
  refine List.mem_map.mpr ⟨i / pageSize, ?_, rfl⟩
  have hps := pageSize.pos
  have hdiv := Nat.div_add_mod' (len + pageSize - 1) pageSize
  have hmod := Nat.mod_lt (len + pageSize - 1) hps
  rw [List.mem_range, Nat.div_lt_iff_lt_mul hps]
  omega

/-- Every byte of the image lies in a page that is erased: the one of the last offset before
    it. -/
theorem exists_erase {flashPageSize baseAddress : Nat} {pageSize : ℕ+}
    (hpage : (pageSize : Nat) ∣ flashPageSize) (hbase : flashPageSize ∣ baseAddress)
    (hpos : 0 < flashPageSize) {len i : Nat} (hi : i < len) :
    ∃ a ∈ (pyRange len pageSize).map (baseAddress + ·),
      (baseAddress + i) / flashPageSize = a / flashPageSize := by
  obtain ⟨q, rfl⟩ := hpage
  obtain ⟨b, rfl⟩ := hbase
  have hps := pageSize.pos
  refine ⟨pageSize * q * b + i / pageSize * pageSize, ?_, ?_⟩
  · exact List.mem_map_of_mem (mem_pyRange pageSize hi)
  · rw [Nat.mul_add_div hpos, Nat.mul_add_div hpos, ← Nat.div_div_eq_div_mul,
      ← Nat.div_div_eq_div_mul, Nat.mul_div_cancel _ hps]

/-- A session without faults stores the image: for every image, every prior content, and every
    page size of the client that divides the page size of the flash memory, no request is
    refused, and the image is where it belongs at the end. -/
theorem flash_session (flashPageSize baseAddress : Nat) (pageSize : ℕ+) (hpos : 0 < flashPageSize)
    (hpage : (pageSize : Nat) ∣ flashPageSize) (hbase : flashPageSize ∣ baseAddress)
    (image : List UInt8) (m : Store) :
    ∃ m', PagedFlash.run flashPageSize m
        ((flashImage image baseAddress pageSize).map FlashRequest.op) = some m' ∧
      m'.slice baseAddress image.length = image := by
  let addresses := (pyRange image.length pageSize).map (baseAddress + ·)
  have herased : PagedFlash.Erased (PagedFlash.erasePages flashPageSize addresses m) baseAddress
      (sliceIntoPages image pageSize).flatten.length := by
    intro i hi
    rw [sliceIntoPages_flatten] at hi
    exact if_pos (exists_erase hpage hbase hpos hi)
  have hrun : PagedFlash.run flashPageSize m
      ((flashImage image baseAddress pageSize).map FlashRequest.op) =
      some ((PagedFlash.erasePages flashPageSize addresses m).blit baseAddress image) := by
    rw [flashImage_ops, PagedFlash.run_append, PagedFlash.run_erases, Option.bind_some,
      PagedFlash.run_writes _ _ _ herased, sliceIntoPages_flatten]
  exact ⟨_, hrun, Store.slice_blit image _ baseAddress⟩

/-- An image of one page and a part of the next, sent in pages of two bytes. -/
theorem flash_session_five :
    ∃ m', PagedFlash.run 4 (fun _ => 0)
        ((flashImage [1, 2, 3, 4, 5] 8 2).map FlashRequest.op) = some m' ∧
      m'.slice 8 5 = [1, 2, 3, 4, 5] :=
  flash_session 4 8 2 (by decide) (by decide) (by decide) [1, 2, 3, 4, 5] fun _ => 0

end CanBootloader
