/-
  CRC-32 as zlib computes it: reflected polynomial `0xEDB88320`, the register inverted
  before and after. `crc32 data value` continues from an earlier result `value`, so a
  checksum can be taken piece by piece (`crc32_append`).
-/
import Mathlib.Tactic

namespace CanBootloader.Lib.Zlib

/-- One step of the shift register. -/
def crcBit (c : UInt32) : UInt32 :=
  if c &&& 1 = 1 then (c >>> 1) ^^^ 0xEDB88320 else c >>> 1

/-- One byte through the shift register. -/
def crcByte (c : UInt32) (b : UInt8) : UInt32 :=
  (List.range 8).foldl (fun c _ => crcBit c) (c ^^^ b.toUInt32)

/-- `zlib.crc32(data, value)`. -/
def crc32 (data : List UInt8) (value : UInt32 := 0) : UInt32 :=
  data.foldl crcByte (value ^^^ 0xFFFFFFFF) ^^^ 0xFFFFFFFF

theorem xor_mask_cancel (c m : UInt32) : c ^^^ m ^^^ m = c := by
  rw [UInt32.xor_assoc, UInt32.xor_self, UInt32.xor_zero]

/-- The checksum of a concatenation continues the checksum of its first part. -/
theorem crc32_append (xs ys : List UInt8) (value : UInt32) :
    crc32 ys (crc32 xs value) = crc32 (xs ++ ys) value := by
  unfold crc32
  rw [xor_mask_cancel, List.foldl_append]

example : crc32 [1, 14, 0, 0, 0, 1, 0x42] = 0x80d8a447 := by decide +kernel

end CanBootloader.Lib.Zlib
