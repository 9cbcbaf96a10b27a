/-
  The datagram of PROTOCOL.markdown, as a value: a destination list and a data field that
  fit their length fields. `wire` is its byte format (version, CRC-32, list length, IDs,
  data length, data). This is the meeting point of the firmware's byte automata
  (`Firmware.Datagram`) and the client's encoder and decoder (`Client.Datagram`); neither
  of them is defined from it.
-/
import CanBootloader.Lib.Bytes
import CanBootloader.Lib.Crc32

namespace CanBootloader

open Lib

/-- A datagram that can be put on the bus: both lengths fit their fields. -/
structure Datagram where
  destinations : List UInt8
  data : List UInt8
  destinations_le : destinations.length ≤ 255
  data_lt : data.length < 2 ^ 32

namespace Datagram

/-- List length and destination IDs, then data length and data: the part the CRC covers. -/
def body (d : Datagram) : List UInt8 :=
  UInt8.ofNat d.destinations.length :: d.destinations ++
    (be32 (UInt32.ofNat d.data.length) ++ d.data)

/-- The bytes on the bus. -/
def wire (d : Datagram) : List UInt8 := 1 :: be32 (Zlib.crc32 d.body) ++ d.body

theorem body_length (d : Datagram) :
    d.body.length = 5 + d.destinations.length + d.data.length := by
  simp [body]
  omega

theorem wire_length (d : Datagram) :
    d.wire.length = 10 + d.destinations.length + d.data.length := by
  simp [wire, body_length]
  omega

theorem wire_ne_nil (d : Datagram) : d.wire ≠ [] := by simp [wire]

theorem destinations_toNat (d : Datagram) :
    (UInt8.ofNat d.destinations.length).toNat = d.destinations.length := by
  have := d.destinations_le
  rw [UInt8.toNat_ofNat']
  omega

theorem data_toNat (d : Datagram) :
    (UInt32.ofNat d.data.length).toNat = d.data.length :=
  UInt32.toNat_ofNat_of_lt' d.data_lt

end Datagram

end CanBootloader
