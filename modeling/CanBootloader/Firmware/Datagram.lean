/-
  can_datagram.c and can_datagram.h: the datagram structure with its byte-wise reader and
  its resumable writer.

  Fields keep the source's widths (`uint8_t`, `uint32_t`) where arithmetic on them can wrap;
  the `int` counters only count from 0 to 4 and are `Nat`. A buffer is the memory behind its
  pointer (`Store`): `can_datagram_input_byte` does not know the size of the address buffer,
  so an index past that size is a fact to be proved or refuted about the index, not an
  operation the model refuses.

  The `crc` package is not part of the repository. Its `crc32(crc, buf, len)` is a parameter.
-/
import CanBootloader.Protocol

namespace CanBootloader

open Lib

/-- `crc32(crc, buf, len)` of the `crc` package. -/
abbrev CrcFn := UInt32 → List UInt8 → UInt32

/-- The states of both automata (`enum` in can_datagram.c). -/
inductive State where
  | protocolVersion
  | crc
  | dstLen
  | dst
  | dataLen
  | data
  | trailing
  deriving DecidableEq, Repr

def canDatagramVersion : Nat := 1

/-- `ID_START_MASK`. -/
def idStartMask : UInt32 := 0x80

/-- `can_datagram_t`. -/
structure CanDatagram where
  protocolVersion : Nat
  crc : UInt32
  destinationNodesLen : UInt8
  destinationNodes : Store
  dataLen : UInt32
  data : Store
  crcBytesRead : Nat
  crcBytesWritten : Nat
  dataLengthBytesRead : Nat
  dataLengthBytesWritten : Nat
  destinationNodesRead : UInt8
  destinationNodesWritten : UInt8
  dataBytesRead : UInt32
  dataBytesWritten : UInt32
  dataBufferSize : UInt32
  readerState : State
  writerState : State

/-- `can_datagram_init`: everything zero, null buffers, the current version. -/
def canDatagramInit : CanDatagram where
  protocolVersion := canDatagramVersion
  crc := 0
  destinationNodesLen := 0
  destinationNodes := fun _ => 0
  dataLen := 0
  data := fun _ => 0
  crcBytesRead := 0
  crcBytesWritten := 0
  dataLengthBytesRead := 0
  dataLengthBytesWritten := 0
  destinationNodesRead := 0
  destinationNodesWritten := 0
  dataBytesRead := 0
  dataBytesWritten := 0
  dataBufferSize := 0
  readerState := .protocolVersion
  writerState := .protocolVersion

def canDatagramSetAddressBuffer (dt : CanDatagram) (buf : Store) : CanDatagram :=
  { dt with destinationNodes := buf }

def canDatagramSetDataBuffer (dt : CanDatagram) (buf : Store) (bufSize : Nat) : CanDatagram :=
  { dt with data := buf, dataBufferSize := UInt32.ofNat bufSize }

/-! ## Reader -/

def canDatagramInputByte (dt : CanDatagram) (val : UInt8) : CanDatagram :=
  match dt.readerState with
  | .protocolVersion => { dt with protocolVersion := val.toNat, readerState := .crc }
  | .crc =>
      let dt := { dt with crc := pushByte dt.crc val, crcBytesRead := dt.crcBytesRead + 1 }
      if dt.crcBytesRead ≥ 4 then { dt with readerState := .dstLen } else dt
  | .dstLen => { dt with destinationNodesLen := val, readerState := .dst }
  | .dst =>
      -- the byte is stored before the counter is compared, also for an empty list
      let dt := { dt with
        destinationNodes := dt.destinationNodes.write dt.destinationNodesRead.toNat val
        destinationNodesRead := dt.destinationNodesRead + 1 }
      if dt.destinationNodesRead ≥ dt.destinationNodesLen then
        { dt with readerState := .dataLen }
      else dt
  | .dataLen =>
      let dt := { dt with
        dataLen := pushByte dt.dataLen val
        dataLengthBytesRead := dt.dataLengthBytesRead + 1 }
      if dt.dataLengthBytesRead ≥ 4 then { dt with readerState := .data } else dt
  | .data =>
      let dt := { dt with
        data := dt.data.write dt.dataBytesRead.toNat val
        dataBytesRead := dt.dataBytesRead + 1 }
      -- the announced number of bytes was received
      let dt := if dt.dataBytesRead ≥ dt.dataLen then { dt with readerState := .trailing } else dt
      -- input buffer overflow
      if dt.dataBytesRead ≥ dt.dataBufferSize then { dt with readerState := .trailing } else dt
  | .trailing => dt

/-- The bytes of `bs` one after the other. -/
def canDatagramInput (dt : CanDatagram) (bs : List UInt8) : CanDatagram :=
  bs.foldl canDatagramInputByte dt

def canDatagramIsComplete (dt : CanDatagram) : Bool := dt.readerState = .trailing

/-- `can_datagram_compute_crc`, over as many bytes of both buffers as the lengths announce. -/
def canDatagramComputeCrc (crc32 : CrcFn) (dt : CanDatagram) : UInt32 :=
  let crc := crc32 0 [dt.destinationNodesLen]
  let crc := crc32 crc (dt.destinationNodes.slice 0 dt.destinationNodesLen.toNat)
  let crc := crc32 crc (be32 dt.dataLen)
  crc32 crc (dt.data.slice 0 dt.dataLen.toNat)

def canDatagramIsValid (crc32 : CrcFn) (dt : CanDatagram) : Bool :=
  canDatagramIsComplete dt && canDatagramComputeCrc crc32 dt == dt.crc &&
    dt.protocolVersion == canDatagramVersion

/-- `can_datagram_start`. The lengths, the version and both buffers keep what they held. -/
def canDatagramStart (dt : CanDatagram) : CanDatagram :=
  { dt with
    readerState := .protocolVersion
    crc := 0x11223344
    crcBytesRead := 0
    destinationNodesRead := 0
    dataLengthBytesRead := 0
    dataBytesRead := 0 }

/-! ## Writer -/

/-- One round of the loop of `can_datagram_output_bytes`; `none` is its `return i`. -/
def canDatagramOutputByte (dt : CanDatagram) : Option UInt8 × CanDatagram :=
  match dt.writerState with
  | .protocolVersion =>
      (some (UInt8.ofNat dt.protocolVersion),
        { dt with writerState := .crc, crcBytesWritten := 0 })
  | .crc =>
      let b := (dt.crc >>> UInt32.ofNat (24 - 8 * dt.crcBytesWritten)).toUInt8
      let dt := { dt with crcBytesWritten := dt.crcBytesWritten + 1 }
      (some b, if dt.crcBytesWritten ≥ 4 then { dt with writerState := .dstLen } else dt)
  | .dstLen =>
      (some dt.destinationNodesLen,
        { dt with writerState := .dst, destinationNodesWritten := 0 })
  | .dst =>
      let b := dt.destinationNodes dt.destinationNodesWritten.toNat
      let dt := { dt with destinationNodesWritten := dt.destinationNodesWritten + 1 }
      (some b,
        if dt.destinationNodesWritten ≥ dt.destinationNodesLen then
          { dt with writerState := .dataLen, dataLengthBytesWritten := 0 }
        else dt)
  | .dataLen =>
      let b := (dt.dataLen >>> UInt32.ofNat (24 - 8 * dt.dataLengthBytesWritten)).toUInt8
      let dt := { dt with dataLengthBytesWritten := dt.dataLengthBytesWritten + 1 }
      (some b,
        if dt.dataLengthBytesWritten ≥ 4 then
          { dt with writerState := .data, dataBytesWritten := 0 }
        else dt)
  | .data =>
      if dt.dataBytesWritten ≥ dt.dataLen then (none, { dt with writerState := .trailing })
      else
        (some (dt.data dt.dataBytesWritten.toNat),
          { dt with dataBytesWritten := dt.dataBytesWritten + 1 })
  | .trailing => (none, dt)

/-- `can_datagram_output_bytes` into a buffer of the given length: the bytes written, whose
    number is the return value. -/
def canDatagramOutputBytes (dt : CanDatagram) : Nat → List UInt8 × CanDatagram
  | 0 => ([], dt)
  | bufferLen + 1 =>
      match canDatagramOutputByte dt with
      | (none, dt) => ([], dt)
      | (some b, dt) =>
          let (bs, dt) := canDatagramOutputBytes dt bufferLen
          (b :: bs, dt)

end CanBootloader
