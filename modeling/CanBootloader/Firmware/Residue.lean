/-
  No residue between datagrams.

  `can_datagram_start` resets the state, the CRC and the counters of the reader. The version, both
  lengths and both buffers keep what an earlier datagram left there. `no_residue`: whatever a
  reader was fed before, what it reports of the next datagram depends on the bytes of that
  datagram only, as long as these announce no more data than the buffer holds.
-/
import CanBootloader.Firmware.ReaderBounds

namespace CanBootloader

open Lib

/-! ## Readers with a history -/

/-- What a reader is used for. -/
inductive ReaderCall where
  | start
  | inputByte (val : UInt8)

def ReaderCall.apply (dt : CanDatagram) : ReaderCall → CanDatagram
  | .start => canDatagramStart dt
  | .inputByte val => canDatagramInputByte dt val

/-- A reader with its two buffers, behind these calls. -/
def usedReader (addrBuf dataBuf : Store) (bufSize : UInt32) (history : List ReaderCall) :
    CanDatagram :=
  history.foldl ReaderCall.apply
    (canDatagramSetDataBuffer (canDatagramSetAddressBuffer canDatagramInit addrBuf) dataBuf
      bufSize.toNat)

theorem apply_dataBufferSize (dt : CanDatagram) (call : ReaderCall) :
    (call.apply dt).dataBufferSize = dt.dataBufferSize := by
  cases call with
  | start => rfl
  | inputByte val => exact inputByte_dataBufferSize dt val

theorem foldl_apply_dataBufferSize (history : List ReaderCall) : ∀ dt : CanDatagram,
    (history.foldl ReaderCall.apply dt).dataBufferSize = dt.dataBufferSize := by
  induction history with
  | nil => intro dt; rfl
  | cons call history ih =>
      intro dt
      rw [List.foldl_cons, ih, apply_dataBufferSize]

@[simp] theorem usedReader_dataBufferSize (addrBuf dataBuf : Store) (bufSize : UInt32)
    (history : List ReaderCall) :
    (usedReader addrBuf dataBuf bufSize history).dataBufferSize = bufSize := by
  rw [usedReader, foldl_apply_dataBufferSize]
  exact UInt32.ofNat_toNat

/-! ## What a reader reports -/

/-- The data length of the datagram that `s` begins with is at most `n`, if `s` gets that far. -/
def AnnouncesAtMost (n : Nat) (s : List UInt8) : Prop :=
  dataOffset s ≤ s.length → announcedLen s ≤ n

/-- Two readers hold the same datagram. -/
structure SameDatagram (dt dt' : CanDatagram) : Prop where
  crc : dt.crc = dt'.crc
  protocolVersion : dt.protocolVersion = dt'.protocolVersion
  destinationNodesLen : dt.destinationNodesLen = dt'.destinationNodesLen
  destinationNodes : dt.destinationNodes.slice 0 dt.destinationNodesLen.toNat =
    dt'.destinationNodes.slice 0 dt'.destinationNodesLen.toNat
  dataLen : dt.dataLen = dt'.dataLen
  data : dt.data.slice 0 dt.dataLen.toNat = dt'.data.slice 0 dt'.dataLen.toNat

/-- Two readers report the same: whether they are complete and valid, and the datagram if they
    are complete. -/
structure SameReport (crc32 : CrcFn) (dt dt' : CanDatagram) : Prop where
  isComplete : canDatagramIsComplete dt = canDatagramIsComplete dt'
  isValid : canDatagramIsValid crc32 dt = canDatagramIsValid crc32 dt'
  datagram : canDatagramIsComplete dt = true → SameDatagram dt dt'

/-- Open readers report nothing. -/
theorem sameReport_of_open (crc32 : CrcFn) {dt dt' : CanDatagram}
    (h : canDatagramIsComplete dt = false) (h' : canDatagramIsComplete dt' = false) :
    SameReport crc32 dt dt' where
  isComplete := by rw [h, h']
  isValid := by simp [canDatagramIsValid, h, h']
  datagram hcomp := by simp [h] at hcomp

section Sized

variable {bufSize : Nat} {dt : CanDatagram} (hsize : dt.dataBufferSize.toNat = bufSize)
  {s : List UInt8}

include hsize

theorem input_of_intake_sized (x : Intake bufSize) (hx : x.bytes <+: s) :
    canDatagramInput (canDatagramStart dt) s = x.read dt := by
  subst hsize
  exact input_of_intake dt hx

theorem open_sized (hx : ¬ ∃ x : Intake bufSize, x.bytes <+: s) :
    canDatagramIsComplete (canDatagramInput (canDatagramStart dt) s) = false := by
  subst hsize
  rw [Bool.eq_false_iff, ne_eq, complete_iff]
  exact hx

end Sized

/-- The bytes that an intake stores cover everything that its lengths announce. -/
theorem blit_slice_eq (s t : Store) {bs : List UInt8} {n : Nat} (h : n ≤ bs.length) :
    (s.blit 0 bs).slice 0 n = (t.blit 0 bs).slice 0 n := by
  rw [Store.slice_blit_take, Store.slice_blit_take, Nat.sub_eq_zero_of_le h, Store.slice_zero,
    Store.slice_zero]

theorem sameDatagram_read {bufSize : Nat} (x : Intake bufSize)
    (hfits : x.dataLen.toNat ≤ bufSize) (dt dt' : CanDatagram) :
    SameDatagram (x.read dt) (x.read dt') where
  crc := rfl
  protocolVersion := rfl
  destinationNodesLen := rfl
  destinationNodes := blit_slice_eq dt.destinationNodes dt'.destinationNodes
    (show x.destinationNodesLen.toNat ≤ x.destinationNodes.length by
      rw [x.destinationNodes_length]; omega)
  dataLen := rfl
  data := blit_slice_eq dt.data dt'.data
    (show x.dataLen.toNat ≤ x.data.length by rw [x.data_length]; omega)

/-- The CRC is computed over nothing but the datagram. -/
theorem SameDatagram.computeCrc {dt dt' : CanDatagram} (h : SameDatagram dt dt')
    (crc32 : CrcFn) : canDatagramComputeCrc crc32 dt = canDatagramComputeCrc crc32 dt' := by
  unfold canDatagramComputeCrc
  rw [h.destinationNodes, h.data, h.destinationNodesLen, h.dataLen]

theorem sameReport_of_complete (crc32 : CrcFn) {dt dt' : CanDatagram}
    (hcomp : canDatagramIsComplete dt = canDatagramIsComplete dt') (h : SameDatagram dt dt') :
    SameReport crc32 dt dt' where
  isComplete := hcomp
  isValid := by
    unfold canDatagramIsValid
    rw [hcomp, h.computeCrc, h.crc, h.protocolVersion]
  datagram _ := h

/-- Two started readers with data buffers of one size, fed the same bytes: each of them is
    complete if and only if these begin with an intake of that size. -/
theorem sameReport_input (crc32 : CrcFn) {bufSize : Nat} {dt dt' : CanDatagram}
    (hsize : dt.dataBufferSize.toNat = bufSize) (hsize' : dt'.dataBufferSize.toNat = bufSize)
    {s : List UInt8} (hs : AnnouncesAtMost bufSize s) :
    SameReport crc32 (canDatagramInput (canDatagramStart dt) s)
      (canDatagramInput (canDatagramStart dt') s) := by
  by_cases hx : ∃ x : Intake bufSize, x.bytes <+: s
  · obtain ⟨x, hx⟩ := hx
    have hheader : x.header <+: s := (List.prefix_append _ _).trans hx
    obtain ⟨hoffset, hlen⟩ := x.dataOffset_eq hheader
    have hfits : x.dataLen.toNat ≤ bufSize := by
      rw [← hlen]
      apply hs
      rw [hoffset]
      exact hheader.length_le
    rw [input_of_intake_sized hsize x hx, input_of_intake_sized hsize' x hx]
    exact sameReport_of_complete crc32 rfl (sameDatagram_read x hfits dt dt')
  · exact sameReport_of_open crc32 (open_sized hsize hx) (open_sized hsize' hx)

/-- Whatever two readers were used for before, behind `can_datagram_start` and the same bytes they
    report the same, provided that these bytes announce no more data than the buffer holds. -/
theorem no_residue (crc32 : CrcFn) (addrBuf addrBuf' dataBuf dataBuf' : Store) (bufSize : UInt32)
    (history history' : List ReaderCall) (s : List UInt8)
    (hs : AnnouncesAtMost bufSize.toNat s) :
    SameReport crc32
      (canDatagramInput (canDatagramStart (usedReader addrBuf dataBuf bufSize history)) s)
      (canDatagramInput (canDatagramStart (usedReader addrBuf' dataBuf' bufSize history')) s) :=
  sameReport_input crc32 (by rw [usedReader_dataBufferSize]) (by rw [usedReader_dataBufferSize]) hs

/-- A reader that stopped in the data of a datagram for nodes 7 and 8, and a fresh one, are fed a
    ping for node 1. -/
theorem no_residue_ping :
    SameReport (fun crc buf => Zlib.crc32 buf crc)
      (canDatagramInput (canDatagramStart (usedReader (fun _ => 0) (fun _ => 0) 16
        (([1, 0, 0, 0, 0, 2, 7, 8, 0, 0, 0, 9, 5, 5] : List UInt8).map .inputByte)))
        [1, 87, 60, 167, 97, 1, 1, 0, 0, 0, 2, 3, 5])
      (canDatagramInput (canDatagramStart (usedReader (fun _ => 0) (fun _ => 0) 16 []))
        [1, 87, 60, 167, 97, 1, 1, 0, 0, 0, 2, 3, 5]) :=
  no_residue _ _ _ _ _ 16 _ _ _ (fun _ => by decide)

end CanBootloader
