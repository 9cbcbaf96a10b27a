/-
  The resumable writer of can_datagram.c delivers one fixed byte string, in pieces.

  `pending dt` is what the writer still has to deliver, read off its state and counters.
  One round of the loop delivers its head and leaves its tail (`outputByte_spec`), so a call
  with a buffer of `n` bytes delivers the next `n` of them (`outputBytes_spec`), whatever
  calls came before.
-/
import CanBootloader.Firmware.Reader

namespace CanBootloader

open Lib

/-- Data length and data. -/
def dataPart (dt : CanDatagram) : List UInt8 :=
  be32 dt.dataLen ++ dt.data.slice 0 dt.dataLen.toNat

/-- List length and IDs, then `dataPart`. The writer stores a destination before it compares
    its counter, so it delivers one even when the list is empty. -/
def listPart (dt : CanDatagram) : List UInt8 :=
  dt.destinationNodesLen ::
    dt.destinationNodes.slice 0 (max dt.destinationNodesLen.toNat 1) ++ dataPart dt

/-- The bytes the writer has yet to deliver. -/
def pending (dt : CanDatagram) : List UInt8 :=
  match dt.writerState with
  | .protocolVersion => UInt8.ofNat dt.protocolVersion :: be32 dt.crc ++ listPart dt
  | .crc => (be32 dt.crc).drop dt.crcBytesWritten ++ listPart dt
  | .dstLen => listPart dt
  | .dst =>
      dt.destinationNodes.slice dt.destinationNodesWritten.toNat
        (max dt.destinationNodesLen.toNat 1 - dt.destinationNodesWritten.toNat) ++ dataPart dt
  | .dataLen =>
      (be32 dt.dataLen).drop dt.dataLengthBytesWritten ++ dt.data.slice 0 dt.dataLen.toNat
  | .data =>
      dt.data.slice dt.dataBytesWritten.toNat (dt.dataLen.toNat - dt.dataBytesWritten.toNat)
  | .trailing => []

/-- The counters of a writer that is inside a field point into that field. -/
def WriterOk (dt : CanDatagram) : Prop :=
  match dt.writerState with
  | .crc => dt.crcBytesWritten < 4
  | .dst => dt.destinationNodesWritten.toNat < max dt.destinationNodesLen.toNat 1
  | .dataLen => dt.dataLengthBytesWritten < 4
  | _ => True

/-- The byte the writer takes out of a 32-bit field. -/
theorem be32_drop (x : UInt32) {w : Nat} (h : w < 4) :
    (be32 x).drop w = (x >>> UInt32.ofNat (24 - 8 * w)).toUInt8 :: (be32 x).drop (w + 1) := by
  have hw : w = 0 ∨ w = 1 ∨ w = 2 ∨ w = 3 := by omega
  rcases hw with rfl | rfl | rfl | rfl
  · rfl
  · rfl
  · rfl
  · simp [be32]

/-- Reading an array from index `i` up to a bound above `i`. -/
theorem slice_next (s : Store) {i n : Nat} (h : i < n) :
    s.slice i (n - i) = s i :: s.slice (i + 1) (n - (i + 1)) := by
  rw [show n - i = (n - (i + 1)) + 1 by omega, Store.slice_succ]

theorem be32_drop_end (x : UInt32) {n : Nat} (h : n ≥ 4) : (be32 x).drop n = [] := by
  apply List.drop_eq_nil_of_le
  rw [be32_length]
  exact h

/-! ## One round -/

/-- The round delivers the next pending byte, or finds that there is none. -/
def Delivers (dt : CanDatagram) : Prop :=
  (canDatagramOutputByte dt).1 = (pending dt).head? ∧
    pending (canDatagramOutputByte dt).2 = (pending dt).tail ∧
    WriterOk (canDatagramOutputByte dt).2

theorem delivers_crc {dt : CanDatagram} (hs : dt.writerState = .crc)
    (hw : dt.crcBytesWritten < 4) : Delivers dt := by
  simp only [Delivers, canDatagramOutputByte, pending, hs]
  rw [be32_drop dt.crc hw]
  split_ifs with hend
  · simp [be32_drop_end dt.crc hend, listPart, dataPart, WriterOk]
  · refine ⟨rfl, ?_, ?_⟩
    · simp [listPart, dataPart]
    · simp only [WriterOk]
      omega

theorem delivers_dst {dt : CanDatagram} (hs : dt.writerState = .dst)
    (hw : dt.destinationNodesWritten.toNat < max dt.destinationNodesLen.toNat 1) :
    Delivers dt := by
  have hm := dt.destinationNodesLen.toNat_lt
  have hsucc : (dt.destinationNodesWritten + 1).toNat =
      dt.destinationNodesWritten.toNat + 1 := by
    rw [UInt8.toNat_add]
    simp only [UInt8.reduceToNat]
    omega
  simp only [Delivers, canDatagramOutputByte, pending, hs]
  rw [slice_next _ hw]
  split_ifs with hend
  · have hend' : max dt.destinationNodesLen.toNat 1 -
        (dt.destinationNodesWritten.toNat + 1) = 0 := by
      rw [ge_iff_le, UInt8.le_iff_toNat_le, hsucc] at hend
      omega
    simp [hend', dataPart, WriterOk]
  · have hmore : dt.destinationNodesWritten.toNat + 1 < dt.destinationNodesLen.toNat := by
      rw [ge_iff_le, UInt8.le_iff_toNat_le, hsucc] at hend
      omega
    refine ⟨rfl, ?_, ?_⟩
    · simp [hsucc, dataPart]
    · simp only [WriterOk, hsucc]
      omega

theorem delivers_dataLen {dt : CanDatagram} (hs : dt.writerState = .dataLen)
    (hw : dt.dataLengthBytesWritten < 4) : Delivers dt := by
  simp only [Delivers, canDatagramOutputByte, pending, hs]
  rw [be32_drop dt.dataLen hw]
  split_ifs with hend
  · simp [be32_drop_end dt.dataLen hend, WriterOk]
  · refine ⟨rfl, ?_, ?_⟩
    · simp
    · simp only [WriterOk]
      omega

theorem delivers_data {dt : CanDatagram} (hs : dt.writerState = .data) : Delivers dt := by
  simp only [Delivers, canDatagramOutputByte, pending, hs]
  by_cases hend : dt.dataBytesWritten ≥ dt.dataLen
  · have hend' : dt.dataLen.toNat - dt.dataBytesWritten.toNat = 0 := by
      rw [ge_iff_le, UInt32.le_iff_toNat_le] at hend
      omega
    simp [hend, hend', WriterOk]
  · have hmore : dt.dataBytesWritten.toNat < dt.dataLen.toNat := by
      rw [ge_iff_le, UInt32.le_iff_toNat_le] at hend
      omega
    have hn := dt.dataLen.toNat_lt
    have hsucc : (dt.dataBytesWritten + 1).toNat = dt.dataBytesWritten.toNat + 1 :=
      uint32_succ_toNat (by omega)
    rw [slice_next _ hmore]
    simp [hend, hsucc, WriterOk]

theorem outputByte_spec (dt : CanDatagram) (h : WriterOk dt) : Delivers dt := by
  cases hs : dt.writerState with
  | protocolVersion =>
      simp [Delivers, canDatagramOutputByte, pending, WriterOk, hs, listPart, dataPart]
  | crc => exact delivers_crc hs (by simpa [WriterOk, hs] using h)
  | dstLen =>
      simp [Delivers, canDatagramOutputByte, pending, hs, listPart, dataPart, WriterOk]
  | dst => exact delivers_dst hs (by simpa only [WriterOk, hs] using h)
  | dataLen => exact delivers_dataLen hs (by simpa [WriterOk, hs] using h)
  | data => exact delivers_data hs
  | trailing => simp [Delivers, canDatagramOutputByte, pending, WriterOk, hs]

/-! ## One call -/

/-- A call delivers as many pending bytes as fit its buffer, and leaves the others. -/
theorem outputBytes_spec (n : Nat) : ∀ dt : CanDatagram, WriterOk dt →
    (canDatagramOutputBytes dt n).1 = (pending dt).take n ∧
      pending (canDatagramOutputBytes dt n).2 = (pending dt).drop n ∧
      WriterOk (canDatagramOutputBytes dt n).2 := by
  induction n with
  | zero => intro dt h; exact ⟨by simp [canDatagramOutputBytes], by simp [canDatagramOutputBytes], h⟩
  | succ n ih =>
      intro dt h
      obtain ⟨hb, hrest, hok⟩ := outputByte_spec dt h
      unfold canDatagramOutputBytes
      rcases hout : canDatagramOutputByte dt with ⟨ob, dt'⟩
      rw [hout] at hb hrest hok
      simp only at hb hrest hok
      cases hp : pending dt with
      | nil =>
          rw [hp] at hb hrest
          simp only [List.head?_nil] at hb
          subst hb
          exact ⟨rfl, hrest, hok⟩
      | cons b rest =>
          rw [hp] at hb hrest
          simp only [List.head?_cons, List.tail_cons] at hb hrest
          subst hb
          obtain ⟨h1, h2, h3⟩ := ih dt' hok
          refine ⟨?_, ?_, h3⟩
          · simp [h1, hrest]
          · simp [h2, hrest]

/-! ## Successive calls -/

/-- What successive calls with buffers of these lengths deliver. A buffer of the targets is
    shorter than 2^31 bytes, so the `int` returned by a call is the number of its bytes. -/
def outputCalls (dt : CanDatagram) : List Nat → List (List UInt8)
  | [] => []
  | bufferLen :: sizes =>
      (canDatagramOutputBytes dt bufferLen).1 ::
        outputCalls (canDatagramOutputBytes dt bufferLen).2 sizes

/-- However they are cut, the bytes delivered are those pending. -/
theorem outputCalls_flatten (sizes : List Nat) : ∀ dt : CanDatagram, WriterOk dt →
    (outputCalls dt sizes).flatten = (pending dt).take sizes.sum := by
  induction sizes with
  | nil => intro dt _; simp [outputCalls]
  | cons bufferLen sizes ih =>
      intro dt hok
      obtain ⟨hbytes, hrest, hok'⟩ := outputBytes_spec bufferLen dt hok
      rw [outputCalls, List.flatten_cons, ih _ hok', hbytes, hrest, List.sum_cons, List.take_add]

/-- Behind a call that delivers less than its buffer holds, everything is delivered. -/
theorem outputCalls_short (sizes : List Nat) : ∀ (dt : CanDatagram), WriterOk dt →
    ∀ (i bufferLen : Nat) (bytes : List UInt8), sizes[i]? = some bufferLen →
      (outputCalls dt sizes)[i]? = some bytes → bytes.length < bufferLen →
      ((outputCalls dt sizes).take (i + 1)).flatten = pending dt := by
  induction sizes with
  | nil => intro dt _ i bufferLen bytes hsize; simp at hsize
  | cons size sizes ih =>
      intro dt hok i bufferLen bytes hsize hcall hshort
      obtain ⟨hbytes, hrest, hok'⟩ := outputBytes_spec size dt hok
      rw [outputCalls] at hcall ⊢
      rw [List.take_succ_cons, List.flatten_cons, hbytes]
      cases i with
      | zero =>
          obtain rfl : size = bufferLen := by simpa using hsize
          have hcall' : (pending dt).take size = bytes := by
            rw [← hbytes]
            simpa using hcall
          rw [← hcall', List.length_take] at hshort
          rw [List.take_zero, List.flatten_nil, List.append_nil]
          exact List.take_of_length_le (by omega)
      | succ i =>
          rw [ih _ hok' i bufferLen bytes (by simpa using hsize) (by simpa using hcall) hshort,
            hrest, List.take_append_drop]

/-- The encoded datagram: version, CRC, list, data length, data. -/
def encoded (dt : CanDatagram) : List UInt8 :=
  UInt8.ofNat dt.protocolVersion :: be32 dt.crc ++
    (dt.destinationNodesLen :: dt.destinationNodes.slice 0 dt.destinationNodesLen.toNat) ++
    be32 dt.dataLen ++ dt.data.slice 0 dt.dataLen.toNat

/-- A fresh writer has the whole datagram pending, if its list is not empty. -/
theorem pending_fresh {dt : CanDatagram} (hfresh : dt.writerState = .protocolVersion)
    (hlist : 1 ≤ dt.destinationNodesLen.toNat) : pending dt = encoded dt := by
  have hmax : max dt.destinationNodesLen.toNat 1 = dt.destinationNodesLen.toNat := by omega
  simp [pending, hfresh, listPart, dataPart, encoded, hmax]

/-- Calls with buffers of these lengths deliver the beginning of the datagram, as much as fits
    the buffers, and none of them less than its buffer holds before the end. -/
structure ChunkedOutput (dt : CanDatagram) (sizes : List Nat) : Prop where
  delivered : (outputCalls dt sizes).flatten =
    (encoded dt).take (min sizes.sum (encoded dt).length)
  short : ∀ (i bufferLen : Nat) (bytes : List UInt8), sizes[i]? = some bufferLen →
    (outputCalls dt sizes)[i]? = some bytes → bytes.length < bufferLen →
    ((outputCalls dt sizes).take (i + 1)).flatten = encoded dt

theorem output_chunked (dt : CanDatagram) (hfresh : dt.writerState = .protocolVersion)
    (hlist : 1 ≤ dt.destinationNodesLen.toNat) (sizes : List Nat) : ChunkedOutput dt sizes := by
  have hok : WriterOk dt := by
    unfold WriterOk
    rw [hfresh]
    trivial
  have hpending := pending_fresh hfresh hlist
  constructor
  · rw [outputCalls_flatten sizes dt hok, hpending, ← List.take_eq_take_min]
  · rw [← hpending]
    exact outputCalls_short sizes dt hok

/-- A datagram for nodes 7 and 8, cut inside the CRC, inside the list and behind its end. -/
theorem output_chunked_cut :
    ChunkedOutput { canDatagramInit with
      crc := 0xdeadbeef
      destinationNodesLen := 2
      destinationNodes := Store.ofList [7, 8]
      dataLen := 3
      data := Store.ofList [1, 2, 3] } [3, 0, 4, 20, 5] :=
  output_chunked _ rfl (by decide) _

end CanBootloader
