/-
  What the reader of can_datagram.c does with a whole field, and with a whole datagram.

  One lemma per field of the format: fed from the field's first state, its bytes end in the
  next field's first state. `holds_input_wire` chains them: fed a datagram that fits the data
  buffer, a started reader is complete and holds the datagram, so it passes the CRC check
  (`holds_valid`). `input_wire_prefix` is the other half: no shorter part of the datagram
  completes the reader, because a completed reader stays as it is (`input_of_complete`) and
  one byte before the end the reader is still waiting for data.
-/
import CanBootloader.Firmware.Datagram

namespace CanBootloader

open Lib

/-- The C `crc32(crc, buf, len)` is the incremental form of `zlib.crc32`. -/
def CrcIsZlib (crc32 : CrcFn) : Prop := ∀ crc buf, crc32 crc buf = Zlib.crc32 buf crc

theorem crcIsZlib_append {crc32 : CrcFn} (h : CrcIsZlib crc32) (c : UInt32)
    (xs ys : List UInt8) : crc32 (crc32 c xs) ys = crc32 c (xs ++ ys) := by
  rw [h, h, h, Zlib.crc32_append]

/-! ## Feeding a field -/

@[simp] theorem input_nil (dt : CanDatagram) : canDatagramInput dt [] = dt := rfl

theorem input_cons (dt : CanDatagram) (b : UInt8) (bs : List UInt8) :
    canDatagramInput dt (b :: bs) = canDatagramInput (canDatagramInputByte dt b) bs := rfl

theorem input_append (dt : CanDatagram) (xs ys : List UInt8) :
    canDatagramInput dt (xs ++ ys) = canDatagramInput (canDatagramInput dt xs) ys :=
  List.foldl_append ..

theorem input_crc (dt : CanDatagram) (x : UInt32) (hs : dt.readerState = .crc)
    (hr : dt.crcBytesRead = 0) :
    canDatagramInput dt (be32 x) =
      { dt with crc := x, crcBytesRead := 4, readerState := .dstLen } := by
  have hx := foldl_pushByte_be32 dt.crc x
  simp only [be32, List.foldl_cons, List.foldl_nil] at hx
  simp [be32, input_cons, canDatagramInputByte, hs, hr, hx]

theorem input_dataLen (dt : CanDatagram) (x : UInt32) (hs : dt.readerState = .dataLen)
    (hr : dt.dataLengthBytesRead = 0) :
    canDatagramInput dt (be32 x) =
      { dt with dataLen := x, dataLengthBytesRead := 4, readerState := .data } := by
  have hx := foldl_pushByte_be32 dt.dataLen x
  simp only [be32, List.foldl_cons, List.foldl_nil] at hx
  simp [be32, input_cons, canDatagramInputByte, hs, hr, hx]

theorem uint8_succ_toNat {c : UInt8} (h : c.toNat + 1 < 256) : (c + 1).toNat = c.toNat + 1 := by
  rw [UInt8.toNat_add]
  simp only [UInt8.reduceToNat]
  omega

theorem uint32_succ_toNat {c : UInt32} (h : c.toNat + 1 < 2 ^ 32) :
    (c + 1).toNat = c.toNat + 1 := by
  rw [UInt32.toNat_add]
  simp only [UInt32.reduceToNat]
  omega

/-- The remaining destination IDs, at least one. Induction on them: every byte but the last
    leaves the counter below the announced length. -/
theorem input_dst (bs : List UInt8) : ∀ dt : CanDatagram, dt.readerState = .dst → bs ≠ [] →
    dt.destinationNodesRead.toNat + bs.length = dt.destinationNodesLen.toNat →
    canDatagramInput dt bs =
      { dt with
        destinationNodes := dt.destinationNodes.blit dt.destinationNodesRead.toNat bs
        destinationNodesRead := dt.destinationNodesLen
        readerState := .dataLen } := by
  induction bs with
  | nil => intro dt _ hne _; exact absurd rfl hne
  | cons b bs ih =>
      intro dt hs _ hlen
      have hm := dt.destinationNodesLen.toNat_lt
      simp only [List.length_cons] at hlen
      have hsucc : (dt.destinationNodesRead + 1).toNat = dt.destinationNodesRead.toNat + 1 :=
        uint8_succ_toNat (by omega)
      cases bs with
      | nil =>
          have hlast : dt.destinationNodesRead + 1 = dt.destinationNodesLen := by
            apply UInt8.toNat_inj.mp
            rw [hsucc, ← hlen]
            rfl
          simp [input_cons, canDatagramInputByte, hs, hlast, Store.blit]
      | cons b' bs =>
          have hmore : ¬ dt.destinationNodesRead + 1 ≥ dt.destinationNodesLen := by
            rw [ge_iff_le, UInt8.le_iff_toNat_le, hsucc]
            simp only [List.length_cons] at hlen
            omega
          have hstep : canDatagramInputByte dt b =
              { dt with
                destinationNodes := dt.destinationNodes.write dt.destinationNodesRead.toNat b
                destinationNodesRead := dt.destinationNodesRead + 1 } := by
            simp [canDatagramInputByte, hs, hmore]
          have hrest := ih (canDatagramInputByte dt b) (by rw [hstep]; exact hs) (by simp)
            (by rw [hstep]; simp only [hsucc]; omega)
          rw [input_cons, hrest, hstep]
          simp [Store.blit, hsucc]

/-- Data bytes that neither reach the announced length nor fill the buffer. -/
theorem input_data_more (bs : List UInt8) : ∀ dt : CanDatagram, dt.readerState = .data →
    dt.dataBytesRead.toNat + bs.length < dt.dataLen.toNat →
    dt.dataBytesRead.toNat + bs.length < dt.dataBufferSize.toNat →
    canDatagramInput dt bs =
      { dt with
        data := dt.data.blit dt.dataBytesRead.toNat bs
        dataBytesRead := dt.dataBytesRead + UInt32.ofNat bs.length } := by
  induction bs with
  | nil => intro dt _ _ _; simp [Store.blit]
  | cons b bs ih =>
      intro dt hs hlen hbuf
      have hm := dt.dataLen.toNat_lt
      simp only [List.length_cons] at hlen hbuf
      have hsucc : (dt.dataBytesRead + 1).toNat = dt.dataBytesRead.toNat + 1 :=
        uint32_succ_toNat (by omega)
      have hmore : ¬ dt.dataBytesRead + 1 ≥ dt.dataLen := by
        rw [ge_iff_le, UInt32.le_iff_toNat_le, hsucc]; omega
      have hfree : ¬ dt.dataBytesRead + 1 ≥ dt.dataBufferSize := by
        rw [ge_iff_le, UInt32.le_iff_toNat_le, hsucc]; omega
      have hstep : canDatagramInputByte dt b =
          { dt with
            data := dt.data.write dt.dataBytesRead.toNat b
            dataBytesRead := dt.dataBytesRead + 1 } := by
        simp [canDatagramInputByte, hs, hmore, hfree]
      have hrest := ih (canDatagramInputByte dt b) (by rw [hstep]; exact hs)
        (by rw [hstep]; simp only [hsucc]; omega) (by rw [hstep]; simp only [hsucc]; omega)
      rw [input_cons, hrest, hstep]
      simp only [Store.blit, hsucc, List.length_cons, UInt32.ofNat_add, CanDatagram.mk.injEq,
        true_and, and_true]
      rw [UInt32.add_assoc, UInt32.add_comm 1]
      rfl

/-- The last data byte completes the reader. -/
theorem input_data_last (dt : CanDatagram) (b : UInt8) (hs : dt.readerState = .data)
    (hlen : dt.dataBytesRead.toNat + 1 = dt.dataLen.toNat) :
    canDatagramInputByte dt b =
      { dt with
        data := dt.data.write dt.dataBytesRead.toNat b
        dataBytesRead := dt.dataLen
        readerState := .trailing } := by
  have hlast : dt.dataBytesRead + 1 = dt.dataLen := by
    have hm := dt.dataLen.toNat_lt
    apply UInt32.toNat_inj.mp
    rw [uint32_succ_toNat (by omega), hlen]
  simp [canDatagramInputByte, hs, hlast]

/-! ## What never changes, and what no longer changes -/

theorem inputByte_of_complete {dt : CanDatagram} (h : canDatagramIsComplete dt) (b : UInt8) :
    canDatagramInputByte dt b = dt := by
  have hs : dt.readerState = .trailing := by simpa [canDatagramIsComplete] using h
  simp [canDatagramInputByte, hs]

/-- Bytes behind the end of a datagram are dropped. -/
theorem input_of_complete {dt : CanDatagram} (h : canDatagramIsComplete dt) (bs : List UInt8) :
    canDatagramInput dt bs = dt := by
  induction bs with
  | nil => rfl
  | cons b bs ih => rw [input_cons, inputByte_of_complete h, ih]

@[simp] theorem inputByte_dataBufferSize (dt : CanDatagram) (b : UInt8) :
    (canDatagramInputByte dt b).dataBufferSize = dt.dataBufferSize := by
  unfold canDatagramInputByte
  split <;> simp only [] <;> split <;> simp only [] <;> split <;> rfl

@[simp] theorem input_dataBufferSize (dt : CanDatagram) (bs : List UInt8) :
    (canDatagramInput dt bs).dataBufferSize = dt.dataBufferSize := by
  induction bs generalizing dt with
  | nil => rfl
  | cons b bs ih => rw [input_cons, ih, inputByte_dataBufferSize]

/-! ## Feeding a datagram -/

/-- The reader after version, CRC, destination list and data length. -/
def headerRead (dt : CanDatagram) (d : Datagram) : CanDatagram :=
  { canDatagramStart dt with
    protocolVersion := canDatagramVersion
    crc := Zlib.crc32 d.body
    crcBytesRead := 4
    destinationNodesLen := UInt8.ofNat d.destinations.length
    destinationNodes := dt.destinationNodes.blit 0 d.destinations
    destinationNodesRead := UInt8.ofNat d.destinations.length
    dataLen := UInt32.ofNat d.data.length
    dataLengthBytesRead := 4
    readerState := .data }

/-- Everything before the data field. -/
def Datagram.header (d : Datagram) : List UInt8 :=
  1 :: be32 (Zlib.crc32 d.body) ++
    (UInt8.ofNat d.destinations.length :: d.destinations ++ be32 (UInt32.ofNat d.data.length))

theorem Datagram.wire_eq_header (d : Datagram) : d.wire = d.header ++ d.data := by
  simp [Datagram.wire, Datagram.header, Datagram.body]

theorem input_header (dt : CanDatagram) (d : Datagram) (hd : d.destinations ≠ []) :
    canDatagramInput (canDatagramStart dt) d.header = headerRead dt d := by
  have hlen := d.destinations_toNat
  unfold Datagram.header
  rw [List.cons_append, input_cons, input_append, input_crc _ _ rfl rfl, input_append,
    input_cons, input_dst _ _ rfl hd, input_dataLen _ _ rfl rfl]
  · rfl
  · simp [canDatagramInputByte, canDatagramStart, hlen]

/-- The reader holds the datagram `d`, complete and with its CRC. -/
structure Holds (dt : CanDatagram) (d : Datagram) : Prop where
  complete : canDatagramIsComplete dt
  version : dt.protocolVersion = canDatagramVersion
  crc : dt.crc = Zlib.crc32 d.body
  destinationNodesLen : dt.destinationNodesLen = UInt8.ofNat d.destinations.length
  destinationNodes : dt.destinationNodes.slice 0 d.destinations.length = d.destinations
  dataLen : dt.dataLen = UInt32.ofNat d.data.length
  data : dt.data.slice 0 d.data.length = d.data

/-- One byte before its end a datagram is still incomplete. -/
theorem input_dropLast (dt : CanDatagram) (d : Datagram) (hd : d.destinations ≠ [])
    (xs : List UInt8) (b : UInt8) (hx : d.data = xs ++ [b])
    (hbuf : d.data.length ≤ dt.dataBufferSize.toNat) :
    canDatagramInput (canDatagramStart dt) (d.header ++ xs) =
      { headerRead dt d with
        data := dt.data.blit 0 xs
        dataBytesRead := UInt32.ofNat xs.length } := by
  have hlen : d.data.length = xs.length + 1 := by simp [hx]
  have hn := d.data_toNat
  rw [input_append, input_header dt d hd, input_data_more xs _ rfl]
  · simp [headerRead, canDatagramStart]
  · simp only [headerRead, canDatagramStart, hn, UInt32.reduceToNat]
    omega
  · simp only [headerRead, canDatagramStart, UInt32.reduceToNat]
    omega

/-- Fed a whole datagram, a started reader holds it. -/
theorem holds_input_wire (dt : CanDatagram) (d : Datagram) (hd : d.destinations ≠ [])
    (hne : d.data ≠ []) (hbuf : d.data.length ≤ dt.dataBufferSize.toNat) :
    Holds (canDatagramInput (canDatagramStart dt) d.wire) d := by
  obtain ⟨xs, b, hx⟩ := (List.eq_nil_or_concat' d.data).resolve_left hne
  have hlen : d.data.length = xs.length + 1 := by simp [hx]
  have hn := d.data_toNat
  have hxs : (UInt32.ofNat xs.length).toNat = xs.length := by
    have hlt := d.data_lt
    exact UInt32.toNat_ofNat_of_lt' (show xs.length < 2 ^ 32 by omega)
  have hfeed : canDatagramInput (canDatagramStart dt) d.wire =
      { headerRead dt d with
        data := dt.data.blit 0 d.data
        dataBytesRead := UInt32.ofNat d.data.length
        readerState := .trailing } := by
    rw [d.wire_eq_header, hx, ← List.append_assoc, input_append, ← hx,
      input_dropLast dt d hd xs b hx hbuf, input_cons, input_nil, input_data_last _ _ rfl]
    · have hblit := Store.blit_append xs [b] dt.data 0
      simp only [Nat.zero_add, Store.blit] at hblit
      simp only [hxs, hblit, hx]
      simp only [headerRead, hx]
    · simp only [hxs]
      simp only [headerRead, hn]
      omega
  rw [hfeed]
  refine ⟨rfl, rfl, rfl, rfl, ?_, rfl, ?_⟩
  · exact Store.slice_blit _ _ _
  · exact Store.slice_blit _ _ _

/-- No proper prefix of a datagram completes the reader. -/
theorem input_wire_prefix (dt : CanDatagram) (d : Datagram) (hd : d.destinations ≠ [])
    (hne : d.data ≠ []) (hbuf : d.data.length ≤ dt.dataBufferSize.toNat)
    {p q : List UInt8} (hp : p ++ q = d.wire) (hq : q ≠ []) :
    canDatagramIsComplete (canDatagramInput (canDatagramStart dt) p) = false := by
  obtain ⟨xs, b, hx⟩ := (List.eq_nil_or_concat' d.data).resolve_left hne
  obtain ⟨q', c, hc⟩ := (List.eq_nil_or_concat' q).resolve_left hq
  -- the prefix is a prefix of everything but the last byte
  have hw : p ++ q' = d.header ++ xs := by
    have : (p ++ q') ++ [c] = (d.header ++ xs) ++ [b] := by
      rw [List.append_assoc, ← hc, hp, d.wire_eq_header, hx, List.append_assoc]
    exact (List.append_inj' this rfl).1
  by_contra hcomp
  have hcomp' : canDatagramIsComplete (canDatagramInput (canDatagramStart dt) p) := by
    simpa using hcomp
  have hstay := input_of_complete hcomp' q'
  rw [← input_append, hw, input_dropLast dt d hd xs b hx hbuf] at hstay
  rw [← hstay] at hcomp'
  simp [canDatagramIsComplete, headerRead] at hcomp'

theorem holds_computeCrc {crc32 : CrcFn} (hcrc : CrcIsZlib crc32) {dt : CanDatagram}
    {d : Datagram} (h : Holds dt d) : canDatagramComputeCrc crc32 dt = Zlib.crc32 d.body := by
  unfold canDatagramComputeCrc
  simp only [h.destinationNodesLen, h.dataLen, d.destinations_toNat, d.data_toNat,
    h.destinationNodes, h.data, crcIsZlib_append hcrc]
  rw [hcrc]
  simp [Datagram.body]

/-- A reader that holds a datagram accepts it. -/
theorem holds_valid {crc32 : CrcFn} (hcrc : CrcIsZlib crc32) {dt : CanDatagram}
    {d : Datagram} (h : Holds dt d) : canDatagramIsValid crc32 dt = true := by
  simp [canDatagramIsValid, h.complete, h.version, h.crc, holds_computeCrc hcrc h]

end CanBootloader
