/-
  The indices at which the main loop uses the buffers of its reader.

  `addr_buf` has 128 bytes, but the length of a destination list is one byte from the bus and
  is compared with nothing: `addressBuffer_in_range_iff`. The data buffer is guarded by
  `_data_buffer_size`, but a reader stopped by that guard is complete all the same, with the
  announced length left in `data_len`: `complete_in_buffer_iff`.
-/
import CanBootloader.Firmware.Acceptance
import CanBootloader.Firmware.Reception

namespace CanBootloader

open Lib

/-! ## Accesses to the destination list -/

/-- The indices of `destination_nodes` at which the reader stores these bytes. -/
def destinationStores : CanDatagram → List UInt8 → List Nat
  | _, [] => []
  | dt, b :: bs =>
      let rest := destinationStores (canDatagramInputByte dt b) bs
      if dt.readerState = .dst then dt.destinationNodesRead.toNat :: rest else rest

/-- The indices read by the addressed-check loop, from `i` on with `n` to go: it ends behind the
    first match. -/
def addressedReads (dt : CanDatagram) (id : UInt8) : Nat → Nat → List Nat
  | 0, _ => []
  | n + 1, i => i :: if dt.destinationNodes i = id then [] else addressedReads dt id n (i + 1)

/-- The indices read when a datagram is handled: `can_datagram_is_valid` computes the CRC of a
    complete datagram only, and only a valid one is looked at further. -/
def destinationReads (crc32 : CrcFn) (dt : CanDatagram) (id : UInt8) : List Nat :=
  if canDatagramIsComplete dt then
    List.range dt.destinationNodesLen.toNat ++
      if canDatagramIsValid crc32 dt then
        addressedReads dt id dt.destinationNodesLen.toNat 0
      else []
  else []

/-- All indices at which a reception uses `addr_buf`. -/
def Reception.destinationIndices {fw : Firmware} {σ : Type} (x : Reception fw σ) : List Nat :=
  destinationStores x.readerBefore x.newBytes ++
    if endsDatagram x.state x.round then
      destinationReads fw.crc32 x.reader x.state.config.ID
    else []

theorem addressedReads_lt (dt : CanDatagram) (id : UInt8) (n : Nat) :
    ∀ {i j : Nat}, j ∈ addressedReads dt id n i → j < i + n := by
  induction n with
  | zero => intro i j h; exact absurd h List.not_mem_nil
  | succ n ih =>
      intro i j h
      rcases List.mem_cons.mp h with rfl | h
      · omega
      · split_ifs at h
        · exact absurd h List.not_mem_nil
        · have := ih h
          omega

theorem destinationReads_lt {crc32 : CrcFn} {dt : CanDatagram} {id : UInt8} {j : Nat}
    (h : j ∈ destinationReads crc32 dt id) :
    canDatagramIsComplete dt = true ∧ j < dt.destinationNodesLen.toNat := by
  unfold destinationReads at h
  split_ifs at h with hcomp hvalid
  · refine ⟨hcomp, ?_⟩
    rcases List.mem_append.mp h with h | h
    · exact List.mem_range.mp h
    · simpa using addressedReads_lt dt id _ h
  · refine ⟨hcomp, ?_⟩
    rcases List.mem_append.mp h with h | h
    · exact List.mem_range.mp h
    · exact absurd h List.not_mem_nil
  · exact absurd h List.not_mem_nil

/-! ## Where the reader is -/

/-- How many bytes the reader has taken, by its state. -/
def Position (bytes : List UInt8) (dt : CanDatagram) : Prop :=
  match dt.readerState with
  | .protocolVersion =>
      bytes.length = 0 ∧ dt.crcBytesRead = 0 ∧ dt.destinationNodesRead.toNat = 0
  | .crc =>
      bytes.length = 1 + dt.crcBytesRead ∧ dt.crcBytesRead < 4 ∧
        dt.destinationNodesRead.toNat = 0
  | .dstLen => bytes.length = 5 ∧ dt.destinationNodesRead.toNat = 0
  | .dst =>
      bytes.length = 6 + dt.destinationNodesRead.toNat ∧
        bytes[5]? = some dt.destinationNodesLen ∧
        dt.destinationNodesRead.toNat < max 1 dt.destinationNodesLen.toNat
  | _ =>
      bytes[5]? = some dt.destinationNodesLen ∧
        6 + max 1 dt.destinationNodesLen.toNat ≤ bytes.length

theorem position_start (dt : CanDatagram) : Position [] (canDatagramStart dt) :=
  ⟨rfl, rfl, rfl⟩

theorem position_inputByte {bytes : List UInt8} {dt : CanDatagram} (h : Position bytes dt)
    (b : UInt8) : Position (bytes ++ [b]) (canDatagramInputByte dt b) := by
  have hlen : (bytes ++ [b]).length = bytes.length + 1 := by simp
  have hkeep : ∀ m, bytes[5]? = some m → (bytes ++ [b])[5]? = some m := by
    intro m hm
    obtain ⟨h5, -⟩ := List.getElem?_eq_some_iff.mp hm
    rwa [List.getElem?_append_left h5]
  unfold Position at h
  cases hs : dt.readerState with
  | protocolVersion =>
      simp only [hs] at h
      simp only [canDatagramInputByte, hs, Position, hlen]
      omega
  | crc =>
      simp only [hs] at h
      by_cases hlast : dt.crcBytesRead + 1 ≥ 4
      · simp only [canDatagramInputByte, hs, hlast, if_true, Position, hlen]
        omega
      · simp only [canDatagramInputByte, hs, hlast, if_false, Position, hlen]
        omega
  | dstLen =>
      simp only [hs] at h
      simp only [canDatagramInputByte, hs, Position, hlen]
      refine ⟨by omega, ?_, by omega⟩
      rw [List.getElem?_append_right (by omega), h.1]
      rfl
  | dst =>
      simp only [hs] at h
      obtain ⟨hcount, hm, hlt⟩ := h
      have hm256 := dt.destinationNodesLen.toNat_lt
      have hsucc : (dt.destinationNodesRead + 1).toNat = dt.destinationNodesRead.toNat + 1 :=
        uint8_succ_toNat (by omega)
      by_cases hlast : dt.destinationNodesRead + 1 ≥ dt.destinationNodesLen
      · have hle := UInt8.le_iff_toNat_le.mp hlast
        simp only [canDatagramInputByte, hs, hlast, if_true, Position, hlen]
        exact ⟨hkeep _ hm, by omega⟩
      · have hgt : ¬ dt.destinationNodesLen.toNat ≤ dt.destinationNodesRead.toNat + 1 := by
          rwa [ge_iff_le, UInt8.le_iff_toNat_le, hsucc] at hlast
        simp only [canDatagramInputByte, hs, hlast, if_false, Position, hlen, hsucc]
        exact ⟨by omega, hkeep _ hm, by omega⟩
  | dataLen =>
      simp only [hs] at h
      by_cases hlast : dt.dataLengthBytesRead + 1 ≥ 4
      · simp only [canDatagramInputByte, hs, hlast, if_true, Position, hlen]
        exact ⟨hkeep _ h.1, by omega⟩
      · simp only [canDatagramInputByte, hs, hlast, if_false, Position, hlen]
        exact ⟨hkeep _ h.1, by omega⟩
  | data =>
      simp only [hs] at h
      have hgoal : (bytes ++ [b])[5]? = some dt.destinationNodesLen ∧
          6 + max 1 dt.destinationNodesLen.toNat ≤ (bytes ++ [b]).length :=
        ⟨hkeep _ h.1, by omega⟩
      simp only [canDatagramInputByte, hs]
      split_ifs <;> simpa only [Position, hs] using hgoal
  | trailing =>
      simp only [hs] at h
      simp only [canDatagramInputByte, hs, Position, hlen]
      exact ⟨hkeep _ h.1, by omega⟩

theorem position_input (bs : List UInt8) : ∀ {bytes : List UInt8} {dt : CanDatagram},
    Position bytes dt → Position (bytes ++ bs) (canDatagramInput dt bs) := by
  induction bs with
  | nil =>
      intro bytes dt h
      simpa using h
  | cons b bs ih =>
      intro bytes dt h
      rw [input_cons, List.append_cons]
      exact ih (position_inputByte h b)

theorem Fed.position {fw : Firmware} {σ : Type} {s : LoopState fw σ} {bytes : List UInt8}
    (h : Fed s bytes) : Position bytes s.inbox.dt := by
  obtain ⟨dt, -, hdt⟩ := h
  have hpos := position_input bytes (position_start dt)
  rwa [List.nil_append, ← hdt] at hpos

/-- The next byte is stored in the list, at index `i`: it is the byte number `6 + i`, and the list
    is long enough. -/
theorem Position.stores_iff {bytes : List UInt8} {dt : CanDatagram} (h : Position bytes dt)
    (bs : List UInt8) (i : Nat) :
    (dt.readerState = .dst ∧ i = dt.destinationNodesRead.toNat) ↔
      bytes.length = 6 + i ∧ (∃ m, (bytes ++ bs)[5]? = some m ∧ i < max 1 m.toNat) := by
  have hkeep : ∀ m, bytes[5]? = some m → (bytes ++ bs)[5]? = some m := by
    intro m hm
    obtain ⟨h5, -⟩ := List.getElem?_eq_some_iff.mp hm
    rwa [List.getElem?_append_left h5]
  unfold Position at h
  cases hs : dt.readerState with
  | dst =>
      simp only [hs] at h
      obtain ⟨hcount, hm, hlt⟩ := h
      constructor
      · intro ⟨_, hi⟩
        exact ⟨by omega, _, hkeep _ hm, by omega⟩
      · intro ⟨hi, _⟩
        exact ⟨rfl, by omega⟩
  | protocolVersion | crc | dstLen =>
      simp only [hs] at h
      simp only [reduceCtorEq, false_and, false_iff, not_and]
      omega
  | dataLen | data | trailing =>
      simp only [hs] at h
      simp only [reduceCtorEq, false_and, false_iff, not_and]
      intro hi ⟨m, hm, hlt⟩
      rw [hkeep _ h.1, Option.some.injEq] at hm
      rw [← hm] at hlt
      omega

/-- Bytes are stored in the list from the sixth of a datagram on, as many as it announces. -/
theorem mem_destinationStores (bs : List UInt8) {i : Nat} :
    ∀ {bytes : List UInt8} {dt : CanDatagram}, Position bytes dt →
      (i ∈ destinationStores dt bs ↔
        bytes.length ≤ 6 + i ∧ 6 + i < (bytes ++ bs).length ∧
          ∃ m, (bytes ++ bs)[5]? = some m ∧ i < max 1 m.toNat) := by
  induction bs with
  | nil =>
      intro bytes dt _
      simp only [destinationStores, List.not_mem_nil, List.append_nil, false_iff]
      omega
  | cons b bs ih =>
      intro bytes dt h
      have hrest := ih (position_inputByte h b)
      have hhere := h.stores_iff (b :: bs) i
      have hmem : i ∈ destinationStores dt (b :: bs) ↔
          (dt.readerState = .dst ∧ i = dt.destinationNodesRead.toNat) ∨
            i ∈ destinationStores (canDatagramInputByte dt b) bs := by
        by_cases hs : dt.readerState = .dst
        · simp [destinationStores, hs]
        · simp [destinationStores, hs]
      rw [List.append_assoc, List.singleton_append, List.length_append,
        List.length_singleton] at hrest
      have hlen : (bytes ++ b :: bs).length = bytes.length + bs.length + 1 := by
        simp
        omega
      rw [hmem, hhere, hrest, hlen]
      constructor
      · intro hor
        rcases hor with ⟨hi, hm⟩ | ⟨hi, hlt, hm⟩
        · exact ⟨by omega, by omega, hm⟩
        · exact ⟨by omega, hlt, hm⟩
      · intro ⟨hi, hlt, hm⟩
        by_cases heq : bytes.length = 6 + i
        · exact .inl ⟨heq, hm⟩
        · exact .inr ⟨by omega, hlt, hm⟩

/-! ## The address buffer -/

/-- A datagram that announces more destinations than `addr_buf` has room for, and gets as far as
    the first of them that does not fit. -/
def OverlongList (bytes : List UInt8) : Prop :=
  (∃ m, bytes[5]? = some m ∧ 128 < m.toNat) ∧ 6 + 128 < bytes.length

variable {fw : Firmware} {σ : Type}

theorem Reception.position (x : Reception fw σ) (h : Fed x.state (frameBytes x.frames)) :
    Position x.bytesBefore x.readerBefore :=
  (fed_fedFrom h x.round).position

/-- A complete reader has read as many destinations as it looks at. -/
theorem complete_length {bytes : List UInt8} {dt : CanDatagram} (h : Position bytes dt)
    (hcomp : canDatagramIsComplete dt = true) :
    bytes[5]? = some dt.destinationNodesLen ∧
      6 + max 1 dt.destinationNodesLen.toNat ≤ bytes.length := by
  have hs : dt.readerState = .trailing := by simpa [canDatagramIsComplete] using hcomp
  unfold Position at h
  simpa only [hs] using h

/-- One reception stays inside `addr_buf` if and only if its datagram does not get past it. -/
theorem destinationIndices_iff (x : Reception fw σ) (h : Fed x.state (frameBytes x.frames))
    (hbefore : ¬ OverlongList x.bytesBefore) :
    (∀ i ∈ x.destinationIndices, i < 128) ↔ ¬ OverlongList x.bytes := by
  have hpos := x.position h
  have hstores : ∀ i, i ∈ destinationStores x.readerBefore x.newBytes ↔ _ :=
    fun i => mem_destinationStores x.newBytes hpos
  rw [← x.bytes_eq] at hstores
  constructor
  · intro hall ⟨⟨m, hm, hlong⟩, hlen⟩
    have hmem : 128 ∈ destinationStores x.readerBefore x.newBytes := by
      rw [hstores]
      refine ⟨?_, hlen, m, hm, by omega⟩
      by_contra hgt
      refine hbefore ⟨⟨m, ?_, hlong⟩, by omega⟩
      rwa [x.bytes_eq, List.getElem?_append_left (by omega)] at hm
    have := hall 128 (List.mem_append_left _ hmem)
    omega
  · intro hfit i hi
    by_contra hge
    apply hfit
    rcases List.mem_append.mp hi with hi | hi
    · obtain ⟨-, hlt, m, hm, him⟩ := (hstores i).mp hi
      exact ⟨⟨m, hm, by omega⟩, by omega⟩
    · split_ifs at hi
      · obtain ⟨hcomp, hlt⟩ := destinationReads_lt hi
        have hend : x.bytes[5]? = some x.reader.destinationNodesLen ∧
            6 + max 1 x.reader.destinationNodesLen.toNat ≤ x.bytes.length :=
          complete_length (fed_fedState h x.round).position hcomp
        exact ⟨⟨_, hend.1, by omega⟩, by omega⟩
      · exact absurd hi List.not_mem_nil

/-- What a round keeps is the datagram of the round, or nothing. -/
theorem overlongList_framesKept {s : LoopState fw σ} {fs : List RxFrame} {r : Round}
    (h : ¬ OverlongList (frameBytes (framesFed s fs r))) :
    ¬ OverlongList (frameBytes (framesKept s fs r)) := by
  unfold framesKept
  split_ifs
  · intro ⟨⟨m, hm, _⟩, _⟩
    simp [frameBytes] at hm
  · exact h

theorem overlongList_framesBefore {s : LoopState fw σ} {fs : List RxFrame} {r : Round}
    (h : ¬ OverlongList (frameBytes fs)) : ¬ OverlongList (frameBytes (framesBefore s fs r)) := by
  unfold framesBefore
  split_ifs
  · intro ⟨⟨m, hm, _⟩, _⟩
    simp [frameBytes] at hm
  · exact h

variable (p : Platform σ)

theorem receptions_in_range_iff (rounds : List Round) :
    ∀ {s : LoopState fw σ} {fs : List RxFrame}, Fed s (frameBytes fs) →
      ¬ OverlongList (frameBytes fs) →
      ((∀ x ∈ receptions p s fs rounds, ∀ i ∈ x.destinationIndices, i < 128) ↔
        ∀ x ∈ receptions p s fs rounds, ¬ OverlongList x.bytes) := by
  induction rounds with
  | nil => intro s fs _ _; simp [receptions]
  | cons r rounds ih =>
      intro s fs h hfit
      have hround := destinationIndices_iff ⟨s, fs, r⟩ h (overlongList_framesBefore hfit)
      unfold receptions
      split_ifs
      · simp
      · rw [List.forall_mem_cons, List.forall_mem_cons, hround]
        refine and_congr_right fun hround => ?_
        cases hnext : (roundStep p s r).2 with
        | none => simp
        | some t => exact ih (fed_roundStep p h hnext) (overlongList_framesKept hround)

/-- Whatever frames arrive, all uses of `addr_buf` stay inside it, provided that no datagram
    announces more than 128 destinations and gets as far as the 129th; and only then. -/
theorem addressBuffer_in_range_iff (fw : Firmware) (p : Platform σ) (arg : UInt8) (l : Locals)
    (addrBuf dataBuf outputBuf : Store) (clock : Nat) (w : σ) (rounds : List Round) :
    (∀ x ∈ bootReceptions p fw arg l addrBuf dataBuf outputBuf clock w rounds,
      ∀ i ∈ x.destinationIndices, i < 128) ↔
    ∀ x ∈ bootReceptions p fw arg l addrBuf dataBuf outputBuf clock w rounds,
      ¬ OverlongList x.bytes := by
  refine receptions_in_range_iff p rounds (.start _ rfl) ?_
  intro ⟨⟨m, hm, _⟩, _⟩
  simp [frameBytes] at hm

/-- A broadcast datagram that announces 255 destinations, up to the 130th. -/
def longListRounds : List Round :=
  blankRound (some ⟨0x80, [1, 0, 0, 0, 0, 255, 7, 7], by decide⟩) ::
    List.replicate 16 (blankRound (some ⟨0, [7, 7, 7, 7, 7, 7, 7, 7], by decide⟩))

/-- The 129th destination is stored behind `addr_buf`. -/
theorem stores_behind_addressBuffer :
    ¬ ∀ x ∈ bootReceptions blankPlatform nucleoFirmware 0 blankLocals (fun _ => 0) (fun _ => 0)
        (fun _ => 0) 0 () longListRounds, ∀ i ∈ x.destinationIndices, i < 128 := by
  decide +kernel

/-! ## The data buffer -/

/-- Where the data field of a datagram begins. -/
def dataOffset (bytes : List UInt8) : Nat := 10 + max 1 (bytes.getD 5 0).toNat

/-- The length that a datagram announces for its data. -/
def announcedLen (bytes : List UInt8) : Nat :=
  (ofBE ((bytes.drop (dataOffset bytes - 4)).take 4)).toNat

/-- A datagram that announces more data than the buffer has room for, and fills it. -/
def OverlongData (fw : Firmware) (bytes : List UInt8) : Prop :=
  fw.inputBufferSize < announcedLen bytes ∧
    dataOffset bytes + fw.inputBufferSize ≤ bytes.length

/-- A complete datagram lies inside the data buffer: its length does, and the buffer holds as many
    bytes of the data field of this datagram. -/
def CompleteInBuffer (fw : Firmware) (dt : CanDatagram) (bytes : List UInt8) : Prop :=
  canDatagramIsComplete dt = true →
    dt.dataLen.toNat ≤ fw.inputBufferSize ∧
      dt.dataLen.toNat ≤ (bytes.drop (dataOffset bytes)).length ∧
      dt.data.slice 0 dt.dataLen.toNat = (bytes.drop (dataOffset bytes)).take dt.dataLen.toNat

section Intake

variable {bufSize : Nat} (x : Intake bufSize) {bytes : List UInt8}

theorem Intake.header_length :
    x.header.length = 10 + max 1 x.destinationNodesLen.toNat := by
  rw [← x.destinationNodes_length]
  simp [Intake.header]
  omega

/-- What a byte string that agrees with an intake up to its data announces. -/
theorem Intake.dataOffset_eq (h : x.header <+: bytes) :
    dataOffset bytes = x.header.length ∧ announcedLen bytes = x.dataLen.toNat := by
  obtain ⟨t, rfl⟩ := h
  have hoffset : dataOffset (x.header ++ t) = x.header.length := by
    rw [x.header_length, dataOffset]
    simp [Intake.header, be32]
  refine ⟨hoffset, ?_⟩
  have hsplit : x.header ++ t = (x.protocolVersion :: be32 x.crc ++
      (x.destinationNodesLen :: x.destinationNodes)) ++ (be32 x.dataLen ++ t) := by
    simp [Intake.header]
  have hlen : (x.protocolVersion :: be32 x.crc ++
      (x.destinationNodesLen :: x.destinationNodes)).length = x.header.length - 4 := by
    simp [Intake.header]
    omega
  rw [announcedLen, hoffset, hsplit, ← hlen, List.drop_left, List.take_left' (be32_length _),
    ofBE_be32]

end Intake

/-- The buffer size of the reader is the one of the build. -/
theorem Fed.inputBufferSize {s : LoopState fw σ} {bytes : List UInt8} (h : Fed s bytes) :
    ∃ dt : CanDatagram, dt.dataBufferSize.toNat = fw.inputBufferSize ∧
      s.inbox.dt = canDatagramInput (canDatagramStart dt) bytes := by
  obtain ⟨dt, hsize, hdt⟩ := h
  refine ⟨dt, ?_, hdt⟩
  rw [hsize, UInt32.toNat_ofNat_of_lt' fw.inputBufferSize_lt]

/-- A datagram that fills the buffer is complete. -/
theorem complete_of_overlongData {dt : CanDatagram}
    (hsize : dt.dataBufferSize.toNat = fw.inputBufferSize) {bytes : List UInt8}
    (h : OverlongData fw bytes) :
    ∃ x : Intake dt.dataBufferSize.toNat, x.bytes <+: bytes := by
  obtain ⟨hannounced, hlen⟩ := h
  obtain ⟨x, hx | hx⟩ := exists_intake dt.dataBufferSize.toNat bytes
  · exact ⟨x, hx⟩
  · -- everything up to the data agrees, so the intake is no longer than the input
    have hpos := fw.inputBufferSize_pos
    have hself := (x.dataOffset_eq (List.prefix_append x.header x.data)).1
    have hcount : dataOffset bytes = x.header.length := by
      obtain ⟨t, ht⟩ := hx
      have h5 : 5 < bytes.length := by
        unfold dataOffset at hlen
        omega
      rw [← hself, dataOffset, dataOffset, ← Intake.bytes, ← ht, List.getD_eq_getElem?_getD,
        List.getD_eq_getElem?_getD, List.getElem?_append_left h5]
    have hprefix : x.header <+: bytes :=
      List.prefix_of_prefix_length_le (List.prefix_append _ _) hx (by omega)
    obtain ⟨hoffset, hn⟩ := x.dataOffset_eq hprefix
    have hdata := x.data_length
    have hxlen : x.bytes.length = x.header.length + x.data.length := by simp [Intake.bytes]
    exact ⟨x, (hx.eq_of_length_le (by omega)) ▸ List.prefix_refl _⟩

theorem completeInBuffer_iff {s : LoopState fw σ} {bytes : List UInt8} (h : Fed s bytes) :
    CompleteInBuffer fw s.inbox.dt bytes ↔ ¬ OverlongData fw bytes := by
  obtain ⟨dt, hsize, hdt⟩ := h.inputBufferSize
  rw [hdt]
  constructor
  · intro hin hover
    obtain ⟨x, hx⟩ := complete_of_overlongData hsize hover
    have hcomp := (complete_iff dt bytes).mpr ⟨x, hx⟩
    have hle := (hin hcomp).1
    have hn := (x.dataOffset_eq ((List.prefix_append _ _).trans hx)).2
    rw [input_of_intake dt hx] at hle
    have hlen : x.dataLen.toNat ≤ fw.inputBufferSize := hle
    have := hover.1
    omega
  · intro hover hcomp
    obtain ⟨x, hx⟩ := (complete_iff dt bytes).mp hcomp
    obtain ⟨hoffset, hn⟩ := x.dataOffset_eq ((List.prefix_append _ _).trans hx)
    have hdata := x.data_length
    obtain ⟨t, rfl⟩ := hx
    have hlen : (x.bytes ++ t).length = x.header.length + x.data.length + t.length := by
      simp [Intake.bytes, Nat.add_assoc]
    have hfits : x.dataLen.toNat ≤ fw.inputBufferSize := by
      by_contra hlong
      exact hover ⟨by omega, by omega⟩
    have hdrop : (x.bytes ++ t).drop (dataOffset (x.bytes ++ t)) = x.data ++ t := by
      rw [hoffset, Intake.bytes, List.append_assoc, List.drop_left]
    rw [input_of_intake dt (List.prefix_append _ _), hdrop]
    refine ⟨hfits, ?_, ?_⟩
    · change x.dataLen.toNat ≤ _
      rw [List.length_append]
      omega
    · change (dt.data.blit 0 x.data).slice 0 x.dataLen.toNat = (x.data ++ t).take x.dataLen.toNat
      rw [Store.slice_blit_take, List.take_append_of_le_length (by omega),
        List.take_append_of_le_length (by omega)]

/-- Whatever frames arrive, a complete datagram lies inside `data_buf`, provided that no datagram
    announces more data than `INPUT_BUFFER_SIZE` and fills the buffer; and only then. -/
theorem complete_in_buffer_iff (fw : Firmware) (p : Platform σ) (arg : UInt8) (l : Locals)
    (addrBuf dataBuf outputBuf : Store) (clock : Nat) (w : σ) (rounds : List Round) :
    (∀ x ∈ bootReceptions p fw arg l addrBuf dataBuf outputBuf clock w rounds,
      CompleteInBuffer fw x.reader x.bytes) ↔
    ∀ x ∈ bootReceptions p fw arg l addrBuf dataBuf outputBuf clock w rounds,
      ¬ OverlongData fw x.bytes := by
  have hstart : Fed (boot fw p arg l addrBuf dataBuf outputBuf clock w) (frameBytes []) :=
    .start _ rfl
  have hfed := fed_receptions p rounds hstart
  refine forall₂_congr fun x hx => ?_
  exact completeInBuffer_iff (fed_fedState (hfed x hx) x.round)

/-! ## A datagram that fills the buffer -/

/-- No timer has run out at time 0. -/
def Still (s : LoopState nucleoFirmware Unit) : Prop :=
  s.bootloaderTimeoutStartMs = 0 ∧ s.datagramTimeoutStartMs = 0

section Still

variable {s : LoopState nucleoFirmware Unit} {fs : List RxFrame} {f : RxFrame}

theorem Still.bootloaderTimedOut (hs : Still s) (frame : Option RxFrame) :
    bootloaderTimedOut s (blankRound frame) = false := by
  have hnow : timeoutReached (timeMs 0) 0 nucleoFirmware.bootloaderTimeoutMs = false := by decide
  simp [CanBootloader.bootloaderTimedOut, blankRound, hs.1, hnow]

theorem Still.datagramTimedOut (hs : Still s) (frame : Option RxFrame) :
    datagramTimedOut s (blankRound frame) = false := by
  have hnow : timeoutReached (timeMs 0) 0 nucleoFirmware.datagramTimeoutMs = false := by decide
  simp [CanBootloader.datagramTimedOut, blankRound, hs.2, hnow]

theorem frameForUs_broadcast (hid : f.id = if fs = [] then 0x80 else 0) :
    frameForUs s (blankRound (some f)) = some f := by
  have hbroadcast : frameIsForUs s.config f.id = true := by
    rw [hid]
    split_ifs
    · rfl
    · rfl
  simp [frameForUs, blankRound, hbroadcast]

/-- Only the first frame of the datagram is a start frame. -/
theorem framesFed_broadcast (hs : Still s) (hid : f.id = if fs = [] then 0x80 else 0) :
    framesFed s fs (blankRound (some f)) = fs ++ [f] := by
  have hstart : f.isStart = true → fs = [] := by
    intro hstart
    by_contra hne
    rw [if_neg hne] at hid
    rw [RxFrame.isStart, hid] at hstart
    exact absurd hstart (by decide)
  simp only [framesFed, framesBefore, frameForUs_broadcast hid, hs.datagramTimedOut,
    Option.any_some, Bool.or_false, Option.toList_some]
  split_ifs with h
  · rw [hstart h]
  · rfl

/-- A full frame that leaves the datagram open. -/
theorem receptions_more (hs : Still s) (hfed : Fed s (frameBytes fs))
    (hid : f.id = if fs = [] then 0x80 else 0) (hlen : f.data.length = 8)
    (hopen : ¬ ∃ x : Intake 32768, x.bytes <+: frameBytes (fs ++ [f])) :
    ∃ t, Still t ∧ Fed t (frameBytes (fs ++ [f])) ∧ ∀ rounds,
      receptions blankPlatform s fs (blankRound (some f) :: rounds) =
        ⟨s, fs, blankRound (some f)⟩ :: receptions blankPlatform t (fs ++ [f]) rounds := by
  have hjump := hs.bootloaderTimedOut (some f)
  have hframes := framesFed_broadcast hs hid
  have hstate : fedState s (blankRound (some f)) = appendFrame s f 0 := by
    have hcheck : (checkDatagramTimeout s (blankRound (some f))).2 = s := by
      unfold checkDatagramTimeout
      rw [if_neg (by simpa [datagramTimedOut] using hs.datagramTimedOut (some f))]
    unfold fedState
    simp only [frameForUs_broadcast hid, hcheck]
    rfl
  have hfed' := fed_fedState hfed (blankRound (some f))
  rw [hframes] at hfed'
  have hcomp : canDatagramIsComplete (fedState s (blankRound (some f))).inbox.dt = false := by
    obtain ⟨dt, hsize, hdt⟩ := hfed'.inputBufferSize
    rw [hdt, Bool.eq_false_iff, ne_eq, complete_iff, hsize]
    exact hopen
  have hend : endsDatagram s (blankRound (some f)) = false := by
    simp [endsDatagram, frameForUs_broadcast hid, hcomp, hlen]
  refine ⟨fedState s (blankRound (some f)), ?_, hfed', fun rounds => ?_⟩
  · rw [hstate]
    unfold appendFrame
    simp only
    split_ifs
    · exact ⟨hs.1, rfl⟩
    · exact ⟨hs.1, rfl⟩
  · have hnext : (roundStep blankPlatform s (blankRound (some f))).2 =
        some (fedState s (blankRound (some f))) := by
      unfold roundStep
      rw [if_neg (by simpa [bootloaderTimedOut] using hjump)]
      simp only [receive_eq, hend, Bool.false_eq_true, if_false]
    simp only [receptions, hjump, Bool.false_eq_true, if_false, hnext, framesKept, hend, hframes]

end Still

/-- Frame after frame of a datagram that stays open. -/
theorem receptions_frames (frames : List RxFrame) :
    ∀ {s : LoopState nucleoFirmware Unit} {fs : List RxFrame}, fs ≠ [] → Still s →
      Fed s (frameBytes fs) → (∀ f ∈ frames, f.id = 0 ∧ f.data.length = 8) →
      (¬ ∃ x : Intake 32768, x.bytes <+: frameBytes (fs ++ frames)) →
      ∃ t, Still t ∧ Fed t (frameBytes (fs ++ frames)) ∧ ∀ rounds,
        receptions blankPlatform t (fs ++ frames) rounds ⊆
          receptions blankPlatform s fs
            (frames.map (fun f => blankRound (some f)) ++ rounds) := by
  induction frames with
  | nil =>
      intro s fs _ hs hfed _ _
      exact ⟨s, hs, by simpa using hfed, fun rounds => by simp⟩
  | cons f frames ih =>
      intro s fs hne hs hfed hframes hopen
      obtain ⟨⟨hid, hlen⟩, hframes⟩ := List.forall_mem_cons.mp hframes
      have hprefix : frameBytes (fs ++ [f]) <+: frameBytes (fs ++ f :: frames) := by
        rw [List.append_cons fs f frames, frameBytes_append (fs ++ [f])]
        exact List.prefix_append _ _
      obtain ⟨u, hu, hfedu, hmore⟩ := receptions_more hs hfed (by rw [if_neg hne, hid]) hlen
        (fun ⟨x, hx⟩ => hopen ⟨x, hx.trans hprefix⟩)
      rw [List.append_cons] at hopen ⊢
      obtain ⟨t, ht, hfedt, hsub⟩ := ih (by simp) hu hfedu hframes hopen
      refine ⟨t, ht, hfedt, fun rounds x hx => ?_⟩
      rw [List.map_cons, List.cons_append, hmore]
      exact List.mem_cons_of_mem _ (hsub rounds hx)

/-- A broadcast datagram that announces 65536 bytes of data: its header, with the first of them. -/
def hugeFirst : RxFrame := ⟨0x80, [1, 0, 0, 0, 0, 1, 1, 0], by decide⟩

def hugeSecond : RxFrame := ⟨0, [1, 0, 0, 0, 0, 0, 0, 0], by decide⟩

def hugeHeader : List RxFrame := [hugeFirst, hugeSecond]

def zeroFrame : RxFrame := ⟨0, [0, 0, 0, 0, 0, 0, 0, 0], by decide⟩

/-- The header, and as many frames of data as fill the 32768 bytes of the buffer. -/
def hugeRounds : List Round :=
  (hugeHeader ++ List.replicate 4096 zeroFrame).map fun f => blankRound (some f)

theorem frameBytes_huge (k : Nat) :
    (frameBytes (hugeHeader ++ List.replicate k zeroFrame)).length = 16 + 8 * k ∧
      dataOffset (frameBytes (hugeHeader ++ List.replicate k zeroFrame)) = 11 ∧
      announcedLen (frameBytes (hugeHeader ++ List.replicate k zeroFrame)) = 65536 := by
  have hsplit : frameBytes (hugeHeader ++ List.replicate k zeroFrame) =
      [1, 0, 0, 0, 0, 1, 1, 0, 1, 0, 0, 0, 0, 0, 0, 0] ++
        frameBytes (List.replicate k zeroFrame) := by
    simp [frameBytes, hugeHeader, hugeFirst, hugeSecond]
  have hzeros : (frameBytes (List.replicate k zeroFrame)).length = 8 * k := by
    simp [frameBytes, zeroFrame, Nat.mul_comm]
  rw [hsplit]
  refine ⟨?_, rfl, rfl⟩
  rw [List.length_append, hzeros]
  rfl

/-- The header and `k + 1` frames of data, of which the last is the first that can end the
    datagram. -/
theorem huge_reception (k : Nat)
    (hopen : ¬ ∃ x : Intake 32768,
      x.bytes <+: frameBytes (hugeHeader ++ List.replicate k zeroFrame)) :
    ∃ x ∈ bootReceptions blankPlatform nucleoFirmware 0 blankLocals (fun _ => 0) (fun _ => 0)
        (fun _ => 0) 0 ()
        ((hugeHeader ++ List.replicate (k + 1) zeroFrame).map fun f => blankRound (some f)),
      Fed x.state (frameBytes x.frames) ∧
        x.bytes = frameBytes (hugeHeader ++ List.replicate (k + 1) zeroFrame) := by
  let s := boot nucleoFirmware blankPlatform 0 blankLocals (fun _ => 0) (fun _ => 0) (fun _ => 0)
    0 ()
  have hshorter : ∀ fs gs, fs ++ gs = hugeHeader ++ List.replicate k zeroFrame →
      ¬ ∃ x : Intake 32768, x.bytes <+: frameBytes fs := by
    intro fs gs hfs ⟨x, hx⟩
    refine hopen ⟨x, hx.trans ?_⟩
    rw [← hfs, frameBytes_append]
    exact List.prefix_append _ _
  have hstart : Fed s (frameBytes []) := .start s rfl
  have hopen₁ : ¬ ∃ x : Intake 32768, x.bytes <+: frameBytes ([] ++ [hugeFirst]) :=
    hshorter _ _ rfl
  obtain ⟨t, ht, hfedt, hfirst⟩ := receptions_more ⟨rfl, rfl⟩ hstart rfl rfl hopen₁
  obtain ⟨u, hu, hfedu, hrest⟩ := receptions_frames (hugeSecond :: List.replicate k zeroFrame)
    (by simp) ht hfedt (by simp [hugeSecond, zeroFrame]) (hshorter _ [] (by simp [hugeHeader]))
  refine ⟨⟨u, hugeHeader ++ List.replicate k zeroFrame, blankRound (some zeroFrame)⟩, ?_, hfedu,
    ?_⟩
  · have hrounds : (hugeHeader ++ List.replicate (k + 1) zeroFrame).map
        (fun f => blankRound (some f)) =
        blankRound (some hugeFirst) :: ((hugeSecond :: List.replicate k zeroFrame).map
          (fun f => blankRound (some f)) ++ [blankRound (some zeroFrame)]) := by
      simp [hugeHeader, List.replicate_succ']
    rw [bootReceptions, hrounds, hfirst]
    refine List.mem_cons_of_mem _ (hrest _ ?_)
    rw [receptions, hu.bootloaderTimedOut]
    exact List.mem_cons_self
  · have hnext :
        zeroFrame.id = if hugeHeader ++ List.replicate k zeroFrame = [] then 0x80 else 0 := by
      simp [hugeHeader, zeroFrame]
    have hframes := framesFed_broadcast hu hnext
    rw [List.append_assoc, ← List.replicate_succ'] at hframes
    exact congrArg frameBytes hframes

/-- Before its last frame the datagram is open. -/
theorem huge_open : ¬ ∃ x : Intake 32768,
    x.bytes <+: frameBytes (hugeHeader ++ List.replicate 4095 zeroFrame) := by
  intro ⟨x, hx⟩
  obtain ⟨hlen, hoffset, hannounced⟩ := frameBytes_huge 4095
  obtain ⟨h1, h2⟩ := x.dataOffset_eq ((List.prefix_append _ _).trans hx)
  have hdata := x.data_length
  have hle := hx.length_le
  rw [hannounced] at h2
  rw [hoffset] at h1
  rw [Intake.bytes, List.length_append, hlen] at hle
  omega

/-- The datagram ends when half of the data that it announces is received. -/
theorem complete_beyond_dataBuffer :
    ¬ ∀ x ∈ bootReceptions blankPlatform nucleoFirmware 0 blankLocals (fun _ => 0) (fun _ => 0)
        (fun _ => 0) 0 () hugeRounds, CompleteInBuffer nucleoFirmware x.reader x.bytes := by
  intro hall
  obtain ⟨x, hx, hfed, hbytes⟩ := huge_reception 4095 huge_open
  have hfit := (completeInBuffer_iff (fed_fedState hfed x.round)).mp (hall x hx)
  obtain ⟨hlen, hoffset, hannounced⟩ := frameBytes_huge 4096
  refine hfit ?_
  change OverlongData nucleoFirmware x.bytes
  rw [hbytes, OverlongData, hlen, hoffset, hannounced]
  decide

end CanBootloader
