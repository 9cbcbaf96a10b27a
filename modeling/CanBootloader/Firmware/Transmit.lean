/-
  The frames of `return_datagram`, against the client's frame splitter.

  The loop sends what the writer has pending, 8 bytes at a time (`returnLoop_frames`). For a
  fresh writer that is the `wire` of a datagram with one destination (`pending_returned`), so
  with all transmissions successful the frames of a node with an ID of seven bits are those the
  client would send (`returnDatagram_eq_datagramToFrames`). The cap of 100 frames is above the 34
  that 255 bytes of data take.
-/
import CanBootloader.Firmware.Bootloader
import CanBootloader.Firmware.Writer
import CanBootloader.Client.Codec

namespace CanBootloader

open Lib

/-- A frame as the bus sees it. -/
def Transmission.onBus (t : Transmission) : Nat × List UInt8 := (t.id.toNat, t.data)

def Frame.onBus (f : Frame) : Nat × List UInt8 := (f.id, f.data)

/-! ## The loop -/

theorem returnLoop_done (sourceId : UInt8) (send : Nat → Bool) (count k : Nat) (start : Bool)
    {dt : CanDatagram} (hok : WriterOk dt) (hp : pending dt = []) :
    returnLoop sourceId send count k start dt = [] := by
  cases count with
  | zero => rfl
  | succ count =>
      have hbuf := (outputBytes_spec 8 dt hok).1
      rw [hp, List.take_nil] at hbuf
      simp [returnLoop, hbuf]

/-- One round of the loop with a successful transmission. -/
theorem returnLoop_next (sourceId : UInt8) {send : Nat → Bool} (hsend : ∀ k, send k = true)
    (count k : Nat) (start : Bool) {dt : CanDatagram} (hok : WriterOk dt)
    (hne : pending dt ≠ []) :
    returnLoop sourceId send (count + 1) k start dt =
      ⟨if start then sourceId.toUInt32 ||| idStartMask else sourceId.toUInt32,
        (pending dt).take 8, true⟩ ::
        returnLoop sourceId send count (k + 1) false (canDatagramOutputBytes dt 8).2 := by
  have hbuf := (outputBytes_spec 8 dt hok).1
  have hne8 : (pending dt).take 8 ≠ [] := by simpa using hne
  rw [returnLoop]
  simp only [hbuf, hsend, if_neg hne8, if_true]

/-- The frames that a node with this ID sends for some bytes. The start bit is or-ed to the ID, so
    with an ID of eight bits every frame has it. -/
def nodeFrames (id : UInt8) (startBit : Nat) (bytes : List UInt8) : List (Nat × List UInt8) :=
  (datagramToFramesFrom startBit bytes 0).map fun f => (f.id ||| id.toNat, f.data)

theorem nodeFrames_more (id : UInt8) (startBit : Nat) {bytes : List UInt8}
    (h : 8 < bytes.length) :
    nodeFrames id startBit bytes =
      (startBit ||| id.toNat, bytes.take 8) :: nodeFrames id 0 (bytes.drop 8) := by
  rw [nodeFrames, datagramToFramesFrom_more _ _ h]
  rfl

theorem nodeFrames_last (id : UInt8) (startBit : Nat) {bytes : List UInt8}
    (h : bytes.length ≤ 8) : nodeFrames id startBit bytes = [(startBit ||| id.toNat, bytes)] := by
  rw [nodeFrames, datagramToFramesFrom_last _ _ h]
  rfl

/-- An ID of seven bits leaves the start bit free: these are the client's frames. -/
theorem nodeFrames_of_le {id : UInt8} (hid : id.toNat ≤ 127) (n : Nat) :
    ∀ {bytes : List UInt8} {startBit : Nat}, startBit = 0 ∨ startBit = 0x80 → bytes.length ≤ n →
      nodeFrames id startBit bytes =
        (datagramToFramesFrom startBit bytes id.toNat).map Frame.onBus := by
  have hor : ∀ {startBit : Nat}, startBit = 0 ∨ startBit = 0x80 →
      startBit ||| id.toNat = startBit + id.toNat := by
    rintro _ (rfl | rfl)
    · simp
    · exact or_shiftLeft 1 7 (show id.toNat < 2 ^ 7 by omega)
  induction n with
  | zero =>
      intro bytes startBit hstart hlen
      rw [nodeFrames_last _ _ (by omega), datagramToFramesFrom_last _ _ (by omega), hor hstart]
      rfl
  | succ n ih =>
      intro bytes startBit hstart hlen
      by_cases hmore : 8 < bytes.length
      · rw [nodeFrames_more _ _ hmore, datagramToFramesFrom_more _ _ hmore, hor hstart,
          ih (.inl rfl) (by rw [List.length_drop]; omega)]
        rfl
      · rw [nodeFrames_last _ _ (by omega), datagramToFramesFrom_last _ _ (by omega), hor hstart]
        rfl

/-- With an ID of eight bits each frame looks like the first one of a datagram. -/
theorem nodeFrames_of_lt {id : UInt8} (hid : 127 < id.toNat) (n : Nat) :
    ∀ {bytes : List UInt8} {startBit : Nat}, bytes.length ≤ n →
      ∀ x ∈ nodeFrames id startBit bytes, x.1 &&& 0x080 > 0 ∧ x.2.length ≤ 8 := by
  have hbit : ∀ startBit : Nat, (startBit ||| id.toNat) &&& 0x080 > 0 := by
    intro startBit
    have hall : ∀ m : Fin 256, 127 < m.val → m.val &&& 0x080 = 0x080 := by
      decide +kernel
    rw [Nat.and_or_distrib_right, hall ⟨id.toNat, id.toNat_lt⟩ hid]
    exact Nat.right_le_or.trans_lt' (by decide)
  induction n with
  | zero =>
      intro bytes startBit hlen x hx
      rw [nodeFrames_last _ _ (by omega), List.mem_singleton] at hx
      subst hx
      exact ⟨hbit _, hlen.trans (by decide)⟩
  | succ n ih =>
      intro bytes startBit hlen x hx
      by_cases hmore : 8 < bytes.length
      · rw [nodeFrames_more _ _ hmore, List.mem_cons] at hx
        rcases hx with rfl | hx
        · exact ⟨hbit _, by simp⟩
        · exact ih (by rw [List.length_drop]; omega) x hx
      · rw [nodeFrames_last _ _ (by omega), List.mem_singleton] at hx
        subst hx
        exact ⟨hbit _, not_lt.mp hmore⟩

theorem frameId_toNat (sourceId : UInt8) (start : Bool) :
    (if start then sourceId.toUInt32 ||| idStartMask else sourceId.toUInt32).toNat =
      (if start then 0x80 else 0) ||| sourceId.toNat := by
  cases start with
  | false => simp
  | true => simp [idStartMask, Nat.or_comm]

/-- With every transmission successful, the loop sends the pending bytes as the client's
    splitter cuts them. Induction on the rounds left. -/
theorem returnLoop_frames (sourceId : UInt8) {send : Nat → Bool} (hsend : ∀ k, send k = true)
    (count : Nat) :
    ∀ (k : Nat) (start : Bool) (dt : CanDatagram), WriterOk dt → pending dt ≠ [] →
      (pending dt).length ≤ 8 * count →
      (returnLoop sourceId send count k start dt).map Transmission.onBus =
        nodeFrames sourceId (if start then 0x80 else 0) (pending dt) := by
  induction count with
  | zero =>
      intro k start dt _ hne hlen
      have hpos := List.length_pos_iff.mpr hne
      omega
  | succ count ih =>
      intro k start dt hok hne hlen
      obtain ⟨-, hrest, hok'⟩ := outputBytes_spec 8 dt hok
      rw [returnLoop_next sourceId hsend count k start hok hne, List.map_cons,
        Transmission.onBus, frameId_toNat]
      by_cases hmore : 8 < (pending dt).length
      · rw [nodeFrames_more _ _ hmore,
          ih (k + 1) false _ hok' (by rw [hrest]; simpa using hmore)
            (by rw [hrest, List.length_drop]; omega), hrest]
        rfl
      · have hlast : pending (canDatagramOutputBytes dt 8).2 = [] := by
          rw [hrest]
          exact List.drop_eq_nil_of_le (by omega)
        rw [nodeFrames_last _ _ (by omega), returnLoop_done _ _ _ _ _ hok' hlast,
          List.take_of_length_le (by omega)]
        rfl

/-- A failed transmission ends the loop, so it sends a first part of what it would have sent. -/
theorem returnLoop_prefix (sourceId : UInt8) (send : Nat → Bool) (count : Nat) :
    ∀ (k : Nat) (start : Bool) (dt : CanDatagram),
      ((returnLoop sourceId send count k start dt).map Transmission.onBus <+:
        (returnLoop sourceId (fun _ => true) count k start dt).map Transmission.onBus) ∧
      ((∀ t ∈ returnLoop sourceId send count k start dt, t.ok = true) →
        (returnLoop sourceId send count k start dt).map Transmission.onBus =
          (returnLoop sourceId (fun _ => true) count k start dt).map Transmission.onBus) := by
  induction count with
  | zero => exact fun k start dt => ⟨List.prefix_rfl, fun _ => rfl⟩
  | succ count ih =>
      intro k start dt
      rw [returnLoop, returnLoop]
      by_cases hempty : (canDatagramOutputBytes dt 8).1 = []
      · simp [hempty]
      · obtain ⟨hpart, hall⟩ := ih (k + 1) false (canDatagramOutputBytes dt 8).2
        cases hsend : send k with
        | false => simp [hempty, Transmission.onBus]
        | true =>
            simp only [if_neg hempty, if_true, List.map_cons, Transmission.onBus]
            refine ⟨(List.prefix_cons_inj _).mpr hpart, fun hok => ?_⟩
            rw [hall fun t ht => hok t (List.mem_cons_of_mem _ ht)]

/-! ## The datagram -/

/-- The datagram with one destination and the first `len` bytes of a buffer. -/
def replyDatagram (destId : UInt8) (data : Store) (len : Nat) (h : len < 2 ^ 32) : Datagram where
  destinations := [destId]
  data := data.slice 0 len
  destinations_le := by simp
  data_lt := by simpa using h

variable {fw : Firmware}

theorem writerOk_returned (destId : UInt8) (data : Store) (len : Nat) :
    WriterOk (returnedDatagram fw destId data len) := trivial

/-- A fresh writer of `return_datagram` has the whole datagram pending. -/
theorem pending_returned (hcrc : CrcIsZlib fw.crc32) (destId : UInt8) (data : Store) {len : Nat}
    (hlen : len < 2 ^ 32) :
    pending (returnedDatagram fw destId data len) = (replyDatagram destId data len hlen).wire := by
  have htoNat : (UInt32.ofNat len).toNat = len :=
    UInt32.toNat_ofNat_of_lt' (show len < 2 ^ 32 by omega)
  have hlist : (Store.write (fun _ => 0) 0 destId).slice 0 1 = [destId] := by
    rw [Store.slice_succ, Store.write_same, Store.slice_zero]
  have hbody : (replyDatagram destId data len hlen).body =
      1 :: destId :: (be32 (UInt32.ofNat len) ++ data.slice 0 len) := by
    simp [Datagram.body, replyDatagram]
  have hcrc' : (returnedDatagram fw destId data len).crc =
      Zlib.crc32 (replyDatagram destId data len hlen).body := by
    rw [hbody]
    simp only [returnedDatagram, canDatagramComputeCrc, canDatagramSetDataBuffer,
      canDatagramSetAddressBuffer, htoNat, UInt8.reduceToNat, hlist, crcIsZlib_append hcrc]
    rw [hcrc]
    simp
  have hlistPart : listPart (returnedDatagram fw destId data len) =
      (replyDatagram destId data len hlen).body := by
    rw [hbody]
    simp only [listPart, dataPart, returnedDatagram, canDatagramSetDataBuffer,
      canDatagramSetAddressBuffer, htoNat, UInt8.reduceToNat, Nat.max_self, hlist]
    simp
  show UInt8.ofNat (returnedDatagram fw destId data len).protocolVersion ::
    be32 (returnedDatagram fw destId data len).crc ++
      listPart (returnedDatagram fw destId data len) = _
  rw [hcrc', hlistPart]
  rfl

theorem replyDatagram_wire_length (destId : UInt8) (data : Store) {len : Nat}
    (hlen : len < 2 ^ 32) : (replyDatagram destId data len hlen).wire.length = 11 + len := by
  rw [Datagram.wire_length]
  simp [replyDatagram]

/-- Up to the cap of 100 frames, `return_datagram` sends the frames of its datagram. -/
theorem returnDatagram_frames (hcrc : CrcIsZlib fw.crc32) (sourceId destId : UInt8)
    (data : Store) {len : Nat} (hlen : len ≤ 789) {send : Nat → Bool}
    (hsend : ∀ k, send k = true) :
    (returnDatagram fw sourceId destId data len send).map Transmission.onBus =
      nodeFrames sourceId 0x80 (replyDatagram destId data len (by omega)).wire := by
  have hp := pending_returned hcrc destId data (show len < 2 ^ 32 by omega)
  have hframes := returnLoop_frames sourceId hsend 100 0 true
    (returnedDatagram fw destId data len) (writerOk_returned destId data len)
    (by rw [hp]; exact Datagram.wire_ne_nil _)
    (by rw [hp, replyDatagram_wire_length]; omega)
  rw [hp] at hframes
  exact hframes

/-- For every data of 1 to 255 bytes, `return_datagram` and the client send the same frames. -/
theorem returnDatagram_eq_datagramToFrames (fw : Firmware) (hcrc : CrcIsZlib fw.crc32)
    (sourceId destId : UInt8) (hid : 1 ≤ sourceId.toNat ∧ sourceId.toNat ≤ 127) (data : Store)
    (len : Nat) (hlen : 1 ≤ len ∧ len ≤ 255) (send : Nat → Bool) (hsend : ∀ k, send k = true) :
    ∃ bytes, encodeDatagram (data.slice 0 len) [destId] = some bytes ∧
      (returnDatagram fw sourceId destId data len send).map Transmission.onBus =
        (datagramToFrames bytes sourceId.toNat).map Frame.onBus := by
  have hlt : len < 2 ^ 32 := by omega
  refine ⟨_, encodeDatagram_eq (replyDatagram destId data len hlt), ?_⟩
  rw [returnDatagram_frames hcrc sourceId destId data (by omega) hsend,
    nodeFrames_of_le hid.2 _ (.inr rfl) le_rfl]
  rfl

/-- A reply of two bytes to the client, in two frames. -/
theorem returnDatagram_eq_datagramToFrames_two :
    ∃ bytes, encodeDatagram [0x42, 0x43] [0] = some bytes ∧
      (returnDatagram nucleoFirmware 7 0 (Store.ofList [0x42, 0x43]) 2 fun _ => true).map
          Transmission.onBus =
        (datagramToFrames bytes 7).map Frame.onBus :=
  returnDatagram_eq_datagramToFrames nucleoFirmware (fun _ _ => rfl) 7 0 (by decide)
    (Store.ofList [0x42, 0x43]) 2 (by decide) (fun _ => true) (fun _ => rfl)

end CanBootloader
