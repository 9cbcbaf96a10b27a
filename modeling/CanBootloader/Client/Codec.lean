/-
  The client's encoder and decoder against the format of `Protocol`.

  * `encodeDatagram_eq`, `encodeDatagram_some`: the encoder produces exactly the `wire`
    bytes of a `Datagram`, and raises on everything that is not one.
  * `decodeDatagram_wire`: the decoder returns the datagram.
  * `decodeDatagram_prefix`: no proper prefix decodes. The prefix ends inside the header,
    the list, the length or the data; each is one case of the proof.
  * `decodeDatagram_cases`: any bytes; only the empty string raises.
  * `datagramToFramesFrom_more`, `datagramToFramesFrom_last`: the splitter takes 8 bytes
    while more than 8 are left.
-/
import CanBootloader.Client.Datagram

namespace CanBootloader

open Lib

/-! ## Encoder -/

theorem encodeDatagram_eq (d : Datagram) :
    encodeDatagram d.data d.destinations = some d.wire := by
  have h1 := d.destinations_le
  have h2 := d.data_lt
  unfold encodeDatagram
  rw [if_neg (by omega)]
  simp [Datagram.wire, Datagram.body, datagramVersion]

theorem encodeDatagram_some {data destinations bytes : List UInt8}
    (h : encodeDatagram data destinations = some bytes) :
    ∃ d : Datagram, d.data = data ∧ d.destinations = destinations ∧ d.wire = bytes := by
  by_cases hb : destinations.length > 255 ∨ data.length ≥ 2 ^ 32
  · rw [encodeDatagram, if_pos hb] at h
    exact absurd h (by simp)
  · have hd := encodeDatagram_eq ⟨destinations, data, by omega, by omega⟩
    exact ⟨⟨destinations, data, by omega, by omega⟩, rfl, rfl, Option.some.inj (hd.symm.trans h)⟩

/-! ## Decoder -/

/-- What is left of the `try` block once version, CRC and list length are read. -/
def decodeRest (crc : UInt32) (dstLen : UInt8) (data : List UInt8) :
    Except PyError (Option (List UInt8 × List UInt8)) := do
  let destinations ← unpackBytes dstLen.toNat (data.take dstLen.toNat)
  let data := data.drop dstLen.toNat
  let dataLen ← unpackWord (data.take 4)
  let data := data.drop 4
  if data.length < dataLen.toNat then return none
  let addresses := UInt8.ofNat destinations.length :: destinations
  let dt := (← packWord data.length) ++ data
  if Zlib.crc32 (addresses ++ dt) ≠ crc then .error .crcMismatchError
  return some (data, destinations)

theorem decodeTry_header (crc : UInt32) (dstLen : UInt8) (t : List UInt8) :
    decodeTry (1 :: be32 crc ++ dstLen :: t) = decodeRest crc dstLen t := by
  have hcrc := ofBE_be32 crc
  simp only [be32] at hcrc
  simp [decodeTry, decodeRest, datagramVersion, be32, unpackHeader, hcrc]
  rfl

theorem unpackBytes_append (bs t : List UInt8) :
    unpackBytes bs.length ((bs ++ t).take bs.length) = .ok bs := by
  simp [unpackBytes]

theorem unpackWord_append (x : UInt32) (t : List UInt8) :
    unpackWord ((be32 x ++ t).take 4) = .ok x := by
  have : (be32 x ++ t).take 4 = be32 x := List.take_left' (be32_length x)
  rw [this]
  simp [unpackWord, ofBE_be32]

/-! Each `unpack` fails on a field that is cut short. -/

theorem unpackHeader_short {bs : List UInt8} (h : bs.length < 5) :
    unpackHeader (bs.take 5) = .error .structError := by
  unfold unpackHeader
  rw [if_neg (by rw [List.length_take]; omega)]

theorem unpackBytes_short {n : Nat} {bs : List UInt8} (h : bs.length < n) :
    unpackBytes n (bs.take n) = .error .structError := by
  unfold unpackBytes
  rw [if_neg (by rw [List.length_take]; omega)]

theorem unpackWord_short {bs : List UInt8} (h : bs.length < 4) :
    unpackWord (bs.take 4) = .error .structError := by
  unfold unpackWord
  rw [if_neg (by rw [List.length_take]; omega)]

theorem decodeDatagram_wire (d : Datagram) :
    decodeDatagram d.wire = .ok (some (d.data, d.destinations)) := by
  have hn := d.data_toNat
  have hm := d.destinations_toNat
  have hw : d.wire = 1 :: be32 (Zlib.crc32 d.body) ++ UInt8.ofNat d.destinations.length ::
      (d.destinations ++ (be32 (UInt32.ofNat d.data.length) ++ d.data)) := by
    simp [Datagram.wire, Datagram.body]
  have hbody : UInt8.ofNat d.destinations.length ::
      (d.destinations ++ (be32 (UInt32.ofNat d.data.length) ++ d.data)) = d.body := by
    simp [Datagram.body]
  have htry : decodeTry d.wire = .ok (some (d.data, d.destinations)) := by
    rw [hw, decodeTry_header]
    unfold decodeRest
    rw [hm, unpackBytes_append]
    simp only [bind, Except.bind]
    rw [List.drop_left, unpackWord_append]
    have hd4 : (be32 (UInt32.ofNat d.data.length) ++ d.data).drop 4 = d.data :=
      List.drop_left' (be32_length _)
    simp only [hd4, hn, lt_irrefl, if_false, packWord, d.data_lt, if_true]
    simp [hbody, pure, Except.pure]
  simp [decodeDatagram, htry]

theorem decodeRest_prefix (crc : UInt32) (d : Datagram) {t q : List UInt8}
    (h : t ++ q = d.destinations ++ (be32 (UInt32.ofNat d.data.length) ++ d.data)) (hq : q ≠ []) :
    decodeRest crc (UInt8.ofNat d.destinations.length) t = .error .structError ∨
      decodeRest crc (UInt8.ofNat d.destinations.length) t = .ok none := by
  have hn := d.data_toNat
  have hm := d.destinations_toNat
  unfold decodeRest
  rw [hm]
  by_cases hshort : t.length < d.destinations.length
  · -- the list is cut
    left
    rw [unpackBytes_short hshort]
    rfl
  · obtain ⟨t2, rfl, ht2⟩ : ∃ t2, t = d.destinations ++ t2 ∧
        t2 ++ q = be32 (UInt32.ofNat d.data.length) ++ d.data := by
      have htake : t.take d.destinations.length = d.destinations := by
        have := congrArg (List.take d.destinations.length) h
        rwa [List.take_append_of_le_length (by omega), List.take_left] at this
      refine ⟨t.drop d.destinations.length, ?_, ?_⟩
      · conv => lhs; rw [← List.take_append_drop d.destinations.length t, htake]
      · have := congrArg (List.drop d.destinations.length) h
        rwa [List.drop_append_of_le_length (by omega), List.drop_left] at this
    rw [unpackBytes_append, List.drop_left]
    simp only [bind, Except.bind]
    by_cases hshort2 : t2.length < 4
    · -- the data length is cut
      left
      rw [unpackWord_short hshort2]
    · -- the data is cut
      right
      have htake : t2.take 4 = be32 (UInt32.ofNat d.data.length) := by
        have := congrArg (List.take 4) ht2
        rwa [List.take_append_of_le_length (by omega), List.take_left' (be32_length _)] at this
      have hlen : (t2.drop 4).length < d.data.length := by
        have hl := congrArg List.length ht2
        have hq' : 0 < q.length := List.length_pos_iff.mpr hq
        simp only [List.length_append, be32_length] at hl
        rw [List.length_drop]
        omega
      have hword : unpackWord (t2.take 4) = .ok (UInt32.ofNat d.data.length) := by
        rw [htake, unpackWord, if_pos (be32_length _), ofBE_be32]
      rw [hword]
      simp only [hn, if_pos hlen]
      rfl

/-- A datagram cut anywhere, after at least one byte, does not decode. -/
theorem decodeDatagram_prefix (d : Datagram) {p q : List UInt8} (h : p ++ q = d.wire)
    (hp : p ≠ []) (hq : q ≠ []) : decodeDatagram p = .ok none := by
  have hw : d.wire = 1 :: (be32 (Zlib.crc32 d.body) ++ UInt8.ofNat d.destinations.length ::
      (d.destinations ++ (be32 (UInt32.ofNat d.data.length) ++ d.data))) := by
    simp [Datagram.wire, Datagram.body]
  obtain ⟨b, xs, rfl⟩ := List.exists_cons_of_ne_nil hp
  rw [hw, List.cons_append] at h
  obtain ⟨rfl, h⟩ := List.cons.inj h
  by_cases hshort : xs.length < 5
  · -- the header is cut
    have htry : decodeTry (1 :: xs) = .error .structError := by
      simp [decodeTry, datagramVersion, unpackHeader_short hshort, bind, Except.bind]
    simp [decodeDatagram, htry]
  · have hhead : xs = be32 (Zlib.crc32 d.body) ++ UInt8.ofNat d.destinations.length :: xs.drop 5 ∧
        xs.drop 5 ++ q =
          d.destinations ++ (be32 (UInt32.ofNat d.data.length) ++ d.data) := by
      have h' : xs ++ q = (be32 (Zlib.crc32 d.body) ++ [UInt8.ofNat d.destinations.length]) ++
          (d.destinations ++ (be32 (UInt32.ofNat d.data.length) ++ d.data)) := by
        simpa using h
      have htake := congrArg (List.take 5) h'
      have hdrop := congrArg (List.drop 5) h'
      rw [List.take_append_of_le_length (by omega), List.take_left' (by simp)] at htake
      rw [List.drop_append_of_le_length (by omega), List.drop_left' (by simp)] at hdrop
      refine ⟨?_, hdrop⟩
      conv => lhs; rw [← List.take_append_drop 5 xs, htake]
      simp
    have htry : decodeTry (1 :: xs) =
        decodeRest (Zlib.crc32 d.body) (UInt8.ofNat d.destinations.length) (xs.drop 5) := by
      conv => lhs; rw [hhead.1]
      exact decodeTry_header _ _ _
    rcases decodeRest_prefix (Zlib.crc32 d.body) d hhead.2 hq with hr | hr
    · simp [decodeDatagram, htry, hr]
    · simp [decodeDatagram, htry, hr]

/-! ## Any bytes -/

/-- What comes of the rest: an exception that is caught, nothing, or all of its data. -/
theorem decodeRest_cases (crc : UInt32) (n : UInt8) (t : List UInt8) :
    (∃ e, decodeRest crc n t = .error e ∧ e ≠ .indexError) ∨ decodeRest crc n t = .ok none ∨
      ∃ dst data, decodeRest crc n t = .ok (some (data, dst)) ∧
        t.length = dst.length + 4 + data.length := by
  unfold decodeRest unpackBytes unpackWord packWord
  simp only [bind, Except.bind]
  by_cases hlist : (t.take n.toNat).length = n.toNat
  · by_cases hword : ((t.drop n.toNat).take 4).length = 4
    · simp only [if_pos hlist, if_pos hword]
      by_cases hshort : ((t.drop n.toNat).drop 4).length <
          (ofBE ((t.drop n.toNat).take 4)).toNat
      · exact .inr (.inl (if_pos hshort))
      · simp only [if_neg hshort]
        by_cases hlen : ((t.drop n.toNat).drop 4).length < 2 ^ 32
        · simp only [if_pos hlen]
          split_ifs
          · exact .inl ⟨.crcMismatchError, rfl, by decide⟩
          · refine .inr (.inr ⟨t.take n.toNat, (t.drop n.toNat).drop 4, rfl, ?_⟩)
            simp only [List.length_take, List.length_drop] at *
            omega
        · exact .inl ⟨.structError, by simp only [if_neg hlen], by decide⟩
    · exact .inl ⟨.structError, by simp only [if_pos hlist, if_neg hword], by decide⟩
  · exact .inl ⟨.structError, by simp only [if_neg hlist], by decide⟩

/-- The decoder raises nothing on a byte string that is not empty, and what it decodes has the
    length of that string. -/
theorem decodeDatagram_cases {bs : List UInt8} (h : bs ≠ []) :
    decodeDatagram bs = .ok none ∨
      ∃ dst data, decodeDatagram bs = .ok (some (data, dst)) ∧
        bs.length = 10 + dst.length + data.length := by
  obtain ⟨b, bs, rfl⟩ := List.exists_cons_of_ne_nil h
  by_cases hversion : b = datagramVersion
  · by_cases hheader : bs.length < 5
    · left
      simp [decodeDatagram, decodeTry, hversion, unpackHeader_short hheader, bind, Except.bind]
    · have htry : decodeTry (b :: bs) =
          decodeRest (ofBE (bs.take 4)) (bs.getD 4 0) (bs.drop 5) := by
        have hlen : (bs.take 5).length = 5 := by
          rw [List.length_take]
          omega
        have hword : (bs.take 5).take 4 = bs.take 4 := by rw [List.take_take]; rfl
        have hbyte : (bs.take 5).getD 4 0 = bs.getD 4 0 := by simp
        simp only [decodeTry, hversion, unpackHeader, if_pos hlen, hword, hbyte]
        rfl
      rcases decodeRest_cases (ofBE (bs.take 4)) (bs.getD 4 0) (bs.drop 5) with
        ⟨e, hrest, he⟩ | hrest | ⟨dst, data, hrest, hlen⟩
      · left
        cases e <;> simp_all [decodeDatagram]
      · left
        simp only [decodeDatagram, htry, hrest]
      · refine .inr ⟨dst, data, by simp only [decodeDatagram, htry, hrest], ?_⟩
        rw [List.length_drop] at hlen
        rw [List.length_cons]
        omega
  · left
    simp [decodeDatagram, decodeTry, hversion, bind, Except.bind]

/-! ## Frames -/

theorem Frame.init_of_le (id : Nat) {data : List UInt8} (h : data.length ≤ 8) :
    Frame.init id (some data) = ⟨id, data, false, false, data.length⟩ := by
  have : ¬ data.length > 8 := by omega
  simp [Frame.init, this]

theorem datagramToFramesFrom_more (startBit : Nat) {bytes : List UInt8} (source : Nat)
    (h : 8 < bytes.length) :
    datagramToFramesFrom startBit bytes source =
      ⟨startBit + source, bytes.take 8, false, false, 8⟩ ::
        datagramToFramesFrom 0 (bytes.drop 8) source := by
  have hlen : (bytes.take 8).length = 8 := by
    rw [List.length_take]
    omega
  rw [datagramToFramesFrom, if_pos h, Frame.init_of_le _ (by omega), hlen]

theorem datagramToFramesFrom_last (startBit : Nat) {bytes : List UInt8} (source : Nat)
    (h : bytes.length ≤ 8) :
    datagramToFramesFrom startBit bytes source =
      [⟨startBit + source, bytes, false, false, bytes.length⟩] := by
  rw [datagramToFramesFrom, if_neg (by omega), Frame.init_of_le _ h]

theorem datagramToFramesFrom_ne_nil (startBit : Nat) (bytes : List UInt8) (source : Nat) :
    datagramToFramesFrom startBit bytes source ≠ [] := by
  rw [datagramToFramesFrom]
  split_ifs
  · simp
  · simp

end CanBootloader
