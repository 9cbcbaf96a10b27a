/-
  Which byte strings the reader of can_datagram.c accepts.

  `Intake` is what the reader takes for a datagram. It stores a byte before it compares a
  counter, so it takes at least one byte for a list and one for data, and no more data than the
  buffer holds, whatever the length field says. `complete_iff` says that a reader is complete
  exactly when its input begins with an intake, and `valid_iff` when it accepts. The documented
  format is `Datagram.wire`; `accepts_format_iff` says when the two agree.
-/
import CanBootloader.Firmware.Reader

namespace CanBootloader

open Lib

/-! ## What the reader takes -/

/-- The fields of a datagram as the reader takes them into a buffer of `bufSize` bytes. -/
structure Intake (bufSize : Nat) where
  protocolVersion : UInt8
  crc : UInt32
  destinationNodesLen : UInt8
  destinationNodes : List UInt8
  dataLen : UInt32
  data : List UInt8
  destinationNodes_length : destinationNodes.length = max 1 destinationNodesLen.toNat
  data_length : data.length = max 1 (min dataLen.toNat bufSize)

namespace Intake

variable {bufSize : Nat}

/-- Everything before the data field. -/
def header (x : Intake bufSize) : List UInt8 :=
  x.protocolVersion :: be32 x.crc ++
    (x.destinationNodesLen :: x.destinationNodes ++ be32 x.dataLen)

def bytes (x : Intake bufSize) : List UInt8 := x.header ++ x.data

theorem data_ne_nil (x : Intake bufSize) : x.data ≠ [] := by
  have h := x.data_length
  intro hnil
  rw [hnil, List.length_nil] at h
  omega

end Intake

/-! ## Feeding an intake -/

/-- The reader at the first data byte. -/
def Intake.headerRead {bufSize : Nat} (x : Intake bufSize) (dt : CanDatagram) : CanDatagram :=
  { canDatagramStart dt with
    protocolVersion := x.protocolVersion.toNat
    crc := x.crc
    crcBytesRead := 4
    destinationNodesLen := x.destinationNodesLen
    destinationNodes := dt.destinationNodes.blit 0 x.destinationNodes
    destinationNodesRead := UInt8.ofNat x.destinationNodes.length
    dataLen := x.dataLen
    dataLengthBytesRead := 4
    readerState := .data }

/-- A destination list, and one byte in place of an empty one. -/
theorem input_destinationNodes (dt : CanDatagram) (bs : List UInt8) (hs : dt.readerState = .dst)
    (hr : dt.destinationNodesRead = 0)
    (hlen : bs.length = max 1 dt.destinationNodesLen.toNat) :
    canDatagramInput dt bs =
      { dt with
        destinationNodes := dt.destinationNodes.blit 0 bs
        destinationNodesRead := UInt8.ofNat bs.length
        readerState := .dataLen } := by
  by_cases hzero : dt.destinationNodesLen.toNat = 0
  · obtain ⟨b, rfl⟩ := List.length_eq_one_iff.mp (show bs.length = 1 by omega)
    have hle : dt.destinationNodesLen ≤ 1 := by
      rw [UInt8.le_iff_toNat_le, hzero]
      omega
    simp [input_cons, canDatagramInputByte, hs, hr, hle, Store.blit]
  · have hcount : UInt8.ofNat bs.length = dt.destinationNodesLen := by
      rw [show bs.length = dt.destinationNodesLen.toNat by omega, UInt8.ofNat_toNat]
    have hne : bs ≠ [] := by
      intro hnil
      rw [hnil, List.length_nil] at hlen
      omega
    rw [input_dst bs dt hs hne (by rw [hr, UInt8.toNat_zero]; omega), hr, hcount]
    rfl

variable {bufSize : Nat}

theorem input_intakeHeader (dt : CanDatagram) (x : Intake bufSize) :
    canDatagramInput (canDatagramStart dt) x.header = x.headerRead dt := by
  unfold Intake.header
  rw [List.cons_append, input_cons, input_append, input_crc _ _ rfl rfl, input_append,
    input_cons, input_destinationNodes _ x.destinationNodes rfl rfl x.destinationNodes_length,
    input_dataLen _ _ rfl rfl]
  rfl

/-- A data byte with which the announced length is reached or the buffer is full. -/
theorem inputByte_data_end (dt : CanDatagram) (b : UInt8) (hs : dt.readerState = .data)
    (hend : dt.dataLen ≤ dt.dataBytesRead + 1 ∨ dt.dataBufferSize ≤ dt.dataBytesRead + 1) :
    canDatagramInputByte dt b =
      { dt with
        data := dt.data.write dt.dataBytesRead.toNat b
        dataBytesRead := dt.dataBytesRead + 1
        readerState := .trailing } := by
  by_cases hlen : dt.dataLen ≤ dt.dataBytesRead + 1
  · simp [canDatagramInputByte, hs, hlen]
  · have hbuf := hend.resolve_left hlen
    simp [canDatagramInputByte, hs, hlen, hbuf]

/-- The reader one byte before the end of an intake. -/
theorem input_intake_dropLast (dt : CanDatagram) (x : Intake dt.dataBufferSize.toNat)
    {xs : List UInt8} {b : UInt8} (hx : x.data = xs ++ [b]) :
    canDatagramInput (canDatagramStart dt) (x.header ++ xs) =
      { x.headerRead dt with
        data := dt.data.blit 0 xs
        dataBytesRead := UInt32.ofNat xs.length } := by
  have hlen := x.data_length
  rw [hx, List.length_append, List.length_singleton] at hlen
  rw [input_append, input_intakeHeader dt x]
  by_cases hxs : xs = []
  · subst hxs
    rfl
  · have hpos := List.length_pos_of_ne_nil hxs
    rw [input_data_more xs _ rfl]
    · simp [Intake.headerRead, canDatagramStart]
    · simp only [Intake.headerRead, canDatagramStart, UInt32.reduceToNat]
      omega
    · simp only [Intake.headerRead, canDatagramStart, UInt32.reduceToNat]
      omega

/-- The reader behind an intake. -/
def Intake.read (x : Intake bufSize) (dt : CanDatagram) : CanDatagram :=
  { x.headerRead dt with
    data := dt.data.blit 0 x.data
    dataBytesRead := UInt32.ofNat x.data.length
    readerState := .trailing }

theorem input_intake (dt : CanDatagram) (x : Intake dt.dataBufferSize.toNat) :
    canDatagramInput (canDatagramStart dt) x.bytes = x.read dt := by
  obtain ⟨xs, b, hx⟩ := (List.eq_nil_or_concat' x.data).resolve_left x.data_ne_nil
  have hlen := x.data_length
  have hn := x.dataLen.toNat_lt
  rw [hx, List.length_append, List.length_singleton] at hlen
  have hxs : (UInt32.ofNat xs.length).toNat = xs.length :=
    UInt32.toNat_ofNat_of_lt' (show xs.length < 2 ^ 32 by omega)
  rw [Intake.bytes, hx, ← List.append_assoc, input_append, input_intake_dropLast dt x hx,
    input_cons, input_nil, inputByte_data_end _ _ rfl]
  · have hblit := Store.blit_append xs [b] dt.data 0
    simp only [Nat.zero_add, Store.blit] at hblit
    simp only [Intake.read, hx, hxs, hblit, List.length_append, List.length_singleton,
      UInt32.ofNat_add]
    rfl
  · simp only [Intake.headerRead, canDatagramStart, UInt32.le_iff_toNat_le]
    rw [uint32_succ_toNat (by omega), hxs]
    omega

/-! ## Completeness -/

theorem drop_eq_take_append (t : List UInt8) (i j : Nat) :
    t.drop i = (t.drop i).take j ++ t.drop (i + j) := by
  rw [← List.drop_drop, List.take_append_drop]

/-- Every long enough string begins with an intake. -/
theorem exists_intake_prefix (bufSize : Nat) {t : List UInt8} (h : 266 + bufSize ≤ t.length) :
    ∃ x : Intake bufSize, x.bytes <+: t := by
  let m := t.getD 5 0
  let k := max 1 m.toNat
  have hm : m.toNat < 256 := m.toNat_lt
  have hk : k ≤ 255 := by omega
  let n := ofBE ((t.drop (6 + k)).take 4)
  let j := max 1 (min n.toNat bufSize)
  have hj : j ≤ 1 + bufSize := by omega
  have hcrc : ((t.drop 1).take 4).length = 4 := by
    rw [List.length_take, List.length_drop]
    omega
  have hn : ((t.drop (6 + k)).take 4).length = 4 := by
    rw [List.length_take, List.length_drop]
    omega
  refine ⟨⟨t.getD 0 0, ofBE ((t.drop 1).take 4), m, (t.drop 6).take k, n,
    (t.drop (10 + k)).take j, ?_, ?_⟩, t.drop (10 + k + j), ?_⟩
  · rw [List.length_take, List.length_drop]
    omega
  · rw [List.length_take, List.length_drop]
    omega
  · have h0 : t = t.getD 0 0 :: t.drop 1 := by
      rw [← List.getElem_eq_getD 0 (h := by omega), List.getElem_cons_drop, List.drop_zero]
    have h1 : t.drop 1 = (t.drop 1).take 4 ++ t.drop 5 := drop_eq_take_append t 1 4
    have h5 : t.drop 5 = m :: t.drop 6 := by
      rw [show m = t[5] from (List.getElem_eq_getD _).symm, List.getElem_cons_drop]
    have h6 := drop_eq_take_append t 6 k
    have hk4 : t.drop (6 + k) = (t.drop (6 + k)).take 4 ++ t.drop (10 + k) := by
      have hsplit := drop_eq_take_append t (6 + k) 4
      rwa [show 6 + k + 4 = 10 + k by omega] at hsplit
    have hend := drop_eq_take_append t (10 + k) j
    simp only [Intake.bytes, Intake.header, be32_ofBE hcrc, n, be32_ofBE hn]
    simp only [List.append_assoc, List.cons_append]
    rw [← hend, ← hk4, ← h6, ← h5, ← h1, ← h0]

/-- Every string begins with an intake or is part of one. -/
theorem exists_intake (bufSize : Nat) (s : List UInt8) :
    ∃ x : Intake bufSize, x.bytes <+: s ∨ s <+: x.bytes := by
  obtain ⟨x, hx⟩ := exists_intake_prefix bufSize
    (t := s ++ List.replicate (266 + bufSize) 0) (by simp)
  exact ⟨x, List.prefix_or_prefix_of_prefix hx (List.prefix_append _ _)⟩

/-- No proper prefix of an intake completes the reader. -/
theorem input_inside_intake (dt : CanDatagram) (x : Intake dt.dataBufferSize.toNat)
    {s : List UInt8} (hs : s <+: x.bytes) (hne : s ≠ x.bytes) :
    canDatagramIsComplete (canDatagramInput (canDatagramStart dt) s) = false := by
  obtain ⟨xs, b, hx⟩ := (List.eq_nil_or_concat' x.data).resolve_left x.data_ne_nil
  obtain ⟨q, hq⟩ : s <+: x.header ++ xs := by
    rw [Intake.bytes, hx, ← List.append_assoc, List.prefix_concat_iff] at hs
    apply hs.resolve_left
    intro heq
    exact hne (by rw [Intake.bytes, hx, ← List.append_assoc, heq])
  by_contra hcomp
  have hcomp' : canDatagramIsComplete (canDatagramInput (canDatagramStart dt) s) := by
    simpa using hcomp
  have hstay := input_of_complete hcomp' q
  rw [← input_append, hq, input_intake_dropLast dt x hx] at hstay
  rw [← hstay] at hcomp'
  simp [canDatagramIsComplete, Intake.headerRead] at hcomp'

theorem input_of_intake (dt : CanDatagram) {x : Intake dt.dataBufferSize.toNat}
    {s : List UInt8} (hs : x.bytes <+: s) :
    canDatagramInput (canDatagramStart dt) s = x.read dt := by
  obtain ⟨t, rfl⟩ := hs
  rw [input_append, input_intake, input_of_complete]
  rfl

/-- A started reader is complete if and only if its input begins with an intake. -/
theorem complete_iff (dt : CanDatagram) (s : List UInt8) :
    canDatagramIsComplete (canDatagramInput (canDatagramStart dt) s) = true ↔
      ∃ x : Intake dt.dataBufferSize.toNat, x.bytes <+: s := by
  constructor
  · intro hcomp
    obtain ⟨x, hx | hx⟩ := exists_intake dt.dataBufferSize.toNat s
    · exact ⟨x, hx⟩
    · by_cases heq : s = x.bytes
      · exact ⟨x, heq ▸ List.prefix_refl _⟩
      · rw [input_inside_intake dt x hx heq] at hcomp
        exact absurd hcomp (by decide)
  · intro ⟨x, hx⟩
    rw [input_of_intake dt hx]
    rfl

/-! ## Validity -/

/-- The bytes the CRC is computed over: of the list and of the data as many as their lengths
    announce. What does not fit the buffer is read from the memory behind it. -/
def Intake.covered (x : Intake bufSize) (mem : Store) : List UInt8 :=
  x.destinationNodesLen :: x.destinationNodes.take x.destinationNodesLen.toNat ++
    (be32 x.dataLen ++
      (x.data ++ mem.slice x.data.length (x.dataLen.toNat - x.data.length)).take x.dataLen.toNat)

/-- Version and CRC are right. -/
def Intake.Correct (x : Intake bufSize) (mem : Store) : Prop :=
  x.protocolVersion = 1 ∧ x.crc = Zlib.crc32 (x.covered mem)

theorem read_computeCrc {crc32 : CrcFn} (hcrc : CrcIsZlib crc32) (dt : CanDatagram)
    (x : Intake bufSize) :
    canDatagramComputeCrc crc32 (x.read dt) = Zlib.crc32 (x.covered dt.data) := by
  unfold canDatagramComputeCrc
  simp only [Intake.read, Intake.headerRead, Store.slice_blit_take, Nat.zero_add,
    crcIsZlib_append hcrc]
  rw [hcrc, List.take_append_of_le_length (by rw [x.destinationNodes_length]; omega)]
  simp [Intake.covered]

theorem read_valid {crc32 : CrcFn} (hcrc : CrcIsZlib crc32) (dt : CanDatagram)
    (x : Intake bufSize) :
    canDatagramIsValid crc32 (x.read dt) = true ↔ x.Correct dt.data := by
  have hversion : x.protocolVersion.toNat = canDatagramVersion ↔ x.protocolVersion = 1 := by
    rw [← UInt8.toNat_inj]
    rfl
  rw [canDatagramIsValid, read_computeCrc hcrc]
  simp only [Bool.and_eq_true, beq_iff_eq, Intake.Correct, ← hversion]
  constructor
  · intro h
    exact ⟨h.2, h.1.2.symm⟩
  · intro h
    exact ⟨⟨rfl, h.2.symm⟩, h.1⟩

/-! ## Datagrams -/

/-- The datagram with the byte `a` in place of an empty list and `b` in place of empty data. -/
def Datagram.padded (d : Datagram) (a b : UInt8) : List UInt8 :=
  1 :: be32 (Zlib.crc32 d.body) ++
    (UInt8.ofNat d.destinations.length :: (if d.destinations = [] then [a] else d.destinations) ++
      (be32 (UInt32.ofNat d.data.length) ++ (if d.data = [] then [b] else d.data)))

/-- Without an empty field nothing is padded. -/
theorem Datagram.padded_eq_wire {d : Datagram} (hd : d.destinations ≠ []) (hne : d.data ≠ [])
    (a b : UInt8) : d.padded a b = d.wire := by
  simp [Datagram.padded, Datagram.wire, Datagram.body, hd, hne]

/-- The data fits the data buffer. -/
def Datagram.Fits (d : Datagram) (dt : CanDatagram) : Prop :=
  d.data.length ≤ dt.dataBufferSize.toNat

/-- The intake of a padded datagram. -/
def Datagram.intake (d : Datagram) (a b : UInt8) (hfits : d.data.length ≤ bufSize) :
    Intake bufSize where
  protocolVersion := 1
  crc := Zlib.crc32 d.body
  destinationNodesLen := UInt8.ofNat d.destinations.length
  destinationNodes := if d.destinations = [] then [a] else d.destinations
  dataLen := UInt32.ofNat d.data.length
  data := if d.data = [] then [b] else d.data
  destinationNodes_length := by
    rw [d.destinations_toNat]
    split_ifs with h
    · simp [h]
    · have := List.length_pos_of_ne_nil h
      omega
  data_length := by
    rw [d.data_toNat]
    split_ifs with h
    · simp [h]
    · have := List.length_pos_of_ne_nil h
      omega

variable {dt : CanDatagram} {s : List UInt8}

/-- Behind a padded datagram the reader holds the datagram. -/
theorem holds_of_padded {d : Datagram} (hfits : d.Fits dt) {a b : UInt8}
    (hs : d.padded a b <+: s) :
    Holds (canDatagramInput (canDatagramStart dt) s) d := by
  have hbytes : (d.intake a b hfits).bytes = d.padded a b := by
    simp [Intake.bytes, Intake.header, Datagram.intake, Datagram.padded]
  rw [input_of_intake dt (hbytes ▸ hs)]
  refine ⟨rfl, rfl, rfl, rfl, ?_, rfl, ?_⟩
  · simp only [Intake.read, Intake.headerRead, Datagram.intake, Store.slice_blit_take]
    split_ifs with h
    · simp [h]
    · simp
  · simp only [Intake.read, Datagram.intake, Store.slice_blit_take]
    split_ifs with h
    · simp [h]
    · simp

/-- The input announces more data than the buffer holds, fills the buffer, and its CRC fits what
    is in memory behind the buffer. -/
def Overfull (dt : CanDatagram) (s : List UInt8) : Prop :=
  ∃ x : Intake dt.dataBufferSize.toNat, x.bytes <+: s ∧
    dt.dataBufferSize.toNat < x.dataLen.toNat ∧ x.Correct dt.data

theorem take_of_length_eq_max {l : List UInt8} {n : Nat} (h : l.length = max 1 n) :
    (if l.take n = [] then [l.headD 0] else l.take n) = l := by
  split_ifs with hnil
  · have hzero : n = 0 := by
      rw [List.take_eq_nil_iff] at hnil
      rcases hnil with hn | hl
      · exact hn
      · rw [hl, List.length_nil] at h
        omega
    obtain ⟨a, rfl⟩ := List.length_eq_one_iff.mp (show l.length = 1 by omega)
    rfl
  · rw [List.take_eq_nil_iff, not_or] at hnil
    exact List.take_of_length_le (by omega)

/-- A correct intake whose data fits the buffer is that of a padded datagram. -/
theorem exists_padded {x : Intake dt.dataBufferSize.toNat}
    (hfits : x.dataLen.toNat ≤ dt.dataBufferSize.toNat) (hcorrect : x.Correct dt.data) :
    ∃ (d : Datagram) (a b : UInt8), d.Fits dt ∧ d.padded a b = x.bytes := by
  have hm := x.destinationNodesLen.toNat_lt
  have hn := x.dataLen.toNat_lt
  have hids := x.destinationNodes_length
  have hdata : x.data.length = max 1 x.dataLen.toNat := by
    rw [x.data_length, min_eq_left hfits]
  have hids' : (x.destinationNodes.take x.destinationNodesLen.toNat).length =
      x.destinationNodesLen.toNat := by
    rw [List.length_take]
    omega
  have hdata' : (x.data.take x.dataLen.toNat).length = x.dataLen.toNat := by
    rw [List.length_take]
    omega
  let d : Datagram := ⟨x.destinationNodes.take x.destinationNodesLen.toNat,
    x.data.take x.dataLen.toNat, by omega, by omega⟩
  have hbody : d.body = x.covered dt.data := by
    unfold Datagram.body Intake.covered
    rw [List.take_append_of_le_length (by omega), hids', hdata', UInt8.ofNat_toNat,
      UInt32.ofNat_toNat]
  refine ⟨d, x.destinationNodes.headD 0, x.data.headD 0, hdata'.le.trans hfits, ?_⟩
  rw [Datagram.padded, take_of_length_eq_max hids, take_of_length_eq_max hdata, hbody,
    ← hcorrect.2, hids', hdata', UInt8.ofNat_toNat, UInt32.ofNat_toNat, Intake.bytes,
    Intake.header, hcorrect.1]
  simp

/-- What the reader accepts: padded datagrams that fit, and overfull ones. -/
theorem valid_iff {crc32 : CrcFn} (hcrc : CrcIsZlib crc32) :
    canDatagramIsValid crc32 (canDatagramInput (canDatagramStart dt) s) = true ↔
      (∃ (d : Datagram) (a b : UInt8), d.Fits dt ∧ d.padded a b <+: s) ∨ Overfull dt s := by
  constructor
  · intro hvalid
    have hcomp : canDatagramIsComplete (canDatagramInput (canDatagramStart dt) s) = true := by
      simp only [canDatagramIsValid, Bool.and_eq_true] at hvalid
      exact hvalid.1.1
    obtain ⟨x, hx⟩ := (complete_iff dt s).mp hcomp
    rw [input_of_intake dt hx, read_valid hcrc] at hvalid
    by_cases hfits : x.dataLen.toNat ≤ dt.dataBufferSize.toNat
    · obtain ⟨d, a, b, hd, hpad⟩ := exists_padded hfits hvalid
      exact .inl ⟨d, a, b, hd, hpad ▸ hx⟩
    · exact .inr ⟨x, hx, not_le.mp hfits, hvalid⟩
  · intro h
    rcases h with ⟨d, a, b, hd, hpad⟩ | ⟨x, hx, -, hcorrect⟩
    · exact holds_valid hcrc (holds_of_padded hd hpad)
    · rw [input_of_intake dt hx, read_valid hcrc]
      exact hcorrect

/-! ## The documented format -/

/-- The reader accepts `s` if and only if it begins with a datagram of the documented format,
    and then holds this datagram. -/
def AcceptsFormat (crc32 : CrcFn) (dt : CanDatagram) (s : List UInt8) : Prop :=
  let r := canDatagramInput (canDatagramStart dt) s
  (canDatagramIsValid crc32 r = true ↔ ∃ d : Datagram, d.Fits dt ∧ d.wire <+: s) ∧
    ∀ d : Datagram, d.Fits dt → d.wire <+: s → canDatagramIsValid crc32 r = true → Holds r d

/-- A reader holds one datagram only. -/
theorem Holds.unique {d e : Datagram} {r : CanDatagram} (hd : Holds r d) (he : Holds r e) :
    d = e := by
  have hlen : d.destinations.length = e.destinations.length := by
    rw [← d.destinations_toNat, ← e.destinations_toNat, ← hd.destinationNodesLen,
      he.destinationNodesLen]
  have hdata : d.data.length = e.data.length := by
    rw [← d.data_toNat, ← e.data_toNat, ← hd.dataLen, he.dataLen]
  cases d
  cases e
  simp only at hlen hdata
  have h1 := hd.destinationNodes
  have h2 := hd.data
  simp only [hlen, hdata] at h1 h2
  simp only [Datagram.mk.injEq]
  exact ⟨h1.symm.trans he.destinationNodes, h2.symm.trans he.data⟩

/-- The reader accepts exactly the documented format on every input that does not overfill the
    buffer, and begins with a datagram with an empty field exactly if it begins with the padded
    one. -/
theorem accepts_format_iff {crc32 : CrcFn} (hcrc : CrcIsZlib crc32) (dt : CanDatagram)
    (s : List UInt8) :
    AcceptsFormat crc32 dt s ↔
      ¬ Overfull dt s ∧ ∀ d : Datagram, d.destinations = [] ∨ d.data = [] → d.Fits dt →
        (d.wire <+: s ↔ ∃ a b, d.padded a b <+: s) := by
  have hregular : ∀ d : Datagram, ¬ (d.destinations = [] ∨ d.data = []) → ∀ a b,
      d.padded a b = d.wire := by
    intro d hd a b
    exact d.padded_eq_wire (not_or.mp hd).1 (not_or.mp hd).2 a b
  constructor
  · intro ⟨hiff, hholds⟩
    have hover : ¬ Overfull dt s := by
      intro hover
      have hvalid := (valid_iff hcrc).mpr (.inr hover)
      obtain ⟨d, hd, hwire⟩ := hiff.mp hvalid
      have hlen := (hholds d hd hwire hvalid).dataLen
      obtain ⟨x, hx, hlong, -⟩ := hover
      rw [input_of_intake dt hx] at hlen
      have hshort : x.dataLen.toNat = d.data.length := by
        rw [← d.data_toNat, ← hlen]
        rfl
      rw [Datagram.Fits] at hd
      omega
    refine ⟨hover, fun d _ hd => ⟨fun hwire => ?_, fun ⟨a, b, hpad⟩ => ?_⟩⟩
    · have hvalid := hiff.mpr ⟨d, hd, hwire⟩
      obtain ⟨e, a, b, he, hpad⟩ := ((valid_iff hcrc).mp hvalid).resolve_right hover
      have heq := (hholds d hd hwire hvalid).unique (holds_of_padded he hpad)
      exact ⟨a, b, heq ▸ hpad⟩
    · have hvalid := (valid_iff hcrc).mpr (.inl ⟨d, a, b, hd, hpad⟩)
      obtain ⟨e, he, hwire⟩ := hiff.mp hvalid
      have heq := (hholds e he hwire hvalid).unique (holds_of_padded hd hpad)
      exact heq ▸ hwire
  · intro ⟨hover, hpadded⟩
    have hwire_iff : ∀ d : Datagram, d.Fits dt →
        (d.wire <+: s ↔ ∃ a b, d.padded a b <+: s) := by
      intro d hd
      by_cases hempty : d.destinations = [] ∨ d.data = []
      · exact hpadded d hempty hd
      · constructor
        · intro hwire
          exact ⟨0, 0, hregular d hempty 0 0 ▸ hwire⟩
        · intro ⟨a, b, hpad⟩
          exact hregular d hempty a b ▸ hpad
    refine ⟨⟨fun hvalid => ?_, fun ⟨d, hd, hwire⟩ => ?_⟩, fun d hd hwire _ => ?_⟩
    · obtain ⟨d, a, b, hd, hpad⟩ := ((valid_iff hcrc).mp hvalid).resolve_right hover
      exact ⟨d, hd, (hwire_iff d hd).mpr ⟨a, b, hpad⟩⟩
    · obtain ⟨a, b, hpad⟩ := (hwire_iff d hd).mp hwire
      exact (valid_iff hcrc).mpr (.inl ⟨d, a, b, hd, hpad⟩)
    · obtain ⟨a, b, hpad⟩ := (hwire_iff d hd).mp hwire
      exact holds_of_padded hd hpad

/-- A reader with the data buffer of the Nucleo board. -/
def freshReader : CanDatagram := canDatagramSetDataBuffer canDatagramInit (fun _ => 0) 32768

/-- A ping for node 1 is accepted. -/
theorem accepts_format_iff_ping :
    AcceptsFormat (fun crc buf => Zlib.crc32 buf crc) freshReader
      [1, 87, 60, 167, 97, 1, 1, 0, 0, 0, 2, 3, 5] := by
  refine (accepts_format_iff (fun _ _ => rfl) freshReader _).mpr ⟨?_, ?_⟩
  · -- it is shorter than the buffer
    intro hover
    obtain ⟨x, hx, hlong, -⟩ := hover
    have hlen := hx.length_le
    have hdata := x.data_length
    have hsize : freshReader.dataBufferSize.toNat = 32768 := by decide
    simp only [Intake.bytes, List.length_append, List.length_cons, List.length_nil] at hlen
    omega
  · -- it has one destination and three bytes of data
    intro d hempty _
    have hneither : ∀ ids bs, (d.destinations ≠ [] → ids = d.destinations) →
        ¬ (1 :: be32 (Zlib.crc32 d.body) ++ (UInt8.ofNat d.destinations.length :: ids ++
          (be32 (UInt32.ofNat d.data.length) ++ bs)))
            <+: [1, 87, 60, 167, 97, 1, 1, 0, 0, 0, 2, 3, 5] := by
      intro ids bs hids hprefix
      simp only [be32, List.cons_append, List.nil_append, List.cons_prefix_cons] at hprefix
      obtain ⟨-, -, -, -, -, hcount, hrest⟩ := hprefix
      have hone : d.destinations.length = 1 := by
        rw [← d.destinations_toNat, hcount]
        rfl
      have hne : d.destinations ≠ [] := List.ne_nil_of_length_pos (by omega)
      obtain ⟨c, hc⟩ := List.length_eq_one_iff.mp hone
      rw [hids hne, hc, hempty.resolve_left hne] at hrest
      simp [List.cons_prefix_cons] at hrest
    refine iff_of_false (fun hwire => ?_) (fun hpadded => ?_)
    · refine hneither d.destinations d.data (fun _ => rfl) ?_
      simpa [Datagram.wire, Datagram.body] using hwire
    · obtain ⟨a, b, hpad⟩ := hpadded
      exact hneither _ _ (fun hne => if_neg hne) hpad

/-- A datagram for node 1 without data. -/
def emptyDatagram : Datagram := ⟨[1], [], by decide, by decide⟩

/-- It is never accepted: the reader waits for a byte of data. -/
theorem rejects_empty_datagram :
    ¬ AcceptsFormat (fun crc buf => Zlib.crc32 buf crc) freshReader emptyDatagram.wire := by
  intro ⟨hiff, _⟩
  have hvalid := hiff.mpr ⟨emptyDatagram, Nat.zero_le _, List.prefix_refl _⟩
  exact absurd hvalid (by decide +kernel)

end CanBootloader
