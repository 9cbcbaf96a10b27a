/-
  client/can/adapters/slcan.py: frames as lines of text, and the thread that reads them.

  The thread turns each result of `port.read(1)` into the frames it puts into `rx_queue`. Its
  only state between two of them is `part`, the line read so far. An exception that is not
  caught ends it.

  * `decodeFrame_encodeFrame`: a frame that is encoded is decoded to itself.
  * `spin_round_trip`: encoded frames are queued in order, whatever other lines the adapter sends.
-/
import CanBootloader.Client.Datagram
import CanBootloader.Lib.PyText

namespace CanBootloader

open Lib

/-! ## Frames as text -/

/-- The exceptions that end the thread. -/
inductive SlcanError where
  | unicodeDecodeError
  | valueError
  deriving DecidableEq, Repr

/-- A frame as `decode_frame` makes it. It is no transmission request. `int` reads a sign too, so
    the ID is an integer. -/
structure SlcanFrame where
  id : Int
  data : List UInt8
  extended : Bool
  dataLength : Nat
  deriving DecidableEq, Repr

/-- `MIN_MSG_LEN`. -/
def minMsgLen : Nat := "t1230".length

/-- `msg[i:i + 2] for i in range(0, 2 * n, 2)`. -/
def bytePairs : Nat → List Char → List (List Char)
  | 0, _ => []
  | n + 1, msg => msg.take 2 :: bytePairs n (msg.drop 2)

/-- `bytearray(values)`: it raises on a value that is no byte. -/
def toByteArray (values : List Int) : Except SlcanError (List UInt8) :=
  if ∀ v ∈ values, 0 ≤ v ∧ v < 256 then .ok (values.map fun v => UInt8.ofNat v.toNat)
  else .error .valueError

/-- `decode_frame` behind the command letter. -/
def decodeFields (extended : Bool) (msg : List Char) : Except SlcanError (Option SlcanFrame) :=
  let idLen := if extended then 8 else 3
  if msg.length < idLen + 1 then .ok none
  else
    match pyInt 16 (msg.take idLen) with
    | none => .ok none
    | some canId =>
        let msg := msg.drop idLen
        match pyInt 10 (msg.take 1) with
        | none => .ok none
        | some dataLen =>
            -- a single character is no negative number
            let dataLen := dataLen.toNat
            let msg := msg.drop 1
            if msg.length < 2 * dataLen then .ok none
            else
              match (bytePairs dataLen msg).mapM (pyInt 16) with
              | none => .ok none
              | some values => do
                  -- `can.Frame` keeps 8 bytes
                  let data ← toByteArray values
                  return some ⟨canId, data.take 8, extended, dataLen⟩

def decodeFrame (msg : List Char) : Except SlcanError (Option SlcanFrame) :=
  if msg.length < minMsgLen then .ok none
  else
    match msg with
    | 'T' :: msg => decodeFields true msg
    | 't' :: msg => decodeFields false msg
    | _ => .ok none

def encodeFrame (frame : Frame) : List Char :=
  let cmd := if frame.extended then 'T' else 't'
  let canId := hexField (if frame.extended then 8 else 3) frame.id
  let length := hexField 0 frame.dataLength
  let data := frame.data.flatMap fun b => hexField 2 b.toNat
  cmd :: (canId ++ length ++ data)

/-! ## The thread -/

/-- `bytes.decode('ascii')`. -/
def decodeAscii (bs : List UInt8) : Except SlcanError (List Char) :=
  if bs.all (· < 128) then .ok (bs.map fun b => Char.ofNat b.toNat)
  else .error .unicodeDecodeError

/-- The frames of complete lines, up to the first that raises. -/
def decodeLines : List (List Char) → List SlcanFrame × Except SlcanError Unit
  | [] => ([], .ok ())
  | line :: lines =>
      match decodeFrame line with
      | .error e => ([], .error e)
      | .ok frame =>
          let (frames, r) := decodeLines lines
          (frame.toList ++ frames, r)

/-- One round of the loop of `spin`, on one result of `port.read(1)`: what is put into `rx_queue`,
    and `part` behind it. A `SerialException` is an empty read. -/
def spinStep (part : List Char) (read : List UInt8) :
    List SlcanFrame × Except SlcanError (List Char) :=
  match decodeAscii read with
  | .error e => ([], .error e)
  | .ok text =>
      let part := part ++ text
      -- `part.lstrip` returns a new string that nobody keeps
      if '\r' ∉ part then ([], .ok part)
      else
        let data := part.splitOn '\r'
        let (frames, r) := decodeLines data.dropLast
        (frames, r.map fun _ => data.getLastD [])

/-- `spin`: everything put into `rx_queue`, and `part` at the end or the exception that ended the
    thread. -/
def spin (part : List Char) : List (List UInt8) → List SlcanFrame × Except SlcanError (List Char)
  | [] => ([], .ok part)
  | read :: reads =>
      match spinStep part read with
      | (frames, .error e) => (frames, .error e)
      | (frames, .ok part) =>
          let (more, r) := spin part reads
          (frames ++ more, r)

/-! ## Decoding what was encoded -/

/-- The frame as the other side receives it. -/
def Frame.received (f : Frame) : SlcanFrame := ⟨f.id, f.data, f.extended, f.dataLength⟩

/-- A frame of the bus: an ID of 11 or 29 bits, and up to 8 bytes, all of them announced. -/
structure Frame.Sendable (f : Frame) : Prop where
  id_lt : f.id < if f.extended then 2 ^ 29 else 2 ^ 11
  data_le : f.data.length ≤ 8
  dataLength_eq : f.dataLength = f.data.length

/-- The field of a byte. -/
def byteField (b : UInt8) : List Char := hexField 2 b.toNat

theorem byteField_length (b : UInt8) : (byteField b).length = 2 :=
  hexField_length (by decide) b.toNat_lt

theorem bytePairs_byteFields (bs : List UInt8) :
    bytePairs bs.length (bs.flatMap byteField) = bs.map byteField := by
  induction bs with
  | nil => rfl
  | cons b bs ih =>
      have hlen := byteField_length b
      rw [List.length_cons, bytePairs, List.flatMap_cons, List.take_left' hlen,
        List.drop_left' hlen, ih, List.map_cons]

theorem byteFields_length (bs : List UInt8) : (bs.flatMap byteField).length = 2 * bs.length := by
  induction bs with
  | nil => rfl
  | cons b bs ih =>
      rw [List.flatMap_cons, List.length_append, byteField_length, ih, List.length_cons]
      omega

theorem mapM_byteFields (bs : List UInt8) :
    (bs.map byteField).mapM (pyInt 16) = some (bs.map fun b => (b.toNat : Int)) := by
  induction bs with
  | nil => rfl
  | cons b bs ih =>
      rw [List.map_cons, List.mapM_cons, ih, byteField, pyInt_hexField]
      rfl

theorem toByteArray_bytes (bs : List UInt8) :
    toByteArray (bs.map fun b => (b.toNat : Int)) = .ok bs := by
  have hbytes : ∀ v ∈ bs.map fun b => (b.toNat : Int), 0 ≤ v ∧ v < 256 := by
    intro v hv
    obtain ⟨b, -, rfl⟩ := List.mem_map.mp hv
    have := b.toNat_lt
    omega
  rw [toByteArray, if_pos hbytes, List.map_map]
  congr 1
  exact List.map_id'' (fun b => by simp) bs

theorem idField_length {extended : Bool} {id : Nat}
    (hid : id < 16 ^ (if extended then 8 else 3)) :
    (hexField (if extended then 8 else 3) id).length = if extended then 8 else 3 := by
  have hpos : 0 < if extended then 8 else 3 := by split_ifs <;> decide
  exact hexField_length hpos hid

/-- The fields behind the command letter, one after the other. -/
theorem decodeFields_fields (extended : Bool) {id : Nat}
    (hid : id < 16 ^ (if extended then 8 else 3)) {bs : List UInt8} (hlen : bs.length ≤ 8) :
    decodeFields extended (hexField (if extended then 8 else 3) id ++
        (hexField 0 bs.length ++ bs.flatMap byteField)) =
      .ok (some ⟨id, bs, extended, bs.length⟩) := by
  have hidLen := idField_length hid
  have hdigit : hexField 0 bs.length = [Nat.digitChar bs.length] := by
    rw [hexField_zero, Nat.toDigits_of_lt_base (by omega)]
  have hlength : pyInt 10 [Nat.digitChar bs.length] = some (bs.length : Int) :=
    pyInt_digit bs.length (by omega)
  have hfits : ¬ (bs.flatMap byteField).length < 2 * bs.length := by
    rw [byteFields_length]
    omega
  rw [hdigit, List.singleton_append]
  unfold decodeFields
  simp only [List.length_append, List.length_cons, hidLen, List.take_left' hidLen,
    List.drop_left' hidLen, pyInt_hexField, List.take_succ_cons, List.take_zero, hlength,
    List.drop_succ_cons, List.drop_zero, Int.toNat_natCast, hfits, if_false,
    bytePairs_byteFields, mapM_byteFields, toByteArray_bytes]
  rw [if_neg (by omega)]
  simp only [bind, Except.bind, pure, Except.pure, List.take_of_length_le hlen]

/-- A frame of the bus is decoded to itself. -/
theorem decodeFrame_encodeFrame {f : Frame} (h : f.Sendable) :
    decodeFrame (encodeFrame f) = .ok (some f.received) := by
  have hid : f.id < 16 ^ (if f.extended then 8 else 3) := by
    have hlt := h.id_lt
    split_ifs at hlt ⊢
    · omega
    · omega
  have hfields := decodeFields_fields f.extended hid h.data_le
  have hidLen := idField_length hid
  have hlong : ¬ (encodeFrame f).length < minMsgLen := by
    have hdigits : 0 < (hexField 0 f.dataLength).length := by
      rw [hexField_zero]
      exact Nat.length_toDigits_pos
    have hthree : 3 ≤ if f.extended then 8 else 3 := by split_ifs <;> decide
    have hmin : minMsgLen = 5 := rfl
    simp only [encodeFrame, List.length_cons, List.length_append, hidLen]
    omega
  have hline : encodeFrame f = (if f.extended then 'T' else 't') ::
      (hexField (if f.extended then 8 else 3) f.id ++
        (hexField 0 f.data.length ++ f.data.flatMap byteField)) := by
    rw [← List.append_assoc, ← h.dataLength_eq]
    rfl
  unfold decodeFrame
  rw [if_neg hlong, hline, Frame.received, h.dataLength_eq]
  cases hext : f.extended with
  | true =>
      rw [hext] at hfields
      exact hfields
  | false =>
      rw [hext] at hfields
      exact hfields

/-- A line that is no frame for its first letter. -/
theorem decodeFrame_other {line : List Char} (hT : line.head? ≠ some 'T')
    (ht : line.head? ≠ some 't') : decodeFrame line = .ok none := by
  unfold decodeFrame
  split_ifs
  · rfl
  · split
    · exact absurd rfl hT
    · exact absurd rfl ht
    · rfl

/-! ## Reading lines -/

/-- A character that is read as it is and does not end a line. -/
def LineChar (c : Char) : Prop := c.toNat < 128 ∧ c ≠ '\r'

instance (c : Char) : Decidable (LineChar c) := inferInstanceAs (Decidable (_ ∧ _))

/-- Text as the port delivers it. -/
def asciiBytes (text : List Char) : List UInt8 := text.map fun c => UInt8.ofNat c.toNat

theorem decodeAscii_char {c : Char} (hc : c.toNat < 128) :
    decodeAscii [UInt8.ofNat c.toNat] = .ok [c] := by
  have hbyte : (UInt8.ofNat c.toNat).toNat = c.toNat :=
    UInt8.toNat_ofNat_of_lt' (show c.toNat < 2 ^ 8 by omega)
  have hlt : UInt8.ofNat c.toNat < 128 := by
    rw [UInt8.lt_iff_toNat_lt, hbyte]
    exact hc
  have hall : [UInt8.ofNat c.toNat].all (· < 128) = true := by simpa using hlt
  rw [decodeAscii, if_pos hall, List.map_singleton, hbyte, Char.ofNat_toNat]

/-- An empty read. -/
theorem spinStep_nil {part : List Char} (hpart : '\r' ∉ part) :
    spinStep part [] = ([], .ok part) := by
  have htext : decodeAscii [] = .ok [] := rfl
  simp only [spinStep, htext, List.append_nil, if_pos hpart]

theorem LineChar.notMem_append {part : List Char} (hpart : '\r' ∉ part) {c : Char}
    (hc : LineChar c) : '\r' ∉ part ++ [c] := by
  simp only [List.mem_append, List.mem_singleton, not_or]
  exact ⟨hpart, fun h => hc.2 h.symm⟩

/-- A character of a line. -/
theorem spinStep_char {part : List Char} (hpart : '\r' ∉ part) {c : Char} (hc : LineChar c) :
    spinStep part [UInt8.ofNat c.toNat] = ([], .ok (part ++ [c])) := by
  simp only [spinStep, decodeAscii_char hc.1, if_pos (hc.notMem_append hpart)]

/-- The end of a line. -/
theorem spinStep_return {part : List Char} (hpart : '\r' ∉ part) {frame : Option SlcanFrame}
    (hframe : decodeFrame part = .ok frame) :
    spinStep part [UInt8.ofNat '\r'.toNat] = (frame.toList, .ok []) := by
  have htext : decodeAscii [UInt8.ofNat '\r'.toNat] = .ok ['\r'] := rfl
  have hmem : ¬ '\r' ∉ part ++ ['\r'] := by simp
  have hsplit : (part ++ ['\r']).splitOn '\r' = [part, []] := by
    rw [List.splitOn_append_cons_self, List.splitOn_eq_singleton hpart, List.splitOn_nil]
    rfl
  simp only [spinStep, htext, if_neg hmem, hsplit]
  simp [decodeLines, hframe, Except.map]

/-- Reads of at most one character each, which together are this text. -/
structure ReadsOf (text : List Char) (reads : List (List UInt8)) : Prop where
  single : ∀ read ∈ reads, read.length ≤ 1
  flatten : reads.flatten = asciiBytes text

/-- Nothing more to read. -/
theorem spin_idle {reads : List (List UInt8)} : ∀ {part : List Char}, '\r' ∉ part →
    ReadsOf [] reads → spin part reads = ([], .ok part) := by
  induction reads with
  | nil => intro part _ _; rfl
  | cons read reads ih =>
      intro part hpart hreads
      have hflat : read = [] ∧ reads.flatten = [] := List.append_eq_nil_iff.mp hreads.flatten
      have hrest := ih hpart ⟨fun r hr => hreads.single r (List.mem_cons_of_mem _ hr), hflat.2⟩
      rw [hflat.1, spin, spinStep_nil hpart]
      simp only [hrest, List.nil_append]

/-- Reading a line to its end. Induction on the reads: each brings nothing or the next
    character. -/
theorem spin_line {frame : Option SlcanFrame} {rest : List Char} {reads : List (List UInt8)} :
    ∀ {part line : List Char}, '\r' ∉ part → (∀ c ∈ line, LineChar c) →
      decodeFrame (part ++ line) = .ok frame → ReadsOf (line ++ '\r' :: rest) reads →
      ∃ reads', ReadsOf rest reads' ∧
        spin part reads = (frame.toList ++ (spin [] reads').1, (spin [] reads').2) := by
  induction reads with
  | nil =>
      intro part line _ _ _ hreads
      have hnil := hreads.flatten
      simp [asciiBytes] at hnil
  | cons read reads ih =>
      intro part line hpart hline hframe hreads
      have hsingle : ∀ r ∈ reads, r.length ≤ 1 :=
        fun r hr => hreads.single r (List.mem_cons_of_mem _ hr)
      have hflat := hreads.flatten
      rw [List.flatten_cons] at hflat
      match read, hreads.single read List.mem_cons_self with
      | [], _ =>
          obtain ⟨reads', hreads', hspin⟩ := ih hpart hline hframe ⟨hsingle, hflat⟩
          refine ⟨reads', hreads', ?_⟩
          rw [spin, spinStep_nil hpart]
          simp only [hspin, List.nil_append]
      | [b], _ =>
          cases line with
          | nil =>
              simp only [asciiBytes, List.nil_append, List.map_cons, List.cons_append,
                List.cons.injEq] at hflat
              rw [List.append_nil] at hframe
              refine ⟨reads, ⟨hsingle, hflat.2⟩, ?_⟩
              rw [hflat.1, spin, spinStep_return hpart hframe]
          | cons c line =>
              simp only [asciiBytes, List.cons_append, List.nil_append, List.map_cons,
                List.cons.injEq] at hflat
              obtain ⟨hc, hline⟩ := List.forall_mem_cons.mp hline
              have hframe' : decodeFrame ((part ++ [c]) ++ line) = .ok frame := by
                rw [List.append_assoc]
                exact hframe
              obtain ⟨reads', hreads', hspin⟩ :=
                ih (hc.notMem_append hpart) hline hframe' ⟨hsingle, hflat.2⟩
              refine ⟨reads', hreads', ?_⟩
              rw [hflat.1, spin, spinStep_char hpart hc]
              simp only [hspin, List.nil_append]
      | _ :: _ :: _, hlong => simp at hlong

theorem lineChar_of_hex {c : Char} (h : IsHexChar c) : LineChar c := by
  obtain ⟨d, hd, rfl⟩ := h
  interval_cases d <;> decide

/-- An encoded frame has no carriage return in it. -/
theorem lineChar_encodeFrame (f : Frame) : ∀ c ∈ encodeFrame f, LineChar c := by
  intro c hc
  rcases List.mem_cons.mp hc with rfl | hc
  · split_ifs <;> decide
  · rw [List.mem_append, List.mem_append, List.mem_flatMap] at hc
    rcases hc with (hc | hc) | ⟨b, -, hc⟩
    · exact lineChar_of_hex (isHexChar_hexField _ _ c hc)
    · exact lineChar_of_hex (isHexChar_hexField _ _ c hc)
    · exact lineChar_of_hex (isHexChar_hexField _ _ c hc)

/-! ## The result -/

/-- What the adapter sends: frames, and lines that begin with neither `t` nor `T`, each with a
    carriage return at its end. -/
inductive SlcanStream : List Frame → List Char → Prop
  | done : SlcanStream [] []
  | frame {f : Frame} {fs : List Frame} {text : List Char} (hf : f.Sendable)
      (h : SlcanStream fs text) : SlcanStream (f :: fs) (encodeFrame f ++ '\r' :: text)
  | line {fs : List Frame} {text line : List Char} (hline : ∀ c ∈ line, LineChar c)
      (hT : line.head? ≠ some 'T') (ht : line.head? ≠ some 't') (h : SlcanStream fs text) :
      SlcanStream fs (line ++ '\r' :: text)

/-- The frames of the stream are queued in order, and nothing else is. -/
theorem spin_round_trip {fs : List Frame} {text : List Char} {reads : List (List UInt8)}
    (h : SlcanStream fs text) (hreads : ReadsOf text reads) :
    spin [] reads = (fs.map Frame.received, .ok []) := by
  induction h generalizing reads with
  | done => exact spin_idle List.not_mem_nil hreads
  | @frame f fs text hf _ ih =>
      obtain ⟨reads', hreads', hspin⟩ : ∃ reads', ReadsOf text reads' ∧ spin [] reads = _ :=
        spin_line List.not_mem_nil (lineChar_encodeFrame f) (decodeFrame_encodeFrame hf) hreads
      rw [hspin, ih hreads']
      rfl
  | @line fs text line hline hT ht _ ih =>
      obtain ⟨reads', hreads', hspin⟩ : ∃ reads', ReadsOf text reads' ∧ spin [] reads = _ :=
        spin_line List.not_mem_nil hline (decodeFrame_other hT ht) hreads
      rw [hspin, ih hreads']
      rfl

/-- A standard frame with two bytes of data. -/
def slcanExample : Frame := .init 0x81 (some [0xAB, 1])

/-- An empty line, the frame, and a line `z`. -/
theorem slcanExample_stream : SlcanStream [slcanExample]
    ([] ++ '\r' :: (encodeFrame slcanExample ++ '\r' :: (['z'] ++ '\r' :: []))) :=
  .line (by simp) (by simp) (by simp)
    (.frame ⟨by decide, by decide, rfl⟩
      (.line (List.forall_mem_singleton.mpr (by decide)) (by decide) (by decide) .done))

/-- The port times out once in between. -/
theorem spin_round_trip_example :
    spin [] [[13], [116], [48], [56], [], [49], [50], [97], [98], [48], [49], [13], [122], [13]] =
      ([slcanExample.received], .ok []) :=
  spin_round_trip slcanExample_stream ⟨by decide, by decide⟩

end CanBootloader
