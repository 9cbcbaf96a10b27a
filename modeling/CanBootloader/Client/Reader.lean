/-
  client/cvra_bootloader/utils.py, `read_can_datagrams`: the generator that reassembles
  datagrams from the frames of all nodes.

  The generator is a machine that turns each result of `receive_frame` into at most one
  yield. Its only state between two of them is `buf`, the `defaultdict` of bytes received so
  far for each source. An exception out of `decode_datagram` ends the generator.
-/
import CanBootloader.Client.Datagram

namespace CanBootloader

/-- `buf`: the keys present, with their bytes. -/
abbrev ReaderBuf := Nat → Option (List UInt8)

/-- What `read_can_datagrams` yields: `None`, or `data, dst, src`. -/
inductive Yield where
  | timeout
  | datagram (data dst : List UInt8) (src : Nat)
  deriving DecidableEq, Repr

/-- One round of the inner loop, on one result of `receive_frame`. `ids` is `[]` for `None`. -/
def readerStep (ids : List Nat) (buf : ReaderBuf) (rx : Option Frame) :
    Except PyError (ReaderBuf × Option Yield) :=
  match rx with
  | none => .ok (buf, some .timeout)
  | some frame =>
      if frame.extended then .ok (buf, none)
      else
        let src := frame.id &&& 0x7f
        if ids ≠ [] ∧ src ∉ ids then .ok (buf, none)
        else
          -- the start bit drops what the source sent before
          let buf := if (buf src).isSome ∧ frame.id &&& 0x080 > 0 then
            Function.update buf src none else buf
          let bytes := (buf src).getD [] ++ frame.data.take frame.dataLength
          match decodeDatagram bytes with
          | .error e => .error e
          | .ok none => .ok (Function.update buf src (some bytes), none)
          | .ok (some (data, dst)) =>
              .ok (Function.update buf src none, some (.datagram data dst src))

/-- `read_can_datagrams`: what is yielded at each result of `receive_frame`, and the state
    after the last of them or the exception that ended the generator. -/
def readCanDatagrams (ids : List Nat) (buf : ReaderBuf) :
    List (Option Frame) → List (Option Yield) × Except PyError ReaderBuf
  | [] => ([], .ok buf)
  | rx :: rest =>
      match readerStep ids buf rx with
      | .error e => ([], .error e)
      | .ok (buf, y) =>
          let (ys, r) := readCanDatagrams ids buf rest
          (y :: ys, r)

/-! ## One frame -/

/-- The reader passes over the frame. -/
def Filtered (ids : List Nat) (f : Frame) : Prop :=
  f.extended = true ∨ ids ≠ [] ∧ f.id &&& 0x7f ∉ ids

instance (ids : List Nat) (f : Frame) : Decidable (Filtered ids f) :=
  inferInstanceAs (Decidable (_ ∨ _ ∧ _))

/-- The bytes that the bytes of a frame are appended to. -/
def bytesBehind (buf : ReaderBuf) (f : Frame) : List UInt8 :=
  if f.id &&& 0x080 > 0 then [] else (buf (f.id &&& 0x7f)).getD []

/-- What the reader makes of the bytes of a source. -/
def decodeStep (buf : ReaderBuf) (src : Nat) (bytes : List UInt8) :
    Except PyError (ReaderBuf × Option Yield) :=
  match decodeDatagram bytes with
  | .error e => .error e
  | .ok none => .ok (Function.update buf src (some bytes), none)
  | .ok (some (data, dst)) => .ok (Function.update buf src none, some (.datagram data dst src))

theorem bytesBehind_cases (buf : ReaderBuf) (f : Frame) :
    bytesBehind buf f = [] ∨ bytesBehind buf f = (buf (f.id &&& 0x7f)).getD [] := by
  unfold bytesBehind
  split_ifs
  · exact .inl rfl
  · exact .inr rfl

theorem readerStep_filtered {ids : List Nat} {f : Frame} (h : Filtered ids f) (buf : ReaderBuf) :
    readerStep ids buf (some f) = .ok (buf, none) := by
  rcases h with h | h
  · simp [readerStep, h]
  · simp only [readerStep, if_pos h, ite_self]

/-- Any other frame: what is there of its source and its own bytes are decoded. -/
theorem readerStep_passing {ids : List Nat} {f : Frame} (h : ¬ Filtered ids f) (buf : ReaderBuf) :
    readerStep ids buf (some f) =
      decodeStep buf (f.id &&& 0x7f) (bytesBehind buf f ++ f.data.take f.dataLength) := by
  obtain ⟨hextended, hids⟩ := not_or.mp h
  simp only [readerStep, if_neg hextended, if_neg hids]
  have hbytes : ((if (buf (f.id &&& 0x7f)).isSome ∧ f.id &&& 0x080 > 0 then
      Function.update buf (f.id &&& 0x7f) none else buf) (f.id &&& 0x7f)).getD [] =
        bytesBehind buf f := by
    unfold bytesBehind
    by_cases hstart : f.id &&& 0x080 > 0
    · cases hbuf : buf (f.id &&& 0x7f) with
      | none => simp [hstart, hbuf]
      | some c => simp [hstart]
    · simp [hstart]
  have hupdate : ∀ v, Function.update (if (buf (f.id &&& 0x7f)).isSome ∧ f.id &&& 0x080 > 0 then
      Function.update buf (f.id &&& 0x7f) none else buf) (f.id &&& 0x7f) v =
        Function.update buf (f.id &&& 0x7f) v := by
    intro v
    split_ifs
    · exact Function.update_idem _ _ _
    · rfl
  rw [hbytes, decodeStep]
  rcases decodeDatagram (bytesBehind buf f ++ f.data.take f.dataLength) with e | (_ | ⟨data, dst⟩)
  · simp only
  · simp only [hupdate]
  · simp only [hupdate]

end CanBootloader
