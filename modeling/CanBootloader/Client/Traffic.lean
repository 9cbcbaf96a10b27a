/-
  client/can/adapters/socketcan.py, and what other traffic on the bus does to the reader.

  Neither adapter nor reader looks at the bits above the source ID. So a frame of another
  protocol is taken for a bootloader frame unless the ID filter excludes the source that its low
  bits spell, and then there is a stream that it disturbs (`foreign_harmless_iff`): put into a
  datagram of that source it takes the datagram's length away from it, and if it has no data it
  ends the reader.
-/
import CanBootloader.Client.Robustness

namespace CanBootloader

open Lib

/-! ## Frames of other protocols -/

/-- A `struct can_frame` from the kernel, unpacked. -/
structure KernelFrame where
  canId : UInt32
  canDlc : UInt8
  data : List UInt8
  data_length : data.length = 8

/-- `CAN_EFF_FLAG` of the kernel: the frame is an extended one. -/
def canEffFlag : UInt32 := 0x80000000

/-- The frame that `SocketCANInterface.loop` puts into its queue. -/
def SocketCANInterface.loop (k : KernelFrame) : Frame :=
  Frame.init k.canId.toNat (some (k.data.take k.canDlc.toNat))

/-- Frames that are not bootloader frames: standard ones with a reserved bit set, and extended
    ones from the kernel. -/
inductive NonBootloader : Frame → Prop
  | standard (id : Nat) (data : List UInt8) (hid : id < 2 ^ 11) (hbits : id &&& 0x700 ≠ 0)
      (hdata : data.length ≤ 8) : NonBootloader (Frame.init id (some data))
  | extended (k : KernelFrame) (hflag : k.canId &&& canEffFlag ≠ 0) :
      NonBootloader (SocketCANInterface.loop k)

theorem NonBootloader.dataLength {f : Frame} (h : NonBootloader f) :
    f.dataLength = f.data.length ∧ f.data.length ≤ 8 := by
  cases h with
  | standard id data _ _ hdata =>
      rw [Frame.init_of_le id hdata]
      exact ⟨rfl, hdata⟩
  | extended k _ =>
      have hdata : (k.data.take k.canDlc.toNat).length ≤ 8 := by
        rw [List.length_take, k.data_length]
        omega
      rw [SocketCANInterface.loop, Frame.init_of_le _ hdata]
      exact ⟨rfl, hdata⟩

/-! ## Datagrams of a stream -/

def Yield.datagram? : Yield → Option (List UInt8 × List UInt8 × Nat)
  | .timeout => none
  | .datagram data dst src => some (data, dst, src)

/-- The datagrams that a fresh reader yields on a stream. -/
def datagramsRead (ids : List Nat) (stream : List (Option Frame)) :
    List (List UInt8 × List UInt8 × Nat) :=
  (readCanDatagrams ids (fun _ => none) stream).1.filterMap fun y => y.bind Yield.datagram?

/-- Filtered frames make no difference. -/
theorem datagrams_of_inserts {ids : List Nat} {P : Option Frame → Prop}
    (hP : ∀ rx, P rx → ∃ f, rx = some f ∧ Filtered ids f) {xs ys : List (Option Frame)}
    (h : Inserts P xs ys) : ∀ buf,
      (readCanDatagrams ids buf ys).1.filterMap (fun y => y.bind Yield.datagram?) =
        (readCanDatagrams ids buf xs).1.filterMap fun y => y.bind Yield.datagram? := by
  induction h with
  | nil =>
      intro buf
      rfl
  | keep rx h ih =>
      intro buf
      rw [readCanDatagrams, readCanDatagrams]
      cases readerStep ids buf rx with
      | error e => rfl
      | ok r => simp only [List.filterMap_cons, ih r.1]
  | insert hx h ih =>
      intro buf
      obtain ⟨f, rfl, hf⟩ := hP _ hx
      rw [readCanDatagrams, readerStep_filtered hf]
      simp only [List.filterMap_cons, Option.bind_none, ih buf]

/-! ## A disturbed datagram -/

/-- A frame that is not filtered is added to the bytes of its source; a datagram that comes of
    it takes them all. -/
theorem readerStep_added {ids : List Nat} {f : Frame} (hf : ¬ Filtered ids f) (buf : ReaderBuf)
    (hne : bytesBehind buf f ++ f.data.take f.dataLength ≠ []) :
    (∃ buf', readerStep ids buf (some f) = .ok (buf', none) ∧
      buf' (f.id &&& 0x7f) = some (bytesBehind buf f ++ f.data.take f.dataLength)) ∨
    ∃ buf' data dst, readerStep ids buf (some f) =
        .ok (buf', some (.datagram data dst (f.id &&& 0x7f))) ∧ buf' (f.id &&& 0x7f) = none ∧
      (bytesBehind buf f ++ f.data.take f.dataLength).length = 10 + dst.length + data.length := by
  rw [readerStep_passing hf, decodeStep]
  rcases decodeDatagram_cases hne with h | ⟨dst, data, h, hlen⟩
  · rw [h]
    exact .inl ⟨_, rfl, Function.update_self ..⟩
  · rw [h]
    exact .inr ⟨_, data, dst, rfl, Function.update_self .., hlen⟩

/-- A datagram whose frames can be told apart by length: `n` bytes of data, no destination. -/
def probe (n : Nat) (h : n < 2 ^ 32) : Datagram where
  destinations := []
  data := List.replicate n 0
  destinations_le := by simp
  data_lt := by simpa using h

/-- The datagram in three frames, and what the reader holds behind the first two of them. -/
theorem readCanDatagrams_two {ids : List Nat} {source : Source}
    (hids : ids = [] ∨ source.val ∈ ids) {d : Datagram} (hmin : 16 < d.wire.length)
    (hmax : d.wire.length ≤ 24) :
    ∃ f1 f2 f3, datagramToFrames d.wire source = [f1, f2, f3] ∧ ¬ Filtered ids f3 ∧
      f3 = ⟨0 + source, d.wire.drop 16, false, false, (d.wire.drop 16).length⟩ ∧
      ∃ buf, readCanDatagrams ids (fun _ => none) [some f1, some f2] = ([none, none], .ok buf) ∧
        buf source = some (d.wire.take 16) := by
  have hdrop8 : (d.wire.drop 8).length = d.wire.length - 8 := List.length_drop
  have hdrop16 : (d.wire.drop 8).drop 8 = d.wire.drop 16 := by rw [List.drop_drop]
  have hlast : (d.wire.drop 16).length ≤ 8 := by
    rw [List.length_drop]
    omega
  have hframes : datagramToFrames d.wire source =
      [⟨0x80 + source, d.wire.take 8, false, false, 8⟩,
       ⟨0 + source, (d.wire.drop 8).take 8, false, false, 8⟩,
       ⟨0 + source, d.wire.drop 16, false, false, (d.wire.drop 16).length⟩] := by
    rw [datagramToFrames, datagramToFramesFrom_more _ _ (by omega),
      datagramToFramesFrom_more _ _ (by omega), hdrop16, datagramToFramesFrom_last _ _ hlast]
    rfl
  have hpass := datagramToFramesFrom_passing hids startOfDatagramMask d.wire (.inr rfl)
  rw [← datagramToFrames, hframes] at hpass
  have hfirst := (readerStep_frame d 0x80 (.inr rfl) (fun _ => none) source (w := d.wire)
    (by simp [base])).1 (by omega)
  have hsecond := (readerStep_frame d 0 (.inl rfl) (Function.update (fun _ => none) source.val
    (some (d.wire.take 8))) source (w := d.wire.drop 8) (by simp [base])).1 (by omega)
  generalize (⟨0x80 + source, d.wire.take 8, false, false, 8⟩ : Frame) = f1
    at hframes hpass hfirst
  generalize (⟨0 + source, (d.wire.drop 8).take 8, false, false, 8⟩ : Frame) = f2
    at hframes hpass hsecond
  refine ⟨f1, f2, _, hframes, hpass _ (by simp), rfl, ?_⟩
  have hboth : ∀ f ∈ [f1, f2], ¬ Filtered ids f := by
    intro f hf
    refine hpass f ?_
    simp only [List.mem_cons, List.not_mem_nil, or_false] at hf ⊢
    exact hf.imp_right .inl
  have htwo := readCanDatagrams_passing hboth fun _ => none
  simp only [List.map_cons, List.map_nil] at htwo
  rw [htwo, readCanDatagrams, hfirst]
  simp only [base, if_true, List.nil_append]
  rw [readCanDatagrams, hsecond]
  refine ⟨_, rfl, ?_⟩
  simp [base, ← List.take_add]

/-- A datagram of this length is yielded only when that many bytes are decoded. -/
theorem readerStep_other {ids : List Nat} {f : Frame} (hf : ¬ Filtered ids f) (buf : ReaderBuf)
    (hne : bytesBehind buf f ++ f.data.take f.dataLength ≠ []) {d : Datagram}
    (hlen : (bytesBehind buf f ++ f.data.take f.dataLength).length ≠ d.wire.length) :
    ∃ buf' y, readerStep ids buf (some f) = .ok (buf', y) ∧
      y.bind Yield.datagram? ≠ some (d.data, d.destinations, f.id &&& 0x7f) ∧
      (buf' (f.id &&& 0x7f) = none ∨
        buf' (f.id &&& 0x7f) = some (bytesBehind buf f ++ f.data.take f.dataLength)) := by
  rcases readerStep_added hf buf hne with ⟨buf', hstep, hbuf⟩ | ⟨buf', data, dst, hstep, hbuf, h⟩
  · exact ⟨buf', none, hstep, by simp, .inr hbuf⟩
  · refine ⟨buf', _, hstep, ?_, .inl hbuf⟩
    intro heq
    obtain ⟨rfl, rfl⟩ : data = d.data ∧ dst = d.destinations := by
      simpa [Yield.datagram?] using heq
    exact hlen (h.trans d.wire_length.symm)

/-- How many bytes there are behind a frame, by what its source has buffered. -/
theorem bytesBehind_length {buf : ReaderBuf} {f : Frame} {bs : List UInt8}
    (h : buf (f.id &&& 0x7f) = none ∨ buf (f.id &&& 0x7f) = some bs) :
    (bytesBehind buf f).length = 0 ∨ (bytesBehind buf f).length = bs.length := by
  rcases bytesBehind_cases buf f with hnone | hbehind
  · exact .inl (by rw [hnone]; rfl)
  · rw [hbehind]
    rcases h with h | h
    · exact .inl (by rw [h]; rfl)
    · exact .inr (by rw [h]; rfl)

/-- Put behind the second frame of a datagram, a frame with data that is not filtered takes the
    datagram away, unless its data has the length of what is to come. -/
theorem datagram_lost {ids : List Nat} {f : Frame} (hf : ¬ Filtered ids f) {source : Source}
    (hsource : f.id &&& 0x7f = source) (hids : ids = [] ∨ source.val ∈ ids)
    (hdata : f.dataLength = f.data.length) (h1 : 0 < f.data.length) (h8 : f.data.length ≤ 8)
    {d : Datagram} (hmin : 16 < d.wire.length) (hmax : d.wire.length ≤ 24)
    (hne : 16 + f.data.length ≠ d.wire.length) :
    ∃ xs ys, Inserts (· = some f) xs ys ∧
      (d.data, d.destinations, source.val) ∈ datagramsRead ids xs ∧
      (d.data, d.destinations, source.val) ∉ datagramsRead ids ys := by
  obtain ⟨f1, f2, f3, hframes, hf3, hf3eq, buf, htwo, hbuf⟩ :=
    readCanDatagrams_two hids hmin hmax
  refine ⟨[some f1, some f2] ++ [some f3], [some f1, some f2] ++ some f :: [some f3],
    .single (P := (· = some f)) rfl _ _, ?_, ?_⟩
  · -- undisturbed
    have hnext := readCanDatagrams_next hids (encodeDatagram_eq d) fun _ => none
    rw [hframes] at hnext
    exact List.mem_filterMap.mpr ⟨_, List.mem_of_getLast? hnext, rfl⟩
  · -- the bytes behind the inserted frame, and behind the last one
    have htake : f.data.take f.dataLength = f.data := by rw [hdata, List.take_length]
    rw [← hsource] at hbuf
    have hbehind := bytesBehind_length (.inr hbuf)
    have hlen16 : (d.wire.take 16).length = 16 := by
      rw [List.length_take]
      omega
    rw [hlen16] at hbehind
    obtain ⟨buf₁, y₁, hstep₁, hy₁, hbuf₁⟩ := readerStep_other hf buf (d := d)
      (by rw [htake]; exact List.append_ne_nil_of_right_ne_nil _ (List.ne_nil_of_length_pos h1))
      (by rw [htake, List.length_append]; omega)
    rw [htake, hsource] at hbuf₁
    have hid3 : f3.id &&& 0x7f = source := by
      rw [hf3eq]
      exact (frame_source 0 (.inl rfl) source).1
    have hdata3 : f3.data.take f3.dataLength = d.wire.drop 16 := by
      rw [hf3eq]
      exact List.take_length
    have hlen3 : (d.wire.drop 16).length = d.wire.length - 16 := List.length_drop
    rw [← hid3] at hbuf₁
    have hbehind3 := bytesBehind_length hbuf₁
    rw [List.length_append] at hbehind3
    obtain ⟨buf₂, y₂, hstep₂, hy₂, -⟩ := readerStep_other hf3 buf₁ (d := d)
      (by
        rw [hdata3]
        exact List.append_ne_nil_of_right_ne_nil _ (List.ne_nil_of_length_pos (by omega)))
      (by rw [hdata3, List.length_append]; omega)
    rw [hsource] at hy₁
    rw [hid3] at hy₂
    unfold datagramsRead
    rw [readCanDatagrams_append, htwo]
    simp only [readCanDatagrams, hstep₁, hstep₂, List.cons_append, List.nil_append,
      List.mem_filterMap, List.mem_cons, List.not_mem_nil, or_false]
    rintro ⟨y, rfl | rfl | rfl | rfl, hy⟩
    · cases hy
    · cases hy
    · exact hy₁ hy
    · exact hy₂ hy

/-- Put before a datagram, a frame without data that is not filtered ends the reader. -/
theorem datagram_lost_empty {ids : List Nat} {f : Frame} (hf : ¬ Filtered ids f) {source : Source}
    (hids : ids = [] ∨ source.val ∈ ids) (hdata : f.data = []) (d : Datagram) :
    ∃ xs ys, Inserts (· = some f) xs ys ∧
      (d.data, d.destinations, source.val) ∈ datagramsRead ids xs ∧
      (d.data, d.destinations, source.val) ∉ datagramsRead ids ys := by
  refine ⟨(datagramToFrames d.wire source).map some,
    some f :: (datagramToFrames d.wire source).map some,
    .single (P := (· = some f)) rfl [] _, ?_, ?_⟩
  · have hnext := readCanDatagrams_next hids (encodeDatagram_eq d) fun _ => none
    exact List.mem_filterMap.mpr ⟨_, List.mem_of_getLast? hnext, rfl⟩
  · have hbytes : bytesBehind (fun _ => none) f ++ f.data.take f.dataLength = [] := by
      simp [bytesBehind, hdata]
    have hstep : readerStep ids (fun _ => none) (some f) = .error .indexError := by
      rw [readerStep_passing hf, hbytes]
      rfl
    simp [datagramsRead, readCanDatagrams, hstep]

/-- A frame that is not filtered disturbs some stream. -/
theorem exists_disturbed {ids : List Nat} {f : Frame} (h : NonBootloader f)
    (hf : ¬ Filtered ids f) :
    ∃ xs ys, Inserts (· = some f) xs ys ∧ datagramsRead ids ys ≠ datagramsRead ids xs := by
  obtain ⟨hlen, h8⟩ := h.dataLength
  let source : Source := ⟨f.id &&& 0x7f, Nat.lt_succ_of_le Nat.and_le_right⟩
  have hids : ids = [] ∨ source.val ∈ ids := by
    by_contra hnot
    obtain ⟨hne, hnotin⟩ := not_or.mp hnot
    exact hf (.inr ⟨hne, hnotin⟩)
  have hlost : ∃ d : Datagram, ∃ xs ys, Inserts (· = some f) xs ys ∧
      (d.data, d.destinations, source.val) ∈ datagramsRead ids xs ∧
      (d.data, d.destinations, source.val) ∉ datagramsRead ids ys := by
    by_cases hdata : f.data = []
    · exact ⟨probe 8 (by decide), datagram_lost_empty hf hids hdata _⟩
    · have hpos := List.length_pos_iff.mpr hdata
      have hwire : ∀ n h, (probe n h).wire.length = 10 + n := by
        intro n h
        simp [Datagram.wire_length, probe]
      by_cases h2 : f.data.length = 2
      · exact ⟨probe 9 (by decide), datagram_lost hf rfl hids hlen hpos h8 (by rw [hwire]; omega)
          (by rw [hwire]; omega) (by rw [hwire]; omega)⟩
      · exact ⟨probe 8 (by decide), datagram_lost hf rfl hids hlen hpos h8 (by rw [hwire]; omega)
          (by rw [hwire]; omega) (by rw [hwire]; omega)⟩
  obtain ⟨d, xs, ys, hins, hmem, hnot⟩ := hlost
  exact ⟨xs, ys, hins, fun heq => hnot (heq ▸ hmem)⟩

/-! ## The result -/

/-- Inserting frames of other protocols, here those in `F`, changes nothing in the datagrams
    that the reader yields, on any stream, if and only if the reader filters all of them. -/
theorem foreign_harmless_iff (ids : List Nat) (F : Frame → Prop)
    (hF : ∀ f, F f → NonBootloader f) :
    (∀ xs ys, Inserts (fun rx => ∃ f, rx = some f ∧ F f) xs ys →
      datagramsRead ids ys = datagramsRead ids xs) ↔ ∀ f, F f → Filtered ids f := by
  constructor
  · intro hall f hf
    by_contra hnot
    obtain ⟨xs, ys, hins, hne⟩ := exists_disturbed (hF f hf) hnot
    exact hne (hall xs ys (hins.mono fun rx hrx => ⟨f, hrx, hf⟩))
  · intro hfilter xs ys hins
    refine datagrams_of_inserts (fun rx hrx => ?_) hins fun _ => none
    obtain ⟨f, rfl, hf⟩ := hrx
    exact ⟨f, rfl, hfilter f hf⟩

/-- An extended frame from the kernel whose low bits spell source 1. -/
def extendedFrame : KernelFrame := ⟨0x80000001, 1, [7, 0, 0, 0, 0, 0, 0, 0], by decide⟩

/-- A datagram of node 1, and the same with that frame in between. -/
def nodeOneStream : List (Option Frame) :=
  [some ⟨0x81, [1, 0x80, 0xd8, 0xa4, 0x47, 1, 14, 0], false, false, 8⟩,
   some ⟨1, [0, 0, 1, 0x42], false, false, 4⟩]

def disturbedStream : List (Option Frame) :=
  [some ⟨0x81, [1, 0x80, 0xd8, 0xa4, 0x47, 1, 14, 0], false, false, 8⟩,
   some (SocketCANInterface.loop extendedFrame),
   some ⟨1, [0, 0, 1, 0x42], false, false, 4⟩]

theorem disturbedStream_inserts {F : Frame → Prop} (hF : F (SocketCANInterface.loop extendedFrame)) :
    Inserts (fun rx => ∃ f, rx = some f ∧ F f) nodeOneStream disturbedStream :=
  .keep _ (.insert ⟨_, rfl, hF⟩ (.refl _))

/-- A client that listens to node 2 only. -/
theorem foreign_harmless_iff_other :
    datagramsRead [2] disturbedStream = datagramsRead [2] nodeOneStream := by
  refine (foreign_harmless_iff [2] (· = SocketCANInterface.loop extendedFrame) ?_).mpr ?_ _ _
    (disturbedStream_inserts rfl)
  · rintro f rfl
    exact .extended extendedFrame (by decide)
  · rintro f rfl
    decide

/-- A client without filter loses the datagram of node 1 that the frame is put into. -/
theorem extended_frame_disturbs :
    ¬ ∀ xs ys, Inserts (fun rx => ∃ f, rx = some f ∧ NonBootloader f) xs ys →
      datagramsRead [] ys = datagramsRead [] xs := by
  intro hall
  have heq := hall _ _ (disturbedStream_inserts (.extended extendedFrame (by decide)))
  exact absurd heq (by decide +kernel)

end CanBootloader
