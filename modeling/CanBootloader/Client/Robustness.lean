/-
  The reader of the client on any frames.

  The only exception out of `decode_datagram` is the `IndexError` of the empty byte string, and
  the reader decodes that when a frame without data arrives and there are no bytes of its source.
  Without such a frame the reader goes on, and what it holds does not matter to the next datagram
  of any source (`reader_survives_iff`).
-/
import CanBootloader.Client.Reassembly

namespace CanBootloader

open Lib

/-! ## Runs -/

theorem readCanDatagrams_append (ids : List Nat) (xs ys : List (Option Frame)) :
    ∀ buf, readCanDatagrams ids buf (xs ++ ys) =
      match readCanDatagrams ids buf xs with
      | (out, .error e) => (out, .error e)
      | (out, .ok buf') =>
          (out ++ (readCanDatagrams ids buf' ys).1, (readCanDatagrams ids buf' ys).2) := by
  induction xs with
  | nil =>
      intro buf
      simp [readCanDatagrams]
  | cons rx xs ih =>
      intro buf
      rw [List.cons_append, readCanDatagrams, readCanDatagrams]
      cases readerStep ids buf rx with
      | error e => rfl
      | ok r =>
          obtain ⟨buf₁, y⟩ := r
          simp only [ih buf₁]
          rcases readCanDatagrams ids buf₁ xs with ⟨out, e | buf₂⟩
          · rfl
          · rfl

/-! ## Frames without data -/

/-- A standard bootloader frame: an ID of 8 bits, and up to 8 bytes. -/
def BusFrame (f : Frame) : Prop :=
  ∃ id data, id ≤ 255 ∧ data.length ≤ 8 ∧ f = Frame.init id (some data)

/-- A frame without data, when there are no bytes of its source to append it to. -/
def Fatal (ids : List Nat) (buf : ReaderBuf) (f : Frame) : Prop :=
  ¬ Filtered ids f ∧ f.data = [] ∧ bytesBehind buf f = []

/-- The reader ends exactly at such a frame. -/
theorem readerStep_error_iff (ids : List Nat) (buf : ReaderBuf) {f : Frame} (hf : BusFrame f) :
    (∃ e, readerStep ids buf (some f) = .error e) ↔ Fatal ids buf f := by
  obtain ⟨id, data, -, hdata, rfl⟩ := hf
  rw [Frame.init_of_le id hdata]
  unfold Fatal
  by_cases hfilter : Filtered ids ⟨id, data, false, false, data.length⟩
  · rw [readerStep_filtered hfilter]
    simp [hfilter]
  · rw [readerStep_passing hfilter]
    simp only [List.take_length, decodeStep]
    generalize bytesBehind buf ⟨id, data, false, false, data.length⟩ = behind
    by_cases hnil : behind ++ data = []
    · obtain ⟨rfl, rfl⟩ := List.append_eq_nil_iff.mp hnil
      exact ⟨fun _ => ⟨hfilter, rfl, rfl⟩, fun _ => ⟨.indexError, rfl⟩⟩
    · have hnot : ¬ (data = [] ∧ behind = []) := by
        rintro ⟨rfl, rfl⟩
        exact hnil rfl
      rcases decodeDatagram_cases hnil with h | ⟨dst, data', h, -⟩
      · simp [h, hnot]
      · simp [h, hnot]

/-- The reader gets through a stream exactly if no frame in it is fatal. -/
theorem readCanDatagrams_ok_iff (ids : List Nat) {fs : List (Option Frame)}
    (hfs : ∀ f, some f ∈ fs → BusFrame f) : ∀ buf,
    (∃ buf', (readCanDatagrams ids buf fs).2 = .ok buf') ↔
      ∀ pre f post buf', fs = pre ++ some f :: post →
        (readCanDatagrams ids buf pre).2 = .ok buf' → ¬ Fatal ids buf' f := by
  induction fs with
  | nil =>
      intro buf
      simp [readCanDatagrams]
  | cons rx fs ih =>
      intro buf
      have hrest := ih fun f hf => hfs f (List.mem_cons_of_mem _ hf)
      rw [readCanDatagrams]
      cases hstep : readerStep ids buf rx with
      | error e =>
          obtain ⟨f, rfl⟩ : ∃ f, rx = some f := by
            cases rx with
            | none => simp [readerStep] at hstep
            | some f => exact ⟨f, rfl⟩
          have hfatal := (readerStep_error_iff ids buf (hfs f (by simp))).mp ⟨e, hstep⟩
          simp only [reduceCtorEq, exists_false, false_iff]
          exact fun hall => hall [] f fs buf rfl rfl hfatal
      | ok r =>
          obtain ⟨buf₁, y⟩ := r
          simp only [hrest buf₁]
          constructor
          · intro hall pre f post buf' hsplit hpre hfatal
            cases pre with
            | nil =>
                obtain ⟨rfl, -⟩ := List.cons.inj hsplit
                obtain rfl : buf = buf' := Except.ok.inj hpre
                obtain ⟨e, he⟩ := (readerStep_error_iff ids buf (hfs f (by simp))).mpr hfatal
                rw [hstep] at he
                cases he
            | cons rx' pre =>
                obtain ⟨rfl, htail⟩ := List.cons.inj hsplit
                rw [readCanDatagrams, hstep] at hpre
                exact hall pre f post buf' htail hpre hfatal
          · intro hall pre f post buf' hsplit hpre
            refine hall (rx :: pre) f post buf' (by rw [hsplit, List.cons_append]) ?_
            rw [readCanDatagrams, hstep]
            exact hpre

/-! ## The next datagram -/

/-- The reader passes over none of the frames of a source that it listens to. -/
theorem datagramToFramesFrom_passing {ids : List Nat} {source : Source}
    (hids : ids = [] ∨ source.val ∈ ids) (startBit : Nat) (bytes : List UInt8) :
    startBit = 0 ∨ startBit = 0x80 →
      ∀ f ∈ datagramToFramesFrom startBit bytes source, ¬ Filtered ids f := by
  have hframe : ∀ b data n, b = 0 ∨ b = 0x80 →
      ¬ Filtered ids ⟨b + source, data, false, false, n⟩ := by
    intro b data n hb hfilter
    rcases hfilter with hfilter | ⟨hne, hsource⟩
    · cases hfilter
    · rw [(frame_source b hb source).1] at hsource
      exact hids.elim hne hsource
  induction startBit, bytes using datagramToFramesFrom.induct with
  | case1 startBit bytes hlen ih =>
      intro hs f hf
      rw [datagramToFramesFrom_more _ _ hlen] at hf
      rcases List.mem_cons.mp hf with rfl | hf
      · exact hframe _ _ _ hs
      · exact ih (.inl rfl) f hf
  | case2 startBit bytes hlen =>
      intro hs f hf
      rw [datagramToFramesFrom_last _ _ (by omega), List.mem_singleton] at hf
      rw [hf]
      exact hframe _ _ _ hs

/-- The frames that a filter lets through are read as without a filter. -/
theorem readCanDatagrams_passing {ids : List Nat} {fs : List Frame}
    (h : ∀ f ∈ fs, ¬ Filtered ids f) : ∀ buf,
    readCanDatagrams ids buf (fs.map some) = readCanDatagrams [] buf (fs.map some) := by
  induction fs with
  | nil =>
      intro buf
      rfl
  | cons f fs ih =>
      intro buf
      have hfirst := h f List.mem_cons_self
      have hnone : ¬ Filtered [] f := by
        intro hfilter
        exact hfirst (.inl (hfilter.resolve_right (by simp)))
      rw [List.map_cons, readCanDatagrams, readCanDatagrams, readerStep_passing hfirst,
        readerStep_passing hnone]
      simp only [ih fun f hf => h f (List.mem_cons_of_mem _ hf)]

/-- With the bytes so far in the buffer, the rest of a datagram completes it. -/
theorem readCanDatagrams_rest (d : Datagram) (source : Source) (startBit : Nat)
    (w : List UInt8) : startBit = 0 ∨ startBit = 0x80 → ∀ buf,
      base startBit buf source ++ w = d.wire → w ≠ [] →
      (readCanDatagrams [] buf ((datagramToFramesFrom startBit w source).map some)).1.getLast? =
        some (some (.datagram d.data d.destinations source)) := by
  induction startBit, w using datagramToFramesFrom.induct with
  | case1 startBit w hlen ih =>
      intro hs buf hw hne
      have hdrop : w.drop 8 ≠ [] := List.ne_nil_of_length_pos (by rw [List.length_drop]; omega)
      have hstep := (readerStep_frame d startBit hs buf source hw).1 hlen
      rw [datagramToFramesFrom_more _ _ hlen, List.map_cons, readCanDatagrams, hstep]
      have hbase : ∀ p, base 0 (Function.update buf source.val (some p)) source = p := by
        intro p
        simp [base]
      have hrest := ih (.inl rfl) (Function.update buf source (some (base startBit buf source ++
        w.take 8))) (by rw [hbase, List.append_assoc, List.take_append_drop, hw]) hdrop
      simp only
      rw [List.getLast?_cons, hrest]
      rfl
  | case2 startBit w hlen =>
      intro hs buf hw hne
      have hstep := (readerStep_frame d startBit hs buf source hw).2
      rw [datagramToFramesFrom_last _ _ (by omega), List.map_singleton, readCanDatagrams, hstep]
      rfl

/-- A datagram is yielded at its last frame, whatever is in the buffers before. -/
theorem readCanDatagrams_next {ids : List Nat} {source : Source}
    (hids : ids = [] ∨ source.val ∈ ids) {data destinations bytes : List UInt8}
    (hbytes : encodeDatagram data destinations = some bytes) (buf : ReaderBuf) :
    (readCanDatagrams ids buf ((datagramToFrames bytes source).map some)).1.getLast? =
      some (some (.datagram data destinations source)) := by
  obtain ⟨d, rfl, rfl, rfl⟩ := encodeDatagram_some hbytes
  have hpassing := datagramToFramesFrom_passing hids 0x80 d.wire (.inr rfl)
  rw [datagramToFrames, startOfDatagramMask, Nat.one_shiftLeft]
  rw [readCanDatagrams_passing hpassing]
  exact readCanDatagrams_rest d source 0x80 d.wire (.inr rfl) buf (by simp [base])
    d.wire_ne_nil

/-! ## The result -/

/-- No frame ends the reader with an exception, and it yields the next datagram from any source
    that it listens to. -/
def Survives (ids : List Nat) (fs : List (Option Frame)) : Prop :=
  (∃ buf, (readCanDatagrams ids (fun _ => none) fs).2 = .ok buf) ∧
    ∀ (source : Source) (data destinations bytes : List UInt8),
      ids = [] ∨ source.val ∈ ids → encodeDatagram data destinations = some bytes →
        (readCanDatagrams ids (fun _ => none)
          (fs ++ (datagramToFrames bytes source).map some)).1.getLast? =
            some (some (.datagram data destinations source))

/-- The reader survives a stream of bootloader frames if and only if each frame without data is
    filtered, or has no start bit and finds bytes of its source in the buffer. -/
theorem reader_survives_iff (ids : List Nat) (fs : List (Option Frame))
    (hfs : ∀ f, some f ∈ fs → BusFrame f) :
    Survives ids fs ↔ ∀ pre f post buf, fs = pre ++ some f :: post →
      (readCanDatagrams ids (fun _ => none) pre).2 = .ok buf → ¬ Fatal ids buf f := by
  rw [← readCanDatagrams_ok_iff ids hfs]
  refine ⟨fun h => h.1, fun hok => ⟨hok, ?_⟩⟩
  intro source data destinations bytes hids hbytes
  obtain ⟨buf, hbuf⟩ := hok
  have hnext := readCanDatagrams_next hids hbytes buf
  rw [readCanDatagrams_append]
  generalize readCanDatagrams ids (fun _ => none) fs = r at hbuf ⊢
  obtain ⟨out, result⟩ := r
  obtain rfl : result = .ok buf := hbuf
  simp only
  rw [List.getLast?_append, hnext]
  rfl

/-- An empty frame behind three bytes of its source. -/
theorem reader_survives_iff_inside :
    Survives [] [some (.init 5 (some [1, 2, 3])), some (.init 5 (some []))] := by
  have hfs : ∀ f, some f ∈ [some (Frame.init 5 (some [1, 2, 3])), some (.init 5 (some []))] →
      BusFrame f := by
    intro f hf
    simp only [List.mem_cons, Option.some.injEq, List.not_mem_nil, or_false] at hf
    rcases hf with rfl | rfl
    · exact ⟨5, [1, 2, 3], by decide, by decide, rfl⟩
    · exact ⟨5, [], by decide, by decide, rfl⟩
  exact (reader_survives_iff [] _ hfs).mpr
    ((readCanDatagrams_ok_iff [] hfs fun _ => none).mp ⟨_, rfl⟩)

/-- An empty frame on a fresh reader. -/
theorem reader_ends_at_empty_frame : ¬ Survives [] [some (.init 5 (some []))] := by
  intro h
  obtain ⟨⟨buf, hbuf⟩, -⟩ := h
  cases hbuf

end CanBootloader
