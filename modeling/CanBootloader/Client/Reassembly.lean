/-
  The client reassembles any interleaving of datagrams.

  Every source sends the frames of its datagrams in order; the bus merges them in any way
  (`Lib.Interleaves`). The invariant is one statement per source (`Awaits`): either the
  source's next frame starts a datagram, and then its buffer does not matter, or the buffer
  holds the bytes of one datagram so far and the source goes on with the rest of it.

  * `readerStep_frame`: one frame of a datagram, added to what is there of it, completes it
    exactly when it is the last.
  * `readerStep_awaits`: each frame keeps the invariant of its source.
  * `readCanDatagrams_interleaved`: so each datagram is yielded at its last frame.
-/
import CanBootloader.Lib.Interleave
import CanBootloader.Client.Codec
import CanBootloader.Client.Reader

namespace CanBootloader

open Lib

/-- A node on the bus: IDs have 7 bits. -/
abbrev Source := Fin 128

/-- A frame on the bus, with the datagram it is the last frame of. -/
structure Sent where
  frame : Frame
  completes : Option Datagram

/-- The frames of one datagram, the last one marked. -/
def marked (d : Datagram) : List Frame → List Sent
  | [] => []
  | [f] => [⟨f, some d⟩]
  | f :: fs => ⟨f, none⟩ :: marked d fs

/-- What a source sends for one datagram: `encode_datagram`, then `datagram_to_frames`. -/
def transmit (source : Source) (d : Datagram) : List Sent :=
  match encodeDatagram d.data d.destinations with
  | none => []
  | some bytes => marked d (datagramToFrames bytes source)

/-- The result of `receive_frame` at an event of the bus. -/
def received (e : Option (Source × Sent)) : Option Frame := e.map fun a => a.2.frame

/-- What is to be yielded at an event of the bus. -/
def expected : Option (Source × Sent) → Option Yield
  | none => some .timeout
  | some (source, sent) =>
      sent.completes.map fun d => .datagram d.data d.destinations source

theorem transmit_eq (source : Source) (d : Datagram) :
    transmit source d = marked d (datagramToFramesFrom 0x80 d.wire source) := by
  simp [transmit, encodeDatagram_eq, datagramToFrames, startOfDatagramMask]

/-- The source of a frame is read back from its ID. -/
theorem frame_source (startBit : Nat) (h : startBit = 0 ∨ startBit = 0x80) (source : Source) :
    (startBit + source) &&& 0x7f = source ∧
      ((startBit + source) &&& 0x080 > 0 ↔ startBit = 0x80) := by
  have hall : ∀ s : Fin 128, (s.val &&& 0x7f = s.val ∧ ¬ s.val &&& 0x080 > 0) ∧
      ((0x80 + s.val) &&& 0x7f = s.val ∧ (0x80 + s.val) &&& 0x080 > 0) := by decide
  obtain ⟨h0, h1⟩ := hall source
  rcases h with rfl | rfl
  · simpa using h0
  · simpa using h1

/-! ## One frame -/

/-- The bytes of a source that its next frame is appended to. -/
def base (startBit : Nat) (buf : ReaderBuf) (source : Source) : List UInt8 :=
  if startBit = 0x80 then [] else (buf source).getD []

/-- A frame as the reader sees it: the start bit drops the source's buffer, the bytes are
    appended to what is left, and the result is decoded. -/
theorem readerStep_append (startBit : Nat) (hs : startBit = 0 ∨ startBit = 0x80)
    (buf : ReaderBuf) (source : Source) (bytes : List UInt8) :
    readerStep [] buf (some ⟨startBit + source, bytes, false, false, bytes.length⟩) =
      decodeStep buf source (base startBit buf source ++ bytes) := by
  obtain ⟨hsrc, hstart⟩ := frame_source startBit hs source
  have hbase : bytesBehind buf ⟨startBit + source, bytes, false, false, bytes.length⟩ =
      base startBit buf source := by
    simp only [bytesBehind, base, hsrc, hstart]
  rw [readerStep_passing (by simp [Filtered]), hbase]
  simp only [hsrc, List.take_length]

/-- One frame of a datagram, on top of a nonempty or empty part of it: the datagram is
    yielded at its last frame, and before that nothing is. -/
theorem readerStep_frame (d : Datagram) (startBit : Nat) (hs : startBit = 0 ∨ startBit = 0x80)
    (buf : ReaderBuf) (source : Source) {w : List UInt8}
    (hw : base startBit buf source ++ w = d.wire) :
    (8 < w.length →
      readerStep [] buf (some ⟨startBit + source, w.take 8, false, false, 8⟩) =
        .ok (Function.update buf source (some (base startBit buf source ++ w.take 8)), none)) ∧
    readerStep [] buf (some ⟨startBit + source, w, false, false, w.length⟩) =
      .ok (Function.update buf source none,
        some (.datagram d.data d.destinations source)) := by
  constructor
  · intro hlen
    have h8 : (w.take 8).length = 8 := by
      rw [List.length_take]
      omega
    have hprefix : (base startBit buf source ++ w.take 8) ++ w.drop 8 = d.wire := by
      rw [List.append_assoc, List.take_append_drop, hw]
    have hnone := decodeDatagram_prefix d hprefix
      (List.append_ne_nil_of_right_ne_nil _ (List.ne_nil_of_length_pos (by omega)))
      (List.ne_nil_of_length_pos (by rw [List.length_drop]; omega))
    have hstep := readerStep_append startBit hs buf source (w.take 8)
    rw [h8, decodeStep, hnone] at hstep
    exact hstep
  · rw [readerStep_append startBit hs, hw, decodeStep, decodeDatagram_wire]

/-! ## The invariant of a source -/

/-- The source is about to start a datagram, or the reader has the part of the current one that
    the source has sent. `rest` is what the source has yet to send. -/
inductive Awaits (buf : ReaderBuf) (source : Source) : List Sent → Prop
  | start (ds : List Datagram) : Awaits buf source (ds.flatMap (transmit source))
  | inside (d : Datagram) (p w : List UInt8) (ds : List Datagram)
      (hbuf : buf source = some p) (hw : p ++ w = d.wire) (hne : w ≠ []) :
      Awaits buf source
        (marked d (datagramToFramesFrom 0 w source) ++ ds.flatMap (transmit source))

/-- Other sources' buffers do not matter. -/
theorem Awaits.of_eq {buf buf' : ReaderBuf} {source : Source} {rest : List Sent}
    (h : Awaits buf source rest) (heq : buf' source = buf source) :
    Awaits buf' source rest := by
  cases h with
  | start ds => exact .start ds
  | inside d p w ds hbuf hw hne => exact .inside d p w ds (by rw [heq, hbuf]) hw hne

/-- The frames of a (rest of a) datagram: the step of the reader at the first of them. -/
theorem readerStep_marked (d : Datagram) (startBit : Nat)
    (hs : startBit = 0 ∨ startBit = 0x80) (buf : ReaderBuf) (source : Source) {w : List UInt8}
    (hw : base startBit buf source ++ w = d.wire) (ds : List Datagram)
    {sent : Sent} {rest : List Sent}
    (hsent : marked d (datagramToFramesFrom startBit w source) ++ ds.flatMap (transmit source) =
      sent :: rest) :
    ∃ c, readerStep [] buf (some sent.frame) =
        .ok (Function.update buf source.val c, expected (some (source, sent))) ∧
      Awaits (Function.update buf source.val c) source rest := by
  obtain ⟨hmore, hlast⟩ := readerStep_frame d startBit hs buf source hw
  by_cases hlen : 8 < w.length
  · rw [datagramToFramesFrom_more _ _ hlen] at hsent
    have hdrop : w.drop 8 ≠ [] := List.ne_nil_of_length_pos (by rw [List.length_drop]; omega)
    obtain ⟨f, fs, hfs⟩ :=
      List.exists_cons_of_ne_nil (datagramToFramesFrom_ne_nil 0 (w.drop 8) source)
    rw [hfs, marked, ← hfs, List.cons_append, List.cons.injEq] at hsent
    · obtain ⟨rfl, rfl⟩ := hsent
      refine ⟨_, hmore hlen, ?_⟩
      refine .inside d _ (w.drop 8) ds (Function.update_self ..) ?_ hdrop
      rw [List.append_assoc, List.take_append_drop, hw]
    · simp
  · rw [datagramToFramesFrom_last _ _ (by omega), marked, List.cons_append, List.nil_append,
      List.cons.injEq] at hsent
    obtain ⟨rfl, rfl⟩ := hsent
    exact ⟨none, hlast, .start ds⟩

/-- Every frame does what is expected of it, and its source's invariant goes on. -/
theorem readerStep_awaits {buf : ReaderBuf} {source : Source} {sent : Sent} {rest : List Sent}
    (h : Awaits buf source (sent :: rest)) :
    ∃ c, readerStep [] buf (some sent.frame) =
        .ok (Function.update buf source.val c, expected (some (source, sent))) ∧
      Awaits (Function.update buf source.val c) source rest := by
  generalize hstream : sent :: rest = stream at h
  cases h with
  | start ds =>
      cases ds with
      | nil => simp at hstream
      | cons d ds =>
          rw [List.flatMap_cons, transmit_eq] at hstream
          exact readerStep_marked d 0x80 (.inr rfl) buf source (by simp [base]) ds
            hstream.symm
  | inside d p w ds hbuf hw hne =>
      exact readerStep_marked d 0 (.inl rfl) buf source (by simpa [base, hbuf] using hw) ds
        hstream.symm

/-! ## The whole line -/

/-- If every source's invariant holds, the reader yields what is expected at each event. -/
theorem readCanDatagrams_awaits {events : List (Option (Source × Sent))}
    {streams : Source → List Sent} (h : Interleaves streams events) :
    ∀ buf, (∀ s, Awaits buf s (streams s)) →
      (readCanDatagrams [] buf (events.map received)).1 = events.map expected := by
  refine Interleaves.induction (motive := fun streams events =>
    ∀ buf, (∀ s, Awaits buf s (streams s)) →
      (readCanDatagrams [] buf (events.map received)).1 = events.map expected) ?_ ?_ ?_ h
  · intro streams _ buf _
    rfl
  · intro streams events ih buf hinv
    have hrest := ih buf hinv
    simp only [List.map_cons, received, Option.map_none, readCanDatagrams, readerStep]
    rw [← hrest]
    rfl
  · intro streams events source sent rest hstream ih buf hinv
    have hsource := hinv source
    rw [hstream] at hsource
    obtain ⟨c, hstep, hnext⟩ := readerStep_awaits hsource
    have hrest := ih (Function.update buf source.val c) (by
      intro s
      by_cases hs : s = source
      · subst hs
        rw [Function.update_self]
        exact hnext
      · rw [Function.update_of_ne hs]
        refine (hinv s).of_eq (Function.update_of_ne ?_ _ _)
        exact fun hval => hs (Fin.ext hval))
    simp only [List.map_cons, received, Option.map_some, readCanDatagrams, hstep]
    rw [← hrest]

/-- The datagrams yielded for one source. -/
def yieldOf (source : Source) : Option Yield → Option (List UInt8 × List UInt8)
  | some (.datagram data dst src) => if src = source then some (data, dst) else none
  | _ => none

theorem marked_completes (d : Datagram) {fs : List Frame} (h : fs ≠ []) :
    (marked d fs).filterMap Sent.completes = [d] := by
  induction fs with
  | nil => exact absurd rfl h
  | cons f fs ih =>
      cases fs with
      | nil => rfl
      | cons f' fs => exact ih (by simp)

theorem transmit_completes (source : Source) (d : Datagram) :
    (transmit source d).filterMap Sent.completes = [d] := by
  rw [transmit_eq]
  exact marked_completes d (datagramToFramesFrom_ne_nil _ _ _)

theorem transmit_all_completes (source : Source) (ds : List Datagram) :
    (ds.flatMap (transmit source)).filterMap Sent.completes = ds := by
  induction ds with
  | nil => rfl
  | cons d ds ih => rw [List.flatMap_cons, List.filterMap_append, transmit_completes, ih]; rfl

/-- What is expected for one source is what that source has sent. -/
theorem expected_of_source {sent : Source → List Datagram}
    {events : List (Option (Source × Sent))}
    (h : Interleaves (fun s => (sent s).flatMap (transmit s)) events) (source : Source) :
    (events.map expected).filterMap (yieldOf source) =
      (sent source).map fun d => (d.data, d.destinations) := by
  have hevent : ∀ e : Option (Source × Sent), yieldOf source (expected e) =
      (onChannel source e).bind fun a => a.completes.map fun d => (d.data, d.destinations) := by
    intro e
    match e with
    | none => rfl
    | some (s, ⟨f, none⟩) =>
        simp only [expected, onChannel, Option.map_none]
        split_ifs
        · rfl
        · rfl
    | some (s, ⟨f, some d⟩) =>
        by_cases hs : s = source
        · simp [expected, yieldOf, onChannel, hs]
        · have hval : s.val ≠ source.val := fun hval => hs (Fin.ext hval)
          simp [expected, yieldOf, onChannel, hs, hval]
  rw [List.filterMap_map, Function.comp_def, funext hevent, h.filterMap]
  rw [← List.map_filterMap, transmit_all_completes]

/-- `read_can_datagrams` without ID filter, with any initial buffers, on any interleaving of
    what the sources send: each datagram is yielded at the arrival of its last frame, `None` at
    each timeout, and nothing else; for each source this is exactly what it has sent. -/
theorem readCanDatagrams_interleaved (sent : Source → List Datagram)
    (events : List (Option (Source × Sent)))
    (h : Interleaves (fun s => (sent s).flatMap (transmit s)) events) (buf : ReaderBuf) :
    (readCanDatagrams [] buf (events.map received)).1 = events.map expected ∧
      ∀ s, ((readCanDatagrams [] buf (events.map received)).1).filterMap (yieldOf s) =
        (sent s).map fun d => (d.data, d.destinations) := by
  have hall := readCanDatagrams_awaits h buf fun s => .start (sent s)
  refine ⟨hall, fun s => ?_⟩
  rw [hall]
  exact expected_of_source h s

/-- Nodes 0 and 1 answer at the same time, with old bytes in every buffer. -/
theorem readCanDatagrams_interleaved_two :
    (readCanDatagrams [] (fun _ => some [1, 2, 3])
      [some ⟨0x80, [1, 0x80, 0xd8, 0xa4, 0x47, 1, 14, 0], false, false, 8⟩,
       some ⟨0x81, [1, 0x80, 0xd8, 0xa4, 0x47, 1, 14, 0], false, false, 8⟩,
       none,
       some ⟨0x01, [0, 0, 1, 0x42], false, false, 4⟩,
       some ⟨0x00, [0, 0, 1, 0x42], false, false, 4⟩]).1 =
      [none, none, some .timeout, some (.datagram [0x42] [14] 1),
        some (.datagram [0x42] [14] 0)] := by
  let d : Datagram := ⟨[14], [0x42], by decide, by decide⟩
  let sent : Source → List Datagram := fun s => if s = 0 ∨ s = 1 then [d] else []
  let head : Source → Sent := fun s =>
    ⟨⟨0x80 + s, [1, 0x80, 0xd8, 0xa4, 0x47, 1, 14, 0], false, false, 8⟩, none⟩
  let tail : Source → Sent := fun s => ⟨⟨0 + s, [0, 0, 1, 0x42], false, false, 4⟩, some d⟩
  have hwire : d.wire = [1, 0x80, 0xd8, 0xa4, 0x47, 1, 14, 0, 0, 0, 1, 0x42] := by decide +kernel
  have htransmit : ∀ s, transmit s d = [head s, tail s] := by
    intro s
    rw [transmit_eq, hwire, datagramToFramesFrom_more _ _ (by decide),
      datagramToFramesFrom_last _ _ (by decide)]
    rfl
  have horder : Interleaves (fun s => (sent s).flatMap (transmit s))
      [some (0, head 0), some (1, head 1), none, some (1, tail 1), some (0, tail 0)] := by
    intro s
    by_cases h0 : s = 0
    · subst h0
      show _ = [d].flatMap (transmit 0)
      rw [List.flatMap_singleton, htransmit]
      rfl
    · by_cases h1 : s = 1
      · subst h1
        show _ = [d].flatMap (transmit 1)
        rw [List.flatMap_singleton, htransmit]
        rfl
      · simp [sent, h0, h1, onChannel, Ne.symm h0, Ne.symm h1]
  exact (readCanDatagrams_interleaved sent _ horder fun _ => some [1, 2, 3]).1

end CanBootloader
