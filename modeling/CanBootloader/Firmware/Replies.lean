/-
  The reply to a command, and what becomes of the handler's result on the way to it.

  `execute_datagram_commands` returns an `int`: a length, or the negative of an error code. The
  main loop keeps it in a `uint8_t`. So

  * an error code `c` becomes the length `256 - c`: the client gets that many bytes of the
    output buffer, and the status is SUCCESS (`error_reply_never`);
  * a length `n` is sent modulo 256: the reply is complete up to 255 bytes and never beyond, and
    it can be put together only if the ID of the node leaves the start bit free
    (`reply_reassembles_iff`). A multiple of 256 becomes an error reply with code 0.
-/
import CanBootloader.Client.Reassembly
import CanBootloader.Firmware.Rounds
import CanBootloader.Firmware.Transmit

namespace CanBootloader

open Lib

variable {fw : Firmware} {σ : Type}

/-- In round `r`, without timeout, frame `f` completes a valid datagram for this node, and its
    execution returns `e`. -/
structure Executes (p : Platform σ) (s : LoopState fw σ) (r : Round) (f : RxFrame)
    (e : Execution) : Prop where
  frame : r.frame = some f
  forUs : frameIsForUs s.config f.id = true
  valid : canDatagramIsValid fw.crc32 (appendFrame s f r.resetClock).inbox.dt = true
  addressed : (appendFrame s f r.resetClock).inbox.addressed s.config.ID = true
  value : (execution p (appendFrame s f r.resetClock) r).value = some e
  quiet : ∀ ev ∈ (roundStep p s r).1, ¬ ev.isTimeout

/-- The bytes of the frames, whatever their IDs, are those of one datagram with this data. -/
def JoinsTo (txs : List Transmission) (data : List UInt8) : Prop :=
  ∃ destinations,
    decodeDatagram (txs.flatMap Transmission.data) = .ok (some (data, destinations))

/-- The round that executes a command sends its reply and nothing else. -/
theorem Executes.round {p : Platform σ} {s : LoopState fw σ} {r : Round} {f : RxFrame}
    {e : Execution} (h : Executes p s r f e) :
    ∃ s1 : LoopState fw σ,
      transmitted (roundStep p s r).1 = transmitted (sendReply s1 f.id e r.replySend).1 ∧
        (roundStep p s r).2 = some (sendReply s1 f.id e r.replySend).2.restart := by
  have hcomplete : canDatagramIsComplete (appendFrame s f r.resetClock).inbox.dt = true := by
    have hvalid := h.valid
    simp only [canDatagramIsValid, Bool.and_eq_true] at hvalid
    exact hvalid.1.1
  rw [roundStep_quiet p h.quiet, receive_end p h.frame h.forUs (.inl hcomplete),
    handleDatagram_addressed p h.valid (by rw [appendFrame_config]; exact h.addressed), h.value]
  refine ⟨_, ?_, rfl⟩
  simp

/-- The same from facts that can be evaluated. -/
theorem exists_executes {p : Platform σ} {s : LoopState fw σ} {r : Round} {f : RxFrame}
    {result : Int} (hframe : r.frame = some f) (hus : frameIsForUs s.config f.id = true)
    (hvalid : canDatagramIsValid fw.crc32 (appendFrame s f r.resetClock).inbox.dt = true)
    (haddr : (appendFrame s f r.resetClock).inbox.addressed s.config.ID = true)
    (hvalue : (execution p (appendFrame s f r.resetClock) r).value.map Execution.result =
      some result)
    (hquiet : (roundStep p s r).1.all (fun e => !e.isTimeout) = true) :
    ∃ e, Executes p s r f e ∧ e.result = result := by
  obtain ⟨e, he, hresult⟩ := Option.map_eq_some_iff.mp hvalue
  exact ⟨e, ⟨hframe, hus, hvalid, haddr, he, noTimeout_of_all hquiet⟩, hresult⟩

/-- A positive reply length: that many bytes of the output buffer are sent. -/
theorem sendReply_data (s : LoopState fw σ) (id : UInt32) {e : Execution} (send : Nat → Bool)
    (h : UInt8.ofInt e.result ≠ 0) :
    transmitted (sendReply s id e send).1 =
        returnDatagram fw e.config.ID (id &&& ~~~idStartMask).toUInt8 e.outBuf
          (UInt8.ofInt e.result).toNat send ∧
      (sendReply s id e send).2.status = success := by
  have hpos : UInt8.ofInt e.result > 0 := UInt8.pos_iff_ne_zero.mpr h
  simp [sendReply, hpos]

/-- Reply length zero: an error reply with code zero is sent. -/
theorem sendReply_zero (s : LoopState fw σ) (id : UInt32) {e : Execution} (send : Nat → Bool)
    (h : UInt8.ofInt e.result = 0) :
    transmitted (sendReply s id e send).1 =
      (returnErrorDatagram fw e.config.ID e.outBuf 0 send).1 := by
  simp [sendReply, h]

/-! ## Error codes -/

/-- The answer to a failed command: one datagram with the error code as its data, and the code
    as status. -/
def ErrorReply (c : UInt8) (round : List (Event σ) × Option (LoopState fw σ)) : Prop :=
  JoinsTo (transmitted round.1) (Msgpack.uint c.toNat) ∧
    ∃ s', round.2 = some s' ∧ s'.status = c

/-- A negative result: bytes of the output buffer are sent, with status SUCCESS. -/
theorem Executes.error {p : Platform σ} {s : LoopState fw σ} {r : Round} {f : RxFrame}
    {e : Execution} (h : Executes p s r f e) {c : UInt8} (hc : c = 3 ∨ c = 4 ∨ c = 5)
    (hresult : e.result = -(c.toNat : Int)) :
    transmitted (roundStep p s r).1 =
        returnDatagram fw e.config.ID (f.id &&& ~~~idStartMask).toUInt8 e.outBuf
          (256 - c.toNat) r.replySend ∧
      ∃ s', (roundStep p s r).2 = some s' ∧ s'.status = success := by
  have hlength : UInt8.ofInt e.result ≠ 0 ∧ (UInt8.ofInt e.result).toNat = 256 - c.toNat := by
    rw [hresult]
    rcases hc with rfl | rfl | rfl
    · decide
    · decide
    · decide
  obtain ⟨s1, htx, hnext⟩ := h.round
  obtain ⟨hdata, hstatus⟩ := sendReply_data s1 f.id r.replySend hlength.1
  refine ⟨?_, _, hnext, hstatus⟩
  rw [htx, hdata, hlength.2]

/-- No failed command is answered with its error code: for every state and datagram the reply is
    `256 - c` bytes of the output buffer, with status SUCCESS. -/
theorem error_reply_never (fw : Firmware) (p : Platform σ) (s : LoopState fw σ) (r : Round)
    (f : RxFrame) (e : Execution) (h : Executes p s r f e) (c : UInt8)
    (hc : c = 3 ∨ c = 4 ∨ c = 5) (hresult : e.result = -(c.toNat : Int)) :
    ¬ ErrorReply c (roundStep p s r) ∧
      transmitted (roundStep p s r).1 =
        returnDatagram fw e.config.ID (f.id &&& ~~~idStartMask).toUInt8 e.outBuf
          (256 - c.toNat) r.replySend ∧
      ∃ s', (roundStep p s r).2 = some s' ∧ s'.status = success := by
  obtain ⟨htx, s', hs', hstatus⟩ := h.error hc hresult
  refine ⟨?_, htx, s', hs', hstatus⟩
  rintro ⟨-, s'', hs'', hcode⟩
  rw [hs', Option.some.injEq] at hs''
  rw [← hs'', hstatus] at hcode
  rcases hc with rfl | rfl | rfl
  · exact absurd hcode (by decide)
  · exact absurd hcode (by decide)
  · exact absurd hcode (by decide)

/-- The last frame of a datagram with command set version 9. -/
def wrongVersionFrame : RxFrame := ⟨0, [0, 0, 1, 9], by decide⟩

def wrongVersionState : LoopState nucleoFirmware Unit :=
  readingState [1, 144, 128, 142, 138, 1, 1, 0]

theorem executes_wrong_version :
    ∃ e, Executes blankPlatform wrongVersionState (blankRound (some wrongVersionFrame))
      wrongVersionFrame e ∧ e.result = -5 := by
  refine exists_executes rfl ?_ ?_ ?_ ?_ ?_
  · decide
  · decide +kernel
  · decide +kernel
  · decide +kernel
  · decide +kernel

/-- It is answered with status SUCCESS. -/
theorem error_reply_never_wrong_version :
    ∃ s', (roundStep blankPlatform wrongVersionState (blankRound (some wrongVersionFrame))).2 =
      some s' ∧ s'.status = success := by
  obtain ⟨e, hexec, hresult⟩ := executes_wrong_version
  exact (error_reply_never nucleoFirmware blankPlatform _ _ _ e hexec 5 (by decide) hresult).2.2

/-- So not every failed command is answered with its error code. -/
theorem error_reply_wrong_version :
    ∃ e, Executes blankPlatform wrongVersionState (blankRound (some wrongVersionFrame))
      wrongVersionFrame e ∧ e.result = -5 ∧
      ¬ ErrorReply 5
        (roundStep blankPlatform wrongVersionState (blankRound (some wrongVersionFrame))) := by
  obtain ⟨e, hexec, hresult⟩ := executes_wrong_version
  refine ⟨e, hexec, hresult, ?_⟩
  obtain ⟨-, s', hs', hstatus⟩ := hexec.error (c := 5) (by decide) hresult
  rintro ⟨-, s'', hs'', hcode⟩
  rw [hs', Option.some.injEq] at hs''
  rw [← hs'', hstatus] at hcode
  exact absurd hcode (by decide)

/-! ## Lengths -/

theorem length_of_slice {data : Store} {m n : Nat} {buf : Store}
    (h : data.slice 0 m = buf.slice 0 n) : m = n := by
  have := congrArg List.length h
  simpa using this

/-- A frame as `receive_frame` returns it. -/
def busFrame (x : Nat × List UInt8) : Frame := ⟨x.1, x.2, false, false, x.2.length⟩

/-- The client's reader makes one datagram of the frames, at the last of them, and these are its
    data. It does not matter what the reader has in its buffers. -/
def Reassembles (txs : List Transmission) (data : List UInt8) : Prop :=
  ∀ buf : ReaderBuf, ∃ dst src,
    (readCanDatagrams [] buf (txs.map fun t => some (busFrame t.onBus))).1.reduceOption =
      [.datagram data dst src]

theorem frame_of_datagram {source : Nat} (n : Nat) :
    ∀ {bytes : List UInt8} {startBit : Nat}, bytes.length ≤ n →
      ∀ f ∈ datagramToFramesFrom startBit bytes source, f = busFrame f.onBus := by
  induction n with
  | zero =>
      intro bytes startBit hlen f hf
      rw [datagramToFramesFrom_last _ _ (by omega)] at hf
      obtain rfl := List.mem_singleton.mp hf
      rfl
  | succ n ih =>
      intro bytes startBit hlen f hf
      by_cases hmore : 8 < bytes.length
      · rw [datagramToFramesFrom_more _ _ hmore] at hf
        rcases List.mem_cons.mp hf with rfl | hf
        · simp [busFrame, Frame.onBus]
          omega
        · exact ih (by rw [List.length_drop]; omega) f hf
      · rw [datagramToFramesFrom_last _ _ (by omega)] at hf
        obtain rfl := List.mem_singleton.mp hf
        rfl

theorem marked_frames (d : Datagram) (fs : List Frame) : (marked d fs).map Sent.frame = fs := by
  induction fs with
  | nil => rfl
  | cons f fs ih =>
      cases fs with
      | nil => rfl
      | cons f' fs => simpa [marked] using ih

theorem transmit_frames (s : Source) (d : Datagram) :
    (transmit s d).map Sent.frame = datagramToFrames d.wire s := by
  rw [transmit_eq, marked_frames]
  rfl

/-- The frames of one datagram. -/
theorem readCanDatagrams_transmit (source : Source) (d : Datagram) (buf : ReaderBuf) :
    (readCanDatagrams [] buf
      ((datagramToFrames d.wire source).map some)).1.reduceOption =
        [.datagram d.data d.destinations source] := by
  have hstreams : (fun s => if s = source then transmit source d else []) =
      fun s => (if s = source then [d] else []).flatMap (transmit s) := by
    funext s
    by_cases hs : s = source
    · subst hs
      simp
    · simp [hs]
  have hline := Interleaves.single source (transmit source d)
  rw [hstreams] at hline
  obtain ⟨hall, -⟩ := readCanDatagrams_interleaved _ _ hline buf
  have hevents : ((transmit source d).map fun x => some (source, x)).map received =
      (datagramToFrames d.wire source).map some := by
    rw [← transmit_frames, List.map_map, List.map_map]
    rfl
  rw [hevents] at hall
  rw [hall, List.map_map]
  refine List.filterMap_map.trans ?_
  have hcompletes := congrArg (List.map fun d : Datagram =>
    Yield.datagram d.data d.destinations source) (transmit_completes source d)
  rw [List.map_filterMap] at hcompletes
  exact hcompletes

/-- Frames with a start bit, none of which is long enough for a datagram. -/
theorem readCanDatagrams_started {frames : List (Nat × List UInt8)}
    (h : ∀ x ∈ frames, x.1 &&& 0x080 > 0 ∧ x.2.length ≤ 8) : ∀ buf : ReaderBuf,
    (readCanDatagrams [] buf (frames.map fun x => some (busFrame x))).1.reduceOption = [] := by
  induction frames with
  | nil => exact fun _ => rfl
  | cons x frames ih =>
      intro buf
      obtain ⟨⟨hstart, hlen⟩, hrest⟩ := List.forall_mem_cons.mp h
      have hbytes : bytesBehind buf (busFrame x) = [] := if_pos hstart
      have hpassing : ¬ Filtered [] (busFrame x) := by simp [Filtered, busFrame]
      have hstep := readerStep_passing hpassing buf
      rw [hbytes, List.nil_append] at hstep
      simp only [busFrame, List.take_length] at hstep
      rw [List.map_cons, readCanDatagrams]
      simp only [busFrame, hstep, decodeStep]
      by_cases hempty : x.2 = []
      · rw [hempty]
        rfl
      · rcases decodeDatagram_cases hempty with hnone | ⟨dst, data, -, hlong⟩
        · simp only [hnone]
          exact ih hrest _
        · omega

/-- What `return_datagram` sends reassembles to its data and to nothing else, if the ID of the node
    leaves the start bit free. If it does not, nothing reassembles. -/
theorem returnDatagram_reassembles (hcrc : CrcIsZlib fw.crc32) (sourceId destId : UInt8)
    (data : Store) {len : Nat} (hlen : len ≤ 255) {send : Nat → Bool}
    (hsend : ∀ k, send k = true) (bs : List UInt8) :
    Reassembles (returnDatagram fw sourceId destId data len send) bs ↔
      data.slice 0 len = bs ∧ sourceId.toNat ≤ 127 := by
  have hframes := returnDatagram_frames hcrc sourceId destId data (show len ≤ 789 by omega) hsend
  have hmap : (returnDatagram fw sourceId destId data len send).map
        (fun t => some (busFrame t.onBus)) =
      (nodeFrames sourceId 0x80 (replyDatagram destId data len (by omega)).wire).map
        fun x => some (busFrame x) := by
    rw [← hframes, List.map_map]
    rfl
  unfold Reassembles
  rw [hmap]
  by_cases hid : sourceId.toNat ≤ 127
  · -- the frames are those of the client's splitter
    let source : Source := ⟨sourceId.toNat, Nat.lt_succ_of_le hid⟩
    let d := replyDatagram destId data len (by omega)
    have hread := readCanDatagrams_transmit source d
    have hsource : (nodeFrames sourceId 0x80 d.wire).map (fun x => some (busFrame x)) =
        (datagramToFrames d.wire source).map some := by
      rw [nodeFrames_of_le hid _ (.inr rfl) le_rfl, List.map_map]
      exact List.map_congr_left fun f hf => congrArg some (frame_of_datagram _ le_rfl f hf).symm
    rw [hsource]
    constructor
    · intro h
      obtain ⟨dst, src, heq⟩ := h fun _ => none
      have hdata := (hread _).symm.trans heq
      exact ⟨(Yield.datagram.inj (List.singleton_inj.mp hdata)).1, hid⟩
    · rintro ⟨rfl, -⟩ buf
      exact ⟨_, _, hread buf⟩
  · constructor
    · intro h
      obtain ⟨dst, src, heq⟩ := h fun _ => none
      rw [readCanDatagrams_started (nodeFrames_of_lt (not_le.mp hid) _ le_rfl)] at heq
      exact absurd heq (by simp)
    · exact fun h => absurd h.2 hid

/-- A reply of `n` bytes can be put together exactly if `n` fits eight bits, and the ID with which
    the node sends it seven. -/
theorem reply_reassembles_iff (fw : Firmware) (hcrc : CrcIsZlib fw.crc32)
    (hcmp : WriteUintLaw fw.cmp) (p : Platform σ) (s : LoopState fw σ) (r : Round) (f : RxFrame)
    (e : Execution) (h : Executes p s r f e) (n : Nat) (hresult : e.result = n)
    (hn : 1 ≤ n ∧ n ≤ fw.outputBufferSize) (hsend : ∀ k, r.replySend k = true) :
    Reassembles (transmitted (roundStep p s r).1) (e.outBuf.slice 0 n) ↔
      n ≤ 255 ∧ e.config.ID.toNat ≤ 127 := by
  obtain ⟨s1, htx, -⟩ := h.round
  have hmod : (UInt8.ofInt e.result).toNat = n % 256 := by
    rw [hresult, UInt8.ofInt, UInt8.toNat_ofNat']
    omega
  rw [htx]
  by_cases hzero : UInt8.ofInt e.result = 0
  · -- a multiple of 256: the error reply has at most nine bytes
    have hpos := hcmp (.init e.outBuf fw.outputBufferSize) (0 : UInt8).toUInt64
    have hn0 : n % 256 = 0 := by rw [← hmod, hzero]; rfl
    simp only [CmpWriter.init] at hpos
    rw [sendReply_zero s1 f.id r.replySend hzero]
    simp only [returnErrorDatagram, CmpWriter.init]
    rw [returnDatagram_reassembles hcrc _ _ _ (by omega) hsend]
    constructor
    · rintro ⟨hslice, -⟩
      have := length_of_slice hslice
      omega
    · rintro ⟨hle, -⟩
      omega
  · rw [(sendReply_data s1 f.id r.replySend hzero).1,
      returnDatagram_reassembles hcrc _ _ _ (by omega) hsend]
    refine and_congr_left fun _ => ?_
    constructor
    · intro hslice
      have := length_of_slice hslice
      omega
    · intro hle
      rw [hmod, Nat.mod_eq_of_lt (by omega)]

def pingState : LoopState nucleoFirmware Unit := readingState [1, 87, 60, 167, 97, 1, 1, 0]

/-- A ping is answered with one byte. -/
theorem reply_reassembles_ping :
    ∃ e : Execution, Reassembles
      (transmitted (roundStep blankPlatform pingState (blankRound (some pingFrame))).1)
      (e.outBuf.slice 0 1) := by
  obtain ⟨e, hexec, hresult⟩ : ∃ e, Executes blankPlatform pingState
      (blankRound (some pingFrame)) pingFrame e ∧ e.result = 1 := by
    refine exists_executes rfl ?_ ?_ ?_ ?_ ?_
    · decide
    · decide +kernel
    · decide +kernel
    · decide +kernel
    · decide +kernel
  have hid : (execution blankPlatform (appendFrame pingState pingFrame 0)
      (blankRound (some pingFrame))).value.map (fun e => e.config.ID) = some 1 := by
    decide +kernel
  rw [show (execution blankPlatform (appendFrame pingState pingFrame 0)
    (blankRound (some pingFrame))).value = some e from hexec.value, Option.map_some,
    Option.some.injEq] at hid
  exact ⟨e, (reply_reassembles_iff nucleoFirmware (fun _ _ => rfl) Cmp.reference_writeUint
    blankPlatform _ _ _ e hexec 1 hresult (by decide) fun _ => rfl).mpr
      ⟨by decide, by rw [hid]; decide⟩⟩

/-- The last frame of a read-flash command for 300 bytes. -/
def readFlashFrame : RxFrame := ⟨0, [0, 0, 0, 206, 0, 0, 1, 44], by decide⟩

def readFlashState : LoopState nucleoFirmware Unit :=
  readingState [1, 38, 134, 153, 36, 1, 1, 0, 0, 0, 13, 3, 6, 146, 206, 8]

/-- Its reply has 303 bytes, of which 47 are sent. -/
theorem reply_truncated_read_flash :
    ∃ e, Executes blankPlatform readFlashState (blankRound (some readFlashFrame))
      readFlashFrame e ∧ e.result = 303 ∧
      ¬ Reassembles
        (transmitted (roundStep blankPlatform readFlashState
          (blankRound (some readFlashFrame))).1) (e.outBuf.slice 0 303) := by
  obtain ⟨e, hexec, hresult⟩ : ∃ e, Executes blankPlatform readFlashState
      (blankRound (some readFlashFrame)) readFlashFrame e ∧ e.result = 303 := by
    refine exists_executes rfl ?_ ?_ ?_ ?_ ?_
    · decide
    · decide +kernel
    · decide +kernel
    · decide +kernel
    · decide +kernel
  refine ⟨e, hexec, hresult, ?_⟩
  have hlength : UInt8.ofInt e.result = 47 := by
    rw [hresult]
    decide
  have hcrc : CrcIsZlib nucleoFirmware.crc32 := fun _ _ => rfl
  have hsend : ∀ k, (blankRound (some readFlashFrame)).replySend k = true := fun _ => rfl
  obtain ⟨s1, htx, -⟩ := hexec.round
  rw [htx, (sendReply_data s1 _ _ (by rw [hlength]; decide)).1, hlength,
    returnDatagram_reassembles hcrc _ _ _ (by decide) hsend]
  rintro ⟨hslice, -⟩
  exact absurd (length_of_slice hslice) (by decide)

end CanBootloader
