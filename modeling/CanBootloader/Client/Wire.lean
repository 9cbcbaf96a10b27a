/-
  Sessions frame by frame.

  On the lossy bus of a session a transmission is one step of the boards. On the wire it is an
  exchange: the boards run their main loops on what they receive, and the client reads what the
  line carries (`wire`). If commands leave the IDs of the boards as they are, the wire simulates the
  lossy bus (`wire_simulates`), and a wire that loses nothing the one that loses nothing
  (`losslessWire_simulates`).
-/
import CanBootloader.Client.BusFrames
import CanBootloader.Client.Lossless

namespace CanBootloader

open Lib AtLeastOnce

variable {fw : Firmware} {σ ι : Type} {p : Platform σ}

/-! ## The wire -/

/-- The main loops of the boards, which run on during a transmission and up to the next one, and
    what the client reads off the line. -/
def wire (fw : Firmware) (p : Platform σ) : Medium ι (LoopState fw σ) where
  Transmits _ b _ frames b' := ∃ rounds streams line buf,
    Exchange p frames b.nodes b'.nodes rounds streams ∧ Interleaves streams line ∧
      b'.received = heardReplies buf line
  TimesOut _ := True

/-- An exchange in which nothing is lost or late: every board gets the frames of the command in
    time, and the client gets all that the boards send. -/
structure LosslessExchange (p : Platform σ) (frames : List Frame) (s s' : ι → LoopState fw σ)
    (rounds : ι → List Round) (streams : Source → List (Nat × List UInt8)) : Prop where
  ends : ∀ i, (runRounds p (s i) (rounds i)).2 = some (s' i)
  arrives : ∀ i, Arrives (s i).config.ID (frames.map Frame.onBus) (rounds i)
  quiet : ∀ i, ∀ e ∈ (runRounds p (s i) (rounds i)).1, ¬ e.isTimeout
  ok : ∀ i, ∀ t ∈ transmitted (runRounds p (s i) (rounds i)).1, t.ok = true
  carries : ∀ i (source : Source), (s' i).config.ID.toNat = source →
    streams source = (transmitted (runRounds p (s i) (rounds i)).1).map Transmission.onBus
  silent : ∀ source : Source, (∀ i, (s' i).config.ID.toNat ≠ source) → streams source = []

theorem LosslessExchange.exchange {frames : List Frame} {s s' : ι → LoopState fw σ}
    {rounds : ι → List Round} {streams : Source → List (Nat × List UInt8)}
    (h : LosslessExchange p frames s s' rounds streams) :
    Exchange p frames s s' rounds streams where
  ends := h.ends
  request i := .inl ⟨rounds i, [], s' i, (List.append_nil _).symm, h.arrives i, h.quiet i,
    h.ends i, rfl⟩
  streams source := by
    by_cases hsource : ∃ i, (s' i).config.ID.toNat = source
    · obtain ⟨i, hi⟩ := hsource
      exact .inr ⟨i, hi, h.ok i, h.carries i source hi⟩
    · exact .inl (h.silent source fun i hi => hsource ⟨i, hi⟩)

/-- The wire when nothing is lost, and the client does not give up on what is there. -/
def losslessWire (fw : Firmware) (p : Platform σ) : Medium ι (LoopState fw σ) where
  Transmits _ b _ frames b' := ∃ rounds streams line buf,
    LosslessExchange p frames b.nodes b'.nodes rounds streams ∧ Interleaves streams line ∧
      b'.received = heardReplies buf line
  TimesOut b := b.received = []

/-- What a call can send to the boards: a command that fits their input buffer, from source 0, to
    somebody, and it leaves their IDs as they are. -/
structure RetryCall.Sendable (c : RetryCall) (fw : Firmware) (p : Platform σ) : Prop where
  source : c.source = 0
  command_ne : c.command ≠ []
  command_le : c.command.length ≤ fw.inputBufferSize
  destinations_ne : c.destinations ≠ []
  keepsId : (firmwareBoards fw p).KeepsId c.command

section Refinement

variable (hcrc : CrcIsZlib fw.crc32) (hwrite : WriteLaw fw.cmp) (hroom : 0 < fw.outputBufferSize)
  (hjump : fw.commandJumpDisableCrcChecking = false) {c : RetryCall} (hc : c.Sendable fw p)

include hcrc hwrite hroom hjump hc

/-- An exchange keeps the IDs. -/
theorem Exchange.keepsId {s s' : ι → LoopState fw σ} {rounds : ι → List Round}
    {streams : Source → List (Nat × List UInt8)} {boards : List Nat} {frames : List Frame}
    (h : Exchange p frames s s' rounds streams)
    (hsend : writeCommand c.command boards c.source = some frames) (hboards : boards ≠ [])
    (i : ι) : (s' i).config.ID.toNat = (s i).config.ID.toNat := by
  rw [hc.source] at hsend
  obtain ⟨reply, ds, htakes, -⟩ := h.takes hcrc hwrite hroom hjump hsend
    ⟨hc.command_ne, hc.command_le⟩ hboards i
  exact htakes.hears.keepsId hc.keepsId

/-- Boards with IDs of 7 bits. -/
theorem wire_simulates :
    (wire fw p : Medium ι (LoopState fw σ)).Simulates (firmwareBoards fw p).lossy LoopState.board
      (fun s => ∀ i, (s i).config.ID.toNat ≤ 127) c where
  transmit := by
    rintro b ⟨s', -⟩ boards frames hsend hboards hid ⟨rounds, streams, line, buf, h, hline, rfl⟩
    have hkeeps := h.keepsId hcrc hwrite hroom hjump hc hsend hboards
    have hid' : ∀ i, (s' i).config.ID.toNat ≤ 127 := fun i => (hkeeps i).trans_le (hid i)
    rw [hc.source] at hsend
    exact ⟨hid', h.transmits hcrc hwrite hroom hjump hsend ⟨hc.command_ne, hc.command_le⟩ hboards
      hid' hline buf b.received⟩
  timesOut := fun _ => trivial

omit hjump in
/-- What the boards do in a lossless exchange, and that all of it is heard. -/
theorem LosslessExchange.delivery {s s' : ι → LoopState fw σ} {rounds : ι → List Round}
    {streams : Source → List (Nat × List UInt8)} {boards : List Nat} {frames : List Frame}
    (h : LosslessExchange p frames s s' rounds streams)
    (hsend : writeCommand c.command boards 0 = some frames) (hboards : boards ≠ [])
    (hid : ∀ i, (s' i).config.ID.toNat ≤ 127)
    (hinj : Function.Injective fun i => (s' i).config.ID.toNat)
    {line : List (Option (Source × (Nat × List UInt8)))} (hline : Interleaves streams line)
    (buf : ReaderBuf) (received : List (Nat × List UInt8)) :
    (firmwareBoards fw p).lossless.Transmits c.command ⟨fun i => (s i).board, received⟩ boards
      frames ⟨fun i => (s' i).board, heardReplies buf line⟩ := by
  have htakes := fun i => request_takes hcrc hwrite hroom hsend ⟨hc.command_ne, hc.command_le⟩
    hboards (h.arrives i) (h.quiet i) (h.ends i)
  choose replies ds htakes hsome honly using htakes
  -- the datagrams of a source are those of its board
  have hsource : ∀ source : Source, ∃ sent : List Datagram,
      streams source = sent.flatMap (busFrames source) ∧
      (∀ i, (s' i).config.ID.toNat = source → sent = ds i) ∧
      (sent ≠ [] → ∃ i, (s' i).config.ID.toNat = source) := by
    intro source
    by_cases hex : ∃ i, (s' i).config.ID.toNat = source
    · obtain ⟨i, hi⟩ := hex
      refine ⟨ds i, ?_, fun j hj => ?_, fun _ => ⟨i, hi⟩⟩
      · rw [h.carries i source hi, (htakes i).frames (hid i) (h.ok i), ← hi]
        rfl
      · rw [hinj (hj.trans hi.symm)]
    · exact ⟨[], h.silent source fun i hi => hex ⟨i, hi⟩, fun i hi => absurd ⟨i, hi⟩ hex,
        fun hne => absurd rfl hne⟩
  choose sent hsent hown hboard using hsource
  obtain rfl : streams = fun source => (sent source).flatMap (busFrames source) := funext hsent
  refine ⟨replies, fun i => (htakes i).hears, fun i hi => hsome i hi, fun i a ha => ?_,
    fun x hx => ?_⟩
  · obtain ⟨d, hd, hbytes⟩ := (htakes i).replies a ha
    refine (mem_heardReplies hline buf _).mpr
      ⟨⟨(s' i).config.ID.toNat, Nat.lt_succ_of_le (hid i)⟩, d, ?_, by rw [hbytes]; rfl⟩
    rwa [hown _ i rfl]
  · obtain ⟨source, d, hd, rfl⟩ := (mem_heardReplies hline buf x).mp hx
    obtain ⟨i, hi⟩ := hboard source (List.ne_nil_of_mem hd)
    rw [hown source i hi] at hd
    obtain ⟨a, ha, hbytes⟩ := honly i d hd
    exact ⟨i, a, ha, by rw [hbytes, ← hi]; rfl⟩

/-- Boards with distinct IDs of 7 bits. -/
theorem losslessWire_simulates :
    (losslessWire fw p : Medium ι (LoopState fw σ)).Simulates (firmwareBoards fw p).lossless
      LoopState.board (fun s => (∀ i, (s i).config.ID.toNat ≤ 127) ∧
        Function.Injective fun i => (s i).config.ID.toNat) c where
  transmit := by
    rintro b ⟨s', -⟩ boards frames hsend hboards ⟨hid, hinj⟩ ⟨rounds, streams, line, buf, h, hline,
      rfl⟩
    have hkeeps := h.exchange.keepsId hcrc hwrite hroom hjump hc hsend hboards
    have hid' : ∀ i, (s' i).config.ID.toNat ≤ 127 := fun i => (hkeeps i).trans_le (hid i)
    have hinj' : Function.Injective fun i => (s' i).config.ID.toNat := by
      rwa [show (fun i => (s' i).config.ID.toNat) = _ from funext hkeeps]
    rw [hc.source] at hsend
    exact ⟨⟨hid', hinj'⟩, h.delivery hcrc hwrite hroom hc hsend hboards hid' hinj' hline buf
      b.received⟩
  timesOut := fun h => h

end Refinement

/-- A wire that loses nothing is a wire. -/
theorem losslessWire_wire (c : RetryCall) :
    (losslessWire fw p : Medium ι (LoopState fw σ)).Simulates (wire fw p) id (fun _ => True) c where
  transmit := by
    rintro b b' boards frames - - - ⟨rounds, streams, line, buf, h, hline, hreceived⟩
    exact ⟨trivial, rounds, streams, line, buf, h.exchange, hline, hreceived⟩
  timesOut := fun _ => trivial

end CanBootloader
