/-
  The bus of a session, frame by frame.

  `BusStep.transmit` is one step of a session: every board executes the command or misses it, and
  what it sends is in the reception buffer or lost. Below that are the main loops of the boards,
  which get the frames of the command among others, and the reader of the client, which gets the
  frames of all boards in any order.

  * `mem_heardReplies`: the reader hears the datagrams that are on the line, and no others.
  * `board_executes`, `board_misses`: what the main loop of a board does while a command is
    transmitted.
  * `transmission_refines`: so a transmission is a step of the session.
-/
import CanBootloader.Client.MainLoop
import CanBootloader.Client.Reassembly

namespace CanBootloader

open Lib

/-! ## The reader -/

/-- The contents of a datagram that is yielded, with its source. -/
def heardReply : Option Yield → Option (Nat × List UInt8)
  | some (.datagram data _ src) => some (src, data)
  | _ => none

/-- What the client hears on a line where each source sends its frames. -/
def heardReplies (buf : ReaderBuf) (line : List (Option (Source × (Nat × List UInt8)))) :
    List (Nat × List UInt8) :=
  (readCanDatagrams [] buf (line.map fun e => e.map fun x => busFrame x.2)).1.filterMap heardReply

/-- The frames that a source sends for some datagrams. -/
theorem transmit_busFrames (s : Source) (ds : List Datagram) :
    (ds.flatMap (transmit s)).map (fun x => x.frame.onBus) = ds.flatMap (busFrames s) := by
  rw [List.map_flatMap]
  congr 1
  funext d
  rw [busFrames, ← transmit_frames, List.map_map]
  rfl

/-- The datagrams heard are those of the sources. -/
theorem mem_heardReplies {ds : Source → List Datagram}
    {line : List (Option (Source × (Nat × List UInt8)))}
    (h : Interleaves (fun s => (ds s).flatMap (busFrames s)) line) (buf : ReaderBuf)
    (x : Nat × List UInt8) :
    x ∈ heardReplies buf line ↔ ∃ s, ∃ d ∈ ds s, x = ((s : Nat), d.data) := by
  have hstreams : (fun s => (ds s).flatMap (busFrames s)) =
      fun s : Source => ((ds s).flatMap (transmit s)).map fun x => x.frame.onBus :=
    funext fun s => (transmit_busFrames s (ds s)).symm
  rw [hstreams] at h
  obtain ⟨events, hevents, rfl⟩ := h.of_map
  have hframes : (events.map (Option.map (Prod.map id fun x : Sent => x.frame.onBus))).map
      (fun e => e.map fun x => busFrame x.2) = events.map received := by
    rw [List.map_map]
    apply List.map_congr_left
    intro e he
    rcases e with _ | ⟨s, sent⟩
    · rfl
    · have hmem : sent ∈ (ds s).flatMap (transmit s) := by
        have hstream := hevents s
        simp only at hstream
        rw [← hstream]
        exact List.mem_filterMap.mpr ⟨_, he, by simp [onChannel]⟩
      obtain ⟨d, -, hsent⟩ := List.mem_flatMap.mp hmem
      have hframe : sent.frame ∈ datagramToFrames d.wire s := by
        rw [← transmit_frames]
        exact List.mem_map_of_mem hsent
      have hbus := frame_of_datagram _ le_rfl _ hframe
      simp [received, ← hbus]
  rw [heardReplies, hframes, readCanDatagrams_awaits hevents buf fun s => .start (ds s)]
  have hsource := expected_of_source hevents
  constructor
  · intro hx
    obtain ⟨y, hy, hyx⟩ := List.mem_filterMap.mp hx
    obtain ⟨e, he, rfl⟩ := List.mem_map.mp hy
    rcases e with _ | ⟨s, f, _ | d⟩
    · simp [expected, heardReply] at hyx
    · simp [expected, heardReply] at hyx
    · simp only [expected, Option.map_some, heardReply, Option.some.injEq] at hyx
      have hd : (d.data, d.destinations) ∈ (ds s).map fun d => (d.data, d.destinations) := by
        rw [← hsource s]
        exact List.mem_filterMap.mpr ⟨_, hy, by simp [expected, yieldOf]⟩
      obtain ⟨d', hd', heq⟩ := List.mem_map.mp hd
      exact ⟨s, d', hd', by rw [← hyx, (Prod.mk.inj heq).1]⟩
  · rintro ⟨s, d, hd, rfl⟩
    have hmem : (d.data, d.destinations) ∈ (events.map expected).filterMap (yieldOf s) := by
      rw [hsource s]
      exact List.mem_map_of_mem (f := fun d => (d.data, d.destinations)) hd
    obtain ⟨y, hy, hyd⟩ := List.mem_filterMap.mp hmem
    refine List.mem_filterMap.mpr ⟨y, hy, ?_⟩
    rcases y with _ | _ | ⟨data, dst, src⟩
    · simp [yieldOf] at hyd
    · simp [yieldOf] at hyd
    · simp only [yieldOf, Option.ite_none_right_eq_some, Option.some.injEq, Prod.mk.injEq] at hyd
      simp [heardReply, hyd]

/-! ## The boards -/

variable {fw : Firmware} {σ : Type} {p : Platform σ}

/-- What a board does while a command is transmitted, and the datagrams that it sends: its reply if
    it executes the command, and complaints. -/
structure Takes (fw : Firmware) (p : Platform σ) (command : List UInt8) (boards : List Nat)
    (n : Board σ) (txs : List Transmission) (n' : Board σ) (reply : Option BoardReply)
    (ds : List Datagram) : Prop where
  hears : (firmwareBoards fw p).Hears command boards n reply n'
  frames : n'.config.ID.toNat ≤ 127 → (∀ t ∈ txs, t.ok = true) →
    txs.map Transmission.onBus = ds.flatMap (busFrames n'.config.ID.toNat)
  contents : ∀ d ∈ ds, (∃ a, reply = some a ∧ d.data = a.bytes) ∨
    (firmwareBoards fw p).Complaint d.data
  replies : ∀ a, reply = some a → ∃ d ∈ ds, d.data = a.bytes

/-- Complaints behind it. -/
theorem Takes.append {command : List UInt8} {boards : List Nat} {n m n' : Board σ}
    {txs txs' : List Transmission} {reply : Option BoardReply} {ds ds' : List Datagram}
    (h : Takes fw p command boards n txs m reply ds)
    (h' : Takes fw p command boards m txs' n' none ds') :
    Takes fw p command boards n (txs ++ txs') n' reply (ds ++ ds') := by
  obtain rfl : n' = m := h'.hears
  refine ⟨h.hears, fun hid hok => ?_, fun d hd => ?_, fun a ha => ?_⟩
  · obtain ⟨hfirst, hrest⟩ := List.forall_mem_append.mp hok
    rw [List.map_append, List.flatMap_append, h.frames hid hfirst, h'.frames hid hrest]
  · rcases List.mem_append.mp hd with hd | hd
    · exact h.contents d hd
    · exact .inr ((h'.contents d hd).resolve_left fun ⟨_, hnone, _⟩ => nomatch hnone)
  · obtain ⟨d, hd, heq⟩ := h.replies a ha
    exact ⟨d, List.mem_append_left _ hd, heq⟩

/-- A run without executions consists of complaints. -/
theorem BoardRun.complaints {n : Board σ} {acts : List Act} {last : Option (Board σ)}
    (h : BoardRun fw p n acts last) {n' : Board σ} (hlast : last = some n')
    (hnone : acts.filterMap Act.executed = []) :
    n' = n ∧ ∃ ds : List Datagram, (∀ d ∈ ds, (firmwareBoards fw p).Complaint d.data) ∧
      (n'.config.ID.toNat ≤ 127 → (∀ t ∈ acts.flatMap Act.sent, t.ok = true) →
        (acts.flatMap Act.sent).map Transmission.onBus =
          ds.flatMap (busFrames n'.config.ID.toNat)) := by
  induction h with
  | nil n =>
      cases hlast
      exact ⟨rfl, [], by simp, fun _ _ => rfl⟩
  | execute hexec hsent hrest ih => simp [Act.executed] at hnone
  | @complain n code sent acts last hcode hsent hrest ih =>
      obtain ⟨rfl, ds, hds, hframes⟩ := ih hlast (by simpa [Act.executed] using hnone)
      obtain ⟨d, hd, hsends⟩ := hsent.busFrames
      refine ⟨rfl, d :: ds, ?_, fun hid hok => ?_⟩
      · refine List.forall_mem_cons.mpr ⟨?_, hds⟩
        rcases hcode with rfl | rfl
        · exact .inl hd
        · exact .inr hd
      · rw [List.flatMap_cons, List.forall_mem_append] at hok
        rw [List.flatMap_cons, List.map_append, hframes hid hok.2, List.flatMap_cons]
        congr 1
        exact hsends hid hok.1
  | reboot => cases hlast

/-- The request of a transmission has arrived whole, and in time. Behind it the board executes
    nothing. -/
def Intact (p : Platform σ) (s : LoopState fw σ) (frames : List Frame) (rounds : List Round) :
    Prop :=
  ∃ request after m, rounds = request ++ after ∧
    Arrives s.config.ID (frames.map Frame.onBus) request ∧
    (∀ e ∈ (runRounds p s request).1, ¬ e.isTimeout) ∧ (runRounds p s request).2 = some m ∧
    executed (runRounds p m after).1 = []

/-- A transmission, as the boards and the client see it. Every board gets the frames of the command
    whole and in time, or whatever else, as long as it executes nothing; of a board the client gets
    all frames, or none, if one of them got lost. -/
structure Exchange (p : Platform σ) {ι : Type} (frames : List Frame) (s s' : ι → LoopState fw σ)
    (rounds : ι → List Round) (streams : Source → List (Nat × List UInt8)) : Prop where
  ends : ∀ i, (runRounds p (s i) (rounds i)).2 = some (s' i)
  request : ∀ i, Intact p (s i) frames (rounds i) ∨ executed (runRounds p (s i) (rounds i)).1 = []
  streams : ∀ source, streams source = [] ∨ ∃ i, (s' i).config.ID.toNat = source ∧
    (∀ t ∈ transmitted (runRounds p (s i) (rounds i)).1, t.ok = true) ∧
    streams source = (transmitted (runRounds p (s i) (rounds i)).1).map Transmission.onBus

section Takes

variable (hcrc : CrcIsZlib fw.crc32) (hwrite : WriteLaw fw.cmp) (hroom : 0 < fw.outputBufferSize)
  (hjump : fw.commandJumpDisableCrcChecking = false)

include hcrc hwrite hroom

/-- Behind the frames of a command the board has executed it, if it is for it. -/
theorem request_takes {s m : LoopState fw σ} {rounds : List Round} {command : List UInt8}
    {boards : List Nat} {frames : List Frame} (hsend : writeCommand command boards 0 = some frames)
    (hcommand : command ≠ [] ∧ command.length ≤ fw.inputBufferSize) (hboards : boards ≠ [])
    (harrives : Arrives s.config.ID (frames.map Frame.onBus) rounds)
    (hquiet : ∀ e ∈ (runRounds p s rounds).1, ¬ e.isTimeout)
    (hm : (runRounds p s rounds).2 = some m) :
    ∃ reply ds, Takes fw p command boards s.board (transmitted (runRounds p s rounds).1) m.board
      reply ds ∧ (s.config.ID.toNat ∈ boards → reply ≠ none) ∧
      ∀ d ∈ ds, ∃ a, reply = some a ∧ d.data = a.bytes := by
  obtain ⟨bytes, hbytes, hframes⟩ := Option.map_eq_some_iff.mp hsend
  unfold encodeFor at hbytes
  split_ifs at hbytes with hsmall
  obtain ⟨d, hdata, hdest, rfl⟩ := encodeDatagram_some hbytes
  obtain ⟨t, r, id, h⟩ := arrived_of_arrives p (d := d)
    (by rw [hdest]; simpa using hboards) (by rw [hdata]; exact hcommand.1)
    (by rw [hdata]; exact hcommand.2) harrives s true d.wire rfl (by rw [← hframes]; rfl) rfl
    hquiet
  have hvalid := holds_valid hcrc h.holds
  have hboard : t.board = s.board := by
    rw [LoopState.board, h.config, h.world]
    rfl
  have hmem : s.config.ID ∈ d.destinations ↔ s.config.ID.toNat ∈ boards := by
    rw [hdest, List.mem_map]
    constructor
    · rintro ⟨b, hb, heq⟩
      rwa [← heq, UInt8.toNat_ofNat_of_lt' (hsmall b hb)]
    · exact fun hb => ⟨_, hb, UInt8.ofNat_toNat⟩
  rw [h.run] at hm ⊢
  by_cases hfor : s.config.ID ∈ d.destinations
  · obtain ⟨a, hexec, hreply, -, -⟩ := handleDatagram_executes hcrc hwrite hroom hvalid
      (by rw [addressed_of_holds h.holds, h.config]; simpa using hfor) hm
    obtain ⟨d', hd', hsends⟩ := hreply.busFrames
    rw [payload_of_holds h.holds, hdata, hboard] at hexec
    refine ⟨some a, [d'], ⟨⟨hmem.mp hfor, hexec⟩, fun hid hok => ?_, ?_, ?_⟩, by simp, ?_⟩
    · rw [List.flatMap_singleton]
      exact hsends hid hok
    · simp [hd']
    · simp [hd']
    · simp [hd']
  · have hother : handleDatagram p t id r = _ := handleDatagram_other p hvalid
      (by rw [addressed_of_holds h.holds, h.config]; simpa using hfor)
    rw [hother] at hm ⊢
    refine ⟨none, [], ⟨?_, fun _ _ => rfl, by simp, by simp⟩,
      fun hin => absurd (hmem.mpr hin) hfor, by simp⟩
    rw [← hboard, ← Option.some.inj hm]
    rfl

include hjump

/-- Whatever the board has received, it has missed the command if it has executed nothing. -/
theorem board_misses {s s' : LoopState fw σ} {rounds : List Round} (command : List UInt8)
    (boards : List Nat) (hnone : executed (runRounds p s rounds).1 = [])
    (hends : (runRounds p s rounds).2 = some s') :
    ∃ ds, Takes fw p command boards s.board (transmitted (runRounds p s rounds).1) s'.board
      none ds := by
  obtain ⟨acts, hrun, hshows⟩ := main_loop_acts (p := p) hcrc hwrite hroom hjump rounds s
  rw [hends] at hrun
  rw [hshows.executed] at hnone
  rw [hshows.transmitted]
  obtain ⟨hboard, ds, hds, hframes⟩ := hrun.complaints rfl hnone
  exact ⟨ds, hboard, hframes, fun d hd => .inr (hds d hd), by simp⟩

/-- Behind an intact request there are complaints at most. -/
theorem board_executes {s s' : LoopState fw σ} {rounds : List Round} {command : List UInt8}
    {boards : List Nat} {frames : List Frame} (hsend : writeCommand command boards 0 = some frames)
    (hcommand : command ≠ [] ∧ command.length ≤ fw.inputBufferSize) (hboards : boards ≠ [])
    (hintact : Intact p s frames rounds) (hends : (runRounds p s rounds).2 = some s') :
    ∃ reply ds, Takes fw p command boards s.board (transmitted (runRounds p s rounds).1) s'.board
      reply ds ∧ (s.config.ID.toNat ∈ boards → reply ≠ none) := by
  obtain ⟨request, after, m, rfl, harrives, hquiet, hm, hafter⟩ := hintact
  rw [runRounds_append p request hm] at hends ⊢
  rw [transmitted_append]
  obtain ⟨reply, ds, htakes, hsome, -⟩ := request_takes hcrc hwrite hroom hsend hcommand hboards
    harrives hquiet hm
  obtain ⟨complaints, hcomplaints⟩ :=
    board_misses hcrc hwrite hroom hjump command boards hafter hends
  exact ⟨reply, _, htakes.append hcomplaints, hsome⟩

end Takes

/-! ## A transmission -/

section Exchange

variable {ι : Type} {s s' : ι → LoopState fw σ} {rounds : ι → List Round}
  {streams : Source → List (Nat × List UInt8)} {command : List UInt8} {boards : List Nat}
  {frames : List Frame}

/-- What every board does in an exchange. -/
theorem Exchange.takes (h : Exchange p frames s s' rounds streams) (hcrc : CrcIsZlib fw.crc32)
    (hwrite : WriteLaw fw.cmp) (hroom : 0 < fw.outputBufferSize)
    (hjump : fw.commandJumpDisableCrcChecking = false)
    (hsend : writeCommand command boards 0 = some frames)
    (hcommand : command ≠ [] ∧ command.length ≤ fw.inputBufferSize) (hboards : boards ≠ [])
    (i : ι) :
    ∃ reply ds, Takes fw p command boards (s i).board
      (transmitted (runRounds p (s i) (rounds i)).1) (s' i).board reply ds ∧
      (Intact p (s i) frames (rounds i) → (s i).config.ID.toNat ∈ boards → reply ≠ none) := by
  by_cases hintact : Intact p (s i) frames (rounds i)
  · obtain ⟨reply, ds, htakes, hsome⟩ := board_executes hcrc hwrite hroom hjump hsend hcommand
      hboards hintact (h.ends i)
    exact ⟨reply, ds, htakes, fun _ => hsome⟩
  · obtain ⟨ds, htakes⟩ := board_misses hcrc hwrite hroom hjump command boards
      ((h.request i).resolve_left hintact) (h.ends i)
    exact ⟨none, ds, htakes, fun hin => absurd hin hintact⟩

/-- The client gets the datagrams of each source whole: those of one board, or none. -/
theorem Exchange.sent (h : Exchange p frames s s' rounds streams)
    (hid : ∀ i, (s' i).config.ID.toNat ≤ 127) {replies : ι → Option BoardReply}
    {ds : ι → List Datagram}
    (htakes : ∀ i, Takes fw p command boards (s i).board
      (transmitted (runRounds p (s i) (rounds i)).1) (s' i).board (replies i) (ds i)) :
    ∃ sent : Source → List Datagram,
      streams = (fun source => (sent source).flatMap (busFrames source)) ∧
      ∀ source, sent source = [] ∨ ∃ i, (s' i).config.ID.toNat = source ∧ sent source = ds i := by
  have hsource : ∀ source, ∃ sent, streams source = sent.flatMap (busFrames source) ∧
      (sent = [] ∨ ∃ i, (s' i).config.ID.toNat = source ∧ sent = ds i) := by
    intro source
    rcases h.streams source with hnil | ⟨i, hsrc, hok, heq⟩
    · exact ⟨[], hnil, .inl rfl⟩
    · refine ⟨ds i, ?_, .inr ⟨i, hsrc, rfl⟩⟩
      rw [heq, (htakes i).frames (hid i) hok, ← hsrc]
      rfl
  choose sent hsent hboard using hsource
  exact ⟨sent, funext hsent, hboard⟩

/-- An exchange is a transmission of the session: the boards execute the command or miss it, and
    the client hears replies and complaints. -/
theorem Exchange.transmits (h : Exchange p frames s s' rounds streams) (hcrc : CrcIsZlib fw.crc32)
    (hwrite : WriteLaw fw.cmp) (hroom : 0 < fw.outputBufferSize)
    (hjump : fw.commandJumpDisableCrcChecking = false)
    (hsend : writeCommand command boards 0 = some frames)
    (hcommand : command ≠ [] ∧ command.length ≤ fw.inputBufferSize) (hboards : boards ≠ [])
    (hid : ∀ i, (s' i).config.ID.toNat ≤ 127)
    {line : List (Option (Source × (Nat × List UInt8)))} (hline : Interleaves streams line)
    (buf : ReaderBuf) (received : List (Nat × List UInt8)) :
    (firmwareBoards fw p).lossy.Transmits command ⟨fun i => (s i).board, received⟩ boards frames
      ⟨fun i => (s' i).board, heardReplies buf line⟩ := by
  choose replies ds htakes _ using h.takes hcrc hwrite hroom hjump hsend hcommand hboards
  obtain ⟨sent, rfl, hboard⟩ := h.sent hid htakes
  refine ⟨replies, fun i => (htakes i).hears, fun x hx => ?_⟩
  obtain ⟨source, d, hd, rfl⟩ := (mem_heardReplies hline buf x).mp hx
  rcases hboard source with hnil | ⟨i, hsrc, heq⟩
  · rw [hnil] at hd
    exact absurd hd List.not_mem_nil
  · rw [heq] at hd
    refine ⟨i, ?_, (htakes i).contents d hd⟩
    show (source : Nat) = (s' i).config.ID.toNat % 128
    rw [hsrc, Nat.mod_eq_of_lt source.isLt]

/-- The client hears a board that has got the command, if the frames of that board are not
    lost. -/
theorem Exchange.heard (h : Exchange p frames s s' rounds streams) (hcrc : CrcIsZlib fw.crc32)
    (hwrite : WriteLaw fw.cmp) (hroom : 0 < fw.outputBufferSize)
    (hjump : fw.commandJumpDisableCrcChecking = false)
    (hsend : writeCommand command boards 0 = some frames)
    (hcommand : command ≠ [] ∧ command.length ≤ fw.inputBufferSize) (hboards : boards ≠ [])
    (hid : ∀ i, (s' i).config.ID.toNat ≤ 127)
    {line : List (Option (Source × (Nat × List UInt8)))} (hline : Interleaves streams line)
    (buf : ReaderBuf) {i : ι} (hintact : Intact p (s i) frames (rounds i))
    (hmem : (s i).config.ID.toNat ∈ boards)
    (hok : ∀ t ∈ transmitted (runRounds p (s i) (rounds i)).1, t.ok = true)
    (hstream : ∀ source : Source, (s' i).config.ID.toNat = source →
      streams source = (transmitted (runRounds p (s i) (rounds i)).1).map Transmission.onBus) :
    ∃ a, boardExec fw p (s i).board command a (s' i).board ∧
      ((s' i).config.ID.toNat, a.bytes) ∈ heardReplies buf line := by
  choose replies ds htakes hsome using h.takes hcrc hwrite hroom hjump hsend hcommand hboards
  obtain ⟨sent, rfl, hboard⟩ := h.sent hid htakes
  obtain ⟨a, ha⟩ := Option.ne_none_iff_exists'.mp (hsome i hintact hmem)
  have hhears := (htakes i).hears
  rw [ha] at hhears
  refine ⟨a, hhears.2, ?_⟩
  -- the frames on the line are those of the board, so its reply is among them
  let source : Source := ⟨(s' i).config.ID.toNat, Nat.lt_succ_of_le (hid i)⟩
  obtain ⟨d, hd, hbytes⟩ := (htakes i).replies a ha
  have hframes : (sent source).flatMap (busFrames source) = (ds i).flatMap (busFrames source) :=
    (hstream source rfl).trans ((htakes i).frames (hid i) hok)
  let own : Source → List Datagram := fun x => if x = source then ds i else sent x
  have hown : (fun x => (sent x).flatMap (busFrames x)) =
      fun x : Source => (own x).flatMap (busFrames x) := by
    funext x
    by_cases hx : x = source
    · subst hx
      simpa only [own, if_true] using hframes
    · simp only [own, if_neg hx]
  rw [hown] at hline
  exact (mem_heardReplies hline buf _).mpr
    ⟨source, d, by simpa only [own, if_true] using hd, by rw [hbytes]⟩

end Exchange

/-- An exchange, with the frames of the boards in any order between the boards, is one step of the
    session: the boards execute the command or miss it, and the client hears replies and
    complaints. It hears a board that has got the command, if the frames of that board are not
    lost. -/
theorem transmission_refines (fw : Firmware) (hcrc : CrcIsZlib fw.crc32) (hwrite : WriteLaw fw.cmp)
    (hroom : 0 < fw.outputBufferSize) (hjump : fw.commandJumpDisableCrcChecking = false)
    (p : Platform σ) {ι : Type} (s s' : ι → LoopState fw σ) (rounds : ι → List Round)
    (streams : Source → List (Nat × List UInt8)) (command : List UInt8) (boards : List Nat)
    (frames : List Frame) (hsend : writeCommand command boards 0 = some frames)
    (hcommand : command ≠ [] ∧ command.length ≤ fw.inputBufferSize) (hboards : boards ≠ [])
    (hexchange : Exchange p frames s s' rounds streams)
    (hid : ∀ i, (s' i).config.ID.toNat ≤ 127)
    (line : List (Option (Source × (Nat × List UInt8)))) (hline : Interleaves streams line)
    (buf : ReaderBuf) (received : List (Nat × List UInt8)) :
    BusStep (firmwareBoards fw p).lossy command ⟨fun i => (s i).board, received⟩
      (.transmit boards frames) ⟨fun i => (s' i).board, heardReplies buf line⟩ ∧
    ∀ i, Intact p (s i) frames (rounds i) → (s i).config.ID.toNat ∈ boards →
      (∀ t ∈ transmitted (runRounds p (s i) (rounds i)).1, t.ok = true) →
      (∀ source : Source, (s' i).config.ID.toNat = source →
        streams source = (transmitted (runRounds p (s i) (rounds i)).1).map Transmission.onBus) →
      ∃ a, boardExec fw p (s i).board command a (s' i).board ∧
        ((s' i).config.ID.toNat, a.bytes) ∈ heardReplies buf line :=
  ⟨.transmit (hexchange.transmits hcrc hwrite hroom hjump hsend hcommand hboards hid hline buf
      received),
    fun _ hintact hmem hok hstream =>
      hexchange.heard hcrc hwrite hroom hjump hsend hcommand hboards hid hline buf hintact hmem hok
        hstream⟩

/-- The rounds of a board that gets a ping, with another node's frame in between. -/
def pingExchange : List Round :=
  [blankRound (some ⟨0x80, [1, 160, 83, 118, 197, 1, 1, 0], by decide⟩),
   blankRound (some ⟨0x25, [1, 2, 3], by decide⟩),
   blankRound (some clientPingFrame)]

/-- The client pings the Nucleo board and hears its reply. -/
theorem transmission_refines_ping : ∃ (s' : LoopState nucleoFirmware Unit)
    (received : List (Nat × List UInt8)) (a : BoardReply),
    BusStep (firmwareBoards nucleoFirmware blankPlatform).lossy encodePing
      ⟨fun _ : Unit => blankState.board, []⟩
      (.transmit [1] (datagramToFrames [1, 160, 83, 118, 197, 1, 1, 0, 0, 0, 3, 3, 5, 0x90] 0))
      ⟨fun _ => s'.board, received⟩ ∧
    boardExec nucleoFirmware blankPlatform blankState.board encodePing a s'.board ∧
      (s'.config.ID.toNat, a.bytes) ∈ received := by
  have hone : (runRounds blankPlatform blankState pingExchange).2.map (fun s => s.config.ID) =
      some 1 := by
    decide +kernel
  obtain ⟨s', hends, hid⟩ := Option.map_eq_some_iff.mp hone
  have hid' : s'.config.ID.toNat = (1 : Source) := by
    rw [hid]
    rfl
  have hquiet : ∀ e ∈ (runRounds blankPlatform blankState pingExchange).1, ¬ e.isTimeout :=
    noTimeout_of_all (by decide +kernel)
  have hok : (transmitted (runRounds blankPlatform blankState pingExchange).1).all (·.ok) = true := by
    decide +kernel
  have hsend : writeCommand encodePing [1] 0 =
      some (datagramToFrames [1, 160, 83, 118, 197, 1, 1, 0, 0, 0, 3, 3, 5, 0x90] 0) := by
    decide +kernel
  have hframes : (datagramToFrames [1, 160, 83, 118, 197, 1, 1, 0, 0, 0, 3, 3, 5, 0x90] 0).map
      Frame.onBus = [(0x80, [1, 160, 83, 118, 197, 1, 1, 0]), (0, [0, 0, 3, 3, 5, 0x90])] := by
    rw [datagramToFrames, datagramToFramesFrom_more _ _ (by decide),
      datagramToFramesFrom_last _ _ (by decide)]
    rfl
  have hintact : Intact blankPlatform blankState
      (datagramToFrames [1, 160, 83, 118, 197, 1, 1, 0, 0, 0, 3, 3, 5, 0x90] 0) pingExchange := by
    refine ⟨pingExchange, [], s', (List.append_nil _).symm, ?_, hquiet, hends, rfl⟩
    rw [hframes]
    refine .frame rfl rfl (.foreign ?_ (.last rfl rfl))
    rintro f ⟨⟩
    decide
  have hok' : ∀ t ∈ transmitted (runRounds blankPlatform blankState pingExchange).1,
      t.ok = true := by
    simpa using hok
  have hexchange : Exchange blankPlatform
      (datagramToFrames [1, 160, 83, 118, 197, 1, 1, 0, 0, 0, 3, 3, 5, 0x90] 0)
      (fun _ : Unit => blankState) (fun _ => s') (fun _ => pingExchange) fun source =>
        if source = 1 then
          (transmitted (runRounds blankPlatform blankState pingExchange).1).map Transmission.onBus
        else [] := by
    refine ⟨fun _ => hends, fun _ => .inl hintact, fun source => ?_⟩
    by_cases hsource : source = 1
    · exact .inr ⟨(), by rw [hsource]; exact hid', hok', if_pos hsource⟩
    · exact .inl (if_neg hsource)
  obtain ⟨hstep, hheard⟩ := transmission_refines nucleoFirmware (fun _ _ => rfl)
    Cmp.reference_write (by decide) rfl blankPlatform (fun _ : Unit => blankState) (fun _ => s')
    (fun _ => pingExchange) _ encodePing [1] _ hsend (by decide) (by decide) hexchange
    (fun _ => by rw [hid]; decide) _ (.single 1 _) (fun _ => none) []
  obtain ⟨a, hexec, hmem⟩ := hheard () hintact (by decide) hok' fun source hsource =>
    if_pos (Fin.ext (hsource.symm.trans hid'))
  exact ⟨s', _, a, hstep, hexec, hmem⟩

end CanBootloader
