/-
  The rounds of the main loop, one lemma for each way through them, and runs of rounds.

  * `roundStep_quiet`: a round without timeout is the reception of its frame.
  * `receive_ignored`, `receive_more`, `receive_end`: no frame for this node; a frame that
    leaves the datagram open; a frame that ends it.
  * `handleDatagram_addressed`, `handleDatagram_other`, `handleDatagram_corrupt`: what happens
    at the end of a datagram.
-/
import CanBootloader.Firmware.Bootloader

namespace CanBootloader

open Lib

variable {fw : Firmware} {σ : Type}

/-! ## Events -/

namespace Event

def isTimeout : Event σ → Bool
  | jumpOnTimeout => true
  | datagramTimeout => true
  | _ => false

def executed : Event σ → Option (List UInt8)
  | execute data => some data
  | _ => none

def transmission : Event σ → Option Transmission
  | .sent t => some t
  | _ => none

end Event

theorem noTimeout_of_all {events : List (Event σ)}
    (h : events.all (fun e => !e.isTimeout) = true) : ∀ e ∈ events, ¬ e.isTimeout := by
  intro e he
  have := List.all_eq_true.mp h e he
  simpa using this

/-- The payloads handed to `execute_datagram_commands`. -/
def executed (events : List (Event σ)) : List (List UInt8) := events.filterMap Event.executed

/-- The frames sent. -/
def transmitted (events : List (Event σ)) : List Transmission :=
  events.filterMap Event.transmission

@[simp] theorem executed_nil : executed ([] : List (Event σ)) = [] := rfl

@[simp] theorem executed_append (xs ys : List (Event σ)) :
    executed (xs ++ ys) = executed xs ++ executed ys := List.filterMap_append

@[simp] theorem executed_execute (data : List UInt8) (xs : List (Event σ)) :
    executed (.execute data :: xs) = data :: executed xs := rfl

@[simp] theorem executed_calls (calls : List (σ × Call)) : executed (callEvents calls) = [] := by
  simp [executed, callEvents, Event.executed]

@[simp] theorem executed_sent (txs : List Transmission) :
    executed (txs.map Event.sent : List (Event σ)) = [] := by
  simp [executed, Event.executed]

@[simp] theorem transmitted_nil : transmitted ([] : List (Event σ)) = [] := rfl

@[simp] theorem transmitted_append (xs ys : List (Event σ)) :
    transmitted (xs ++ ys) = transmitted xs ++ transmitted ys := List.filterMap_append

@[simp] theorem transmitted_execute (data : List UInt8) (xs : List (Event σ)) :
    transmitted (.execute data :: xs) = transmitted xs := rfl

@[simp] theorem transmitted_calls (calls : List (σ × Call)) :
    transmitted (callEvents calls) = [] := by
  simp [transmitted, callEvents, Event.transmission]

@[simp] theorem transmitted_sent (txs : List Transmission) :
    transmitted (txs.map Event.sent : List (Event σ)) = txs := by
  simp [transmitted, Event.transmission, List.filterMap_map, Function.comp_def]

/-! ## One round -/

variable (p : Platform σ) {s : LoopState fw σ} {r : Round}

theorem roundStep_quiet (h : ∀ e ∈ (roundStep p s r).1, ¬ e.isTimeout) :
    roundStep p s r = receive p s r := by
  unfold roundStep at h ⊢
  by_cases hjump : (s.bootloaderTimeoutEnabled &&
      timeoutReached (timeMs r.bootloaderClock) s.bootloaderTimeoutStartMs
        fw.bootloaderTimeoutMs) = true
  · rw [if_pos hjump] at h
    exact absurd rfl (h .jumpOnTimeout (by simp))
  · rw [if_neg hjump] at h ⊢
    unfold checkDatagramTimeout at h ⊢
    by_cases hdt : (s.datagramTimeoutRunning &&
        timeoutReached (timeMs r.datagramClock) s.datagramTimeoutStartMs
          fw.datagramTimeoutMs) = true
    · rw [if_pos hdt] at h
      exact absurd rfl (h .datagramTimeout (by simp))
    · rw [if_neg hdt]
      simp

theorem receive_ignored (h : ∀ f, r.frame = some f → frameIsForUs s.config f.id = false) :
    receive p s r = ([], some s) := by
  unfold receive
  cases hf : r.frame with
  | none => rfl
  | some f => simp [h f hf]

theorem receive_more {f : RxFrame} (hf : r.frame = some f)
    (hus : frameIsForUs s.config f.id = true)
    (hopen : canDatagramIsComplete (appendFrame s f r.resetClock).inbox.dt = false)
    (hlen : f.data.length = 8) :
    receive p s r = ([], some (appendFrame s f r.resetClock)) := by
  simp [receive, hf, hus, hopen, hlen]

theorem receive_end {f : RxFrame} (hf : r.frame = some f)
    (hus : frameIsForUs s.config f.id = true)
    (hend : canDatagramIsComplete (appendFrame s f r.resetClock).inbox.dt = true ∨
      f.data.length < 8) :
    receive p s r = handleDatagram p (appendFrame s f r.resetClock) f.id r := by
  have : (canDatagramIsComplete (appendFrame s f r.resetClock).inbox.dt ||
      decide (f.data.length < 8)) = true := by simpa using hend
  simp only [receive, hf, hus, if_true]
  rw [if_pos this]

theorem appendFrame_config (s : LoopState fw σ) (f : RxFrame) (clock : Nat) :
    (appendFrame s f clock).config = s.config := by
  unfold appendFrame
  simp only
  split_ifs
  · rfl
  · rfl

/-- The execution of the datagram in the inbox. -/
def execution (s : LoopState fw σ) (r : Round) : Prog.Outcome σ Call Execution :=
  Prog.run p.handler
    (executeDatagramCommands fw s.inbox.dt.data s.inbox.dt.dataLen.toNat s.outputBuf
      fw.outputBufferSize s.config success r.locals) s.world

variable {id : UInt32}

/-- A valid datagram for this node is executed. -/
theorem handleDatagram_addressed (hvalid : canDatagramIsValid fw.crc32 s.inbox.dt = true)
    (haddr : s.inbox.addressed s.config.ID = true) :
    handleDatagram p s id r =
      match (execution p s r).value with
      | none => (.execute s.inbox.payload :: callEvents (execution p s r).calls, none)
      | some e =>
          let s' := { s with
            datagramTimeoutRunning := false
            status := success
            bootloaderTimeoutEnabled := false
            world := (execution p s r).world }
          let reply := sendReply s' id e r.replySend
          (.execute s.inbox.payload :: callEvents (execution p s r).calls ++ reply.1,
            some reply.2.restart) := by
  unfold handleDatagram execution
  rw [if_pos hvalid]
  exact if_pos haddr

/-- A valid datagram for other nodes is dropped. -/
theorem handleDatagram_other (hvalid : canDatagramIsValid fw.crc32 s.inbox.dt = true)
    (haddr : s.inbox.addressed s.config.ID = false) :
    handleDatagram p s id r =
      ([], some { s with datagramTimeoutRunning := false, status := success }.restart) := by
  simp [handleDatagram, hvalid, haddr]

theorem handleDatagram_corrupt (hvalid : canDatagramIsValid fw.crc32 s.inbox.dt = false) :
    handleDatagram p s id r =
      ((returnErrorDatagram fw s.config.ID s.outputBuf errorCorruptDatagram r.replySend).1.map
          .sent,
        some { s with
          outputBuf :=
            (returnErrorDatagram fw s.config.ID s.outputBuf errorCorruptDatagram r.replySend).2
          status := errorCorruptDatagram }.restart) := by
  simp [handleDatagram, hvalid]

/-- After every datagram the reader is at the start of the next one. -/
theorem handleDatagram_restarts {s' : LoopState fw σ}
    (h : (handleDatagram p s id r).2 = some s') :
    canDatagramStart s'.inbox.dt = s'.inbox.dt := by
  cases hvalid : canDatagramIsValid fw.crc32 s.inbox.dt with
  | false =>
      rw [handleDatagram_corrupt p hvalid, Option.some.injEq] at h
      rw [← h]
      rfl
  | true =>
      cases haddr : s.inbox.addressed s.config.ID with
      | false =>
          rw [handleDatagram_other p hvalid haddr, Option.some.injEq] at h
          rw [← h]
          rfl
      | true =>
          rw [handleDatagram_addressed p hvalid haddr] at h
          cases hvalue : (execution p s r).value with
          | none => simp [hvalue] at h
          | some e =>
              simp only [hvalue, Option.some.injEq] at h
              rw [← h]
              rfl

/-! ## Runs -/

theorem runRounds_cons_none {rounds : List Round} {events : List (Event σ)}
    (h : roundStep p s r = (events, none)) : runRounds p s (r :: rounds) = (events, none) := by
  simp [runRounds, h]

theorem runRounds_cons_some {rounds : List Round} {events : List (Event σ)} {s' : LoopState fw σ}
    (h : roundStep p s r = (events, some s')) :
    runRounds p s (r :: rounds) =
      (events ++ (runRounds p s' rounds).1, (runRounds p s' rounds).2) := by
  simp [runRounds, h]

/-- Rounds behind rounds that end in a state. -/
theorem runRounds_append {rounds' : List Round} {s' : LoopState fw σ} (rounds : List Round) :
    ∀ {s : LoopState fw σ}, (runRounds p s rounds).2 = some s' →
      runRounds p s (rounds ++ rounds') =
        ((runRounds p s rounds).1 ++ (runRounds p s' rounds').1, (runRounds p s' rounds').2) := by
  induction rounds with
  | nil =>
      intro s h
      obtain rfl : s = s' := Option.some.inj h
      rfl
  | cons r rounds ih =>
      intro s h
      rcases hstep : roundStep p s r with ⟨events, _ | m⟩
      · rw [runRounds_cons_none p hstep] at h
        cases h
      · rw [runRounds_cons_some p hstep] at h ⊢
        rw [List.cons_append, runRounds_cons_some p hstep, ih h, List.append_assoc]

/-- The first round of a run without timeouts has none. -/
theorem roundStep_quiet_of_run {rounds : List Round}
    (h : ∀ e ∈ (runRounds p s (r :: rounds)).1, ¬ e.isTimeout) :
    roundStep p s r = receive p s r := by
  apply roundStep_quiet
  intro e he
  apply h
  rcases hstep : roundStep p s r with ⟨events, _ | s'⟩
  · rw [runRounds_cons_none p hstep]
    rwa [hstep] at he
  · rw [runRounds_cons_some p hstep]
    rw [hstep] at he
    exact List.mem_append_left _ he

/-! ## A node on erased flash -/

/-- Flash memory that reads as erased. -/
def blankPlatform : Platform Unit where
  mem := fun _ _ => 0xFF
  unlock := fun w => w
  lock := fun w => w
  pageErase := fun _ w => w
  pageWrite := fun _ _ w => w

/-- The Nucleo board just started, without application. -/
def blankState : LoopState nucleoFirmware Unit where
  config := blankConfig
  inbox := bootInbox nucleoFirmware (fun _ => 0) (fun _ => 0)
  outputBuf := fun _ => 0
  datagramTimeoutRunning := false
  bootloaderTimeoutEnabled := true
  status := 0
  bootloaderTimeoutStartMs := 0
  datagramTimeoutStartMs := 0
  world := ()

set_option maxRecDepth 8000 in
/-- The CRC of a page of 0xFF is not 0xFFFFFFFF. -/
theorem configIsValid_blank (page : UInt32) :
    configIsValid nucleoFirmware (blankPlatform.mem ()) page nucleoFirmware.configPageSize =
      false := by
  have hptr : (blankPlatform.mem ()).ptr page = fun _ => 0xFF := rfl
  have hcrc : (configReadCrc (fun _ => 0xFF) ==
      configCalculateCrc nucleoFirmware (fun _ => 0xFF) nucleoFirmware.configPageSize) = false := by
    decide +kernel
  rw [configIsValid, hptr, hcrc, ite_self]

/-- No page is valid, so the board boots with a new configuration. -/
theorem bootConfig_blank :
    bootConfig nucleoFirmware (blankPlatform.mem ()) blankLocals = blankConfig := by
  unfold bootConfig
  simp only [configIsValid_blank, Bool.false_eq_true, if_false, blankLocals, blankConfig,
    Store.blit_ofList]
  rfl

theorem boot_blank : boot nucleoFirmware blankPlatform 0 blankLocals (fun _ => 0) (fun _ => 0)
    (fun _ => 0) 0 () = blankState := by
  unfold boot
  rw [bootConfig_blank]
  rfl

/-- The same after the first bytes of a datagram. -/
def readingState (bs : List UInt8) : LoopState nucleoFirmware Unit :=
  { blankState with inbox := blankState.inbox.start.input bs }

/-- The first frame of a ping. -/
def pingStartFrame (id : UInt32) : RxFrame := ⟨id, [1, 87, 60, 167, 97, 1, 1, 0], by decide⟩

/-- The last frame of a ping. -/
def pingFrame : RxFrame := ⟨0, [0, 0, 2, 3, 5], by decide⟩

/-- The last frame of a ping of the client, whose arguments are an empty array. -/
def clientPingFrame : RxFrame := ⟨0, [0, 0, 3, 3, 5, 0x90], by decide⟩

/-- A round at time 0, with successful transmissions. -/
def blankRound (frame : Option RxFrame) : Round where
  bootloaderClock := 0
  datagramClock := 0
  resetClock := 0
  frame
  timeoutSend := fun _ => true
  replySend := fun _ => true
  locals := blankLocals

end CanBootloader
