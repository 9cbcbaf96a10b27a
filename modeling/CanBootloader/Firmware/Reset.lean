/-
  platform/mcu/armv7-m: boot_arg.c, `reboot_system`, and boot.s, the reset handler.

  The boot argument is handed over a reset in the first two words of RAM, behind a magic value. The
  reset handler takes it out of there, so it counts for one reset.

  * `resetHandler_rebootWords`: the handler starts what was asked for, and clears the words.
  * `idle_reboots_iff`: a main loop that executes nothing reboots when its timer runs out.
  * `unattended_boot`: a board that nobody talks to starts its application, or stays in the
    bootloader for good if the checksum is wrong.
-/
import CanBootloader.Client.MainLoop
import CanBootloader.Firmware.Reception

namespace CanBootloader

open Lib

/-! ## The boot argument -/

/-- The first two words of RAM. -/
structure RamWords where
  low : UInt32
  high : UInt32
  deriving DecidableEq, Repr

def bootArgMagicValueLo : UInt32 := 0x01234567

def bootArgMagicValueHi : UInt32 := 0x0089abcd

/-- The words with which `reboot_system` resets the board. -/
def rebootSystem.words (arg : UInt8) : RamWords :=
  ⟨bootArgMagicValueLo, bootArgMagicValueHi ||| (arg.toUInt32 <<< 24)⟩

/-- What runs behind the reset handler. -/
inductive Started where
  | application
  | stBootloader
  | bootloader (arg : UInt8)
  deriving DecidableEq, Repr

/-- `reset_handler`: what it starts, and the words it leaves. -/
def resetHandler (ram : RamWords) : Started × RamWords :=
  if ram.low ≠ bootArgMagicValueLo then (.bootloader 0, ram)
  else if ram.high &&& 0x00FFFFFF ≠ bootArgMagicValueHi then (.bootloader 0, ram)
  else
    -- `ldrb r0, [r5, #7]`
    let arg := (ram.high >>> 24).toUInt8
    let cleared := ⟨0, 0⟩
    if arg = 2 then (.application, cleared)
    else if arg = 3 then (.stBootloader, cleared)
    else (.bootloader arg, cleared)

/-- What a boot argument asks for. -/
def startedBy (arg : UInt8) : Started :=
  if arg = 2 then .application else if arg = 3 then .stBootloader else .bootloader arg

/-- The words hold a boot argument. -/
def RamWords.HasArg (ram : RamWords) : Prop :=
  ram.low = bootArgMagicValueLo ∧ ram.high &&& 0x00FFFFFF = bootArgMagicValueHi

theorem resetHandler_rebootWords (arg : UInt8) :
    resetHandler (rebootSystem.words arg) = (startedBy arg, ⟨0, 0⟩) := by
  have hbytes : ∀ n : Fin 256,
      (bootArgMagicValueHi ||| ((UInt8.ofNat n).toUInt32 <<< 24)) &&& 0x00FFFFFF =
          bootArgMagicValueHi ∧
        ((bootArgMagicValueHi ||| ((UInt8.ofNat n).toUInt32 <<< 24)) >>> 24).toUInt8 =
          UInt8.ofNat n := by
    decide +kernel
  obtain ⟨hhigh, harg⟩ := hbytes ⟨arg.toNat, arg.toNat_lt⟩
  rw [UInt8.ofNat_toNat] at hhigh harg
  unfold resetHandler rebootSystem.words startedBy
  simp only [ne_eq, not_true_eq_false, if_false, hhigh, harg]
  split_ifs
  · rfl
  · rfl
  · rfl

/-- Without an argument the bootloader is started, with its timeout. -/
theorem resetHandler_of_not_hasArg {ram : RamWords} (h : ¬ ram.HasArg) :
    resetHandler ram = (.bootloader bootArgStartBootloader, ram) := by
  unfold resetHandler
  by_cases hlow : ram.low = bootArgMagicValueLo
  · rw [if_neg (not_not.mpr hlow), if_pos fun hhigh => h ⟨hlow, hhigh⟩]
    rfl
  · rw [if_pos hlow]
    rfl

/-! ## Rounds that execute nothing -/

variable {fw : Firmware} {σ : Type} (p : Platform σ)

/-- The bootloader timeout and flash memory are as they were. -/
structure Undisturbed (s t : LoopState fw σ) : Prop where
  enabled : t.bootloaderTimeoutEnabled = s.bootloaderTimeoutEnabled
  start : t.bootloaderTimeoutStartMs = s.bootloaderTimeoutStartMs
  world : t.world = s.world

theorem undisturbed_appendFrame (s : LoopState fw σ) (f : RxFrame) (clock : Nat) :
    Undisturbed s (appendFrame s f clock) := by
  unfold appendFrame
  simp only
  split_ifs
  · exact ⟨rfl, rfl, rfl⟩
  · exact ⟨rfl, rfl, rfl⟩

theorem undisturbed_fedState (s : LoopState fw σ) (r : Round) : Undisturbed s (fedState s r) := by
  have hcheck : Undisturbed s (checkDatagramTimeout s r).2 := by
    unfold checkDatagramTimeout
    split_ifs
    · exact ⟨rfl, rfl, rfl⟩
    · exact ⟨rfl, rfl, rfl⟩
  simp only [fedState]
  split
  · exact hcheck
  · obtain ⟨hon, hstart, hworld⟩ :=
      undisturbed_appendFrame (checkDatagramTimeout s r).2 _ r.resetClock
    exact ⟨hon.trans hcheck.enabled, hstart.trans hcheck.start, hworld.trans hcheck.world⟩

/-- All calls are made in this world. -/
def CallsIn (w : σ) (events : List (Event σ)) : Prop := ∀ w' c, Event.call w' c ∈ events → w' = w

theorem CallsIn.append {w : σ} {xs ys : List (Event σ)} (hx : CallsIn w xs) (hy : CallsIn w ys) :
    CallsIn w (xs ++ ys) := by
  intro w' c hmem
  exact (List.mem_append.mp hmem).elim (hx w' c) (hy w' c)

theorem callsIn_sent (w : σ) (txs : List Transmission) : CallsIn w (txs.map .sent) := by
  intro w' c hmem
  obtain ⟨tx, -, htx⟩ := List.mem_map.mp hmem
  cases htx

theorem callsIn_checkDatagramTimeout (w : σ) (s : LoopState fw σ) (r : Round) :
    CallsIn w (checkDatagramTimeout s r).1 := by
  unfold checkDatagramTimeout
  split_ifs
  · rintro w' c (_ | ⟨_, hmem⟩)
    exact callsIn_sent w _ w' c hmem
  · exact fun _ _ hmem => absurd hmem List.not_mem_nil

theorem handleDatagram_idle {s : LoopState fw σ} {id : UInt32} {r : Round}
    (h : executed (handleDatagram p s id r).1 = []) :
    (∃ t, (handleDatagram p s id r).2 = some t ∧ Undisturbed s t) ∧
      ∀ w, CallsIn w (handleDatagram p s id r).1 := by
  rw [executed_handleDatagram] at h
  cases hvalid : canDatagramIsValid fw.crc32 s.inbox.dt with
  | false =>
      rw [handleDatagram_corrupt p hvalid]
      exact ⟨⟨_, rfl, rfl, rfl, rfl⟩, fun w => callsIn_sent w _⟩
  | true =>
      cases haddr : s.inbox.addressed s.config.ID with
      | false =>
          rw [handleDatagram_other p hvalid haddr]
          exact ⟨⟨_, rfl, rfl, rfl, rfl⟩, fun _ _ _ hmem => absurd hmem List.not_mem_nil⟩
      | true => simp [hvalid, haddr] at h

/-- A round that executes nothing reboots if the bootloader timeout is reached, and else leaves
    the timeout and flash memory alone. -/
theorem roundStep_idle {s : LoopState fw σ} {r : Round}
    (h : executed (roundStep p s r).1 = []) :
    (bootloaderTimedOut s r = true ∧ (roundStep p s r).2 = none) ∨
      (bootloaderTimedOut s r = false ∧ ∃ t, (roundStep p s r).2 = some t ∧ Undisturbed s t) := by
  cases htime : bootloaderTimedOut s r with
  | true =>
      refine .inl ⟨rfl, ?_⟩
      unfold bootloaderTimedOut at htime
      rw [roundStep, if_pos htime]
  | false =>
      refine .inr ⟨rfl, ?_⟩
      rw [roundStep_eq p htime, receive_eq] at h ⊢
      have hfed := undisturbed_fedState s r
      split_ifs at h ⊢
      · rw [executed_append] at h
        obtain ⟨⟨t, ht, hsame⟩, -⟩ := handleDatagram_idle p (List.append_eq_nil_iff.mp h).2
        exact ⟨t, ht, hsame.enabled.trans hfed.enabled, hsame.start.trans hfed.start,
          hsame.world.trans hfed.world⟩
      · exact ⟨_, rfl, hfed⟩

/-- Its only calls are those of the jump. -/
theorem callsIn_roundStep (hjump : fw.commandJumpDisableCrcChecking = false)
    {s : LoopState fw σ} {r : Round} (h : executed (roundStep p s r).1 = []) :
    CallsIn s.world (roundStep p s r).1 := by
  cases htime : bootloaderTimedOut s r with
  | true =>
      unfold bootloaderTimedOut at htime
      rw [roundStep, if_pos htime]
      simp only [jumpToApplication_calls p hjump]
      intro w' c hmem
      simp only [callEvents, List.map_cons, List.map_nil, List.mem_cons, reduceCtorEq, false_or,
        Event.call.injEq, List.not_mem_nil, or_false] at hmem
      exact hmem.elim And.left And.left
  | false =>
      rw [roundStep_eq p htime, receive_eq] at h ⊢
      refine (callsIn_checkDatagramTimeout _ s r).append ?_
      split_ifs at h ⊢
      · rw [executed_append] at h
        exact (handleDatagram_idle p (List.append_eq_nil_iff.mp h).2).2 _
      · exact fun _ _ hmem => absurd hmem List.not_mem_nil

/-- A run that executes nothing makes its calls in the world that it starts in, and leaves it
    so. -/
theorem idle_world (hjump : fw.commandJumpDisableCrcChecking = false) (rounds : List Round) :
    ∀ s : LoopState fw σ, executed (runRounds p s rounds).1 = [] →
      CallsIn s.world (runRounds p s rounds).1 ∧
        ∀ t, (runRounds p s rounds).2 = some t → t.world = s.world := by
  induction rounds with
  | nil =>
      refine fun s _ => ⟨fun _ _ hmem => absurd hmem List.not_mem_nil, fun t ht => ?_⟩
      rw [Option.some.inj ht]
  | cons r rounds ih =>
      intro s h
      rcases hstep : roundStep p s r with ⟨events, _ | t⟩
      · rw [runRounds_cons_none p hstep] at h ⊢
        have hcalls := callsIn_roundStep p hjump (s := s) (r := r) (by rw [hstep]; exact h)
        rw [hstep] at hcalls
        exact ⟨hcalls, fun t ht => absurd ht (by simp)⟩
      · rw [runRounds_cons_some p hstep] at h ⊢
        rw [executed_append] at h
        obtain ⟨hnow, hrest⟩ := List.append_eq_nil_iff.mp h
        have hidle : executed (roundStep p s r).1 = [] := by rw [hstep]; exact hnow
        have hcalls := callsIn_roundStep p hjump hidle
        rcases roundStep_idle p hidle with ⟨-, hnone⟩ | ⟨-, t', ht, hsame⟩
        · rw [hstep] at hnone
          exact absurd hnone (by simp)
        · rw [hstep] at ht hcalls
          obtain rfl : t = t' := Option.some.inj ht
          obtain ⟨hlater, hworld⟩ := ih t hrest
          rw [hsame.world] at hlater hworld
          exact ⟨hcalls.append hlater, hworld⟩

/-- A run that executes nothing ends with a reboot exactly if the timeout is enabled and one of
    its rounds comes late enough. -/
theorem idle_reboots_iff (rounds : List Round) : ∀ s : LoopState fw σ,
    executed (runRounds p s rounds).1 = [] →
      ((runRounds p s rounds).2 = none ↔ s.bootloaderTimeoutEnabled = true ∧
        ∃ r ∈ rounds, timeoutReached (timeMs r.bootloaderClock) s.bootloaderTimeoutStartMs
          fw.bootloaderTimeoutMs = true) := by
  induction rounds with
  | nil => simp [runRounds]
  | cons r rounds ih =>
      intro s h
      rcases hstep : roundStep p s r with ⟨events, _ | t⟩
      · rw [runRounds_cons_none p hstep] at h ⊢
        rcases roundStep_idle p (s := s) (r := r) (by rw [hstep]; exact h) with
          ⟨htime, -⟩ | ⟨-, t, ht, -⟩
        · unfold bootloaderTimedOut at htime
          rw [Bool.and_eq_true] at htime
          simp only [true_iff]
          exact ⟨htime.1, r, List.mem_cons_self, htime.2⟩
        · rw [hstep] at ht
          exact absurd ht (by simp)
      · rw [runRounds_cons_some p hstep, executed_append] at h
        obtain ⟨hnow, hrest⟩ := List.append_eq_nil_iff.mp h
        rcases roundStep_idle p (s := s) (r := r) (by rw [hstep]; exact hnow) with
          ⟨-, hnone⟩ | ⟨htime, t', ht, hon, hstart, -⟩
        · rw [hstep] at hnone
          exact absurd hnone (by simp)
        · rw [hstep] at ht
          obtain rfl : t = t' := Option.some.inj ht
          rw [runRounds_cons_some p hstep, ih t hrest, hon, hstart]
          unfold bootloaderTimedOut at htime
          refine and_congr_right fun henabled => ?_
          rw [henabled, Bool.true_and] at htime
          simp [htime]

/-- The acts of such a run are complaints, and the jump of the timeout. -/
theorem BoardRun.idle {p : Platform σ} {n : Board σ} {acts : List Act}
    (h : BoardRun fw p n acts none) (hnone : acts.filterMap Act.executed = []) :
    acts.filterMap Act.rebooted = [jumpArgument fw (p.mem n.world) n.config] := by
  generalize hend : none = last at h
  induction h with
  | nil n => cases hend
  | execute hexec hsent hrest ih => simp [Act.executed] at hnone
  | complain hcode hsent hrest ih =>
      rw [List.filterMap_cons_none rfl]
      exact ih (by simpa [Act.executed] using hnone) hend
  | reboot n payload => rfl

/-! ## A board left alone -/

/-- The circumstances in which `bootloader_main` is entered: the contents of its stack, and the
    time. -/
structure Entry where
  locals : Locals
  addrBuf : Store
  dataBuf : Store
  outputBuf : Store
  clock : Nat

/-- A stay in the bootloader. -/
def stay (fw : Firmware) (p : Platform σ) (arg : UInt8) (x : Entry) (w : σ)
    (rounds : List Round) : List (Event σ) × Option (LoopState fw σ) :=
  runRounds p (boot fw p arg x.locals x.addrBuf x.dataBuf x.outputBuf x.clock w) rounds

/-- The application at reset: the argument of the reboot that the timeout requests. -/
theorem startedBy_jumpArgument (fw : Firmware) (m : Mem) (config : BootloaderConfig) :
    startedBy (jumpArgument fw m config) =
      if fw.crc32 0 (m.read fw.app config.applicationSize.toNat) = config.applicationCrc then
        .application
      else .bootloader bootArgStartBootloaderNoTimeout := by
  unfold jumpArgument
  split_ifs
  · rfl
  · rfl

/-- Flash memory is in this state whenever the stay makes a call, and at its end. -/
def LeavesWorld (w : σ) (o : List (Event σ) × Option (LoopState fw σ)) : Prop :=
  CallsIn w o.1 ∧ ∀ s, o.2 = some s → s.world = w

/-- A board that is reset without a boot argument and then executes no datagram, whatever it
    receives. It reboots when the bootloader timeout has elapsed and not before; the reset
    handler then starts the application if its checksum is the configured one, and takes the
    argument away, so that the next reset comes to the bootloader again. Otherwise the bootloader
    is started without timeout, and stays. All the while flash memory is as it was. -/
theorem unattended_boot (fw : Firmware) (hcrc : CrcIsZlib fw.crc32) (hwrite : WriteLaw fw.cmp)
    (hroom : 0 < fw.outputBufferSize) (hjump : fw.commandJumpDisableCrcChecking = false)
    (htimeout : fw.bootloaderTimeoutDisable = false) (p : Platform σ) (ram : RamWords)
    (hram : ¬ ram.HasArg) (w : σ) (x : Entry) (rounds : List Round)
    (hclock : ∀ r ∈ rounds, x.clock ≤ r.bootloaderClock ∧ r.bootloaderClock - x.clock < 2 ^ 32)
    (hquiet : executed (stay fw p bootArgStartBootloader x w rounds).1 = []) :
    let config := bootConfig fw (p.mem w) x.locals
    let arg := jumpArgument fw (p.mem w) config
    (resetHandler ram).1 = .bootloader bootArgStartBootloader ∧
    ((stay fw p bootArgStartBootloader x w rounds).2 = none ↔
      ∃ r ∈ rounds, fw.bootloaderTimeoutMs.toNat ≤ r.bootloaderClock - x.clock) ∧
    ((stay fw p bootArgStartBootloader x w rounds).2 = none →
      rebooted (stay fw p bootArgStartBootloader x w rounds).1 = [arg]) ∧
    LeavesWorld w (stay fw p bootArgStartBootloader x w rounds) ∧
    resetHandler (rebootSystem.words arg) =
      (if fw.crc32 0 ((p.mem w).read fw.app config.applicationSize.toNat) = config.applicationCrc
        then .application else .bootloader bootArgStartBootloaderNoTimeout, ⟨0, 0⟩) ∧
    resetHandler ⟨0, 0⟩ = (.bootloader bootArgStartBootloader, ⟨0, 0⟩) ∧
    ∀ x' rounds', executed (stay fw p bootArgStartBootloaderNoTimeout x' w rounds').1 = [] →
      (stay fw p bootArgStartBootloaderNoTimeout x' w rounds').2 ≠ none ∧
        LeavesWorld w (stay fw p bootArgStartBootloaderNoTimeout x' w rounds') := by
  refine ⟨by rw [resetHandler_of_not_hasArg hram], ?_, fun hend => ?_, ?_, ?_, ?_, ?_⟩
  · rw [stay, idle_reboots_iff p rounds _ hquiet]
    simp only [boot, htimeout, Bool.false_eq_true, if_false]
    rw [and_iff_right (by decide)]
    refine exists_congr fun r => and_congr_right fun hr => ?_
    exact timeoutReached_elapsed (hclock r hr).1 (hclock r hr).2
  · obtain ⟨acts, hrun, hshows⟩ := main_loop_acts (p := p) hcrc hwrite hroom hjump rounds
      (boot fw p bootArgStartBootloader x.locals x.addrBuf x.dataBuf x.outputBuf x.clock w)
    rw [stay] at hquiet hend ⊢
    rw [hend] at hrun
    rw [hshows.executed] at hquiet
    rw [hshows.rebooted]
    exact hrun.idle hquiet
  · exact idle_world p hjump rounds _ hquiet
  · rw [resetHandler_rebootWords, startedBy_jumpArgument]
  · exact resetHandler_of_not_hasArg fun h => absurd h.1 (by decide)
  · intro x' rounds' hquiet'
    refine ⟨fun hend => ?_, idle_world p hjump rounds' _ hquiet'⟩
    have hon := ((idle_reboots_iff p rounds' _ hquiet').mp hend).1
    simp [boot, htimeout] at hon

def blankEntry : Entry := ⟨blankLocals, fun _ => 0, fun _ => 0, fun _ => 0, 0⟩

/-- The Nucleo board without application: it reboots after four seconds, and then stays. -/
theorem unattended_boot_blank :
    (stay nucleoFirmware blankPlatform bootArgStartBootloader blankEntry ()
      [blankRound none, { blankRound none with bootloaderClock := 4000 }]).2 = none ∧
    resetHandler (rebootSystem.words
        (jumpArgument nucleoFirmware (blankPlatform.mem ()) blankConfig)) =
      (.bootloader bootArgStartBootloaderNoTimeout, ⟨0, 0⟩) := by
  have hquiet : executed (stay nucleoFirmware blankPlatform bootArgStartBootloader blankEntry ()
      [blankRound none, { blankRound none with bootloaderClock := 4000 }]).1 = [] := by
    have hboot : stay nucleoFirmware blankPlatform bootArgStartBootloader blankEntry ()
        [blankRound none, { blankRound none with bootloaderClock := 4000 }] =
          runRounds blankPlatform blankState
            [blankRound none, { blankRound none with bootloaderClock := 4000 }] :=
      congrArg (fun s => runRounds blankPlatform s _) boot_blank
    rw [hboot]
    decide +kernel
  obtain ⟨-, hend, -, -, hnext, -⟩ := unattended_boot nucleoFirmware (fun _ _ => rfl)
    Cmp.reference_write (by decide) rfl rfl blankPlatform ⟨0, 0⟩
    (fun h => absurd h.1 (by decide)) () blankEntry _
    (by
      intro r hr
      simp only [List.mem_cons, List.not_mem_nil, or_false] at hr
      rcases hr with rfl | rfl
      · exact ⟨by decide, by decide⟩
      · exact ⟨by decide, by decide⟩) hquiet
  refine ⟨hend.mpr ⟨_, List.mem_cons_of_mem _ (List.mem_singleton_self _), by decide⟩, ?_⟩
  have hconfig : bootConfig nucleoFirmware (blankPlatform.mem ()) blankEntry.locals =
      blankConfig := bootConfig_blank
  rw [hconfig, if_neg (by decide +kernel)] at hnext
  exact hnext

end CanBootloader
