/-
  When the bootloader starts the application.

  * `jumpToApplication_calls`: the jump command reads memory and requests one reboot, into the
    application exactly if the checksum of the flashed application is the configured one. No
    other command requests a reboot (`callback_calls`), so this is so for every round
    (`roundStep_reboot`).
  * `roundStep_timer`, `runRounds_timer`: the bootloader timeout is never enabled again, and an
    executed command disables it.
  * `timeoutReached_elapsed`: the 32-bit comparison is one of real time, whatever the counter
    held when the timer was started.
-/
import CanBootloader.Firmware.Rounds

namespace CanBootloader

open Lib

variable {fw : Firmware} {σ : Type} (p : Platform σ)

/-! ## Requests to reboot -/

/-- The argument of the reboot requested by `command_jump_to_application`. -/
def jumpArgument (fw : Firmware) (m : Mem) (config : BootloaderConfig) : UInt8 :=
  if fw.crc32 0 (m.read fw.app config.applicationSize.toNat) = config.applicationCrc then
    bootArgStartApplication
  else bootArgStartBootloaderNoTimeout

theorem jumpToApplication_calls {α : Type} (h : fw.commandJumpDisableCrcChecking = false)
    (config : BootloaderConfig) (w : σ) :
    (Prog.run p.handler (jumpToApplication fw config : Code α) w).calls =
      [(w, .memory), (w, .rebootSystem (jumpArgument fw (p.mem w) config))] := by
  unfold jumpToApplication jumpArgument
  simp only [h, Bool.not_false, if_true, readMemory, Prog.call_bind, Prog.ret_bind]
  rw [Prog.run_call_some p.handler (v := w) (r := p.mem w) rfl]
  split_ifs
  · rw [rebootSystem, Prog.run_call_none p.handler rfl]
  · rw [rebootSystem, Prog.run_call_none p.handler rfl]

/-- A call that does not reboot. -/
def Call.NoReboot : Call → Prop
  | .rebootSystem _ => False
  | _ => True

theorem flashWriteAndVerify_noReboot (addr : UInt32) (data : List UInt8) :
    (flashWriteAndVerify fw addr data).AllCalls Call.NoReboot := by
  simp [flashWriteAndVerify, flashWriterUnlock, flashWriterPageErase, flashWriterPageWrite,
    flashWriterLock, readMemory, Call.NoReboot]

theorem saveConfigPages_noReboot (page : List UInt8) :
    (saveConfigPages fw page).AllCalls Call.NoReboot := by
  have hwrite : ∀ addr, (flashWriteAndVerify fw addr page).AllCalls Call.NoReboot :=
    fun addr => flashWriteAndVerify_noReboot addr page
  unfold saveConfigPages
  refine .bind ⟨trivial, fun _ => trivial⟩ fun m => ?_
  split_ifs
  · exact .bind (hwrite _) fun b => by split_ifs; exacts [hwrite _, trivial]
  · exact .bind (hwrite _) fun b => by split_ifs; exacts [hwrite _, trivial]
  · exact .bind (hwrite _) fun _ => .bind (hwrite _) fun _ => trivial

theorem eraseAndCheck_noReboot (address size : UInt32) :
    (eraseAndCheck address size).AllCalls Call.NoReboot := by
  simp [eraseAndCheck, flashWriterUnlock, flashWriterPageErase, flashWriterLock, readMemory,
    Call.NoReboot]

theorem eraseLoop_noReboot (address size : UInt32) (retry : Nat) :
    (eraseLoop address size retry).AllCalls Call.NoReboot := by
  induction retry with
  | zero => exact .bind (eraseAndCheck_noReboot _ _) fun _ => trivial
  | succ retry ih =>
      refine .bind (eraseAndCheck_noReboot _ _) fun erased => ?_
      split_ifs
      · trivial
      · exact ih

theorem commandEraseFlashPage_noReboot (i : Invocation) :
    (commandEraseFlashPage fw i).AllCalls Call.NoReboot := by
  obtain ⟨-, code, heq⟩ | ⟨-, heq⟩ := commandEraseFlashPage_cases fw i
  · rw [heq]
    trivial
  · rw [heq]
    exact .bind (eraseLoop_noReboot _ _ _) fun _ => trivial

theorem commandWriteFlash_noReboot (i : Invocation) :
    (commandWriteFlash fw i).AllCalls Call.NoReboot := by
  obtain ⟨-, code, -, heq⟩ | ⟨-, heq⟩ := commandWriteFlash_cases fw i
  · rw [heq]
    trivial
  · rw [heq]
    refine .bind ⟨trivial, fun _ => trivial⟩ fun m => ?_
    split_ifs
    · trivial
    · simp [flashWriterUnlock, flashWriterPageWrite, flashWriterLock, Call.NoReboot]

theorem commandCrcRegion_noReboot (i : Invocation) :
    (commandCrcRegion fw i).AllCalls Call.NoReboot := by
  unfold commandCrcRegion
  simp only
  split_ifs
  · trivial
  · trivial
  · trivial
  · exact ⟨trivial, fun _ => trivial⟩

/-- The jump is the only command that requests a reboot. -/
theorem callback_calls {cmd : Command} (h : cmd ∈ commands fw) :
    cmd.callback = commandJumpToApplication fw ∨
      ∀ i, (cmd.callback i).AllCalls Call.NoReboot := by
  simp only [commands, List.mem_cons, List.not_mem_nil, or_false] at h
  rcases h with rfl | rfl | rfl | rfl | rfl | rfl | rfl | rfl | rfl | rfl
  · exact .inl rfl
  · exact .inr commandCrcRegion_noReboot
  · exact .inr commandEraseFlashPage_noReboot
  · exact .inr commandWriteFlash_noReboot
  · exact .inr fun _ => trivial
  · exact .inr fun _ => ⟨trivial, fun _ => trivial⟩
  · exact .inr fun _ => trivial
  · exact .inr fun _ => .bind (saveConfigPages_noReboot _) fun _ => trivial
  · exact .inr fun _ => trivial
  · exact .inr fun _ => trivial

/-- The reboots a command requests. -/
theorem execute_reboot (hjump : fw.commandJumpDisableCrcChecking = false) {data : Store}
    {dataLen : Nat} {outBuf : Store} {outLen : Nat} {config : BootloaderConfig} {status : UInt8}
    {l : Locals} {w w' : σ} {arg : UInt8}
    (h : (w', Call.rebootSystem arg) ∈ (Prog.run p.handler
      (executeDatagramCommands fw data dataLen outBuf outLen config status l) w).calls) :
    arg = jumpArgument fw (p.mem w') config := by
  rcases executeDatagramCommands_cases fw data dataLen outBuf outLen config status l with
    ⟨c, -, heq⟩ | ⟨cmd, hcmd, i, rfl, -, heq⟩
  · rw [heq] at h
    simp at h
  · rw [heq, Prog.run_bind_calls, List.mem_append] at h
    rcases h with h | h
    · rcases callback_calls hcmd with hjumps | hothers
      · rw [hjumps, commandJumpToApplication, jumpToApplication_calls p hjump] at h
        simp only [List.mem_cons, List.not_mem_nil, or_false, Prod.mk.injEq, reduceCtorEq,
          and_false, false_or, Call.rebootSystem.injEq] at h
        rw [h.1]
        exact h.2
      · exact absurd (Prog.AllCalls.run p.handler (hothers i) w _ h) not_false
    · split at h
      · simp at h
      · simp at h

/-! ## Rounds -/

/-- The events of the reception of a frame: frames sent, a datagram executed, and the calls of
    its execution. -/
inductive Received (o : Prog.Outcome σ Call Execution) : Event σ → Prop
  | sent (t : Transmission) : Received o (.sent t)
  | execute (data : List UInt8) : Received o (.execute data)
  | call {w : σ} {c : Call} (h : (w, c) ∈ o.calls) : Received o (.call w c)

theorem received_sendReply (o : Prog.Outcome σ Call Execution) (s : LoopState fw σ) (id : UInt32)
    (e : Execution) (send : Nat → Bool) : ∀ ev ∈ (sendReply s id e send).1, Received o ev := by
  intro ev hev
  obtain ⟨t, rfl⟩ : ∃ t, ev = Event.sent t := by
    unfold sendReply at hev
    simp only at hev
    split_ifs at hev
    · obtain ⟨t, -, rfl⟩ := List.mem_map.mp hev
      exact ⟨t, rfl⟩
    · obtain ⟨t, -, rfl⟩ := List.mem_map.mp hev
      exact ⟨t, rfl⟩
  exact .sent t

theorem received_execution (o : Prog.Outcome σ Call Execution) (data : List UInt8) :
    ∀ ev ∈ Event.execute data :: callEvents o.calls, Received o ev := by
  intro ev hev
  rcases List.mem_cons.mp hev with rfl | hev
  · exact .execute data
  · obtain ⟨⟨w, c⟩, hc, rfl⟩ := List.mem_map.mp hev
    exact .call hc

theorem handleDatagram_events {s : LoopState fw σ} {id : UInt32} {r : Round} :
    ∀ ev ∈ (handleDatagram p s id r).1, Received (execution p s r) ev := by
  intro ev hev
  cases hvalid : canDatagramIsValid fw.crc32 s.inbox.dt with
  | false =>
      rw [handleDatagram_corrupt p hvalid] at hev
      obtain ⟨t, -, rfl⟩ := List.mem_map.mp hev
      exact .sent t
  | true =>
      cases haddr : s.inbox.addressed s.config.ID with
      | false =>
          rw [handleDatagram_other p hvalid haddr] at hev
          exact absurd hev List.not_mem_nil
      | true =>
          rw [handleDatagram_addressed p hvalid haddr] at hev
          cases hvalue : (execution p s r).value with
          | none =>
              simp only [hvalue] at hev
              exact received_execution _ _ ev hev
          | some e =>
              simp only [hvalue] at hev
              rcases List.mem_append.mp hev with hev | hev
              · exact received_execution _ _ ev hev
              · exact received_sendReply _ _ _ _ _ ev hev

theorem receive_events {s : LoopState fw σ} {r : Round} {ev : Event σ}
    (hev : ev ∈ (receive p s r).1) :
    ∃ f, Received (execution p (appendFrame s f r.resetClock) r) ev := by
  unfold receive at hev
  cases hf : r.frame with
  | none => simp [hf] at hev
  | some f =>
      simp only [hf] at hev
      split_ifs at hev
      · exact ⟨f, handleDatagram_events p ev hev⟩
      · simp at hev
      · simp at hev

theorem checkDatagramTimeout_config (s : LoopState fw σ) (r : Round) :
    (checkDatagramTimeout s r).2.config = s.config := by
  unfold checkDatagramTimeout
  split_ifs
  · rfl
  · rfl

theorem checkDatagramTimeout_events {s : LoopState fw σ} {r : Round} {ev : Event σ}
    (hev : ev ∈ (checkDatagramTimeout s r).1) : ev = .datagramTimeout ∨ ∃ t, ev = .sent t := by
  unfold checkDatagramTimeout at hev
  split_ifs at hev
  · rcases List.mem_cons.mp hev with rfl | hev
    · exact .inl rfl
    · obtain ⟨t, -, rfl⟩ := List.mem_map.mp hev
      exact .inr ⟨t, rfl⟩
  · simp at hev

/-- A reboot requested in a round follows from the checksum of the application, as flashed at
    that moment, and the configuration of the round. -/
theorem roundStep_reboot (hjump : fw.commandJumpDisableCrcChecking = false) {s : LoopState fw σ}
    {r : Round} {w : σ} {arg : UInt8} (h : Event.call w (.rebootSystem arg) ∈ (roundStep p s r).1) :
    arg = jumpArgument fw (p.mem w) s.config := by
  unfold roundStep at h
  split_ifs at h
  · simp only [jumpToApplication_calls p hjump, callEvents, List.map_cons, List.map_nil,
      List.mem_cons, reduceCtorEq, false_or, Event.call.injEq, and_false,
      Call.rebootSystem.injEq, List.not_mem_nil, or_false] at h
    rw [h.1]
    exact h.2
  · rcases List.mem_append.mp h with h | h
    · rcases checkDatagramTimeout_events h with h | ⟨t, h⟩
      · simp at h
      · simp at h
    · obtain ⟨f, hf⟩ := receive_events p h
      cases hf with
      | call hcall =>
          have hreboot := execute_reboot p hjump hcall
          rwa [appendFrame_config, checkDatagramTimeout_config] at hreboot

/-! ## The bootloader timeout -/

/-- What a round, or a part of one, does to the bootloader timeout: the start of the timer
    stays, and the timeout is on afterwards only if it was on before and no command was
    executed. -/
def KeepsTimer (s : LoopState fw σ) (events : List (Event σ)) (s' : LoopState fw σ) : Prop :=
  s'.bootloaderTimeoutStartMs = s.bootloaderTimeoutStartMs ∧
    (s'.bootloaderTimeoutEnabled = true →
      s.bootloaderTimeoutEnabled = true ∧ executed events = [])

theorem KeepsTimer.trans {s s' s'' : LoopState fw σ} {events events' : List (Event σ)}
    (h : KeepsTimer s events s') (h' : KeepsTimer s' events' s'') :
    KeepsTimer s (events ++ events') s'' := by
  refine ⟨h'.1.trans h.1, fun hon => ?_⟩
  obtain ⟨hon', hnone'⟩ := h'.2 hon
  obtain ⟨hon, hnone⟩ := h.2 hon'
  exact ⟨hon, by rw [executed_append, hnone, hnone', List.append_nil]⟩

theorem sendReply_timer (s : LoopState fw σ) (id : UInt32) (e : Execution) (send : Nat → Bool) :
    (sendReply s id e send).2.bootloaderTimeoutStartMs = s.bootloaderTimeoutStartMs ∧
      (sendReply s id e send).2.bootloaderTimeoutEnabled = s.bootloaderTimeoutEnabled := by
  unfold sendReply
  simp only
  split_ifs
  · exact ⟨rfl, rfl⟩
  · exact ⟨rfl, rfl⟩

theorem handleDatagram_timer {s s' : LoopState fw σ} {id : UInt32} {r : Round}
    (h : (handleDatagram p s id r).2 = some s') :
    KeepsTimer s (handleDatagram p s id r).1 s' := by
  cases hvalid : canDatagramIsValid fw.crc32 s.inbox.dt with
  | false =>
      rw [handleDatagram_corrupt p hvalid] at h ⊢
      rw [← Option.some.inj h]
      exact ⟨rfl, fun hon => ⟨hon, executed_sent _⟩⟩
  | true =>
      cases haddr : s.inbox.addressed s.config.ID with
      | false =>
          rw [handleDatagram_other p hvalid haddr] at h ⊢
          rw [← Option.some.inj h]
          exact ⟨rfl, fun hon => ⟨hon, rfl⟩⟩
      | true =>
          rw [handleDatagram_addressed p hvalid haddr] at h ⊢
          cases hvalue : (execution p s r).value with
          | none => simp [hvalue] at h
          | some e =>
              simp only [hvalue, Option.some.injEq] at h
              rw [← h]
              obtain ⟨hstart, hon⟩ := sendReply_timer { s with
                datagramTimeoutRunning := false
                status := success
                bootloaderTimeoutEnabled := false
                world := (execution p s r).world } id e r.replySend
              refine ⟨hstart, fun hon' => ?_⟩
              exact absurd (hon.symm.trans hon') (by simp)

theorem appendFrame_timer (s : LoopState fw σ) (f : RxFrame) (clock : Nat) :
    KeepsTimer s [] (appendFrame s f clock) := by
  unfold appendFrame
  simp only
  split_ifs
  · exact ⟨rfl, fun hon => ⟨hon, rfl⟩⟩
  · exact ⟨rfl, fun hon => ⟨hon, rfl⟩⟩

theorem receive_timer {s s' : LoopState fw σ} {r : Round} (h : (receive p s r).2 = some s') :
    KeepsTimer s (receive p s r).1 s' := by
  have hnothing : KeepsTimer s [] s := ⟨rfl, fun hon => ⟨hon, rfl⟩⟩
  unfold receive at h ⊢
  cases hf : r.frame with
  | none =>
      simp only [hf, Option.some.injEq] at h ⊢
      rw [← h]
      exact hnothing
  | some f =>
      simp only [hf] at h ⊢
      split_ifs at h ⊢
      · exact (appendFrame_timer s f r.resetClock).trans (handleDatagram_timer p h)
      · rw [← Option.some.inj h]
        exact appendFrame_timer s f r.resetClock
      · rw [← Option.some.inj h]
        exact hnothing

theorem checkDatagramTimeout_timer (s : LoopState fw σ) (r : Round) :
    KeepsTimer s (checkDatagramTimeout s r).1 (checkDatagramTimeout s r).2 := by
  unfold checkDatagramTimeout
  split_ifs
  · exact ⟨rfl, fun hon => ⟨hon, executed_sent _⟩⟩
  · exact ⟨rfl, fun hon => ⟨hon, rfl⟩⟩

theorem roundStep_timer {s t : LoopState fw σ} {r : Round}
    (h : (roundStep p s r).2 = some t) : KeepsTimer s (roundStep p s r).1 t := by
  unfold roundStep at h ⊢
  split_ifs at h ⊢
  · exact (checkDatagramTimeout_timer s r).trans (receive_timer p h)

theorem runRounds_timer (rounds : List Round) : ∀ {s t : LoopState fw σ},
    (runRounds p s rounds).2 = some t → KeepsTimer s (runRounds p s rounds).1 t := by
  induction rounds with
  | nil =>
      intro s t h
      rw [← Option.some.inj h]
      exact ⟨rfl, fun hon => ⟨hon, rfl⟩⟩
  | cons r rounds ih =>
      intro s t h
      rcases hstep : roundStep p s r with ⟨events, _ | s1⟩
      · simp [runRounds_cons_none p hstep] at h
      · have hround := roundStep_timer p (t := s1) (by rw [hstep])
        rw [hstep] at hround
        rw [runRounds_cons_some p hstep] at h ⊢
        exact hround.trans (ih h)

/-- The jump of the bootloader timeout: it was enabled and the timer has run out. -/
theorem jumpOnTimeout_mem {s : LoopState fw σ} {r : Round}
    (h : Event.jumpOnTimeout ∈ (roundStep p s r).1) :
    s.bootloaderTimeoutEnabled = true ∧
      timeoutReached (timeMs r.bootloaderClock) s.bootloaderTimeoutStartMs
        fw.bootloaderTimeoutMs = true := by
  unfold roundStep at h
  split_ifs at h with hjump
  · simpa using hjump
  · rcases List.mem_append.mp h with h | h
    · rcases checkDatagramTimeout_events h with h | ⟨t, h⟩
      · simp at h
      · simp at h
    · obtain ⟨f, hf⟩ := receive_events p h
      cases hf

/-- The comparison of the 32-bit counters is one of real time, for any start of the timer. -/
theorem timeoutReached_elapsed {now start : Nat} {timeout : UInt32} (hle : start ≤ now)
    (hlt : now - start < 2 ^ 32) :
    timeoutReached (timeMs now) (timeMs start) timeout = true ↔ timeout.toNat ≤ now - start := by
  have helapsed : (timeMs now - timeMs start).toNat = now - start := by
    rw [timeMs, timeMs, UInt32.toNat_sub, UInt32.toNat_ofNat', UInt32.toNat_ofNat']
    omega
  rw [timeoutReached, decide_eq_true_iff, ge_iff_le, UInt32.le_iff_toNat_le, helapsed]

/-! ## Runs -/

/-- Boot safety. After any run of the main loop from boot, a further round requests a reboot
    into the application only if the checksum of the flashed application is the configured one
    at that moment; and it jumps on the bootloader timeout only if the boot argument allows it,
    the timeout has really elapsed, and no command was executed before. -/
theorem boot_safety (fw : Firmware) (hjump : fw.commandJumpDisableCrcChecking = false)
    (p : Platform σ) (arg : UInt8) (l : Locals) (addrBuf dataBuf outputBuf : Store)
    (clock : Nat) (w : σ) (rounds : List Round) (events : List (Event σ)) (s : LoopState fw σ)
    (hrun : runRounds p (boot fw p arg l addrBuf dataBuf outputBuf clock w) rounds =
      (events, some s)) (r : Round) :
    (∀ w', Event.call w' (.rebootSystem bootArgStartApplication) ∈ (roundStep p s r).1 →
      fw.crc32 0 ((p.mem w').read fw.app s.config.applicationSize.toNat) =
        s.config.applicationCrc) ∧
    (Event.jumpOnTimeout ∈ (roundStep p s r).1 →
      arg ≠ bootArgStartBootloaderNoTimeout ∧ executed events = [] ∧
        (clock ≤ r.bootloaderClock → r.bootloaderClock - clock < 2 ^ 32 →
          fw.bootloaderTimeoutMs.toNat ≤ r.bootloaderClock - clock)) := by
  constructor
  · intro w' hmem
    have harg := roundStep_reboot p hjump hmem
    by_contra hcrc
    rw [jumpArgument, if_neg hcrc] at harg
    exact absurd harg (by decide)
  · intro hmem
    obtain ⟨hon, hreached⟩ := jumpOnTimeout_mem p hmem
    have htimer := runRounds_timer p rounds (t := s) (by rw [hrun])
    rw [hrun] at htimer
    obtain ⟨hstart, hkeeps⟩ := htimer
    obtain ⟨hboot, hnone⟩ := hkeeps hon
    refine ⟨?_, hnone, ?_⟩
    · simp only [boot] at hboot
      split_ifs at hboot
      simpa using hboot
    · intro hle hlt
      rw [hstart] at hreached
      exact (timeoutReached_elapsed hle hlt).mp hreached

/-- An update to an empty application, and the first frame of a command to start it, for node 1. -/
def emptyApplicationRounds : List Round :=
  [blankRound (some ⟨0x80, [1, 190, 236, 140, 136, 1, 1, 0], by decide⟩),
   blankRound (some ⟨0, [0, 0, 39, 3, 7, 145, 130, 175], by decide⟩),
   blankRound (some ⟨0, [97, 112, 112, 108, 105, 99, 97, 116], by decide⟩),
   blankRound (some ⟨0, [105, 111, 110, 95, 99, 114, 99, 0], by decide⟩),
   blankRound (some ⟨0, [176, 97, 112, 112, 108, 105, 99, 97], by decide⟩),
   blankRound (some ⟨0, [116, 105, 111, 110, 95, 115, 105, 122], by decide⟩),
   blankRound (some ⟨0, [101, 0], by decide⟩),
   blankRound (some ⟨0x80, [1, 196, 63, 179, 193, 1, 1, 0], by decide⟩)]

/-- The last frame of that command. -/
def jumpRound : Round := blankRound (some ⟨0, [0, 0, 3, 3, 1, 144], by decide⟩)

/-- A ping for node 2. -/
def otherPingRounds : List Round :=
  [blankRound (some ⟨0x80, [1, 46, 220, 113, 38, 1, 2, 0], by decide⟩),
   blankRound (some clientPingFrame)]

/-- The event is a request to start the application. -/
def Event.startsApplication : Event σ → Bool
  | call _ c => c = .rebootSystem bootArgStartApplication
  | _ => false

theorem mem_of_any_startsApplication {events : List (Event σ)}
    (h : events.any Event.startsApplication = true) :
    ∃ w, Event.call w (.rebootSystem bootArgStartApplication) ∈ events := by
  obtain ⟨e, he, hstarts⟩ := List.any_eq_true.mp h
  cases e with
  | call w c =>
      simp only [Event.startsApplication, decide_eq_true_eq] at hstarts
      exact ⟨w, hstarts ▸ he⟩
  | _ => cases hstarts

/-- The Nucleo board is told to start an empty application, and does; and after a ping for another
    node it is left alone for its four seconds. -/
theorem boot_safety_rounds :
    (∃ events s w', runRounds blankPlatform (boot nucleoFirmware blankPlatform 0 blankLocals
        (fun _ => 0) (fun _ => 0) (fun _ => 0) 0 ()) emptyApplicationRounds = (events, some s) ∧
      Event.call w' (.rebootSystem bootArgStartApplication) ∈
        (roundStep blankPlatform s jumpRound).1 ∧
      nucleoFirmware.crc32 0 ((blankPlatform.mem w').read nucleoFirmware.app
        s.config.applicationSize.toNat) = s.config.applicationCrc) ∧
    ∃ events s, runRounds blankPlatform (boot nucleoFirmware blankPlatform 0 blankLocals
        (fun _ => 0) (fun _ => 0) (fun _ => 0) 0 ()) otherPingRounds = (events, some s) ∧
      let r := { blankRound none with bootloaderClock := 4000 }
      Event.jumpOnTimeout ∈ (roundStep blankPlatform s r).1 ∧ executed events = [] ∧
        nucleoFirmware.bootloaderTimeoutMs.toNat ≤ 4000 := by
  constructor
  · have hjump : (runRounds blankPlatform blankState emptyApplicationRounds).2.any (fun s =>
        (roundStep blankPlatform s jumpRound).1.any Event.startsApplication) = true := by
      decide +kernel
    rw [← boot_blank] at hjump
    generalize hrun : runRounds blankPlatform _ emptyApplicationRounds = o at hjump
    obtain ⟨events, next⟩ := o
    obtain ⟨s, rfl, hany⟩ := (Option.any_eq_true _ _).mp hjump
    obtain ⟨w', hmem⟩ := mem_of_any_startsApplication hany
    exact ⟨events, s, w', rfl, hmem, (boot_safety nucleoFirmware rfl blankPlatform 0
      blankLocals _ _ _ 0 () _ events s hrun jumpRound).1 w' hmem⟩
  · have htimeout : (runRounds blankPlatform blankState otherPingRounds).2.any (fun s =>
        s.bootloaderTimeoutEnabled && timeoutReached (timeMs 4000) s.bootloaderTimeoutStartMs
          nucleoFirmware.bootloaderTimeoutMs) = true := by
      decide +kernel
    rw [← boot_blank] at htimeout
    generalize hrun : runRounds blankPlatform _ otherPingRounds = o at htimeout
    obtain ⟨events, next⟩ := o
    obtain ⟨s, rfl, hout⟩ := (Option.any_eq_true _ _).mp htimeout
    have hmem : Event.jumpOnTimeout ∈ (roundStep blankPlatform s
        { blankRound none with bootloaderClock := 4000 }).1 := by
      rw [roundStep, if_pos hout]
      exact List.mem_cons_self
    obtain ⟨-, hnone, helapsed⟩ := (boot_safety nucleoFirmware rfl blankPlatform 0 blankLocals
      _ _ _ 0 () _ events s hrun _).2 hmem
    exact ⟨events, s, rfl, hmem, hnone, helapsed (by decide) (by decide)⟩

end CanBootloader
