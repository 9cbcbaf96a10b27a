/-
  The frames of the datagram in reception, along a run of the main loop.

  The reader keeps no record of what it was fed. `framesFed` and `framesKept` do, from outside:
  the frames appended since `can_datagram_start` was last called. `Fed` says that the reader is
  in the state these frames lead to, and it holds in every round of a run (`fed_receptions`).
  So what a run does to the reader is a matter of byte strings.
-/
import CanBootloader.Firmware.Rounds

namespace CanBootloader

open Lib

variable {fw : Firmware} {σ : Type}

/-! ## One round -/

/-- The bytes of some frames. -/
def frameBytes (fs : List RxFrame) : List UInt8 := fs.flatMap RxFrame.data

theorem frameBytes_append (fs gs : List RxFrame) :
    frameBytes (fs ++ gs) = frameBytes fs ++ frameBytes gs := List.flatMap_append

/-- The round jumps to the application, so nothing is received in it. -/
def bootloaderTimedOut (s : LoopState fw σ) (r : Round) : Bool :=
  s.bootloaderTimeoutEnabled &&
    timeoutReached (timeMs r.bootloaderClock) s.bootloaderTimeoutStartMs fw.bootloaderTimeoutMs

def datagramTimedOut (s : LoopState fw σ) (r : Round) : Bool :=
  s.datagramTimeoutRunning &&
    timeoutReached (timeMs r.datagramClock) s.datagramTimeoutStartMs fw.datagramTimeoutMs

/-- The frame of the round, if it is a broadcast or for this node. -/
def frameForUs (s : LoopState fw σ) (r : Round) : Option RxFrame :=
  r.frame.filter fun f => frameIsForUs s.config f.id

/-- A start frame begins a new datagram. -/
def RxFrame.isStart (f : RxFrame) : Bool := f.id &&& idStartMask ≠ 0

/-- The frames in reception when the round gets to its own frame, with `fs` before the round. -/
def framesBefore (s : LoopState fw σ) (fs : List RxFrame) (r : Round) : List RxFrame :=
  if (frameForUs s r).any RxFrame.isStart || datagramTimedOut s r then [] else fs

/-- The frames in reception behind the frame of the round. -/
def framesFed (s : LoopState fw σ) (fs : List RxFrame) (r : Round) : List RxFrame :=
  framesBefore s fs r ++ (frameForUs s r).toList

/-- The state in which the frame of the round is fed to the reader. -/
def fedFrom (s : LoopState fw σ) (r : Round) : LoopState fw σ :=
  let s := (checkDatagramTimeout s r).2
  if (frameForUs s r).any RxFrame.isStart then { s with inbox := s.inbox.start } else s

/-- The state behind the frame of the round, before a datagram is handled. -/
def fedState (s : LoopState fw σ) (r : Round) : LoopState fw σ :=
  let s := (checkDatagramTimeout s r).2
  match frameForUs s r with
  | none => s
  | some f => appendFrame s f r.resetClock

/-- The frame of the round ends a datagram. -/
def endsDatagram (s : LoopState fw σ) (r : Round) : Bool :=
  (frameForUs s r).any fun f =>
    canDatagramIsComplete (fedState s r).inbox.dt || f.data.length < 8

/-- The frames in reception behind the round. -/
def framesKept (s : LoopState fw σ) (fs : List RxFrame) (r : Round) : List RxFrame :=
  if endsDatagram s r then [] else framesFed s fs r

/-! ## What the reader holds -/

/-- The reader is in the state that the bytes lead to from the start of a datagram. -/
def Fed (s : LoopState fw σ) (bytes : List UInt8) : Prop :=
  ∃ dt : CanDatagram, dt.dataBufferSize = UInt32.ofNat fw.inputBufferSize ∧
    s.inbox.dt = canDatagramInput (canDatagramStart dt) bytes

theorem Fed.start (s : LoopState fw σ) (h : canDatagramStart s.inbox.dt = s.inbox.dt) :
    Fed s [] :=
  ⟨s.inbox.dt, s.inbox.sized, h.symm⟩

theorem frameForUs_checkDatagramTimeout (s : LoopState fw σ) (r : Round) :
    frameForUs (checkDatagramTimeout s r).2 r = frameForUs s r := by
  unfold checkDatagramTimeout frameForUs
  split_ifs
  · rfl
  · rfl

theorem checkDatagramTimeout_inbox (s : LoopState fw σ) (r : Round) :
    (checkDatagramTimeout s r).2.inbox =
      if datagramTimedOut s r then s.inbox.start else s.inbox := by
  unfold checkDatagramTimeout datagramTimedOut
  split_ifs
  · rfl
  · rfl

theorem appendFrame_inbox (s : LoopState fw σ) (f : RxFrame) (clock : Nat) :
    (appendFrame s f clock).inbox =
      (if f.isStart then s.inbox.start else s.inbox).input f.data := by
  unfold appendFrame RxFrame.isStart
  simp only [decide_eq_true_eq]
  split_ifs
  · rfl
  · rfl

/-- A start frame or a timeout starts the reader; otherwise it stays as it is. -/
theorem fedFrom_inbox (s : LoopState fw σ) (r : Round) :
    (fedFrom s r).inbox =
      if (frameForUs s r).any RxFrame.isStart || datagramTimedOut s r then s.inbox.start
      else s.inbox := by
  have hinbox := checkDatagramTimeout_inbox s r
  unfold fedFrom
  simp only [frameForUs_checkDatagramTimeout]
  cases (frameForUs s r).any RxFrame.isStart with
  | true =>
      simp only [if_true, Bool.true_or]
      rw [hinbox]
      split_ifs
      · rfl
      · rfl
  | false => simpa using hinbox

theorem fed_fedFrom {s : LoopState fw σ} {fs : List RxFrame} (h : Fed s (frameBytes fs))
    (r : Round) : Fed (fedFrom s r) (frameBytes (framesBefore s fs r)) := by
  have hinbox := congrArg Inbox.dt (fedFrom_inbox s r)
  unfold framesBefore
  split_ifs at hinbox ⊢
  · exact ⟨s.inbox.dt, s.inbox.sized, hinbox⟩
  · obtain ⟨dt, hsize, hdt⟩ := h
    exact ⟨dt, hsize, hinbox.trans hdt⟩

/-- The frame of the round is fed to the reader. -/
theorem fedState_inbox (s : LoopState fw σ) (r : Round) :
    (fedState s r).inbox.dt =
      canDatagramInput (fedFrom s r).inbox.dt (frameBytes (frameForUs s r).toList) := by
  unfold fedState fedFrom
  simp only [frameForUs_checkDatagramTimeout]
  cases frameForUs s r with
  | none => rfl
  | some f =>
      simp only [Option.any_some, Option.toList_some, frameBytes, List.flatMap_cons,
        List.flatMap_nil, List.append_nil, appendFrame_inbox]
      split_ifs
      · rfl
      · rfl

theorem fed_fedState {s : LoopState fw σ} {fs : List RxFrame} (h : Fed s (frameBytes fs))
    (r : Round) : Fed (fedState s r) (frameBytes (framesFed s fs r)) := by
  obtain ⟨dt, hsize, hdt⟩ := fed_fedFrom h r
  refine ⟨dt, hsize, ?_⟩
  rw [fedState_inbox, hdt, ← input_append, framesFed, frameBytes_append]

/-! ## The next round -/

variable (p : Platform σ)

theorem receive_eq (s : LoopState fw σ) (r : Round) :
    receive p (checkDatagramTimeout s r).2 r =
      if endsDatagram s r then
        handleDatagram p (fedState s r) ((frameForUs s r).elim 0 RxFrame.id) r
      else ([], some (fedState s r)) := by
  have hus := frameForUs_checkDatagramTimeout s r
  unfold receive endsDatagram fedState
  rw [← hus]
  generalize (checkDatagramTimeout s r).2 = t
  cases hf : r.frame with
  | none =>
      have hnone : frameForUs t r = none := by simp [frameForUs, hf]
      simp [hnone]
  | some f =>
      by_cases hid : frameIsForUs t.config f.id
      · have hsome : frameForUs t r = some f := by simp [frameForUs, hf, hid]
        simp [hsome, hid]
      · have hnone : frameForUs t r = none := by simp [frameForUs, hf, hid]
        simp [hnone, hid]

/-- A round that gets past the bootloader timeout. -/
theorem roundStep_eq {s : LoopState fw σ} {r : Round} (h : bootloaderTimedOut s r = false) :
    roundStep p s r = ((checkDatagramTimeout s r).1 ++ (receive p (checkDatagramTimeout s r).2 r).1,
      (receive p (checkDatagramTimeout s r).2 r).2) := by
  unfold bootloaderTimedOut at h
  simp [roundStep, h]

theorem bootloaderTimedOut_of_next {s t : LoopState fw σ} {r : Round}
    (h : (roundStep p s r).2 = some t) : bootloaderTimedOut s r = false := by
  unfold roundStep at h
  unfold bootloaderTimedOut
  split_ifs at h with hjump
  simpa using hjump

/-- The state behind a round. -/
theorem roundStep_next {s t : LoopState fw σ} {r : Round} (h : (roundStep p s r).2 = some t) :
    (receive p (checkDatagramTimeout s r).2 r).2 = some t := by
  rwa [roundStep_eq p (bootloaderTimedOut_of_next p h)] at h

/-- Behind a round the reader is in the state that the kept frames lead to. -/
theorem fed_roundStep {s t : LoopState fw σ} {fs : List RxFrame} (h : Fed s (frameBytes fs))
    {r : Round} (hnext : (roundStep p s r).2 = some t) :
    Fed t (frameBytes (framesKept s fs r)) := by
  have hreceive := roundStep_next p hnext
  rw [receive_eq] at hreceive
  unfold framesKept
  split_ifs at hreceive ⊢ with hend
  · exact .start t (handleDatagram_restarts p hreceive)
  · rw [← Option.some.inj hreceive]
    exact fed_fedState h r

/-- A round executes the datagram that it ends, if that is valid and for this node. -/
def executesDatagram (s : LoopState fw σ) (r : Round) : Bool :=
  endsDatagram s r && canDatagramIsValid fw.crc32 (fedState s r).inbox.dt &&
    (fedState s r).inbox.addressed (fedState s r).config.ID

theorem executed_checkDatagramTimeout (s : LoopState fw σ) (r : Round) :
    executed (checkDatagramTimeout s r).1 = [] := by
  unfold checkDatagramTimeout
  split_ifs
  · exact executed_sent _
  · rfl

theorem executed_sendReply (s : LoopState fw σ) (id : UInt32) (e : Execution) (send : Nat → Bool) :
    executed (sendReply s id e send).1 = [] := by
  unfold sendReply
  simp only
  split_ifs
  · exact executed_sent _
  · exact executed_sent _

theorem executed_handleDatagram (s : LoopState fw σ) (id : UInt32) (r : Round) :
    executed (handleDatagram p s id r).1 =
      if canDatagramIsValid fw.crc32 s.inbox.dt && s.inbox.addressed s.config.ID then
        [s.inbox.payload]
      else [] := by
  cases hvalid : canDatagramIsValid fw.crc32 s.inbox.dt with
  | false =>
      rw [handleDatagram_corrupt p hvalid]
      exact executed_sent _
  | true =>
      cases haddr : s.inbox.addressed s.config.ID with
      | false =>
          rw [handleDatagram_other p hvalid haddr]
          rfl
      | true =>
          rw [handleDatagram_addressed p hvalid haddr]
          cases (execution p s r).value with
          | none => simp
          | some e => simp [executed_sendReply]

/-- The datagrams executed in a round. -/
theorem executed_roundStep {s : LoopState fw σ} {r : Round} (h : bootloaderTimedOut s r = false) :
    executed (roundStep p s r).1 =
      if executesDatagram s r then [(fedState s r).inbox.payload] else [] := by
  rw [roundStep_eq p h, executed_append, executed_checkDatagramTimeout, List.nil_append, receive_eq]
  unfold executesDatagram
  by_cases hend : endsDatagram s r = true
  · simp [hend, executed_handleDatagram]
  · simp [hend]

/-! ## Runs -/

/-- A round that gets past the bootloader timeout, with the state it begins in and the frames in
    reception then. -/
structure Reception (fw : Firmware) (σ : Type) where
  state : LoopState fw σ
  frames : List RxFrame
  round : Round

namespace Reception

/-- The bytes in reception before and behind the frame of the round. -/
def bytesBefore (x : Reception fw σ) : List UInt8 :=
  frameBytes (framesBefore x.state x.frames x.round)

def bytes (x : Reception fw σ) : List UInt8 := frameBytes (framesFed x.state x.frames x.round)

/-- The reader when the frame of the round is fed to it, and behind it. -/
def readerBefore (x : Reception fw σ) : CanDatagram := (fedFrom x.state x.round).inbox.dt

def reader (x : Reception fw σ) : CanDatagram := (fedState x.state x.round).inbox.dt

/-- The bytes of the round's own frame. -/
def newBytes (x : Reception fw σ) : List UInt8 := frameBytes (frameForUs x.state x.round).toList

theorem bytes_eq (x : Reception fw σ) : x.bytes = x.bytesBefore ++ x.newBytes := by
  rw [bytes, framesFed, frameBytes_append]
  rfl

end Reception

/-- The receptions of a run that begins with the frames `fs` in reception. -/
def receptions (s : LoopState fw σ) (fs : List RxFrame) : List Round → List (Reception fw σ)
  | [] => []
  | r :: rounds =>
      if bootloaderTimedOut s r then []
      else ⟨s, fs, r⟩ ::
        match (roundStep p s r).2 with
        | none => []
        | some t => receptions t (framesKept s fs r) rounds

/-- The rule for runs: a property of the receptions before, the state and the frames in reception
    that each round keeps holds at every reception. -/
theorem receptions_induction {I : List (Reception fw σ) → LoopState fw σ → List RxFrame → Prop}
    (step : ∀ pre s fs r t, I pre s fs → (roundStep p s r).2 = some t →
      I (pre ++ [⟨s, fs, r⟩]) t (framesKept s fs r)) (rounds : List Round) :
    ∀ (pre : List (Reception fw σ)) {s : LoopState fw σ} {fs : List RxFrame}, I pre s fs →
      ∀ xs x ys, receptions p s fs rounds = xs ++ x :: ys →
        bootloaderTimedOut x.state x.round = false ∧ I (pre ++ xs) x.state x.frames := by
  induction rounds with
  | nil =>
      intro pre s fs _ xs x ys hsplit
      simp [receptions] at hsplit
  | cons r rounds ih =>
      intro pre s fs h xs x ys hsplit
      unfold receptions at hsplit
      split_ifs at hsplit with htime
      · simp at hsplit
      · cases xs with
        | nil =>
            obtain rfl := (List.cons.inj hsplit).1
            rw [List.append_nil]
            exact ⟨by simpa using htime, h⟩
        | cons y xs =>
            obtain ⟨rfl, htail⟩ := List.cons.inj hsplit
            cases hnext : (roundStep p s r).2 with
            | none =>
                rw [hnext] at htail
                simp at htail
            | some t =>
                rw [hnext] at htail
                rw [List.append_cons]
                exact ih (pre ++ [⟨s, fs, r⟩]) (step pre s fs r t h hnext) xs x ys htail

/-- No reception is cut off by the bootloader timeout. -/
theorem receptions_running {rounds : List Round} {s : LoopState fw σ} {fs : List RxFrame}
    {xs ys : List (Reception fw σ)} {x : Reception fw σ}
    (h : receptions p s fs rounds = xs ++ x :: ys) : bootloaderTimedOut x.state x.round = false :=
  (receptions_induction p (I := fun _ _ _ => True) (fun _ _ _ _ _ _ _ => trivial) rounds []
    trivial xs x ys h).1

/-- In every reception of a run the reader is in the state that its frames lead to. -/
theorem fed_receptions (rounds : List Round) {s : LoopState fw σ} {fs : List RxFrame}
    (h : Fed s (frameBytes fs)) :
    ∀ x ∈ receptions p s fs rounds, Fed x.state (frameBytes x.frames) := by
  intro x hx
  obtain ⟨xs, ys, hsplit⟩ := List.append_of_mem hx
  exact (receptions_induction p (I := fun _ s fs => Fed s (frameBytes fs))
    (fun _ _ _ _ _ hfed hnext => fed_roundStep p hfed hnext) rounds [] h xs x ys
    hsplit).2

/-- A list around one of its elements. -/
theorem split_of_getElem? {α : Type} {xs : List α} {i : Nat} {x : α} (h : xs[i]? = some x) :
    xs = xs.take i ++ x :: xs.drop (i + 1) := by
  obtain ⟨hi, hget⟩ := List.getElem?_eq_some_iff.mp h
  rw [← hget, ← List.drop_eq_getElem_cons hi, List.take_append_drop]

/-- A reception that passes a test, together with those before it. -/
theorem exists_reception (s : LoopState fw σ) (rounds : List Round) (n : Nat)
    (test : List (Reception fw σ) → Reception fw σ → Bool)
    (h : ((receptions p s [] rounds)[n]?).any (test ((receptions p s [] rounds).take n)) = true) :
    ∃ xs x ys, receptions p s [] rounds = xs ++ x :: ys ∧ test xs x = true := by
  obtain ⟨x, hx, htest⟩ := (Option.any_eq_true _ _).mp h
  exact ⟨_, x, _, split_of_getElem? hx, htest⟩

/-- The receptions of a run of `bootloader_main`. -/
def bootReceptions (fw : Firmware) (arg : UInt8) (l : Locals) (addrBuf dataBuf outputBuf : Store)
    (clock : Nat) (w : σ) (rounds : List Round) : List (Reception fw σ) :=
  receptions p (boot fw p arg l addrBuf dataBuf outputBuf clock w) [] rounds

end CanBootloader
