/-
  can_fifo.c and the buffered reception of the stm32f4's can_interface.c.

  `can_receive_to_buffer` runs in the receive interrupt and fills the FIFO; the main loop empties
  it with `can_interface_read_message`. The interrupt may come before any access of the main
  loop to the FIFO, any number of times. The main loop does not interrupt it, so its stores to
  the fields of a slot and to the push index are one step.

  * `canReceiveToBuffer_cases`: all that an interrupt can do.
  * `Lossless`: the frames taken from the hardware are those stored, and these are the ones
    returned, those on their way, and those held, in this order.
  * `crash_canInterfaceReadMessage`: what a read does, under interrupts.
  * `canRxFifo_lossless`: runs of the main loop.
-/
import CanBootloader.Lib.Prog
import CanBootloader.Lib.Ring

namespace CanBootloader

open Lib

/-! ## The FIFO -/

/-- `can_frame_t`. -/
structure CanFrame where
  id : UInt32
  dlc : UInt8
  data : Fin 8 → UInt8

/-- `fifo_t`. Its capacity, `CAN_FRAMES_BUFFERED`, is an argument of the functions. -/
structure Fifo where
  buffer : Nat → CanFrame
  pushIndex : UInt16
  popIndex : UInt16

def fifoInit (fifo : Fifo) : Fifo := { fifo with pushIndex := 0, popIndex := 0 }

/-- `(index + 1) % CAN_FRAMES_BUFFERED`, which is an `int`. -/
def nextIndex (canFramesBuffered : Nat) (index : UInt16) : Nat :=
  (index.toNat + 1) % canFramesBuffered

def fifoIsFull (canFramesBuffered : Nat) (fifo : Fifo) : Bool :=
  nextIndex canFramesBuffered fifo.pushIndex == fifo.popIndex.toNat

/-! ## The interrupt -/

/-- The FIFO, and what there has been: the frames taken from the hardware, those stored in the
    FIFO, and those returned to the main loop. -/
structure RxWorld where
  fifo : Fifo
  taken : List CanFrame
  stored : List CanFrame
  returned : List CanFrame

def RxWorld.start (fifo : Fifo) : RxWorld := ⟨fifoInit fifo, [], [], []⟩

/-- `can_receive_to_buffer`, where the hardware has the frame `rx` or none. -/
def canReceiveToBuffer (canFramesBuffered : Nat) (rx : Option CanFrame) (w : RxWorld) :
    RxWorld :=
  match rx with
  | none => w
  | some frame =>
      if fifoIsFull canFramesBuffered w.fifo then w
      else
        { w with
          taken := w.taken ++ [frame]
          stored := w.stored ++ [frame]
          fifo := { w.fifo with
            buffer := Function.update w.fifo.buffer w.fifo.pushIndex.toNat frame
            pushIndex := UInt16.ofNat (nextIndex canFramesBuffered w.fifo.pushIndex) } }

/-- The receive interrupt. -/
def RxInterrupt (canFramesBuffered : Nat) (w w' : RxWorld) : Prop :=
  ∃ rx, w' = canReceiveToBuffer canFramesBuffered rx w

/-! ## The main loop -/

/-- The accesses of the main loop to the FIFO, and its return of a frame. -/
inductive FifoOp where
  | pushIndex
  | popIndex
  | id (index : UInt16)
  | dlc (index : UInt16)
  | data (index : UInt16) (i : Fin 8)
  | setPopIndex (value : UInt16)
  | returned (frame : CanFrame)

abbrev FifoOp.Resp : FifoOp → Type
  | .pushIndex => UInt16
  | .popIndex => UInt16
  | .id _ => UInt32
  | .dlc _ => UInt8
  | .data _ _ => UInt8
  | _ => Unit

def fifoAccess : (op : FifoOp) → RxWorld → op.Resp × RxWorld
  | .pushIndex, w => (w.fifo.pushIndex, w)
  | .popIndex, w => (w.fifo.popIndex, w)
  | .id index, w => ((w.fifo.buffer index.toNat).id, w)
  | .dlc index, w => ((w.fifo.buffer index.toNat).dlc, w)
  | .data index i, w => ((w.fifo.buffer index.toNat).data i, w)
  | .setPopIndex value, w => ((), { w with fifo := { w.fifo with popIndex := value } })
  | .returned frame, w => ((), { w with returned := w.returned ++ [frame] })

abbrev FifoCode := Prog FifoOp FifoOp.Resp

/-- C leaves open which of the two indices is read first. -/
def fifoIsEmpty (popFirst : Bool) : FifoCode Bool :=
  if popFirst then
    .call .popIndex fun pop =>
    .call .pushIndex fun push =>
    .ret (pop == push)
  else
    .call .pushIndex fun push =>
    .call .popIndex fun pop =>
    .ret (pop == push)

/-- What `id`, `dlc` and `data` point to is `out`. -/
def fifoGetOldestEntry (out : CanFrame) : FifoCode CanFrame :=
  .call .popIndex fun index =>
  .call (.id index) fun id =>
  .call (.dlc index) fun dlc => do
    let data ← (List.finRange 8).foldlM
      (fun data i => .call (.data index i) fun b => .ret (Function.update data i b)) out.data
    .ret ⟨id, dlc, data⟩

def fifoDropOldestEntry (canFramesBuffered : Nat) : FifoCode Unit :=
  .call .popIndex fun pop =>
  .call (.setPopIndex (UInt16.ofNat (nextIndex canFramesBuffered pop))) .ret

def canReceiveFromBuffer (canFramesBuffered : Nat) (popFirst : Bool) (out : CanFrame) :
    FifoCode (Bool × CanFrame) := do
  if ← fifoIsEmpty popFirst then .ret (false, out)
  else do
    let out ← fifoGetOldestEntry out
    fifoDropOldestEntry canFramesBuffered
    .ret (true, out)

def canInterfaceReadMessage (canFramesBuffered : Nat) (popFirst : Bool) (out : CanFrame) :
    FifoCode (Bool × CanFrame) := do
  if !(← fifoIsEmpty popFirst) then canReceiveFromBuffer canFramesBuffered popFirst out
  else .ret (false, out)

/-- Rounds of the main loop, as far as they read messages. -/
def readMessages (canFramesBuffered : Nat) (popFirst : Bool) : Nat → CanFrame → FifoCode CanFrame
  | 0, out => .ret out
  | rounds + 1, out => do
      let r ← canInterfaceReadMessage canFramesBuffered popFirst out
      if r.1 then
        .call (.returned r.2) fun _ => readMessages canFramesBuffered popFirst rounds r.2
      else readMessages canFramesBuffered popFirst rounds r.2

/-- The main loop under the receive interrupt. -/
def rxSemantics (canFramesBuffered : Nat) : Prog.Semantics FifoOp FifoOp.Resp RxWorld :=
  .interrupted (RxInterrupt canFramesBuffered) fifoAccess

variable {n : Nat}

/-! ## What holds at every moment -/

/-- The frames held, oldest first. -/
def Fifo.held (n : Nat) (fifo : Fifo) : List CanFrame :=
  Ring.contents n fifo.buffer fifo.popIndex.toNat fifo.pushIndex.toNat

/-- No frame is lost or doubled, with `moving` those that have left the FIFO but have not been
    returned. -/
structure Lossless (n : Nat) (moving : List CanFrame) (w : RxWorld) : Prop where
  push_lt : w.fifo.pushIndex.toNat < n
  pop_lt : w.fifo.popIndex.toNat < n
  taken_eq : w.taken = w.stored
  stored_eq : w.stored = w.returned ++ moving ++ w.fifo.held n

/-- All that an interrupt can do. -/
theorem canReceiveToBuffer_cases (n : Nat) (rx : Option CanFrame) (w : RxWorld) :
    canReceiveToBuffer n rx w = w ∨ ∃ frame, fifoIsFull n w.fifo = false ∧
      canReceiveToBuffer n rx w =
        { w with
          taken := w.taken ++ [frame]
          stored := w.stored ++ [frame]
          fifo := { w.fifo with
            buffer := Function.update w.fifo.buffer w.fifo.pushIndex.toNat frame
            pushIndex := UInt16.ofNat (nextIndex n w.fifo.pushIndex) } } := by
  cases rx with
  | none => exact .inl rfl
  | some frame =>
      by_cases hfull : fifoIsFull n w.fifo = true
      · exact .inl (if_pos hfull)
      · exact .inr ⟨frame, Bool.eq_false_iff.mpr hfull, if_neg hfull⟩

theorem nextIndex_eq (n : Nat) (index : UInt16) : nextIndex n index = Ring.next n index.toNat := rfl

/-- The next index fits its variable. -/
theorem toNat_ofNat_nextIndex (hn : n < 2 ^ 16) {index : UInt16} (h : index.toNat < n) :
    (UInt16.ofNat (nextIndex n index)).toNat = Ring.next n index.toNat := by
  have hlt := Ring.next_lt h
  rw [nextIndex_eq, UInt16.toNat_ofNat']
  exact Nat.mod_eq_of_lt (by omega)

/-- An interrupt appends to the frames held, or does nothing. -/
theorem Lossless.interrupt (hn : n < 2 ^ 16) {moving : List CanFrame} {w w' : RxWorld}
    (h : Lossless n moving w) (hstep : RxInterrupt n w w') :
    Lossless n moving w' ∧ w'.fifo.popIndex = w.fifo.popIndex ∧
      w.fifo.held n <+: w'.fifo.held n := by
  obtain ⟨rx, rfl⟩ := hstep
  obtain heq | ⟨frame, hfull, heq⟩ := canReceiveToBuffer_cases n rx w
  · rw [heq]
    exact ⟨h, rfl, List.prefix_rfl⟩
  · rw [fifoIsFull, beq_eq_false_iff_ne, nextIndex_eq] at hfull
    have hpush := toNat_ofNat_nextIndex hn h.push_lt
    have hheld := Ring.contents_push w.fifo.buffer h.pop_lt h.push_lt hfull frame
    rw [← hpush] at hheld
    rw [heq]
    refine ⟨⟨?_, h.pop_lt, ?_, ?_⟩, rfl, ⟨[frame], hheld.symm⟩⟩
    · exact hpush ▸ Ring.next_lt h.push_lt
    · exact congrArg (· ++ [frame]) h.taken_eq
    · have hstored := congrArg (· ++ [frame]) h.stored_eq
      rw [List.append_assoc, show w.fifo.held n ++ [frame] = _ from hheld.symm] at hstored
      exact hstored

theorem Lossless.stable (hn : n < 2 ^ 16) (moving : List CanFrame) :
    Prog.Stable (RxInterrupt n) (Lossless n moving) :=
  fun _ _ h hstep => (h.interrupt hn hstep).1

/-- At most one frame is on its way. -/
def LosslessNow (n : Nat) (w : RxWorld) : Prop :=
  ∃ moving : List CanFrame, moving.length ≤ 1 ∧ Lossless n moving w

theorem Lossless.now {w : RxWorld} (h : Lossless n [] w) : LosslessNow n w :=
  ⟨[], Nat.zero_le 1, h⟩

theorem Lossless.now_moving {frame : CanFrame} {w : RxWorld} (h : Lossless n [frame] w) :
    LosslessNow n w :=
  ⟨[frame], le_rfl, h⟩

theorem Lossless.held_eq_nil_iff {moving : List CanFrame} {w : RxWorld} (h : Lossless n moving w) :
    w.fifo.held n = [] ↔ w.fifo.popIndex = w.fifo.pushIndex := by
  rw [Fifo.held, Ring.contents_eq_nil_iff h.pop_lt h.push_lt, UInt16.toNat_inj]

theorem Lossless.held_length_lt {moving : List CanFrame} {w : RxWorld} (h : Lossless n moving w) :
    (w.fifo.held n).length < n := by
  rw [Fifo.held, Ring.contents_length]
  exact Ring.count_lt h.pop_lt

theorem lossless_start (hpos : 0 < n) (fifo : Fifo) : Lossless n [] (RxWorld.start fifo) := by
  have hempty : (fifoInit fifo).held n = [] := (Ring.contents_eq_nil_iff hpos hpos).mpr rfl
  refine ⟨hpos, hpos, rfl, ?_⟩
  exact hempty.symm

/-! ## The main loop under interrupts -/

/-- Nothing is on its way, and the frames held begin with `known`. -/
def FifoHolds (n : Nat) (known : List CanFrame) (w : RxWorld) : Prop :=
  Lossless n [] w ∧ known <+: w.fifo.held n

theorem FifoHolds.stable (hn : n < 2 ^ 16) (known : List CanFrame) :
    Prog.Stable (RxInterrupt n) (FifoHolds n known) := by
  intro w w' h hstep
  obtain ⟨hlossless, -, hheld⟩ := h.1.interrupt hn hstep
  exact ⟨hlossless, h.2.trans hheld⟩

theorem FifoHolds.now {known : List CanFrame} {w : RxWorld} (h : FifoHolds n known w) :
    LosslessNow n w :=
  h.1.now

/-- With the pop index as it was read. -/
def FifoHoldsAt (n : Nat) (frame : CanFrame) (index : UInt16) (w : RxWorld) : Prop :=
  FifoHolds n [frame] w ∧ w.fifo.popIndex = index

theorem FifoHoldsAt.stable (hn : n < 2 ^ 16) (frame : CanFrame) (index : UInt16) :
    Prog.Stable (RxInterrupt n) (FifoHoldsAt n frame index) := by
  intro w w' h hstep
  obtain ⟨-, hpop, -⟩ := h.1.1.interrupt hn hstep
  exact ⟨FifoHolds.stable hn [frame] w w' h.1 hstep, hpop.trans h.2⟩

/-- The first frame held is in the slot of the pop index, and the others are held when the
    index has advanced. -/
theorem FifoHolds.pop {frame : CanFrame} {w : RxWorld} (h : FifoHolds n [frame] w) :
    w.fifo.buffer w.fifo.popIndex.toNat = frame ∧
      w.fifo.held n = frame :: Ring.contents n w.fifo.buffer
        (Ring.next n w.fifo.popIndex.toNat) w.fifo.pushIndex.toNat := by
  obtain ⟨hlossless, rest, hrest⟩ := h
  have hne : w.fifo.popIndex.toNat ≠ w.fifo.pushIndex.toNat := by
    intro heq
    have hnil := hlossless.held_eq_nil_iff.mpr (UInt16.toNat_inj.mp heq)
    rw [hnil] at hrest
    exact absurd hrest (by simp)
  have hpop := Ring.contents_pop w.fifo.buffer hlossless.pop_lt hlossless.push_lt hne
  have hheld : w.fifo.held n = _ := hpop
  rw [hheld, List.singleton_append] at hrest
  have hframe := (List.cons.inj hrest).1
  exact ⟨hframe.symm, by rw [hheld, ← hframe]⟩

theorem FifoHoldsAt.slot {frame : CanFrame} {index : UInt16} {w : RxWorld}
    (h : FifoHoldsAt n frame index w) : w.fifo.buffer index.toNat = frame :=
  h.2 ▸ h.1.pop.1

/-- The index that was read first still tells whether there are frames. -/
def IndexRead (n : Nat) (known : List CanFrame) (index : UInt16) (w : RxWorld) : Prop :=
  FifoHolds n known w ∧ (w.fifo.popIndex = index → known = []) ∧
    (w.fifo.popIndex ≠ index → w.fifo.held n ≠ [])

theorem IndexRead.stable (hn : n < 2 ^ 16) (known : List CanFrame) (index : UInt16) :
    Prog.Stable (RxInterrupt n) (IndexRead n known index) := by
  intro w w' ⟨hholds, heq, hne⟩ hstep
  obtain ⟨-, hpop, hheld⟩ := hholds.1.interrupt hn hstep
  refine ⟨FifoHolds.stable hn known w w' hholds hstep, ?_, ?_⟩
  · rw [hpop]
    exact heq
  · rw [hpop]
    intro hindex hnil
    rw [hnil] at hheld
    exact hne hindex (List.prefix_nil.mp hheld)

/-- An answer of `fifo_is_empty`. -/
def EmptyAnswer (n : Nat) (known : List CanFrame) (empty : Bool) (w : RxWorld) : Prop :=
  FifoHolds n known w ∧ (empty = true → known = []) ∧ (empty = false → w.fifo.held n ≠ [])

theorem crash_fifoIsEmpty (hn : n < 2 ^ 16) (popFirst : Bool) (known : List CanFrame) :
    Prog.Crash (rxSemantics n) (FifoHolds n known) (fifoIsEmpty popFirst) (LosslessNow n)
      (EmptyAnswer n known) := by
  have hknown : ∀ w, FifoHolds n known w → w.fifo.held n = [] → known = [] := by
    intro w hw hnil
    exact List.prefix_nil.mp (hnil ▸ hw.2)
  cases popFirst with
  | true =>
      refine .access (fun pop w => FifoHolds n known w ∧ w.fifo.popIndex = pop)
        (FifoHolds.stable hn known) (fun w hw => hw.now) (fun w hw => ⟨hw, rfl⟩) fun pop => ?_
      refine .access (fun push w => EmptyAnswer n known (pop == push) w) ?_
        (fun w hw => hw.1.now) ?_ fun push => .ret (fun w hw => hw.1.now) fun w hw => hw
      · intro w w' hw hstep
        exact ⟨FifoHolds.stable hn known w w' hw.1 hstep,
          (hw.1.1.interrupt hn hstep).2.1.trans hw.2⟩
      · rintro w ⟨hholds, rfl⟩
        refine ⟨hholds, ?_, ?_⟩
        · intro heq
          exact hknown w hholds (hholds.1.held_eq_nil_iff.mpr (beq_iff_eq.mp heq))
        · intro hne hnil
          exact beq_eq_false_iff_ne.mp hne (hholds.1.held_eq_nil_iff.mp hnil)
  | false =>
      refine .access (IndexRead n known) (FifoHolds.stable hn known) (fun w hw => hw.now) ?_
        fun push => ?_
      · intro w hw
        refine ⟨hw, ?_, ?_⟩
        · intro heq
          exact hknown w hw (hw.1.held_eq_nil_iff.mpr heq)
        · intro hne hnil
          exact hne (hw.1.held_eq_nil_iff.mp hnil)
      refine .access (fun pop w => EmptyAnswer n known (pop == push) w)
        (IndexRead.stable hn known push) (fun w hw => hw.1.now) ?_
        fun pop => .ret (fun w hw => hw.1.now) fun w hw => hw
      intro w ⟨hholds, heq, hne⟩
      exact ⟨hholds, fun h => heq (beq_iff_eq.mp h), fun h => hne (beq_eq_false_iff_ne.mp h)⟩

/-- The copying loop. Each round fills one byte, from a slot that interrupts do not touch. -/
theorem crash_data (hn : n < 2 ^ 16) (frame : CanFrame) (index : UInt16) (positions : List (Fin 8)) :
    ∀ data : Fin 8 → UInt8,
    Prog.Crash (rxSemantics n) (FifoHoldsAt n frame index)
      (positions.foldlM (m := FifoCode)
        (fun data i => .call (.data index i) fun b => .ret (Function.update data i b)) data)
      (LosslessNow n) (fun data' w => FifoHoldsAt n frame index w ∧
        ∀ i, data' i = if i ∈ positions then frame.data i else data i) := by
  induction positions with
  | nil =>
      intro data
      exact .ret (fun w hw => hw.1.now) fun w hw => ⟨hw, fun i => by simp⟩
  | cons i positions ih =>
      intro data
      rw [List.foldlM_cons, Prog.call_bind]
      refine .access (fun b w => FifoHoldsAt n frame index w ∧ b = frame.data i)
        (FifoHoldsAt.stable hn frame index) (fun w hw => hw.1.now) ?_ fun b => ?_
      · intro w hw
        exact ⟨hw, congrFun (congrArg CanFrame.data hw.slot) i⟩
      · intro w ⟨hw, hb⟩
        refine (ih (Function.update data i b)).weaken
          (fun _ (h : FifoHoldsAt n frame index _) => h) (fun _ h => h) ?_ w hw
        intro data' v ⟨hv, hdata⟩
        refine ⟨hv, fun j => ?_⟩
        rw [hdata j]
        by_cases hj : j = i
        · simp [hj, hb]
        · simp [hj]

theorem crash_fifoGetOldestEntry (hn : n < 2 ^ 16) (frame out : CanFrame) :
    Prog.Crash (rxSemantics n) (FifoHolds n [frame]) (fifoGetOldestEntry out) (LosslessNow n)
      (fun out' w => FifoHolds n [frame] w ∧ out' = frame) := by
  refine .access (FifoHoldsAt n frame) (FifoHolds.stable hn [frame]) (fun w hw => hw.now)
    (fun w hw => ⟨hw, rfl⟩) fun index => ?_
  refine .access (fun id w => FifoHoldsAt n frame index w ∧ id = frame.id)
    (FifoHoldsAt.stable hn frame index) (fun w hw => hw.1.now)
    (fun w hw => ⟨hw, congrArg CanFrame.id hw.slot⟩) fun id => ?_
  refine .access (fun dlc w => FifoHoldsAt n frame index w ∧ id = frame.id ∧ dlc = frame.dlc)
    ?_ (fun w hw => hw.1.1.now)
    (fun w hw => ⟨hw.1, hw.2, congrArg CanFrame.dlc hw.1.slot⟩) fun dlc => ?_
  · intro w w' hw hstep
    exact ⟨FifoHoldsAt.stable hn frame index w w' hw.1 hstep, hw.2⟩
  · intro w ⟨hw, hid, hdlc⟩
    refine ((crash_data hn frame index (List.finRange 8) out.data).bind fun data => ?_) w hw
    refine .ret (fun v hv => hv.1.1.now) fun v hv => ⟨hv.1.1, ?_⟩
    have hdata : data = frame.data := funext fun i => by simpa using hv.2 i
    rw [hid, hdlc, hdata]

/-- The frame dropped is on its way. -/
theorem crash_fifoDropOldestEntry (hn : n < 2 ^ 16) (frame : CanFrame) :
    Prog.Crash (rxSemantics n) (FifoHolds n [frame]) (fifoDropOldestEntry n) (LosslessNow n)
      (fun _ w => Lossless n [frame] w) := by
  refine .access (FifoHoldsAt n frame) (FifoHolds.stable hn [frame]) (fun w hw => hw.now)
    (fun w hw => ⟨hw, rfl⟩) fun pop => ?_
  refine .access (fun _ w => Lossless n [frame] w) (FifoHoldsAt.stable hn frame pop)
    (fun w hw => hw.1.now) ?_ fun _ => .ret (fun w hw => hw.now_moving) fun w hw => hw
  rintro w ⟨hholds, rfl⟩
  have hnext := toNat_ofNat_nextIndex hn hholds.1.pop_lt
  obtain ⟨-, hheld⟩ := hholds.pop
  rw [← hnext] at hheld
  refine ⟨hholds.1.push_lt, hnext ▸ Ring.next_lt hholds.1.pop_lt, hholds.1.taken_eq, ?_⟩
  have hstored := hholds.1.stored_eq
  rw [hheld, List.append_nil, ← List.singleton_append, ← List.append_assoc] at hstored
  exact hstored

/-- A read returns the oldest frame, or finds that none was held when it began. -/
def ReadAnswer (n : Nat) (known : List CanFrame) (r : Bool × CanFrame) (w : RxWorld) : Prop :=
  if r.1 = true then Lossless n [r.2] w else Lossless n [] w ∧ known = []

theorem crash_canReceiveFromBuffer (hn : n < 2 ^ 16) (popFirst : Bool) (known : List CanFrame)
    (out : CanFrame) :
    Prog.Crash (rxSemantics n) (FifoHolds n known) (canReceiveFromBuffer n popFirst out)
      (LosslessNow n) (ReadAnswer n known) := by
  refine (crash_fifoIsEmpty hn popFirst known).bind fun empty => ?_
  cases empty with
  | true => exact .ret (fun w hw => hw.1.now) fun w hw => ⟨hw.1.1, hw.2.1 rfl⟩
  | false =>
      have hread : ∀ frame, Prog.Crash (rxSemantics n) (FifoHolds n [frame])
          (fifoGetOldestEntry out >>= fun out =>
            fifoDropOldestEntry n >>= fun _ => .ret (true, out))
          (LosslessNow n) (ReadAnswer n known) := by
        intro frame
        refine (crash_fifoGetOldestEntry hn frame out).bind fun out' => ?_
        rintro w ⟨hw, rfl⟩
        have hret : ∀ u : Unit, Prog.Crash (rxSemantics n) (Lossless n [out'])
            (.ret (true, out')) (LosslessNow n) (ReadAnswer n known) :=
          fun _ => .ret (fun v hv => hv.now_moving) fun v hv => hv
        exact (crash_fifoDropOldestEntry hn out').bind hret w hw
      refine (Prog.Crash.of_exists hread).weaken ?_ (fun _ h => h) fun _ _ h => h
      intro w hw
      obtain ⟨frame, rest, hrest⟩ := List.exists_cons_of_ne_nil (hw.2.2 rfl)
      exact ⟨frame, hw.1.1, hrest ▸ ⟨rest, rfl⟩⟩

theorem crash_canInterfaceReadMessage (hn : n < 2 ^ 16) (popFirst : Bool)
    (known : List CanFrame) (out : CanFrame) :
    Prog.Crash (rxSemantics n) (FifoHolds n known) (canInterfaceReadMessage n popFirst out)
      (LosslessNow n) (ReadAnswer n known) := by
  refine (crash_fifoIsEmpty hn popFirst known).bind fun empty => ?_
  cases empty with
  | true => exact .ret (fun w hw => hw.1.now) fun w hw => ⟨hw.1.1, hw.2.1 rfl⟩
  | false =>
      exact (crash_canReceiveFromBuffer hn popFirst known out).weaken (fun w hw => hw.1)
        (fun _ h => h) fun _ _ h => h

/-- By induction on the rounds: between two of them no frame is on its way. -/
theorem crash_readMessages (hn : n < 2 ^ 16) (popFirst : Bool) (rounds : Nat) :
    ∀ out, Prog.Crash (rxSemantics n) (Lossless n []) (readMessages n popFirst rounds out)
      (LosslessNow n) (fun _ => Lossless n []) := by
  induction rounds with
  | zero => exact fun out => .ret (fun w hw => hw.now) fun w hw => hw
  | succ rounds ih =>
      intro out
      have hstart : ∀ w, Lossless n [] w → FifoHolds n [] w := fun w hw => ⟨hw, List.nil_prefix⟩
      refine ((crash_canInterfaceReadMessage hn popFirst [] out).weaken hstart (fun _ h => h)
        fun _ _ h => h).bind fun r => ?_
      obtain ⟨ok, frame⟩ := r
      cases ok with
      | true =>
          refine .access (fun _ => Lossless n []) (Lossless.stable hn [frame])
            (fun w hw => hw.now_moving) ?_ fun _ => ih frame
          intro w hw
          refine ⟨hw.push_lt, hw.pop_lt, hw.taken_eq, ?_⟩
          rw [List.append_nil]
          exact hw.stored_eq
      | false => exact (ih frame).weaken (fun w hw => hw.1) (fun _ h => h) fun _ _ h => h

/-! ## A lossless queue -/

/-- The receive FIFO is a lossless queue under interrupts. -/
theorem canRxFifo_lossless (n : Nat) (hlow : 2 ≤ n) (hhigh : n ≤ 65535) (popFirst : Bool)
    (fifo : Fifo) (rounds : Nat) (out : CanFrame) :
    (∀ w, Prog.Visible (rxSemantics n) (readMessages n popFirst rounds out)
        (RxWorld.start fifo) w →
      w.taken = w.stored ∧ (w.fifo.held n).length ≤ n - 1 ∧
      ∃ moving : List CanFrame, moving.length ≤ 1 ∧
        w.stored = w.returned ++ moving ++ w.fifo.held n) ∧
    ∀ out' w, Prog.Runs (rxSemantics n) (readMessages n popFirst rounds out)
        (RxWorld.start fifo) out' w →
      w.stored = w.returned ++ w.fifo.held n ∧
      ∀ v out'' w', Relation.ReflTransGen (RxInterrupt n) w v →
        Prog.Runs (rxSemantics n) (canInterfaceReadMessage n popFirst out') v (false, out'') w' →
        v.fifo.held n = [] := by
  have hn : n < 2 ^ 16 := by omega
  obtain ⟨hvisible, hruns⟩ := crash_readMessages hn popFirst rounds out (RxWorld.start fifo)
    (lossless_start (by omega) fifo)
  refine ⟨?_, ?_⟩
  · intro w hw
    obtain ⟨moving, hmoving, hlossless⟩ := hvisible w hw
    have hlength := hlossless.held_length_lt
    exact ⟨hlossless.taken_eq, by omega, moving, hmoving, hlossless.stored_eq⟩
  · intro out' w hw
    have hlossless := hruns out' w hw
    refine ⟨?_, ?_⟩
    · have hstored := hlossless.stored_eq
      rwa [List.append_nil] at hstored
    · intro v out'' w' hv hread
      have hholds : FifoHolds n (v.fifo.held n) v :=
        ⟨(Lossless.stable hn []).reflTransGen hlossless hv, List.prefix_rfl⟩
      exact ((crash_canInterfaceReadMessage hn popFirst _ out' v hholds).2 _ _ hread).2

/-- A frame arrives before each access. -/
def busyAccess (op : FifoOp) (w : RxWorld) : Option (op.Resp × RxWorld) :=
  some (fifoAccess op (canReceiveToBuffer 500 (some ⟨0x80, 1, fun _ => 0⟩) w))

theorem busyAccess_done (op : FifoOp) (w : RxWorld) (r : op.Resp) (v : RxWorld)
    (h : busyAccess op w = some (r, v)) : (rxSemantics 500).done op w r v :=
  ⟨_, .single ⟨_, rfl⟩, Option.some.inj h⟩

/-- The FIFO of the Nucleo board, read once on a busy bus. -/
theorem canRxFifo_lossless_busy : ∃ out w,
    Prog.Runs (rxSemantics 500) (readMessages 500 true 1 ⟨0, 0, fun _ => 0⟩)
      (RxWorld.start ⟨fun _ => ⟨0, 0, fun _ => 0⟩, 0, 0⟩) out w ∧
    w.returned.length = 1 ∧ w.stored = w.returned ++ w.fifo.held 500 := by
  let o := Prog.run busyAccess (readMessages 500 true 1 ⟨0, 0, fun _ => 0⟩)
    (RxWorld.start ⟨fun _ => ⟨0, 0, fun _ => 0⟩, 0, 0⟩)
  have hvalue : o.value.isSome = true := by decide +kernel
  obtain ⟨out, hout⟩ := Option.isSome_iff_exists.mp hvalue
  have hruns := Prog.Returns.runs (S := rxSemantics 500) busyAccess_done ⟨hout, rfl⟩
  refine ⟨out, o.world, hruns, by decide +kernel, ?_⟩
  exact ((canRxFifo_lossless 500 (by decide) (by decide) true _ 1 _).2 out o.world hruns).1

end CanBootloader
