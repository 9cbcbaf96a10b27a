/-
  Which frames lead to the execution of a command.

  A start frame restarts the reader, but so do a timeout and the end of a datagram, and behind them
  the reader takes the bytes of any frame. As long as no frame without start bit brings the first
  byte of a datagram (`Reception.stray`), every datagram executed begins in a start frame of its
  own (`framed_of_no_stray`). The invariant along a run is `InProgress`: the bytes in reception are
  those of the rounds since a start frame, and nothing was executed in these.
-/
import CanBootloader.Firmware.ReaderBounds

namespace CanBootloader

open Lib

variable {fw : Firmware} {σ : Type}

/-! ## Start frames -/

/-- The round brings a start frame with bytes. -/
def Reception.beginsDatagram (x : Reception fw σ) : Bool :=
  (frameForUs x.state x.round).any fun f => f.isStart && f.data ≠ []

/-- The round brings bytes without start bit when there are none in reception. -/
def Reception.stray (x : Reception fw σ) : Bool :=
  (frameForUs x.state x.round).any fun f => !f.isStart && f.data ≠ [] && x.bytesBefore = []

/-- The datagrams executed in the round. -/
def Reception.commands (p : Platform σ) (x : Reception fw σ) : List (List UInt8) :=
  executed (roundStep p x.state x.round).1

variable (p : Platform σ)

/-- The bytes in reception in round `i` are those of the rounds since round `k`, which brought a
    start frame, and nothing was executed in between. -/
def BeginsAt (xs : List (Reception fw σ)) (k i : Nat) : Prop :=
  k ≤ i ∧ (∃ y, xs[k]? = some y ∧ y.beginsDatagram = true) ∧
    (∃ x, xs[i]? = some x ∧ x.bytes = ((xs.take (i + 1)).drop k).flatMap Reception.newBytes) ∧
    ∀ j y, k ≤ j → j < i → xs[j]? = some y → y.commands p = []

/-- Every datagram executed has begun in a start frame, and no two of them in the same one. -/
def Framed (xs : List (Reception fw σ)) : Prop :=
  ∃ start : Nat → Nat, ∀ i x, xs[i]? = some x → x.commands p ≠ [] →
    BeginsAt p xs (start i) i ∧
      ∀ j y, xs[j]? = some y → y.commands p ≠ [] → start j = start i → j = i

/-! ## One round -/

/-- The bytes in reception behind the rounds `pre`, if there are any, have begun in a start frame,
    and nothing was executed since. -/
def InProgress (pre : List (Reception fw σ)) (bytes : List UInt8) : Prop :=
  bytes = [] ∨ ∃ k, (∃ y, pre[k]? = some y ∧ y.beginsDatagram = true) ∧
    bytes = (pre.drop k).flatMap Reception.newBytes ∧
    ∀ j y, k ≤ j → pre[j]? = some y → y.commands p = []

/-- More rounds behind. -/
theorem BeginsAt.append {xs : List (Reception fw σ)} {k i : Nat} (h : BeginsAt p xs k i)
    (ys : List (Reception fw σ)) : BeginsAt p (xs ++ ys) k i := by
  obtain ⟨hle, ⟨y, hy, hbegins⟩, ⟨x, hx, hbytes⟩, hquiet⟩ := h
  have hk := (List.getElem?_eq_some_iff.mp hy).1
  have hi := (List.getElem?_eq_some_iff.mp hx).1
  refine ⟨hle, ⟨y, by rwa [List.getElem?_append_left hk], hbegins⟩, ⟨x, ?_, ?_⟩, ?_⟩
  · rwa [List.getElem?_append_left hi]
  · rwa [List.take_append_of_le_length hi]
  · intro j z hkj hji hz
    rw [List.getElem?_append_left (by omega)] at hz
    exact hquiet j z hkj hji hz

/-- A round that is not stray goes on with the datagram in reception, or begins one. -/
theorem beginsAt_round {pre : List (Reception fw σ)} {x : Reception fw σ}
    (h : InProgress p pre (frameBytes x.frames)) (hstray : x.stray = false) :
    x.bytes = [] ∨ ∃ k, BeginsAt p (pre ++ [x]) k pre.length := by
  have hlast : (pre ++ [x])[pre.length]? = some x := by simp
  have htake : (pre ++ [x]).take (pre.length + 1) = pre ++ [x] := by
    rw [List.take_of_length_le]
    simp
  by_cases hbefore : x.bytesBefore = []
  · -- the bytes are those of the round's own frame
    have hbytes : x.bytes = x.newBytes := by rw [x.bytes_eq, hbefore, List.nil_append]
    by_cases hnil : x.newBytes = []
    · exact .inl (hbytes.trans hnil)
    · right
      obtain ⟨f, hf⟩ : ∃ f, frameForUs x.state x.round = some f := by
        apply Option.ne_none_iff_exists'.mp
        intro hnone
        exact hnil (by simp [Reception.newBytes, hnone, frameBytes])
      have hdata : f.data ≠ [] := by simpa [Reception.newBytes, hf, frameBytes] using hnil
      have hstart : f.isStart = true := by
        simpa [Reception.stray, hf, hdata, hbefore] using hstray
      refine ⟨pre.length, le_rfl, ⟨x, hlast, ?_⟩, ⟨x, hlast, ?_⟩, by omega⟩
      · simp [Reception.beginsDatagram, hf, hstart, hdata]
      · rw [htake, List.drop_left, hbytes]
        simp
  · -- the datagram in reception goes on
    right
    have hframes : frameBytes x.frames = x.bytesBefore := by
      unfold Reception.bytesBefore framesBefore at hbefore ⊢
      split_ifs at hbefore ⊢
      · exact absurd rfl hbefore
      · rfl
    rcases h with h | ⟨k, ⟨y, hy, hbegins⟩, hbytes, hquiet⟩
    · exact absurd (hframes.symm.trans h) hbefore
    · have hk := (List.getElem?_eq_some_iff.mp hy).1
      refine ⟨k, hk.le, ⟨y, by rwa [List.getElem?_append_left hk], hbegins⟩, ⟨x, hlast, ?_⟩, ?_⟩
      · rw [htake, List.drop_append_of_le_length hk.le, List.flatMap_append, ← hbytes, hframes,
          x.bytes_eq]
        simp
      · intro j z hkj hj hz
        rw [List.getElem?_append_left hj] at hz
        exact hquiet j z hkj hz

/-- What is kept behind a round is in progress. -/
theorem inProgress_round {pre : List (Reception fw σ)} {x : Reception fw σ}
    (hround : x.bytes = [] ∨ ∃ k, BeginsAt p (pre ++ [x]) k pre.length)
    (htime : bootloaderTimedOut x.state x.round = false) :
    InProgress p (pre ++ [x]) (frameBytes (framesKept x.state x.frames x.round)) := by
  unfold framesKept
  split_ifs with hend
  · exact .inl rfl
  · have hnone : x.commands p = [] := by
      rw [Reception.commands, executed_roundStep p htime]
      simp [executesDatagram, hend]
    rcases hround with hnil | ⟨k, hle, hbegins, ⟨x', hx', hbytes⟩, hquiet⟩
    · exact .inl hnil
    · right
      obtain rfl : x = x' := by simpa using hx'
      refine ⟨k, hbegins, ?_, ?_⟩
      · rw [List.take_of_length_le (by simp)] at hbytes
        exact hbytes
      · intro j y hkj hy
        rcases Nat.lt_or_ge j pre.length with hj | hj
        · exact hquiet j y hkj hj hy
        · have hlen := (List.getElem?_eq_some_iff.mp hy).1
          rw [List.length_append, List.length_singleton] at hlen
          obtain rfl : j = pre.length := by omega
          obtain rfl : x = y := by simpa using hy
          exact hnone

/-- An executed datagram has bytes. -/
theorem bytes_ne_nil {x : Reception fw σ} (hfed : Fed x.state (frameBytes x.frames))
    (htime : bootloaderTimedOut x.state x.round = false) (h : x.commands p ≠ []) : x.bytes ≠ [] := by
  have hexec : executesDatagram x.state x.round = true := by
    by_contra hnot
    rw [Reception.commands, executed_roundStep p htime, if_neg hnot] at h
    exact h rfl
  simp only [executesDatagram, canDatagramIsValid, Bool.and_eq_true] at hexec
  intro hnil
  have hcomplete := (complete_length (fed_fedState hfed x.round).position hexec.1.2.1.1).1
  have hbytes : frameBytes (framesFed x.state x.frames x.round) = [] := hnil
  rw [hbytes] at hcomplete
  simp at hcomplete

/-! ## Runs -/

/-- If no frame without start bit brings the first byte of a datagram, every command executed was
    in a datagram that began in a start frame, and no two of them in the same one. -/
theorem framed_of_no_stray (fw : Firmware) (p : Platform σ) (arg : UInt8) (l : Locals)
    (addrBuf dataBuf outputBuf : Store) (clock : Nat) (w : σ) (rounds : List Round)
    (hstray : ∀ x ∈ bootReceptions p fw arg l addrBuf dataBuf outputBuf clock w rounds,
      x.stray = false) :
    Framed p (bootReceptions p fw arg l addrBuf dataBuf outputBuf clock w rounds) := by
  -- the invariant, as long as no frame was stray
  let I (pre : List (Reception fw σ)) (s : LoopState fw σ) (fs : List RxFrame) : Prop :=
    Fed s (frameBytes fs) ∧ ((∀ x ∈ pre, x.stray = false) → InProgress p pre (frameBytes fs))
  have hstep : ∀ pre s fs r t, I pre s fs → (roundStep p s r).2 = some t →
      I (pre ++ [⟨s, fs, r⟩]) t (framesKept s fs r) := by
    intro pre s fs r t hI hnext
    refine ⟨fed_roundStep p hI.1 hnext, fun hall => ?_⟩
    simp only [List.mem_append, List.mem_singleton, or_imp, forall_and, forall_eq] at hall
    exact inProgress_round p (beginsAt_round p (x := ⟨s, fs, r⟩) (hI.2 hall.1) hall.2)
      (bootloaderTimedOut_of_next p hnext)
  generalize hxs : bootReceptions p fw arg l addrBuf dataBuf outputBuf clock w rounds = xs at hstray ⊢
  have hbegins : ∀ i x, xs[i]? = some x → x.commands p ≠ [] → ∃ k, BeginsAt p xs k i := by
    intro i x hx hexec
    have hi := (List.getElem?_eq_some_iff.mp hx).1
    have hsplit := split_of_getElem? hx
    obtain ⟨htime, hfed, hprogress⟩ := receptions_induction p hstep rounds []
      ⟨.start _ rfl, fun _ => .inl rfl⟩ _ x _ (hxs.trans hsplit)
    rw [List.nil_append] at hprogress
    have hround := beginsAt_round p (hprogress fun y hy => hstray y (List.mem_of_mem_take hy))
      (hstray x (List.mem_of_getElem? hx))
    rcases hround with hnil | ⟨k, hk⟩
    · exact absurd hnil (bytes_ne_nil p hfed htime hexec)
    · have hmore := hk.append p (xs.drop (i + 1))
      rw [List.append_assoc, List.singleton_append, ← hsplit, List.length_take,
        Nat.min_eq_left hi.le] at hmore
      exact ⟨k, hmore⟩
  -- where the datagram executed in round `i` has begun
  have hchoice : ∀ i, ∃ k, ∀ x, xs[i]? = some x → x.commands p ≠ [] → BeginsAt p xs k i := by
    intro i
    by_cases hi : ∃ k, BeginsAt p xs k i
    · obtain ⟨k, hk⟩ := hi
      exact ⟨k, fun _ _ _ => hk⟩
    · exact ⟨0, fun x hx hexec => absurd (hbegins i x hx hexec) hi⟩
  choose start hstart using hchoice
  refine ⟨start, fun i x hx hexec => ⟨hstart i x hx hexec, fun j y hy hexec' hsame => ?_⟩⟩
  obtain ⟨hstarti, -, -, hquieti⟩ := hstart i x hx hexec
  obtain ⟨hstartj, -, -, hquietj⟩ := hstart j y hy hexec'
  rcases lt_trichotomy j i with hlt | heq | hgt
  · exact absurd (hquieti j y (by omega) hlt hy) hexec'
  · exact heq
  · exact absurd (hquietj i x (by omega) hgt hx) hexec

/-- The frames of a ping for node 1, the first one with identifier `id`. -/
def pingRounds (id : UInt32) : List Round :=
  [blankRound (some (pingStartFrame id)), blankRound (some pingFrame)]

theorem framed_of_no_stray_ping :
    Framed blankPlatform (bootReceptions blankPlatform nucleoFirmware 0 blankLocals (fun _ => 0)
      (fun _ => 0) (fun _ => 0) 0 () (pingRounds 0x80)) := by
  refine framed_of_no_stray nucleoFirmware blankPlatform 0 blankLocals (fun _ => 0) (fun _ => 0)
    (fun _ => 0) 0 () (pingRounds 0x80) ?_
  rw [bootReceptions, boot_blank]
  decide +kernel

/-- The same frames without any start bit are executed as well. -/
theorem executed_without_start :
    ¬ Framed blankPlatform (bootReceptions blankPlatform nucleoFirmware 0 blankLocals (fun _ => 0)
      (fun _ => 0) (fun _ => 0) 0 () (pingRounds 0)) := by
  rw [bootReceptions, boot_blank]
  have hnone : ∀ x ∈ receptions blankPlatform blankState [] (pingRounds 0),
      x.beginsDatagram = false := by decide +kernel
  have hsecond : ((receptions blankPlatform blankState [] (pingRounds 0))[1]?).map
      (Reception.commands blankPlatform) = some [[3, 5]] := by decide +kernel
  intro h
  obtain ⟨start, h⟩ := h
  obtain ⟨x, hx, hcommands⟩ := Option.map_eq_some_iff.mp hsecond
  obtain ⟨⟨-, ⟨y, hy, hbegins⟩, -⟩, -⟩ := h 1 x hx (by simp [hcommands])
  rw [hnone y (List.mem_of_getElem? hy)] at hbegins
  cases hbegins

end CanBootloader
