/-
  The ID of the node, along a run of the main loop.

  Of all commands only the configuration update changes it, to the last number that
  `cmp_read_uchar` delivers for the key "ID", whatever that number is. With an ID in range every
  datagram is sent with the start bit on its first frame and on no other. So both hold along a
  run if and only if no update delivers a number out of range at the end (`ids_in_range_iff`).
-/
import CanBootloader.Firmware.BootSafety
import CanBootloader.Firmware.Reception
import CanBootloader.Firmware.Transmit

namespace CanBootloader

open Lib

variable {fw : Firmware} {σ : Type}

def ValidNodeId (id : UInt8) : Prop := 1 ≤ id ∧ id ≤ 127

instance (id : UInt8) : Decidable (ValidNodeId id) := inferInstanceAs (Decidable (_ ∧ _))

theorem ValidNodeId.toNat_le {id : UInt8} (h : ValidNodeId id) : id.toNat ≤ 127 :=
  UInt8.le_iff_toNat_le.mp h.2

/-! ## The start bit -/

def Transmission.isStart (t : Transmission) : Bool := t.id &&& idStartMask ≠ 0

/-- The start bit is set exactly on the first frame. -/
def StartsOnce (txs : List Transmission) : Prop :=
  ∀ k t, txs[k]? = some t → (t.isStart = true ↔ k = 0)

theorem StartsOnce.nil : StartsOnce [] := by
  intro k t h
  simp at h

/-- IDs up to 127 leave the start bit free. -/
theorem startBit_free : ∀ n < 128, (UInt8.ofNat n).toUInt32 &&& idStartMask = 0 ∧
    ((UInt8.ofNat n).toUInt32 ||| idStartMask) &&& idStartMask ≠ 0 := by
  decide

theorem isStart_returned {id : UInt8} (h : id.toNat ≤ 127) (start : Bool) (data : List UInt8)
    (ok : Bool) :
    Transmission.isStart ⟨if start then id.toUInt32 ||| idStartMask else id.toUInt32, data, ok⟩ =
      start := by
  obtain ⟨hfree, hset⟩ := startBit_free id.toNat (by omega)
  rw [UInt8.ofNat_toNat] at hfree hset
  cases start with
  | false => simp [Transmission.isStart, hfree]
  | true => simp [Transmission.isStart, hset]

/-- The loop sets the start bit on the frame it begins with, or on none. -/
theorem returnLoop_isStart {id : UInt8} (h : id.toNat ≤ 127) (send : Nat → Bool) (count : Nat) :
    ∀ (k : Nat) (start : Bool) (dt : CanDatagram) (j : Nat) (t : Transmission),
      (returnLoop id send count k start dt)[j]? = some t →
        (t.isStart = true ↔ start = true ∧ j = 0) := by
  induction count with
  | zero =>
      intro k start dt j t ht
      simp [returnLoop] at ht
  | succ count ih =>
      intro k start dt j t ht
      rw [returnLoop] at ht
      by_cases hbuf : (canDatagramOutputBytes dt 8).1 = []
      · simp [hbuf] at ht
      · simp only [if_neg hbuf] at ht
        cases j with
        | zero =>
            obtain rfl := Option.some.inj ht
            rw [isStart_returned h]
            simp
        | succ j =>
            by_cases hsend : send k = true
            · simp only [if_pos hsend] at ht
              simpa using ih (k + 1) false _ j t ht
            · simp [hsend] at ht

theorem startsOnce_returnDatagram {id : UInt8} (h : id.toNat ≤ 127) (destId : UInt8)
    (data : Store) (len : Nat) (send : Nat → Bool) :
    StartsOnce (returnDatagram fw id destId data len send) := by
  intro k t ht
  simpa using returnLoop_isStart h send 100 0 true _ k t ht

/-- Error replies take the start bit off the ID. -/
theorem startsOnce_returnErrorDatagram (id : UInt8) (outputBuf : Store) (code : UInt8)
    (send : Nat → Bool) : StartsOnce (returnErrorDatagram fw id outputBuf code send).1 := by
  refine startsOnce_returnDatagram ?_ 0 _ _ send
  rw [UInt8.toNat_and]
  exact Nat.and_le_right

/-! ## The numbers of an update -/

variable (fw) in
/-- The numbers that `cmp_read_uchar` delivers for the key "ID", in the order of the loop. -/
def idsRead : Nat → Store → BootloaderConfig → CmpReader → List UInt8
  | 0, _, _, _ => []
  | keyCount + 1, key, config, context =>
      let s := fw.cmp.readStr context key 64
      let key := s.data.write s.size.toNat 0
      let r := fw.cmp.readUchar s.reader config.ID
      let (config, context) := configUpdateKey fw key config s.reader
      (if strcmpEq key configKeyId && r.ok then [r.value] else []) ++
        idsRead keyCount key config context

variable (fw) in
/-- Those of the map in front of a reader. -/
def updateIds (l : Locals) (config : BootloaderConfig) (context : CmpReader) : List UInt8 :=
  let r := fw.cmp.readMap context 0
  idsRead fw r.value.toNat l.key config r.reader

variable (fw) in
/-- Those of a datagram, if it is a configuration update. -/
def datagramIds (data : Store) (dataLen : Nat) (config : BootloaderConfig) (l : Locals) :
    List UInt8 :=
  let commandVersion := fw.cmp.readInt (.init data dataLen) l.commandVersion
  let commandIndex := fw.cmp.readInt commandVersion.reader 0
  if commandVersion.value = commandSetVersion && commandIndex.ok &&
      UInt8.ofInt commandIndex.value = 7 then
    updateIds fw l config (fw.cmp.readArray commandIndex.reader 0).reader
  else []

/-- A read of a byte that fails leaves the value alone. -/
def ReadUcharKeeps (cmp : Cmp) : Prop :=
  ∀ r old, (cmp.readUchar r old).ok = false → (cmp.readUchar r old).value = old

theorem configUpdateKey_ID (key : Store) (config : BootloaderConfig) (context : CmpReader) :
    (configUpdateKey fw key config context).1.ID =
      if strcmpEq key configKeyId then (fw.cmp.readUchar context config.ID).value
      else config.ID := by
  unfold configUpdateKey
  split_ifs <;> rfl

theorem getLastD_append {α : Type} (xs ys : List α) (d : α) :
    (xs ++ ys).getLastD d = ys.getLastD (xs.getLastD d) := by
  induction xs generalizing d with
  | nil => rfl
  | cons x xs ih => rw [List.cons_append, List.getLastD_cons, List.getLastD_cons, ih]

/-- Behind the loop the ID is the last number delivered, or the old ID. -/
theorem configUpdateLoop_ID (hkeep : ReadUcharKeeps fw.cmp) (keyCount : Nat) :
    ∀ (key : Store) (config : BootloaderConfig) (context : CmpReader),
      (configUpdateLoop fw keyCount key config context).ID =
        (idsRead fw keyCount key config context).getLastD config.ID := by
  induction keyCount with
  | zero =>
      intro key config context
      rfl
  | succ keyCount ih =>
      intro key config context
      have hround : ∀ key (r : CmpReader), (configUpdateKey fw key config r).1.ID =
          (if strcmpEq key configKeyId && (fw.cmp.readUchar r config.ID).ok then
            [(fw.cmp.readUchar r config.ID).value] else []).getLastD config.ID := by
        intro key r
        rw [configUpdateKey_ID]
        cases strcmpEq key configKeyId with
        | false => rfl
        | true =>
            cases hok : (fw.cmp.readUchar r config.ID).ok with
            | true => rfl
            | false => exact hkeep r config.ID hok
      rw [configUpdateLoop, idsRead, getLastD_append, ← hround]
      exact ih _ _ _

theorem configUpdateFromSerialized_ID (hkeep : ReadUcharKeeps fw.cmp) (l : Locals)
    (config : BootloaderConfig) (context : CmpReader) :
    (configUpdateFromSerialized fw l config context).ID =
      (updateIds fw l config context).getLastD config.ID :=
  configUpdateLoop_ID hkeep _ _ _ _

/-! ## Commands -/

/-- The handler leaves the ID alone. -/
def KeepsId (callback : Callback) : Prop :=
  ∀ i, (callback i).AllValues fun r => r.config.ID = i.config.ID

theorem keepsId_erase : KeepsId (commandEraseFlashPage fw) := by
  intro i
  obtain ⟨-, code, heq⟩ | ⟨-, heq⟩ := commandEraseFlashPage_cases fw i
  · rw [heq]
    rfl
  · rw [heq]
    exact .bind (.true _) fun _ _ => rfl

theorem keepsId_write : KeepsId (commandWriteFlash fw) := by
  intro i
  obtain ⟨-, code, -, heq⟩ | ⟨-, heq⟩ := commandWriteFlash_cases fw i
  · rw [heq]
    rfl
  · rw [heq]
    refine .bind (.true _) fun m _ => ?_
    split_ifs
    · rfl
    · exact .bind (.true _) fun _ _ => .bind (.true _) fun _ _ => .bind (.true _) fun _ _ => rfl

theorem keepsId_crcRegion : KeepsId (commandCrcRegion fw) := by
  intro i
  unfold commandCrcRegion
  simp only
  split_ifs
  · rfl
  · rfl
  · rfl
  · exact fun _ => rfl

theorem keepsId_jump : KeepsId (commandJumpToApplication fw) := by
  intro i
  unfold commandJumpToApplication jumpToApplication
  split_ifs
  · refine .bind (.true _) fun m _ => ?_
    split_ifs
    · exact fun r => r.elim
    · exact fun r => r.elim
  · exact fun r => r.elim

/-- The configuration update is the only command that does not. -/
theorem callback_keepsId {cmd : Command} (h : cmd ∈ commands fw) :
    cmd = ⟨7, commandConfigUpdate fw⟩ ∨ cmd.index ≠ 7 ∧ KeepsId cmd.callback := by
  simp only [commands, List.mem_cons, List.not_mem_nil, or_false] at h
  rcases h with rfl | rfl | rfl | rfl | rfl | rfl | rfl | rfl | rfl | rfl
  · exact .inr ⟨by simp, keepsId_jump⟩
  · exact .inr ⟨by simp, keepsId_crcRegion⟩
  · exact .inr ⟨by simp, keepsId_erase⟩
  · exact .inr ⟨by simp, keepsId_write⟩
  · exact .inr ⟨by simp, fun _ => rfl⟩
  · exact .inr ⟨by simp, fun _ _ => rfl⟩
  · exact .inl rfl
  · exact .inr ⟨by simp, fun _ => .bind (.true _) fun _ _ => rfl⟩
  · exact .inr ⟨by simp, fun _ => rfl⟩
  · exact .inr ⟨by simp, fun _ => rfl⟩

/-- A datagram returns with the last of its numbers as ID, or leaves the ID alone. -/
theorem executeDatagramCommands_ID (hkeep : ReadUcharKeeps fw.cmp) (data : Store) (dataLen : Nat)
    (outBuf : Store) (outLen : Nat) (config : BootloaderConfig) (status : UInt8) (l : Locals) :
    (∃ e, executeDatagramCommands fw data dataLen outBuf outLen config status l = Prog.ret e ∧
      e.config.ID = (datagramIds fw data dataLen config l).getLastD config.ID) ∨
    datagramIds fw data dataLen config l = [] ∧
      (executeDatagramCommands fw data dataLen outBuf outLen config status l).AllValues
        fun e => e.config.ID = config.ID := by
  unfold executeDatagramCommands datagramIds
  simp only
  generalize fw.cmp.readInt (.init data dataLen) l.commandVersion = version
  generalize fw.cmp.readInt version.reader 0 = index
  by_cases hversion : version.value = commandSetVersion
  · cases hok : index.ok with
    | false => exact .inr ⟨by simp, by simp [hversion]⟩
    | true =>
        simp only [hversion, ne_eq, not_true_eq_false, if_false, decide_true, Bool.and_true,
          Bool.true_and, decide_eq_true_eq, Bool.not_true, Bool.false_eq_true]
        split
        · next cmd hcmd =>
            have hindex : cmd.index = UInt8.ofInt index.value := by
              simpa using List.find?_some hcmd
            rw [← hindex]
            rcases callback_keepsId (List.mem_of_find?_eq_some hcmd) with rfl | ⟨hne, hkeeps⟩
            · exact .inl ⟨_, rfl, configUpdateFromSerialized_ID hkeep _ _ _⟩
            · exact .inr ⟨if_neg hne, .bind (hkeeps _) fun r hr => hr⟩
        · next hnone =>
            have hne : UInt8.ofInt index.value ≠ 7 := by
              intro h7
              rw [h7] at hnone
              simp [getCommandByIndex, commands] at hnone
            exact .inr ⟨if_neg hne, rfl⟩
  · exact .inr ⟨by simp [hversion], by simp [hversion]⟩

/-! ## Rounds -/

/-- The numbers that the datagram executed in the round delivers for the ID. -/
def Reception.ids (x : Reception fw σ) : List UInt8 :=
  let s := fedState x.state x.round
  if executesDatagram x.state x.round then
    datagramIds fw s.inbox.dt.data s.inbox.dt.dataLen.toNat s.config x.round.locals
  else []

theorem fedState_config (s : LoopState fw σ) (r : Round) : (fedState s r).config = s.config := by
  unfold fedState
  simp only [frameForUs_checkDatagramTimeout]
  cases frameForUs s r with
  | none => exact checkDatagramTimeout_config s r
  | some f => exact (appendFrame_config _ f _).trans (checkDatagramTimeout_config s r)

theorem sendReply_config (s : LoopState fw σ) (id : UInt32) (e : Execution) (send : Nat → Bool) :
    (sendReply s id e send).2.config = e.config := by
  unfold sendReply
  simp only
  split_ifs
  · rfl
  · rfl

/-- A reply starts once, if its sender has an ID in range. -/
theorem startsOnce_sendReply (s : LoopState fw σ) (id : UInt32) {e : Execution}
    (h : e.config.ID.toNat ≤ 127) (send : Nat → Bool) :
    StartsOnce (transmitted (sendReply s id e send).1) := by
  unfold sendReply
  simp only
  split_ifs
  · rw [transmitted_sent]
    exact startsOnce_returnDatagram h _ _ _ send
  · rw [transmitted_sent]
    exact startsOnce_returnErrorDatagram _ _ _ send

theorem startsOnce_checkDatagramTimeout (s : LoopState fw σ) (r : Round) :
    StartsOnce (transmitted (checkDatagramTimeout s r).1) := by
  unfold checkDatagramTimeout
  split_ifs
  · have htx : ∀ txs : List Transmission,
        transmitted (.datagramTimeout :: txs.map Event.sent : List (Event σ)) = txs :=
      transmitted_sent
    rw [htx]
    exact startsOnce_returnErrorDatagram _ _ _ _
  · exact .nil

variable (p : Platform σ)

/-- What the execution of a datagram makes of the ID. -/
theorem execution_ID (hkeep : ReadUcharKeeps fw.cmp) {x : Reception fw σ}
    (h : executesDatagram x.state x.round = true) :
    (x.ids = [] ∨ (execution p (fedState x.state x.round) x.round).value ≠ none) ∧
      ∀ e, (execution p (fedState x.state x.round) x.round).value = some e →
        e.config.ID = x.ids.getLastD x.state.config.ID := by
  unfold Reception.ids
  rw [if_pos h, ← fedState_config x.state x.round]
  generalize fedState x.state x.round = s
  unfold execution
  rcases executeDatagramCommands_ID hkeep s.inbox.dt.data s.inbox.dt.dataLen.toNat s.outputBuf
    fw.outputBufferSize s.config success x.round.locals with ⟨e, hret, hid⟩ | ⟨hids, hvalues⟩
  · rw [hret]
    refine ⟨.inr (by simp), fun e' he => ?_⟩
    obtain rfl : e = e' := Option.some.inj he
    exact hid
  · refine ⟨.inl hids, fun e he => ?_⟩
    rw [hids]
    exact hvalues.run p.handler he

/-- The reception of a frame: the ID behind it, and the start bits of what is sent. -/
theorem receive_ID (hkeep : ReadUcharKeeps fw.cmp) (x : Reception fw σ) :
    let round := receive p (checkDatagramTimeout x.state x.round).2 x.round
    (x.ids = [] ∨ round.2 ≠ none) ∧
      (∀ t, round.2 = some t → t.config.ID = x.ids.getLastD x.state.config.ID) ∧
      ((∀ t, round.2 = some t → ValidNodeId t.config.ID) → StartsOnce (transmitted round.1)) := by
  simp only
  rw [receive_eq]
  have hconfig := fedState_config x.state x.round
  by_cases hend : endsDatagram x.state x.round = true
  · rw [if_pos hend]
    cases hvalid : canDatagramIsValid fw.crc32 (fedState x.state x.round).inbox.dt with
    | false =>
        have hids : x.ids = [] := by simp [Reception.ids, executesDatagram, hvalid]
        rw [handleDatagram_corrupt p hvalid, hids, transmitted_sent]
        refine ⟨.inl rfl, ?_, fun _ => startsOnce_returnErrorDatagram _ _ _ _⟩
        rintro t ⟨⟩
        exact congrArg BootloaderConfig.ID hconfig
    | true =>
        cases haddr : (fedState x.state x.round).inbox.addressed
            (fedState x.state x.round).config.ID with
        | false =>
            have hids : x.ids = [] := by simp [Reception.ids, executesDatagram, haddr]
            rw [handleDatagram_other p hvalid haddr, hids]
            refine ⟨.inl rfl, ?_, fun _ => .nil⟩
            rintro t ⟨⟩
            exact congrArg BootloaderConfig.ID hconfig
        | true =>
            have hexec : executesDatagram x.state x.round = true := by
              simp [executesDatagram, hend, hvalid, haddr]
            obtain ⟨hsome, hid⟩ := execution_ID p hkeep hexec
            rw [handleDatagram_addressed p hvalid haddr]
            cases hvalue : (execution p (fedState x.state x.round) x.round).value with
            | none =>
                rw [hvalue] at hsome
                refine ⟨.inl (hsome.resolve_right (by simp)), by simp, fun _ => ?_⟩
                simpa using StartsOnce.nil
            | some e =>
                simp only
                refine ⟨.inr (by simp), ?_, fun hnext => ?_⟩
                · rintro t ⟨⟩
                  rw [← hid e hvalue]
                  exact congrArg BootloaderConfig.ID (sendReply_config _ _ e _)
                · have hrange := hnext _ rfl
                  rw [LoopState.restart, sendReply_config] at hrange
                  simpa using startsOnce_sendReply _ _ hrange.toNat_le _
  · have hids : x.ids = [] := by simp [Reception.ids, executesDatagram, hend]
    rw [if_neg hend, hids]
    refine ⟨.inl rfl, ?_, fun _ => .nil⟩
    rintro t ⟨⟩
    exact congrArg BootloaderConfig.ID hconfig

/-! ## Runs -/

/-- In the round the node has an ID in range before and behind it, and every datagram it sends
    has the start bit on its first frame and on no other. -/
def Reception.InRange (x : Reception fw σ) : Prop :=
  ValidNodeId x.state.config.ID ∧
    (∀ t, (roundStep p x.state x.round).2 = some t → ValidNodeId t.config.ID) ∧
    StartsOnce (transmitted (checkDatagramTimeout x.state x.round).1) ∧
    StartsOnce (transmitted (receive p (checkDatagramTimeout x.state x.round).2 x.round).1)

/-- The last number that the round delivers for the ID, if any, is in range. -/
def Reception.GoodIds (x : Reception fw σ) : Prop := ∀ id ∈ x.ids.getLast?, ValidNodeId id

/-- One round, with an ID in range before it. -/
theorem inRange_iff (hkeep : ReadUcharKeeps fw.cmp) {x : Reception fw σ}
    (htime : bootloaderTimedOut x.state x.round = false) (h : ValidNodeId x.state.config.ID) :
    x.InRange p ↔ x.GoodIds := by
  obtain ⟨hsome, hid, hstarts⟩ := receive_ID p hkeep x
  have hnext : (roundStep p x.state x.round).2 =
      (receive p (checkDatagramTimeout x.state x.round).2 x.round).2 := by rw [roundStep_eq p htime]
  unfold Reception.InRange Reception.GoodIds
  rw [hnext]
  constructor
  · rintro ⟨-, hall, -, -⟩ id hlast
    have hne : x.ids ≠ [] := by
      intro hnil
      simp [hnil] at hlast
    obtain ⟨t, ht⟩ := Option.ne_none_iff_exists'.mp (hsome.resolve_left hne)
    have hrange := hall t ht
    rwa [hid t ht, List.getLastD_eq_getLast?, hlast] at hrange
  · intro hgood
    have hall : ∀ t, (receive p (checkDatagramTimeout x.state x.round).2 x.round).2 = some t →
        ValidNodeId t.config.ID := by
      intro t ht
      rw [hid t ht, List.getLastD_eq_getLast?]
      cases hlast : x.ids.getLast? with
      | none => exact h
      | some id => exact hgood id hlast
    exact ⟨h, hall, startsOnce_checkDatagramTimeout _ _, hstarts hall⟩

/-- From a boot with an ID in range, the ID stays in range and every datagram is sent with the
    start bit exactly on its first frame, if and only if no configuration update delivers an ID out
    of range. -/
theorem ids_in_range_iff (fw : Firmware) (hkeep : ReadUcharKeeps fw.cmp) (p : Platform σ)
    (arg : UInt8) (l : Locals) (addrBuf dataBuf outputBuf : Store) (clock : Nat) (w : σ)
    (hboot : ValidNodeId (bootConfig fw (p.mem w) l).ID) (rounds : List Round) :
    (∀ x ∈ bootReceptions p fw arg l addrBuf dataBuf outputBuf clock w rounds, x.InRange p) ↔
      ∀ x ∈ bootReceptions p fw arg l addrBuf dataBuf outputBuf clock w rounds, x.GoodIds := by
  have hstep : ∀ (pre : List (Reception fw σ)) s fs r t,
      ((∀ y ∈ pre, y.GoodIds) → ValidNodeId s.config.ID) →
      (roundStep p s r).2 = some t →
      (∀ y ∈ pre ++ [⟨s, fs, r⟩], y.GoodIds) → ValidNodeId t.config.ID := by
    intro pre s fs r t hI hnext hgood
    simp only [List.mem_append, List.mem_singleton, or_imp, forall_and, forall_eq] at hgood
    exact ((inRange_iff p hkeep (x := ⟨s, fs, r⟩) (bootloaderTimedOut_of_next p hnext)
      (hI hgood.1)).mpr hgood.2).2.1 t hnext
  constructor
  · intro hall x hx
    have hrange := hall x hx
    obtain ⟨xs, ys, hsplit⟩ := List.append_of_mem hx
    exact (inRange_iff p hkeep (receptions_running p hsplit) hrange.1).mp hrange
  · intro hgood x hx
    obtain ⟨xs, ys, hsplit⟩ := List.append_of_mem hx
    obtain ⟨htime, hvalid⟩ := receptions_induction p hstep rounds [] (fun _ => hboot) xs x ys hsplit
    refine (inRange_iff p hkeep htime (hvalid fun y hy => hgood y ?_)).mpr (hgood x hx)
    rw [hsplit]
    exact List.mem_append_left _ hy

/-- A configuration update of node 1 with ID 5. -/
def updateId5Rounds : List Round :=
  [blankRound (some ⟨0x80, [1, 71, 56, 159, 202, 1, 1, 0], by decide⟩),
   blankRound (some ⟨0, [0, 0, 8, 3, 7, 145, 129, 162], by decide⟩),
   blankRound (some ⟨0, [73, 68, 5], by decide⟩)]

/-- The same with ID 200. -/
def updateId200Rounds : List Round :=
  [blankRound (some ⟨0x80, [1, 201, 177, 177, 7, 1, 1, 0], by decide⟩),
   blankRound (some ⟨0, [0, 0, 9, 3, 7, 145, 129, 162], by decide⟩),
   blankRound (some ⟨0, [73, 68, 204, 200], by decide⟩)]

theorem reference_readUchar : ReadUcharKeeps Cmp.reference := by
  intro r old h
  simp only [Cmp.reference, Cmp.readWith] at h ⊢
  split at h
  · cases h
  · rfl

theorem ids_in_range_iff_update :
    ∃ x ∈ bootReceptions blankPlatform nucleoFirmware 0 blankLocals (fun _ => 0) (fun _ => 0)
      (fun _ => 0) 0 () updateId5Rounds, x.ids = [5] ∧ x.InRange blankPlatform := by
  have hids : (∀ x ∈ receptions blankPlatform blankState [] updateId5Rounds,
      x.ids = [] ∨ x.ids = [5]) ∧
      ∃ x ∈ receptions blankPlatform blankState [] updateId5Rounds, x.ids = [5] := by
    decide +kernel
  rw [← boot_blank] at hids
  have hrange := (ids_in_range_iff nucleoFirmware reference_readUchar blankPlatform 0 blankLocals
    (fun _ => 0) (fun _ => 0) (fun _ => 0) 0 () (by rw [bootConfig_blank]; decide)
    updateId5Rounds).mpr ?_
  · obtain ⟨x, hx, hid⟩ := hids.2
    exact ⟨x, hx, hid, hrange x hx⟩
  · intro x hx id hid
    rcases hids.1 x hx with h | h
    · simp [h] at hid
    · rw [h] at hid
      obtain rfl := Option.some.inj hid
      decide

/-- Behind an update with ID 200 the ID is 200. -/
theorem ids_out_of_range :
    ¬ ∀ x ∈ bootReceptions blankPlatform nucleoFirmware 0 blankLocals (fun _ => 0) (fun _ => 0)
      (fun _ => 0) 0 () updateId200Rounds, x.InRange blankPlatform := by
  rw [bootReceptions, boot_blank]
  intro hall
  obtain ⟨xs, x, ys, hsplit, hx⟩ := exists_reception blankPlatform blankState updateId200Rounds 2
    (fun _ x => (roundStep blankPlatform x.state x.round).2.any fun t => t.config.ID = 200)
    (by decide +kernel)
  obtain ⟨t, ht, hid⟩ := (Option.any_eq_true _ _).mp hx
  have hrange := (hall x (by simp [hsplit])).2.1 t ht
  rw [of_decide_eq_true hid] at hrange
  exact absurd hrange (by decide)

end CanBootloader
