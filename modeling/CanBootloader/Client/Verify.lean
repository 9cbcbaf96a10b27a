/-
  bootloader_flash.py, `verify_flash_write`: the client asks the boards for the checksum of the
  image and compares the answers with its own.

  * `mem_verifyFlashWrite_iff`: the nodes that pass are those whose answer is the checksum.
  * `verify_misses_none_iff`: the loop counts datagrams and not boards, so that everything else
    that arrives before the last answer takes the place of one.
  * `crc_verifies_iff`: a region, or an image, that ends with flash memory is refused by the
    board, and everything else in flash memory is verified.
-/
import CanBootloader.Client.Agreement
import CanBootloader.Client.Traffic
import CanBootloader.Firmware.CrcRegion

namespace CanBootloader

open Lib

/-! ## Collecting the answers -/

/-- `msgpack.unpackb` on an integer or a boolean, which Python compares and formats as 0 or 1.
    On anything else `unpackb` or `format` raises. -/
def unpackNumber (answer : List UInt8) : Option Int :=
  if answer = Msgpack.bool true then some 1
  else if answer = Msgpack.bool false then some 0
  else
    match Msgpack.int? answer with
    | some (n, []) => some n
    | _ => none

/-- The loop of `verify_flash_write` with `n` boards to check; `none` while it waits, and when an
    answer raises. -/
def verifyLoop (expectedCrc : Nat) : Nat → List Yield → Option (List Nat)
  | 0, _ => some []
  | _ + 1, [] => none
  | n + 1, .timeout :: ys => verifyLoop expectedCrc (n + 1) ys
  | n + 1, .datagram answer _ src :: ys => do
      let crc ← unpackNumber answer
      let validNodes ← verifyLoop expectedCrc n ys
      return if crc = expectedCrc then src :: validNodes else validNodes

/-- What `verify_flash_write` returns after these yields of its reader. -/
def verifyFlashWrite (binary : List UInt8) (destinations : List Nat) (ys : List Yield) :
    Option (List Nat) :=
  verifyLoop (Zlib.crc32 binary).toNat destinations.length ys

/-- The datagrams among these yields that the loop reads. -/
def answersRead (n : Nat) (ys : List Yield) : List (List UInt8 × List UInt8 × Nat) :=
  (ys.filterMap Yield.datagram?).take n

/-- The nodes that pass are those whose answer is the checksum. -/
theorem verifyLoop_eq {expectedCrc : Nat} {ys : List Yield} {n : Nat} {validNodes : List Nat}
    (h : verifyLoop expectedCrc n ys = some validNodes) :
    validNodes = (answersRead n ys).filterMap fun y =>
      if unpackNumber y.1 = some (expectedCrc : Int) then some y.2.2 else none := by
  induction ys generalizing n validNodes with
  | nil =>
      cases n with
      | zero => exact (Option.some.inj h).symm
      | succ n => exact absurd h (by simp [verifyLoop])
  | cons y ys ih =>
      cases n with
      | zero =>
          rw [answersRead, List.take_zero]
          exact (Option.some.inj h).symm
      | succ n =>
          cases y with
          | timeout => exact ih h
          | datagram answer dst src =>
              obtain ⟨crc, hcrc, h⟩ := Option.bind_eq_some_iff.mp h
              obtain ⟨rest, hrest, h⟩ := Option.bind_eq_some_iff.mp h
              obtain rfl := Option.some.inj h
              have hread : answersRead (n + 1) (.datagram answer dst src :: ys) =
                  (answer, dst, src) :: answersRead n ys := rfl
              rw [hread, List.filterMap_cons, ← ih hrest, hcrc]
              by_cases heq : crc = (expectedCrc : Int)
              · simp [heq]
              · simp [heq]

/-- A node that is heard once passes if its answer is the checksum. -/
theorem mem_verifyFlashWrite_iff {binary answer dst : List UInt8} {destinations validNodes : List Nat}
    {ys : List Yield} {src : Nat} (h : verifyFlashWrite binary destinations ys = some validNodes)
    (hmem : (answer, dst, src) ∈ answersRead destinations.length ys)
    (hone : ∀ y ∈ answersRead destinations.length ys, y.2.2 = src → y.1 = answer) :
    src ∈ validNodes ↔ unpackNumber answer = some ((Zlib.crc32 binary).toNat : Int) := by
  rw [verifyLoop_eq h, List.mem_filterMap]
  constructor
  · rintro ⟨y, hy, hpass⟩
    split_ifs at hpass with hcrc
    rwa [← hone y hy (Option.some.inj hpass)]
  · intro hcrc
    exact ⟨_, hmem, if_pos hcrc⟩

/-! ## Boards that are missed -/

/-- A reply with the checksum of the image. -/
def RightReply (binary : List UInt8) (y : List UInt8 × List UInt8 × Nat) : Prop :=
  unpackNumber y.1 = some ((Zlib.crc32 binary).toNat : Int)

instance (binary : List UInt8) (y : List UInt8 × List UInt8 × Nat) :
    Decidable (RightReply binary y) :=
  inferInstanceAs (Decidable (_ = _))

/-- Every destination passes. -/
def AllPass (binary : List UInt8) (destinations : List Nat) (ys : List Yield) : Prop :=
  ∃ validNodes, verifyFlashWrite binary destinations ys = some validNodes ∧
    ∀ d ∈ destinations, d ∈ validNodes

/-- As many datagrams as there are destinations, from the first on, are the right replies of
    destinations, not two of them of the same. -/
def OnlyRightReplies (binary : List UInt8) (destinations : List Nat) (ys : List Yield) : Prop :=
  let read := answersRead destinations.length ys
  (∀ y ∈ read, RightReply binary y ∧ y.2.2 ∈ destinations) ∧ (read.map fun y => y.2.2).Nodup

section Missed

variable {binary : List UInt8} {destinations : List Nat} {ys : List Yield}

theorem verifyFlashWrite_eq {validNodes : List Nat}
    (h : verifyFlashWrite binary destinations ys = some validNodes) :
    validNodes = ((answersRead destinations.length ys).filter fun y => RightReply binary y).map
      fun y => y.2.2 := by
  rw [verifyLoop_eq h]
  induction answersRead destinations.length ys with
  | nil => rfl
  | cons y read ih =>
      rw [List.filterMap_cons, List.filter_cons]
      by_cases hright : RightReply binary y
      · rw [if_pos (show unpackNumber y.1 = _ from hright), if_pos (by simpa using hright), ih]
        rfl
      · rw [if_neg (show ¬ unpackNumber y.1 = _ from hright), if_neg (by simpa using hright), ih]

/-- Numbers are all that the loop waits for. -/
theorem verifyLoop_returns (expectedCrc : Nat) {n : Nat} {ys : List Yield}
    (hcount : n ≤ (ys.filterMap Yield.datagram?).length)
    (hnumber : ∀ y ∈ answersRead n ys, (unpackNumber y.1).isSome = true) :
    ∃ validNodes, verifyLoop expectedCrc n ys = some validNodes := by
  induction ys generalizing n with
  | nil =>
      obtain rfl : n = 0 := by simpa using hcount
      exact ⟨[], rfl⟩
  | cons y ys ih =>
      cases n with
      | zero => exact ⟨[], rfl⟩
      | succ n =>
          cases y with
          | timeout => exact ih hcount hnumber
          | datagram answer dst src =>
              have hread : answersRead (n + 1) (.datagram answer dst src :: ys) =
                  (answer, dst, src) :: answersRead n ys := rfl
              rw [hread, List.forall_mem_cons] at hnumber
              obtain ⟨crc, hcrc⟩ := Option.isSome_iff_exists.mp hnumber.1
              obtain ⟨validNodes, hrest⟩ := ih (Nat.le_of_succ_le_succ hcount) hnumber.2
              exact ⟨if crc = (expectedCrc : Int) then src :: validNodes else validNodes,
                by simp [verifyLoop, show unpackNumber answer = some crc from hcrc, hrest]⟩

/-- Datagrams of every destination are read, if that many distinct ones arrive. -/
theorem answersRead_length (hdistinct : destinations.Nodup)
    (hheard : ∀ d ∈ destinations, ∃ y ∈ ys.filterMap Yield.datagram?, y.2.2 = d) :
    destinations.length ≤ (ys.filterMap Yield.datagram?).length ∧
      (answersRead destinations.length ys).length = destinations.length := by
  have hsub : destinations ⊆ (ys.filterMap Yield.datagram?).map fun y => y.2.2 :=
    fun d hd => List.mem_map.mpr (hheard d hd)
  have hle := (hdistinct.subperm hsub).length_le
  rw [List.length_map] at hle
  exact ⟨hle, by rw [answersRead, List.length_take]; omega⟩

end Missed

/-- Every destination passes if and only if nothing else arrives before the last of their right
    replies: no timeout counts, but every other datagram does. -/
theorem verify_misses_none_iff (binary : List UInt8) (destinations : List Nat)
    (hdistinct : destinations.Nodup) (ys : List Yield)
    (hreplies : ∀ d ∈ destinations, ∃ y ∈ ys.filterMap Yield.datagram?,
      RightReply binary y ∧ y.2.2 = d) :
    AllPass binary destinations ys ↔ OnlyRightReplies binary destinations ys := by
  obtain ⟨hcount, hlen⟩ := answersRead_length hdistinct fun d hd =>
    (hreplies d hd).imp fun y hy => ⟨hy.1, hy.2.2⟩
  constructor
  · intro hall
    obtain ⟨validNodes, hverify, hpass⟩ := hall
    have heq := verifyFlashWrite_eq hverify
    have hperm := hdistinct.subperm hpass
    -- so many pass that all that was read is right
    have hright : ∀ y ∈ answersRead destinations.length ys, RightReply binary y := by
      have hle := hperm.length_le
      rw [heq, List.length_map] at hle
      have hfilter : ((answersRead destinations.length ys).filter
          fun y => RightReply binary y).length = (answersRead destinations.length ys).length :=
        le_antisymm (List.length_filter_le _ _) (hlen.le.trans hle)
      simpa using List.length_filter_eq_length_iff.mp hfilter
    rw [List.filter_eq_self.mpr (by simpa using hright)] at heq
    have hsame := hperm.perm_of_length_le (by rw [heq, List.length_map, hlen])
    rw [heq] at hsame
    refine ⟨fun y hy => ⟨hright y hy, ?_⟩, hsame.nodup_iff.mp hdistinct⟩
    exact hsame.mem_iff.mpr (List.mem_map_of_mem hy)
  · intro honly
    obtain ⟨hright, hnodup⟩ := honly
    obtain ⟨validNodes, hverify⟩ := verifyLoop_returns (Zlib.crc32 binary).toNat hcount
      fun y hy => by rw [show unpackNumber y.1 = _ from (hright y hy).1]; rfl
    have heq := verifyFlashWrite_eq hverify
    rw [List.filter_eq_self.mpr (by simpa using fun y hy => (hright y hy).1)] at heq
    have hsub : (answersRead destinations.length ys).map (fun y => y.2.2) ⊆ destinations := by
      intro d hd
      obtain ⟨y, hy, rfl⟩ := List.mem_map.mp hd
      exact (hright y hy).2
    have hsame := (hnodup.subperm hsub).perm_of_length_le (by rw [List.length_map, hlen])
    refine ⟨validNodes, hverify, fun d hd => ?_⟩
    rw [heq]
    exact hsame.mem_iff.mpr hd

/-- Two boards, whose right replies come behind a timeout. -/
theorem verify_misses_none_iff_two :
    AllPass [] [1, 2] [.timeout, .datagram [0] [0] 2, .timeout, .datagram [0] [0] 1] ↔
      OnlyRightReplies [] [1, 2]
        [.timeout, .datagram [0] [0] 2, .timeout, .datagram [0] [0] 1] :=
  verify_misses_none_iff [] [1, 2] (by decide) _ (by decide)

/-- A late reply to the erase command, and the right reply behind it. -/
def lateReplyStream : List Yield := [.datagram (Msgpack.uint 1) [0] 1, .datagram [0] [0] 1]

theorem verify_misses_board :
    (∃ y ∈ lateReplyStream.filterMap Yield.datagram?, RightReply [] y ∧ y.2.2 = 1) ∧
      ¬ AllPass [] [1] lateReplyStream := by
  refine ⟨by decide, fun hall => ?_⟩
  obtain ⟨validNodes, hverify, hpass⟩ := hall
  have hnone : verifyFlashWrite [] [1] lateReplyStream = some [] := by decide
  obtain rfl := Option.some.inj (hnone.symm.trans hverify)
  exact absurd (hpass 1 (by decide)) List.not_mem_nil

/-! ## The answer of a board -/

/-- An answer that is one number. -/
theorem unpackNumber_uint (code : UInt64) :
    unpackNumber (Msgpack.uint code.toNat) = some (code.toNat : Int) := by
  have hdecode := Msgpack.int?_uint code.toNat_lt []
  rw [List.append_nil] at hdecode
  have hbool : ∀ b, Msgpack.uint code.toNat ≠ Msgpack.bool b := by
    intro b heq
    rw [heq] at hdecode
    cases b with
    | false => exact absurd hdecode (by simp [Msgpack.bool, Msgpack.int?, Msgpack.uint?])
    | true => exact absurd hdecode (by simp [Msgpack.bool, Msgpack.int?, Msgpack.uint?])
  rw [unpackNumber, if_neg (hbool true), if_neg (hbool false), hdecode]

/-- The client's command has the arguments that it encodes. -/
theorem regionArguments_encoded {i : Invocation} {address size : Nat}
    (hargs : i.args.rest = [Argument.int address, .int size].flatMap Argument.pack)
    (haddress : address < 2 ^ 32) (hsize : size < 2 ^ 32) : RegionArguments i address size := by
  simp only [List.flatMap_cons, List.flatMap_nil, Argument.pack] at hargs
  refine ⟨⟨_, [], ?_, Msgpack.uint?_uint (by simp) hsize _⟩, haddress, hsize⟩
  rw [hargs]
  exact Msgpack.uint?_uint (by simp) (by omega) _

/-- Regions of flash memory are verified if they end before flash memory does; an image that ends
    with it only if its checksum is the error code. -/
theorem crc_verifies_iff {σ : Type} (fw : Firmware) (hread : ReadLaw fw.cmp)
    (hwrite : WriteLaw fw.cmp) (hcrc : CrcIsZlib fw.crc32)
    (hcheck : fw.addressBoundaryCheckDisabled = false) (p : Platform σ) (w : σ) :
    (∀ (i : Invocation) (address size : Nat), RegionArguments i address size →
      i.out.pos + 5 ≤ i.out.size → fw.flashBegin.toNat ≤ address →
      address + size ≤ fw.flashEnd.toNat →
      (RepliesCrc fw p i address size w ↔ address + size < fw.flashEnd.toNat)) ∧
    (∀ (x : DatagramCall) (binary : List UInt8) (baseAddress : Nat),
      x.Carries (encodeCrcRegion baseAddress binary.length) → 5 ≤ x.outLen →
      fw.flashBegin.toNat ≤ baseAddress → baseAddress + binary.length ≤ fw.flashEnd.toNat →
      (p.mem w).read (UInt32.ofNat baseAddress) binary.length = binary →
      ∃ answer, RepliesWith (Prog.run p.handler (x.code fw) w) answer ∧
        ∀ destinations ys validNodes dst src,
          verifyFlashWrite binary destinations ys = some validNodes →
          (answer, dst, src) ∈ answersRead destinations.length ys →
          (∀ y ∈ answersRead destinations.length ys, y.2.2 = src → y.1 = answer) →
          (src ∈ validNodes ↔ baseAddress + binary.length < fw.flashEnd.toNat ∨
            Zlib.crc32 binary = 32)) := by
  refine ⟨fun i address size h hroom hbegin hend =>
    repliesCrc_iff hread hwrite hcheck h hbegin hend hroom, ?_⟩
  intro x binary baseAddress hx hroom hbegin hend hstored
  have hflash := fw.flashEnd.toNat_lt
  obtain ⟨i, hcalls, hargs⟩ := executeDatagramCommands_encoded hread hx (by decide) (by simp)
    (show getCommandByIndex fw _ = some ⟨2, commandCrcRegion fw⟩ from rfl)
  have harguments := regionArguments_encoded hargs (by omega) (by omega)
  have hroom' : i.out.pos + 5 ≤ i.out.size := by
    rw [hcalls.out, CmpWriter.init]
    omega
  by_cases hallowed : CrcAllowed fw baseAddress binary.length
  · have hreply := (crcRegion_allowed (p := p) (w := w) hread hwrite hcheck harguments hroom'
      hallowed).2
    refine ⟨_, repliesWith_handler hcalls hreply, ?_⟩
    intro destinations ys validNodes dst src hverify hmem hone
    rw [mem_verifyFlashWrite_iff hverify hmem hone, unpackNumber_uint, hstored, hcrc]
    exact iff_of_true (by rw [UInt32.toNat_toUInt64])
      (.inl ((crcAllowed_iff hbegin hend).mp hallowed))
  · have hreply := (crcRegion_refused (p := p) (w := w) hread hwrite hcheck harguments hroom'
      hallowed).2
    refine ⟨_, repliesWith_handler hcalls hreply, ?_⟩
    intro destinations ys validNodes dst src hverify hmem hone
    rw [mem_verifyFlashWrite_iff hverify hmem hone, unpackNumber_uint, ← crcAllowed_iff hbegin hend,
      Option.some.injEq]
    constructor
    · intro heq
      exact .inr (UInt32.toNat_inj.mp (Int.natCast_inj.mp heq.symm))
    · rintro (h | h)
      · exact absurd h hallowed
      · rw [h]
        rfl

/-- The first sector of the application of the Nucleo board. -/
theorem crc_verifies_iff_sector :
    RepliesCrc nucleoFirmware blankPlatform (crcInvocation 0x08010000 0x10000) 0x08010000 0x10000
      () :=
  ((crc_verifies_iff nucleoFirmware Cmp.reference_read Cmp.reference_write (fun _ _ => rfl) rfl
    blankPlatform ()).1 (crcInvocation 0x08010000 0x10000) 0x08010000 0x10000
    ⟨⟨_, _, rfl, rfl⟩, by decide, by decide⟩ (by decide) (by decide) (by decide)).mpr (by decide)

/-- Its whole application region. -/
theorem crc_of_application : RegionArguments (crcInvocation 0x08010000 0x70000) 0x08010000 0x70000 ∧
    nucleoFirmware.app = 0x08010000 ∧ nucleoFirmware.appSize = 0x70000 ∧
    ¬ RepliesCrc nucleoFirmware blankPlatform (crcInvocation 0x08010000 0x70000) 0x08010000 0x70000
      () := by
  have harguments : RegionArguments (crcInvocation 0x08010000 0x70000) 0x08010000 0x70000 :=
    ⟨⟨_, _, rfl, rfl⟩, by decide, by decide⟩
  have hrefused : ¬ CrcAllowed nucleoFirmware 0x08010000 0x70000 := by
    intro h
    exact absurd h.2.2 (by decide)
  refine ⟨harguments, rfl, rfl, fun h => ?_⟩
  exact (crcRegion_refused Cmp.reference_read Cmp.reference_write rfl harguments (by decide)
    hrefused).1 h.1

end CanBootloader
