/-
  The address check of `command_crc_region`.

  The command looks at the first address of the region and at the one behind its last byte, which
  it computes as a 32-bit word, and compares both with `flash_end` as if both were read.

  * `crc_in_flash_iff`: a region that wraps around can pass the check.
  * `repliesCrc_iff`: a region that ends with flash memory does not.
-/
import CanBootloader.Firmware.WriteFlash

namespace CanBootloader

open Lib

variable (fw : Firmware)

/-! ## The check -/

/-- The arguments are a 32-bit address and a 32-bit size. -/
structure RegionArguments (i : Invocation) (address size : Nat) : Prop where
  decoded : ∃ rest rest', Msgpack.uint? 8 i.args.rest = some (address, rest) ∧
    Msgpack.uint? 4 rest = some (size, rest')
  address_lt : address < 2 ^ 32
  size_lt : size < 2 ^ 32

/-- Both addresses that the command computes are between the bounds. -/
def CrcAllowed (address size : Nat) : Prop :=
  (fw.flashBegin.toNat ≤ address ∧ address < fw.flashEnd.toNat) ∧
    fw.flashBegin.toNat ≤ (address + size) % 2 ^ 32 ∧
    (address + size) % 2 ^ 32 < fw.flashEnd.toNat

variable {fw} {i : Invocation} {address size : Nat}

/-- What the command does with its arguments. -/
theorem commandCrcRegion_eq (hread : ReadLaw fw.cmp)
    (hcheck : fw.addressBoundaryCheckDisabled = false) (h : RegionArguments i address size) :
    (¬ CrcAllowed fw address size ∧
      commandCrcRegion fw i = Prog.ret (i.reply (fw.cmp.writeUint i.out crcErrorIllegalAddress))) ∨
    CrcAllowed fw address size ∧ commandCrcRegion fw i = (do
      let m ← readMemory
      return i.reply (fw.cmp.writeUint i.out
        (fw.crc32 0 (m.read (UInt32.ofNat address) size)).toUInt64)) := by
  obtain ⟨rest, rest', haddress, hsize⟩ := h.decoded
  have hrest : (i.args.seek rest).rest = rest := by
    obtain ⟨pre, hpre⟩ := Msgpack.uint?_suffix haddress
    exact CmpReader.rest_seek hpre.symm
  have hfirst := hread.readUinteger i.args i.locals.tmp _ _ haddress
  have hsecond := hread.readUint (i.args.seek rest) i.locals.size _ _
    (hrest.symm ▸ hsize)
  have haddressNat : (UInt32.ofNat address).toNat = address :=
    UInt32.toNat_ofNat_of_lt' h.address_lt
  have hsizeNat : (UInt32.ofNat size).toNat = size := UInt32.toNat_ofNat_of_lt' h.size_lt
  have hallowed : (!fw.addressBoundaryCheckDisabled &&
      (UInt32.ofNat address < fw.flashBegin || UInt32.ofNat address ≥ fw.flashEnd ||
        UInt32.ofNat address + UInt32.ofNat size < fw.flashBegin ||
        UInt32.ofNat address + UInt32.ofNat size ≥ fw.flashEnd)) = true ↔
      ¬ CrcAllowed fw address size := by
    simp only [hcheck, Bool.not_false, Bool.true_and, Bool.or_eq_true, decide_eq_true_eq,
      UInt32.lt_iff_toNat_lt, ge_iff_le, UInt32.le_iff_toNat_le, UInt32.toNat_add, haddressNat,
      hsizeNat, CrcAllowed]
    omega
  unfold commandCrcRegion
  simp only [hfirst, hsecond, UInt64.toUInt32_ofNat', Bool.not_true, Bool.false_eq_true, if_false,
    hsizeNat]
  split_ifs with hillegal
  · exact .inl ⟨hallowed.mp hillegal, rfl⟩
  · exact .inr ⟨not_not.mp (mt hallowed.mpr hillegal), rfl⟩

/-! ## Replies -/

variable {σ : Type} {p : Platform σ} {w : σ}

/-- A checksum is computed: memory is read. -/
def ComputesCrc (o : Prog.Outcome σ Call Reply) : Prop := ∃ c ∈ o.calls, c.2 = .memory

/-- The command behind its check. -/
theorem crcRegion_allowed (hread : ReadLaw fw.cmp) (hwrite : WriteLaw fw.cmp)
    (hcheck : fw.addressBoundaryCheckDisabled = false) (h : RegionArguments i address size)
    (hroom : i.out.pos + 5 ≤ i.out.size) (hallowed : CrcAllowed fw address size) :
    ComputesCrc (Prog.run p.handler (commandCrcRegion fw i) w) ∧
      RepliesCode i (fw.crc32 0 ((p.mem w).read (UInt32.ofNat address) size)).toUInt64
        (Prog.run p.handler (commandCrcRegion fw i) w) := by
  obtain ⟨hrefused, -⟩ | ⟨-, heq⟩ := commandCrcRegion_eq hread hcheck h
  · exact absurd hallowed hrefused
  · rw [heq]
    refine ⟨⟨(w, .memory), List.mem_singleton_self _, rfl⟩, _, rfl, ?_⟩
    generalize fw.crc32 0 ((p.mem w).read (UInt32.ofNat address) size) = crc
    have hlen := Msgpack.uint_length_le_of_lt (show crc.toUInt64.toNat < 2 ^ 32 by
      rw [UInt32.toNat_toUInt64]
      exact crc.toNat_lt)
    rw [Invocation.reply, hwrite.writeUint _ _ (by omega), CmpWriter.written_put]

/-- The command refuses the region. -/
theorem crcRegion_refused (hread : ReadLaw fw.cmp) (hwrite : WriteLaw fw.cmp)
    (hcheck : fw.addressBoundaryCheckDisabled = false) (h : RegionArguments i address size)
    (hroom : i.out.pos + 5 ≤ i.out.size) (hrefused : ¬ CrcAllowed fw address size) :
    ¬ ComputesCrc (Prog.run p.handler (commandCrcRegion fw i) w) ∧
      RepliesCode i crcErrorIllegalAddress (Prog.run p.handler (commandCrcRegion fw i) w) := by
  obtain ⟨-, heq⟩ | ⟨hallowed, -⟩ := commandCrcRegion_eq hread hcheck h
  · rw [heq]
    refine ⟨fun ⟨c, hc, _⟩ => absurd hc (List.not_mem_nil), _, rfl, ?_⟩
    exact written_code hwrite (by omega) (by decide)
  · exact absurd hallowed hrefused

/-! ## Regions -/

/-- A checksum is computed of a region inside flash memory only; otherwise the reply is
    CRC_ERROR_ILLEGAL_ADDRESS. -/
def CrcInFlash (fw : Firmware) (p : Platform σ) (i : Invocation) (address size : Nat) (w : σ) :
    Prop :=
  let o := Prog.run p.handler (commandCrcRegion fw i) w
  (ComputesCrc o → fw.flashBegin.toNat ≤ address ∧ address + size ≤ fw.flashEnd.toNat) ∧
    (¬ ComputesCrc o → RepliesCode i crcErrorIllegalAddress o)

/-- The region begins in flash memory, and wraps around to end there again. -/
def RegionWraps (fw : Firmware) (address size : Nat) : Prop :=
  (fw.flashBegin.toNat ≤ address ∧ address < fw.flashEnd.toNat) ∧
    2 ^ 32 + fw.flashBegin.toNat ≤ address + size ∧ address + size < 2 ^ 32 + fw.flashEnd.toNat

theorem crc_in_flash_iff (fw : Firmware) (hread : ReadLaw fw.cmp) (hwrite : WriteLaw fw.cmp)
    (hcheck : fw.addressBoundaryCheckDisabled = false) (p : Platform σ) (i : Invocation)
    (address size : Nat) (h : RegionArguments i address size)
    (hroom : i.out.pos + 5 ≤ i.out.size) (w : σ) :
    CrcInFlash fw p i address size w ↔ ¬ RegionWraps fw address size := by
  have haddress := h.address_lt
  have hsize := h.size_lt
  have hend := fw.flashEnd.toNat_lt
  unfold CrcInFlash
  simp only
  by_cases hallowed : CrcAllowed fw address size
  · obtain ⟨hcomputes, -⟩ := crcRegion_allowed (p := p) (w := w) hread hwrite hcheck h hroom
      hallowed
    simp only [hcomputes, true_imp_iff, not_true_eq_false, false_imp_iff, and_true]
    unfold CrcAllowed at hallowed
    unfold RegionWraps
    omega
  · obtain ⟨hcomputes, hreply⟩ := crcRegion_refused (p := p) (w := w) hread hwrite hcheck h hroom
      hallowed
    refine iff_of_true ⟨fun h => absurd h hcomputes, fun _ => hreply⟩ fun hwraps => hallowed ?_
    unfold RegionWraps at hwraps
    unfold CrcAllowed
    omega

/-- The reply is the checksum of the region. -/
def RepliesCrc (fw : Firmware) (p : Platform σ) (i : Invocation) (address size : Nat) (w : σ) :
    Prop :=
  let o := Prog.run p.handler (commandCrcRegion fw i) w
  ComputesCrc o ∧
    RepliesCode i (fw.crc32 0 ((p.mem w).read (UInt32.ofNat address) size)).toUInt64 o

/-- A region of flash memory passes the check if it ends before flash memory does. -/
theorem crcAllowed_iff (hbegin : fw.flashBegin.toNat ≤ address)
    (hend : address + size ≤ fw.flashEnd.toNat) :
    CrcAllowed fw address size ↔ address + size < fw.flashEnd.toNat := by
  have hlt := fw.flashEnd.toNat_lt
  unfold CrcAllowed
  omega

theorem repliesCrc_iff (hread : ReadLaw fw.cmp) (hwrite : WriteLaw fw.cmp)
    (hcheck : fw.addressBoundaryCheckDisabled = false) (h : RegionArguments i address size)
    (hbegin : fw.flashBegin.toNat ≤ address) (hend : address + size ≤ fw.flashEnd.toNat)
    (hroom : i.out.pos + 5 ≤ i.out.size) :
    RepliesCrc fw p i address size w ↔ address + size < fw.flashEnd.toNat := by
  rw [← crcAllowed_iff hbegin hend]
  refine ⟨fun hreply => ?_, crcRegion_allowed hread hwrite hcheck h hroom⟩
  by_contra hrefused
  exact (crcRegion_refused hread hwrite hcheck h hroom hrefused).1 hreply.1

/-- A CRC command for the Nucleo board. -/
def crcInvocation (address size : Nat) : Invocation :=
  let bytes := Msgpack.uint address ++ Msgpack.uint size
  { blankInvocation blankConfig with
    argc := 2
    args := .init (Store.ofList bytes) bytes.length }

theorem crc_in_flash_iff_sector :
    CrcInFlash nucleoFirmware blankPlatform (crcInvocation 0x08010000 0x10000) 0x08010000 0x10000
      () :=
  (crc_in_flash_iff nucleoFirmware Cmp.reference_read Cmp.reference_write rfl blankPlatform
    (crcInvocation 0x08010000 0x10000) 0x08010000 0x10000
    ⟨⟨_, _, rfl, rfl⟩, by decide, by decide⟩ (by decide) ()).mpr (by
      intro hwraps
      exact absurd hwraps.2.1 (by decide))

/-- A checksum of nearly the whole address space. -/
theorem crc_of_everything :
    RegionArguments (crcInvocation 0x08000001 0xFFFFFFFF) 0x08000001 0xFFFFFFFF ∧
    ¬ CrcInFlash nucleoFirmware blankPlatform (crcInvocation 0x08000001 0xFFFFFFFF) 0x08000001
      0xFFFFFFFF () := by
  have harguments : RegionArguments (crcInvocation 0x08000001 0xFFFFFFFF) 0x08000001 0xFFFFFFFF :=
    ⟨⟨_, _, rfl, rfl⟩, by decide, by decide⟩
  refine ⟨harguments, fun h => ?_⟩
  have hallowed : CrcAllowed nucleoFirmware 0x08000001 0xFFFFFFFF := by
    refine ⟨⟨?_, ?_⟩, ?_, ?_⟩ <;> decide
  have hcomputes := (crcRegion_allowed (p := blankPlatform) (w := ()) Cmp.reference_read
    Cmp.reference_write rfl harguments (by decide) hallowed).1
  exact absurd (h.1 hcomputes).2 (by decide)

end CanBootloader
