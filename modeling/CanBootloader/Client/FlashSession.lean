/-
  client/cvra_bootloader/bootloader_flash.py, `flash_image`, and utils.py,
  `config_update_and_save`, with the boards at the other end of a bus that loses requests and
  replies.

  Every request of the session has a contract with a board (`erase_contract`, `write_contract`,
  `update_contract`, `save_contract`), however often the board executes it. They fit together to a
  chain, so what the last one leaves behind is what the session leaves behind:

  * `flash_image_stores`: a session without errors has stored the image on all destinations, and
    no other board has changed.
  * `flash_image_boots`: if no error code was among the answers to the update and to the save,
    which the client does not look at, a destination starts the image from its next reset on.
  * `write_programs_once`: behind its first success a write leaves the board as it is.
-/
import CanBootloader.Client.Boards
import CanBootloader.Firmware.BootSafety

namespace CanBootloader

open Lib AtLeastOnce

/-! ## The plan -/

/-- The arguments of `flash_image`, and the order in which its retries iterate over a set. -/
structure FlashImage where
  binary : List UInt8
  baseAddress : Nat
  deviceClass : List UInt8
  destinations : List Nat
  pageSize : ℕ+
  difference : SetDifference

/-- `config_update_and_save`: two calls with the default arguments, whose answers are not looked
    at. -/
def configUpdateAndSave (config : List (List UInt8 × Argument)) (destinations : List Nat)
    (difference : SetDifference) : List PlanStep :=
  let step := fun command => ⟨⟨command, destinations, 0, 3, true, false, difference⟩, none⟩
  [step (encodeUpdateConfig config), step encodeSaveConfig]

namespace FlashImage

variable (t : FlashImage)

/-- The call for a request, and the codes that are fatal: `FLASH_ERASE_ERROR_BEFORE_APP` and so
    on. -/
def step (request : FlashRequest) : PlanStep :=
  let command := request.command t.deviceClass
  match request with
  | .erase _ => ⟨⟨command, t.destinations, 0, 5, false, false, t.difference⟩, some [10, 11, 12]⟩
  | .write _ _ => ⟨⟨command, t.destinations, 0, 0, false, true, t.difference⟩, some [20, 21, 22, 24]⟩

def requests : List FlashRequest := flashImage t.binary t.baseAddress t.pageSize

/-- The CRC of the image. -/
def crc : Nat := (Zlib.crc32 t.binary).toNat

/-- `flash_image`. -/
def plan : List PlanStep :=
  t.requests.map t.step ++
    configUpdateAndSave (applicationItems t.binary.length t.crc) t.destinations t.difference

end FlashImage

theorem FlashImage.step_command (t : FlashImage) (request : FlashRequest) :
    (t.step request).call.command = request.command t.deviceClass := by
  cases request <;> rfl

theorem FlashImage.step_destinations (t : FlashImage) (request : FlashRequest) :
    (t.step request).call.destinations = t.destinations := by
  cases request <;> rfl

/-! ## Requests -/

/-- Adjoining writes from an address on. -/
def writesFrom (address : Nat) : List (List UInt8) → List FlashRequest
  | [] => []
  | data :: rest => .write data address :: writesFrom (address + data.length) rest

theorem FlashRequest.op_injective : Function.Injective FlashRequest.op := by
  intro a b h
  cases a <;> cases b <;> simp [FlashRequest.op] at h ⊢ <;> tauto

theorem writesFrom_op (chunks : List (List UInt8)) : ∀ address : Nat,
    (writesFrom address chunks).map FlashRequest.op = PagedFlash.writesFrom address chunks := by
  induction chunks with
  | nil => exact fun _ => rfl
  | cons chunk chunks ih =>
      intro address
      rw [writesFrom, List.map_cons, ih]
      rfl

/-- The requests of `flash_image`: erases, and then writes that adjoin. -/
theorem flashImage_eq (binary : List UInt8) (baseAddress : Nat) (pageSize : ℕ+) :
    flashImage binary baseAddress pageSize =
      ((pyRange binary.length pageSize).map fun offset => .erase (baseAddress + offset)) ++
        writesFrom baseAddress (sliceIntoPages binary pageSize) := by
  apply List.map_injective_iff.mpr FlashRequest.op_injective
  rw [flashImage_ops, List.map_append, writesFrom_op, List.map_map, List.map_map]
  rfl

/-! ## Contracts -/

section Contracts

variable {fw : Firmware} {σ : Type} {p : Platform σ} {Programs : UInt32 → List UInt8 → Prop}

/-- A board that the session found as `n₀`, with the bytes that it has stored up to now: it is in
    the application, and nothing else has changed. -/
structure Flashing (fw : Firmware) (p : Platform σ) (n₀ : Board σ) (base : Nat)
    (bytes : List UInt8) (n : Board σ) : Prop where
  config : n.config = n₀.config
  below : ∀ x < fw.app, p.mem n.world x = p.mem n₀.world x
  start : bytes = [] ∨ fw.app ≤ UInt32.ofNat base
  holds : (p.mem n.world).read (UInt32.ofNat base) bytes.length = bytes

theorem Flashing.refl (n : Board σ) (base : Nat) : Flashing fw p n base [] n :=
  ⟨rfl, fun _ _ => rfl, .inl rfl, rfl⟩

theorem erase_contract (hread : ReadLaw fw.cmp) (hlaws : WriterLaws fw p Programs)
    (n₀ : Board σ) (base address : Nat) (deviceClass : List UInt8) (ok : BoardReply → Prop) :
    Contract (boardExec fw p) (encodeEraseFlashPage address deviceClass) ok
      (Flashing fw p n₀ base []) (Flashing fw p n₀ base []) := by
  refine .of_invariant fun {n n' a} hn h => ?_
  obtain ⟨hconfig, hworld⟩ := boardExec.erase hread h
  refine ⟨hconfig.trans hn.config, fun x hx => ?_, .inl rfl, rfl⟩
  rcases hworld with hworld | ⟨page, k, happ, hend, hworld⟩
  · rw [hworld, hn.below x hx]
  · rw [hworld, hlaws.afterAttempts happ hend k _ x hx, hn.below x hx]

/-- The client takes the reply for a success. -/
def Success (unpackb : Unpackb) (a : BoardReply) : Prop := unpackb.result a.bytes = .number 1

/-- Another code is not. -/
theorem not_success_code (unpackb : Unpackb) {code : UInt64} (hcode : code ≠ 1) :
    unpackb.result (Msgpack.uint code.toNat) ≠ .number 1 := by
  rw [unpackb.result_number (unpackNumber_uint code), Ne, Unpacked.number.injEq]
  intro h
  exact hcode (UInt64.toNat_inj.mp (by exact_mod_cast h))

/-- Two adjoining ranges. -/
theorem Mem.read_append (m : Mem) (address : UInt32) (k n : Nat) :
    m.read address (k + n) = m.read address k ++ m.read (address + UInt32.ofNat k) n := by
  have hshift : m.ptr (address + UInt32.ofNat k) = fun i => m.ptr address (i + k) := by
    funext i
    rw [Mem.ptr, Mem.ptr, Nat.add_comm i, UInt32.ofNat_add, UInt32.add_assoc]
  rw [Mem.read, Mem.read, Mem.read, hshift, Store.slice_shift, ← Store.slice_append, Nat.zero_add]

/-- Bytes in front of an address. -/
theorem Mem.read_congr_below {m m' : Mem} {base len : Nat} {address : UInt32}
    (h : ∀ x < address, m' x = m x) (hlen : base + len ≤ address.toNat) :
    m'.read (UInt32.ofNat base) len = m.read (UInt32.ofNat base) len := by
  have haddress := address.toNat_lt
  apply Store.slice_congr
  intro i hi
  have hbase : (UInt32.ofNat base).toNat = base :=
    UInt32.toNat_ofNat_of_lt' (show base < 2 ^ 32 by omega)
  have hbyte : (UInt32.ofNat base + UInt32.ofNat (0 + i)).toNat = base + i := by
    rw [Nat.zero_add, toNat_add_ofNat (by omega), hbase]
  apply h
  rw [UInt32.lt_iff_toNat_lt, hbyte]
  omega

/-- Bytes from an address on. -/
theorem Mem.read_congr_from {m m' : Mem} {base len : Nat} {address : UInt32}
    (h : ∀ x, address ≤ x → m' x = m x) (hstart : address ≤ UInt32.ofNat base)
    (hend : base + len < 2 ^ 32) :
    m'.read (UInt32.ofNat base) len = m.read (UInt32.ofNat base) len := by
  apply Store.slice_congr
  intro i hi
  have hbase : (UInt32.ofNat base).toNat = base :=
    UInt32.toNat_ofNat_of_lt' (show base < 2 ^ 32 by omega)
  have hbyte : (UInt32.ofNat base + UInt32.ofNat (0 + i)).toNat = base + i := by
    rw [Nat.zero_add, toNat_add_ofNat (by omega), hbase]
  apply h
  rw [UInt32.le_iff_toNat_le] at hstart ⊢
  omega

/-- The next chunk of the image. -/
theorem write_contract (hread : ReadLaw fw.cmp) (hstr : ReadStrLaw fw.cmp)
    (hwrite : WriteLaw fw.cmp) (hroom : 0 < fw.outputBufferSize)
    (hlaws : WriterLaws fw p Programs) (unpackb : Unpackb) (n₀ : Board σ) {base : Nat}
    {done chunk deviceClass : List UInt8} (hlen : deviceClass.length ≤ 63)
    (hend : base + done.length + chunk.length ≤ fw.flashEnd.toNat)
    (hprog : Programs (UInt32.ofNat (base + done.length)) chunk) :
    Contract (boardExec fw p) (encodeWriteFlash chunk (base + done.length) deviceClass)
      (Success unpackb) (Flashing fw p n₀ base done) (Flashing fw p n₀ base (done ++ chunk)) := by
  have hflash := fw.flashEnd.toNat_lt
  have haddress : (UInt32.ofNat (base + done.length)).toNat = base + done.length :=
    UInt32.toNat_ofNat_of_lt' (show base + done.length < 2 ^ 32 by omega)
  have houtcome : ∀ {n n' : Board σ} {a : BoardReply},
      boardExec fw p n (encodeWriteFlash chunk (base + done.length) deviceClass) a n' →
      WriteOutcome fw p n (UInt32.ofNat (base + done.length)) chunk deviceClass a n' := fun h =>
    h.write hread hstr hwrite hroom (by omega) hlen (by omega)
  -- what an accepted write makes of the chunks before it
  have haccepted : ∀ {n : Board σ}, Flashing fw p n₀ base done n →
      ForBoard fw n.config (UInt32.ofNat (base + done.length)) deviceClass →
      Erased p n (UInt32.ofNat (base + done.length)) chunk.length →
      Flashing fw p n₀ base (done ++ chunk) ⟨n.config, p.lock (p.pageWrite
        (UInt32.ofNat (base + done.length)) chunk (p.unlock n.world))⟩ := by
    intro n hn hboard herased
    have happ := hboard.app_le
    obtain ⟨hchunk, hbelow⟩ :=
      hlaws.write happ (lt_flashEnd_of_app hboard.lt_end) (by omega) hprog herased
    refine ⟨hn.config, fun x hx => ?_, ?_, ?_⟩
    · exact (hbelow x (UInt32.lt_of_lt_of_le hx happ)).trans (hn.below x hx)
    · rcases hn.start with rfl | hstart
      · exact .inr happ
      · exact .inr hstart
    · rw [List.length_append, Mem.read_append, Mem.read_congr_below hbelow haddress.ge, hn.holds,
        ← UInt32.ofNat_add, hchunk]
  constructor
  · intro n n' a hn h
    cases houtcome h with
    | refused code hcode hbytes =>
        refine .inl ⟨hn, ?_⟩
        rw [Success, hbytes]
        exact not_success_code unpackb (by rintro rfl; exact absurd hcode (by decide))
    | accepted hboard herased => exact .inr (haccepted hn hboard herased)
  · intro n n' a hn h
    cases houtcome h with
    | refused => exact hn
    | accepted hboard herased =>
        have hdone : Flashing fw p n₀ base done n := by
          refine ⟨hn.config, hn.below, ?_, ?_⟩
          · rcases hn.start with hnil | hstart
            · exact .inl (List.append_eq_nil_iff.mp hnil).1
            · exact .inr hstart
          · have hholds := hn.holds
            rw [List.length_append, Mem.read_append] at hholds
            exact (List.append_inj hholds (by simp [Mem.read])).1
        exact haccepted hdone hboard herased

/-- Behind a write that was accepted, every further execution finds its target written. -/
theorem write_refused_again (hread : ReadLaw fw.cmp) (hstr : ReadStrLaw fw.cmp)
    (hwrite : WriteLaw fw.cmp) (hroom : 0 < fw.outputBufferSize) {address : Nat}
    {data deviceClass : List UInt8} (hlen : deviceClass.length ≤ 63)
    (haddress : address < 2 ^ 32) (hdata : data.length < 2 ^ 32)
    (hprogrammed : ∃ b ∈ data, b ≠ 0xFF) {n n' : Board σ} {replies : List BoardReply}
    (hrun : Repeats (boardExec fw p) (encodeWriteFlash data address deviceClass) n replies n')
    (hboard : ForBoard fw n.config (UInt32.ofNat address) deviceClass)
    (hholds : (p.mem n.world).read (UInt32.ofNat address) data.length = data) :
    n' = n ∧ ∀ a ∈ replies, a.bytes = Msgpack.uint flashWriteErrorNotErased.toNat ∧
      ∀ c ∈ a.calls, c = .memory := by
  induction hrun with
  | none => exact ⟨rfl, by simp⟩
  | more hexec _ ih =>
      cases hexec.write hread hstr hwrite hroom haddress hlen hdata with
      | refused code hcode hbytes hcalls hwhy =>
          obtain ⟨rfl, -⟩ := hwhy hboard
          obtain ⟨hn, hrest⟩ := ih hboard hholds
          exact ⟨hn, List.forall_mem_cons.mpr ⟨⟨hbytes, hcalls⟩, hrest⟩⟩
      | accepted _ herased =>
          obtain ⟨b, hb, hne⟩ := hprogrammed
          rw [Erased, hholds] at herased
          exact absurd (herased b hb) hne

/-! ## Configuration -/

/-- The image is in the application, and the bootloader itself has not changed. -/
structure Stored (fw : Firmware) (p : Platform σ) (n₀ : Board σ) (t : FlashImage)
    (n : Board σ) : Prop where
  code : ∀ x < fw.config1, p.mem n.world x = p.mem n₀.world x
  start : t.binary = [] ∨ fw.app ≤ UInt32.ofNat t.baseAddress
  holds : (p.mem n.world).read (UInt32.ofNat t.baseAddress) t.binary.length = t.binary

/-- With a configuration that has its size and its checksum. -/
structure Flashed (fw : Firmware) (p : Platform σ) (n₀ : Board σ) (t : FlashImage)
    (n : Board σ) : Prop extends Stored fw p n₀ t n where
  config : ∃ count, n.config =
    { n₀.config.withApplication t.binary.length t.crc with updateCount := count }

variable {t : FlashImage} {n₀ : Board σ}

theorem Flashing.stored {n : Board σ} (h : Flashing fw p n₀ t.baseAddress t.binary n) :
    Stored fw p n₀ t n := by
  refine ⟨fun x hx => h.below x ?_, h.start, h.holds⟩
  exact UInt32.lt_trans hx (UInt32.lt_trans fw.config1_lt fw.config2_lt)

/-- A save keeps the image. -/
theorem Stored.save {n n' : Board σ} (h : Stored fw p n₀ t n)
    (hend : t.baseAddress + t.binary.length ≤ fw.flashEnd.toNat)
    (hout : ∀ x, x < fw.config1 ∨ fw.app ≤ x → p.mem n'.world x = p.mem n.world x) :
    Stored fw p n₀ t n' := by
  have hflash := fw.flashEnd.toNat_lt
  refine ⟨fun x hx => (hout x (.inl hx)).trans (h.code x hx), h.start, ?_⟩
  rcases h.start with hnil | happ
  · rw [hnil]
    rfl
  · rw [Mem.read_congr_from (fun x hx => hout x (.inr hx)) happ (by omega), h.holds]

theorem FlashImage.crc_lt (t : FlashImage) : t.crc < 2 ^ 32 := UInt32.toNat_lt _

/-- An update, when its answers are not known. -/
theorem update_stored (hread : ReadLaw fw.cmp) (hstr : ReadStrLaw fw.cmp)
    (hend : t.baseAddress + t.binary.length ≤ fw.flashEnd.toNat) (ok : BoardReply → Prop) :
    Contract (boardExec fw p) (encodeUpdateConfig (applicationItems t.binary.length t.crc)) ok
      (Flashing fw p n₀ t.baseAddress t.binary) (Stored fw p n₀ t) := by
  have hflash := fw.flashEnd.toNat_lt
  constructor
  · intro n n' a hn h
    obtain rfl := h.update hread hstr (by omega) t.crc_lt
    exact .inr ⟨hn.stored.code, hn.start, hn.holds⟩
  · intro n n' a hn h
    obtain rfl := h.update hread hstr (by omega) t.crc_lt
    exact ⟨hn.code, hn.start, hn.holds⟩

theorem save_stored (hread : ReadLaw fw.cmp) (hlaws : WriterLaws fw p Programs)
    (hend : t.baseAddress + t.binary.length ≤ fw.flashEnd.toNat) (ok : BoardReply → Prop) :
    Contract (boardExec fw p) encodeSaveConfig ok (Stored fw p n₀ t) (Stored fw p n₀ t) :=
  .of_invariant fun hn h => hn.save hend (h.save hread hlaws).2.2

/-- An update that is executed. -/
theorem update_contract (hread : ReadLaw fw.cmp) (hstr : ReadStrLaw fw.cmp)
    (hend : t.baseAddress + t.binary.length ≤ fw.flashEnd.toNat) (ok : BoardReply → Prop) :
    Contract (boardExec fw p) (encodeUpdateConfig (applicationItems t.binary.length t.crc)) ok
      (Flashing fw p n₀ t.baseAddress t.binary) (Flashed fw p n₀ t) := by
  have hflash := fw.flashEnd.toNat_lt
  constructor
  · intro n n' a hn h
    obtain rfl := h.update hread hstr (by omega) t.crc_lt
    refine .inr ⟨⟨hn.stored.code, hn.start, hn.holds⟩, n₀.config.updateCount, ?_⟩
    rw [hn.config]
    rfl
  · intro n n' a hn h
    obtain rfl := h.update hread hstr (by omega) t.crc_lt
    obtain ⟨count, hconfig⟩ := hn.config
    refine ⟨⟨hn.code, hn.start, hn.holds⟩, count, ?_⟩
    rw [hconfig]
    rfl

/-- A save that is executed. -/
theorem save_contract (hread : ReadLaw fw.cmp) (hlaws : WriterLaws fw p Programs)
    (hend : t.baseAddress + t.binary.length ≤ fw.flashEnd.toNat) (ok : BoardReply → Prop) :
    Contract (boardExec fw p) encodeSaveConfig ok (Flashed fw p n₀ t)
      (fun n => Flashed fw p n₀ t n ∧ n.Saved fw p) := by
  have hstep : ∀ {n n' : Board σ} {a : BoardReply}, Flashed fw p n₀ t n →
      boardExec fw p n encodeSaveConfig a n' → Flashed fw p n₀ t n' ∧ n'.Saved fw p := by
    intro n n' a hn h
    obtain ⟨hconfig, hsaved, hout⟩ := h.save hread hlaws
    obtain ⟨count, hcount⟩ := hn.config
    refine ⟨⟨hn.toStored.save hend hout, count + 1, ?_⟩, hsaved⟩
    rw [hconfig, hcount]
  exact ⟨fun hn h => .inr (hstep hn h), fun hn h => hstep hn.1 h⟩

/-! ## Chains -/

section Chains

variable {unpackb : Unpackb} {trace : SessionTrace} {id : Nat}

/-- Whatever the replies show, the plan leads a board with this ID from `pre` to `post`. -/
def Leads (fw : Firmware) (p : Platform σ) (unpackb : Unpackb) (trace : SessionTrace) (id : Nat)
    (plan : List PlanStep) (pre post : Board σ → Prop) : Prop :=
  ∀ replies, List.Forall₂ (PlanStep.Served (firmwareBoards fw p) unpackb trace id) plan replies →
    Chain (boardExec fw p) (plan.map fun step => step.call.command) replies pre post

theorem Leads.nil (P : Board σ → Prop) : Leads fw p unpackb trace id [] P P := by
  intro replies h
  cases h
  exact .nil P

theorem Leads.cons {step : PlanStep} {plan : List PlanStep} {pre mid post : Board σ → Prop}
    (ok : BoardReply → Prop) (h : Contract (boardExec fw p) step.call.command ok pre mid)
    (hok : ∀ replies, step.Served (firmwareBoards fw p) unpackb trace id replies →
      (∃ a ∈ replies, ok a) ∨ ∀ n, pre n → mid n)
    (hrest : Leads fw p unpackb trace id plan mid post) :
    Leads fw p unpackb trace id (step :: plan) pre post := by
  intro replies hserved
  cases hserved with
  | cons hfirst hserved => exact .cons ok h (hok _ hfirst) (hrest _ hserved)

theorem Leads.append {plan plan' : List PlanStep} {pre mid post : Board σ → Prop}
    (h : Leads fw p unpackb trace id plan pre mid)
    (h' : Leads fw p unpackb trace id plan' mid post) :
    Leads fw p unpackb trace id (plan ++ plan') pre post := by
  intro replies hserved
  have hflip := hserved.flip
  have htake := (List.forall₂_take_append _ _ _ hflip).flip
  have hdrop := (List.forall₂_drop_append _ _ _ hflip).flip
  rw [List.map_append, ← List.take_append_drop plan.length replies]
  exact (h _ htake).append (h' _ hdrop)

/-- A board that follows a plan. -/
theorem Leads.follows {plan : List PlanStep} {pre post : Board σ → Prop} {n n' : Board σ}
    (h : Leads fw p unpackb trace n.config.ID.toNat plan pre post)
    (hfollows : Follows (firmwareBoards fw p) unpackb trace plan n n') (hn : pre n) : post n' := by
  obtain ⟨replies, hrounds, hserved⟩ := hfollows
  exact hrounds.chain (h replies hserved) hn

theorem leads_erases (hread : ReadLaw fw.cmp) (hlaws : WriterLaws fw p Programs)
    (offsets : List Nat) :
    Leads fw p unpackb trace id
      ((offsets.map fun offset => FlashRequest.erase (t.baseAddress + offset)).map t.step)
      (Flashing fw p n₀ t.baseAddress []) (Flashing fw p n₀ t.baseAddress []) := by
  induction offsets with
  | nil => exact .nil _
  | cons offset offsets ih =>
      exact .cons (fun _ => True) (erase_contract hread hlaws n₀ _ _ _ _)
        (fun _ _ => .inr fun _ h => h) ih

/-- The writes of the chunks behind those that are done. -/
theorem leads_writes (hread : ReadLaw fw.cmp) (hstr : ReadStrLaw fw.cmp)
    (hwrite : WriteLaw fw.cmp) (hroom : 0 < fw.outputBufferSize)
    (hlaws : WriterLaws fw p Programs) (hlen : t.deviceClass.length ≤ 63)
    (hid : id ∈ t.destinations) (chunks : List (List UInt8)) : ∀ done : List UInt8,
    t.baseAddress + done.length + chunks.flatten.length ≤ fw.flashEnd.toNat →
    (∀ data address, FlashRequest.write data address ∈
      writesFrom (t.baseAddress + done.length) chunks → Programs (UInt32.ofNat address) data) →
    Leads fw p unpackb trace id
      ((writesFrom (t.baseAddress + done.length) chunks).map t.step)
      (Flashing fw p n₀ t.baseAddress done)
      (Flashing fw p n₀ t.baseAddress (done ++ chunks.flatten)) := by
  induction chunks with
  | nil =>
      intro done _ _
      rw [List.flatten_nil, List.append_nil]
      exact .nil _
  | cons chunk chunks ih =>
      intro done hend hprog
      rw [List.flatten_cons, List.length_append] at hend
      have hcontract := write_contract (p := p) hread hstr hwrite hroom hlaws unpackb n₀ hlen
        (show t.baseAddress + done.length + chunk.length ≤ fw.flashEnd.toNat by omega)
        (hprog chunk _ List.mem_cons_self)
      have hrest := ih (done ++ chunk) (by rw [List.length_append]; omega) fun data address h =>
        hprog data address <| List.mem_cons_of_mem _ <| by
          rwa [List.length_append, ← Nat.add_assoc] at h
      rw [List.flatten_cons, ← List.append_assoc]
      rw [List.length_append, ← Nat.add_assoc] at hrest
      refine .cons (Success unpackb) hcontract (fun replies hserved => .inl ?_) hrest
      obtain ⟨a, ha, haccept⟩ := hserved.answered (.inl rfl) (fun h => nomatch h) hid
      exact ⟨a, ha, haccept (by simp [FlashImage.step])⟩

/-- The image can be sent to boards with this firmware, and their flash writer programs its
    chunks. -/
structure FlashImage.Fits (t : FlashImage) (fw : Firmware)
    (Programs : UInt32 → List UInt8 → Prop) : Prop where
  deviceClass_le : t.deviceClass.length ≤ 63
  end_le : t.baseAddress + t.binary.length ≤ fw.flashEnd.toNat
  programs : ∀ data address, .write data address ∈ t.requests →
    Programs (UInt32.ofNat address) data

/-- The first part of the session. -/
theorem leads_requests (hread : ReadLaw fw.cmp) (hstr : ReadStrLaw fw.cmp)
    (hwrite : WriteLaw fw.cmp) (hroom : 0 < fw.outputBufferSize)
    (hlaws : WriterLaws fw p Programs) (hfits : t.Fits fw Programs) (hid : id ∈ t.destinations) :
    Leads fw p unpackb trace id (t.requests.map t.step) (Flashing fw p n₀ t.baseAddress [])
      (Flashing fw p n₀ t.baseAddress t.binary) := by
  have hprog := hfits.programs
  have hend := hfits.end_le
  have hflatten := sliceIntoPages_flatten t.binary t.pageSize
  rw [FlashImage.requests, flashImage_eq] at hprog ⊢
  have hwrites : Leads fw p unpackb trace id
      ((writesFrom t.baseAddress (sliceIntoPages t.binary t.pageSize)).map t.step)
      (Flashing fw p n₀ t.baseAddress [])
      (Flashing fw p n₀ t.baseAddress (sliceIntoPages t.binary t.pageSize).flatten) :=
    leads_writes hread hstr hwrite hroom hlaws hfits.deviceClass_le hid _ []
      (by rw [hflatten]; exact hend)
      fun data address h => hprog data address (List.mem_append_right _ h)
  rw [hflatten] at hwrites
  rw [List.map_append]
  exact (leads_erases hread hlaws _).append hwrites

/-- The second part, when it is not known what was executed. -/
theorem leads_stored (hread : ReadLaw fw.cmp) (hstr : ReadStrLaw fw.cmp)
    (hlaws : WriterLaws fw p Programs)
    (hend : t.baseAddress + t.binary.length ≤ fw.flashEnd.toNat) :
    Leads fw p unpackb trace id
      (configUpdateAndSave (applicationItems t.binary.length t.crc) t.destinations t.difference)
      (Flashing fw p n₀ t.baseAddress t.binary) (Stored fw p n₀ t) :=
  .cons (fun _ => True) (update_stored hread hstr hend _) (fun _ _ => .inr fun _ hn => hn.stored) <|
    .cons (fun _ => True) (save_stored hread hlaws hend _) (fun _ _ => .inr fun _ hn => hn) <|
      .nil _

/-- The second part, when no complaint was among the answers. -/
theorem leads_saved (hread : ReadLaw fw.cmp) (hstr : ReadStrLaw fw.cmp)
    (hlaws : WriterLaws fw p Programs)
    (hend : t.baseAddress + t.binary.length ≤ fw.flashEnd.toNat) (hid : id ∈ t.destinations)
    (hquiet : ∀ step ∈ configUpdateAndSave (applicationItems t.binary.length t.crc)
      t.destinations t.difference, step.Undisturbed (firmwareBoards fw p) trace) :
    Leads fw p unpackb trace id
      (configUpdateAndSave (applicationItems t.binary.length t.crc) t.destinations t.difference)
      (Flashing fw p n₀ t.baseAddress t.binary)
      (fun n => Flashed fw p n₀ t n ∧ n.Saved fw p) := by
  simp only [configUpdateAndSave, List.forall_mem_cons] at hquiet
  obtain ⟨hupdate, hsave, -⟩ := hquiet
  have hanswered : ∀ {step : PlanStep} {replies : List BoardReply},
      step.Served (firmwareBoards fw p) unpackb trace id replies → step.MustAnswer →
      step.Undisturbed (firmwareBoards fw p) trace → id ∈ step.call.destinations →
      ∃ a ∈ replies, True := by
    intro step replies hserved hmust hundisturbed hin
    obtain ⟨a, ha, -⟩ := hserved.answered hmust hundisturbed hin
    exact ⟨a, ha, trivial⟩
  refine .cons (fun _ => True) (update_contract hread hstr hend _)
    (fun _ hserved => .inl (hanswered hserved (.inr rfl) hupdate hid)) ?_
  exact .cons (fun _ => True) (save_contract hread hlaws hend _)
    (fun _ hserved => .inl (hanswered hserved (.inr rfl) hsave hid)) (.nil _)

end Chains

/-! ## Identifiers -/

/-- A write ends where its chunk does. -/
theorem writesFrom_le {data : List UInt8} {address : Nat} (chunks : List (List UInt8)) :
    ∀ base : Nat, FlashRequest.write data address ∈ writesFrom base chunks →
      address + data.length ≤ base + chunks.flatten.length := by
  induction chunks with
  | nil => exact fun _ h => absurd h List.not_mem_nil
  | cons chunk chunks ih =>
      intro base h
      rw [List.flatten_cons, List.length_append]
      rcases List.mem_cons.mp h with heq | h
      · rw [FlashRequest.write.injEq] at heq
        obtain ⟨rfl, rfl⟩ := heq
        omega
      · have hle := ih _ h
        omega

theorem FlashImage.write_le {data : List UInt8} {address : Nat}
    (h : FlashRequest.write data address ∈ t.requests) :
    address + data.length ≤ t.baseAddress + t.binary.length := by
  rw [FlashImage.requests, flashImage_eq] at h
  rcases List.mem_append.mp h with h | h
  · obtain ⟨offset, -, heq⟩ := List.mem_map.mp h
    cases heq
  · have hle := writesFrom_le _ _ h
    rwa [sliceIntoPages_flatten] at hle

/-- No command of the session changes the ID of a board. -/
theorem FlashImage.keepsId (hread : ReadLaw fw.cmp) (hstr : ReadStrLaw fw.cmp)
    (hwrite : WriteLaw fw.cmp) (hroom : 0 < fw.outputBufferSize)
    (hlaws : WriterLaws fw p Programs) (hfits : t.Fits fw Programs) :
    ∀ step ∈ t.plan, (firmwareBoards fw p).KeepsId step.call.command := by
  have hflash := fw.flashEnd.toNat_lt
  have hend := hfits.end_le
  simp only [FlashImage.plan, configUpdateAndSave, List.forall_mem_append, List.forall_mem_cons,
    List.forall_mem_map]
  refine ⟨fun request hrequest => ?_, ?_, ?_, by simp⟩
  · intro n n' a h
    rw [FlashImage.step_command] at h
    cases request with
    | erase address =>
        exact congrArg (fun c : BootloaderConfig => c.ID.toNat) (boardExec.erase hread h).1
    | write data address =>
        have hle := FlashImage.write_le hrequest
        cases boardExec.write hread hstr hwrite hroom (by omega) hfits.deviceClass_le (by omega) h
        all_goals rfl
  · intro n n' a h
    obtain rfl := boardExec.update hread hstr (by omega) t.crc_lt h
    rfl
  · intro n n' a h
    show n'.config.ID.toNat = n.config.ID.toNat
    rw [(boardExec.save hread hlaws h).1]

end Contracts

/-! ## Boards -/

/-- What the boards rely on: a package that behaves as documented, room for a reply, and a flash
    writer that works. -/
structure WorkingBoards {σ : Type} (fw : Firmware) (p : Platform σ)
    (Programs : UInt32 → List UInt8 → Prop) : Prop where
  read : ReadLaw fw.cmp
  readStr : ReadStrLaw fw.cmp
  write : WriteLaw fw.cmp
  room : 0 < fw.outputBufferSize
  writer : WriterLaws fw p Programs

/-! ## A session with one board -/

section OneBoard

variable {ν α : Type} {B : BoardModel ν α} {unpackb : Unpackb} {step : PlanStep}
  {plan : List PlanStep} {n m n' : ν}

def RetryEvent.isDatagram : RetryEvent → Bool
  | read (.datagram _ _ _) => true
  | _ => false

/-- A session with one board that ends without errors and without complaints. -/
def BoardSession (B : BoardModel ν α) (unpackb : Unpackb) (plan : List PlanStep) (n n' : ν) : Prop :=
  ∃ scripts trace, runPlan unpackb plan false scripts = (trace, some (.completed false)) ∧
    SessionRun B.lossy (fun _ : Unit => n) trace (fun _ => n') ∧
    ∀ c events, (c, events) ∈ trace → ∀ data dst src,
      RetryEvent.read (.datagram data dst src) ∈ events → ¬ B.Complaint data

theorem BoardSession.nil (n : ν) : BoardSession B unpackb [] n n :=
  ⟨[], [], rfl, .nil _, by simp⟩

/-- Nobody hears the events of a call. -/
theorem BusRun.of_silent {ι : Type} {command : List UInt8} {events : List RetryEvent}
    (h : events.all (fun e => !e.isDatagram) = true) :
    ∀ b : Bus ι ν, ∃ received, BusRun B.lossy command b events ⟨b.nodes, received⟩ := by
  induction events with
  | nil => exact fun b => ⟨_, .nil b⟩
  | cons e events ih =>
      intro b
      rw [List.all_cons, Bool.and_eq_true] at h
      match e with
      | .read .timeout =>
          obtain ⟨received, hrest⟩ := ih h.2 b
          exact ⟨received, .cons (.timeout trivial) hrest⟩
      | .dropped y =>
          obtain ⟨received, hrest⟩ := ih h.2 b
          exact ⟨received, .cons (.dropped b y) hrest⟩
      | .transmit boards frames =>
          obtain ⟨received, hrest⟩ := ih h.2 ⟨b.nodes, []⟩
          exact ⟨received, .cons (m := ⟨b.nodes, []⟩)
            (.transmit ⟨fun _ => none, fun _ => rfl, by simp⟩) hrest⟩

/-- A call that skips the board. -/
theorem BoardSession.lost (script : CallScript)
    (hskipped : (writeCommandRetry step.call script.cleared script.rounds).2 =
      .finished (.skipped ∅))
    (hsilent : (writeCommandRetry step.call script.cleared script.rounds).1.all
      (fun e => !e.isDatagram) = true)
    (hverdict : step.verdict unpackb ∅ = .success) (h : BoardSession B unpackb plan n n') :
    BoardSession B unpackb (step :: plan) n n' := by
  obtain ⟨scripts, trace, hrun, hbus, hquiet⟩ := h
  obtain ⟨received, hcall⟩ : ∃ received, BusRun B.lossy step.call.command ⟨fun _ : Unit => n, []⟩
      (writeCommandRetry step.call script.cleared script.rounds).1 ⟨fun _ => n, received⟩ :=
    BusRun.of_silent hsilent _
  refine ⟨script :: scripts, _ :: trace, ?_, .cons hcall hbus, ?_⟩
  · simp only [runPlan, hskipped, afterCall, hverdict, hrun]
  · intro c events hmem data dst src hread
    rcases List.mem_cons.mp hmem with heq | hmem
    · cases heq
      simpa [RetryEvent.isDatagram] using List.all_eq_true.mp hsilent _ hread
    · exact hquiet c events hmem data dst src hread

/-- A call that the board answers. -/
theorem BoardSession.answered {d : Nat} {a : α} (hdest : step.call.destinations = [d])
    (hsend : (writeCommand step.call.command [d] step.call.source).isSome = true)
    (hid : B.id n = d) (hid' : B.id m = d) (hlt : d < 128)
    (hexec : B.exec n step.call.command a m) (haccept : step.Accepts unpackb (B.bytes a))
    (hreply : ¬ B.Complaint (B.bytes a)) (h : BoardSession B unpackb plan m n') :
    BoardSession B unpackb (step :: plan) n n' := by
  obtain ⟨scripts, trace, hrun, hbus, hquiet⟩ := h
  obtain ⟨frames, hframes⟩ := Option.isSome_iff_exists.mp hsend
  have hcall : writeCommandRetry step.call [] [⟨.datagram (B.bytes a) [] d, []⟩] = _ :=
    writeCommandRetry_answered hdest hframes
  have hverdict := PlanStep.verdict_answered d haccept
  have hheard : B.lossy.Transmits step.call.command ⟨fun _ : Unit => n, []⟩ [d] frames
      ⟨fun _ => m, [(d, B.bytes a)]⟩ := by
    refine ⟨fun _ => some a, fun _ => ⟨by simp [hid], hexec⟩, ?_⟩
    intro x hx
    obtain rfl := List.mem_singleton.mp hx
    exact ⟨(), by simp [hid', Nat.mod_eq_of_lt hlt], .inl ⟨a, rfl, rfl⟩⟩
  refine ⟨⟨[], [⟨.datagram (B.bytes a) [] d, []⟩]⟩ :: scripts,
    (step.call, [.transmit [d] frames, .read (.datagram (B.bytes a) [] d)]) :: trace, ?_,
    .cons (BusRun.answered hheard (List.mem_singleton_self _)) hbus, ?_⟩
  · simp only [runPlan, hcall, afterCall, hverdict, hrun]
  · intro c events hmem data dst src hread
    rcases List.mem_cons.mp hmem with heq | hmem
    · cases heq
      simp only [List.mem_cons, reduceCtorEq, RetryEvent.read.injEq, Yield.datagram.injEq,
        List.not_mem_nil, or_false, false_or] at hread
      rw [hread.1]
      exact hreply
    · exact hquiet c events hmem data dst src hread

end OneBoard

/-- Two bytes for board 1. -/
def twoBytes : FlashImage where
  binary := [1, 2]
  baseAddress := 0x08010000
  deviceClass := nucleoFirmware.platformDeviceClass
  destinations := [1]
  pageSize := 2048
  difference := listedDifference

/-- The Nucleo board, erased, with the default configuration. -/
def erasedBoard : Board FlashWorld := ⟨blankConfig, erasedFlash⟩

/-- `unpackb` on numbers; it raises on anything else. -/
def Unpackb.numbers : Unpackb where
  result bytes := (unpackNumber bytes).elim .raised .number
  result_number h := by rw [h]; rfl

theorem twoBytes_requests :
    twoBytes.requests = [.erase 0x08010000, .write [1, 2] 0x08010000] := by
  rw [FlashImage.requests, flashImage_eq, sliceIntoPages, if_neg (by decide)]
  rfl

theorem twoBytes_fits : twoBytes.Fits nucleoFirmware
    (Mcu.stm32f4 nucleoBoardStm32f446reFlash).Programs where
  deviceClass_le := by decide
  end_le := by decide
  programs data address h := by
    rw [twoBytes_requests] at h
    obtain ⟨rfl, rfl⟩ : data = [1, 2] ∧ address = 0x08010000 := by simpa using h
    exact .inl ((writeMarkable_iff le_rfl 0x08010000 2 7 4 rfl (by decide) (by decide) (by decide)
      (by decide)).mpr (.inl rfl))

/-- The flash memory of the Nucleo board. -/
def nucleoPlatform : Platform FlashWorld := (Mcu.stm32f4 nucleoBoardStm32f446reFlash).platform

theorem nucleo_works : WorkingBoards nucleoFirmware nucleoPlatform
    (Mcu.stm32f4 nucleoBoardStm32f446reFlash).Programs where
  read := Cmp.reference_read
  readStr := Cmp.reference_readStr
  write := Cmp.reference_write
  room := by decide
  writer := Mcu.writerLaws rfl nucleo_layout

/-- Six timeouts. -/
def lostScript : CallScript := ⟨[], List.replicate 6 ⟨.timeout, []⟩⟩

theorem lostScript_skipped :
    (writeCommandRetry (twoBytes.step (.erase 0x08010000)).call [] lostScript.rounds).2 =
      .finished (.skipped ∅) := rfl

theorem lostScript_silent :
    (writeCommandRetry (twoBytes.step (.erase 0x08010000)).call [] lostScript.rounds).1.all
      (fun e => !e.isDatagram) = true := by
  decide +kernel

/-- A session with this board: the erase is lost, the other requests are answered. -/
theorem twoBytes_session : ∃ n', BoardSession (firmwareBoards nucleoFirmware nucleoPlatform)
    Unpackb.numbers twoBytes.plan erasedBoard n' := by
  have h := nucleo_works
  obtain ⟨a₁, n₁, hwrite⟩ := exists_write (p := nucleoPlatform) h.read 0x08010000 [1, 2]
    nucleoFirmware.platformDeviceClass erasedBoard
  obtain ⟨a₂, n₂, hupdate⟩ := exists_update h.read (applicationItems 2 twoBytes.crc) n₁
  obtain ⟨a₃, n₃, hsave⟩ := exists_save h.read n₂
  have hboard : ForBoard nucleoFirmware erasedBoard.config 0x08010000
      nucleoFirmware.platformDeviceClass := ⟨by decide, by decide, by decide⟩
  obtain ⟨hbytes₁, hconfig₁⟩ : a₁.bytes = Msgpack.bool true ∧ n₁.config = blankConfig := by
    cases hwrite.write h.read h.readStr h.write h.room (by decide) (by decide) (by decide) with
    | refused code hcode hbytes hcalls hwhy =>
        exact absurd (erasedFlash_read _ _) (hwhy hboard).2
    | accepted => exact ⟨rfl, rfl⟩
  have hn₂ := hupdate.update h.read h.readStr (by decide) twoBytes.crc_lt
  have hbytes₂ := hupdate.update_bytes h.read h.write h.room
  obtain ⟨b, hbytes₃⟩ := hsave.save_bytes h.read h.write h.room
  obtain ⟨hconfig₃, -⟩ := hsave.save h.read h.writer
  have hid₁ : n₁.config.ID = 1 := by
    rw [hconfig₁]
    rfl
  have hid₂ : n₂.config.ID = 1 := by
    rw [hn₂, BootloaderConfig.withApplication]
    exact hid₁
  have hid₃ : n₃.config.ID = 1 := by
    rw [hconfig₃]
    exact hid₂
  refine ⟨n₃, ?_⟩
  rw [FlashImage.plan, twoBytes_requests, List.map_cons, List.map_cons, List.map_nil,
    configUpdateAndSave, List.cons_append, List.cons_append, List.nil_append]
  have hcomplaint : ∀ {a : BoardReply} {b : Bool}, a.bytes = Msgpack.bool b →
      ¬ (firmwareBoards nucleoFirmware nucleoPlatform).Complaint a.bytes := by
    intro a b ha
    rw [ha]
    cases b <;> rintro (h | h) <;> cases h
  refine .lost lostScript lostScript_skipped lostScript_silent (by decide) ?_
  refine .answered (d := 1) rfl (by decide +kernel) rfl (congrArg UInt8.toNat hid₁) (by decide)
    hwrite (fun _ => ?_) (hcomplaint hbytes₁) ?_
  · show Unpackb.numbers.result a₁.bytes = _
    rw [hbytes₁]
    decide
  refine .answered (d := 1) rfl ?_ (congrArg UInt8.toNat hid₁) (congrArg UInt8.toNat hid₂)
    (by decide) hupdate (fun h => absurd rfl h) (hcomplaint hbytes₂) ?_
  · decide +kernel
  exact .answered (d := 1) rfl (by decide +kernel) (congrArg UInt8.toNat hid₂)
    (congrArg UInt8.toNat hid₃) (by decide) hsave (fun h => absurd rfl h)
    (hcomplaint hbytes₃) (.nil _)

/-! ## Sessions -/

section Sessions

variable {ι σ : Type} {fw : Firmware} {p : Platform σ} {Programs : UInt32 → List UInt8 → Prop}
  {unpackb : Unpackb} {t : FlashImage} {nodes nodes' : ι → Board σ} {scripts : List CallScript}
  {trace : SessionTrace}

/-- Every board follows the plan of a session without errors. -/
theorem flash_image_follows (h : WorkingBoards fw p Programs) (hfits : t.Fits fw Programs)
    (hids : ∀ i, (nodes i).config.ID.toNat < 128)
    (hinj : Function.Injective fun i => (nodes i).config.ID)
    (hrun : runPlan unpackb t.plan false scripts = (trace, some (.completed false)))
    (hbus : SessionRun (firmwareBoards fw p).lossy nodes trace nodes') (i : ι) :
    Follows (firmwareBoards fw p) unpackb trace t.plan (nodes i) (nodes' i) := by
  refine plan_refines ?_ (t.keepsId h.read h.readStr h.write h.room h.writer hfits) hids ?_ hrun
    hbus i
  · rintro data (rfl | rfl)
    · exact not_success_code unpackb (show (2 : UInt64) ≠ 1 by decide)
    · exact not_success_code unpackb (show (6 : UInt64) ≠ 1 by decide)
  · intro i j h
    exact hinj (UInt8.toNat_inj.mp h)

/-- No step of the session is for other boards. -/
theorem FlashImage.plan_destinations (t : FlashImage) :
    ∀ step ∈ t.plan, step.call.destinations = t.destinations := by
  simp only [FlashImage.plan, configUpdateAndSave, List.forall_mem_append, List.forall_mem_cons,
    List.forall_mem_map, FlashImage.step_destinations, List.not_mem_nil, false_imp_iff,
    implies_true, and_self]

/-- A destination that follows the plan has stored the image. -/
theorem Follows.stored (h : WorkingBoards fw p Programs) (hfits : t.Fits fw Programs)
    {n n' : Board σ} (hid : n.config.ID.toNat ∈ t.destinations)
    (hfollows : Follows (firmwareBoards fw p) unpackb trace t.plan n n') :
    Stored fw p n t n' := by
  have hleads : Leads fw p unpackb trace n.config.ID.toNat t.plan
      (Flashing fw p n t.baseAddress []) (Stored fw p n t) :=
    (leads_requests h.read h.readStr h.write h.room h.writer hfits hid).append
      (leads_stored h.read h.readStr h.writer hfits.end_le)
  exact hleads.follows hfollows (.refl _ _)

/-- It has saved the configuration too, if no complaint was among the answers. -/
theorem Follows.flashed (h : WorkingBoards fw p Programs) (hfits : t.Fits fw Programs)
    (hquiet : ∀ step ∈ t.plan, step.Undisturbed (firmwareBoards fw p) trace)
    {n n' : Board σ} (hid : n.config.ID.toNat ∈ t.destinations)
    (hfollows : Follows (firmwareBoards fw p) unpackb trace t.plan n n') :
    Flashed fw p n t n' ∧ n'.Saved fw p := by
  have hleads : Leads fw p unpackb trace n.config.ID.toNat t.plan
      (Flashing fw p n t.baseAddress [])
      (fun n' => Flashed fw p n t n' ∧ n'.Saved fw p) :=
    (leads_requests h.read h.readStr h.write h.room h.writer hfits hid).append
      (leads_saved h.read h.readStr h.writer hfits.end_le hid fun step hstep =>
        hquiet step (List.mem_append_right _ hstep))
  exact hleads.follows hfollows (.refl _ _)

/-- Another board has not changed. -/
theorem Follows.other {n n' : Board σ} (hid : n.config.ID.toNat ∉ t.destinations)
    (hfollows : Follows (firmwareBoards fw p) unpackb trace t.plan n n') : n' = n :=
  hfollows.untouched fun step hstep => by rwa [t.plan_destinations step hstep]

/-- What a reset makes of a board that has saved the configuration of its image. -/
theorem Flashed.boots (hread : ReadLaw fw.cmp) (hstr : ReadStrLaw fw.cmp)
    (hwrite : WriteLaw fw.cmp) (hmap : WriteMapLaw fw.cmp) (hcrc : CrcIsZlib fw.crc32)
    (hsize : 512 ≤ fw.configPageSize) {n₀ n : Board σ} (h : Flashed fw p n₀ t n)
    (hsaved : n.Saved fw p) (hbase : t.baseAddress = fw.app.toNat)
    (hend : t.baseAddress + t.binary.length ≤ fw.flashEnd.toNat) (hstorable : Storable n₀.config)
    (hcommit : ConfigKey.ofString? n₀.config.bootloaderCommit = none) (l : Locals) :
    let config := bootConfig fw (p.mem n.world) l
    SameStored config n.config ∧ config.ID = n₀.config.ID ∧
      jumpArgument fw (p.mem n.world) config = bootArgStartApplication := by
  intro config
  have hflash := fw.flashEnd.toNat_lt
  obtain ⟨count, hconfig⟩ := h.config
  have hsame : SameStored config n.config := by
    refine hsaved.bootConfig hread hstr hwrite hmap ?_ ?_ hsize l
    · rw [hconfig]
      exact ⟨hstorable.1, hstorable.2, hstorable.3, hstorable.4⟩
    · rw [hconfig]
      exact hcommit
  have hfields := hsame
  rw [hconfig] at hfields
  obtain ⟨hid, -, -, hsum, hsize', -⟩ := hfields
  refine ⟨hsame, hid, ?_⟩
  have hlen : config.applicationSize.toNat = t.binary.length := by
    rw [hsize']
    exact UInt32.toNat_ofNat_of_lt' (show t.binary.length < 2 ^ 32 by omega)
  have hholds := h.holds
  rw [hbase, UInt32.ofNat_toNat] at hholds
  have hsum' : config.applicationCrc = Zlib.crc32 t.binary := hsum.trans UInt32.ofNat_toNat
  rw [jumpArgument, hlen, hholds, hcrc, hsum', if_pos rfl]

/-- A session that ends without errors has stored the image on all its destinations, with their
    bootloaders as before, and has not changed any other board. It does not matter which requests
    and which replies were lost, and what was sent by boards that received a part of them. -/
theorem flash_image_stores (fw : Firmware) (p : Platform σ)
    (Programs : UInt32 → List UInt8 → Prop) (h : WorkingBoards fw p Programs) (unpackb : Unpackb)
    (t : FlashImage) (hfits : t.Fits fw Programs) (nodes nodes' : ι → Board σ)
    (hids : ∀ i, (nodes i).config.ID.toNat < 128)
    (hinj : Function.Injective fun i => (nodes i).config.ID) (scripts : List CallScript)
    (trace : SessionTrace)
    (hrun : runPlan unpackb t.plan false scripts = (trace, some (.completed false)))
    (hbus : SessionRun (firmwareBoards fw p).lossy nodes trace nodes') (i : ι) :
    ((nodes i).config.ID.toNat ∈ t.destinations → Stored fw p (nodes i) t (nodes' i)) ∧
      ((nodes i).config.ID.toNat ∉ t.destinations → nodes' i = nodes i) := by
  have hfollows := flash_image_follows h hfits hids hinj hrun hbus i
  exact ⟨fun hid => hfollows.stored h hfits hid, fun hid => hfollows.other hid⟩

/-- Board 1 takes the two bytes. -/
theorem flash_image_stores_two : ∃ scripts trace n',
    runPlan Unpackb.numbers twoBytes.plan false scripts = (trace, some (.completed false)) ∧
    SessionRun (firmwareBoards nucleoFirmware nucleoPlatform).lossy (fun _ : Unit => erasedBoard)
      trace (fun _ => n') ∧
    Stored nucleoFirmware nucleoPlatform erasedBoard twoBytes n' := by
  obtain ⟨n', scripts, trace, hrun, hbus, -⟩ := twoBytes_session
  have hstores := flash_image_stores nucleoFirmware nucleoPlatform _ nucleo_works Unpackb.numbers
    twoBytes twoBytes_fits (fun _ : Unit => erasedBoard) (fun _ => n') (fun _ => by decide)
    (fun _ _ _ => rfl) scripts trace hrun hbus ()
  exact ⟨scripts, trace, n', hrun, hbus, hstores.1 (by decide)⟩

/-- A session that ends without errors, with no error code among the answers to the update and the
    save, has stored the configuration of the image on each destination, which keeps its ID. From
    the next reset on the board starts the image. -/
theorem flash_image_boots (fw : Firmware) (p : Platform σ)
    (Programs : UInt32 → List UInt8 → Prop) (h : WorkingBoards fw p Programs)
    (hmap : WriteMapLaw fw.cmp) (hcrc : CrcIsZlib fw.crc32) (hsize : 512 ≤ fw.configPageSize)
    (unpackb : Unpackb) (t : FlashImage) (hfits : t.Fits fw Programs)
    (hbase : t.baseAddress = fw.app.toNat) (nodes nodes' : ι → Board σ)
    (hids : ∀ i, (nodes i).config.ID.toNat < 128)
    (hinj : Function.Injective fun i => (nodes i).config.ID) (scripts : List CallScript)
    (trace : SessionTrace)
    (hrun : runPlan unpackb t.plan false scripts = (trace, some (.completed false)))
    (hbus : SessionRun (firmwareBoards fw p).lossy nodes trace nodes')
    (hquiet : ∀ step ∈ t.plan, step.Undisturbed (firmwareBoards fw p) trace) (i : ι)
    (hid : (nodes i).config.ID.toNat ∈ t.destinations) (hstorable : Storable (nodes i).config)
    (hcommit : ConfigKey.ofString? (nodes i).config.bootloaderCommit = none) (l : Locals) :
    let config := bootConfig fw (p.mem (nodes' i).world) l
    SameStored config (nodes' i).config ∧ config.ID = (nodes i).config.ID ∧
      jumpArgument fw (p.mem (nodes' i).world) config = bootArgStartApplication := by
  have hfollows := flash_image_follows h hfits hids hinj hrun hbus i
  obtain ⟨hflashed, hsaved⟩ := hfollows.flashed h hfits hquiet hid
  exact hflashed.boots h.read h.readStr h.write hmap hcrc hsize hsaved hbase hfits.end_le hstorable
    hcommit l

/-- It starts them. -/
theorem flash_image_boots_two : ∃ scripts trace n',
    runPlan Unpackb.numbers twoBytes.plan false scripts = (trace, some (.completed false)) ∧
    SessionRun (firmwareBoards nucleoFirmware nucleoPlatform).lossy (fun _ : Unit => erasedBoard)
      trace (fun _ => n') ∧
    let config := bootConfig nucleoFirmware (nucleoPlatform.mem n'.world) blankLocals
    SameStored config n'.config ∧ config.ID = 1 ∧
      jumpArgument nucleoFirmware (nucleoPlatform.mem n'.world) config =
        bootArgStartApplication := by
  obtain ⟨n', scripts, trace, hrun, hbus, hquiet⟩ := twoBytes_session
  have hboots := flash_image_boots nucleoFirmware nucleoPlatform _ nucleo_works
    Cmp.reference_writeMap (fun _ _ => rfl) (by decide) Unpackb.numbers twoBytes twoBytes_fits rfl
    (fun _ : Unit => erasedBoard) (fun _ => n') (fun _ => by decide) (fun _ _ _ => rfl) scripts
    trace hrun hbus (fun step _ _ events hmem => hquiet step.call events hmem) () (by decide)
    ⟨by decide, by decide, by decide, by decide⟩ (by decide) blankLocals
  exact ⟨scripts, trace, n', hrun, hbus, hboots⟩

/-- A successful write of a chunk that is not blank happens once, however often the request is
    repeated: behind it the board answers that its flash memory is not erased, looks at its memory
    only, and stays exactly as the success has left it. -/
theorem write_programs_once (fw : Firmware) (hread : ReadLaw fw.cmp) (hstr : ReadStrLaw fw.cmp)
    (hwrite : WriteLaw fw.cmp) (hroom : 0 < fw.outputBufferSize) (p : Platform σ)
    (Programs : UInt32 → List UInt8 → Prop) (hlaws : WriterLaws fw p Programs) (address : Nat)
    (data deviceClass : List UInt8) (hlen : deviceClass.length ≤ 63)
    (hend : address + data.length ≤ fw.flashEnd.toNat)
    (hprog : Programs (UInt32.ofNat address) data) (hprogrammed : ∃ b ∈ data, b ≠ 0xFF)
    (n k n' : Board σ) (a : BoardReply) (after : List BoardReply)
    (hexec : boardExec fw p n (encodeWriteFlash data address deviceClass) a k)
    (hsuccess : a.bytes = Msgpack.bool true)
    (hafter : Repeats (boardExec fw p) (encodeWriteFlash data address deviceClass) k after n') :
    n' = k ∧
    (∀ b ∈ after, b.bytes = Msgpack.uint flashWriteErrorNotErased.toNat ∧
      ∀ c ∈ b.calls, c = .memory) ∧
    (p.mem n'.world).read (UInt32.ofNat address) data.length = data := by
  have hflash := fw.flashEnd.toNat_lt
  have haddress : (UInt32.ofNat address).toNat = address :=
    UInt32.toNat_ofNat_of_lt' (show address < 2 ^ 32 by omega)
  cases hexec.write hread hstr hwrite hroom (by omega) hlen (by omega) with
  | refused code hcode hbytes =>
      have hnumber := unpackNumber_uint code
      rw [← hbytes, hsuccess] at hnumber
      have hone : (code.toNat : Int) = 1 := (Option.some.inj hnumber).symm
      omega
  | accepted hboard herased =>
      obtain ⟨hchunk, -⟩ := hlaws.write hboard.app_le (lt_flashEnd_of_app hboard.lt_end)
        (by omega) hprog herased
      obtain ⟨rfl, hrest⟩ := write_refused_again hread hstr hwrite hroom hlen (by omega) (by omega)
        hprogrammed hafter hboard hchunk
      exact ⟨rfl, hrest, hchunk⟩

/-- Two bytes, written twice. -/
theorem write_programs_once_two : ∃ a b n',
    Repeats (boardExec nucleoFirmware nucleoPlatform)
      (encodeWriteFlash [1, 2] 0x08010000 nucleoFirmware.platformDeviceClass) erasedBoard
      [a, b] n' ∧
    a.bytes = Msgpack.bool true ∧ b.bytes = Msgpack.uint flashWriteErrorNotErased.toNat ∧
      (nucleoPlatform.mem n'.world).read (UInt32.ofNat 0x08010000) 2 = [1, 2] := by
  have h := nucleo_works
  obtain ⟨a, m, ha⟩ := exists_write (p := nucleoPlatform) h.read 0x08010000 [1, 2]
    nucleoFirmware.platformDeviceClass erasedBoard
  obtain ⟨b, n', hb⟩ := exists_write (p := nucleoPlatform) h.read 0x08010000 [1, 2]
    nucleoFirmware.platformDeviceClass m
  have hsuccess : a.bytes = Msgpack.bool true := by
    cases ha.write h.read h.readStr h.write h.room (by decide) (by decide) (by decide) with
    | refused code hcode hbytes hcalls hwhy =>
        exact absurd (erasedFlash_read _ _)
          (hwhy ⟨by decide, by decide, by decide⟩).2
    | accepted => rfl
  obtain ⟨-, hafter, hchunk⟩ := write_programs_once nucleoFirmware h.read h.readStr h.write h.room
    nucleoPlatform _ h.writer 0x08010000 [1, 2] nucleoFirmware.platformDeviceClass (by decide)
    (by decide) (twoBytes_fits.programs _ _ (by rw [twoBytes_requests]; simp)) ⟨1, by decide⟩
    erasedBoard m n' a [b] ha hsuccess (.more hb (.none n'))
  exact ⟨a, b, n', .more ha (.more hb (.none n')), hsuccess, (hafter b (by simp)).1, hchunk⟩

end Sessions

end CanBootloader
