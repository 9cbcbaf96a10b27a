/-
  The interface of the `cmp` and `cmp_mem_access` packages, which are not part of the
  repository. A reader or writer context is a buffer with a position; `Cmp` has one field for
  each function the bootloader calls, with the C signature: what it does to the context, what
  it stores through its pointers, and what it returns. No caller looks at the result of a
  `cmp_write_..`, so these are left out.

  * `ReadLaw`, `ReadStrLaw`, `ReadU32Law`, `ReadMapLaw`, `ReadStrSizeLaw`, `ReadOrFailLaw`,
    `WriteLaw`, `WriteMapLaw`, `WriteUintLaw`: the documented behaviour that results rely on.
  * `Cmp.reference`: readers and writers that behave as documented, on `Lib.Msgpack`.
-/
import CanBootloader.Lib.Bytes
import CanBootloader.Lib.Msgpack

namespace CanBootloader

open Lib

/-- A `cmp_ctx_t` for reading from memory. -/
structure CmpReader where
  buf : Store
  size : Nat
  pos : Nat

/-- A `cmp_ctx_t` for writing to memory. -/
structure CmpWriter where
  buf : Store
  size : Nat
  pos : Nat

/-- `cmp_mem_access_ro_init`. -/
def CmpReader.init (buf : Store) (size : Nat) : CmpReader := ⟨buf, size, 0⟩

/-- `cmp_mem_access_init`. -/
def CmpWriter.init (buf : Store) (size : Nat) : CmpWriter := ⟨buf, size, 0⟩

/-- The bytes not read yet. -/
def CmpReader.rest (r : CmpReader) : List UInt8 := r.buf.slice r.pos (r.size - r.pos)

/-- The context once everything but `rest` is read. -/
def CmpReader.seek (r : CmpReader) (rest : List UInt8) : CmpReader :=
  { r with pos := r.size - rest.length }

/-- Result of a `cmp_read_..(ctx, &value)`. -/
structure ReadResult (α : Type) where
  ok : Bool
  value : α
  reader : CmpReader

/-- A `cmp_read_..(ctx, &value)`, with what `value` holds before the call. -/
abbrev CmpRead (α : Type) := CmpReader → α → ReadResult α

/-- Result of `cmp_read_str(ctx, data, &size)`. -/
structure StrResult where
  ok : Bool
  data : Store
  size : UInt32
  reader : CmpReader

/-- The functions of the package. An `int32_t` is an `Int`. -/
structure Cmp where
  readUinteger : CmpRead UInt64
  readUint : CmpRead UInt32
  readU32 : CmpRead UInt32
  readUchar : CmpRead UInt8
  readInt : CmpRead Int
  readBinSize : CmpRead UInt32
  readArray : CmpRead UInt32
  readMap : CmpRead UInt32
  readStr : CmpReader → Store → UInt32 → StrResult
  writeUint : CmpWriter → UInt64 → CmpWriter
  writeU8 : CmpWriter → UInt8 → CmpWriter
  writeBool : CmpWriter → Bool → CmpWriter
  writeBin : CmpWriter → List UInt8 → CmpWriter
  writeStr : CmpWriter → List UInt8 → CmpWriter
  writeMap : CmpWriter → UInt32 → CmpWriter

/-- `cmp_read_str`: a string that leaves room for the terminator is stored with it, and `size`
    is set to its length; otherwise the result is false and the buffer is untouched. -/
structure ReadStrLaw (cmp : Cmp) : Prop where
  fits : ∀ r data size s rest, Msgpack.str? r.rest = some (s, rest) → s.length < size.toNat →
    cmp.readStr r data size = ⟨true, data.blit 0 (s ++ [0]), UInt32.ofNat s.length, r.seek rest⟩
  too_long : ∀ r data size s rest, Msgpack.str? r.rest = some (s, rest) →
    size.toNat ≤ s.length →
    (cmp.readStr r data size).ok = false ∧ (cmp.readStr r data size).data = data
  no_string : ∀ r data size, Msgpack.str? r.rest = none →
    (cmp.readStr r data size).ok = false ∧ (cmp.readStr r data size).data = data

/-- A read that succeeds on the objects of a decoder, whatever `value` holds before. -/
def Accepts {α β : Type} (read : CmpRead α) (decode : List UInt8 → Option (β × List UInt8))
    (f : β → α) : Prop :=
  ∀ r old x rest, decode r.rest = some (x, rest) → read r old = ⟨true, f x, r.seek rest⟩

/-- Each read accepts every encoding of its kind, up to the width of its type. -/
structure ReadLaw (cmp : Cmp) : Prop where
  readUinteger : Accepts cmp.readUinteger (Msgpack.uint? 8) UInt64.ofNat
  readUint : Accepts cmp.readUint (Msgpack.uint? 4) UInt32.ofNat
  readUchar : Accepts cmp.readUchar (Msgpack.uint? 1) UInt8.ofNat
  readInt : Accepts cmp.readInt Msgpack.int32? id
  readBinSize : Accepts cmp.readBinSize Msgpack.binLen? UInt32.ofNat
  readArray : Accepts cmp.readArray Msgpack.arrayLen? UInt32.ofNat
  readMap : Accepts cmp.readMap Msgpack.mapLen? UInt32.ofNat

/-- `cmp_read_u32` accepts only an object with the 32-bit unsigned marker, and leaves `value`
    alone otherwise. -/
structure ReadU32Law (cmp : Cmp) : Prop where
  marker : ∀ r old n rest, r.rest.head? = some 0xce → Msgpack.uint? 4 r.rest = some (n, rest) →
    cmp.readU32 r old = ⟨true, UInt32.ofNat n, r.seek rest⟩
  other : ∀ r old, r.rest.head? ≠ some 0xce →
    (cmp.readU32 r old).ok = false ∧ (cmp.readU32 r old).value = old

/-- `cmp_read_map` leaves `value` alone if there is no map. -/
def ReadMapLaw (cmp : Cmp) : Prop :=
  ∀ r old, Msgpack.mapLen? r.rest = none → (cmp.readMap r old).value = old

/-- What a failed `cmp_read_str` leaves in `size`: the length of a string that does not fit, whether
    or not all of it is there, else what it held. -/
structure ReadStrSizeLaw (cmp : Cmp) : Prop where
  too_long : ∀ r data size s rest, Msgpack.str? r.rest = some (s, rest) →
    size.toNat ≤ s.length → (cmp.readStr r data size).size = UInt32.ofNat s.length
  no_string : ∀ r data size, Msgpack.str? r.rest = none →
    (cmp.readStr r data size).size = size ∨ ∃ n rest, Msgpack.strLen? r.rest = some (n, rest) ∧
      size.toNat ≤ n ∧ (cmp.readStr r data size).size = UInt32.ofNat n

/-- A read that stores a value, or fails and stores none; what `value` holds before has no part in
    it. -/
def StoresOrFails {α : Type} (read : CmpRead α) : Prop :=
  ∀ r, ∃ r', (∃ x, ∀ old, read r old = ⟨true, x, r'⟩) ∨ ∀ old, read r old = ⟨false, old, r'⟩

/-- The reads of the configuration parser store all or nothing, strings with their terminator. -/
structure ReadOrFailLaw (cmp : Cmp) : Prop where
  readUint : StoresOrFails cmp.readUint
  readUchar : StoresOrFails cmp.readUchar
  readStr : ∀ r size, ∃ size' r',
    (∃ s, s.length < size.toNat ∧
      ∀ data, cmp.readStr r data size = ⟨true, data.blit 0 (s ++ [0]), size', r'⟩) ∨
      ∀ data, cmp.readStr r data size = ⟨false, data, size', r'⟩

/-- The context with more bytes written. -/
def CmpWriter.put (w : CmpWriter) (bs : List UInt8) : CmpWriter :=
  { w with buf := w.buf.blit w.pos bs, pos := w.pos + bs.length }

/-- The bytes that were written to `w` to get `w'`. -/
def CmpWriter.written (w w' : CmpWriter) : List UInt8 := w'.buf.slice w.pos (w'.pos - w.pos)

/-- What fits the buffer is written. A binary that does not fit is cut off in or behind its
    header. -/
structure WriteLaw (cmp : Cmp) : Prop where
  writeUint : ∀ w v, w.pos + (Msgpack.uint v.toNat).length ≤ w.size →
    cmp.writeUint w v = w.put (Msgpack.uint v.toNat)
  writeBool : ∀ w b, w.pos < w.size → cmp.writeBool w b = w.put (Msgpack.bool b)
  writeBin : ∀ w bs, w.pos + (Msgpack.binHeader bs.length ++ bs).length ≤ w.size →
    cmp.writeBin w bs = w.put (Msgpack.binHeader bs.length ++ bs)
  writeBin_full : ∀ w bs, w.size < w.pos + (Msgpack.binHeader bs.length ++ bs).length →
    ∃ pre, pre <+: Msgpack.binHeader bs.length ∧ cmp.writeBin w bs = w.put pre

/-- A writer that appends these bytes if they fit the buffer. -/
def Appends (write : CmpWriter → CmpWriter) (bs : List UInt8) : Prop :=
  ∀ w, w.pos + bs.length ≤ w.size → write w = w.put bs

/-- Strings, maps and single bytes are written in their standard encoding. -/
structure WriteMapLaw (cmp : Cmp) : Prop where
  writeStr : ∀ bs, Appends (cmp.writeStr · bs) (Msgpack.strHeader bs.length ++ bs)
  writeU8 : ∀ v, Appends (cmp.writeU8 · v) [0xcc, v]
  writeMap : ∀ n, Appends (cmp.writeMap · n) (Msgpack.mapHeader n.toNat)

/-- `cmp_write_uint` stores at most a marker and eight bytes. -/
def WriteUintLaw (cmp : Cmp) : Prop := ∀ w v, (cmp.writeUint w v).pos ≤ w.pos + 9

/-! ## Contexts -/

theorem StoresOrFails.reader_eq {α : Type} {read : CmpRead α} (h : StoresOrFails read)
    (r : CmpReader) (a b : α) : (read r a).reader = (read r b).reader := by
  obtain ⟨r', ⟨x, hread⟩ | hread⟩ := h r
  · rw [hread, hread]
  · rw [hread, hread]

/-- What `value` holds after the read. -/
theorem StoresOrFails.value_eq {α : Type} {read : CmpRead α} (h : StoresOrFails read)
    (r : CmpReader) (old a : α) :
    (read r old).value = if (read r a).ok then (read r a).value else old := by
  obtain ⟨r', ⟨x, hread⟩ | hread⟩ := h r
  · rw [hread, hread, if_pos rfl]
  · rw [hread, hread, if_neg (by simp)]

theorem ReadOrFailLaw.readStr_reader {cmp : Cmp} (h : ReadOrFailLaw cmp) (r : CmpReader)
    (a b : Store) (size : UInt32) :
    (cmp.readStr r a size).reader = (cmp.readStr r b size).reader := by
  obtain ⟨size', r', ⟨s, -, hread⟩ | hread⟩ := h.readStr r size
  · rw [hread, hread]
  · rw [hread, hread]

/-- Reading on behind the part that was read. -/
theorem CmpReader.rest_seek {r : CmpReader} {pre rest : List UInt8} (h : r.rest = pre ++ rest) :
    (r.seek rest).rest = rest := by
  have hlen : r.size - r.pos = pre.length + rest.length := by
    rw [← List.length_append, ← h, CmpReader.rest, Store.slice_length]
  have hpos : r.size - (r.size - rest.length) = rest.length := by omega
  rw [CmpReader.rest, hlen, ← Store.slice_append] at h
  obtain ⟨-, hrest⟩ := List.append_inj h (by rw [Store.slice_length])
  rw [CmpReader.rest, CmpReader.seek, hpos]
  by_cases hnil : rest.length = 0
  · rw [hnil, List.length_eq_zero_iff.mp hnil, Store.slice_zero]
  · rwa [show r.size - rest.length = r.pos + pre.length by omega]

/-- The bytes at the position of a reader. -/
theorem CmpReader.slice_eq_take (r : CmpReader) {n : Nat} (h : n ≤ r.rest.length) :
    r.buf.slice r.pos n = r.rest.take n := by
  rw [CmpReader.rest, Store.slice_length] at h
  rw [CmpReader.rest, Store.slice_take _ _ h]

@[simp] theorem CmpReader.rest_init (buf : Store) (size : Nat) :
    (CmpReader.init buf size).rest = buf.slice 0 size := rfl

theorem CmpWriter.put_put (w : CmpWriter) (bs cs : List UInt8) :
    (w.put bs).put cs = w.put (bs ++ cs) := by
  simp [CmpWriter.put, Store.blit_append, Nat.add_assoc]

/-- Writing one thing behind another. -/
theorem Appends.comp {f g : CmpWriter → CmpWriter} {bs cs : List UInt8} (hf : Appends f bs)
    (hg : Appends g cs) : Appends (fun w => g (f w)) (bs ++ cs) := by
  intro w h
  rw [List.length_append, ← Nat.add_assoc] at h
  have hfirst : f w = w.put bs := hf w (by omega)
  have hsecond : g (w.put bs) = (w.put bs).put cs := hg (w.put bs) h
  show g (f w) = _
  rw [hfirst, hsecond, CmpWriter.put_put]

@[simp] theorem CmpWriter.written_put (w : CmpWriter) (bs : List UInt8) :
    w.written (w.put bs) = bs := by
  simp [CmpWriter.written, CmpWriter.put, Store.slice_blit]

namespace Cmp

/-- A read that succeeds on the objects of a decoder. -/
def readWith {α β : Type} (decode : List UInt8 → Option (β × List UInt8)) (f : β → α) :
    CmpRead α :=
  fun r old =>
    match decode r.rest with
    | some (x, rest) => ⟨true, f x, r.seek rest⟩
    | none => ⟨false, old, r⟩

/-- Bytes are appended if they fit the buffer. -/
def append (w : CmpWriter) (bs : List UInt8) : CmpWriter :=
  if w.pos + bs.length ≤ w.size then
    { w with buf := w.buf.blit w.pos bs, pos := w.pos + bs.length }
  else w

/-- A header, and the data behind it if the header fits. -/
def appendBehind (w : CmpWriter) (header bs : List UInt8) : CmpWriter :=
  if w.pos + header.length ≤ w.size then append (append w header) bs else w

def readStrRef (r : CmpReader) (data : Store) (size : UInt32) : StrResult :=
  match Msgpack.str? r.rest with
  | some (s, rest) =>
      if s.length < size.toNat then
        ⟨true, data.blit 0 (s ++ [0]), UInt32.ofNat s.length, r.seek rest⟩
      else ⟨false, data, UInt32.ofNat s.length, r⟩
  | none => ⟨false, data, size, r⟩

/-- The package as documented. -/
def reference : Cmp where
  readUinteger := readWith (Msgpack.uint? 8) UInt64.ofNat
  readUint := readWith (Msgpack.uint? 4) UInt32.ofNat
  readU32 := readWith (fun bs => if bs.head? = some 0xce then Msgpack.uint? 4 bs else none)
    UInt32.ofNat
  readUchar := readWith (Msgpack.uint? 1) UInt8.ofNat
  readInt := readWith Msgpack.int32? id
  readBinSize := readWith Msgpack.binLen? UInt32.ofNat
  readArray := readWith Msgpack.arrayLen? UInt32.ofNat
  readMap := readWith Msgpack.mapLen? UInt32.ofNat
  readStr := readStrRef
  writeUint := fun w v => append w (Msgpack.uint v.toNat)
  writeU8 := fun w v => append w [0xcc, v]
  writeBool := fun w b => append w (Msgpack.bool b)
  writeBin := fun w bs => appendBehind w (Msgpack.binHeader bs.length) bs
  writeStr := fun w bs => appendBehind w (Msgpack.strHeader bs.length) bs
  writeMap := fun w n => append w (Msgpack.mapHeader n.toNat)

section ReadStr

variable {r : CmpReader} {size : UInt32} {s rest : List UInt8}

theorem readStrRef_fits (hs : Msgpack.str? r.rest = some (s, rest)) (hlt : s.length < size.toNat)
    (data : Store) :
    readStrRef r data size =
      ⟨true, data.blit 0 (s ++ [0]), UInt32.ofNat s.length, r.seek rest⟩ := by
  simp only [readStrRef, hs, if_pos hlt]

theorem readStrRef_too_long (hs : Msgpack.str? r.rest = some (s, rest))
    (hle : size.toNat ≤ s.length) (data : Store) :
    readStrRef r data size = ⟨false, data, UInt32.ofNat s.length, r⟩ := by
  simp only [readStrRef, hs, if_neg (not_lt.mpr hle)]

theorem readStrRef_no_string (hs : Msgpack.str? r.rest = none) (data : Store) :
    readStrRef r data size = ⟨false, data, size, r⟩ := by
  simp only [readStrRef, hs]

end ReadStr

theorem reference_readStr : ReadStrLaw reference where
  fits := by
    intro r data size s rest hs hlt
    exact readStrRef_fits hs hlt data
  too_long := by
    intro r data size s rest hs hle
    simp [reference, readStrRef_too_long hs hle]
  no_string := by
    intro r data size hs
    simp [reference, readStrRef_no_string hs]

theorem readWith_accepts {α β : Type} (decode : List UInt8 → Option (β × List UInt8))
    (f : β → α) : Accepts (readWith decode f) decode f := by
  intro r old x rest h
  simp [readWith, h]

theorem reference_read : ReadLaw reference where
  readUinteger := readWith_accepts _ _
  readUint := readWith_accepts _ _
  readUchar := readWith_accepts _ _
  readInt := readWith_accepts _ _
  readBinSize := readWith_accepts _ _
  readArray := readWith_accepts _ _
  readMap := readWith_accepts _ _

theorem reference_readU32 : ReadU32Law reference where
  marker := by
    intro r old n rest hmarker h
    simp [reference, readWith, hmarker, h]
  other := by
    intro r old hmarker
    simp [reference, readWith, hmarker]

theorem reference_readMap : ReadMapLaw reference := by
  intro r old h
  simp [reference, readWith, h]

theorem reference_readStrSize : ReadStrSizeLaw reference where
  too_long := by
    intro r data size s rest hs hle
    simp [reference, readStrRef_too_long hs hle]
  no_string := by
    intro r data size hs
    simp [reference, readStrRef_no_string hs]

theorem readWith_storesOrFails {α β : Type} (decode : List UInt8 → Option (β × List UInt8))
    (f : β → α) : StoresOrFails (readWith decode f) := by
  intro r
  cases hdecode : decode r.rest with
  | none => exact ⟨r, .inr fun old => by simp [readWith, hdecode]⟩
  | some y => exact ⟨r.seek y.2, .inl ⟨f y.1, fun old => by simp [readWith, hdecode]⟩⟩

theorem reference_readOrFail : ReadOrFailLaw reference where
  readUint := readWith_storesOrFails _ _
  readUchar := readWith_storesOrFails _ _
  readStr := by
    intro r size
    cases hstr : Msgpack.str? r.rest with
    | none => exact ⟨size, r, .inr (readStrRef_no_string hstr)⟩
    | some y =>
        by_cases hlen : y.1.length < size.toNat
        · exact ⟨UInt32.ofNat y.1.length, r.seek y.2,
            .inl ⟨y.1, hlen, readStrRef_fits hstr hlen⟩⟩
        · exact ⟨UInt32.ofNat y.1.length, r, .inr (readStrRef_too_long hstr (not_lt.mp hlen))⟩

theorem append_fits {w : CmpWriter} {bs : List UInt8} (h : w.pos + bs.length ≤ w.size) :
    append w bs = w.put bs := if_pos h

theorem append_full {w : CmpWriter} {bs : List UInt8} (h : w.size < w.pos + bs.length) :
    append w bs = w := if_neg (Nat.not_le.mpr h)

/-- A header and its data, if both fit. -/
theorem appendBehind_fits {w : CmpWriter} {header bs : List UInt8}
    (h : w.pos + (header ++ bs).length ≤ w.size) :
    appendBehind w header bs = w.put (header ++ bs) := by
  rw [List.length_append] at h
  have hheader : w.pos + header.length ≤ w.size := by omega
  rw [appendBehind, if_pos hheader, append_fits hheader,
    append_fits (by simp only [CmpWriter.put]; omega), CmpWriter.put_put]

theorem reference_write : WriteLaw reference where
  writeUint := by
    intro w v h
    exact append_fits h
  writeBool := by
    intro w b h
    exact append_fits h
  writeBin := by
    intro w bs h
    exact appendBehind_fits h
  writeBin_full := by
    intro w bs h
    rw [List.length_append] at h
    change ∃ pre, pre <+: _ ∧ appendBehind w (Msgpack.binHeader bs.length) bs = w.put pre
    by_cases hheader : w.pos + (Msgpack.binHeader bs.length).length ≤ w.size
    · refine ⟨_, List.prefix_refl _, ?_⟩
      rw [appendBehind, if_pos hheader, append_fits hheader,
        append_full (by simp only [CmpWriter.put]; omega)]
    · exact ⟨[], List.nil_prefix, if_neg hheader⟩

theorem reference_writeMap : WriteMapLaw reference where
  writeStr := fun _ _ h => appendBehind_fits h
  writeU8 := fun _ _ h => append_fits h
  writeMap := fun _ _ h => append_fits h

theorem append_pos_le (w : CmpWriter) (bs : List UInt8) :
    (append w bs).pos ≤ w.pos + bs.length := by
  unfold append
  split_ifs
  · exact le_refl _
  · omega

theorem reference_writeUint : WriteUintLaw reference := by
  intro w v
  have h1 := append_pos_le w (Msgpack.uint v.toNat)
  have h2 := Msgpack.uint_length_le v.toNat
  exact le_trans h1 (by omega)

end Cmp

end CanBootloader
