/-
  The part of MessagePack that a command protocol needs: unsigned and signed integers,
  booleans, and the headers of strings, binaries, arrays and maps.

  A decoder takes the object at the front of a byte string and returns it with the bytes
  behind it, or `none` if the front is not a complete object of that kind. Integers are taken
  up to a width, as readers into a C type of that width do. Encoders write the shortest form, and
  a decoder gives back what its encoder was given (`uint?_uint` and its neighbours). More bytes
  behind an object do not matter (`uint?_more`). `Objects` are well-formed objects of any type.
-/
import Mathlib.Tactic

namespace CanBootloader.Lib.Msgpack

/-! ## Fields -/

/-- `w` bytes of `n`, most significant first. -/
def beBytes : Nat → Nat → List UInt8
  | 0, _ => []
  | w + 1, n => UInt8.ofNat (n / 256 ^ w) :: beBytes w n

/-- The number spelled by big-endian bytes. -/
def ofBytes (bs : List UInt8) : Nat := bs.foldl (fun n b => n * 256 + b.toNat) 0

/-- The first `n` bytes. -/
def take? (n : Nat) (bs : List UInt8) : Option (List UInt8 × List UInt8) :=
  if n ≤ bs.length then some (bs.take n, bs.drop n) else none

/-- A big-endian number of `w` bytes. -/
def number? (w : Nat) (bs : List UInt8) : Option (Nat × List UInt8) :=
  (take? w bs).map fun (x, rest) => (ofBytes x, rest)

@[simp] theorem beBytes_length (w n : Nat) : (beBytes w n).length = w := by
  induction w with
  | zero => rfl
  | succ w ih => rw [beBytes, List.length_cons, ih]

/-! ## Decoders -/

/-- An unsigned integer whose encoding has at most `w` value bytes. -/
def uint? (w : Nat) : List UInt8 → Option (Nat × List UInt8)
  | [] => none
  | b :: bs =>
      if b < 0x80 then some (b.toNat, bs)
      else if b = 0xcc ∧ 1 ≤ w then number? 1 bs
      else if b = 0xcd ∧ 2 ≤ w then number? 2 bs
      else if b = 0xce ∧ 4 ≤ w then number? 4 bs
      else if b = 0xcf ∧ 8 ≤ w then number? 8 bs
      else none

/-- Two's complement of `w` bytes. -/
def signed (w n : Nat) : Int := if n < 2 ^ (8 * w - 1) then n else n - 2 ^ (8 * w)

/-- An integer that fits 32 bits with sign. -/
def int32? : List UInt8 → Option (Int × List UInt8)
  | [] => none
  | b :: bs =>
      if b ≥ 0xe0 then some (b.toNat - 256, bs)
      else if b = 0xd0 then (number? 1 bs).map fun (n, rest) => (signed 1 n, rest)
      else if b = 0xd1 then (number? 2 bs).map fun (n, rest) => (signed 2 n, rest)
      else if b = 0xd2 then (number? 4 bs).map fun (n, rest) => (signed 4 n, rest)
      else
        match uint? 4 (b :: bs) with
        | some (n, rest) => if n < 2 ^ 31 then some ((n : Int), rest) else none
        | none => none

/-- Any integer. -/
def int? : List UInt8 → Option (Int × List UInt8)
  | [] => none
  | b :: bs =>
      if b ≥ 0xe0 then some (b.toNat - 256, bs)
      else if b = 0xd0 then (number? 1 bs).map fun (n, rest) => (signed 1 n, rest)
      else if b = 0xd1 then (number? 2 bs).map fun (n, rest) => (signed 2 n, rest)
      else if b = 0xd2 then (number? 4 bs).map fun (n, rest) => (signed 4 n, rest)
      else if b = 0xd3 then (number? 8 bs).map fun (n, rest) => (signed 8 n, rest)
      else (uint? 8 (b :: bs)).map fun (n, rest) => ((n : Int), rest)

/-- The length in a string header. -/
def strLen? : List UInt8 → Option (Nat × List UInt8)
  | [] => none
  | b :: bs =>
      if 0xa0 ≤ b ∧ b ≤ 0xbf then some (b.toNat - 0xa0, bs)
      else if b = 0xd9 then number? 1 bs
      else if b = 0xda then number? 2 bs
      else if b = 0xdb then number? 4 bs
      else none

/-- A whole string. -/
def str? (bs : List UInt8) : Option (List UInt8 × List UInt8) := do
  let (n, rest) ← strLen? bs
  take? n rest

/-- The length in the header of a binary. -/
def binLen? : List UInt8 → Option (Nat × List UInt8)
  | [] => none
  | b :: bs =>
      if b = 0xc4 then number? 1 bs
      else if b = 0xc5 then number? 2 bs
      else if b = 0xc6 then number? 4 bs
      else none

/-- The number of elements in the header of an array. -/
def arrayLen? : List UInt8 → Option (Nat × List UInt8)
  | [] => none
  | b :: bs =>
      if 0x90 ≤ b ∧ b ≤ 0x9f then some (b.toNat - 0x90, bs)
      else if b = 0xdc then number? 2 bs
      else if b = 0xdd then number? 4 bs
      else none

/-- The number of pairs in the header of a map. -/
def mapLen? : List UInt8 → Option (Nat × List UInt8)
  | [] => none
  | b :: bs =>
      if 0x80 ≤ b ∧ b ≤ 0x8f then some (b.toNat - 0x80, bs)
      else if b = 0xde then number? 2 bs
      else if b = 0xdf then number? 4 bs
      else none

/-! ## Encoders -/

def uint (n : Nat) : List UInt8 :=
  if n < 0x80 then [UInt8.ofNat n]
  else if n < 2 ^ 8 then 0xcc :: beBytes 1 n
  else if n < 2 ^ 16 then 0xcd :: beBytes 2 n
  else if n < 2 ^ 32 then 0xce :: beBytes 4 n
  else 0xcf :: beBytes 8 n

def bool (b : Bool) : List UInt8 := [if b then 0xc3 else 0xc2]

def strHeader (n : Nat) : List UInt8 :=
  if n < 32 then [UInt8.ofNat (0xa0 + n)]
  else if n < 2 ^ 8 then 0xd9 :: beBytes 1 n
  else if n < 2 ^ 16 then 0xda :: beBytes 2 n
  else 0xdb :: beBytes 4 n

def binHeader (n : Nat) : List UInt8 :=
  if n < 2 ^ 8 then 0xc4 :: beBytes 1 n
  else if n < 2 ^ 16 then 0xc5 :: beBytes 2 n
  else 0xc6 :: beBytes 4 n

def arrayHeader (n : Nat) : List UInt8 :=
  if n < 16 then [UInt8.ofNat (0x90 + n)]
  else if n < 2 ^ 16 then 0xdc :: beBytes 2 n
  else 0xdd :: beBytes 4 n

def mapHeader (n : Nat) : List UInt8 :=
  if n < 16 then [UInt8.ofNat (0x80 + n)]
  else if n < 2 ^ 16 then 0xde :: beBytes 2 n
  else 0xdf :: beBytes 4 n

/-- An integer takes at most its marker and 8 bytes. -/
theorem uint_length_le (n : Nat) : (uint n).length ≤ 9 := by
  unfold uint
  split_ifs <;> simp

theorem uint_length_le_of_lt {n : Nat} (h : n < 2 ^ 32) : (uint n).length ≤ 5 := by
  unfold uint
  split_ifs <;> simp

theorem strHeader_length_le {n : Nat} (h : n < 2 ^ 8) : (strHeader n).length ≤ 2 := by
  unfold strHeader
  split_ifs <;> simp

theorem binHeader_length_le (n : Nat) : (binHeader n).length ≤ 5 := by
  unfold binHeader
  split_ifs <;> simp

/-! ## Decoding what was encoded -/

theorem foldl_beBytes (w n acc : Nat) :
    (beBytes w n).foldl (fun n b => n * 256 + b.toNat) acc = acc * 256 ^ w + n % 256 ^ w := by
  induction w generalizing acc with
  | zero => simp [beBytes, Nat.mod_one]
  | succ w ih =>
      have hmod : n % 256 ^ (w + 1) = n % 256 ^ w + 256 ^ w * (n / 256 ^ w % 256) := Nat.mod_pow_succ
      rw [beBytes, List.foldl_cons, ih, UInt8.toNat_ofNat', hmod]
      ring

theorem take?_append (bs rest : List UInt8) : take? bs.length (bs ++ rest) = some (bs, rest) := by
  simp [take?]

theorem number?_beBytes {w n : Nat} (h : n < 256 ^ w) (rest : List UInt8) :
    number? w (beBytes w n ++ rest) = some (n, rest) := by
  have htake := take?_append (beBytes w n) rest
  rw [beBytes_length] at htake
  simp [number?, htake, ofBytes, foldl_beBytes, Nat.mod_eq_of_lt h]

/-- A length inside the range of one-byte markers. -/
theorem marker_range (lo hi n : Nat) (hn : lo + n ≤ hi) (hhi : hi < 256) :
    UInt8.ofNat lo ≤ UInt8.ofNat (lo + n) ∧ UInt8.ofNat (lo + n) ≤ UInt8.ofNat hi := by
  simp only [UInt8.le_iff_toNat_le, UInt8.toNat_ofNat']
  omega

/-- `UInt8.toNat_ofNat_of_lt'`, with its bound as a number. -/
theorem toNat_ofNat_of_lt {n : Nat} (hn : n < 256) : (UInt8.ofNat n).toNat = n :=
  UInt8.toNat_ofNat_of_lt' hn

/-- An unsigned integer that fits the width of the reader. -/
theorem uint?_uint {w n : Nat} (hw : w = 1 ∨ w = 2 ∨ w = 4 ∨ w = 8) (h : n < 256 ^ w)
    (rest : List UInt8) : uint? w (uint n ++ rest) = some (n, rest) := by
  unfold uint
  split_ifs with h7 h8 h16 h32
  · have hlt : UInt8.ofNat n < 0x80 :=
      (UInt8.ofNat_lt_iff_lt (show n < 256 by omega) (by decide)).mpr h7
    rw [List.singleton_append, uint?, if_pos hlt, toNat_ofNat_of_lt (by omega)]
  · have hw1 : 1 ≤ w := by omega
    simp [uint?, hw1, number?_beBytes (w := 1) h8]
  · have hw2 : 2 ≤ w := by
      rcases hw with rfl | rfl | rfl | rfl <;> omega
    simp [uint?, hw2, number?_beBytes (w := 2) h16]
  · have hw4 : 4 ≤ w := by
      rcases hw with rfl | rfl | rfl | rfl <;> omega
    simp [uint?, hw4, number?_beBytes (w := 4) h32]
  · have hw8 : w = 8 := by
      rcases hw with rfl | rfl | rfl | rfl <;> omega
    subst hw8
    simp [uint?, number?_beBytes (w := 8) h]

/-- The first byte of an unsigned integer. -/
theorem uint_head (n : Nat) : ∃ b bs, uint n = b :: bs ∧ (b < 0x80 ∨ 0xcc ≤ b ∧ b ≤ 0xcf) := by
  unfold uint
  split_ifs with h7
  · exact ⟨_, _, rfl, .inl ((UInt8.ofNat_lt_iff_lt (show n < 256 by omega) (by decide)).mpr h7)⟩
  · exact ⟨_, _, rfl, .inr (by decide)⟩
  · exact ⟨_, _, rfl, .inr (by decide)⟩
  · exact ⟨_, _, rfl, .inr (by decide)⟩
  · exact ⟨_, _, rfl, .inr (by decide)⟩

/-- It is not that of a signed one. -/
theorem uint_head_unsigned (n : Nat) :
    ∃ b bs, uint n = b :: bs ∧ ¬ b ≥ 0xe0 ∧ ∀ c : UInt8, 0xd0 ≤ c → b ≠ c := by
  obtain ⟨b, bs, heq, hb⟩ := uint_head n
  refine ⟨b, bs, heq, ?_, ?_⟩
  · simp only [ge_iff_le, UInt8.lt_iff_toNat_lt, UInt8.le_iff_toNat_le, UInt8.reduceToNat] at hb ⊢
    omega
  · rintro c hc rfl
    simp only [UInt8.lt_iff_toNat_lt, UInt8.le_iff_toNat_le, UInt8.reduceToNat] at hb hc
    omega

theorem int32?_uint {n : Nat} (h : n < 2 ^ 31) (rest : List UInt8) :
    int32? (uint n ++ rest) = some ((n : Int), rest) := by
  have huint := uint?_uint (w := 4) (by simp) (show n < 256 ^ 4 by omega) rest
  obtain ⟨b, bs, heq, he0, hmarker⟩ := uint_head_unsigned n
  rw [heq, List.cons_append] at huint ⊢
  simp only [int32?, he0, hmarker 0xd0 (by decide), hmarker 0xd1 (by decide),
    hmarker 0xd2 (by decide), huint, if_false, if_pos h]

theorem int?_uint {n : Nat} (h : n < 2 ^ 64) (rest : List UInt8) :
    int? (uint n ++ rest) = some ((n : Int), rest) := by
  have huint := uint?_uint (w := 8) (by simp) (show n < 256 ^ 8 by omega) rest
  obtain ⟨b, bs, heq, he0, hmarker⟩ := uint_head_unsigned n
  rw [heq, List.cons_append] at huint ⊢
  simp only [int?, he0, hmarker 0xd0 (by decide), hmarker 0xd1 (by decide),
    hmarker 0xd2 (by decide), hmarker 0xd3 (by decide), huint, if_false, Option.map_some]

/-- The decoders of headers: one byte for a short length, else a marker and a number. -/
theorem strLen?_strHeader {n : Nat} (h : n < 2 ^ 32) (rest : List UInt8) :
    strLen? (strHeader n ++ rest) = some (n, rest) := by
  unfold strHeader
  split_ifs with h5 h8 h16
  · have hrange : 0xa0 ≤ UInt8.ofNat (0xa0 + n) ∧ UInt8.ofNat (0xa0 + n) ≤ 0xbf :=
      marker_range 0xa0 0xbf n (by omega) (by decide)
    rw [List.singleton_append, strLen?, if_pos hrange, toNat_ofNat_of_lt (by omega)]
    simp
  · simp [strLen?, number?_beBytes (w := 1) h8]
  · simp [strLen?, number?_beBytes (w := 2) h16]
  · simp [strLen?, number?_beBytes (w := 4) h]

theorem str?_encode {s : List UInt8} (h : s.length < 2 ^ 32) (rest : List UInt8) :
    str? (strHeader s.length ++ (s ++ rest)) = some (s, rest) := by
  simp [str?, strLen?_strHeader h, take?_append]

theorem binLen?_binHeader {n : Nat} (h : n < 2 ^ 32) (rest : List UInt8) :
    binLen? (binHeader n ++ rest) = some (n, rest) := by
  unfold binHeader
  split_ifs with h8 h16
  · simp [binLen?, number?_beBytes (w := 1) h8]
  · simp [binLen?, number?_beBytes (w := 2) h16]
  · simp [binLen?, number?_beBytes (w := 4) h]

theorem arrayLen?_arrayHeader {n : Nat} (h : n < 2 ^ 32) (rest : List UInt8) :
    arrayLen? (arrayHeader n ++ rest) = some (n, rest) := by
  unfold arrayHeader
  split_ifs with h4 h16
  · have hrange : 0x90 ≤ UInt8.ofNat (0x90 + n) ∧ UInt8.ofNat (0x90 + n) ≤ 0x9f :=
      marker_range 0x90 0x9f n (by omega) (by decide)
    rw [List.singleton_append, arrayLen?, if_pos hrange, toNat_ofNat_of_lt (by omega)]
    simp
  · simp [arrayLen?, number?_beBytes (w := 2) h16]
  · simp [arrayLen?, number?_beBytes (w := 4) h]

example : uint? 8 (uint 0x08010000 ++ [7]) = some (0x08010000, [7]) := by decide

/-- The three forms of a map header. -/
inductive MapFormat where
  | fixmap
  | map16
  | map32
  deriving DecidableEq, Repr

/-- What a form can count to. -/
def MapFormat.limit : MapFormat → Nat
  | fixmap => 16
  | map16 => 2 ^ 16
  | map32 => 2 ^ 32

def MapFormat.header (n : Nat) : MapFormat → List UInt8
  | fixmap => [UInt8.ofNat (0x80 + n)]
  | map16 => 0xde :: beBytes 2 n
  | map32 => 0xdf :: beBytes 4 n

theorem MapFormat.limit_le (format : MapFormat) : format.limit ≤ 2 ^ 32 := by
  cases format <;> decide

theorem mapLen?_header {format : MapFormat} {n : Nat} (h : n < format.limit)
    (rest : List UInt8) : mapLen? (format.header n ++ rest) = some (n, rest) := by
  cases format with
  | fixmap =>
      change n < 16 at h
      have hrange : 0x80 ≤ UInt8.ofNat (0x80 + n) ∧ UInt8.ofNat (0x80 + n) ≤ 0x8f :=
        marker_range 0x80 0x8f n (by omega) (by decide)
      rw [MapFormat.header, List.singleton_append, mapLen?, if_pos hrange,
        toNat_ofNat_of_lt (by omega)]
      simp
  | map16 => simp [MapFormat.header, mapLen?, number?_beBytes (w := 2) h]
  | map32 => simp [MapFormat.header, mapLen?, number?_beBytes (w := 4) h]

/-! ## More bytes behind -/

section Append

variable {w n x : Nat} {bs rest : List UInt8} (t : List UInt8)

theorem take?_more {y : List UInt8} (h : take? n bs = some (y, rest)) :
    take? n (bs ++ t) = some (y, rest ++ t) := by
  unfold take? at h ⊢
  split_ifs at h with hle
  simp only [Option.some.injEq, Prod.mk.injEq] at h
  rw [if_pos (by rw [List.length_append]; omega), List.take_append_of_le_length hle,
    List.drop_append_of_le_length hle, h.1, h.2]

theorem number?_more (h : number? w bs = some (x, rest)) :
    number? w (bs ++ t) = some (x, rest ++ t) := by
  unfold number? at h ⊢
  obtain ⟨⟨y, rest'⟩, htake, heq⟩ := Option.map_eq_some_iff.mp h
  simp only [Prod.mk.injEq] at heq
  simp only [take?_more t htake, Option.map_some, heq.1, heq.2]

theorem uint?_more (h : uint? w bs = some (x, rest)) :
    uint? w (bs ++ t) = some (x, rest ++ t) := by
  cases bs with
  | nil => simp [uint?] at h
  | cons b bs =>
      rw [List.cons_append]
      rw [uint?] at h ⊢
      split_ifs at h ⊢
      · simp only [Option.some.injEq, Prod.mk.injEq] at h
        rw [h.1, h.2]
      all_goals exact number?_more t h

theorem strLen?_more (h : strLen? bs = some (x, rest)) :
    strLen? (bs ++ t) = some (x, rest ++ t) := by
  cases bs with
  | nil => simp [strLen?] at h
  | cons b bs =>
      rw [List.cons_append]
      rw [strLen?] at h ⊢
      split_ifs at h ⊢
      · simp only [Option.some.injEq, Prod.mk.injEq] at h
        rw [h.1, h.2]
      all_goals exact number?_more t h

theorem str?_more {y : List UInt8} (h : str? bs = some (y, rest)) :
    str? (bs ++ t) = some (y, rest ++ t) := by
  obtain ⟨⟨k, body⟩, hlen, htake⟩ := Option.bind_eq_some_iff.mp h
  have hlen' := strLen?_more t hlen
  exact Option.bind_eq_some_iff.mpr ⟨(k, body ++ t), hlen', take?_more t htake⟩

end Append

/-! ## The bytes behind an object -/

theorem number?_drop {w x : Nat} {bs rest : List UInt8} (h : number? w bs = some (x, rest)) :
    rest = bs.drop w := by
  obtain ⟨⟨y, rest'⟩, htake, heq⟩ := Option.map_eq_some_iff.mp h
  unfold take? at htake
  split_ifs at htake
  simp only [Option.some.injEq, Prod.mk.injEq] at htake heq
  rw [← heq.2, ← htake.2]

theorem number?_suffix {w x : Nat} {bs rest : List UInt8} (h : number? w bs = some (x, rest)) :
    rest <:+ bs := by
  rw [number?_drop h]
  exact List.drop_suffix w bs

theorem uint?_suffix {w x : Nat} {bs rest : List UInt8} (h : uint? w bs = some (x, rest)) :
    rest <:+ bs := by
  cases bs with
  | nil => simp [uint?] at h
  | cons b bs =>
      rw [uint?] at h
      split_ifs at h
      · simp only [Option.some.injEq, Prod.mk.injEq] at h
        rw [← h.2]
        exact List.suffix_cons b bs
      all_goals exact (number?_suffix h).trans (List.suffix_cons b bs)

theorem signed_suffix {w : Nat} {x : Int} {bs rest : List UInt8}
    (h : ((number? w bs).map fun (n, rest) => (signed w n, rest)) = some (x, rest)) :
    rest <:+ bs := by
  obtain ⟨⟨n, rest'⟩, hn, heq⟩ := Option.map_eq_some_iff.mp h
  obtain ⟨-, rfl⟩ := Prod.mk.inj heq
  exact number?_suffix hn

theorem int32?_suffix {x : Int} {bs rest : List UInt8} (h : int32? bs = some (x, rest)) :
    rest <:+ bs := by
  cases bs with
  | nil => simp [int32?] at h
  | cons b bs =>
      have hcons := List.suffix_cons b bs
      rw [int32?] at h
      split_ifs at h
      · simp only [Option.some.injEq, Prod.mk.injEq] at h
        rwa [← h.2]
      · exact (signed_suffix h).trans hcons
      · exact (signed_suffix h).trans hcons
      · exact (signed_suffix h).trans hcons
      · cases hu : uint? 4 (b :: bs) with
        | none => simp [hu] at h
        | some y =>
            simp only [hu] at h
            split_ifs at h
            simp only [Option.some.injEq, Prod.mk.injEq] at h
            rw [← h.2]
            exact uint?_suffix (x := y.1) hu

/-! ## Sizes -/

theorem ofBytes_lt (bs : List UInt8) : ofBytes bs < 256 ^ bs.length := by
  induction bs using List.reverseRecOn with
  | nil => simp [ofBytes]
  | append_singleton bs b ih =>
      have hb := b.toNat_lt
      rw [ofBytes, List.foldl_append, List.foldl_cons, List.foldl_nil, List.length_append,
        List.length_singleton, pow_succ]
      rw [ofBytes] at ih
      omega

theorem number?_lt {w x : Nat} {bs rest : List UInt8} (h : number? w bs = some (x, rest)) :
    x < 256 ^ w := by
  obtain ⟨⟨y, rest'⟩, htake, heq⟩ := Option.map_eq_some_iff.mp h
  unfold take? at htake
  split_ifs at htake with hle
  simp only [Option.some.injEq, Prod.mk.injEq] at htake heq
  have hlen : y.length = w := by rw [← htake.1, List.length_take, Nat.min_eq_left hle]
  rw [← heq.1, ← hlen]
  exact ofBytes_lt y

/-- A length field has at most four bytes. -/
theorem number?_lt_of_le {w x : Nat} {bs rest : List UInt8} (hw : w ≤ 4)
    (h : number? w bs = some (x, rest)) : x < 2 ^ 32 :=
  lt_of_lt_of_le (number?_lt h) (Nat.pow_le_pow_right (by decide) hw)

theorem strLen?_lt {n : Nat} {bs rest : List UInt8} (h : strLen? bs = some (n, rest)) :
    n < 2 ^ 32 := by
  cases bs with
  | nil => simp [strLen?] at h
  | cons b bs =>
      have hb := b.toNat_lt
      rw [strLen?] at h
      split_ifs at h
      · simp only [Option.some.injEq, Prod.mk.injEq] at h
        omega
      all_goals exact number?_lt_of_le (by decide) h

theorem mapLen?_lt {n : Nat} {bs rest : List UInt8} (h : mapLen? bs = some (n, rest)) :
    n < 2 ^ 32 := by
  cases bs with
  | nil => simp [mapLen?] at h
  | cons b bs =>
      have hb := b.toNat_lt
      rw [mapLen?] at h
      split_ifs at h
      · simp only [Option.some.injEq, Prod.mk.injEq] at h
        omega
      all_goals exact number?_lt_of_le (by decide) h

theorem str?_length_lt {s bs rest : List UInt8} (h : str? bs = some (s, rest)) :
    s.length < 2 ^ 32 := by
  obtain ⟨⟨n, body⟩, hlen, htake⟩ := Option.bind_eq_some_iff.mp h
  simp only [take?] at htake
  split_ifs at htake with hle
  simp only [Option.some.injEq, Prod.mk.injEq] at htake
  rw [← htake.1, List.length_take, Nat.min_eq_left hle]
  exact strLen?_lt hlen

/-! ## Whole objects -/

/-- A length of `w` bytes, and `extra` bytes more. -/
def sized? (w extra : Nat) (bs : List UInt8) : Option (Nat × Nat × List UInt8) :=
  (number? w bs).map fun (n, rest) => (n + extra, 0, rest)

/-- The marker of an object and its length field: how many bytes follow, or how many objects. -/
def head? : List UInt8 → Option (Nat × Nat × List UInt8)
  | [] => none
  | b :: bs =>
      if b < 0x80 ∨ 0xe0 ≤ b then some (0, 0, bs)
      else if b ≤ 0x8f then some (0, 2 * (b.toNat - 0x80), bs)
      else if b ≤ 0x9f then some (0, b.toNat - 0x90, bs)
      else if b ≤ 0xbf then some (b.toNat - 0xa0, 0, bs)
      else if b = 0xc0 ∨ b = 0xc2 ∨ b = 0xc3 then some (0, 0, bs)
      else if b = 0xc1 then none
      else if b = 0xc4 ∨ b = 0xd9 then sized? 1 0 bs
      else if b = 0xc5 ∨ b = 0xda then sized? 2 0 bs
      else if b = 0xc6 ∨ b = 0xdb then sized? 4 0 bs
      else if b = 0xc7 then sized? 1 1 bs
      else if b = 0xc8 then sized? 2 1 bs
      else if b = 0xc9 then sized? 4 1 bs
      else if b = 0xcc ∨ b = 0xd0 then some (1, 0, bs)
      else if b = 0xcd ∨ b = 0xd1 then some (2, 0, bs)
      else if b = 0xca ∨ b = 0xce ∨ b = 0xd2 then some (4, 0, bs)
      else if b = 0xcb ∨ b = 0xcf ∨ b = 0xd3 then some (8, 0, bs)
      else if b ≤ 0xd8 then some (2 ^ (b.toNat - 0xd4) + 1, 0, bs)
      else if b = 0xdc then (number? 2 bs).map fun (n, rest) => (0, n, rest)
      else if b = 0xdd then (number? 4 bs).map fun (n, rest) => (0, n, rest)
      else if b = 0xde then (number? 2 bs).map fun (n, rest) => (0, 2 * n, rest)
      else (number? 4 bs).map fun (n, rest) => (0, 2 * n, rest)

/-- A byte string of `n` objects, one after the other, and nothing else. -/
inductive Objects : Nat → List UInt8 → Prop where
  | nil : Objects 0 []
  | cons {n skip nested : Nat} {bs body : List UInt8} (head : head? bs = some (skip, nested, body))
      (complete : skip ≤ body.length) (rest : Objects (nested + n) (body.drop skip)) :
      Objects (n + 1) bs

/-- An object without parts ends where its bytes do. -/
theorem Objects.drop_eq_nil {bs body : List UInt8} {skip : Nat} (h : Objects 1 bs)
    (hhead : head? bs = some (skip, 0, body)) : body.drop skip = [] := by
  cases h with
  | cons head complete rest =>
      rw [hhead, Option.some.injEq, Prod.mk.injEq, Prod.mk.injEq] at head
      obtain ⟨rfl, rfl, rfl⟩ := head
      generalize List.drop _ _ = tail at rest
      cases rest with
      | nil => rfl

/-- An integer is a whole object. -/
theorem Objects.uint?_rest {w x : Nat} {bs rest : List UInt8} (h : Objects 1 bs)
    (hx : uint? w bs = some (x, rest)) : rest = [] := by
  cases bs with
  | nil => simp [uint?] at hx
  | cons b bs =>
      rw [uint?] at hx
      split_ifs at hx with hfix h8 h16 h32 h64
      · have hhead : head? (b :: bs) = some (0, 0, bs) := by rw [head?, if_pos (.inl hfix)]
        simp only [Option.some.injEq, Prod.mk.injEq] at hx
        rw [← hx.2]
        exact h.drop_eq_nil hhead
      · obtain ⟨rfl, -⟩ := h8
        rw [number?_drop hx]
        exact h.drop_eq_nil rfl
      · obtain ⟨rfl, -⟩ := h16
        rw [number?_drop hx]
        exact h.drop_eq_nil rfl
      · obtain ⟨rfl, -⟩ := h32
        rw [number?_drop hx]
        exact h.drop_eq_nil rfl
      · obtain ⟨rfl, -⟩ := h64
        rw [number?_drop hx]
        exact h.drop_eq_nil rfl

/-- The header of a string is the head of its object. -/
theorem head?_of_strLen? {x : Nat} {bs body : List UInt8} (h : strLen? bs = some (x, body)) :
    head? bs = some (x, 0, body) := by
  cases bs with
  | nil => simp [strLen?] at h
  | cons b bs =>
      rw [strLen?] at h
      split_ifs at h with hfix h8 h16 h32
      · simp only [UInt8.le_iff_toNat_le, UInt8.reduceToNat] at hfix
        have hint : ¬ (b < 0x80 ∨ 0xe0 ≤ b) := by
          simp only [UInt8.lt_iff_toNat_lt, UInt8.le_iff_toNat_le, UInt8.reduceToNat]
          omega
        have hmap : ¬ b ≤ 0x8f := by
          simp only [UInt8.le_iff_toNat_le, UInt8.reduceToNat]
          omega
        have harray : ¬ b ≤ 0x9f := by
          simp only [UInt8.le_iff_toNat_le, UInt8.reduceToNat]
          omega
        have hstr : b ≤ 0xbf := by
          simp only [UInt8.le_iff_toNat_le, UInt8.reduceToNat]
          omega
        simp only [Option.some.injEq, Prod.mk.injEq] at h
        rw [head?, if_neg hint, if_neg hmap, if_neg harray, if_pos hstr, h.1, h.2]
      · subst h8
        change sized? 1 0 bs = _
        simp [sized?, h]
      · subst h16
        change sized? 2 0 bs = _
        simp [sized?, h]
      · subst h32
        change sized? 4 0 bs = _
        simp [sized?, h]

/-- A string is a whole object. -/
theorem Objects.str?_rest {s bs rest : List UInt8} (h : Objects 1 bs)
    (hs : str? bs = some (s, rest)) : rest = [] := by
  obtain ⟨⟨k, body⟩, hlen, htake⟩ := Option.bind_eq_some_iff.mp hs
  have hdrop := h.drop_eq_nil (head?_of_strLen? hlen)
  simp only [take?] at htake
  split_ifs at htake
  simp only [Option.some.injEq, Prod.mk.injEq] at htake
  rw [← htake.2, hdrop]

/-- An object of a marker and the bytes that it announces. -/
theorem objects_one {bs body : List UInt8} (h : head? bs = some (body.length, 0, body)) :
    Objects 1 bs := by
  refine .cons h le_rfl ?_
  rw [List.drop_length]
  exact .nil

/-- What the encoders write are whole objects. -/
theorem objects_uint {n : Nat} : Objects 1 (uint n) := by
  unfold uint
  split_ifs with h7
  · have hlt : UInt8.ofNat n < 0x80 :=
      (UInt8.ofNat_lt_iff_lt (show n < 256 by omega) (by decide)).mpr h7
    exact objects_one (by rw [head?, if_pos (.inl hlt), List.length_nil])
  · exact objects_one (by rw [beBytes_length]; rfl)
  · exact objects_one (by rw [beBytes_length]; rfl)
  · exact objects_one (by rw [beBytes_length]; rfl)
  · exact objects_one (by rw [beBytes_length]; rfl)

theorem objects_str {s : List UInt8} (h : s.length < 2 ^ 32) :
    Objects 1 (strHeader s.length ++ s) :=
  objects_one (head?_of_strLen? (strLen?_strHeader h s))

end CanBootloader.Lib.Msgpack
