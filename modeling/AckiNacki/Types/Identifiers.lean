import AckiNacki.Types
import Mathlib.Order.Basic

/-!
`BlockIdentifier::from_str` and the two hex renderings of a block identifier
(`types/block_identifier.rs`), and the two orders of `BlockIndex` (`types/block_index.rs`).

A `&str` is its list of characters: `len()` and slicing count the bytes of their UTF-8 encoding.
`hex::encode`, `hex::decode_to_slice` and `tvm_types::base64_decode_to_slice` live in crates
outside the sources and are modelled from their documented behaviour.
-/

namespace AckiNacki

def strBytes (value : List Char) : List UInt8 := value.flatMap String.utf8EncodeChar

def strLen (value : List Char) : Nat := (strBytes value).length

/-- `&value[start..]`: what follows the first `start` bytes, or `none` where the slice panics
because byte `start` lies inside a character. -/
def sliceFrom : List Char → Nat → Option (List Char)
  | value, 0 => some value
  | [], _ + 1 => none
  | c :: rest, start + 1 =>
      if c.utf8Size ≤ start + 1 then sliceFrom rest (start + 1 - c.utf8Size) else none

def BlockIdentifier.ofBytes? (bytes : List UInt8) : Option BlockIdentifier :=
  if h : bytes.length = 32 then some ⟨bytes, h⟩ else none

/-! ### `hex` -/

def hexDigit (nibble : Nat) : Char :=
  if nibble < 10 then Char.ofNat (48 + nibble) else Char.ofNat (87 + nibble)

def hexEncode (bytes : List UInt8) : List Char :=
  bytes.flatMap fun byte => [hexDigit (byte.toNat / 16), hexDigit (byte.toNat % 16)]

def hexValue (byte : UInt8) : Option Nat :=
  if 48 ≤ byte.toNat ∧ byte.toNat ≤ 57 then some (byte.toNat - 48)
  else if 97 ≤ byte.toNat ∧ byte.toNat ≤ 102 then some (byte.toNat - 87)
  else if 65 ≤ byte.toNat ∧ byte.toNat ≤ 70 then some (byte.toNat - 55)
  else none

def hexDecode : List UInt8 → Option (List UInt8)
  | [] => some []
  | [_] => none
  | high :: low :: rest => do
      let highValue ← hexValue high
      let lowValue ← hexValue low
      let bytes ← hexDecode rest
      pure ((highValue * 16 + lowValue).toUInt8 :: bytes)

/-- `hex::decode_to_slice` into the 32 bytes of an identifier: a length other than 64 or a byte
that is no hex digit is an error. -/
def hexDecodeToSlice (data : List UInt8) : Option BlockIdentifier :=
  if data.length = 64 then (hexDecode data).bind BlockIdentifier.ofBytes? else none

/-! ### `base64` -/

def base64Value (byte : UInt8) : Option Nat :=
  if 65 ≤ byte.toNat ∧ byte.toNat ≤ 90 then some (byte.toNat - 65)
  else if 97 ≤ byte.toNat ∧ byte.toNat ≤ 122 then some (byte.toNat - 71)
  else if 48 ≤ byte.toNat ∧ byte.toNat ≤ 57 then some (byte.toNat + 4)
  else if byte.toNat = 43 then some 62
  else if byte.toNat = 47 then some 63
  else none

/-- Four symbols give three bytes; a last group of two or three symbols gives one or two bytes
and must leave no bit over. -/
def base64Bytes : List Nat → Option (List UInt8)
  | [] => some []
  | [_] => none
  | [a, b] => if b % 16 = 0 then some [(a * 4 + b / 16).toUInt8] else none
  | [a, b, c] =>
      if c % 4 = 0 then some [(a * 4 + b / 16).toUInt8, (b % 16 * 16 + c / 4).toUInt8]
      else none
  | a :: b :: c :: d :: rest => (base64Bytes rest).map fun bytes =>
      (a * 4 + b / 16).toUInt8 :: (b % 16 * 16 + c / 4).toUInt8 :: (c % 4 * 64 + d).toUInt8 :: bytes

/-- `base64_decode_to_slice` into the 32 bytes of an identifier, with canonical padding. -/
def base64DecodeToSlice (data : List UInt8) : Option BlockIdentifier :=
  let padding := (data.reverse.takeWhile (· = 61)).length
  if padding ≤ 2 ∧ data.length % 4 = 0 then do
    let values ← (data.take (data.length - padding)).mapM base64Value
    let bytes ← base64Bytes values
    BlockIdentifier.ofBytes? bytes
  else none

/-! ### `from_str` and the renderings -/

inductive FromStrResult
  | ok (id : BlockIdentifier)
  | err
  | panic
  deriving DecidableEq

def FromStrResult.ofDecoded : Option BlockIdentifier → FromStrResult
  | some id => .ok id
  | none => .err

def BlockIdentifier.fromStr (value : List Char) : FromStrResult :=
  match strLen value with
  | 64 => .ofDecoded (hexDecodeToSlice (strBytes value))
  | 66 =>
      match sliceFrom value 2 with
      | some rest => .ofDecoded (hexDecodeToSlice (strBytes rest))
      | none => .panic
  | 44 => .ofDecoded (base64DecodeToSlice (strBytes value))
  | _ => .err

/-- `impl Display for BlockIdentifier`, what `to_string` writes. -/
def BlockIdentifier.display (id : BlockIdentifier) : List Char := hexEncode id.bytes

/-- `impl LowerHex for BlockIdentifier`; `{:#x}` is the alternate form. -/
def BlockIdentifier.lowerHex (alternate : Bool) (id : BlockIdentifier) : List Char :=
  if alternate then '0' :: 'x' :: hexEncode id.bytes else hexEncode id.bytes

/-! ### Parsing undoes both hex renderings -/

theorem hexDigit_spec : ∀ nibble < 16,
    String.utf8EncodeChar (hexDigit nibble) = [(hexDigit nibble).toNat.toUInt8] ∧
      hexValue (hexDigit nibble).toNat.toUInt8 = some nibble := by
  decide

def hexDigitBytes (byte : UInt8) : List UInt8 :=
  [(hexDigit (byte.toNat / 16)).toNat.toUInt8, (hexDigit (byte.toNat % 16)).toNat.toUInt8]

theorem strBytes_hexEncode (bytes : List UInt8) :
    strBytes (hexEncode bytes) = bytes.flatMap hexDigitBytes := by
  induction bytes with
  | nil => rfl
  | cons byte rest ih =>
      have hbyte : byte.toNat < 256 := byte.val.isLt
      have hhigh := (hexDigit_spec (byte.toNat / 16) (by omega)).1
      have hlow := (hexDigit_spec (byte.toNat % 16) (by omega)).1
      simpa [strBytes, hexEncode, hexDigitBytes, hhigh, hlow] using ih

theorem hexDecode_hexDigitBytes (bytes : List UInt8) :
    hexDecode (bytes.flatMap hexDigitBytes) = some bytes := by
  induction bytes with
  | nil => rfl
  | cons byte rest ih =>
      have hlt : byte.toNat < 256 := byte.val.isLt
      have hhigh := (hexDigit_spec (byte.toNat / 16) (by omega)).2
      have hlow := (hexDigit_spec (byte.toNat % 16) (by omega)).2
      have hbyte : (byte.toNat / 16 * 16 + byte.toNat % 16).toUInt8 = byte := by
        rw [show byte.toNat / 16 * 16 + byte.toNat % 16 = byte.toNat by omega]
        exact UInt8.toNat.inj (UInt8.toNat_ofNat_of_lt hlt)
      show hexDecode (_ :: _ :: rest.flatMap hexDigitBytes) = _
      simp [hexDecode, hhigh, hlow, ih, hbyte]

theorem length_flatMap_hexDigitBytes (bytes : List UInt8) :
    (bytes.flatMap hexDigitBytes).length = 2 * bytes.length := by
  induction bytes with
  | nil => rfl
  | cons byte rest ih =>
      show (hexDigitBytes byte ++ rest.flatMap hexDigitBytes).length = _
      simp only [List.length_append, hexDigitBytes, List.length_cons, List.length_nil, ih]
      omega

theorem strLen_hexEncode (id : BlockIdentifier) : strLen (hexEncode id.bytes) = 64 := by
  rw [strLen, strBytes_hexEncode, length_flatMap_hexDigitBytes, id.length_eq]

theorem hexDecodeToSlice_hexEncode (id : BlockIdentifier) :
    hexDecodeToSlice (strBytes (hexEncode id.bytes)) = some id := by
  rw [hexDecodeToSlice, strBytes_hexEncode, length_flatMap_hexDigitBytes, id.length_eq, if_pos rfl,
    hexDecode_hexDigitBytes]
  simp [BlockIdentifier.ofBytes?, id.length_eq]

/-- `from_str` undoes `to_string` and `{:#x}` for every identifier. -/
theorem fromStr_display_lowerHex (id : BlockIdentifier) :
    BlockIdentifier.fromStr id.display = .ok id ∧
      BlockIdentifier.fromStr (id.lowerHex true) = .ok id := by
  have hslice : sliceFrom ('0' :: 'x' :: hexEncode id.bytes) 2 = some (hexEncode id.bytes) := by
    simp [sliceFrom, Char.utf8Size]
  have hlength : strLen ('0' :: 'x' :: hexEncode id.bytes) = 66 := by
    have h := strLen_hexEncode id
    simp only [strLen, strBytes, List.flatMap_cons, List.length_append] at h ⊢
    rw [h]
    rfl
  constructor
  · simp only [BlockIdentifier.fromStr, BlockIdentifier.display, strLen_hexEncode,
      hexDecodeToSlice_hexEncode]
    rfl
  · simp only [BlockIdentifier.fromStr, BlockIdentifier.lowerHex, if_true, hlength, hslice,
      hexDecodeToSlice_hexEncode]
    rfl

/-- A string of 66 bytes is sliced at byte 2 with no look at its first two bytes: `zz` and 64 hex
digits parse, and a first character of three bytes makes the slice panic. -/
theorem fromStr_sixty_six_bytes :
    BlockIdentifier.fromStr ('z' :: 'z' :: List.replicate 64 '0') = .ok (.ofByte 0) ∧
      BlockIdentifier.fromStr ('€' :: List.replicate 63 '0') = .panic := by
  decide

/-! ### `not_a_modulus` -/

def bigEndianValue (bytes : List UInt8) : Nat :=
  bytes.foldl (fun value byte => value * 256 + byte.toNat) 0

/-- `BlockIdentifier::not_a_modulus`: bytes `28..=31` read as a big-endian `u32`, modulo
`divider`; `none` where the remainder by zero panics. -/
def BlockIdentifier.notAModulus (id : BlockIdentifier) (divider : Nat) : Option Nat :=
  if divider = 0 then none else some (bigEndianValue (id.bytes.drop 28) % divider)

theorem bigEndianValue_append (front back : List UInt8) :
    bigEndianValue (front ++ back) =
      bigEndianValue front * 256 ^ back.length + bigEndianValue back := by
  induction back using List.reverseRecOn with
  | nil => simp [bigEndianValue]
  | append_singleton back byte ih =>
      simp only [bigEndianValue, ← List.append_assoc, List.foldl_append, List.foldl_cons,
        List.foldl_nil, List.length_append, List.length_singleton, pow_succ] at ih ⊢
      rw [ih, Nat.add_mul, Nat.mul_assoc, Nat.add_assoc]

/-- `not_a_modulus` gives the remainder of the identifier's big-endian value for every identifier
exactly when the divider divides `2^32`: for any other divider, some identifier lands in another
bucket. -/
theorem notAModulus_eq_mod_iff (divider : Nat) (hdivider : 0 < divider) :
    (∀ id : BlockIdentifier, id.notAModulus divider = some (bigEndianValue id.bytes % divider)) ↔
      divider ∣ 2 ^ 32 := by
  constructor
  · intro h
    let witness : BlockIdentifier :=
      ⟨List.replicate 27 0 ++ [1] ++ List.replicate 4 0, by simp⟩
    have hvalue : bigEndianValue witness.bytes = 2 ^ 32 := by decide
    have hlow : bigEndianValue (witness.bytes.drop 28) = 0 := by decide
    have hwitness := h witness
    simp only [BlockIdentifier.notAModulus, Nat.pos_iff_ne_zero.mp hdivider, if_false, hvalue,
      hlow, Nat.zero_mod, Option.some.injEq] at hwitness
    exact Nat.dvd_of_mod_eq_zero hwitness.symm
  · rintro ⟨k, hk⟩ ⟨bytes, hbytes⟩
    have hsplit := bigEndianValue_append (bytes.take 28) (bytes.drop 28)
    rw [List.take_append_drop, List.length_drop, hbytes] at hsplit
    simp only [BlockIdentifier.notAModulus, Nat.pos_iff_ne_zero.mp hdivider, if_false, hsplit,
      Option.some.injEq]
    rw [show (256 : Nat) ^ (32 - 28) = divider * k by rw [← hk]; decide, Nat.mul_left_comm,
      Nat.mul_add_mod]

/-- Buckets of sixteen. -/
theorem notAModulus_eq_mod_iff_sixteen :
    0 < 16 ∧ ((∀ id : BlockIdentifier, id.notAModulus 16 = some (bigEndianValue id.bytes % 16)) ↔
      16 ∣ 2 ^ 32) :=
  ⟨by decide, notAModulus_eq_mod_iff 16 (by decide)⟩

/-! ### `BlockIndex` -/

/-- Modelled from the spec: `BlockIdentifier::compare`, the lexicographic order of the bytes. -/
def compareBytes : List UInt8 → List UInt8 → Ordering
  | [], [] => .eq
  | [], _ :: _ => .lt
  | _ :: _, [] => .gt
  | a :: as, b :: bs => (compare a b).then (compareBytes as bs)

def BlockIdentifier.compare (a b : BlockIdentifier) : Ordering := compareBytes a.bytes b.bytes

structure BlockIndex where
  blockSeqNo : BlockSeqNo
  blockIdentifier : BlockIdentifier
  deriving DecidableEq

/-- `impl PartialOrd for BlockIndex`: the seq numbers alone. -/
def BlockIndex.partialCmp (a b : BlockIndex) : Option Ordering :=
  some (compare a.blockSeqNo b.blockSeqNo)

/-- `impl Ord for BlockIndex`: the seq numbers, then the identifiers. -/
def BlockIndex.cmp (a b : BlockIndex) : Ordering :=
  match compare a.blockSeqNo b.blockSeqNo with
  | .eq => BlockIdentifier.compare a.blockIdentifier b.blockIdentifier
  | ordering => ordering

theorem compare_eq_iff_of_uInt8 (a b : UInt8) : compare a b = .eq ↔ a = b := by
  simp only [compare, compareOfLessAndEq]
  split_ifs with hlt heq
  · exact ⟨nofun, fun h => absurd (h ▸ hlt) (UInt8.lt_irrefl a)⟩
  · exact ⟨fun _ => heq, fun _ => rfl⟩
  · exact ⟨nofun, fun h => absurd h heq⟩

theorem compareBytes_eq_iff : ∀ as bs : List UInt8, compareBytes as bs = .eq ↔ as = bs
  | [], [] => by simp [compareBytes]
  | [], _ :: _ => by simp [compareBytes]
  | _ :: _, [] => by simp [compareBytes]
  | a :: as, b :: bs => by
      have ih := compareBytes_eq_iff as bs
      simp only [compareBytes, List.cons.injEq, ← compare_eq_iff_of_uInt8 a b, ← ih]
      cases compare a b <;> simp [Ordering.then]

/-- The half of the two orders that agrees: `cmp` says `Equal` exactly for equal indices. -/
theorem BlockIndex.cmp_eq_iff (a b : BlockIndex) : a.cmp b = .eq ↔ a = b := by
  have hid := compareBytes_eq_iff a.blockIdentifier.bytes b.blockIdentifier.bytes
  have hseq : compare a.blockSeqNo b.blockSeqNo = .eq ↔ a.blockSeqNo = b.blockSeqNo :=
    compare_eq_iff_eq
  rcases a with ⟨seqNo, ⟨bytes, hbytes⟩⟩
  rcases b with ⟨seqNo', ⟨bytes', hbytes'⟩⟩
  simp only [BlockIndex.cmp, BlockIdentifier.compare] at hid hseq ⊢
  simp only [BlockIndex.mk.injEq, BlockIdentifier.mk.injEq, ← hid, ← hseq]
  cases compare seqNo seqNo' <;> simp

/-- Two sibling blocks at one seq number: `partial_cmp` finds them equal while `cmp` orders
them by identifier. -/
theorem partialCmp_ne_cmp :
    let a : BlockIndex := ⟨5, .ofByte 0⟩
    let b : BlockIndex := ⟨5, .ofByte 1⟩
    a ≠ b ∧ a.partialCmp b = some .eq ∧ a.cmp b = .lt := by
  decide

end AckiNacki
