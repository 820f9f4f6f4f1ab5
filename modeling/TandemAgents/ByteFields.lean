import Mathlib.Algebra.Ring.Nat
import Mathlib.Data.List.Basic
import Mathlib.Data.List.Induction

/-!
# Numbers and texts as bytes

Fixed-width big-endian numbers and hexadecimal texts, with their readers.
-/
namespace ByteFields

set_option maxRecDepth 20000

abbrev Bytes := List UInt8

/-- `n.to_bytes(width, "big")`, of a number that fits. -/
def bigEndian : Nat → Nat → Bytes
  | 0, _ => []
  | width + 1, n => bigEndian width (n / 256) ++ [UInt8.ofNat n]

/-- `int.from_bytes(data, "big")`. -/
def fromBigEndian (data : Bytes) : Nat := data.foldl (fun n b => n * 256 + b.toNat) 0

@[simp] theorem length_bigEndian (width n : Nat) : (bigEndian width n).length = width := by
  induction width generalizing n with
  | zero => rfl
  | succ width ih => simp [bigEndian, ih]

theorem fromBigEndian_snoc (data : Bytes) (b : UInt8) :
    fromBigEndian (data ++ [b]) = fromBigEndian data * 256 + b.toNat := by
  simp [fromBigEndian, List.foldl_append]

/-- A number that fits is read back. -/
theorem fromBigEndian_bigEndian {width n : Nat} (h : n < 256 ^ width) :
    fromBigEndian (bigEndian width n) = n := by
  induction width generalizing n with
  | zero =>
    have hn : n = 0 := by simpa using h
    rw [hn]
    rfl
  | succ width ih =>
    have hq : n / 256 < 256 ^ width := by
      rw [Nat.pow_succ] at h
      omega
    rw [bigEndian, fromBigEndian_snoc, ih hq, UInt8.toNat_ofNat']
    omega

/-- Bytes are what is written of the number they hold. -/
theorem bigEndian_fromBigEndian (data : Bytes) : bigEndian data.length (fromBigEndian data) = data := by
  induction data using List.reverseRecOn with
  | nil => rfl
  | append_singleton data b ih =>
    have hb := b.toNat_lt
    have hhigh : (fromBigEndian data * 256 + b.toNat) / 256 = fromBigEndian data := by omega
    have hlow : UInt8.ofNat (fromBigEndian data * 256 + b.toNat) = b := by
      refine UInt8.toNat_inj.mp ?_
      rw [UInt8.toNat_ofNat']
      omega
    rw [List.length_append, List.length_singleton, fromBigEndian_snoc, bigEndian, hhigh, hlow, ih]

/-- Numbers that fit are told apart. -/
theorem bigEndian_inj {width m n : Nat} (hm : m < 256 ^ width) (hn : n < 256 ^ width)
    (h : bigEndian width m = bigEndian width n) : m = n := by
  rw [← fromBigEndian_bigEndian hm, h, fromBigEndian_bigEndian hn]

/-! ## Hexadecimal texts -/

def hexDigit (n : Nat) : Char := if n < 10 then Char.ofNat (48 + n) else Char.ofNat (87 + n)

def hexValue (c : Char) : Option Nat :=
  if 48 ≤ c.toNat ∧ c.toNat ≤ 57 then some (c.toNat - 48)
  else if 97 ≤ c.toNat ∧ c.toNat ≤ 102 then some (c.toNat - 87)
  else if 65 ≤ c.toNat ∧ c.toNat ≤ 70 then some (c.toNat - 55)
  else none

/-- `data.hex()`. -/
def hexChars (data : Bytes) : List Char :=
  data.flatMap (fun b => [hexDigit (b.toNat / 16), hexDigit (b.toNat % 16)])

def hex (data : Bytes) : String := String.ofList (hexChars data)

def isAsciiSpace (c : Char) : Bool := (9 ≤ c.toNat && c.toNat ≤ 13) || c.toNat = 32

/-- `bytes.fromhex(text)`: white space may stand between two bytes. -/
def fromHexChars : List Char → Option Bytes
  | [] => some []
  | [c] => if isAsciiSpace c then some [] else none
  | c :: d :: cs =>
    if isAsciiSpace c then fromHexChars (d :: cs)
    else
      match hexValue c, hexValue d with
      | some high, some low => (fromHexChars cs).map (fun data => UInt8.ofNat (16 * high + low) :: data)
      | _, _ => none

def fromHex (text : String) : Option Bytes := fromHexChars text.toList

theorem hexDigit_read : ∀ n, n < 16 → hexValue (hexDigit n) = some n ∧ isAsciiSpace (hexDigit n) = false := by
  decide

theorem fromHexChars_hexChars (data : Bytes) : fromHexChars (hexChars data) = some data := by
  induction data with
  | nil => rfl
  | cons b data ih =>
    have hb := b.toNat_lt
    have hhigh := hexDigit_read (b.toNat / 16) (by omega)
    have hlow := hexDigit_read (b.toNat % 16) (by omega)
    have hsplit : 16 * (b.toNat / 16) + b.toNat % 16 = b.toNat := by omega
    have hcons : hexChars (b :: data) =
        hexDigit (b.toNat / 16) :: hexDigit (b.toNat % 16) :: hexChars data := rfl
    rw [hcons, fromHexChars, hhigh.1, hlow.1, hhigh.2, ih]
    simp [hsplit]

/-- What `hex` writes, `fromhex` reads. -/
theorem fromHex_hex (data : Bytes) : fromHex (hex data) = some data := by
  rw [fromHex, hex, String.toList_ofList]
  exact fromHexChars_hexChars data

end ByteFields
