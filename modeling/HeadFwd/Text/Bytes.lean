import Mathlib.Algebra.Group.Nat.Defs
import Mathlib.Data.List.Lex
import Mathlib.Tactic.Common

/-! # Byte strings

Strings and byte slices are lists of bytes, ordered bytewise. The operations
follow the standard library functions of the same names, on every byte
sequence; text is not assumed to be valid UTF-8.
-/

namespace HeadFwd.Text

instance byteLinearOrder : LinearOrder UInt8 where
  le_refl a := UInt8.le_refl a
  le_trans _ _ _ h h' := UInt8.le_trans h h'
  le_antisymm _ _ h h' := UInt8.le_antisymm h h'
  le_total a b := UInt8.le_total a b
  lt_iff_le_not_ge a b := by simp only [UInt8.lt_iff_toNat_lt, UInt8.le_iff_toNat_le]; omega
  toDecidableLE := inferInstance

abbrev Bytes := List UInt8

instance bytesLawfulBEq : LawfulBEq Bytes := inferInstance

/-- The bytes of an ASCII literal. -/
def str (s : String) : Bytes := s.toList.map fun c => UInt8.ofNat c.toNat

/-- The byte of an ASCII character. -/
def chr (c : Char) : UInt8 := UInt8.ofNat c.toNat

def trimPrefix (s p : Bytes) : Bytes := if p.isPrefixOf s then s.drop p.length else s

/-- Whether `p` occurs in `s` as a contiguous substring. -/
def containsStr (p s : Bytes) : Bool := s.tails.any fun t => p.isPrefixOf t

def indexByte (s : Bytes) (c : UInt8) : Option ℕ := s.findIdx? fun b => b = c

def lastIndexByte (s : Bytes) (c : UInt8) : Option ℕ :=
  (indexByte s.reverse c).map fun i => s.length - 1 - i

/-- The parts of `s` between occurrences of the separator byte. -/
def splitByte (c : UInt8) : Bytes → List Bytes
  | [] => [[]]
  | b :: s =>
    if b = c then [] :: splitByte c s
    else match splitByte c s with
      | [] => [[b]]
      | p :: ps => (b :: p) :: ps

/-- Split at the first `n - 1` separators only; the last part keeps the others. -/
def splitByteN (c : UInt8) : ℕ → Bytes → List Bytes
  | 0, _ => []
  | 1, s => [s]
  | n + 2, s => match indexByte s c with
    | none => [s]
    | some i => s.take i :: splitByteN c (n + 1) (s.drop (i + 1))

/-- ASCII lower-casing of one byte. -/
def lowerByte (b : UInt8) : UInt8 := if chr 'A' ≤ b ∧ b ≤ chr 'Z' then b + 32 else b

def toLower (s : Bytes) : Bytes := s.map lowerByte

/-- The lower-case hexadecimal digit of a number below sixteen. -/
def hexDigit (n : ℕ) : UInt8 := if n < 10 then UInt8.ofNat (48 + n) else UInt8.ofNat (87 + n)

def hexVal (b : UInt8) : Option ℕ :=
  if chr '0' ≤ b ∧ b ≤ chr '9' then some (b.toNat - 48)
  else if chr 'a' ≤ b ∧ b ≤ chr 'f' then some (b.toNat - 87)
  else if chr 'A' ≤ b ∧ b ≤ chr 'F' then some (b.toNat - 55)
  else none

def encodeHex : Bytes → Bytes
  | [] => []
  | b :: s => hexDigit (b.toNat / 16) :: hexDigit (b.toNat % 16) :: encodeHex s

/-- Decode pairs of hexadecimal digits of either case; odd lengths and other
bytes are errors. -/
def decodeHex : Bytes → Option Bytes
  | [] => some []
  | [_] => none
  | a :: b :: s => do
    let hi ← hexVal a
    let lo ← hexVal b
    let t ← decodeHex s
    return UInt8.ofNat (16 * hi + lo) :: t

/-- What holds of all bytes is found out by going through them. -/
theorem forall_byte {p : UInt8 → Prop} (h : ∀ n < 256, p (UInt8.ofNat n)) (b : UInt8) : p b := by
  have hb := h b.toNat b.toNat_lt
  rwa [UInt8.ofNat_toNat] at hb

theorem hexVal_hexDigit : ∀ {n : ℕ}, n < 16 → hexVal (hexDigit n) = some n := by
  decide

theorem hexDigit_lt : ∀ {n : ℕ}, n < 16 → hexDigit n < 0x80 := by
  decide

/-- Hexadecimal text consists of digits. -/
theorem hexDigit_of_mem_encodeHex {s : Bytes} {b : UInt8} (h : b ∈ encodeHex s) :
    ∃ n < 16, b = hexDigit n := by
  induction s with
  | nil => cases h
  | cons a s ih =>
    have ha : a.toNat < 256 := a.toNat_lt
    rcases List.mem_cons.mp h with rfl | h
    · exact ⟨a.toNat / 16, by omega, rfl⟩
    · rcases List.mem_cons.mp h with rfl | h
      · exact ⟨a.toNat % 16, by omega, rfl⟩
      · exact ih h

/-- Hexadecimal text is ASCII. -/
theorem lt_of_mem_encodeHex {s : Bytes} {b : UInt8} (h : b ∈ encodeHex s) : b < 0x80 := by
  obtain ⟨n, hn, rfl⟩ := hexDigit_of_mem_encodeHex h
  exact hexDigit_lt hn

@[simp] theorem length_encodeHex (s : Bytes) : (encodeHex s).length = 2 * s.length := by
  induction s with
  | nil => rfl
  | cons b s ih => simp only [encodeHex, List.length_cons, ih]; omega

@[simp] theorem decodeHex_encodeHex (s : Bytes) : decodeHex (encodeHex s) = some s := by
  induction s with
  | nil => rfl
  | cons b s ih =>
    have hb : b.toNat < 256 := b.toNat_lt
    rw [encodeHex, decodeHex, hexVal_hexDigit (by omega), hexVal_hexDigit (by omega), ih]
    simp only [Option.bind_eq_bind, Option.bind_some, Nat.div_add_mod, UInt8.ofNat_toNat]
    rfl

/-- Two digits make a byte. -/
theorem length_of_decodeHex {s t : Bytes} (h : decodeHex s = some t) : s.length = 2 * t.length := by
  induction s using decodeHex.induct generalizing t with
  | case1 =>
    cases h
    rfl
  | case2 b => cases h
  | case3 a b s ih =>
    simp only [decodeHex, Option.bind_eq_bind, Option.bind_eq_some_iff] at h
    obtain ⟨hi, -, lo, -, u, hu, h⟩ := h
    cases h
    rw [List.length_cons, List.length_cons, List.length_cons, ih hu]
    omega

theorem encodeHex_injective : Function.Injective encodeHex := by
  intro s t h
  have h' : decodeHex (encodeHex s) = decodeHex (encodeHex t) := by rw [h]
  simpa using h'

end HeadFwd.Text
