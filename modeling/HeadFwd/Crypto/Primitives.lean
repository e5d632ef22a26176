import Mathlib.Data.Nat.Bitwise
import HeadFwd.Text.Bytes

/-! # Cryptographic primitives

SHA-256, X25519, HKDF and HMAC are uninterpreted functions. The only facts kept
about them are the ones visible in their types and the length of a digest or code. The
comparison of proofs, which both relays write out themselves, is modelled as
they compute it.
-/

namespace HeadFwd.Crypto

open Text

/-- The primitives the registration protocol is built from. `x25519` fails on a low-order point
and `hkdf` on an output length out of range. -/
structure Primitives where
  sha256 : Bytes → Bytes
  length_sha256 : ∀ m, (sha256 m).length = 32
  x25519Public : (priv : Bytes) → Bytes
  x25519 : (priv pub : Bytes) → Option Bytes
  hkdf : (secret salt info : Bytes) → (length : ℕ) → Option Bytes
  hmac : (key message : Bytes) → Bytes
  length_hmac : ∀ key message, (hmac key message).length = 32

variable {α : Type*}

/-- Fold the differences of two strings into one number, whose units have the given codes. -/
def difference (code : α → ℕ) (a b : List α) : ℕ :=
  (List.zipWith (fun x y => code x ^^^ code y) a b).foldl (· ||| ·) 0

/-- Comparison without an early exit on the contents. -/
def timingSafeEqual (code : α → ℕ) (a b : List α) : Bool :=
  if a.length ≠ b.length then false else difference code a b == 0

theorem foldl_or_eq_zero_iff (r : ℕ) (l : List ℕ) :
    l.foldl (· ||| ·) r = 0 ↔ r = 0 ∧ ∀ x ∈ l, x = 0 := by
  induction l generalizing r with
  | nil => simp
  | cons x l ih => simp [ih, Nat.or_eq_zero_iff, and_assoc]

theorem difference_eq_zero_iff {code : α → ℕ} (hc : Function.Injective code) {a b : List α}
    (hl : a.length = b.length) : difference code a b = 0 ↔ a = b := by
  simp only [difference, foldl_or_eq_zero_iff, true_and]
  induction a generalizing b with
  | nil => simp [List.length_eq_zero_iff.mp hl.symm]
  | cons x a ih =>
    obtain ⟨y, b, rfl⟩ : ∃ y b', b = y :: b' := List.exists_cons_of_length_eq_add_one hl.symm
    simp [ih (Nat.succ.inj hl), hc.eq_iff]

@[simp] theorem timingSafeEqual_iff {code : α → ℕ} (hc : Function.Injective code) (a b : List α) :
    timingSafeEqual code a b = true ↔ a = b := by
  unfold timingSafeEqual
  split_ifs with hl
  · exact iff_of_false not_false fun h => hl (congrArg _ h)
  · rw [beq_iff_eq, difference_eq_zero_iff hc (not_not.mp hl)]

end HeadFwd.Crypto
