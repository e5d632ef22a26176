import Mathlib.Data.List.Infix

/-! # Length-prefixed fields

A field is preceded by a numeral of fixed width for its length. Two sequences of
fields are compared field by field, so that a prefix of an encoding with the same
number of fields is the whole of it.
-/

namespace HeadFwd.Text

variable {α : Type*}

/-- Numerals of a fixed width that tell the numbers below a bound apart. -/
structure Numeral (α : Type*) where
  encode : ℕ → List α
  width : ℕ
  bound : ℕ
  length_encode : ∀ n, (encode n).length = width
  encode_injective : ∀ m < bound, ∀ n < bound, encode m = encode n → m = n

theorem prefix_append_iff {a b s t : List α} (h : a.length = b.length) :
    a ++ s <+: b ++ t ↔ a = b ∧ s <+: t := by
  constructor
  · intro hp
    have hab : a = b :=
      (List.prefix_of_prefix_length_le ((List.prefix_append a s).trans hp) (List.prefix_append b t)
        h.le).eq_of_length h
    subst hab
    exact ⟨rfl, (List.prefix_append_right_inj a).mp hp⟩
  · rintro ⟨rfl, hp⟩
    exact (List.prefix_append_right_inj a).mpr hp

namespace Numeral

variable (N : Numeral α)

/-- A field after its length. -/
def frame (s : List α) : List α := N.encode s.length ++ s

def frames (l : List (List α)) : List α := l.flatMap N.frame

@[simp] theorem frames_nil : N.frames [] = [] := rfl

@[simp] theorem frames_cons (s : List α) (l : List (List α)) :
    N.frames (s :: l) = N.frame s ++ N.frames l := by
  simp [frames]

theorem frame_append_prefix_iff {a b s t : List α} (ha : a.length < N.bound)
    (hb : b.length < N.bound) : N.frame a ++ s <+: N.frame b ++ t ↔ a = b ∧ s <+: t := by
  have hw : (N.encode a.length).length = (N.encode b.length).length := by
    rw [N.length_encode, N.length_encode]
  rw [frame, frame, List.append_assoc, List.append_assoc, prefix_append_iff hw]
  constructor
  · rintro ⟨hn, hp⟩
    exact (prefix_append_iff (N.encode_injective _ ha _ hb hn)).mp hp
  · rintro ⟨rfl, hp⟩
    exact ⟨rfl, (prefix_append_iff rfl).mpr ⟨rfl, hp⟩⟩

/-- Encodings of equally many short fields are prefixes of each other only if the fields agree. -/
theorem frames_prefix_iff : ∀ {l l' : List (List α)}, l.length = l'.length →
    (∀ s ∈ l, s.length < N.bound) → (∀ s ∈ l', s.length < N.bound) →
      (N.frames l <+: N.frames l' ↔ l = l')
  | [], [], _, _, _ => by simp
  | a :: l, b :: l', hl, ha, hb => by
    rw [frames_cons, frames_cons, N.frame_append_prefix_iff (ha a List.mem_cons_self)
      (hb b List.mem_cons_self), frames_prefix_iff (Nat.succ.inj hl)
      (fun s hs => ha s (List.mem_cons_of_mem _ hs)) fun s hs => hb s (List.mem_cons_of_mem _ hs),
      List.cons.injEq]

end Numeral

end HeadFwd.Text
