import Mathlib.Logic.Function.Basic
import Mathlib.Tactic.Common

/-! # Tables

Maps with finitely many observable changes: a lookup function together with
the updates at one key. What a lookup returns after an update is decided by
comparing the keys.
-/

namespace HeadFwd.Transition

/-- A map from keys to values. -/
abbrev Table (κ α : Type*) := κ → Option α

namespace Table

variable {κ α : Type*} [DecidableEq κ] {t : Table κ α} {k k' : κ} {v v' : α}

def empty : Table κ α := fun _ => none

def set (t : Table κ α) (k : κ) (v : α) : Table κ α := Function.update t k (some v)

def erase (t : Table κ α) (k : κ) : Table κ α := Function.update t k none

@[simp] theorem set_self : t.set k v k = some v := Function.update_self ..

@[simp] theorem erase_self : t.erase k k = none := Function.update_self ..

theorem set_of_ne (h : k' ≠ k) : t.set k v k' = t k' := Function.update_of_ne h ..

theorem erase_of_ne (h : k' ≠ k) : t.erase k k' = t k' := Function.update_of_ne h ..

/-- A change at one key keeps an entry if that key holds something else. -/
theorem set_frame (h : t k' = some v') (hk : t k ≠ some v') : t.set k v k' = some v' := by
  rw [set_of_ne, h]
  rintro rfl
  exact hk h

theorem erase_frame (h : t k' = some v') (hk : t k ≠ some v') : t.erase k k' = some v' := by
  rw [erase_of_ne, h]
  rintro rfl
  exact hk h

/-- An entry at a new key keeps those that were there. -/
theorem set_frame_new (h : t k' = some v') (hk : t k = none) : t.set k v k' = some v' := by
  apply set_frame h
  rw [hk]
  nofun

theorem set_eq_some_iff : t.set k v k' = some v' ↔ k' = k ∧ v = v' ∨ k' ≠ k ∧ t k' = some v' := by
  by_cases h : k' = k
  · subst h
    simp
  · simp [set_of_ne h, h]

theorem erase_eq_some_iff : t.erase k k' = some v ↔ k' ≠ k ∧ t k' = some v := by
  by_cases h : k' = k
  · subst h
    simp
  · simp [erase_of_ne h, h]

/-- A value other than the one just set was there before. -/
theorem of_set (h : t.set k v k' = some v') (hv : v ≠ v') : t k' = some v' := by
  rcases set_eq_some_iff.mp h with ⟨-, rfl⟩ | ⟨-, h⟩
  · exact absurd rfl hv
  · exact h

theorem of_erase (h : t.erase k k' = some v) : t k' = some v := (erase_eq_some_iff.mp h).2

theorem bind_set_self {β : Type*} {f : α → Option β} : (t.set k v k).bind f = f v := by
  rw [set_self, Option.bind_some]

theorem bind_set_of_ne {β : Type*} {f : α → Option β} (h : k' ≠ k) :
    (t.set k v k').bind f = (t k').bind f := by
  rw [set_of_ne h]

/-- A view of the entries after a change at one key. -/
theorem bind_set_eq_some {β : Type*} {f : α → Option β} {w : β}
    (h : (t.set k v k').bind f = some w) :
    k' = k ∧ f v = some w ∨ k' ≠ k ∧ (t k').bind f = some w := by
  by_cases hk : k' = k
  · subst hk
    rw [set_self] at h
    exact .inl ⟨rfl, h⟩
  · rw [set_of_ne hk] at h
    exact .inr ⟨hk, h⟩

end Table

end HeadFwd.Transition
