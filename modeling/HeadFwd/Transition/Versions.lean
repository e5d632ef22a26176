import Mathlib.Logic.Function.Basic
import Mathlib.Tactic.Common

/-! # Stores with stale reads

A store that keeps the successive states of every key, newest first. A read
returns the state of the key some number of changes ago, so what was once
written may be read at any later time, also after it was replaced or deleted.
-/

namespace HeadFwd.Transition

/-- The states of every key. -/
abbrev Versions (κ α : Type*) := κ → List (Option α)

namespace Versions

variable {κ α : Type*} [DecidableEq κ] {v : Versions κ α} {k k' : κ} {a b : α}

def empty : Versions κ α := fun _ => []

/-- The state of a key `age` changes ago. -/
def read (v : Versions κ α) (k : κ) (age : ℕ) : Option α := ((v k)[age]?).join

def put (v : Versions κ α) (k : κ) (a : α) : Versions κ α :=
  Function.update v k (some a :: v k)

def delete (v : Versions κ α) (k : κ) : Versions κ α := Function.update v k (none :: v k)

omit [DecidableEq κ] in
theorem mem_of_read {age : ℕ} (h : v.read k age = some a) : some a ∈ v k :=
  List.mem_of_getElem? (Option.join_eq_some_iff.mp h)

theorem mem_put : some b ∈ v.put k a k' ↔ k' = k ∧ b = a ∨ some b ∈ v k' := by
  by_cases h : k' = k
  · subst h
    simp [put]
  · simp [put, h]

theorem mem_delete : some b ∈ v.delete k k' ↔ some b ∈ v k' := by
  by_cases h : k' = k
  · subst h
    simp [delete]
  · simp [delete, h]

end Versions

end HeadFwd.Transition
