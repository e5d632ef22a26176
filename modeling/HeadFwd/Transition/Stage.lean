import Mathlib.Data.List.Infix
import Mathlib.Tactic.Common

/-! # Stages of a pipeline

A stage passes on what comes in, in order. What it has taken in and not yet
passed on it holds. A stage that is no longer live may lose what it holds and
what still comes in; what it has passed on by then stays a first part of what
came in. Stages in a row compose. Between two stages a channel delivers what was put
into it, in order and changed by a function.
-/

namespace HeadFwd.Transition

variable {α : Type*} {live live' : Prop} {inn held held' out : List α}

/-- `out` has left the stage, `inn` has come in; while the stage is live, `held` is the rest. -/
structure Relayed (live : Prop) (inn held out : List α) : Prop where
  ordered : out <+: inn
  whole : live → out ++ held = inn

namespace Relayed

theorem nil : Relayed live ([] : List α) [] [] := ⟨List.nil_prefix, fun _ => rfl⟩

/-- A chunk comes in while nothing is held. -/
theorem take (h : Relayed live inn [] out) (hl : live' → live) (c : List α) :
    Relayed live' (inn ++ c) c out where
  ordered := h.ordered.trans (List.prefix_append inn c)
  whole hl' := by
    have hw := h.whole (hl hl')
    rw [List.append_nil] at hw
    rw [hw]

/-- A live stage passes on what it holds. -/
theorem pass (h : Relayed live inn held out) (hl : live) : Relayed live' inn [] (out ++ held) where
  ordered := by rw [h.whole hl]
  whole _ := by rw [List.append_nil, h.whole hl]

/-- A live stage passes on some of what it holds and is live no more. -/
theorem short (h : Relayed live inn held out) (hl : live) {p : List α} (hp : p <+: held)
    (hl' : ¬ live') : Relayed live' inn held' (out ++ p) where
  ordered := by
    rw [← h.whole hl]
    exact (List.prefix_append_right_inj out).mpr hp
  whole hw := absurd hw hl'

/-- A stage that is no longer live may lose what it holds, and what still comes in. -/
theorem lose (h : Relayed live inn held out) (hl' : ¬ live') (c : List α) :
    Relayed live' (inn ++ c) held' out where
  ordered := h.ordered.trans (List.prefix_append inn c)
  whole hw := absurd hw hl'

/-- Nothing moves. -/
theorem keep {inn' out' : List α} (h : Relayed live inn held out) (hl : live' → live)
    (hi : inn' = inn) (hh : held' = held) (ho : out' = out) : Relayed live' inn' held' out' := by
  subst hi hh ho
  exact ⟨h.ordered, fun hl' => h.whole (hl hl')⟩

/-- A stage that is no longer live. -/
theorem dead (h : Relayed live inn held out) (hl' : ¬ live') : Relayed live' inn held' out where
  ordered := h.ordered
  whole hw := absurd hw hl'

end Relayed

section Channel

variable {β : Type*} {f : α → β} {sent sent' : List α} {got : List β} {k : ℕ} {x : α} {y : β}

/-- `got` has come out of the channel that `sent` was put into. -/
def Conveyed (f : α → β) (sent : List α) (got : List β) : Prop := got <+: sent.map f

namespace Conveyed

theorem nil : Conveyed f sent [] := List.nil_prefix

/-- More is put into the channel. -/
theorem put (h : Conveyed f sent got) (hs : sent <+: sent') : Conveyed f sent' got :=
  List.IsPrefix.trans h (hs.map f)

/-- The next item comes out. -/
theorem next (h : Conveyed f sent got) (hx : sent[got.length]? = some x) :
    Conveyed f sent (got ++ [f x]) := by
  have hy : (sent.map f)[got.length]? = some (f x) := by rw [List.getElem?_map, hx, Option.map_some]
  obtain ⟨hlt, hget⟩ := List.getElem?_eq_some_iff.mp hy
  rw [← hget]
  exact List.concat_get_prefix h hlt

/-- An item that came out was put in at the same position. -/
theorem source (h : Conveyed f sent got) (hy : got[k]? = some y) :
    ∃ x, sent[k]? = some x ∧ f x = y := by
  obtain ⟨hlt, hget⟩ := List.getElem?_eq_some_iff.mp hy
  have hk := List.prefix_iff_getElem?.mp h k hlt
  rw [hget, List.getElem?_map] at hk
  exact Option.map_eq_some_iff.mp hk

/-- An item that was put in early enough has come out. -/
theorem target (h : Conveyed f sent got) (hk : k < got.length) (hx : sent[k]? = some x) :
    got[k]? = some (f x) := by
  obtain ⟨z, hz, hf⟩ := h.source (List.getElem?_eq_getElem hk)
  cases hx.symm.trans hz
  rw [List.getElem?_eq_getElem hk, hf]

theorem mem (h : Conveyed f sent got) (hy : y ∈ got) : ∃ x ∈ sent, f x = y := by
  obtain ⟨k, hk⟩ := List.mem_iff_getElem?.mp hy
  obtain ⟨x, hx, hf⟩ := h.source hk
  exact ⟨x, List.mem_of_getElem? hx, hf⟩

end Conveyed

end Channel

end HeadFwd.Transition
