import Mathlib.Logic.Basic
import Mathlib.Tactic.Common

/-! # Machines with partial labelled steps

A machine takes a step when its step function accepts the action in the
current state. `Reach G` restricts the runs to those whose every step meets a
condition on the action and the state before it; `exec` runs a list of
actions and `trace` lists what its steps show. Invariants pass along runs. A
timed machine stamps every action with the instant at which it happens.
-/

namespace HeadFwd.Transition

/-- Initial states and a partial step function over labelled actions. -/
structure Machine (σ α : Type*) where
  init : σ → Prop
  step : σ → α → Option σ

namespace Machine

variable {σ α : Type*} {M : Machine σ α}

/-- States reached by runs all of whose steps meet the condition `G`. -/
inductive Reach (M : Machine σ α) (G : σ → α → Prop) : σ → Prop where
  | init {s : σ} : M.init s → Reach M G s
  | step {s s' : σ} {a : α} : Reach M G s → G s a → M.step s a = some s' → Reach M G s'

/-- States reached by arbitrary runs. -/
abbrev Reachable (M : Machine σ α) : σ → Prop := M.Reach fun _ _ => True

/-- An initial property preserved by the steps that meet `G` holds of every state
reached; the step may use that the state before it was reached. -/
theorem Reach.invariant {G : σ → α → Prop} {P : σ → Prop} (h₀ : ∀ s, M.init s → P s)
    (hs : ∀ s a s', M.Reach G s → G s a → M.step s a = some s' → P s → P s') {s : σ}
    (hr : M.Reach G s) : P s := by
  induction hr with
  | init hi => exact h₀ _ hi
  | step hr hg ht ih => exact hs _ _ _ hr hg ht ih

theorem Reach.reachable {G : σ → α → Prop} {s : σ} (hr : M.Reach G s) : M.Reachable s := by
  induction hr with
  | init hi => exact .init hi
  | step _ _ ht ih => exact .step ih trivial ht

/-- Run a list of actions, failing when a step is refused. -/
def exec (M : Machine σ α) : σ → List α → Option σ
  | s, [] => some s
  | s, a :: as => (M.step s a).bind fun s' => exec M s' as

@[simp] theorem exec_nil (s : σ) : M.exec s [] = some s := rfl

@[simp] theorem exec_cons (s : σ) (a : α) (as : List α) :
    M.exec s (a :: as) = (M.step s a).bind fun s' => M.exec s' as := rfl

/-- A property that no action of the list leaves holds after a run from a state that has it. -/
theorem exec_invariant {Q : σ → Prop} {as : List α}
    (hQ : ∀ s a s', a ∈ as → M.step s a = some s' → Q s → Q s') {s s' : σ} (hs : Q s)
    (h : M.exec s as = some s') : Q s' := by
  induction as generalizing s with
  | nil => exact Option.some.inj h ▸ hs
  | cons a as ih =>
    obtain ⟨t, ht, h⟩ := Option.bind_eq_some_iff.mp h
    have hrest : ∀ s b s', b ∈ as → M.step s b = some s' → Q s → Q s' :=
      fun s b s' hb => hQ s b s' (List.mem_cons_of_mem _ hb)
    exact ih hrest (hQ s a t List.mem_cons_self ht hs) h

/-- A run of actions that meet the condition in every state. -/
theorem Reach.exec {G : σ → α → Prop} {as : List α} (hG : ∀ a ∈ as, ∀ s, G s a) {s s' : σ}
    (hr : M.Reach G s) (h : M.exec s as = some s') : M.Reach G s' :=
  exec_invariant (fun s a _ ha hs hr => .step hr (hG a ha s) hs) hr h

theorem exec_append {as bs : List α} {s s' : σ} :
    M.exec s (as ++ bs) = some s' ↔ ∃ t, M.exec s as = some t ∧ M.exec t bs = some s' := by
  induction as generalizing s with
  | nil => simp
  | cons a as ih => simp [Option.bind_eq_some_iff, ih]; tauto

/-- A property of every state visited by a list of actions, the first and the last included. -/
def Along (M : Machine σ α) (P : σ → Prop) : σ → List α → Prop
  | s, [] => P s
  | s, a :: as => P s ∧ ∀ s', M.step s a = some s' → Along M P s' as

/-- Every action of the list meets the condition in the state where it is taken. -/
def Meets (M : Machine σ α) (G : σ → α → Prop) : σ → List α → Prop
  | _, [] => True
  | s, a :: as => G s a ∧ ∀ s', M.step s a = some s' → Meets M G s' as

instance decidableMeets {G : σ → α → Prop} [∀ s a, Decidable (G s a)] :
    (s : σ) → (as : List α) → Decidable (M.Meets G s as)
  | _, [] => .isTrue trivial
  | s, a :: as =>
    match h : M.step s a with
    | none => decidable_of_iff (G s a) (by simp [Meets, h])
    | some t =>
      have : Decidable (M.Meets G t as) := decidableMeets t as
      decidable_of_iff (G s a ∧ M.Meets G t as) (by simp [Meets, h])

theorem Meets.imp {G G' : σ → α → Prop} {as : List α} {s : σ} (h : M.Meets G s as)
    (hG : ∀ s, ∀ a ∈ as, G s a → G' s a) : M.Meets G' s as := by
  induction as generalizing s with
  | nil => trivial
  | cons a as ih =>
    refine ⟨hG s a List.mem_cons_self h.1, fun s' hs => ih (h.2 s' hs) fun t b hb => ?_⟩
    exact hG t b (List.mem_cons_of_mem _ hb)

theorem meets_append {G : σ → α → Prop} {as bs : List α} {s t : σ} (h : M.exec s as = some t) :
    M.Meets G s (as ++ bs) ↔ M.Meets G s as ∧ M.Meets G t bs := by
  induction as generalizing s with
  | nil =>
    cases h
    simp [Meets]
  | cons a as ih =>
    obtain ⟨u, hu, h⟩ := Option.bind_eq_some_iff.mp h
    simp [Meets, hu, ih h, and_assoc]

/-- The condition, for each action of a list and the state in which it is taken. -/
theorem meets_iff_split {G : σ → α → Prop} {as : List α} {s : σ} :
    M.Meets G s as ↔
      ∀ front a back t, as = front ++ a :: back → M.exec s front = some t → G t a := by
  constructor
  · rintro h front a back t rfl ht
    exact ((meets_append ht).mp h).2.1
  · intro h
    induction as generalizing s with
    | nil => trivial
    | cons a as ih =>
      refine ⟨h [] a as s rfl rfl, fun t ht => ih fun front b back u he hu => ?_⟩
      apply h (a :: front) b back u
      · rw [he, List.cons_append]
      · rw [exec_cons, ht, Option.bind_some, hu]

/-- A run whose actions meet the condition where they are taken. -/
theorem Reach.meets {G : σ → α → Prop} {as : List α} {s s' : σ} (hr : M.Reach G s)
    (hm : M.Meets G s as) (h : M.exec s as = some s') : M.Reach G s' := by
  induction as generalizing s with
  | nil => exact Option.some.inj h ▸ hr
  | cons a as ih =>
    obtain ⟨t, ht, h⟩ := Option.bind_eq_some_iff.mp h
    exact ih (.step hr hm.1 ht) (hm.2 t ht) h

/-- Every step that the list of actions takes is in the relation. -/
def Steps (M : Machine σ α) (R : σ → α → σ → Prop) : σ → List α → Prop
  | _, [] => True
  | s, a :: as => ∀ s', M.step s a = some s' → R s a s' ∧ Steps M R s' as

theorem along_iff_steps {P : σ → Prop} {as : List α} {s : σ} :
    M.Along P s as ↔ P s ∧ M.Steps (fun _ _ s' => P s') s as := by
  induction as generalizing s with
  | nil => simp [Along, Steps]
  | cons a as ih => simp [Along, Steps, ih]

/-- The steps of a run are in `R` exactly when they meet `G`, provided `I` is preserved by the steps
that meet `G`, and of the steps taken from `I` these are the ones in `R`. -/
theorem steps_iff_meets {G : σ → α → Prop} {I : σ → Prop} {R : σ → α → σ → Prop}
    (hI : ∀ s a s', I s → G s a → M.step s a = some s' → I s')
    (hR : ∀ s a s', I s → M.step s a = some s' → (R s a s' ↔ G s a)) {as : List α}
    {s s' : σ} (hi : I s) (hr : M.exec s as = some s') :
    M.Steps R s as ↔ M.Meets G s as := by
  induction as generalizing s with
  | nil => exact Iff.rfl
  | cons a as ih =>
    obtain ⟨t, ht, hr⟩ := Option.bind_eq_some_iff.mp hr
    have only : ∀ {u}, M.step s a = some u → t = u := fun hu => Option.some.inj (ht.symm.trans hu)
    constructor
    · intro h
      have hg := (hR _ _ _ hi ht).mp (h t ht).1
      refine ⟨hg, fun u hu => ?_⟩
      obtain rfl := only hu
      exact (ih (hI _ _ _ hi hg ht) hr).mp (h _ ht).2
    · rintro ⟨hg, h⟩ u hu
      obtain rfl := only hu
      exact ⟨(hR _ _ _ hi ht).mpr hg, (ih (hI _ _ _ hi hg ht) hr).mpr (h _ ht)⟩

/-- A run keeps `P` throughout exactly when all its steps meet `G`, provided
`I` is preserved by the steps that meet `G`, implies `P`, and every other step taken
from `I` leaves `P`. -/
theorem along_iff_meets {G : σ → α → Prop} {I P : σ → Prop} (hP : ∀ s, I s → P s)
    (hI : ∀ s a s', I s → G s a → M.step s a = some s' → I s')
    (hB : ∀ s a s', I s → ¬ G s a → M.step s a = some s' → ¬ P s') {as : List α}
    {s s' : σ} (hi : I s) (hr : M.exec s as = some s') :
    M.Along P s as ↔ M.Meets G s as := by
  rw [along_iff_steps, and_iff_right (hP s hi)]
  refine steps_iff_meets hI (fun s a s' h hs => ⟨fun hp => ?_, fun hg => ?_⟩) hi hr
  · by_contra hg
    exact hB s a s' h hg hs hp
  · exact hP s' (hI s a s' h hg hs)

/-- A condition on the actions alone. -/
theorem meets_iff_forall {G : α → Prop} {as : List α} {s s' : σ} (hr : M.exec s as = some s') :
    M.Meets (fun _ a => G a) s as ↔ ∀ a ∈ as, G a := by
  induction as generalizing s with
  | nil => simp [Meets]
  | cons a as ih =>
    obtain ⟨t, ht, hr⟩ := Option.bind_eq_some_iff.mp hr
    simp [Meets, ht, ih hr]

/-- What an observation of the single steps shows along a list of actions, oldest first. -/
def trace {β : Type*} (M : Machine σ α) (f : σ → α → Option β) : σ → List α → List β
  | _, [] => []
  | s, a :: as =>
    match M.step s a with
    | none => []
    | some s' => (f s a).toList ++ trace M f s' as

section Trace

variable {β : Type*} {f : σ → α → Option β} {as : List α} {s s' : σ} {b : β}

theorem trace_cons {a : α} (h : M.step s a = some s') :
    M.trace f s (a :: as) = (f s a).toList ++ M.trace f s' as := by
  simp only [trace, h]

/-- What is observed in a run once is never observed again, if it then stays done. -/
theorem trace_nodup {D : σ → β → Prop} (hD : ∀ s a s' b, M.step s a = some s' → D s b → D s' b)
    (hf : ∀ s a s' b, M.step s a = some s' → f s a = some b → ¬ D s b ∧ D s' b)
    (h : M.exec s as = some s') : (M.trace f s as).Nodup ∧ ∀ b ∈ M.trace f s as, ¬ D s b := by
  induction as generalizing s with
  | nil => simp [trace]
  | cons a as ih =>
    obtain ⟨t, ht, h⟩ := Option.bind_eq_some_iff.mp h
    obtain ⟨hnd, hnot⟩ := ih h
    have rest : ∀ b ∈ M.trace f t as, ¬ D s b := fun b hb hs => hnot b hb (hD s a t b ht hs)
    rw [trace_cons ht]
    cases hb : f s a with
    | none => exact ⟨hnd, rest⟩
    | some b =>
      obtain ⟨hs, ht'⟩ := hf s a t b ht hb
      refine ⟨List.nodup_cons.mpr ⟨fun hm => hnot b hm ht', hnd⟩, fun c hc => ?_⟩
      rcases List.mem_cons.mp hc with rfl | hc
      · exact hs
      · exact rest c hc

/-- What is observed in a run leaves its mark on the state reached. -/
theorem trace_marked {I : σ → Prop} {Q : σ → β → Prop}
    (hI : ∀ s a s', I s → M.step s a = some s' → I s')
    (hQ : ∀ s a s' b, M.step s a = some s' → Q s b → Q s' b)
    (hf : ∀ s a b, I s → f s a = some b → Q s b) (hs : I s) (h : M.exec s as = some s') :
    ∀ b ∈ M.trace f s as, Q s' b := by
  induction as generalizing s with
  | nil => simp [trace]
  | cons a as ih =>
    obtain ⟨t, ht, h⟩ := Option.bind_eq_some_iff.mp h
    intro b hb
    rw [trace_cons ht] at hb
    rcases List.mem_append.mp hb with hb | hb
    · have hq := hQ s a t b ht (hf s a b hs (Option.mem_toList.mp hb))
      exact exec_invariant (Q := fun s => Q s b) (fun s a s' _ hs => hQ s a s' b hs) hq h
    · exact ih (hI s a t hs ht) h b hb

end Trace

/-- A machine whose steps read a clock. An action is stamped with the instant at which it happens,
and the clock never goes back. -/
def timed (init : σ → Prop) (step : ℕ → σ → α → Option σ) : Machine (ℕ × σ) (ℕ × α) where
  init s := init s.2
  step s a := if s.1 ≤ a.1 then (step a.1 s.2 a.2).map fun s' => (a.1, s') else none

theorem timed_step {init : σ → Prop} {step : ℕ → σ → α → Option σ} {s s' : ℕ × σ} {a : ℕ × α} :
    (timed init step).step s a = some s' ↔
      s.1 ≤ a.1 ∧ s'.1 = a.1 ∧ step a.1 s.2 a.2 = some s'.2 := by
  obtain ⟨n, t⟩ := s'
  simp only [timed]
  split_ifs with h
  · simp [h, and_comm, eq_comm]
  · simp [h]

end Machine

end HeadFwd.Transition
