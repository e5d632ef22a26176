import Mathlib.Data.List.Sublists
import HeadFwd.Portal.Store
import HeadFwd.Transition.Basic
import HeadFwd.Transition.Table

/-! # Bootstraps on one store

The store takes its lock for each operation, so a bootstrap releases it after
the test for an admin, lists the users of Headscale, and takes it again for
the promotion. Other calls add and remove admins in between. A bootstrap
promotes into an empty store exactly when no one was added since its test.
-/

namespace HeadFwd.Portal

open Text Transition

/-- Where a `Bootstrap` call stands: it has seen no admin, it has chosen a user, or it has
returned. -/
inductive BootstrapCall where
  | empty
  | chosen (u : User)
  | returned (error : Option Bytes)
  deriving DecidableEq, Repr

/-- One store with its file, and the calls of `Bootstrap` on it. -/
structure SharedStore where
  admins : Admins
  file : FileRead
  calls : Table ℕ BootstrapCall

/-- The operations under the lock, and the listing of the users in between. -/
inductive StoreAction where
  | add (name : Bytes) (w : WriteResult)
  | remove (name : Bytes) (w : WriteResult)
  | hasAny (b : ℕ)
  | listUsers (b : ℕ) (users : Except Bytes (List User))
  | promote (b : ℕ) (w : WriteResult)
  deriving DecidableEq

namespace SharedStore

def update (s : SharedStore) (r : Store.Result) : SharedStore :=
  { s with admins := r.admins, file := r.file }

def hasAny (s : SharedStore) (b : ℕ) : Option SharedStore :=
  match s.calls b with
  | some _ => none
  | none =>
    let call := if Store.hasAny s.admins then .returned none else .empty
    some { s with calls := s.calls.set b call }

/-- What a call does with the users that Headscale lists. -/
def afterList : Except Bytes (List User) → BootstrapCall
  | .error text => .returned (some (str "bootstrap: list users: " ++ text))
  | .ok users =>
    match Store.oldestUser users with
    | none => .returned none
    | some u => .chosen u

def listUsers (s : SharedStore) (b : ℕ) (users : Except Bytes (List User)) : Option SharedStore :=
  match s.calls b with
  | some .empty => some { s with calls := s.calls.set b (afterList users) }
  | _ => none

def promote (s : SharedStore) (b : ℕ) (w : WriteResult) : Option SharedStore :=
  match s.calls b with
  | some (.chosen u) =>
    let r := Store.add s.admins s.file u.name w
    let error := r.error.map fun text => str "bootstrap: promote " ++ u.name ++ str ": " ++ text
    some { s.update r with calls := s.calls.set b (.returned error) }
  | _ => none

def step (s : SharedStore) : StoreAction → Option SharedStore
  | .add name w => some (s.update (Store.add s.admins s.file name w))
  | .remove name w => some (s.update (Store.remove s.admins s.file name w))
  | .hasAny b => s.hasAny b
  | .listUsers b users => s.listUsers b users
  | .promote b w => s.promote b w

/-- A call of `Bootstrap` that has seen no admin and has not returned. -/
def Pending (s : SharedStore) (b : ℕ) : Prop :=
  s.calls b = some .empty ∨ ∃ u, s.calls b = some (.chosen u)

end SharedStore

/-- A store with any admins, on which no bootstrap has begun. -/
def sharedStore : Machine SharedStore StoreAction where
  init s := s.calls = .empty
  step := SharedStore.step

/-- The action puts a name among the admins. -/
def StoreAction.Adds : StoreAction → Prop
  | .add _ _ => True
  | .promote _ _ => True
  | _ => False

instance : DecidablePred StoreAction.Adds
  | .add _ _ => .isTrue trivial
  | .remove _ _ => .isFalse id
  | .hasAny _ => .isFalse id
  | .listUsers _ _ => .isFalse id
  | .promote _ _ => .isTrue trivial

/-- Nothing is added between the test of a bootstrap and its promotion. -/
def Undisturbed (as : List StoreAction) : Prop :=
  ∀ b a w, [.hasAny b, a, .promote b w].Sublist as → ¬ a.Adds

/-- A test, an addition and the promotion of the tested bootstrap. -/
def disturbs : List StoreAction → Bool
  | [.hasAny b, a, .promote c _] => b = c ∧ a.Adds
  | _ => false

theorem undisturbed_iff {as : List StoreAction} :
    Undisturbed as ↔ ∀ l ∈ as.sublists, disturbs l = false := by
  simp only [Undisturbed, List.mem_sublists]
  constructor
  · intro h l hl
    unfold disturbs
    split
    · rename_i b a c w
      by_cases hbc : b = c
      · subst hbc
        simpa using h b a w hl
      · simp [hbc]
    · rfl
  · intro h b a w hl
    simpa [disturbs] using h _ hl

instance (as : List StoreAction) : Decidable (Undisturbed as) := decidable_of_iff' _ undisturbed_iff

/-- A step that is a promotion promotes into an empty store. -/
def PromotesFirst (s : SharedStore) : StoreAction → Prop
  | .promote _ _ => s.admins = ∅
  | _ => True

instance (s : SharedStore) : DecidablePred (PromotesFirst s)
  | .add _ _ => .isTrue trivial
  | .remove _ _ => .isTrue trivial
  | .hasAny _ => .isTrue trivial
  | .listUsers _ _ => .isTrue trivial
  | .promote _ _ => inferInstanceAs (Decidable (s.admins = ∅))

namespace SharedStore

variable {s s' : SharedStore} {a : StoreAction} {b : ℕ}

/-- Only an addition puts someone into an empty store, and no step empties one. -/
theorem step_admins (h : s.step a = some s') :
    (a.Adds → s'.admins.Nonempty) ∧ (¬ a.Adds → (s'.admins = ∅ ↔ s.admins = ∅)) := by
  cases a with
  | add name w =>
    cases h
    exact ⟨fun _ => Finset.insert_nonempty _ _, fun hn => absurd trivial hn⟩
  | remove name w =>
    cases h
    refine ⟨False.elim, fun _ => ?_⟩
    simp only [update, Store.remove]
    split_ifs with hc
    · exact Iff.rfl
    · have hcard := Finset.pred_card_le_card_erase (s := s.admins) (a := name)
      have hleft : (s.admins.erase name).card ≠ 0 := by omega
      have hall : s.admins.card ≠ 0 := by omega
      exact iff_of_false (mt Finset.card_eq_zero.mpr hleft) (mt Finset.card_eq_zero.mpr hall)
  | hasAny b =>
    refine ⟨False.elim, fun _ => ?_⟩
    simp only [step, hasAny] at h
    split at h
    · cases h
    · cases h
      exact Iff.rfl
  | listUsers b users =>
    refine ⟨False.elim, fun _ => ?_⟩
    simp only [step, listUsers] at h
    split at h
    · cases h
      exact Iff.rfl
    · cases h
  | promote b w =>
    refine ⟨fun _ => ?_, fun hn => absurd trivial hn⟩
    simp only [step, promote] at h
    split at h
    · cases h
      exact Finset.insert_nonempty _ _
    · cases h

/-- A bootstrap under way was so before, or has just found the store empty. -/
theorem step_pending (h : s.step a = some s') (hb : s'.Pending b) :
    s.Pending b ∨ a = .hasAny b ∧ s'.admins = ∅ := by
  cases a with
  | add name w =>
    cases h
    exact .inl hb
  | remove name w =>
    cases h
    exact .inl hb
  | hasAny c =>
    simp only [step, hasAny] at h
    split at h
    · cases h
    · cases h
      by_cases hc : b = c
      · subst hc
        right
        by_cases hany : Store.hasAny s.admins = true
        · simp [Pending, hany] at hb
        · simpa [Store.hasAny] using hany
      · left
        simpa [Pending, Table.set_of_ne hc] using hb
  | listUsers c users =>
    simp only [step, listUsers] at h
    split at h
    · rename_i hs
      cases h
      by_cases hc : b = c
      · exact .inl (.inl (hc ▸ hs))
      · left
        simpa [Pending, Table.set_of_ne hc] using hb
    · cases h
  | promote c w =>
    simp only [step, promote] at h
    split at h
    · cases h
      by_cases hc : b = c
      · subst hc
        simp [Pending] at hb
      · left
        simpa [Pending, Table.set_of_ne hc] using hb
    · cases h

/-- Only a bootstrap under way gets to its promotion. -/
theorem pending_of_promote {w : WriteResult} (h : s.step (.promote b w) = some s') :
    s.Pending b := by
  simp only [step, promote] at h
  split at h
  · rename_i u hu
    exact .inr ⟨u, hu⟩
  · cases h

theorem nonempty_exec {as : List StoreAction} (h : sharedStore.exec s as = some s')
    (hs : s.admins.Nonempty) : s'.admins.Nonempty := by
  refine Machine.exec_invariant (Q := fun s => s.admins.Nonempty) ?_ hs h
  intro s a s' _ hstep hne
  by_cases ha : a.Adds
  · exact (step_admins hstep).1 ha
  · exact Finset.nonempty_iff_ne_empty.mpr
      (mt ((step_admins hstep).2 ha).mp (Finset.nonempty_iff_ne_empty.mp hne))

/-- A bootstrap is under way in an empty store if no one was added since its test. -/
theorem empty_of_pending {as : List StoreAction} (h : sharedStore.exec s as = some s')
    (hb : s'.Pending b) (hs : s.Pending b → s.admins = ∅ ∧ ∀ a ∈ as, ¬ a.Adds)
    (hd : ∀ a, [.hasAny b, a].Sublist as → ¬ a.Adds) : s'.admins = ∅ := by
  induction as generalizing s with
  | nil =>
    cases h
    exact (hs hb).1
  | cons a as ih =>
    obtain ⟨t, ht, h⟩ := Option.bind_eq_some_iff.mp h
    refine ih h (fun hp => ?_) fun c hc => hd c (hc.cons a)
    rcases step_pending ht hp with hp | ⟨rfl, he⟩
    · obtain ⟨he, hn⟩ := hs hp
      have ha := hn a List.mem_cons_self
      exact ⟨((step_admins ht).2 ha).mpr he, fun c hc => hn c (List.mem_cons_of_mem a hc)⟩
    · exact ⟨he, fun c hc => hd c ((List.singleton_sublist.mpr hc).cons_cons _)⟩

end SharedStore

/-- In a run of the store every promotion by a bootstrap is into an empty store exactly when nothing
is added between the test of a bootstrap and its promotion. -/
theorem promotes_first_iff {s s' : SharedStore} {as : List StoreAction} (hi : sharedStore.init s)
    (hr : sharedStore.exec s as = some s') :
    sharedStore.Meets PromotesFirst s as ↔ Undisturbed as := by
  rw [Machine.meets_iff_split]
  constructor
  · intro h b a w hsub ha
    obtain ⟨front, back, rfl, hfront, hback⟩ :=
      List.cons_sublist_iff.mp (List.sublist_of_cons_sublist hsub)
    obtain ⟨mid, post, rfl⟩ := List.append_of_mem (List.singleton_sublist.mp hback)
    obtain ⟨pre, rest, rfl⟩ := List.append_of_mem hfront
    -- After `a` the store has an admin, and it still has one at the promotion.
    rw [← List.append_assoc] at hr h
    obtain ⟨v, hv, -⟩ := Machine.exec_append.mp hr
    have hv' := hv
    rw [List.append_assoc, List.cons_append] at hv'
    obtain ⟨t, -, ht⟩ := Machine.exec_append.mp hv'
    obtain ⟨u, hu, hrest⟩ := Option.bind_eq_some_iff.mp ht
    have hne := SharedStore.nonempty_exec hrest ((SharedStore.step_admins hu).1 ha)
    exact hne.ne_empty (h _ _ _ v rfl hv)
  · intro h front a back t he ht
    subst he
    cases a with
    | promote b w =>
      obtain ⟨u, hu, hback⟩ := Machine.exec_append.mp hr
      cases hu.symm.trans ht
      obtain ⟨v, hv, -⟩ := Option.bind_eq_some_iff.mp hback
      refine SharedStore.empty_of_pending ht (SharedStore.pending_of_promote hv) ?_ ?_
      · intro hp
        have hnone : s.calls b = none := congrFun hi b
        simp [SharedStore.Pending, hnone] at hp
      · intro c hc
        exact h b c w (hc.append (List.singleton_sublist.mpr List.mem_cons_self))
    | _ => trivial

/-- A store whose file does not exist yet. -/
def freshStore : SharedStore where
  admins := ∅
  file := .notExist
  calls := .empty

def alice : User := ⟨str "alice", str "2025-01-01T00:00:00Z"⟩

/-- Two bootstraps one after the other, between them a grant. -/
def grantedRun : List StoreAction :=
  [.hasAny 0, .listUsers 0 (.ok [alice]), .promote 0 .ok, .add (str "bob") .ok, .hasAny 1]

theorem promotes_first_grantedRun : sharedStore.Meets PromotesFirst freshStore grantedRun := by
  have h : (sharedStore.exec freshStore grantedRun).isSome := by decide +kernel
  obtain ⟨s', hr⟩ := Option.isSome_iff_exists.mp h
  have hi : sharedStore.init freshStore := rfl
  exact (promotes_first_iff hi hr).mpr (by decide +kernel)

/-- A local client grants the first admin while the bootstrap waits for Headscale. -/
def overtakenRun : List StoreAction :=
  [.hasAny 0, .add (str "bob") .ok, .listUsers 0 (.ok [alice])]

/-- The bootstrap then promotes a second admin. -/
theorem bootstrap_promotes_second :
    sharedStore.init freshStore ∧ ∃ s s', sharedStore.exec freshStore overtakenRun = some s ∧
      s.admins = {str "bob"} ∧ sharedStore.step s (.promote 0 .ok) = some s' ∧
      s'.admins = {str "alice", str "bob"} ∧ ¬ PromotesFirst s (.promote 0 .ok) := by
  have h : (sharedStore.exec freshStore overtakenRun).any (fun s => s.admins = {str "bob"} ∧
      (sharedStore.step s (.promote 0 .ok)).any fun s' =>
        s'.admins = {str "alice", str "bob"} ∧ ¬ PromotesFirst s (.promote 0 .ok)) = true := by
    decide +kernel
  simp only [Option.any_eq_true, decide_eq_true_eq] at h
  obtain ⟨s, hs, hb, s', hs', hboth⟩ := h
  exact ⟨rfl, s, s', hs, hb, hs', hboth⟩

end HeadFwd.Portal
