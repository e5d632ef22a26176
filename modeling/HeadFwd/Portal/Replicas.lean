import HeadFwd.Portal.Store
import HeadFwd.Transition.Basic

/-! # Two portals over one admin file

The LAN listener and the tailnet listener each load the admin file into a store
of their own and write the whole store back on every change. Neither reads
the file again, so they keep agreeing exactly as long as no operation
changes the set.
-/

namespace HeadFwd.Portal

open Text Net Transition

/-- The two portal servers of one sidecar. -/
inductive Listener | lan | tailnet
  deriving DecidableEq, Repr

/-- The reply of a handler: `204 No Content` or an error. -/
abbrev Reply := Except HttpError Unit

/-- The store, the file and the reply after a request to change the set. -/
structure Changed where
  store : Option Admins
  file : FileRead
  reply : Reply

namespace Handlers

/-- `PUT /api/admins/{name}`. -/
def grant (store : Option Admins) (file : FileRead) (name : Bytes) (w : WriteResult) : Changed :=
  match store with
  | none => ⟨none, file, .error ⟨str "admin store not configured", 500⟩⟩
  | some admins =>
    if name = [] then ⟨store, file, .error ⟨str "missing name", 400⟩⟩
    else
      let r := Store.add admins file name w
      match r.error with
      | some e => ⟨some r.admins, r.file, .error ⟨e, 500⟩⟩
      | none => ⟨some r.admins, r.file, .ok ()⟩

/-- `DELETE /api/admins/{name}`; `caller` is the name the gate put into the context. -/
def revoke (store : Option Admins) (file : FileRead) (caller : Option Bytes) (name : Bytes)
    (w : WriteResult) : Changed :=
  match store with
  | none => ⟨none, file, .error ⟨str "admin store not configured", 500⟩⟩
  | some admins =>
    let callerName := caller.getD []
    if name = [] then ⟨store, file, .error ⟨str "missing name", 400⟩⟩
    else if callerName ≠ [] ∧ callerName ≠ str "local" ∧ callerName = name then
      ⟨store, file, .error ⟨str "cannot remove your own admin access", 400⟩⟩
    else
      let r := Store.remove admins file name w
      match r.error with
      | some e => ⟨some r.admins, r.file, .error ⟨e, 400⟩⟩
      | none => ⟨some r.admins, r.file, .ok ()⟩

end Handlers

/-- A change of the set asked of a portal. -/
inductive Change where
  | grant (name : Bytes)
  | revoke (caller : Option Bytes) (name : Bytes)
  deriving DecidableEq, Repr

/-- A request to change the set, the listener that receives it and the outcome of the write. -/
structure AdminRequest where
  listener : Listener
  change : Change
  write : WriteResult
  deriving DecidableEq, Repr

/-- What a change means for a set of admins. -/
def Change.apply : Change → Admins → Admins
  | .grant name, s => insert name s
  | .revoke _ name, s => s.erase name

/-- The change leaves the set as it is. -/
def Change.NoOp : Change → Admins → Prop
  | .grant name, s => name ∈ s
  | .revoke _ name, s => name ∉ s

instance (c : Change) (s : Admins) : Decidable (c.NoOp s) :=
  match c with
  | .grant name => inferInstanceAs (Decidable (name ∈ s))
  | .revoke _ name => inferInstanceAs (Decidable (name ∉ s))

theorem Change.noOp_iff (c : Change) (s : Admins) : c.NoOp s ↔ c.apply s = s := by
  cases c with
  | grant name => simp [NoOp, apply]
  | revoke caller name => simp [NoOp, apply]

/-- Both stores and the file. `expected` records the result of applying the successful changes in
order; no step reads it. -/
structure Replicas where
  lan : Option Admins
  tailnet : Option Admins
  file : FileRead
  expected : Admins

def Replicas.store (s : Replicas) : Listener → Option Admins
  | .lan => s.lan
  | .tailnet => s.tailnet

def Change.handle (c : Change) (store : Option Admins) (file : FileRead) (w : WriteResult) :
    Changed :=
  match c with
  | .grant name => Handlers.grant store file name w
  | .revoke caller name => Handlers.revoke store file caller name w

/-- A successful request at one listener. -/
def Replicas.step (s : Replicas) (a : AdminRequest) : Option Replicas :=
  let r := a.change.handle (s.store a.listener) s.file a.write
  match r.reply, a.listener with
  | .error _, _ => none
  | .ok (), .lan =>
    some { s with lan := r.store, file := r.file, expected := a.change.apply s.expected }
  | .ok (), .tailnet =>
    some { s with tailnet := r.store, file := r.file, expected := a.change.apply s.expected }

/-- Both stores and the file hold the expected set. -/
def Replicas.Agree (s : Replicas) : Prop :=
  s.lan = some s.expected ∧ s.tailnet = some s.expected ∧ Store.load s.file = some s.expected

instance (s : Replicas) : Decidable s.Agree := inferInstanceAs (Decidable (_ ∧ _ ∧ _))

/-- Runs start when both servers have loaded the file. -/
def replicas : Machine Replicas AdminRequest where
  init := Replicas.Agree
  step := Replicas.step

/-- A successful change is applied to the store it reached and written out in full. -/
theorem Change.handle_ok {c : Change} {admins : Admins} {file : FileRead} {w : WriteResult}
    (h : (c.handle (some admins) file w).reply = .ok ()) :
    (c.handle (some admins) file w).store = some (c.apply admins) ∧
      (c.handle (some admins) file w).file = .ok (Store.contents (c.apply admins)) := by
  cases c with
  | grant name =>
    simp only [handle, Handlers.grant] at h ⊢
    split_ifs at h ⊢ with hn
    cases w with
    | ok => exact ⟨rfl, rfl⟩
    | untouched m => cases h
    | partly m k => cases h
  | revoke caller name =>
    simp only [handle, Handlers.revoke, Store.remove] at h ⊢
    split_ifs at h ⊢ with hn hc hcard
    cases w with
    | ok => exact ⟨rfl, rfl⟩
    | untouched m => cases h
    | partly m k => cases h

/-- What a step from an agreeing state does: one store takes the change, the file is overwritten
with it, and the other store keeps its set. -/
theorem Replicas.Agree.step_cases {s s' : Replicas} {a : AdminRequest} (h : s.Agree)
    (hs : s.step a = some s') :
    s'.expected = a.change.apply s.expected ∧
      s'.file = .ok (Store.contents (a.change.apply s.expected)) ∧
      (s'.lan = some (a.change.apply s.expected) ∧ s'.tailnet = some s.expected ∨
        s'.tailnet = some (a.change.apply s.expected) ∧ s'.lan = some s.expected) := by
  have hstore : s.store a.listener = some s.expected := by
    cases a.listener
    · exact h.1
    · exact h.2.1
  unfold Replicas.step at hs
  simp only [hstore] at hs
  split at hs
  · cases hs
  · rename_i hr _
    obtain ⟨ha, hf⟩ := Change.handle_ok hr
    cases hs
    exact ⟨rfl, hf, .inl ⟨ha, h.2.1⟩⟩
  · rename_i hr _
    obtain ⟨ha, hf⟩ := Change.handle_ok hr
    cases hs
    exact ⟨rfl, hf, .inr ⟨ha, h.1⟩⟩

theorem Replicas.Agree.step {s s' : Replicas} {a : AdminRequest} (h : s.Agree)
    (hn : a.change.NoOp s.expected) (hs : s.step a = some s') : s'.Agree := by
  obtain ⟨he, hf, hl⟩ := h.step_cases hs
  rw [(a.change.noOp_iff _).mp hn] at he hf hl
  have hload : Store.load s'.file = some s.expected := by
    rw [hf]
    exact Store.load_contents_of_valid (Store.validUtf8_of_load h.2.2)
  unfold Replicas.Agree
  rw [he]
  rcases hl with ⟨hlan, htail⟩ | ⟨htail, hlan⟩
  · exact ⟨hlan, htail, hload⟩
  · exact ⟨hlan, htail, hload⟩

/-- The listener that did not receive a change keeps the set from before it. -/
theorem Replicas.Agree.not_step {s s' : Replicas} {a : AdminRequest} (h : s.Agree)
    (hn : ¬ a.change.NoOp s.expected) (hs : s.step a = some s') : ¬ s'.Agree := by
  obtain ⟨he, -, hl⟩ := h.step_cases hs
  rw [Change.noOp_iff, ← he] at hn
  rintro ⟨hlan, htail, -⟩
  rcases hl with ⟨-, ht⟩ | ⟨-, ht⟩
  · exact hn (Option.some.inj (htail.symm.trans ht))
  · exact hn (Option.some.inj (hlan.symm.trans ht))

theorem meets_noOp_iff {s s' : Replicas} {as : List AdminRequest} (h : s.Agree)
    (hr : replicas.exec s as = some s') :
    replicas.Meets (fun s a => a.change.NoOp s.expected) s as ↔
      ∀ a ∈ as, a.change.NoOp s.expected := by
  induction as generalizing s with
  | nil => simp [Machine.Meets]
  | cons a as ih =>
    obtain ⟨t, ht, hr⟩ := Option.bind_eq_some_iff.mp hr
    have he : a.change.NoOp s.expected → t.expected = s.expected := fun hn =>
      (h.step_cases ht).1.trans ((a.change.noOp_iff _).mp hn)
    simp only [List.mem_cons, forall_eq_or_imp]
    constructor
    · rintro ⟨hn, hm⟩
      exact ⟨hn, he hn ▸ (ih (h.step hn ht) hr).mp (hm t ht)⟩
    · rintro ⟨hn, hm⟩
      refine ⟨hn, fun u hu => ?_⟩
      obtain rfl : t = u := Option.some.inj (ht.symm.trans hu)
      exact (ih (h.step hn ht) hr).mpr (he hn ▸ hm)

/-- Both servers and the file hold the expected set throughout a run exactly when none of the
changes of the run does anything. -/
theorem agree_along_iff {s s' : Replicas} {as : List AdminRequest} (hi : replicas.init s)
    (hr : replicas.exec s as = some s') :
    replicas.Along Replicas.Agree s as ↔ ∀ a ∈ as, a.change.NoOp s.expected := by
  rw [← meets_noOp_iff hi hr]
  exact Machine.along_iff_meets (fun _ h => h) (fun _ _ _ h hn hs => h.step hn hs)
    (fun _ _ _ h hn hs => h.not_step hn hs) hi hr

/-- Two servers that loaded the same two admins. -/
def twoAdmins : Replicas where
  lan := some {str "alice", str "bob"}
  tailnet := some {str "alice", str "bob"}
  file := .ok (str "[\"alice\",\"bob\"]")
  expected := {str "alice", str "bob"}

def idleRun : List AdminRequest :=
  [⟨.lan, .grant (str "alice"), .ok⟩, ⟨.tailnet, .revoke none (str "carol"), .ok⟩]

theorem agree_along_idleRun :
    replicas.init twoAdmins ∧ (replicas.exec twoAdmins idleRun).isSome ∧
      replicas.Along Replicas.Agree twoAdmins idleRun := by
  have hi : twoAdmins.Agree := by decide
  obtain ⟨s', hs'⟩ : ∃ s', replicas.exec twoAdmins idleRun = some s' :=
    Option.isSome_iff_exists.mp (by decide)
  exact ⟨hi, by decide, (agree_along_iff hi hs').mpr (by decide)⟩

/-- Revoke one admin and grant another over the LAN, then grant a third over the tailnet. -/
def mixedRun : List AdminRequest :=
  [⟨.lan, .revoke (some (str "local")) (str "bob"), .ok⟩,
    ⟨.lan, .grant (str "carol"), .ok⟩,
    ⟨.tailnet, .grant (str "dave"), .ok⟩]

/-- The revoked admin is still one on the tailnet listener and in the file, and the admin granted
over the LAN is in neither. -/
def afterMixedRun : Replicas where
  lan := some {str "carol", str "alice"}
  tailnet := some {str "dave", str "alice", str "bob"}
  file := .ok (Store.contents {str "dave", str "alice", str "bob"})
  expected := {str "dave", str "carol", str "alice"}

theorem mixedRun_disagrees :
    replicas.init twoAdmins ∧ replicas.exec twoAdmins mixedRun = some afterMixedRun ∧
      ¬ afterMixedRun.Agree ∧
      Store.load afterMixedRun.file = some {str "alice", str "bob", str "dave"} := by
  refine ⟨?_, ?_, ?_, ?_⟩
  · change twoAdmins.Agree
    decide
  · rfl
  · exact fun h => absurd h.1 (by decide)
  · rw [afterMixedRun, Store.load_contents]
    decide

end HeadFwd.Portal
