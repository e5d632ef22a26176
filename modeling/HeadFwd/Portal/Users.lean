import HeadFwd.Portal.Replicas
import HeadFwd.Transition.Table

/-! # Admins and users

Users live in Headscale and admins in the store of the portal. The handlers for
users call only Headscale, one request at a time; those for admins and the
bootstrap change only the store. A user that is deleted keeps its place in the
store, and a name can be promoted that no user has.
-/

namespace HeadFwd.Portal

open Text Net Transition

/-- A user as Headscale lists it. -/
structure Account extends User where
  id : Bytes
  deriving DecidableEq, Repr

/-- A node of the Headscale list, with the fields the deletion of a user reads. -/
structure OwnedNode where
  id : Bytes
  userName : Bytes
  deriving DecidableEq, Repr

/-- The reply to `DELETE /api/users/{name}`. `notFound` is the error `user %q not found`. -/
inductive DeleteReply where
  | noContent
  | failed (e : HttpError)
  | notFound (name : Bytes)
  deriving DecidableEq, Repr

/-- Where a `UserHandlers.Delete` call stands: it has found the user, it deletes the nodes, of which
those listed are left, or it is over. -/
inductive DeleteThread where
  | found (u : Account)
  | removing (u : Account) (nodes : List Bytes)
  | ended (reply : DeleteReply)
  deriving DecidableEq, Repr

/-- Where a `Bootstrap` stands: it has seen no admin, it has chosen a user, or it is over. -/
inductive BootstrapThread where
  | empty
  | chosen (u : User)
  | ended
  deriving DecidableEq, Repr

/-- The user of a call that has deleted all nodes. -/
def DeleteThread.ready : DeleteThread → Option Account
  | .removing u [] => some u
  | _ => none

def BootstrapThread.choice : BootstrapThread → Option User
  | .chosen u => some u
  | _ => none

/-- The users of Headscale, the admin store with its file, and the calls under way. -/
structure Directory where
  accounts : List Account
  admins : Admins
  file : FileRead
  deletes : Table ℕ DeleteThread
  bootstraps : Table ℕ BootstrapThread

/-- A request to Headscale: `none` when it succeeded, else the error. -/
abbrev ApiError := Option Bytes

/-- `UserHandlers.Create` with the account that Headscale made of the request, if any; the requests
of a `UserHandlers.Delete`; the admin handlers; and the parts of a `Bootstrap`. A request that
deletes a user may fail after it took effect. -/
inductive DirectoryAction where
  | create (name : Bytes) (made : Option (Bytes × Bytes))
  | deleteFind (i : ℕ) (name : Bytes) (e : ApiError)
  | deleteList (i : ℕ) (nodes : List OwnedNode) (e : ApiError)
  | deleteNode (i : ℕ) (e : ApiError)
  | deleteUser (i : ℕ) (done : Bool) (e : ApiError)
  | change (c : Change) (w : WriteResult)
  | bootstrapCheck (b : ℕ)
  | bootstrapList (b : ℕ) (e : ApiError)
  | bootstrapAdd (b : ℕ) (w : WriteResult)

namespace Directory

def getUserByName (accounts : List Account) (name : Bytes) : Option Account :=
  accounts.find? fun u => u.name = name

def create (s : Directory) (name : Bytes) : Option (Bytes × Bytes) → Directory
  | some (id, createdAt) =>
    if name = [] then s else { s with accounts := s.accounts ++ [{ name, createdAt, id }] }
  | none => s

def badGateway (text : Bytes) : DeleteThread := .ended (.failed ⟨text, 502⟩)

def deleteFind (s : Directory) (i : ℕ) (name : Bytes) (e : ApiError) : Option Directory :=
  match s.deletes i with
  | some _ => none
  | none =>
    let thread :=
      if name = [] then
        .ended (.failed ⟨str "\x7b\"error\":\"name is required\"\x7d", 400⟩)
      else match e, getUserByName s.accounts name with
        | some text, _ => badGateway text
        | none, none => .ended (.notFound name)
        | none, some u => .found u
    some { s with deletes := s.deletes.set i thread }

def deleteList (s : Directory) (i : ℕ) (nodes : List OwnedNode) (e : ApiError) : Option Directory :=
  match s.deletes i with
  | some (.found u) =>
    let thread := match e with
      | some text => badGateway (str "list nodes before delete: " ++ text)
      | none => .removing u ((nodes.filter fun n => n.userName = u.name).map OwnedNode.id)
    some { s with deletes := s.deletes.set i thread }
  | _ => none

def deleteNode (s : Directory) (i : ℕ) (e : ApiError) : Option Directory :=
  match s.deletes i with
  | some (.removing u (node :: nodes)) =>
    let thread := match e with
      | some text => badGateway (str "delete node " ++ node ++ str ": " ++ text)
      | none => .removing u nodes
    some { s with deletes := s.deletes.set i thread }
  | _ => none

def deleteUser (s : Directory) (i : ℕ) (done : Bool) (e : ApiError) : Option Directory :=
  match s.deletes i with
  | some (.removing u []) =>
    let thread := match e with
      | some text => badGateway text
      | none => .ended .noContent
    let accounts := if done then s.accounts.filter fun v => v.id ≠ u.id else s.accounts
    some { s with accounts, deletes := s.deletes.set i thread }
  | _ => none

/-- The admin handlers with a store configured. -/
def change (s : Directory) (c : Change) (w : WriteResult) : Directory :=
  let r := c.handle (some s.admins) s.file w
  { s with admins := r.store.getD s.admins, file := r.file }

def bootstrapCheck (s : Directory) (b : ℕ) : Option Directory :=
  match s.bootstraps b with
  | some _ => none
  | none =>
    let thread := if Store.hasAny s.admins then .ended else .empty
    some { s with bootstraps := s.bootstraps.set b thread }

def bootstrapList (s : Directory) (b : ℕ) (e : ApiError) : Option Directory :=
  match s.bootstraps b with
  | some .empty =>
    let thread := match e, Store.oldestUser (s.accounts.map Account.toUser) with
      | some _, _ => .ended
      | none, none => .ended
      | none, some u => .chosen u
    some { s with bootstraps := s.bootstraps.set b thread }
  | _ => none

def bootstrapAdd (s : Directory) (b : ℕ) (w : WriteResult) : Option Directory :=
  match s.bootstraps b with
  | some (.chosen u) =>
    let r := Store.add s.admins s.file u.name w
    some { s with
      admins := r.admins, file := r.file, bootstraps := s.bootstraps.set b .ended }
  | _ => none

def step (s : Directory) : DirectoryAction → Option Directory
  | .create name made => some (s.create name made)
  | .deleteFind i name e => s.deleteFind i name e
  | .deleteList i nodes e => s.deleteList i nodes e
  | .deleteNode i e => s.deleteNode i e
  | .deleteUser i done e => s.deleteUser i done e
  | .change c w => some (s.change c w)
  | .bootstrapCheck b => s.bootstrapCheck b
  | .bootstrapList b e => s.bootstrapList b e
  | .bootstrapAdd b w => s.bootstrapAdd b w

/-- Headscale has a user of the name. -/
def Known (s : Directory) (name : Bytes) : Prop := ∃ u ∈ s.accounts, u.name = name

instance (s : Directory) (name : Bytes) : Decidable (s.Known name) :=
  inferInstanceAs (Decidable (∃ u ∈ s.accounts, u.name = name))

/-- Every admin is a user, and there is one. -/
def Sound (s : Directory) : Prop := (∀ n ∈ s.admins, s.Known n) ∧ s.admins.Nonempty

instance (s : Directory) : Decidable s.Sound := inferInstanceAs (Decidable (_ ∧ _))

/-- A grant or a bootstrap promotes a user, and a user who is an admin is deleted only when another
one has the same name. -/
def Heeds (s : Directory) : DirectoryAction → Prop
  | .change (.grant name) _ => name ≠ [] → s.Known name
  | .bootstrapAdd b _ => ∀ u ∈ (s.bootstraps b).bind BootstrapThread.choice, s.Known u.name
  | .deleteUser i done _ => done = true → ∀ u ∈ (s.deletes i).bind DeleteThread.ready,
    ∀ v ∈ s.accounts, v.id = u.id → v.name ∈ s.admins →
      ∃ w ∈ s.accounts, w.id ≠ u.id ∧ w.name = v.name
  | _ => True

instance (s : Directory) : (a : DirectoryAction) → Decidable (s.Heeds a)
  | .create _ _ => .isTrue trivial
  | .deleteFind _ _ _ => .isTrue trivial
  | .deleteList _ _ _ => .isTrue trivial
  | .deleteNode _ _ => .isTrue trivial
  | .deleteUser _ _ _ => inferInstanceAs (Decidable (_ → ∀ u ∈ _, _))
  | .change (.grant _) _ => inferInstanceAs (Decidable (_ → _))
  | .change (.revoke _ _) _ => .isTrue trivial
  | .bootstrapCheck _ => .isTrue trivial
  | .bootstrapList _ _ => .isTrue trivial
  | .bootstrapAdd _ _ => inferInstanceAs (Decidable (∀ u ∈ _, _))

variable {s s' : Directory} {a : DirectoryAction}

/-- What a step does to the users and the admins, with the condition it is under. -/
inductive Effect (s : Directory) : DirectoryAction → List Account → Admins → Prop where
  | kept (a : DirectoryAction) (ha : s.Heeds a) : Effect s a s.accounts s.admins
  | created (name : Bytes) (made : Option (Bytes × Bytes)) (u : Account) :
    Effect s (.create name made) (s.accounts ++ [u]) s.admins
  | deleted (i : ℕ) (e : ApiError) (u : Account)
    (hi : (s.deletes i).bind DeleteThread.ready = some u) :
    Effect s (.deleteUser i true e) (s.accounts.filter fun v => v.id ≠ u.id) s.admins
  | granted (name : Bytes) (w : WriteResult) (hn : name ≠ []) :
    Effect s (.change (.grant name) w) s.accounts (insert name s.admins)
  | revoked (caller : Option Bytes) (name : Bytes) (w : WriteResult) (hc : 1 < s.admins.card) :
    Effect s (.change (.revoke caller name) w) s.accounts (s.admins.erase name)
  | promoted (b : ℕ) (w : WriteResult) (u : User)
    (hb : (s.bootstraps b).bind BootstrapThread.choice = some u) :
    Effect s (.bootstrapAdd b w) s.accounts (insert u.name s.admins)

theorem change_effect (c : Change) (w : WriteResult) :
    Effect s (.change c w) (s.change c w).accounts (s.change c w).admins := by
  cases c with
  | grant name =>
    by_cases hn : name = []
    · have h : (s.change (.grant name) w).admins = s.admins := by
        simp [change, Change.handle, Handlers.grant, hn]
      rw [h]
      exact .kept _ fun hne => absurd hn hne
    · have h : (s.change (.grant name) w).admins = insert name s.admins := by
        simp only [change, Change.handle, Handlers.grant, hn, if_false]
        split <;> rfl
      rw [h]
      exact .granted name w hn
  | revoke caller name =>
    have h : (s.change (.revoke caller name) w).admins = s.admins ∨ 1 < s.admins.card ∧
        (s.change (.revoke caller name) w).admins = s.admins.erase name := by
      simp only [change, Change.handle, Handlers.revoke]
      split_ifs with hn hself
      · exact .inl rfl
      · exact .inl rfl
      · by_cases hc : s.admins.card ≤ 1
        · simp [Store.remove, hc]
        · refine .inr ⟨not_le.mp hc, ?_⟩
          simp only [Store.remove, hc, if_false]
          split <;> rfl
    rcases h with h | ⟨hc, h⟩
    · rw [h]
      exact .kept _ trivial
    · rw [h]
      exact .revoked caller name w hc

theorem step_effect (h : s.step a = some s') : Effect s a s'.accounts s'.admins := by
  cases a with
  | create name made =>
    cases h
    unfold create
    split
    · split
      · exact .kept _ trivial
      · exact .created name _ _
    · exact .kept _ trivial
  | deleteFind i name e =>
    simp only [step, deleteFind] at h
    split at h
    · cases h
    · cases h
      exact .kept _ trivial
  | deleteList i nodes e =>
    simp only [step, deleteList] at h
    split at h
    · cases h
      exact .kept _ trivial
    · cases h
  | deleteNode i e =>
    simp only [step, deleteNode] at h
    split at h
    · cases h
      exact .kept _ trivial
    · cases h
  | deleteUser i done e =>
    simp only [step, deleteUser] at h
    split at h
    · rename_i u hi
      cases h
      cases done with
      | false => exact .kept _ (by simp [Heeds])
      | true => exact .deleted i e u (by rw [hi]; rfl)
    · cases h
  | change c w =>
    cases h
    exact change_effect c w
  | bootstrapCheck b =>
    simp only [step, bootstrapCheck] at h
    split at h
    · cases h
    · cases h
      exact .kept _ trivial
  | bootstrapList b e =>
    simp only [step, bootstrapList] at h
    split at h
    · cases h
      exact .kept _ trivial
    · cases h
  | bootstrapAdd b w =>
    simp only [step, bootstrapAdd] at h
    split at h
    · rename_i u hb
      cases h
      exact .promoted b w u (by rw [hb]; rfl)
    · cases h

/-- The accounts that are left after a deletion still know the admins. -/
theorem known_filter {u : Account} (h : ∀ n ∈ s.admins, s.Known n) :
    (∀ n ∈ s.admins, ∃ v ∈ s.accounts.filter (fun v => v.id ≠ u.id), v.name = n) ↔
      ∀ v ∈ s.accounts, v.id = u.id → v.name ∈ s.admins →
        ∃ w ∈ s.accounts, w.id ≠ u.id ∧ w.name = v.name := by
  constructor
  · intro hk v hv hid hn
    obtain ⟨w, hw, hname⟩ := hk v.name hn
    simp only [List.mem_filter, decide_eq_true_eq] at hw
    exact ⟨w, hw.1, hw.2, hname⟩
  · intro hk n hn
    obtain ⟨v, hv, rfl⟩ := h n hn
    by_cases hid : v.id = u.id
    · obtain ⟨w, hw, hne, hname⟩ := hk v hv hid hn
      exact ⟨w, List.mem_filter.mpr ⟨hw, decide_eq_true hne⟩, hname⟩
    · exact ⟨v, List.mem_filter.mpr ⟨hv, decide_eq_true hid⟩, rfl⟩

/-- A step keeps the admins sound exactly when it heeds the users. -/
theorem Sound.step_iff (h : s.Sound) (hs : s.step a = some s') : s'.Sound ↔ s.Heeds a := by
  have he := step_effect hs
  obtain ⟨hk, hne⟩ := h
  have promoted : ∀ name, (∀ n ∈ insert name s.admins, s.Known n) ↔ s.Known name := by
    intro name
    simp only [Finset.forall_mem_insert]
    exact and_iff_left hk
  simp only [Sound, Known]
  generalize s'.accounts = accounts, s'.admins = admins at he
  cases he with
  | kept a ha => exact iff_of_true ⟨hk, hne⟩ ha
  | created name made u =>
    refine iff_of_true ⟨fun n hn => ?_, hne⟩ trivial
    obtain ⟨v, hv, hname⟩ := hk n hn
    exact ⟨v, List.mem_append_left _ hv, hname⟩
  | deleted i e u hi =>
    rw [and_iff_left hne, known_filter hk]
    simp only [Heeds, hi, Option.mem_some_iff, forall_eq', true_implies]
  | granted name w hn =>
    rw [and_iff_left (Finset.insert_nonempty name s.admins)]
    exact (promoted name).trans ⟨fun hx _ => hx, fun hx => hx hn⟩
  | revoked caller name w hc =>
    refine iff_of_true ⟨fun n hn => hk n (Finset.mem_of_mem_erase hn), ?_⟩ trivial
    obtain ⟨n, hn, hnn⟩ := Finset.exists_mem_ne hc name
    exact ⟨n, Finset.mem_erase.mpr ⟨hnn, hn⟩⟩
  | promoted b w u hb =>
    rw [and_iff_left (Finset.insert_nonempty u.name s.admins)]
    apply (promoted u.name).trans
    simp only [Heeds, hb, Option.mem_some_iff, forall_eq']

end Directory

/-- The portal with one admin store, from any state in which the admins are sound. -/
def directory : Machine Directory DirectoryAction where
  init := Directory.Sound
  step := Directory.step

/-- A run keeps every admin a user, and one admin, throughout exactly when every step of it heeds the
users. -/
theorem admins_known_along_iff {s s' : Directory} {as : List DirectoryAction} (hi : directory.init s)
    (hr : directory.exec s as = some s') :
    directory.Along Directory.Sound s as ↔ directory.Meets Directory.Heeds s as := by
  refine Machine.along_iff_meets (I := Directory.Sound) (fun s h => h) ?_ ?_ hi hr
  · intro s a s' h hg hs
    exact (h.step_iff hs).mpr hg
  · intro s a s' h hg hs hs'
    exact hg ((h.step_iff hs).mp hs')

/-- Two users, both admins. -/
def twoUsers : Directory where
  accounts := [⟨⟨str "alice", str "2025-01-01T00:00:00Z"⟩, str "1"⟩,
    ⟨⟨str "bob", str "2025-01-02T00:00:00Z"⟩, str "2"⟩]
  admins := {str "alice", str "bob"}
  file := .ok (Store.contents {str "alice", str "bob"})
  deletes := .empty
  bootstraps := .empty

/-- Delete a user without nodes. -/
def deletion (i : ℕ) (name : Bytes) : List DirectoryAction :=
  [.deleteFind i name none, .deleteList i [] none, .deleteUser i true none]

/-- An admin loses the right before the user is deleted, and the name is then created again. -/
def revokedRun : List DirectoryAction :=
  .change (.revoke none (str "alice")) .ok :: deletion 0 (str "alice") ++
    [.create (str "alice") (some (str "3", str "2025-01-03T00:00:00Z")),
      .change (.grant (str "alice")) .ok]

theorem admins_known_along_revokedRun : directory.Along Directory.Sound twoUsers revokedRun := by
  have h : (directory.exec twoUsers revokedRun).isSome := by decide +kernel
  obtain ⟨s', hr⟩ := Option.isSome_iff_exists.mp h
  have hi : twoUsers.Sound := by decide +kernel
  exact (admins_known_along_iff hi hr).mpr (by decide +kernel)

/-- The name is created again. -/
def recreation : DirectoryAction :=
  .create (str "alice") (some (str "3", str "2025-01-03T00:00:00Z"))

/-- A misspelt name is granted, and the right of both users revoked. -/
def misspeltRun : List DirectoryAction :=
  [.change (.grant (str "alcie")) .ok, .change (.revoke none (str "alice")) .ok,
    .change (.revoke none (str "bob")) .ok]

/-- A deleted admin stays in the store, and whoever is next created under the name is an admin. A
name nobody has can be granted and be the last admin. -/
theorem deletion_unsound :
    directory.init twoUsers ∧
    (∃ s s', directory.exec twoUsers (deletion 0 (str "alice")) = some s ∧ ¬ s.Sound ∧
      directory.step s recreation = some s' ∧ str "alice" ∈ s'.admins) ∧
    ∃ s, directory.exec twoUsers misspeltRun = some s ∧ s.admins = {str "alcie"} ∧
      ¬ s.Known (str "alcie") := by
  have hdel : (directory.exec twoUsers (deletion 0 (str "alice"))).any (fun s => ¬ s.Sound ∧
      (directory.step s recreation).any fun s' => str "alice" ∈ s'.admins) = true := by
    decide +kernel
  have hmis : (directory.exec twoUsers misspeltRun).any (fun s => s.admins = {str "alcie"} ∧
      ¬ s.Known (str "alcie")) = true := by decide +kernel
  simp only [Option.any_eq_true, decide_eq_true_eq] at hdel hmis
  obtain ⟨s, hs, hd, s', hs', hn⟩ := hdel
  obtain ⟨t, ht, hm⟩ := hmis
  have hi : twoUsers.Sound := by decide +kernel
  exact ⟨hi, ⟨s, s', hs, hd, hs', hn⟩, t, ht, hm⟩

end HeadFwd.Portal
