import HeadFwd.Ios.Verifier
import HeadFwd.Transition.Table

/-! # Connects that are overtaken

All methods of the service run on the main actor and give it up only where they
await something. A connect that is resumed finds out whether it was cancelled by
looking at the connection state, which is `connecting` again once another
connect has begun, and after its last await it does not look.
-/

namespace HeadFwd.Ios

open Text Transition

inductive ConnectionState where
  | disconnected
  | connecting
  | connected (ip : Bytes)
  | error (msg : Bytes)
  deriving DecidableEq, Repr

/-- What a `connect` call awaits: the verified key, the node to come up, or its addresses; or the
call is over. -/
inductive ConnectThread where
  | verifying (config : HeadscaleConfig)
  | rising (config : HeadscaleConfig)
  | addressing
  | ended
  deriving DecidableEq, Repr

/-- The configuration of a call whose node is coming up. -/
def ConnectThread.rising? : ConnectThread → Option HeadscaleConfig
  | .rising config => some config
  | _ => none

/-- The published state of the service, the node, which is named by the call that made it, the stored
configuration and the calls. `overtaken` marks the calls begun before a `disconnect` or
`clearState`; no step reads it. -/
structure Service where
  connectionState : ConnectionState
  tailscaleIP : Option Bytes
  tailscaleHostname : Option Bytes
  node : Option ℕ
  saved : Option HeadscaleConfig
  calls : Table ℕ ConnectThread
  overtaken : ℕ → Bool

def Service.initial (saved : Option HeadscaleConfig) : Service where
  connectionState := .disconnected
  tailscaleIP := none
  tailscaleHostname := none
  node := none
  saved := saved
  calls := .empty
  overtaken := fun _ => false

/-- The parts of `connect` between its awaits, with what the await gave; the parts of `disconnect`
and `clearState` before their first await; and the view storing or clearing a configuration. -/
inductive ServiceAction where
  | connect (i : ℕ) (config : HeadscaleConfig) (dirIsEmpty : Option Bool)
  | verified (i : ℕ) (e : Option Bytes) (nodeMade : Bool)
  | cameUp (i : ℕ) (e : Option Bytes)
  | addresses (i : ℕ) (ips : Option (Option Bytes × Option Bytes))
  | disconnect
  | clearState
  | store (config : Option HeadscaleConfig)
  deriving DecidableEq, Repr

/-- The call that an action resumes. -/
def ServiceAction.resumes : ServiceAction → Option ℕ
  | .verified i _ _ => some i
  | .cameUp i _ => some i
  | .addresses i _ => some i
  | _ => none

def deviceHostname : Bytes := str "headfwd-ios"

/-- The dash is U+2014. -/
def noCredentials : Bytes :=
  str "No stored credentials " ++ [0xE2, 0x80, 0x94] ++ str " scan a QR code to connect"

namespace Service

/-- Begin a call. `dirIsEmpty` is `none` when the state directory cannot be created. -/
def connect (s : Service) (i : ℕ) (config : HeadscaleConfig) (dirIsEmpty : Option Bool) :
    Option Service :=
  match s.calls i with
  | some _ => none
  | none =>
    let s := { s with connectionState := .connecting }
    match dirIsEmpty with
    | none => some { s with calls := s.calls.set i .ended }
    | some dirIsEmpty =>
      if config.key = none ∧ dirIsEmpty then
        some { s with connectionState := .error noCredentials, calls := s.calls.set i .ended }
      else some { s with calls := s.calls.set i (.verifying config) }

/-- The call ends with an error, which is shown if it finds itself still connecting. -/
def fail (s : Service) (i : ℕ) (msg : Bytes) : Service :=
  { s with
    connectionState := if s.connectionState = .connecting then .error msg else s.connectionState
    calls := s.calls.set i .ended }

def verified (s : Service) (i : ℕ) (e : Option Bytes) (nodeMade : Bool) : Option Service :=
  match s.calls i, e with
  | some (.verifying _), some msg => some (s.fail i msg)
  | some (.verifying config), none =>
    if nodeMade then some { s with node := some i, calls := s.calls.set i (.rising config) }
    else some { s with calls := s.calls.set i .ended }
  | _, _ => none

def cameUp (s : Service) (i : ℕ) (e : Option Bytes) : Option Service :=
  match s.calls i, e with
  | some (.rising _), some msg => some (s.fail i msg)
  | some (.rising config), none =>
    if s.connectionState ≠ .connecting then some { s with calls := s.calls.set i .ended }
    else some { s with
      saved := if config.key ≠ none then some config.withKeyCleared else s.saved
      calls := s.calls.set i .addressing }
  | _, _ => none

/-- The address that is shown for a node with those of both versions. -/
def address (ips : Option Bytes × Option Bytes) : Bytes := (ips.1.or ips.2).getD (str "unknown")

/-- The addresses of the node; `none` is an error. -/
def addresses (s : Service) (i : ℕ) (ips : Option (Option Bytes × Option Bytes)) : Option Service :=
  match s.calls i, ips with
  | some .addressing, none => some { s with calls := s.calls.set i .ended }
  | some .addressing, some ips =>
    let ip := address ips
    some { s with
      tailscaleIP := some ip
      tailscaleHostname := some deviceHostname
      connectionState := .connected ip
      calls := s.calls.set i .ended }
  | _, _ => none

def disconnect (s : Service) : Service :=
  { s with
    node := none
    tailscaleIP := none
    tailscaleHostname := none
    connectionState := .disconnected
    overtaken := fun i => s.overtaken i || (s.calls i).isSome }

def step (s : Service) : ServiceAction → Option Service
  | .connect i config dirIsEmpty => s.connect i config dirIsEmpty
  | .verified i e nodeMade => s.verified i e nodeMade
  | .cameUp i e => s.cameUp i e
  | .addresses i ips => s.addresses i ips
  | .disconnect => some s.disconnect
  | .clearState => some s.disconnect
  | .store config => some { s with saved := config }

/-- What the user sees of the service, and what is stored. -/
def shown (s : Service) : ConnectionState × Option Bytes × Option Bytes × Option HeadscaleConfig :=
  (s.connectionState, s.tailscaleIP, s.tailscaleHostname, s.saved)

/-- A call that was overtaken changes nothing that is shown. -/
def Silent (s : Service) (a : ServiceAction) (s' : Service) : Prop :=
  ∀ i, a.resumes = some i → s.overtaken i = true → s'.shown = s.shown

/-- An overtaken call is resumed with an error only while the state is not `connecting`, with its node
up also when it has no key to clear or that was done, and with its addresses when they are shown
already. -/
def Harmless (s : Service) : ServiceAction → Prop
  | .verified i e _ => s.overtaken i = true → e ≠ none → s.connectionState ≠ .connecting
  | .cameUp i e => s.overtaken i = true → s.connectionState = .connecting →
    e = none ∧ ∀ config ∈ (s.calls i).bind ConnectThread.rising?,
      config.key = none ∨ s.saved = some config.withKeyCleared
  | .addresses i ips => s.overtaken i = true → ∀ x ∈ ips,
    s.connectionState = .connected (address x) ∧ s.tailscaleIP = some (address x) ∧
      s.tailscaleHostname = some deviceHostname
  | _ => True

instance (s : Service) : (a : ServiceAction) → Decidable (s.Harmless a)
  | .connect _ _ _ => .isTrue trivial
  | .verified _ _ _ => inferInstanceAs (Decidable (_ → _ → _))
  | .cameUp _ _ => inferInstanceAs (Decidable (_ → _ → _ ∧ ∀ config ∈ _, _))
  | .addresses _ _ => inferInstanceAs (Decidable (_ → ∀ x ∈ _, _))
  | .disconnect => .isTrue trivial
  | .clearState => .isTrue trivial
  | .store _ => .isTrue trivial

variable {s s' : Service} {a : ServiceAction}

theorem shown_fail {i : ℕ} {msg : Bytes} :
    (s.fail i msg).shown = s.shown ↔ s.connectionState ≠ .connecting := by
  by_cases hc : s.connectionState = .connecting
  · simp [shown, fail, hc]
  · simp [shown, fail, hc]

theorem shown_verified {i : ℕ} {e : Option Bytes} {nodeMade : Bool}
    (h : s.verified i e nodeMade = some s') :
    s'.shown = s.shown ↔ e ≠ none → s.connectionState ≠ .connecting := by
  unfold verified at h
  split at h
  · cases h
    simp [shown_fail]
  · split_ifs at h <;> cases h <;> simp [shown]
  · cases h

theorem shown_cameUp {i : ℕ} {e : Option Bytes} (h : s.cameUp i e = some s') :
    s'.shown = s.shown ↔ (s.connectionState = .connecting →
      e = none ∧ ∀ config ∈ (s.calls i).bind ConnectThread.rising?,
        config.key = none ∨ s.saved = some config.withKeyCleared) := by
  unfold cameUp at h
  split at h
  · cases h
    simp [shown_fail]
  · rename_i config hi
    split_ifs at h with hc hk
    · cases h
      simp [shown, hc]
    · cases h
      simp [shown, hi, ConnectThread.rising?, hk, not_not.mp hc, eq_comm]
    · cases h
      simp [shown, hi, ConnectThread.rising?, not_not.mp hk]
  · cases h

theorem shown_addresses {i : ℕ} {ips : Option (Option Bytes × Option Bytes)}
    (h : s.addresses i ips = some s') :
    s'.shown = s.shown ↔ ∀ x ∈ ips, s.connectionState = .connected (address x) ∧
      s.tailscaleIP = some (address x) ∧ s.tailscaleHostname = some deviceHostname := by
  unfold addresses at h
  split at h
  · cases h
    simp [shown]
  · cases h
    simp [shown, eq_comm]
  · cases h

/-- An overtaken call shows nothing by a step exactly when the step is harmless. -/
theorem silent_iff (hs : s.step a = some s') : s.Silent a s' ↔ s.Harmless a := by
  cases a with
  | verified i e nodeMade =>
    have h := shown_verified hs
    simp only [Silent, ServiceAction.resumes, Option.some.injEq, forall_eq', Harmless, h]
  | cameUp i e =>
    have h := shown_cameUp hs
    simp only [Silent, ServiceAction.resumes, Option.some.injEq, forall_eq', Harmless, h]
  | addresses i ips =>
    have h := shown_addresses hs
    simp only [Silent, ServiceAction.resumes, Option.some.injEq, forall_eq', Harmless, h]
  | _ => exact iff_of_true nofun trivial

end Service

/-- The service from the launch of the app, with whatever configuration is stored. -/
def service : Machine Service ServiceAction where
  init s := ∃ saved, s = .initial saved
  step := Service.step

/-- The overtaken calls of a run are silent exactly when every step of it is harmless. -/
theorem overtaken_silent_iff {s s' : Service} {as : List ServiceAction} (hi : service.init s)
    (hr : service.exec s as = some s') :
    service.Steps Service.Silent s as ↔ service.Meets Service.Harmless s as := by
  refine Machine.steps_iff_meets (I := fun s => service.Reachable s) ?_ ?_ (.init hi) hr
  · intro s a s' h _ hs
    exact .step h trivial hs
  · intro s a s' _ hs
    exact Service.silent_iff hs

namespace Service

variable {s s' : Service} {a : ServiceAction}

/-- A connect begins only when the overtaken ones have ended, and nothing is cancelled while the
addresses of a node are awaited. -/
def Orderly (s : Service) : ServiceAction → Prop
  | .connect _ _ _ => ∀ i, s.overtaken i = true → s.calls i = some .ended
  | .disconnect => ∀ i, s.calls i ≠ some .addressing
  | .clearState => ∀ i, s.calls i ≠ some .addressing
  | _ => True

/-- An overtaken call has ended, or awaits its key or node in a state that is not `connecting`. -/
def Heard (s : Service) : Prop :=
  ∀ i, s.overtaken i = true → s.calls i = some .ended ∨ s.connectionState ≠ .connecting ∧
    s.calls i ≠ none ∧ s.calls i ≠ some .addressing

/-- The call moves on and leaves the state not `connecting`, or as it was. -/
theorem Heard.move (h : s.Heard) {i : ℕ} {thread : ConnectThread}
    (hover : s'.overtaken = s.overtaken) (hcalls : s'.calls = s.calls.set i thread)
    (hstate : s'.connectionState = .connecting → s.connectionState = .connecting)
    (hthread : s.overtaken i = true → thread = .ended ∨ s'.connectionState ≠ .connecting ∧
      thread ≠ .addressing) : s'.Heard := by
  intro j hj
  rw [hover] at hj
  rw [hcalls]
  by_cases hji : j = i
  · subst hji
    rw [Table.set_self]
    rcases hthread hj with rfl | ⟨hc, hne⟩
    · exact .inl rfl
    · exact .inr ⟨hc, nofun, fun he => hne (Option.some.inj he)⟩
  · rw [Table.set_of_ne hji]
    rcases h j hj with he | ⟨hc, hrest⟩
    · exact .inl he
    · exact .inr ⟨fun hs => hc (hstate hs), hrest⟩

theorem Heard.fail (h : s.Heard) (i : ℕ) (msg : Bytes) : (s.fail i msg).Heard := by
  refine h.move rfl rfl (fun hc => ?_) fun _ => .inl rfl
  by_contra hne
  simp [Service.fail, hne] at hc

theorem Heard.disconnect (h : s.Heard) (hn : ∀ i, s.calls i ≠ some .addressing) :
    s.disconnect.Heard := by
  intro i hi
  refine .inr ⟨nofun, ?_, hn i⟩
  rcases Bool.or_eq_true_iff.mp hi with hi | hi
  · rcases h i hi with he | ⟨-, hne, -⟩
    · exact fun hnone => nomatch he.symm.trans hnone
    · exact hne
  · exact Option.isSome_iff_ne_none.mp hi

theorem Heard.connect (h : ∀ i, s.overtaken i = true → s.calls i = some .ended) {i : ℕ}
    {config : HeadscaleConfig} {dirIsEmpty : Option Bool}
    (hs : s.connect i config dirIsEmpty = some s') : s'.Heard := by
  unfold Service.connect at hs
  split at hs
  · cases hs
  · rename_i hi
    have ended : ∀ {thread} j, s.overtaken j = true → s.calls.set i thread j = some .ended := by
      intro thread j hj
      exact Table.set_frame_new (h j hj) hi
    dsimp only at hs
    split at hs
    · cases hs
      exact fun j hj => .inl (ended j hj)
    · split_ifs at hs
      · cases hs
        exact fun j hj => .inl (ended j hj)
      · cases hs
        exact fun j hj => .inl (ended j hj)

theorem Heard.verified (h : s.Heard) {i : ℕ} {e : Option Bytes} {nodeMade : Bool}
    (hs : s.verified i e nodeMade = some s') : s'.Heard := by
  unfold Service.verified at hs
  split at hs
  · cases hs
    exact h.fail i _
  · rename_i config hi
    split_ifs at hs
    · cases hs
      refine h.move rfl rfl (fun hc => hc) fun ho => .inr ⟨?_, fun he => by cases he⟩
      rcases h i ho with he | ⟨hc, -⟩
      · cases hi.symm.trans he
      · exact hc
    · cases hs
      exact h.move rfl rfl (fun hc => hc) fun _ => .inl rfl
  · cases hs

theorem Heard.cameUp (h : s.Heard) {i : ℕ} {e : Option Bytes} (hs : s.cameUp i e = some s') :
    s'.Heard := by
  unfold Service.cameUp at hs
  split at hs
  · cases hs
    exact h.fail i _
  · rename_i config hi
    by_cases hc : s.connectionState = .connecting
    · -- An overtaken call does not get past its check.
      rw [if_neg (not_not.mpr hc)] at hs
      cases hs
      refine h.move rfl rfl (fun hc => hc) fun ho => ?_
      rcases h i ho with he | ⟨hne, -⟩
      · cases hi.symm.trans he
      · exact absurd hc hne
    · rw [if_pos hc] at hs
      cases hs
      exact h.move rfl rfl (fun hc => hc) fun _ => .inl rfl
  · cases hs

theorem Heard.addresses (h : s.Heard) {i : ℕ} {ips : Option (Option Bytes × Option Bytes)}
    (hs : s.addresses i ips = some s') : s'.Heard := by
  unfold Service.addresses at hs
  split at hs
  · cases hs
    exact h.move rfl rfl (fun hc => hc) fun _ => .inl rfl
  · cases hs
    exact h.move rfl rfl nofun fun _ => .inl rfl
  · cases hs

theorem Heard.step (h : s.Heard) (ho : s.Orderly a) (hs : s.step a = some s') : s'.Heard := by
  cases a with
  | connect i config dirIsEmpty => exact .connect ho hs
  | verified i e nodeMade => exact h.verified hs
  | cameUp i e => exact h.cameUp hs
  | addresses i ips => exact h.addresses hs
  | disconnect =>
    cases hs
    exact h.disconnect ho
  | clearState =>
    cases hs
    exact h.disconnect ho
  | store config =>
    cases hs
    exact h

/-- An overtaken call that is resumed has something to await, and hears of it. -/
theorem Heard.harmless (h : s.Heard) (hs : s.step a = some s') : s.Harmless a := by
  cases a with
  | verified i e nodeMade =>
    intro ho _
    rcases h i ho with he | ⟨hc, -⟩
    · simp [Service.step, Service.verified, he] at hs
    · exact hc
  | cameUp i e =>
    intro ho hc
    rcases h i ho with he | ⟨hne, -⟩
    · simp [Service.step, Service.cameUp, he] at hs
    · exact absurd hc hne
  | addresses i ips =>
    intro ho
    have hi : s.calls i = some .addressing := by
      simp only [Service.step, Service.addresses] at hs
      split at hs
      · assumption
      · assumption
      · cases hs
    rcases h i ho with he | ⟨-, -, hne⟩
    · cases hi.symm.trans he
    · exact absurd hi hne
  | _ => trivial

end Service

/-- In a run where connects wait for the overtaken ones to end, and nothing is cancelled between the
last check of a connect and its end, overtaken calls are silent. -/
theorem silent_of_orderly {s s' : Service} {a : ServiceAction}
    (hr : service.Reach Service.Orderly s) (hs : service.step s a = some s') : s.Silent a s' := by
  have h : s.Heard := by
    refine hr.invariant ?_ fun s a s' _ ho hs h => Service.Heard.step h ho hs
    rintro s ⟨saved, rfl⟩
    exact nofun
  exact (Service.silent_iff hs).mpr (h.harmless hs)

/-- A configuration scanned from a QR code, and one scanned later. -/
def oldConfig : HeadscaleConfig := ⟨str "https://old.headfwd.net", some (str "key-1"), none, 1⟩

def newConfig : HeadscaleConfig := ⟨str "https://new.headfwd.net", some (str "key-2"), none, 1⟩

/-- A connect is cancelled while its node comes up. -/
def cancelledRun : List ServiceAction :=
  [.connect 0 oldConfig (some true), .verified 0 none true, .disconnect, .cameUp 0 none]

theorem overtaken_silent_cancelledRun :
    service.Steps Service.Silent (.initial (some oldConfig)) cancelledRun := by
  have h : (service.exec (.initial (some oldConfig)) cancelledRun).isSome := by decide +kernel
  obtain ⟨s', hr⟩ := Option.isSome_iff_exists.mp h
  exact (overtaken_silent_iff ⟨_, rfl⟩ hr).mpr (by decide +kernel)

/-- A connect is under way when another QR code is scanned and its configuration stored and used. -/
def rescannedRun : List ServiceAction :=
  [.connect 0 oldConfig (some true), .verified 0 none true, .clearState, .store (some newConfig),
    .connect 1 newConfig (some true)]

/-- Then the first connect takes the second one for itself: it stores its own configuration over the
new one and shows its own address. It also shows its address when it was cancelled last. -/
theorem rescannedRun_overwritten :
    (∃ s s' s'', service.exec (.initial (some oldConfig)) rescannedRun = some s ∧
      s.overtaken 0 = true ∧ s.saved = some newConfig ∧
      service.step s (.cameUp 0 none) = some s' ∧ s'.saved = some oldConfig.withKeyCleared ∧
      service.step s' (.addresses 0 (some (some (str "100.64.0.1"), none))) = some s'' ∧
      s''.connectionState = .connected (str "100.64.0.1")) ∧
    ∃ s s', service.exec (.initial (some oldConfig)) [.connect 0 oldConfig (some true),
        .verified 0 none true, .cameUp 0 none, .disconnect] = some s ∧
      s.overtaken 0 = true ∧ s.connectionState = .disconnected ∧
      service.step s (.addresses 0 (some (some (str "100.64.0.1"), none))) = some s' ∧
      s'.connectionState = .connected (str "100.64.0.1") := by
  refine ⟨⟨_, _, _, rfl, rfl, rfl, rfl, rfl, rfl, rfl⟩, _, _, rfl, rfl, rfl, rfl, rfl⟩

end HeadFwd.Ios
