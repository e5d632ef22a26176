import HeadFwd.Ios.Service

/-! # Nodes on the tailnet

Every connect makes a node of its own and puts it where the service holds its
node. Only a disconnect closes a node, and only the one it takes from there,
after it has stopped the portal proxy. A node that another one has replaced, or
that was made after the disconnect, stays on the tailnet.
-/

namespace HeadFwd.Ios

open Text Transition

/-- What a `disconnect` awaits with the node that it has taken: the proxy to stop, or the node to
close; or it is over. -/
inductive DisconnectThread where
  | stopping (node : Option ℕ)
  | closing (node : Option ℕ)
  | ended
  deriving DecidableEq, Repr

/-- The node that a `disconnect` is going to close. -/
def DisconnectThread.node : DisconnectThread → Option ℕ
  | .stopping node => node
  | .closing node => node
  | .ended => none

/-- The service with the nodes that were made and those that were closed, each named by the call
that made it, and the calls of `disconnect`. -/
structure Tailnet where
  service : Service
  created : ℕ → Bool
  closed : ℕ → Bool
  disconnects : Table ℕ DisconnectThread

def Tailnet.initial (saved : Option HeadscaleConfig) : Tailnet where
  service := .initial saved
  created := fun _ => false
  closed := fun _ => false
  disconnects := .empty

/-- The parts of `connect`, and those of `disconnect` and `clearState`, which treat the node alike.
An error of `close` is ignored. -/
inductive TailnetAction where
  | connect (i : ℕ) (config : HeadscaleConfig) (dirIsEmpty : Option Bool)
  | verified (i : ℕ) (e : Option Bytes) (nodeMade : Bool)
  | cameUp (i : ℕ) (e : Option Bytes)
  | addresses (i : ℕ) (ips : Option (Option Bytes × Option Bytes))
  | disconnect (d : ℕ)
  | proxyStopped (d : ℕ)
  | nodeClosed (d : ℕ)
  | store (config : Option HeadscaleConfig)
  deriving DecidableEq, Repr

/-- The node stays, and the state does not become `disconnected`. -/
def Service.Keeps (s s' : Service) : Prop :=
  s'.node = s.node ∧ (s'.connectionState = .disconnected → s.connectionState = .disconnected)

namespace Service

variable {s s' : Service} {i : ℕ}

theorem keeps_fail (s : Service) (i : ℕ) (msg : Bytes) : s.Keeps (s.fail i msg) := by
  refine ⟨rfl, fun h => ?_⟩
  by_cases hc : s.connectionState = .connecting
  · simp [fail, hc] at h
  · simpa [fail, hc] using h

theorem keeps_connect {config : HeadscaleConfig} {dirIsEmpty : Option Bool}
    (h : s.connect i config dirIsEmpty = some s') : s.Keeps s' := by
  unfold connect at h
  split at h
  · cases h
  · dsimp only at h
    split at h
    · cases h
      exact ⟨rfl, fun h => by cases h⟩
    · split_ifs at h
      · cases h
        exact ⟨rfl, fun h => by cases h⟩
      · cases h
        exact ⟨rfl, fun h => by cases h⟩

theorem keeps_cameUp {e : Option Bytes} (h : s.cameUp i e = some s') : s.Keeps s' := by
  unfold cameUp at h
  split at h
  · cases h
    exact s.keeps_fail i _
  · split_ifs at h
    all_goals
      cases h
      exact ⟨rfl, fun hs => hs⟩
  · cases h

theorem keeps_addresses {ips : Option (Option Bytes × Option Bytes)}
    (h : s.addresses i ips = some s') : s.Keeps s' := by
  unfold addresses at h
  split at h
  · cases h
    exact ⟨rfl, fun hs => hs⟩
  · cases h
    exact ⟨rfl, fun h => by cases h⟩
  · cases h

/-- A verified call makes its node, or ends. -/
theorem verified_cases {e : Option Bytes} {nodeMade : Bool}
    (h : s.verified i e nodeMade = some s') :
    (e = none ∧ nodeMade = true ∧ s'.node = some i ∧ s'.connectionState = s.connectionState) ∨
      ¬ (e = none ∧ nodeMade = true) ∧ s.Keeps s' := by
  unfold verified at h
  split at h
  · cases h
    exact .inr ⟨by simp, s.keeps_fail i _⟩
  · split_ifs at h with hn
    · cases h
      exact .inl ⟨rfl, hn, rfl, rfl⟩
    · cases h
      exact .inr ⟨fun hm => hn hm.2, rfl, fun hs => hs⟩
  · cases h

end Service

namespace Tailnet

def resume (s : Tailnet) (t : Option Service) : Option Tailnet := t.map fun t => { s with service := t }

def verified (s : Tailnet) (i : ℕ) (e : Option Bytes) (nodeMade : Bool) : Option Tailnet :=
  (s.service.verified i e nodeMade).map fun t => { s with
    service := t
    created := fun n => s.created n || (n = i && e = none && nodeMade) }

def disconnect (s : Tailnet) (d : ℕ) : Option Tailnet :=
  match s.disconnects d with
  | some _ => none
  | none => some { s with
    service := s.service.disconnect
    disconnects := s.disconnects.set d (.stopping s.service.node) }

def proxyStopped (s : Tailnet) (d : ℕ) : Option Tailnet :=
  match s.disconnects d with
  | some (.stopping node) => some { s with disconnects := s.disconnects.set d (.closing node) }
  | _ => none

def nodeClosed (s : Tailnet) (d : ℕ) : Option Tailnet :=
  match s.disconnects d with
  | some (.closing node) => some { s with
    closed := fun n => s.closed n || node = some n
    disconnects := s.disconnects.set d .ended }
  | _ => none

def step (s : Tailnet) : TailnetAction → Option Tailnet
  | .connect i config dirIsEmpty => s.resume (s.service.connect i config dirIsEmpty)
  | .verified i e nodeMade => s.verified i e nodeMade
  | .cameUp i e => s.resume (s.service.cameUp i e)
  | .addresses i ips => s.resume (s.service.addresses i ips)
  | .disconnect d => s.disconnect d
  | .proxyStopped d => s.proxyStopped d
  | .nodeClosed d => s.nodeClosed d
  | .store config => some { s with service := { s.service with saved := config } }

/-- A node on the tailnet. -/
def Open (s : Tailnet) (n : ℕ) : Prop := s.created n = true ∧ s.closed n = false

instance (s : Tailnet) (n : ℕ) : Decidable (s.Open n) := inferInstanceAs (Decidable (_ ∧ _))

/-- A node that a `disconnect` under way has taken. -/
def Captured (s : Tailnet) (n : ℕ) : Prop := ∃ d, (s.disconnects d).bind DisconnectThread.node = some n

/-- Every node on the tailnet is held or about to be closed, and none is held in the state
`disconnected`. -/
structure Accounted (s : Tailnet) : Prop where
  held : ∀ n, s.Open n → s.service.node = some n ∨ s.Captured n
  disconnected : s.service.connectionState = .disconnected → s.service.node = none

/-- Every node on the tailnet is the one that is held, and none is held in the state `disconnected`
when no connect is under way. -/
structure Owned (s : Tailnet) : Prop where
  held : ∀ n, s.Open n → s.service.node = some n
  disconnected : (∀ i t, s.service.calls i = some t → t = .ended) →
    s.service.connectionState = .disconnected → s.service.node = none

/-- A connect makes its node while none is held and the state is not `disconnected`. -/
def MadeInTurn (s : Tailnet) : TailnetAction → Prop
  | .verified _ e nodeMade => e = none → nodeMade = true →
    s.service.node = none ∧ s.service.connectionState ≠ .disconnected
  | _ => True

variable {s s' : Tailnet} {a : TailnetAction}

namespace Accounted

theorem keep (h : s.Accounted) {t : Service} (ht : s.service.Keeps t) :
    Accounted { s with service := t } := by
  obtain ⟨hnode, hstate⟩ := ht
  refine ⟨fun n hn => ?_, fun hd => ?_⟩
  · rw [hnode]
    exact h.held n hn
  · rw [hnode]
    exact h.disconnected (hstate hd)

theorem resume (h : s.Accounted) {t : Option Service} (ht : ∀ u ∈ t, s.service.Keeps u)
    (hs : s.resume t = some s') : s'.Accounted := by
  obtain ⟨u, hu, rfl⟩ := Option.map_eq_some_iff.mp hs
  exact h.keep (ht u hu)

theorem verified (h : s.Accounted) {i : ℕ} {e : Option Bytes} {nodeMade : Bool}
    (hg : s.MadeInTurn (.verified i e nodeMade)) (hs : s.verified i e nodeMade = some s') :
    s'.Accounted := by
  obtain ⟨t, ht, rfl⟩ := Option.map_eq_some_iff.mp hs
  rcases Service.verified_cases ht with ⟨rfl, rfl, hnode, hstate⟩ | ⟨hn, hkeep⟩
  · obtain ⟨hnone, hne⟩ := hg rfl rfl
    refine ⟨?_, fun hd => absurd (hstate ▸ hd) hne⟩
    rintro n ⟨hc, ho⟩
    by_cases hni : n = i
    · subst hni
      exact .inl hnode
    · right
      have hold : s.created n = true := by simpa [hni] using hc
      rcases h.held n ⟨hold, ho⟩ with hheld | hcaptured
      · cases hnone.symm.trans hheld
      · exact hcaptured
  · have hsame : (fun n => s.created n || (n = i && e = none && nodeMade)) = s.created := by
      funext n
      cases e <;> cases nodeMade <;> simp_all
    rw [hsame]
    exact h.keep hkeep

theorem disconnect (h : s.Accounted) {d : ℕ} (hs : s.disconnect d = some s') : s'.Accounted := by
  unfold Tailnet.disconnect at hs
  split at hs
  · cases hs
  · rename_i hd
    cases hs
    refine ⟨fun n hn => .inr ?_, fun _ => rfl⟩
    rcases h.held n hn with hheld | ⟨c, hc⟩
    · exact ⟨d, by simpa [DisconnectThread.node] using hheld⟩
    · have hcd : c ≠ d := by
        rintro rfl
        simp [hd] at hc
      exact ⟨c, by simpa [Table.set_of_ne hcd] using hc⟩

theorem proxyStopped (h : s.Accounted) {d : ℕ} (hs : s.proxyStopped d = some s') :
    s'.Accounted := by
  unfold Tailnet.proxyStopped at hs
  split at hs
  · rename_i node hd
    cases hs
    refine ⟨fun n hn => (h.held n hn).imp_right ?_, h.disconnected⟩
    rintro ⟨c, hc⟩
    refine ⟨c, ?_⟩
    by_cases hcd : c = d
    · subst hcd
      simpa [hd, DisconnectThread.node] using hc
    · simpa [Table.set_of_ne hcd] using hc
  · cases hs

theorem nodeClosed (h : s.Accounted) {d : ℕ} (hs : s.nodeClosed d = some s') : s'.Accounted := by
  unfold Tailnet.nodeClosed at hs
  split at hs
  · rename_i node hd
    cases hs
    refine ⟨?_, h.disconnected⟩
    rintro n ⟨hc, ho⟩
    simp only [Bool.or_eq_false_iff, decide_eq_false_iff_not] at ho
    refine (h.held n ⟨hc, ho.1⟩).imp_right ?_
    rintro ⟨c, hcn⟩
    refine ⟨c, ?_⟩
    have hcd : c ≠ d := by
      rintro rfl
      simp only [hd, Option.bind_some, DisconnectThread.node] at hcn
      exact ho.2 hcn
    simpa [Table.set_of_ne hcd] using hcn
  · cases hs

theorem step (h : s.Accounted) (hg : s.MadeInTurn a) (hs : s.step a = some s') :
    s'.Accounted := by
  cases a with
  | connect i config dirIsEmpty => exact h.resume (fun _ => Service.keeps_connect) hs
  | verified i e nodeMade => exact h.verified hg hs
  | cameUp i e => exact h.resume (fun _ => Service.keeps_cameUp) hs
  | addresses i ips => exact h.resume (fun _ => Service.keeps_addresses) hs
  | disconnect d => exact h.disconnect hs
  | proxyStopped d => exact h.proxyStopped hs
  | nodeClosed d => exact h.nodeClosed hs
  | store config =>
    cases hs
    exact h.keep ⟨rfl, fun hd => hd⟩

end Accounted

end Tailnet

/-- The service and its nodes from the launch of the app. -/
def tailnet : Machine Tailnet TailnetAction where
  init s := ∃ saved, s = .initial saved
  step := Tailnet.step

/-- In every state reached by runs in which each connect makes its node in its turn, the nodes on the
tailnet are accounted for. -/
theorem nodes_accounted {s : Tailnet} (hr : tailnet.Reach Tailnet.MadeInTurn s) :
    s.Accounted := by
  refine hr.invariant ?_ fun s a s' _ hg hs h => Tailnet.Accounted.step h hg hs
  rintro s ⟨saved, rfl⟩
  exact ⟨fun n hn => absurd hn.1 Bool.false_ne_true, fun _ => rfl⟩

instance (s : Tailnet) : (a : TailnetAction) → Decidable (s.MadeInTurn a)
  | .connect _ _ _ => .isTrue trivial
  | .verified _ _ _ => inferInstanceAs (Decidable (_ → _ → _ ∧ _))
  | .cameUp _ _ => .isTrue trivial
  | .addresses _ _ => .isTrue trivial
  | .disconnect _ => .isTrue trivial
  | .proxyStopped _ => .isTrue trivial
  | .nodeClosed _ => .isTrue trivial
  | .store _ => .isTrue trivial

/-- A connect up to its node. -/
def made (i : ℕ) : List TailnetAction :=
  [.connect i oldConfig (some true), .verified i none true]

/-- A disconnect up to its end. -/
def disconnection (d : ℕ) : List TailnetAction :=
  [.disconnect d, .proxyStopped d, .nodeClosed d]

/-- A connect after another one that was disconnected. -/
def reconnectedRun : List TailnetAction := made 0 ++ disconnection 0 ++ made 1 ++ [.cameUp 1 none]

theorem nodes_accounted_reconnectedRun :
    ∃ s, tailnet.exec (.initial (some oldConfig)) reconnectedRun = some s ∧ s.Accounted := by
  have h : (tailnet.exec (.initial (some oldConfig)) reconnectedRun).isSome := by decide +kernel
  obtain ⟨s, hr⟩ := Option.isSome_iff_exists.mp h
  refine ⟨s, hr, nodes_accounted (.meets (.init ⟨_, rfl⟩) ?_ hr)⟩
  decide +kernel

/-- While a disconnect waits for the node to close, nobody holds the node. A connect that timed out
leaves its node in place, and the next one replaces it for good. A connect that was cancelled while
it verified the key makes a node all the same, which is still up when the call has ended. -/
theorem nodes_orphaned :
    (∃ s, tailnet.exec (.initial (some oldConfig)) (made 0 ++ [.disconnect 0]) = some s ∧
      s.Open 0 ∧ s.service.node = none ∧ ¬ s.Owned) ∧
    (∃ s, tailnet.exec (.initial (some oldConfig))
        (made 0 ++ .cameUp 0 (some (str "Connection timed out")) :: made 1) = some s ∧
      s.Open 0 ∧ s.service.node = some 1 ∧ (∀ d, s.disconnects d = none) ∧ ¬ s.Owned) ∧
    ∃ s, tailnet.exec (.initial (some oldConfig)) (.connect 0 oldConfig (some true) ::
        disconnection 0 ++ [.verified 0 none true, .cameUp 0 none]) = some s ∧
      s.service.connectionState = .disconnected ∧ s.service.node = some 0 ∧ ¬ s.Owned := by
  refine ⟨⟨_, rfl, by decide, rfl, fun h => ?_⟩, ⟨_, rfl, by decide, rfl, fun _ => rfl, fun h => ?_⟩,
    _, rfl, rfl, rfl, fun h => ?_⟩
  · cases h.held 0 (by decide)
  · cases h.held 0 (by decide)
  · refine nomatch h.disconnected (fun i t ht => ?_) rfl
    change ((Table.empty.set 0 (.verifying oldConfig)).set 0 (.rising oldConfig)).set 0 .ended i =
      some t at ht
    by_cases hi : i = 0
    · subst hi
      exact (Option.some.inj ht).symm
    · rw [Table.set_of_ne hi, Table.set_of_ne hi, Table.set_of_ne hi] at ht
      cases ht

end HeadFwd.Ios
