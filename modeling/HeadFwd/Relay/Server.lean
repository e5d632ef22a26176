import HeadFwd.Relay.Provenance
import HeadFwd.Relay.Reconnect
import HeadFwd.Relay.Traffic
import HeadFwd.Relay.Vector

/-! # The relay

The registration handlers, the tunnel map and the traffic as one machine. The
parts meet in two places: a dial is authorised against the registrations, and
client requests and readers look into the tunnel map.
-/

namespace HeadFwd.Relay

open Text Net Crypto Transition

variable (P : Primitives) (env : Environment)

structure Server where
  registry : Registry
  tunnels : Tunnels
  traffic : Traffic

def Server.initial : Server where
  registry := .initial
  tunnels := .initial
  traffic := .initial

inductive Action where
  | registry (a : RegistryAction)
  | tunnel (a : TunnelAction)
  | traffic (a : TrafficAction)

/-- A reader takes a message off its connection. -/
def Action.reads : Action → Bool
  | .traffic (.read _ _) => true
  | _ => false

namespace Server

/-- A reader leaves its loop only between two messages. -/
def busy (s : Server) : TunnelAction → Bool
  | .readFail t => (s.traffic.readers t).isSome
  | _ => false

def step (now : ℕ) (s : Server) : Action → Option Server
  | .registry a => (s.registry.step P env now a).map fun registry => { s with registry }
  | .tunnel a =>
    if s.busy a then none
    else (s.tunnels.step s.registry.registrations a).map fun tunnels => { s with tunnels }
  | .traffic a => (s.traffic.step now s.tunnels a).map fun traffic => { s with traffic }

variable {P env} {now : ℕ} {s s' : Server} {a : Action}

/-- A step belongs to one of the parts. -/
theorem step_cases (h : s.step P env now a = some s') :
    (∃ b r, a = .registry b ∧ s.registry.step P env now b = some r ∧
      s' = { s with registry := r }) ∨
    (∃ b t, a = .tunnel b ∧ s.busy b = false ∧ s.tunnels.step s.registry.registrations b = some t ∧
      s' = { s with tunnels := t }) ∨
    ∃ b x, a = .traffic b ∧ s.traffic.step now s.tunnels b = some x ∧
      s' = { s with traffic := x } := by
  cases a with
  | registry b =>
    obtain ⟨r, hr, rfl⟩ := Option.map_eq_some_iff.mp h
    exact .inl ⟨b, r, rfl, hr, rfl⟩
  | tunnel b =>
    simp only [step] at h
    split_ifs at h with hb
    obtain ⟨t, ht, rfl⟩ := Option.map_eq_some_iff.mp h
    exact .inr (.inl ⟨b, t, rfl, eq_false_of_ne_true hb, ht, rfl⟩)
  | traffic b =>
    obtain ⟨x, hx, rfl⟩ := Option.map_eq_some_iff.mp h
    exact .inr (.inr ⟨b, x, rfl, hx, rfl⟩)

theorem step_dialBegin {i : ℕ} {host auth : Bytes} :
    s.step P env now (.tunnel (.dialBegin i host auth)) = some s' ↔
      s.tunnels.dials i = none ∧ s' = { s with tunnels := { s.tunnels with
        dials := s.tunnels.dials.set i (authorise s.registry.registrations host auth) } } := by
  cases hi : s.tunnels.dials i with
  | none => simp [step, busy, Tunnels.step, hi, eq_comm]
  | some d => simp [step, busy, Tunnels.step, hi]

/-- The traffic moves by its own steps only. -/
theorem step_traffic (h : s.step P env now a = some s') :
    s'.traffic = s.traffic ∧ (∀ b, a ≠ .traffic b) ∨
      ∃ b, a = .traffic b ∧ Traffic.Effect now s.tunnels s.traffic b s'.traffic := by
  rcases step_cases h with ⟨b, r, rfl, -, rfl⟩ | ⟨b, t, rfl, -, -, rfl⟩ | ⟨b, x, rfl, hx, rfl⟩
  · exact .inl ⟨rfl, nofun⟩
  · exact .inl ⟨rfl, nofun⟩
  · exact .inr ⟨b, rfl, Traffic.step_effect hx⟩

/-- Dials and connections carry secrets issued for their fingerprint. -/
structure Authentic (P : Primitives) (s : Server) : Prop where
  sound : s.registry.Sound P
  ordered : s.tunnels.Ordered
  dials : ∀ i fp auth, s.tunnels.dials i = some (.authorised fp auth) →
    Issued P s.registry.log fp auth
  conns : ∀ t c, s.tunnels.conns t = some c → Issued P s.registry.log c.fingerprint c.auth

theorem Authentic.initial : Server.initial.Authentic P where
  sound := .initial
  ordered := .initial
  dials := nofun
  conns := nofun

theorem Authentic.tunnel_step (h : s.Authentic P) {b : TunnelAction} {t' : Tunnels}
    (he : Tunnels.Effect s.registry.registrations s.tunnels b t') :
    Authentic P { s with tunnels := t' } := by
  refine ⟨h.sound, h.ordered.step he, ?_, ?_⟩
  · intro i fp auth hi
    cases he with
    | dialEnded k d hd ha => exact h.dials i fp auth (Table.of_set hi (hd fp auth))
    | dialAuthorised k host reg hr =>
      rcases Table.set_eq_some_iff.mp hi with ⟨-, hi⟩ | ⟨-, hi⟩
      · cases hi
        exact h.sound.registrations _ reg hr
      · exact h.dials i fp auth hi
    | installed k fp' auth' hk => exact h.dials i fp auth (Table.of_set hi nofun)
    | failed t c hc hr => exact h.dials i fp auth hi
    | cleaned t c hc hr => exact h.dials i fp auth hi
  · intro t c ht
    cases he with
    | dialEnded k d hd ha => exact h.conns t c ht
    | dialAuthorised k host reg hr => exact h.conns t c ht
    | installed k fp auth hk =>
      rcases Tunnels.install_conns h.ordered ht with ⟨-, rfl⟩ | ⟨d, hd, -, hf, ha, -⟩
      · exact h.dials k fp auth hk
      · rw [hf, ha]
        exact h.conns t d hd
    | failed u d hd hr =>
      rcases Table.set_eq_some_iff.mp ht with ⟨-, rfl⟩ | ⟨-, ht⟩
      · exact h.conns u d hd
      · exact h.conns t c ht
    | cleaned u d hd hr =>
      rcases Table.set_eq_some_iff.mp ht with ⟨-, rfl⟩ | ⟨-, ht⟩
      · exact h.conns u d hd
      · exact h.conns t c ht

theorem Authentic.step (h : s.Authentic P) (hs : s.step P env now a = some s') :
    s'.Authentic P := by
  rcases step_cases hs with ⟨b, r, -, hr, rfl⟩ | ⟨b, t, -, -, ht, rfl⟩ | ⟨b, x, -, -, rfl⟩
  · have he := Registry.step_effect hr
    exact ⟨h.sound.step he, h.ordered,
      fun i fp auth hi => h.sound.issued_step he (h.dials i fp auth hi),
      fun t c ht => h.sound.issued_step he (h.conns t c ht)⟩
  · exact h.tunnel_step (Tunnels.step_effect ht)
  · exact ⟨h.sound, h.ordered, h.dials, h.conns⟩

end Server

/-- The relay under any interleaving of its handlers and readers. -/
def relay : Machine (ℕ × Server) (ℕ × Action) := .timed (· = Server.initial) (Server.step P env)

variable {P env} {s : ℕ × Server}

theorem authentic_of_reachable (hr : (relay P env).Reachable s) : s.2.Authentic P := by
  refine hr.invariant (P := fun s => s.2.Authentic P) ?_ ?_
  · rintro ⟨now, s⟩ rfl
    exact .initial
  · rintro s a s' - - hs h
    obtain ⟨-, -, hs⟩ := Machine.timed_step.mp hs
    exact h.step hs

/-- The dial of a tunnel in the map carried a secret that was issued, for the fingerprint of the
entry, to a proof of possession of the registered key. -/
theorem tunnels_issued (hr : (relay P env).Reachable s) {fp : Bytes} {t : ℕ}
    (ht : s.2.tunnels.tunnels fp = some t) :
    ∃ c, s.2.tunnels.conns t = some c ∧ c.fingerprint = fp ∧
      Issued P s.2.registry.log fp c.auth := by
  have h := authentic_of_reachable hr
  obtain ⟨c, hc, rfl⟩ := h.ordered.current fp t ht
  exact ⟨c, hc, rfl, h.conns t c hc⟩

/-- Register, then dial the tunnel. -/
def connectRun : List (ℕ × Action) :=
  (Vector.registrationRun.map fun a => (a.1, .registry a.2)) ++
    [(2, .tunnel (.dialBegin 0 Vector.host Vector.secret)), (2, .tunnel (.dialInstall 0))]

theorem tunnels_issued_connectRun :
    ∃ s, (relay Vector.primitives {}).exec (0, Server.initial) connectRun = some s ∧
      s.2.tunnels.tunnels Vector.fingerprint = some 0 ∧
      ∃ c, s.2.tunnels.conns 0 = some c ∧ c.fingerprint = Vector.fingerprint ∧
        Issued Vector.primitives s.2.registry.log Vector.fingerprint c.auth := by
  have h : ((relay Vector.primitives {}).exec (0, Server.initial) connectRun).map
      (fun s => s.2.tunnels.tunnels Vector.fingerprint) = some (some 0) := by decide +kernel
  obtain ⟨s, hs, ht⟩ := Option.map_eq_some_iff.mp h
  have h₀ : (relay Vector.primitives {}).init (0, Server.initial) := rfl
  have hr : (relay Vector.primitives {}).Reachable s := .exec (fun _ _ _ => trivial) (.init h₀) hs
  exact ⟨s, hs, ht, tunnels_issued hr ht⟩

/-- A cleanup leaves the entries that point to other connections alone. -/
theorem cleanup_step {now t : ℕ} {s' : ℕ × Server}
    (hs : (relay P env).step s (now, .tunnel (.cleanup t)) = some s') :
    (∀ fp u, u ≠ t → (s'.2.tunnels.tunnels fp = some u ↔ s.2.tunnels.tunnels fp = some u)) ∧
      s'.2.tunnels.CleanedUp t := by
  obtain ⟨-, -, hs⟩ := Machine.timed_step.mp hs
  rcases Server.step_cases hs with ⟨b, r, hb, -⟩ | ⟨b, x, hb, -, hx, hs'⟩ | ⟨b, x, hb, -⟩
  · cases hb
  · cases hb
    rw [hs']
    cases Tunnels.step_effect hx with
    | dialEnded i d hd ha => rcases ha with ⟨host, auth, ha⟩ | ha <;> cases ha
    | cleaned t c hc hreader =>
      refine ⟨fun fp u hu => ?_, ⟨_, Table.set_self, rfl⟩⟩
      exact Tunnels.cleanup_tunnels.trans (and_iff_left fun _ => hu)
  · cases hb

/-- A cleanup is never undone. -/
theorem cleanedUp_exec {as : List (ℕ × Action)} {s' : ℕ × Server} (hr : (relay P env).Reachable s)
    {t : ℕ} (ht : s.2.tunnels.CleanedUp t) (h : (relay P env).exec s as = some s') :
    s'.2.tunnels.CleanedUp t := by
  -- The order of the tunnels, which a step relies on, is known of reachable states.
  have hrun := Machine.exec_invariant
    (Q := fun s => (relay P env).Reachable s ∧ s.2.tunnels.CleanedUp t) ?_ ⟨hr, ht⟩ h
  · exact hrun.2
  · rintro s a s' - hs ⟨hr, ht⟩
    refine ⟨.step hr trivial hs, ?_⟩
    obtain ⟨-, -, hs⟩ := Machine.timed_step.mp hs
    rcases Server.step_cases hs with ⟨b, r, -, -, hs'⟩ | ⟨b, x, -, -, hx, hs'⟩ | ⟨b, x, -, -, hs'⟩
    · rw [hs']
      exact ht
    · rw [hs']
      exact ht.step (authentic_of_reachable hr).ordered (Tunnels.step_effect hx)
    · rw [hs']
      exact ht

/-- Reconnect safety. The cleanup of `t` touches no entry of another connection, and afterwards no
entry ever points to `t`; the latest connection of a fingerprint is its entry until its own cleanup;
every other connection is closed. -/
theorem reconnect_safe (hr : (relay P env).Reachable s) :
    (∀ now t s', (relay P env).step s (now, .tunnel (.cleanup t)) = some s' →
      (∀ fp u, u ≠ t → (s'.2.tunnels.tunnels fp = some u ↔ s.2.tunnels.tunnels fp = some u)) ∧
      ∀ as s'', (relay P env).exec s' as = some s'' → ∀ fp, s''.2.tunnels.tunnels fp ≠ some t) ∧
    (∀ fp t, s.2.tunnels.Latest fp t → ¬ s.2.tunnels.CleanedUp t →
      s.2.tunnels.tunnels fp = some t) ∧
    ∀ t c, s.2.tunnels.conns t = some c → s.2.tunnels.tunnels c.fingerprint ≠ some t →
      c.closed = true := by
  have h := (authentic_of_reachable hr).ordered
  refine ⟨fun now t s' hs => ⟨(cleanup_step hs).1, fun as s'' hrun fp => ?_⟩, h.retained, h.replaced⟩
  have hr' : (relay P env).Reachable s' := .step hr trivial hs
  have hr'' : (relay P env).Reachable s'' := .exec (fun _ _ _ => trivial) hr' hrun
  exact (authentic_of_reachable hr'').ordered.retracted fp t
    (cleanedUp_exec hr' (cleanup_step hs).2 hrun)

/-- Dial again while the first connection is up; the first one then fails. -/
def redialRun : List (ℕ × Action) :=
  connectRun ++ [(3, .tunnel (.dialBegin 1 Vector.host Vector.secret)),
    (3, .tunnel (.dialInstall 1)), (4, .tunnel (.readFail 0))]

/-- The late cleanup of the first connection keeps the entry of the second. -/
theorem reconnect_safe_redialRun :
    ∃ s s', (relay Vector.primitives {}).exec (0, Server.initial) redialRun = some s ∧
      (relay Vector.primitives {}).step s (5, .tunnel (.cleanup 0)) = some s' ∧
      s.2.tunnels.tunnels Vector.fingerprint = some 1 ∧
      s'.2.tunnels.tunnels Vector.fingerprint = some 1 := by
  have h : ((relay Vector.primitives {}).exec (0, Server.initial) redialRun).map
      (fun s => (s.2.tunnels.tunnels Vector.fingerprint,
        ((relay Vector.primitives {}).step s (5, .tunnel (.cleanup 0))).isSome)) =
      some (some 1, true) := by decide +kernel
  obtain ⟨s, hs, h⟩ := Option.map_eq_some_iff.mp h
  obtain ⟨ht, hc⟩ := Prod.mk.injEq .. ▸ h
  obtain ⟨s', hs'⟩ := Option.isSome_iff_exists.mp hc
  have h₀ : (relay Vector.primitives {}).init (0, Server.initial) := rfl
  have hr : (relay Vector.primitives {}).Reachable s := .exec (fun _ _ _ => trivial) (.init h₀) hs
  exact ⟨s, s', hs, hs', ht,
    (((reconnect_safe hr).1 5 0 s' hs').1 Vector.fingerprint 1 Nat.one_ne_zero).mpr ht⟩

end HeadFwd.Relay
