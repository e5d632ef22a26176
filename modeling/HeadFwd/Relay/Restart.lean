import HeadFwd.Relay.Server

/-! # Restarts of the relay

The relay keeps its state in memory. What survives a restart is not state of the
relay but what left it before: answers on their way, and the random draws, which
no later draw repeats.
-/

namespace HeadFwd.Relay

open Text Net Crypto Transition

/-- What a restart leaves: the answers already sent, and the draws made so far as history. -/
def Registry.restart (s : Registry) : Registry where
  challenges := .empty
  registrations := .empty
  inits i := match s.inits i with
    | some (.replied r) => some (.replied r)
    | _ => none
  verifies i := match s.verifies i with
    | some (.replied r) => some (.replied r)
    | _ => none
  nonces := s.nonces
  secrets := s.secrets
  log := s.log

def Server.restart (s : Server) : Server where
  registry := s.registry.restart
  tunnels := .initial
  traffic := .initial

variable {P : Primitives} {env : Environment} {now : ℕ}

theorem Registry.restart_verifies {s : Registry} {i : ℕ} {t : VerifyThread}
    (h : s.restart.verifies i = some t) : s.verifies i = some t ∧ ∃ r, t = .replied r := by
  simp only [restart] at h
  split at h
  · rename_i r hi
    cases h
    exact ⟨hi, r, rfl⟩
  · cases h

theorem Registry.Fresh.restart {s : Registry} (h : s.Fresh) : s.restart.Fresh := by
  have hd : ∀ i secret, s.restart.Drew i secret → s.Drew i secret := by
    rintro i secret (⟨r, req, c, hi⟩ | hm)
    · exact .inl ⟨r, req, c, (restart_verifies hi).1⟩
    · exact .inr hm
  constructor
  · intro i secret hi
    exact h.drew i secret (hd i secret hi)
  · intro i j secret hi hj
    exact h.unique i j secret (hd i secret hi) (hd j secret hj)
  · intro i r req c fp proof secret c' hi
    exact h.unissued i r req c fp proof secret c' (restart_verifies hi).1

/-- The answers that grant a tunnel carry a secret whose issue is in the log. -/
def Registry.Granting (env : Environment) (s : Registry) : Prop :=
  ∀ j resp, s.verifies j = some (.replied (.ok resp)) →
    ∃ r fp secret proof c, resp = verifyResponse env r fp secret ∧
      .issued j fp proof secret c ∈ s.log

theorem Registry.Granting.step {s s' : Registry} {a : RegistryAction} (h : s.Granting env)
    (he : Effect P env now s a s') : s'.Granting env := by
  intro j resp hj
  have keep : s.verifies j = some (.replied (.ok resp)) →
      ∃ r fp secret proof c, resp = verifyResponse env r fp secret ∧
        .issued j fp proof secret c ∈ s'.log := by
    intro hj
    obtain ⟨r, fp, secret, proof, c, hresp, hm⟩ := h j resp hj
    exact ⟨r, fp, secret, proof, c, hresp, he.log_sublist.subset hm⟩
  cases he with
  | initReplied i e nonces hn => exact keep hj
  | initChecked i call publicKey hi hf => exact keep hj
  | initGenerated i random priv c hi hn hp hexp ha => exact keep hj
  | initStored i c hi => exact keep hj
  | verifyReplied i e hi => exact keep (Table.of_set hj (by simp))
  | verifyDropped i call e fp c hc hd => exact keep (Table.of_set hj (by simp))
  | verifyAdmitted i call r req c hi hc hexp ha => exact keep (Table.of_set hj (by simp))
  | verifyProved i random r req c fresh hi hp hf => exact keep (Table.of_set hj (by simp))
  | verifyAccepted i r req c secret hi =>
    rcases Table.set_eq_some_iff.mp hj with ⟨hji, ht⟩ | ⟨-, ht⟩
    · cases ht
      rw [hji]
      exact ⟨r, req.fingerprint, secret, req.proof, c, rfl, List.mem_cons_self⟩
    · exact keep ht

/-- The dials are numbered below some bound, the connections below the next number. -/
structure Tunnels.Numbered (s : Tunnels) : Prop where
  installed : ∀ i t, s.dials i = some (.installed t) → t < s.next
  bounded : ∃ n, ∀ i, n ≤ i → s.dials i = none

theorem Tunnels.Numbered.step {registrations : Table Bytes Registration} {s s' : Tunnels}
    {a : TunnelAction} (h : s.Numbered) (hs : s.step registrations a = some s') : s'.Numbered := by
  obtain ⟨n, hn⟩ := h.bounded
  have set_bounded : ∀ i d, ∃ m, ∀ k, m ≤ k → s.dials.set i d k = none := by
    intro i d
    use max n (i + 1)
    intro k hk
    rw [Table.set_of_ne (by omega), hn k (by omega)]
  rcases dials_step hs with ⟨hd, hx⟩ | ⟨i, host, auth, -, -, hd, hx⟩ | ⟨i, fp, auth, d, -, hd, hx⟩
  · constructor
    · rw [hd, hx]
      exact h.installed
    · exact ⟨n, hd ▸ hn⟩
  · constructor
    · rw [hd, hx]
      intro k t hk
      refine h.installed k t (Table.of_set hk ?_)
      rcases authorise_cases registrations host auth with ⟨e, he⟩ | ⟨reg, -, -, he⟩
      · simp [he]
      · simp [he]
    · rw [hd]
      exact set_bounded i _
  · constructor
    · rw [hd]
      intro k t hk
      rcases Table.set_eq_some_iff.mp hk with ⟨-, hk⟩ | ⟨-, hk⟩
      · rcases hx with ⟨rfl, -⟩ | ⟨rfl, hx⟩
        · cases hk
        · cases hk
          omega
      · have hlt := h.installed k t hk
        omega
    · rw [hd]
      exact set_bounded i _

/-- The invariant of the relay over restarts. -/
structure Server.Tracked (env : Environment) (s : Server) : Prop where
  fresh : s.registry.Fresh
  drawn : ∀ secret ∈ s.registry.secrets, ∃ random, random.length = 32 ∧ secret = randomHex random
  granting : s.registry.Granting env
  numbered : s.tunnels.Numbered

namespace Server

variable {s s' : Server} {a : Action}

theorem numbered_initial : Tunnels.initial.Numbered where
  installed := nofun
  bounded := ⟨0, fun _ _ => rfl⟩

theorem Tracked.initial : Server.initial.Tracked env where
  fresh := by
    constructor
    · rintro i secret (⟨r, req, c, hi⟩ | ⟨fp, proof, c, hm⟩)
      · cases hi
      · cases hm
    · rintro i j secret (⟨r, req, c, hi⟩ | ⟨fp, proof, c, hm⟩)
      · cases hi
      · cases hm
    · nofun
  drawn := nofun
  granting := nofun
  numbered := numbered_initial

theorem Tracked.restart (h : s.Tracked env) : s.restart.Tracked env where
  fresh := h.fresh.restart
  drawn := h.drawn
  granting := fun j resp hj => h.granting j resp (Registry.restart_verifies hj).1
  numbered := numbered_initial

theorem Tracked.step (h : s.Tracked env) (hs : s.step P env now a = some s') :
    s'.Tracked env := by
  rcases step_cases hs with ⟨b, r, -, hr, rfl⟩ | ⟨b, t, -, -, ht, rfl⟩ | ⟨b, x, -, -, rfl⟩
  · have he := Registry.step_effect hr
    refine ⟨h.fresh.step he, ?_, h.granting.step he, h.numbered⟩
    intro secret hm
    rcases Registry.secrets_step hr with hd | ⟨random, hl, hd⟩
    · exact h.drawn secret (hd ▸ hm)
    · rcases List.mem_cons.mp (hd ▸ hm) with rfl | hm
      · exact ⟨random, hl, rfl⟩
      · exact h.drawn secret hm
  · exact ⟨h.fresh, h.drawn, h.granting, h.numbered.step ht⟩
  · exact ⟨h.fresh, h.drawn, h.granting, h.numbered⟩

end Server

end HeadFwd.Relay
