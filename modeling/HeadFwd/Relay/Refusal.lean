import HeadFwd.Relay.InFlight

/-! # Refused init requests

An init request for a key with a challenge in flight is refused. The refusal
names an expiry after which the key should be free again. Whether it is depends
on who else writes a challenge for the key: the check reads the map and nothing
else, and any caller who knows the public key may write to it.
-/

namespace HeadFwd.Relay

open Text Net Crypto Transition

variable {P : Primitives} {env : Environment}

namespace Registry

/-- Init request `i` was answered with a conflict. -/
def Refused (s : Registry) (i : ℕ) : Prop :=
  ∃ text, s.inits i = some (.replied (.error ⟨text, 409⟩))

/-- From now on and not before the instant `expiry`, no init request for the key is refused. -/
def Admits (P : Primitives) (env : Environment) (publicKey : Bytes) (expiry : ℕ)
    (s : ℕ × Registry) : Prop :=
  ∀ now i call s', expiry ≤ now → initPublicKey call = .ok publicKey →
    (registry P env).step s (now, .initBegin i call) = some s' → ¬ s'.2.Refused i

/-- A challenge written for the fingerprint expires by the given instant, or has expired when it is
written. -/
def WrittenBy (P : Primitives) (fp : Bytes) (expiry now : ℕ) (s : Registry) :
    RegistryAction → Prop
  | .initStore i => ∀ c, s.inits i = some (.generated c) → computeFingerprint P c.publicKey = fp →
      c.expiresAt ≤ max expiry now
  | _ => True

/-- The stored challenge of the fingerprint, if any, expires by the given instant or has expired. -/
def ExpiresBy (fp : Bytes) (expiry now : ℕ) (s : Registry) : Prop :=
  ∀ c, s.challenges fp = some c → c.expiresAt ≤ max expiry now

/-- Only finitely many init requests have been received. -/
def Finite (s : Registry) : Prop := ∃ n, ∀ i, n ≤ i → s.inits i = none

variable {now : ℕ} {s s' : Registry} {a : RegistryAction} {publicKey : Bytes} {expiry : ℕ}

/-- A conflict is answered exactly when a stored challenge has not expired. -/
theorem initBegin_refused {i : ℕ} {call : Call RegistrationInitRequest}
    (hk : initPublicKey call = .ok publicKey) (h : s.initBegin P now i call = some s') :
    s'.Refused i ↔ ∃ c, s.challenges (computeFingerprint P publicKey) = some c ∧
      now < c.expiresAt := by
  unfold initBegin at h
  split at h
  · cases h
  · rename_i he
    cases hk.symm.trans he
  · rename_i key hi hkey
    cases hk.symm.trans hkey
    split at h
    · rename_i c hc
      split_ifs at h with hlt
      · cases h
        exact iff_of_true ⟨_, Table.set_self⟩ ⟨c, hc, hlt⟩
      · cases h
        refine iff_of_false ?_ ?_
        · rintro ⟨text, ht⟩
          cases Table.set_self.symm.trans ht
        · rintro ⟨d, hd, hlt'⟩
          cases hc.symm.trans hd
          exact hlt hlt'
    · rename_i hc
      cases h
      refine iff_of_false ?_ ?_
      · rintro ⟨text, ht⟩
        cases Table.set_self.symm.trans ht
      · rintro ⟨d, hd, -⟩
        cases hc.symm.trans hd

theorem Finite.step (h : s.Finite) (he : Effect P env now s a s') : s'.Finite := by
  obtain ⟨n, hn⟩ := h
  have bump : ∀ {k t}, ∃ m, ∀ i, m ≤ i → s.inits.set k t i = none := fun {k t} =>
    ⟨max n (k + 1), fun i hi => by
      rw [Table.set_of_ne (by omega)]
      exact hn i (by omega)⟩
  cases he with
  | initReplied k e nonces hn => exact bump
  | initChecked k call publicKey hk hf => exact bump
  | initGenerated k random priv c hk hn hp hexp ha => exact bump
  | initStored k c hk => exact bump
  | _ => exact ⟨n, hn⟩

theorem ExpiresBy.later {fp : Bytes} {past : ℕ} (h : s.ExpiresBy fp expiry past) (hle : past ≤ now) :
    s.ExpiresBy fp expiry now := fun c hc =>
  (h c hc).trans (max_le (le_max_left _ _) (hle.trans (le_max_right _ _)))

theorem ExpiresBy.step {fp : Bytes} (h : s.ExpiresBy fp expiry now)
    (ha : s.WrittenBy P fp expiry now a) (he : Effect P env now s a s') :
    s'.ExpiresBy fp expiry now := by
  intro c hc
  cases he with
  | initStored k d hk =>
    rcases Table.set_eq_some_iff.mp hc with ⟨hfp, rfl⟩ | ⟨-, hc⟩
    · exact ha d hk hfp.symm
    · exact h c hc
  | verifyAdmitted k call r req d hk hd hexp hb =>
    rcases Table.set_eq_some_iff.mp hc with ⟨rfl, rfl⟩ | ⟨-, hc⟩
    · exact h d hd
    · exact h c hc
  | verifyDropped k call e fp' d hd hdrop => exact h c (Table.of_erase hc)
  | verifyAccepted k r req d secret hk => exact h c (Table.of_erase hc)
  | _ => exact h c hc

/-- A challenge written for longer is there afterwards. -/
theorem not_expiresBy_of_not_writtenBy {fp : Bytes} (ha : ¬ s.WrittenBy P fp expiry now a)
    (h : s.step P env now a = some s') : ¬ s'.ExpiresBy fp expiry now := by
  cases a with
  | initStore k =>
    simp only [WrittenBy, not_forall] at ha
    obtain ⟨c, hk, hfp, hexp⟩ := ha
    simp only [step, initStore, hk] at h
    cases h
    subst hfp
    exact fun he => hexp (he c Table.set_self)
  | _ => exact absurd trivial ha

theorem initBegin_isSome {i : ℕ} {call : Call RegistrationInitRequest} (hi : s.inits i = none) :
    ∃ s', s.initBegin P now i call = some s' := by
  unfold initBegin
  rw [hi]
  split
  · contradiction
  · exact ⟨_, rfl⟩
  · split
    · split_ifs
      · exact ⟨_, rfl⟩
      · exact ⟨_, rfl⟩
    · exact ⟨_, rfl⟩

/-- Whether the next init request for the key is refused is decided by the stored challenge. -/
theorem admits_iff {s : ℕ × Registry} {call : Call RegistrationInitRequest}
    (hk : initPublicKey call = .ok publicKey) (hf : s.2.Finite) :
    Admits P env publicKey expiry s ↔
      s.2.ExpiresBy (computeFingerprint P publicKey) expiry s.1 := by
  constructor
  · intro h c hc
    by_contra hlt
    obtain ⟨n, hn⟩ := hf
    obtain ⟨t, ht⟩ : ∃ t, s.2.initBegin P (max expiry s.1) n call = some t :=
      initBegin_isSome (hn n le_rfl)
    refine h (max expiry s.1) n call (max expiry s.1, t) (le_max_left _ _) hk ?_ ?_
    · exact Machine.timed_step.mpr ⟨le_max_right _ _, rfl, ht⟩
    · exact (initBegin_refused hk ht).mpr ⟨c, hc, not_le.mp hlt⟩
  · intro h now i call' s' hle hk' hs hr
    obtain ⟨hclock, -, hs⟩ := Machine.timed_step.mp hs
    obtain ⟨c, hc, hlt⟩ := (initBegin_refused hk' hs).mp hr
    exact absurd ((h c hc).trans (max_le hle hclock)) (not_le.mpr hlt)

end Registry

variable {s t s' : ℕ × Registry} {publicKey : Bytes} {c : Challenge}

theorem finite_of_reachable (hr : (registry P env).Reachable s) : s.2.Finite := by
  refine hr.invariant (P := fun s => s.2.Finite) ?_ ?_
  · rintro ⟨now, s⟩ rfl
    exact ⟨0, fun _ _ => rfl⟩
  · intro s a s' _ _ hs h
    exact h.step (Registry.step_effect (Machine.timed_step.mp hs).2.2)

/-- An init request that meets a challenge is refused until this challenge expires. From its expiry
on the key is free, in every state of the run that follows, exactly when every challenge written for
the fingerprint since then expires no later or has already expired when it is written. -/
theorem refused_until_expiry_iff (hr : (registry P env).Reachable s) {now i : ℕ}
    {call : Call RegistrationInitRequest} (hk : initPublicKey call = .ok publicKey)
    (hc : s.2.challenges (computeFingerprint P publicKey) = some c)
    (hs : (registry P env).step s (now, .initBegin i call) = some t)
    {as : List (ℕ × RegistryAction)} (h : (registry P env).exec t as = some s') :
    (t.2.Refused i ↔ now < c.expiresAt) ∧
    ((registry P env).Along (Registry.Admits P env publicKey c.expiresAt) t as ↔
      (registry P env).Meets (fun u a =>
        u.2.WrittenBy P (computeFingerprint P publicKey) c.expiresAt a.1 a.2) t as) := by
  let fp := computeFingerprint P publicKey
  have hf : t.2.Finite := finite_of_reachable (.step hr trivial hs)
  obtain ⟨-, hn, hs⟩ := Machine.timed_step.mp hs
  have ht : t.2.ExpiresBy fp c.expiresAt t.1 := by
    have hbefore : s.2.ExpiresBy fp c.expiresAt now := by
      intro d hd
      cases hc.symm.trans hd
      exact le_max_left _ _
    rw [hn]
    exact hbefore.step (a := .initBegin i call) trivial (Registry.step_effect hs)
  constructor
  · rw [Registry.initBegin_refused hk hs]
    simp [hc]
  refine Machine.along_iff_meets
    (I := fun u => u.2.Finite ∧ u.2.ExpiresBy fp c.expiresAt u.1) ?_ ?_ ?_ ⟨hf, ht⟩ h
  · rintro u ⟨hfin, hexp⟩
    exact (Registry.admits_iff hk hfin).mpr hexp
  · rintro u a u' ⟨hfin, hexp⟩ hw hu
    obtain ⟨hle, hn, hu⟩ := Machine.timed_step.mp hu
    have he := Registry.step_effect hu
    rw [hn]
    exact ⟨hfin.step he, (hexp.later hle).step hw he⟩
  · rintro u a u' ⟨hfin, hexp⟩ hw hu hadm
    obtain ⟨hle, hn, hu⟩ := Machine.timed_step.mp hu
    have hu' := (Registry.admits_iff hk (hfin.step (Registry.step_effect hu))).mp hadm
    rw [hn] at hu'
    exact Registry.not_expiresBy_of_not_writtenBy hw hu hu'

/-- The holder of the key is refused and comes back after the expiry; nobody else writes a
challenge. -/
theorem refused_until_expiry_iff_initSteps :
    ∃ s t s' : ℕ × Registry,
      (registry Vector.primitives {}).exec (0, Registry.initial) Vector.initSteps = some s ∧
      (registry Vector.primitives {}).step s (1, .initBegin 1 Vector.initCall) = some t ∧
      t.2.Refused 1 ∧
      (registry Vector.primitives {}).exec t [(5 * minute, .initBegin 2 Vector.initCall)] = some s' ∧
      (registry Vector.primitives {}).Along
        (Registry.Admits Vector.primitives {} Vector.publicKey (5 * minute)) t
        [(5 * minute, .initBegin 2 Vector.initCall)] := by
  let P := Vector.primitives
  obtain ⟨s, hs⟩ : ∃ s, (registry P {}).exec (0, Registry.initial) Vector.initSteps = some s :=
    ⟨_, rfl⟩
  have h₀ : (registry P {}).init (0, Registry.initial) := rfl
  have hr : (registry P {}).Reachable s := .exec (fun _ _ _ => trivial) (.init h₀) hs
  have hk : initPublicKey Vector.initCall = .ok Vector.publicKey := by decide +kernel
  have hc : s.2.challenges (computeFingerprint P Vector.publicKey) = some Vector.challenge := by
    cases hs
    rfl
  obtain ⟨t, ht⟩ : ∃ t, (registry P {}).step s (1, .initBegin 1 Vector.initCall) = some t := by
    cases hs
    exact ⟨_, rfl⟩
  obtain ⟨s', hs'⟩ : ∃ s', (registry P {}).exec t [(5 * minute, .initBegin 2 Vector.initCall)] =
      some s' := by
    cases hs
    cases ht
    exact ⟨_, rfl⟩
  have h := refused_until_expiry_iff hr hk hc ht hs'
  exact ⟨s, t, s', hs, ht, h.1.mpr (by decide), hs', h.2.mpr ⟨trivial, fun _ _ => trivial⟩⟩

/-- Somebody else holds the challenge and writes the next one when it expires. -/
def renewalRun : List (ℕ × RegistryAction) :=
  Vector.initSteps ++
    [(1, .initBegin 1 Vector.initCall), (5 * minute, .initBegin 2 Vector.initCall),
      (5 * minute, .initGenerate 2 (List.replicate 32 5) (some Vector.ephemeralPriv)),
      (5 * minute, .initStore 2), (5 * minute + 1, .initBegin 3 Vector.initCall)]

/-- The holder of the key is refused because of a challenge, and refused again after its expiry. -/
theorem renewalRun_refused :
    ∃ s t s' : ℕ × Registry,
      (registry Vector.primitives {}).exec (0, Registry.initial) Vector.initSteps = some s ∧
      (s.2.challenges Vector.fingerprint).map Challenge.expiresAt = some (5 * minute) ∧
      (registry Vector.primitives {}).step s (1, .initBegin 1 Vector.initCall) = some t ∧
      t.2.Refused 1 ∧
      (registry Vector.primitives {}).exec (0, Registry.initial) renewalRun = some s' ∧
      5 * minute ≤ s'.1 ∧ s'.2.Refused 3 :=
  ⟨_, _, _, rfl, rfl, rfl, ⟨_, rfl⟩, rfl, by decide, ⟨_, rfl⟩⟩

end HeadFwd.Relay
