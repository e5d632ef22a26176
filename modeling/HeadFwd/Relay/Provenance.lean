import HeadFwd.Relay.Registry

/-! # Where tunnel secrets come from

Every challenge in the map was stored by an init request for its own
fingerprint, every verify request in progress read such a challenge while it
was valid, and every registered secret was issued to a verify request that
presented the expected proof. The log orders the three events.
-/

namespace HeadFwd.Relay

open Text Net Crypto Transition

open scoped List

variable {P : Primitives} {env : Environment}

/-- A challenge as it was stored, before any attempt was counted. -/
def Challenge.untried (c : Challenge) : Challenge := { c with attempts := 0 }

/-- The challenge was made for a public key with the fingerprint, and its ephemeral public key
belongs to its private key. -/
structure Challenge.For (P : Primitives) (fp : Bytes) (c : Challenge) : Prop where
  fingerprint : computeFingerprint P c.publicKey = fp
  ephemeral : c.ephemeralPubHex = encodeHex (P.x25519Public c.ephemeralPriv)

/-- An init request stored the challenge under the fingerprint. -/
def Stored (P : Primitives) (log : List RegistryEvent) (fp : Bytes) (c : Challenge) : Prop :=
  c.For P fp ∧ ∃ j, .stored j fp c.untried ∈ log

/-- Request `i` read the challenge, stored before, no later than its expiry. -/
def Read (P : Primitives) (log : List RegistryEvent) (i : ℕ) (fp : Bytes) (c : Challenge) : Prop :=
  c.For P fp ∧ ∃ j now, now ≤ c.expiresAt ∧
    [.admitted i fp c now, .stored j fp c.untried] <+ log

/-- The proof is the one expected for the challenge. -/
def Proves (P : Primitives) (fp proof : Bytes) (c : Challenge) : Prop :=
  ∃ shared, sharedSecret P c = .ok shared ∧
    registrationProof P shared fp c.publicKey c.nonce c.ephemeralPubHex = some proof

/-- The secret was generated by a verify request for the fingerprint that presented the proof
expected for a challenge, read no later than its expiry and stored before by an init request for a
public key with this fingerprint. No other request was issued the secret. -/
def Issued (P : Primitives) (log : List RegistryEvent) (fp secret : Bytes) : Prop :=
  ∃ i j now proof c, [.issued i fp proof secret c, .admitted i fp c now,
      .stored j fp c.untried] <+ log ∧ now ≤ c.expiresAt ∧ c.For P fp ∧ Proves P fp proof c ∧
    ∀ i' fp' proof' c', .issued i' fp' proof' secret c' ∈ log →
      i' = i ∧ fp' = fp ∧ proof' = proof ∧ c' = c

theorem checkProof_eq_ok {req : RegistrationVerifyRequest} {c : Challenge} :
    checkProof P req c = .ok () ↔ Proves P req.fingerprint req.proof c := by
  unfold checkProof Proves
  cases sharedSecret P c with
  | error e => simp [bind, Except.bind]
  | ok shared =>
    simp only [bind, Except.bind, Except.ok.injEq, exists_eq_left']
    split
    · rename_i hr
      simp [hr, throw, throwThe, MonadExceptOf.throw]
    · rename_i expected hr
      rw [hr, Option.some.injEq, eq_comm (a := expected), ← timingSafeEqual_eq_true]
      split_ifs with he
      · exact iff_of_true rfl he
      · exact iff_of_false nofun he

theorem Challenge.For.counted {fp : Bytes} {c : Challenge} (h : c.For P fp) (n : ℕ) :
    Challenge.For P fp { c with attempts := n } := ⟨h.fingerprint, h.ephemeral⟩

theorem Stored.mono {log log' : List RegistryEvent} {fp : Bytes} {c : Challenge}
    (h : Stored P log fp c) (hl : log <+ log') : Stored P log' fp c := by
  obtain ⟨hf, j, hj⟩ := h
  exact ⟨hf, j, hl.subset hj⟩

theorem Read.mono {log log' : List RegistryEvent} {i : ℕ} {fp : Bytes} {c : Challenge}
    (h : Read P log i fp c) (hl : log <+ log') : Read P log' i fp c := by
  obtain ⟨hf, j, now, hn, hj⟩ := h
  exact ⟨hf, j, now, hn, hj.trans hl⟩

theorem Issued.cons {log : List RegistryEvent} {fp secret : Bytes} {e : RegistryEvent}
    (h : Issued P log fp secret) (he : ∀ i fp' proof c, e ≠ .issued i fp' proof secret c) :
    Issued P (e :: log) fp secret := by
  obtain ⟨i, j, now, proof, c, hl, hn, hf, hp, hu⟩ := h
  refine ⟨i, j, now, proof, c, hl.cons _, hn, hf, hp, fun i' fp' proof' c' hm => ?_⟩
  rcases List.mem_cons.mp hm with hm | hm
  · exact absurd hm.symm (he i' fp' proof' c')
  · exact hu i' fp' proof' c' hm

namespace Registry

/-- What the log says about every challenge the handlers hold. -/
structure Traced (P : Primitives) (s : Registry) : Prop where
  generated : ∀ i c, s.inits i = some (.generated c) →
    c.For P (computeFingerprint P c.publicKey) ∧ c.untried = c
  challenges : ∀ fp c, s.challenges fp = some c → Stored P s.log fp c
  admitted : ∀ i r req c, s.verifies i = some (.admitted r req c) → Read P s.log i req.fingerprint c
  proved : ∀ i r req c secret, s.verifies i = some (.proved r req c secret) →
    Read P s.log i req.fingerprint c ∧ Proves P req.fingerprint req.proof c

/-- Request `i` has drawn the secret: it found its proof right and has not stored it yet, or its
issue is in the log. -/
def Drew (s : Registry) (i : ℕ) (secret : Bytes) : Prop :=
  (∃ r req c, s.verifies i = some (.proved r req c secret)) ∨
    ∃ fp proof c, .issued i fp proof secret c ∈ s.log

/-- Random draws are told apart: a secret belongs to one request, which issues it once. -/
structure Fresh (s : Registry) : Prop where
  drew : ∀ i secret, s.Drew i secret → secret ∈ s.secrets
  unique : ∀ i j secret, s.Drew i secret → s.Drew j secret → i = j
  unissued : ∀ i r req c fp proof secret c', s.verifies i = some (.proved r req c secret) →
    .issued i fp proof secret c' ∉ s.log

/-- The invariant of the registration handlers. -/
structure Sound (P : Primitives) (s : Registry) : Prop where
  traced : s.Traced P
  fresh : s.Fresh
  registrations : ∀ fp r, s.registrations fp = some r → Issued P s.log fp r.secret

variable {now : ℕ} {s s' : Registry} {a : RegistryAction}

theorem Effect.log_sublist (h : Effect P env now s a s') : s.log <+ s'.log := by
  cases h <;> simp

theorem Traced.step (h : s.Traced P) (he : Effect P env now s a s') : s'.Traced P := by
  have hlog := he.log_sublist
  have keep : ∀ fp c, s.challenges fp = some c → Stored P s'.log fp c := fun fp c hc =>
    (h.challenges fp c hc).mono hlog
  have read : ∀ i r req c, s.verifies i = some (.admitted r req c) →
      Read P s'.log i req.fingerprint c := fun i r req c hi => (h.admitted i r req c hi).mono hlog
  have prove : ∀ i r req c secret, s.verifies i = some (.proved r req c secret) →
      Read P s'.log i req.fingerprint c ∧ Proves P req.fingerprint req.proof c :=
    fun i r req c secret hi => ⟨(h.proved i r req c secret hi).1.mono hlog,
      (h.proved i r req c secret hi).2⟩
  cases he with
  | initReplied i e nonces hn =>
    exact ⟨fun k c hk => h.generated k c (Table.of_set hk nofun), keep, read, prove⟩
  | initChecked i call publicKey hi hf =>
    exact ⟨fun k c hk => h.generated k c (Table.of_set hk nofun), keep, read, prove⟩
  | initGenerated i random priv c hi hn hp hexp ha =>
    refine ⟨fun k d hk => ?_, keep, read, prove⟩
    rcases Table.set_eq_some_iff.mp hk with ⟨-, hk⟩ | ⟨-, hk⟩
    · cases hk
      exact ⟨⟨rfl, hp⟩, by rw [Challenge.untried, ← ha]⟩
    · exact h.generated k d hk
  | initStored i c hi =>
    obtain ⟨hf, hu⟩ := h.generated i c hi
    refine ⟨fun k d hk => h.generated k d (Table.of_set hk nofun), fun fp d hd => ?_, read, prove⟩
    rcases Table.set_eq_some_iff.mp hd with ⟨rfl, rfl⟩ | ⟨-, hd⟩
    · exact ⟨hf, i, by rw [hu]; exact List.mem_cons_self⟩
    · exact keep fp d hd
  | verifyReplied i e hi =>
    exact ⟨h.generated, keep, fun k r req c hk => read k r req c (Table.of_set hk nofun),
      fun k r req c secret hk => prove k r req c secret (Table.of_set hk nofun)⟩
  | verifyDropped i call e fp c hc hd =>
    exact ⟨h.generated, fun fp' d hfp => keep fp' d (Table.of_erase hfp),
      fun k r req c hk => read k r req c (Table.of_set hk nofun),
      fun k r req c secret hk => prove k r req c secret (Table.of_set hk nofun)⟩
  | verifyAdmitted i call r req c hi hc hexp ha =>
    obtain ⟨hf, j, hj⟩ := h.challenges _ c hc
    refine ⟨h.generated, fun fp d hd => ?_, fun k r' req' d hk => ?_,
      fun k r' req' d secret hk => prove k r' req' d secret (Table.of_set hk nofun)⟩
    · rcases Table.set_eq_some_iff.mp hd with ⟨rfl, rfl⟩ | ⟨-, hd⟩
      · exact ⟨hf.counted _, j, List.mem_cons_of_mem _ hj⟩
      · exact keep fp d hd
    · rcases Table.set_eq_some_iff.mp hk with ⟨rfl, hk'⟩ | ⟨-, hk'⟩
      · cases hk'
        exact ⟨hf.counted _, j, now, hexp, (List.singleton_sublist.mpr hj).cons_cons _⟩
      · exact read k r' req' d hk'
  | verifyProved i random r req c secret hi hp hs =>
    refine ⟨h.generated, keep, fun k r' req' d hk => read k r' req' d (Table.of_set hk nofun),
      fun k r' req' d secret' hk => ?_⟩
    rcases Table.set_eq_some_iff.mp hk with ⟨rfl, hk'⟩ | ⟨-, hk'⟩
    · cases hk'
      exact ⟨read k r req c hi, checkProof_eq_ok.mp hp⟩
    · exact prove k r' req' d secret' hk'
  | verifyAccepted i r req c secret hi =>
    exact ⟨h.generated, fun fp d hfp => keep fp d (Table.of_erase hfp),
      fun k r' req' d hk => read k r' req' d (Table.of_set hk nofun),
      fun k r' req' d secret' hk => prove k r' req' d secret' (Table.of_set hk nofun)⟩

/-- A draw after a step was a draw before it, unless the step found a proof right and drew a secret
not seen before. -/
theorem Effect.drew (he : Effect P env now s a s') :
    (s'.secrets = s.secrets ∧ ∀ k secret, s'.Drew k secret → s.Drew k secret) ∨
      ∃ i fresh, fresh ∉ s.secrets ∧ s'.secrets = fresh :: s.secrets ∧
        ∀ k secret, s'.Drew k secret → k = i ∧ secret = fresh ∨ s.Drew k secret := by
  cases he with
  | initReplied i e nonces hn => exact .inl ⟨rfl, fun k secret h => h⟩
  | initChecked i call publicKey hi hf => exact .inl ⟨rfl, fun k secret h => h⟩
  | initGenerated i random priv c hi hn hp hexp ha => exact .inl ⟨rfl, fun k secret h => h⟩
  | initStored i c hi =>
    refine .inl ⟨rfl, fun k secret h => ?_⟩
    rcases h with h | ⟨fp, proof, d, hm⟩
    · exact .inl h
    · exact .inr ⟨fp, proof, d, (List.mem_cons.mp hm).resolve_left nofun⟩
  | verifyReplied i e hi =>
    refine .inl ⟨rfl, fun k secret h => ?_⟩
    rcases h with ⟨r, req, c, hk⟩ | h
    · exact .inl ⟨r, req, c, Table.of_set hk nofun⟩
    · exact .inr h
  | verifyDropped i call e fp c hc hd =>
    refine .inl ⟨rfl, fun k secret h => ?_⟩
    rcases h with ⟨r, req, c, hk⟩ | h
    · exact .inl ⟨r, req, c, Table.of_set hk nofun⟩
    · exact .inr h
  | verifyAdmitted i call r req c hi hc hexp ha =>
    refine .inl ⟨rfl, fun k secret h => ?_⟩
    rcases h with ⟨r, req, c, hk⟩ | ⟨fp, proof, d, hm⟩
    · exact .inl ⟨r, req, c, Table.of_set hk nofun⟩
    · exact .inr ⟨fp, proof, d, (List.mem_cons.mp hm).resolve_left nofun⟩
  | verifyProved i random r req c fresh hi hp hs =>
    refine .inr ⟨i, fresh, hs, rfl, fun k secret h => ?_⟩
    rcases h with ⟨r', req', d, hk⟩ | h
    · rcases Table.set_eq_some_iff.mp hk with ⟨hki, hk'⟩ | ⟨-, hk'⟩
      · cases hk'
        exact .inl ⟨hki, rfl⟩
      · exact .inr (.inl ⟨r', req', d, hk'⟩)
    · exact .inr (.inr h)
  | verifyAccepted i r req c fresh hi =>
    refine .inl ⟨rfl, fun k secret h => ?_⟩
    rcases h with ⟨r', req', d, hk⟩ | ⟨fp, proof, d, hm⟩
    · exact .inl ⟨r', req', d, Table.of_set hk nofun⟩
    · rcases List.mem_cons.mp hm with hm | hm
      · cases hm
        exact .inl ⟨r, req, c, hi⟩
      · exact .inr ⟨fp, proof, d, hm⟩

theorem Fresh.unissued_step (h : s.Fresh) (he : Effect P env now s a s') {i : ℕ} {r : Request}
    {req : RegistrationVerifyRequest} {c c' : Challenge} {fp proof secret : Bytes}
    (hi : s'.verifies i = some (.proved r req c secret)) :
    .issued i fp proof secret c' ∉ s'.log := by
  cases he with
  | initReplied k e nonces hn => exact h.unissued i r req c fp proof secret c' hi
  | initChecked k call publicKey hk hf => exact h.unissued i r req c fp proof secret c' hi
  | initGenerated k random priv d hk hn hp hexp ha => exact h.unissued i r req c fp proof secret c' hi
  | initStored k d hk =>
    exact fun hm => h.unissued i r req c fp proof secret c' hi ((List.mem_cons.mp hm).resolve_left nofun)
  | verifyReplied k e hk => exact h.unissued i r req c fp proof secret c' (Table.of_set hi nofun)
  | verifyDropped k call e fp' d hc hd =>
    exact h.unissued i r req c fp proof secret c' (Table.of_set hi nofun)
  | verifyAdmitted k call r' req' d hk hc hexp ha =>
    exact fun hm => h.unissued i r req c fp proof secret c' (Table.of_set hi nofun)
      ((List.mem_cons.mp hm).resolve_left nofun)
  | verifyProved k random r' req' d fresh hk hp hs =>
    rcases Table.set_eq_some_iff.mp hi with ⟨-, hi'⟩ | ⟨-, hi'⟩
    · cases hi'
      exact fun hm => hs (h.drew i secret (.inr ⟨fp, proof, c', hm⟩))
    · exact h.unissued i r req c fp proof secret c' hi'
  | verifyAccepted k r' req' d fresh hk =>
    rcases Table.set_eq_some_iff.mp hi with ⟨-, hi'⟩ | ⟨hne, hi'⟩
    · cases hi'
    · intro hm
      rcases List.mem_cons.mp hm with hm | hm
      · cases hm
        exact hne rfl
      · exact h.unissued i r req c fp proof secret c' hi' hm

theorem Fresh.step (h : s.Fresh) (he : Effect P env now s a s') : s'.Fresh := by
  refine ⟨?_, ?_, fun i r req c fp proof secret c' hi => h.unissued_step he hi⟩
  · intro k secret hk
    rcases he.drew with ⟨hs, hd⟩ | ⟨i, fresh, -, hs, hd⟩
    · exact hs ▸ h.drew k secret (hd k secret hk)
    · rw [hs]
      rcases hd k secret hk with ⟨-, rfl⟩ | hk'
      · exact List.mem_cons_self
      · exact List.mem_cons_of_mem _ (h.drew k secret hk')
  · intro k l secret hk hl
    rcases he.drew with ⟨-, hd⟩ | ⟨i, fresh, hf, -, hd⟩
    · exact h.unique k l secret (hd k secret hk) (hd l secret hl)
    · rcases hd k secret hk with ⟨rfl, rfl⟩ | hk' <;> rcases hd l secret hl with ⟨rfl, hs⟩ | hl'
      · rfl
      · exact absurd (h.drew l _ hl') hf
      · exact absurd (h.drew k _ hk') (hs ▸ hf)
      · exact h.unique k l secret hk' hl'

/-- No request is about to issue a secret that was issued before. -/
theorem Fresh.proved_ne (h : s.Fresh) {i j : ℕ} {r : Request} {req : RegistrationVerifyRequest}
    {c d : Challenge} {fp proof secret secret' : Bytes} (hm : .issued j fp proof secret c ∈ s.log)
    (hi : s.verifies i = some (.proved r req d secret')) : secret' ≠ secret := by
  rintro rfl
  obtain rfl := h.unique i j secret' (.inl ⟨r, req, d, hi⟩) (.inr ⟨fp, proof, c, hm⟩)
  exact h.unissued i r req d fp proof secret' c hi hm

/-- A step does not register a secret that was issued before. -/
theorem Fresh.registrations_step (h : s.Fresh) (he : Effect P env now s a s') {j : ℕ}
    {fp fp' proof secret : Bytes} {c : Challenge} {reg : Registration}
    (hm : .issued j fp' proof secret c ∈ s.log) (hr : s'.registrations fp = some reg)
    (hs : reg.secret = secret) : s.registrations fp = some reg := by
  cases he with
  | initReplied i e nonces hn => exact hr
  | initChecked i call publicKey hi hf => exact hr
  | initGenerated i random priv c hi hn hp hexp ha => exact hr
  | initStored i c hi => exact hr
  | verifyReplied i e hi => exact hr
  | verifyDropped i call e fp c hc hd => exact hr
  | verifyAdmitted i call r req c hi hc hexp ha => exact hr
  | verifyProved i random r req c fresh hi hp hf => exact hr
  | verifyAccepted i r req c fresh hi =>
    rcases Table.set_eq_some_iff.mp hr with ⟨-, rfl⟩ | ⟨-, hr⟩
    · exact absurd hs (h.proved_ne hm hi)
    · exact hr

/-- A step does not take back or repeat an issue. -/
theorem Sound.issued_step (h : s.Sound P) (he : Effect P env now s a s') {fp secret : Bytes}
    (hs : Issued P s.log fp secret) : Issued P s'.log fp secret := by
  cases he with
  | initReplied i e nonces hn => exact hs
  | initChecked i call publicKey hi hf => exact hs
  | initGenerated i random priv c hi hn hp hexp ha => exact hs
  | initStored i c hi => exact hs.cons nofun
  | verifyReplied i e hi => exact hs
  | verifyDropped i call e fp' c hc hd => exact hs
  | verifyAdmitted i call r' req c hi hc hexp ha => exact hs.cons nofun
  | verifyProved i random r' req c secret' hi hp hsec => exact hs
  | verifyAccepted i r req c secret' hi =>
    apply hs.cons
    intro k fp' proof d hk
    cases hk
    obtain ⟨i₀, j, at₀, proof, c₀, hl, -⟩ := hs
    have hm : .issued i₀ fp proof secret c₀ ∈ s.log := hl.subset List.mem_cons_self
    obtain rfl := h.fresh.unique i₀ i secret (.inr ⟨fp, proof, c₀, hm⟩) (.inl ⟨r, req, c, hi⟩)
    exact h.fresh.unissued i₀ r req c fp proof secret c₀ hi hm

/-- The acceptance of a proof, as the log then shows it. -/
theorem Sound.issued_accept (h : s.Sound P) {i : ℕ} {r : Request} {req : RegistrationVerifyRequest}
    {c : Challenge} {secret : Bytes} (hi : s.verifies i = some (.proved r req c secret)) :
    Issued P (.issued i req.fingerprint req.proof secret c :: s.log) req.fingerprint secret := by
  obtain ⟨⟨hf, j, at₀, hn, hl⟩, hp⟩ := h.traced.proved i r req c secret hi
  refine ⟨i, j, at₀, req.proof, c, hl.cons_cons _, hn, hf, hp, fun i' fp' proof' c' hm => ?_⟩
  rcases List.mem_cons.mp hm with hm | hm'
  · cases hm
    exact ⟨rfl, rfl, rfl, rfl⟩
  · obtain rfl := h.fresh.unique i' i secret (.inr ⟨fp', proof', c', hm'⟩) (.inl ⟨r, req, c, hi⟩)
    exact absurd hm' (h.fresh.unissued i' r req c fp' proof' secret c' hi)

theorem Sound.step (h : s.Sound P) (he : Effect P env now s a s') : s'.Sound P := by
  refine ⟨h.traced.step he, h.fresh.step he, fun fp reg hr => ?_⟩
  have keep : s.registrations fp = some reg → Issued P s'.log fp reg.secret := fun hr =>
    h.issued_step he (h.registrations fp reg hr)
  cases he with
  | initReplied i e nonces hn => exact keep hr
  | initChecked i call publicKey hi hf => exact keep hr
  | initGenerated i random priv c hi hn hp hexp ha => exact keep hr
  | initStored i c hi => exact keep hr
  | verifyReplied i e hi => exact keep hr
  | verifyDropped i call e fp' c hc hd => exact keep hr
  | verifyAdmitted i call r' req c hi hc hexp ha => exact keep hr
  | verifyProved i random r' req c secret hi hp hs => exact keep hr
  | verifyAccepted i r req c secret hi =>
    rcases Table.set_eq_some_iff.mp hr with ⟨rfl, rfl⟩ | ⟨-, hr'⟩
    · exact h.issued_accept hi
    · exact keep hr'

theorem Sound.initial : Registry.initial.Sound P where
  traced := ⟨nofun, nofun, nofun, nofun⟩
  fresh := by
    have h : ∀ i secret, ¬ Registry.initial.Drew i secret := by
      rintro i secret (⟨r, req, c, hi⟩ | ⟨fp, proof, c, hm⟩)
      · cases hi
      · cases hm
    exact ⟨fun i secret hd => absurd hd (h i secret),
      fun i j secret hd _ => absurd hd (h i secret), nofun⟩
  registrations := nofun

end Registry

end HeadFwd.Relay
