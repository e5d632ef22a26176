import HeadFwd.Relay.SingleUse

/-! # Challenges in flight

An init request looks for a challenge in flight in one critical section and
writes its own in another. As long as it writes while no other request for its
fingerprint is in progress, a nonce that was handed out stays the stored one
until it is verified, used up or expired.
-/

namespace HeadFwd.Relay

open Text Net Crypto Transition

variable {P : Primitives} {env : Environment}

/-- The public key of an init request between its check and its write. -/
def InitThread.pending : InitThread → Option Bytes
  | .checked publicKey => some publicKey
  | .generated c => some c.publicKey
  | .replied _ => none

namespace Registry

/-- Init request `i` has passed its check and is yet to write a challenge for the fingerprint. -/
def Registering (P : Primitives) (s : Registry) (i : ℕ) (fp : Bytes) : Prop :=
  ∃ publicKey, (s.inits i).bind InitThread.pending = some publicKey ∧
    computeFingerprint P publicKey = fp

/-- When an init request writes its challenge, no other init request for the fingerprint is yet to
write, and no verify request for the fingerprint is about to be accepted. -/
def Alone (P : Primitives) (s : Registry) : RegistryAction → Prop
  | .initStore i => ∀ c, s.inits i = some (.generated c) →
      (∀ j ≠ i, ¬ s.Registering P j (computeFingerprint P c.publicKey)) ∧
      ∀ j req d, s.inFlight j = some (req, d) →
        req.fingerprint = computeFingerprint P c.publicKey →
          ¬ Proves P req.fingerprint req.proof d
  | _ => True

/-- When an init request writes its challenge, no verify request for the fingerprint is about to be
accepted. -/
def Unattended (P : Primitives) (s : Registry) : RegistryAction → Prop
  | .initStore i => ∀ c, s.inits i = some (.generated c) → ∀ j req d, s.inFlight j = some (req, d) →
      req.fingerprint = computeFingerprint P c.publicKey → ¬ Proves P req.fingerprint req.proof d
  | _ => True

/-- The stored challenge of the fingerprint is `c`, with attempts counted. -/
def Current (s : Registry) (fp : Bytes) (c : Challenge) : Prop :=
  ∃ d, s.challenges fp = some d ∧ d.untried = c.untried

/-- All attempts on the nonce have been counted. -/
def Burned (s : Registry) (fp nonce : Bytes) : Prop :=
  ∃ j c instant, .admitted j fp c instant ∈ s.log ∧ c.nonce = nonce ∧ maxAttempts ≤ c.attempts

/-- The challenge was verified or used up, or it has expired. -/
def Over (now : ℕ) (s : Registry) (fp : Bytes) (c : Challenge) : Prop :=
  0 < s.issues c.nonce ∨ s.Burned fp c.nonce ∨ c.expiresAt ≤ now

/-- An init request writes only over a challenge that has expired. -/
def Unclobbered (P : Primitives) (now : ℕ) (s : Registry) : RegistryAction → Prop
  | .initStore i => ∀ c d, s.inits i = some (.generated c) →
      s.challenges (computeFingerprint P c.publicKey) = some d → d.expiresAt ≤ now
  | _ => True

/-- Every nonce handed out belongs to a challenge that is the stored one until it is over. -/
def Answered (now : ℕ) (s : Registry) : Prop :=
  ∀ i resp, s.inits i = some (.replied (.ok resp)) →
    ∃ c, .stored i resp.fingerprint c ∈ s.log ∧ c.nonce = resp.nonce ∧
      (s.Current resp.fingerprint c ∨ s.Over now resp.fingerprint c)

/-- The invariant of runs in which challenges are written alone. -/
structure Held (P : Primitives) (now : ℕ) (s : Registry) : Prop where
  sound : s.Sound P
  expired : ∀ i fp c, s.Registering P i fp → s.challenges fp = some c → c.expiresAt ≤ now
  current : ∀ j req d c, s.inFlight j = some (req, d) → Proves P req.fingerprint req.proof d →
    s.challenges req.fingerprint = some c → c.nonce = d.nonce
  counted : ∀ fp c, s.challenges fp = some c →
    c.attempts = 0 ∨ ∃ j instant, .admitted j fp c instant ∈ s.log
  answered : s.Answered now

variable {now : ℕ} {s s' : Registry} {a : RegistryAction}

theorem Effect.issues_mono (he : Effect P env now s a s') (nonce : Bytes) :
    s.issues nonce ≤ s'.issues nonce := he.log_sublist.countP_le

theorem Burned.mono {fp nonce : Bytes} (h : s.Burned fp nonce) (he : Effect P env now s a s') :
    s'.Burned fp nonce := by
  obtain ⟨j, c, instant, hm, hn, ha⟩ := h
  exact ⟨j, c, instant, he.log_sublist.subset hm, hn, ha⟩

theorem Over.mono {past : ℕ} {fp : Bytes} {c : Challenge} (h : s.Over past fp c)
    (he : Effect P env now s a s') (hn : past ≤ now) : s'.Over now fp c := by
  rcases h with h | h | h
  · exact .inl (h.trans_le (he.issues_mono _))
  · exact .inr (.inl (h.mono he))
  · exact .inr (.inr (h.trans hn))

theorem Held.later {past : ℕ} (h : s.Held P past) (hn : past ≤ now) : s.Held P now where
  sound := h.sound
  expired i fp c hi hc := (h.expired i fp c hi hc).trans hn
  current := h.current
  counted := h.counted
  answered i resp hi := by
    obtain ⟨c, hm, hc, ho⟩ := h.answered i resp hi
    exact ⟨c, hm, hc, ho.imp_right (Or.imp_right (Or.imp_right fun he => he.trans hn))⟩

/-- A thread that is yet to write after a step was so before it, unless the step is its check. -/
theorem Registering.of_set {i j : ℕ} {t : InitThread} {nonces : List Bytes} {fp : Bytes}
    (h : Registering P { s with inits := s.inits.set i t, nonces } j fp) :
    s.Registering P j fp ∨
      ∃ publicKey, t.pending = some publicKey ∧ computeFingerprint P publicKey = fp := by
  obtain ⟨publicKey, hj, hf⟩ := h
  rcases Table.bind_set_eq_some hj with ⟨-, ht⟩ | ⟨-, hj⟩
  · exact .inr ⟨publicKey, ht, hf⟩
  · exact .inl ⟨publicKey, hj, hf⟩

theorem Held.unclobbered (h : s.Held P now) : s.Unclobbered P now a := by
  cases a with
  | initStore i =>
    intro c d hi hd
    exact h.expired i _ d ⟨c.publicKey, by simp [hi, InitThread.pending], rfl⟩ hd
  | _ => trivial

/-- What becomes of a stored challenge in a step. -/
theorem Held.kept (h : s.Held P now) (he : Effect P env now s a s') {fp : Bytes} {c : Challenge}
    (hc : s.challenges fp = some c) : s'.Current fp c ∨ s'.Over now fp c := by
  cases he with
  | initReplied i e nonces hn => exact .inl ⟨c, hc, rfl⟩
  | initChecked i call publicKey hi hf => exact .inl ⟨c, hc, rfl⟩
  | initGenerated i random priv d hi hn hp hexp ha => exact .inl ⟨c, hc, rfl⟩
  | initStored i d hi =>
    by_cases hfp : fp = computeFingerprint P d.publicKey
    · subst hfp
      have hreg : s.Registering P i (computeFingerprint P d.publicKey) :=
        ⟨d.publicKey, by simp [hi, InitThread.pending], rfl⟩
      exact .inr (.inr (.inr (h.expired i _ c hreg hc)))
    · exact .inl ⟨c, (Table.set_of_ne hfp).trans hc, rfl⟩
  | verifyReplied i e hi => exact .inl ⟨c, hc, rfl⟩
  | verifyDropped i call e fp' d hd hdrop =>
    by_cases hfp : fp = fp'
    · subst hfp
      cases hc.symm.trans hd
      rcases hdrop with hexp | hmax
      · exact .inr (.inr (.inr hexp.le))
      · rcases h.counted fp c hc with hz | ⟨j, instant, hm⟩
        · rw [hz] at hmax
          exact absurd hmax (by decide)
        · exact .inr (.inr (.inl ⟨j, c, instant, hm, rfl, Nat.lt_succ_iff.mp hmax⟩))
    · exact .inl ⟨c, (Table.erase_of_ne hfp).trans hc, rfl⟩
  | verifyAdmitted i call r req d hi hd hexp ha =>
    by_cases hfp : fp = req.fingerprint
    · subst hfp
      cases hc.symm.trans hd
      exact .inl ⟨_, Table.set_self, rfl⟩
    · exact .inl ⟨c, (Table.set_of_ne hfp).trans hc, rfl⟩
  | verifyProved i random r req d secret hi hp hs => exact .inl ⟨c, hc, rfl⟩
  | verifyAccepted i r req d secret hi =>
    by_cases hfp : fp = req.fingerprint
    · subst hfp
      have hfl : s.inFlight i = some (req, d) := by simp [inFlight, hi, VerifyThread.held]
      have hn := h.current i req d c hfl (h.sound.traced.proved i r req d secret hi).2 hc
      exact .inr (.inl (by simp [issues, RegistryEvent.issuedOn, hn]))
    · exact .inl ⟨c, (Table.erase_of_ne hfp).trans hc, rfl⟩

/-- A request answered with a nonce before a step still is, and what it was told stays true. -/
theorem Held.answered_old (h : s.Held P now) (he : Effect P env now s a s') {i : ℕ}
    {resp : RegistrationInitResponse} (hi : s.inits i = some (.replied (.ok resp))) :
    ∃ c, .stored i resp.fingerprint c ∈ s'.log ∧ c.nonce = resp.nonce ∧
      (s'.Current resp.fingerprint c ∨ s'.Over now resp.fingerprint c) := by
  obtain ⟨c, hm, hc, ho⟩ := h.answered i resp hi
  refine ⟨c, he.log_sublist.subset hm, hc, ?_⟩
  rcases ho with ⟨d, hd, hu⟩ | ho
  · have hn : d.nonce = c.nonce := by simpa [Challenge.untried] using congrArg Challenge.nonce hu
    have hexp : d.expiresAt = c.expiresAt := by
      simpa [Challenge.untried] using congrArg Challenge.expiresAt hu
    rcases h.kept he hd with ⟨d', hd', hu'⟩ | ho
    · exact .inl ⟨d', hd', hu'.trans hu⟩
    · rw [Over, hn, hexp] at ho
      exact .inr ho
  · exact .inr (ho.mono he le_rfl)

theorem Held.answered_step (h : s.Held P now) (he : Effect P env now s a s') : s'.Answered now := by
  intro i resp hi
  have old : s.inits i = some (.replied (.ok resp)) → _ := h.answered_old he
  cases he with
  | initReplied k e nonces hn =>
    rcases Table.set_eq_some_iff.mp hi with ⟨-, hi⟩ | ⟨-, hi⟩
    · cases hi
    · exact old hi
  | initChecked k call publicKey hk hf => exact old (Table.of_set hi nofun)
  | initGenerated k random priv c hk hn hp hexp ha => exact old (Table.of_set hi nofun)
  | initStored k c hk =>
    rcases Table.set_eq_some_iff.mp hi with ⟨rfl, hi'⟩ | ⟨-, hi'⟩
    · cases hi'
      exact ⟨c, List.mem_cons_self, rfl, .inl ⟨c, Table.set_self, rfl⟩⟩
    · exact old hi'
  | _ => exact old hi

/-- A right proof gets a verify request to its second critical section. -/
theorem verifyCompare_of_checkProof {i : ℕ} {r : Request} {req : RegistrationVerifyRequest}
    {c : Challenge} {random : Bytes} (hi : s.verifies i = some (.admitted r req c))
    (hp : checkProof P req c = .ok ()) (hl : random.length = 32) (hn : randomHex random ∉ s.secrets) :
    s.verifyCompare P i random = some { s with
      verifies := s.verifies.set i (.proved r req c (randomHex random))
      secrets := randomHex random :: s.secrets } := by
  unfold verifyCompare
  rw [hi]
  simp [hp, hl, hn]

theorem Alone.unattended (h : s.Alone P a) : s.Unattended P a := by
  cases a with
  | initStore i => exact fun c hi => (h c hi).2
  | _ => trivial

section Attended

variable {β : Type} {f : Challenge → β}

/-- A view of the challenges that the count of attempts does not change: whatever a request about to
be accepted has read is what the map holds for its fingerprint. -/
def Attended (P : Primitives) (f : Challenge → β) (s : Registry) : Prop :=
  ∀ j req d c, s.inFlight j = some (req, d) → Proves P req.fingerprint req.proof d →
    s.challenges req.fingerprint = some c → f c = f d

theorem Attended.step (hf : ∀ c n, f { c with attempts := n } = f c) (h : s.Attended P f)
    (ha : s.Unattended P a) (he : Effect P env now s a s') : s'.Attended P f := by
  intro j req d c hj hp hc
  cases he with
  | initReplied k e nonces hn => exact h j req d c hj hp hc
  | initChecked k call publicKey hk hf => exact h j req d c hj hp hc
  | initGenerated k random priv e hk hn hp' hexp ha' => exact h j req d c hj hp hc
  | initStored k e hk =>
    rcases Table.set_eq_some_iff.mp hc with ⟨hfp, -⟩ | ⟨-, hc⟩
    · exact absurd hp (ha e hk j req d hj hfp)
    · exact h j req d c hj hp hc
  | verifyReplied k e hk => exact h j req d c (inFlight_of_replied hj).1 hp hc
  | verifyDropped k call e fp e' he' hd =>
    exact h j req d c (inFlight_of_replied hj).1 hp (Table.of_erase hc)
  | verifyAdmitted k call r req' e hk he' hexp ha' =>
    rcases Table.bind_set_eq_some hj with ⟨-, hj⟩ | ⟨-, hj⟩
    · cases hj
      cases Table.set_self.symm.trans hc
      rfl
    · rcases Table.set_eq_some_iff.mp hc with ⟨hfp, rfl⟩ | ⟨-, hc⟩
      · exact (hf e _).trans (h j req d e hj hp (hfp ▸ he'))
      · exact h j req d c hj hp hc
  | verifyProved k random r req' e secret hk hp' hs =>
    rcases Table.bind_set_eq_some hj with ⟨rfl, hj'⟩ | ⟨-, hj'⟩
    · cases hj'
      exact h j req d c (by simp [inFlight, hk, VerifyThread.held]) hp hc
    · exact h j req d c hj' hp hc
  | verifyAccepted k r req' e secret hk =>
    exact h j req d c (inFlight_of_replied hj).1 hp (Table.of_erase hc)

end Attended

theorem Held.current_step (h : s.Held P now) (ha : s.Alone P a) (he : Effect P env now s a s')
    {j : ℕ} {req : RegistrationVerifyRequest} {d c : Challenge}
    (hj : s'.inFlight j = some (req, d)) (hp : Proves P req.fingerprint req.proof d)
    (hc : s'.challenges req.fingerprint = some c) : c.nonce = d.nonce :=
  Attended.step (fun _ _ => rfl) h.current ha.unattended he j req d c hj hp hc

theorem Held.expired_step (h : s.Held P now) (ha : s.Alone P a) (he : Effect P env now s a s')
    {i : ℕ} {fp : Bytes} {c : Challenge} (hi : s'.Registering P i fp)
    (hc : s'.challenges fp = some c) : c.expiresAt ≤ now := by
  cases he with
  | initReplied k e nonces hn =>
    rcases hi.of_set with hi | ⟨publicKey, hk, -⟩
    · exact h.expired i fp c hi hc
    · cases hk
  | initChecked k call publicKey hk hf =>
    rcases hi.of_set with hi | ⟨publicKey', hk, hfp⟩
    · exact h.expired i fp c hi hc
    · cases hk
      exact hf c (hfp ▸ hc)
  | initGenerated k random priv d hk hn hp hexp ha' =>
    rcases hi.of_set with hi | ⟨publicKey, hd, hfp⟩
    · exact h.expired i fp c hi hc
    · cases hd
      exact h.expired k fp c ⟨d.publicKey, by simp [hk, InitThread.pending], hfp⟩ hc
  | initStored k d hk =>
    obtain ⟨publicKey, hi, hfp⟩ := hi
    rcases Table.bind_set_eq_some hi with ⟨-, hi⟩ | ⟨hne, hi⟩
    · cases hi
    · rcases Table.set_eq_some_iff.mp hc with ⟨rfl, -⟩ | ⟨-, hc⟩
      · exact absurd ⟨publicKey, hi, hfp⟩ ((ha d hk).1 i hne)
      · exact h.expired i fp c ⟨publicKey, hi, hfp⟩ hc
  | verifyAdmitted k call r req d hk hd hexp ha' =>
    rcases Table.set_eq_some_iff.mp hc with ⟨rfl, rfl⟩ | ⟨-, hc⟩
    · exact h.expired i _ d hi hd
    · exact h.expired i fp c hi hc
  | verifyDropped k call e fp' d hd hdrop => exact h.expired i fp c hi (Table.of_erase hc)
  | verifyAccepted k r req d secret hk => exact h.expired i fp c hi (Table.of_erase hc)
  | _ => exact h.expired i fp c hi hc

theorem Held.counted_step (h : s.Held P now) (he : Effect P env now s a s') {fp : Bytes}
    {c : Challenge} (hc : s'.challenges fp = some c) :
    c.attempts = 0 ∨ ∃ j instant, .admitted j fp c instant ∈ s'.log := by
  have old : s.challenges fp = some c →
      c.attempts = 0 ∨ ∃ j instant, .admitted j fp c instant ∈ s'.log := by
    intro hc
    rcases h.counted fp c hc with hz | ⟨j, instant, hm⟩
    · exact .inl hz
    · exact .inr ⟨j, instant, he.log_sublist.subset hm⟩
  cases he with
  | initStored k d hk =>
    rcases Table.set_eq_some_iff.mp hc with ⟨-, rfl⟩ | ⟨-, hc⟩
    · exact .inl (congrArg Challenge.attempts (h.sound.traced.generated k d hk).2.symm)
    · exact old hc
  | verifyAdmitted k call r req d hk hd hexp ha =>
    rcases Table.set_eq_some_iff.mp hc with ⟨rfl, rfl⟩ | ⟨-, hc⟩
    · exact .inr ⟨k, now, List.mem_cons_self⟩
    · exact old hc
  | verifyDropped k call e fp' d hd hdrop => exact old (Table.of_erase hc)
  | verifyAccepted k r req d secret hk => exact old (Table.of_erase hc)
  | _ => exact old hc

theorem Held.step (h : s.Held P now) (ha : s.Alone P a) (he : Effect P env now s a s') :
    s'.Held P now where
  sound := h.sound.step he
  expired _ _ _ hi hc := h.expired_step ha he hi hc
  current _ _ _ _ hj hp hc := h.current_step ha he hj hp hc
  counted _ _ hc := h.counted_step he hc
  answered := h.answered_step he

theorem Held.initial : Registry.initial.Held P now :=
  ⟨.initial, nofun, nofun, nofun, nofun⟩

end Registry

variable {s : ℕ × Registry}

theorem held_of_reach (hr : (registry P env).Reach (fun s a => s.2.Alone P a.2) s) :
    s.2.Held P s.1 := by
  refine hr.invariant (P := fun s => s.2.Held P s.1) ?_ ?_
  · rintro ⟨now, s⟩ rfl
    exact .initial
  · rintro s a s' - ha hs h
    obtain ⟨hle, hn, hs⟩ := Machine.timed_step.mp hs
    rw [hn]
    exact (h.later hle).step ha (Registry.step_effect hs)

/-- In every run in which init requests write their challenges alone, they write only over expired
ones, and every nonce handed out belongs to the stored challenge until it is verified, used up or
expired. -/
theorem challenges_kept (hr : (registry P env).Reach (fun s a => s.2.Alone P a.2) s) :
    (∀ now a, s.1 ≤ now → s.2.Unclobbered P now a) ∧ s.2.Answered s.1 :=
  ⟨fun _ _ hle => ((held_of_reach hr).later hle).unclobbered, (held_of_reach hr).answered⟩

theorem challenges_kept_initSteps :
    ∃ s resp, (registry Vector.primitives {}).exec (0, Registry.initial) Vector.initSteps = some s ∧
      s.2.inits 0 = some (.replied (.ok resp)) ∧ resp.nonce = Vector.nonce ∧
      (∀ now a, s.1 ≤ now → s.2.Unclobbered Vector.primitives now a) ∧ s.2.Answered s.1 := by
  let t : Registry := { Registry.initial with
    inits := (Registry.initial.inits.set 0 (.checked Vector.publicKey)).set 0
      (.generated Vector.challenge)
    nonces := [Vector.nonce] }
  have ht : (registry Vector.primitives {}).exec (0, Registry.initial)
      [(0, .initBegin 0 Vector.initCall),
        (0, .initGenerate 0 (List.replicate 32 3) (some Vector.ephemeralPriv))] = some (0, t) := by rfl
  have h₀ : (registry Vector.primitives {}).init (0, Registry.initial) := rfl
  have hr : (registry Vector.primitives {}).Reach (fun s a => s.2.Alone Vector.primitives a.2) (0, t) :=
    .exec (by simp [Registry.Alone]) (.init h₀) ht
  have halone : t.Alone Vector.primitives (.initStore 0) := by
    intro c hc
    constructor
    · rintro j hj ⟨publicKey, hp, -⟩
      have hn : t.inits j = none := by simp [t, Table.set_of_ne hj, Registry.initial, Table.empty]
      simp [hn] at hp
    · intro j req d hfl
      cases hfl
  obtain ⟨s, hs⟩ : ∃ s, (registry Vector.primitives {}).step (0, t) (0, .initStore 0) = some s :=
    ⟨_, rfl⟩
  have hrun : (registry Vector.primitives {}).exec (0, Registry.initial) Vector.initSteps = some s :=
    Machine.exec_append.mpr ⟨(0, t), ht, by simp [hs]⟩
  have hinit : s.2.inits 0 = some (.replied (.ok (initResponse Vector.primitives Vector.challenge))) := by
    cases hs
    rfl
  exact ⟨s, _, hrun, hinit, rfl, challenges_kept (.step hr halone hs)⟩

/-- The comparison of a right proof, as a step of the machine. -/
theorem step_verifyCompare {i now : ℕ} {r : Request} {req : RegistrationVerifyRequest}
    {c : Challenge} {random : Bytes} (hi : s.2.verifies i = some (.admitted r req c))
    (hp : checkProof P req c = .ok ()) (hl : random.length = 32)
    (hn : randomHex random ∉ s.2.secrets) (hle : s.1 ≤ now) :
    ∃ s', (registry P env).step s (now, .verifyCompare i random) = some s' ∧
      s'.2.verifies i = some (.proved r req c (randomHex random)) ∧
      s'.2.challenges = s.2.challenges ∧ s'.1 = now := by
  have hs := Registry.verifyCompare_of_checkProof hi hp hl hn
  exact ⟨(now, _), Machine.timed_step.mpr ⟨hle, rfl, hs⟩, Table.set_self, rfl, rfl⟩

theorem step_verifyAccept {i now : ℕ} {r : Request} {req : RegistrationVerifyRequest}
    {c : Challenge} {secret : Bytes} (hi : s.2.verifies i = some (.proved r req c secret))
    (hle : s.1 ≤ now) :
    ∃ s', (registry P env).step s (now, .verifyAccept i) = some s' ∧
      s'.2.verifies i = some (.replied (.ok (verifyResponse env r req.fingerprint secret))) ∧
      s'.2.challenges = s.2.challenges.erase req.fingerprint := by
  simp [registry, Machine.timed, Registry.step, Registry.verifyAccept, hi, hle]

/-- In every run in which init requests write their challenges while no verify request for the
fingerprint is about to be accepted, an accepted request removes from the map the challenge it has
read, if anything. -/
theorem accept_removes_own (hr : (registry P env).Reach (fun s a => s.2.Unattended P a.2) s)
    {i now : ℕ} {r : Request} {req : RegistrationVerifyRequest} {c : Challenge} {secret : Bytes}
    (hi : s.2.verifies i = some (.proved r req c secret)) {s' : ℕ × Registry}
    (hs : (registry P env).step s (now, .verifyAccept i) = some s') {fp : Bytes} {d : Challenge}
    (hd : s.2.challenges fp = some d) :
    s'.2.challenges fp = some d ∨ fp = req.fingerprint ∧ d.untried = c.untried := by
  have h : s.2.Sound P ∧ s.2.Attended P Challenge.untried := by
    refine hr.invariant (P := fun s => s.2.Sound P ∧ s.2.Attended P Challenge.untried) ?_ ?_
    · rintro ⟨now, s⟩ rfl
      exact ⟨.initial, nofun⟩
    · rintro s a s' - ha hs ⟨hw, h⟩
      have he := Registry.step_effect (Machine.timed_step.mp hs).2.2
      exact ⟨hw.step he, h.step (fun _ _ => rfl) ha he⟩
  obtain ⟨-, -, hs⟩ := Machine.timed_step.mp hs
  simp only [Registry.step, Registry.verifyAccept, hi, Option.some.injEq] at hs
  rw [← hs]
  by_cases hfp : fp = req.fingerprint
  · subst hfp
    have hfl : s.2.inFlight i = some (req, c) := by simp [Registry.inFlight, hi, VerifyThread.held]
    exact .inr ⟨rfl, h.2 i req c d hfl (h.1.traced.proved i r req c secret hi).2 hd⟩
  · exact .inl ((Table.erase_of_ne hfp).trans hd)

/-- The challenge of the run with one attempt counted, and the request that presents its proof. -/
def Vector.tried : Challenge := { Vector.challenge with attempts := 1 }

def Vector.verifyBody : RegistrationVerifyRequest := ⟨Vector.fingerprint, Vector.proof⟩

theorem Vector.checkProof_tried :
    checkProof Vector.primitives Vector.verifyBody Vector.tried = .ok () := by
  have h : (checkProof Vector.primitives Vector.verifyBody Vector.tried).toOption = some () := by
    decide +kernel
  cases hc : checkProof Vector.primitives Vector.verifyBody Vector.tried with
  | error e =>
    rw [hc] at h
    cases h
  | ok u => rfl

theorem accept_removes_own_registrationRun :
    ∃ t u : ℕ × Registry,
      (registry Vector.primitives {}).exec (0, Registry.initial) Vector.proveSteps = some t ∧
      t.2.challenges Vector.fingerprint = some Vector.tried ∧
      (registry Vector.primitives {}).step t (1, .verifyAccept 1) = some u ∧
      u.2.challenges Vector.fingerprint = none ∧
      (u.2.challenges Vector.fingerprint = some Vector.tried ∨
        Vector.fingerprint = Vector.verifyBody.fingerprint ∧
          Vector.tried.untried = Vector.tried.untried) := by
  let M := registry Vector.primitives {}
  let G := fun (s : ℕ × Registry) (a : ℕ × RegistryAction) => s.2.Unattended Vector.primitives a.2
  have h₀ : M.init (0, Registry.initial) := rfl
  obtain ⟨t₁, h₁, hv⟩ : ∃ t, M.exec (0, Registry.initial) [(0, .initBegin 0 Vector.initCall),
      (0, .initGenerate 0 (List.replicate 32 3) (some Vector.ephemeralPriv))] = some t ∧
        t.2.verifies = .empty := ⟨_, rfl, rfl⟩
  have hr₁ : M.Reach G t₁ := .exec (by simp [G, Registry.Unattended]) (.init h₀) h₁
  have halone : G t₁ (0, .initStore 0) := by
    intro c _ j req d hfl
    simp [Registry.inFlight, hv, Table.empty] at hfl
  obtain ⟨t₂, h₂, hi, hc, hsec, hclock⟩ : ∃ t, M.exec t₁ [(0, .initStore 0),
      (1, .verifyBegin 1 Vector.verifyCall)] = some t ∧
        t.2.verifies 1 = some (.admitted Vector.post Vector.verifyBody Vector.tried) ∧
        t.2.challenges Vector.fingerprint = some Vector.tried ∧ t.2.secrets = [] ∧ t.1 = 1 := by
    cases h₁
    exact ⟨_, rfl, rfl, rfl, rfl, rfl⟩
  have hmeets : M.Meets G t₁ [(0, .initStore 0), (1, .verifyBegin 1 Vector.verifyCall)] :=
    ⟨halone, fun _ _ => ⟨trivial, fun _ _ => trivial⟩⟩
  obtain ⟨t, ht, hproved, hsame, hle⟩ : ∃ t, M.step t₂ (1, .verifyCompare 1 (List.replicate 32 4)) =
      some t ∧ _ := step_verifyCompare hi Vector.checkProof_tried rfl (by simp [hsec]) hclock.le
  have hguard : G t₂ (1, .verifyCompare 1 (List.replicate 32 4)) := trivial
  have hr : M.Reach G t := .step (hr₁.meets hmeets h₂) hguard ht
  obtain ⟨u, hu, -, herase⟩ : ∃ u, M.step t (1, .verifyAccept 1) = some u ∧ _ :=
    step_verifyAccept hproved hle.le
  have hstored : t.2.challenges Vector.fingerprint = some Vector.tried := by rw [hsame, hc]
  have hlast : M.exec t₂ [(1, .verifyCompare 1 (List.replicate 32 4))] = some t := by
    rw [Machine.exec_cons, ht]
    rfl
  have hrun := Machine.exec_append.mpr ⟨t₁, h₁, Machine.exec_append.mpr ⟨t₂, h₂, hlast⟩⟩
  refine ⟨t, u, hrun, hstored, hu, ?_, accept_removes_own hr hproved hu hstored⟩
  rw [herase]
  exact Table.erase_self

/-- A slow verify request: it reads the challenge before its expiry, and an init request writes the
next one before the proofs are compared. -/
def slowRun : List (ℕ × RegistryAction) :=
  Vector.initSteps ++
    [(1, .verifyBegin 1 Vector.verifyCall), (5 * minute, .initBegin 2 Vector.initCall),
      (5 * minute, .initGenerate 2 (List.replicate 32 5) (some Vector.ephemeralPriv)),
      (5 * minute, .initStore 2)]

/-- When it is accepted, it removes the new challenge, which nobody has verified. -/
theorem slowRun_removes :
    ∃ s s' u : ℕ × Registry, ∃ d : Challenge,
      (registry Vector.primitives {}).exec (0, Registry.initial) slowRun = some s ∧
      (registry Vector.primitives {}).step s (5 * minute, .verifyCompare 1 (List.replicate 32 4)) =
        some s' ∧
      s'.2.verifies 1 = some (.proved Vector.post Vector.verifyBody Vector.tried Vector.secret) ∧
      s'.2.challenges Vector.fingerprint = some d ∧
      (registry Vector.primitives {}).step s' (5 * minute, .verifyAccept 1) = some u ∧
      u.2.challenges Vector.fingerprint = none ∧ d.untried ≠ Vector.tried.untried := by
  let M := registry Vector.primitives {}
  let d : Challenge :=
    { Vector.challenge with nonce := randomHex (List.replicate 32 5), expiresAt := 10 * minute }
  obtain ⟨s, hs, hi, hc, hsec, hclock⟩ : ∃ s, M.exec (0, Registry.initial) slowRun = some s ∧
      s.2.verifies 1 = some (.admitted Vector.post Vector.verifyBody Vector.tried) ∧
      s.2.challenges Vector.fingerprint = some d ∧ s.2.secrets = [] ∧ s.1 = 5 * minute :=
    ⟨_, rfl, rfl, rfl, rfl, rfl⟩
  obtain ⟨s', hs', hproved, hsame, hle⟩ : ∃ s', M.step s
      (5 * minute, .verifyCompare 1 (List.replicate 32 4)) = some s' ∧ _ :=
    step_verifyCompare hi Vector.checkProof_tried rfl (by simp [hsec]) hclock.le
  obtain ⟨u, hu, -, herase⟩ : ∃ u, M.step s' (5 * minute, .verifyAccept 1) = some u ∧ _ :=
    step_verifyAccept hproved hle.le
  refine ⟨s, s', u, d, hs, hs', hproved, hsame ▸ hc, hu, ?_, ?_⟩
  · rw [herase]
    exact Table.erase_self
  · exact fun h => absurd (congrArg Challenge.nonce h) (by decide)

/-- Two init requests for one key: both find no challenge in flight before either writes its own. -/
def racingRun : List (ℕ × RegistryAction) :=
  [(0, .initBegin 0 Vector.initCall), (0, .initBegin 1 Vector.initCall),
    (0, .initGenerate 0 (List.replicate 32 3) (some Vector.ephemeralPriv)),
    (0, .initGenerate 1 (List.replicate 32 5) (some Vector.ephemeralPriv)), (0, .initStore 0)]

/-- The second one replaces the challenge that the first one was just given. -/
theorem racingRun_clobbers :
    ∃ s s' resp, (registry Vector.primitives {}).exec (0, Registry.initial) racingRun = some s ∧
      (registry Vector.primitives {}).step s (1, .initStore 1) = some s' ∧
      s.2.inits 0 = some (.replied (.ok resp)) ∧ resp.nonce = Vector.nonce ∧
      ¬ s.2.Unclobbered Vector.primitives 1 (.initStore 1) ∧ ¬ s'.2.Answered s'.1 := by
  let c := Vector.challenge
  let d : Challenge := { c with nonce := randomHex (List.replicate 32 5) }
  let fp := computeFingerprint Vector.primitives Vector.publicKey
  let resp := initResponse Vector.primitives c
  refine ⟨_, _, resp, rfl, rfl, rfl, rfl, fun h => ?_, fun h => ?_⟩
  · exact absurd (h d c rfl rfl) (by decide)
  · obtain ⟨e, hm, -, ho⟩ := h 0 resp rfl
    have hlog : .stored 0 fp e ∈ [RegistryEvent.stored 1 fp d, .stored 0 fp c] := hm
    have he : e = c := by simpa using hlog
    subst he
    rcases ho with ⟨e, he, hu⟩ | ho | ⟨j, e, instant, hm, -⟩ | ho
    · cases he
      exact absurd (congrArg Challenge.nonce hu) (by decide)
    · exact absurd ho (by decide)
    · have hm : .admitted j fp e instant ∈ [RegistryEvent.stored 1 fp d, .stored 0 fp c] := hm
      simp at hm
    · exact absurd ho (by decide)

end HeadFwd.Relay
