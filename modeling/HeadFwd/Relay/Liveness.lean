import HeadFwd.Relay.Attempts
import HeadFwd.Relay.Refusal

/-! # Live challenges and usable keys

An init request and a verify request each decide on their own whether a
challenge is live and whether a public key is well formed. Init asks whether the
challenge is before its expiry and whether the key is hexadecimal; verify asks
whether the challenge is past its expiry, counts the attempts as well, and needs
a key of the size of the curve.
-/

namespace HeadFwd.Relay

open Text Net Crypto Transition

variable {P : Primitives} {env : Environment}

/-- The public key passes the format checks of an init request. -/
def Accepted (publicKey : Bytes) : Prop := ∃ call, initPublicKey call = .ok publicKey

/-- The private keys that the curve generates have its size. -/
def RegistryAction.Sized : RegistryAction → Prop
  | .initGenerate _ _ (some priv) => priv.length = 32
  | _ => True

/-- The challenge was made for a key that init accepted, with a private key of the curve's size. -/
structure Challenge.Keyed (c : Challenge) : Prop where
  accepted : Accepted c.publicKey
  sized : c.ephemeralPriv.length = 32

/-- The errors with which verify gives up on the public key of a challenge. -/
def KeyError (e : HttpError) : Prop :=
  e = ⟨str "invalid public key", 400⟩ ∨ e = ⟨str "invalid sidecar key", 400⟩

/-- What init has found out about a key it accepts. -/
theorem Accepted.spec {publicKey : Bytes} (h : Accepted publicKey) :
    mkeyLabel <+: publicKey ∧ ∃ pub, decodeHex (trimPrefix publicKey mkeyLabel) = some pub := by
  obtain ⟨call, h⟩ := h
  unfold initPublicKey at h
  cases hd : call.decode with
  | error e => simp [hd, bind, Except.bind] at h
  | ok req =>
    simp only [hd, bind, Except.bind] at h
    split_ifs at h with hp
    · simp only [pure, Except.pure] at h
      split at h
      · cases h
      · rename_i pub hpub
        cases h
        rw [not_or, not_not] at hp
        exact ⟨List.isPrefixOf_iff_prefix.mp hp.2, pub, hpub⟩

/-- The bytes of an accepted key, by the length of its text. -/
theorem Accepted.decoded {publicKey : Bytes} (h : Accepted publicKey) :
    ∃ pub, decodeHex (trimPrefix publicKey mkeyLabel) = some pub ∧
      publicKey.length = 5 + 2 * pub.length := by
  obtain ⟨⟨rest, rfl⟩, pub, hpub⟩ := h.spec
  have htrim : trimPrefix (mkeyLabel ++ rest) mkeyLabel = rest := by
    simp [trimPrefix, List.isPrefixOf_iff_prefix]
  refine ⟨pub, hpub, ?_⟩
  rw [htrim] at hpub
  rw [List.length_append, length_of_decodeHex hpub]
  rfl

theorem KeyError.status {e : HttpError} (h : KeyError e) : e.status = 400 := by
  rcases h with rfl | rfl
  · rfl
  · rfl

/-- A key with the label is usable exactly when thirty-two bytes follow. -/
theorem Challenge.Keyed.keyError_iff {c : Challenge} (h : c.Keyed) :
    (∃ e, KeyError e ∧ sharedSecret P c = .error e) ↔ c.publicKey.length ≠ 69 := by
  obtain ⟨pub, hpub, hlen⟩ := h.accepted.decoded
  unfold sharedSecret
  rw [hpub, hlen]
  simp only [h.sized, ne_eq, not_true_eq_false, if_false]
  by_cases hl : pub.length = 32
  · apply iff_of_false
    · rintro ⟨e, he, h⟩
      rw [if_neg (not_not.mpr hl)] at h
      split at h
      · cases h
        exact absurd he.status (by decide)
      · cases h
    · omega
  · rw [if_pos hl]
    exact iff_of_true ⟨_, .inr rfl, rfl⟩ (by omega)

/-- Verify gives up on a key before it compares proofs. -/
theorem checkProof_keyError_iff {req : RegistrationVerifyRequest} {c : Challenge} {e : HttpError}
    (he : KeyError e) : checkProof P req c = .error e ↔ sharedSecret P c = .error e := by
  unfold checkProof
  cases sharedSecret P c with
  | error e' => simp [bind, Except.bind]
  | ok shared =>
    simp only [bind, Except.bind, reduceCtorEq, iff_false]
    intro h
    split at h
    · cases h
      exact absurd he.status (by decide)
    · split_ifs at h
      · cases h
      · cases h
        exact absurd he.status (by decide)

namespace Registry

/-- Every key that a handler holds was accepted by init, and every private key has its size. -/
structure Keyed (s : Registry) : Prop where
  pending : ∀ i publicKey, (s.inits i).bind InitThread.pending = some publicKey → Accepted publicKey
  generated : ∀ i c, s.inits i = some (.generated c) → c.ephemeralPriv.length = 32
  stored : ∀ fp c, s.challenges fp = some c → c.Keyed
  held : ∀ i req c, s.inFlight i = some (req, c) → c.Keyed

/-- Verify request `i` was turned away for the public key of its challenge. -/
def KeyRefused (s : Registry) (i : ℕ) : Prop :=
  ∃ e, KeyError e ∧ s.verifies i = some (.replied (.error e))

variable {now : ℕ} {s s' : Registry} {a : RegistryAction}

/-- An init request goes on with a key that passed its checks. -/
theorem accepted_of_initBegin {i : ℕ} {call : Call RegistrationInitRequest} {publicKey : Bytes}
    (h : s.initBegin P now i call = some s') (hi : s'.inits i = some (.checked publicKey)) :
    Accepted publicKey := by
  have checked : ∀ {key t}, initPublicKey call = .ok key → t = InitThread.checked key →
      s.inits.set i t i = some (.checked publicKey) → Accepted publicKey := by
    rintro key t hk rfl ht
    cases Table.set_self.symm.trans ht
    exact ⟨call, hk⟩
  unfold initBegin at h
  split at h
  · cases h
  · cases h
    cases Table.set_self.symm.trans hi
  · rename_i key hn hk
    split at h
    · split_ifs at h
      · cases h
        cases Table.set_self.symm.trans hi
      · cases h
        exact checked hk rfl hi
    · cases h
      exact checked hk rfl hi

theorem sized_of_initGenerate {i : ℕ} {random : Bytes} {priv : Option Bytes} {c : Challenge}
    (h : s.initGenerate P now i random priv = some s') (hi : s'.inits i = some (.generated c))
    (ha : (RegistryAction.initGenerate i random priv).Sized) : c.ephemeralPriv.length = 32 := by
  unfold initGenerate at h
  split at h
  · dsimp only at h
    split_ifs at h
    cases priv with
    | none =>
      cases h
      cases Table.set_self.symm.trans hi
    | some priv =>
      cases h
      cases Table.set_self.symm.trans hi
      exact ha
  · cases h

theorem Keyed.of_inits (h : s.Keyed) {i : ℕ} {t : InitThread} {nonces : List Bytes}
    (hp : ∀ publicKey, t.pending = some publicKey → Accepted publicKey)
    (hg : ∀ c, t = .generated c → c.ephemeralPriv.length = 32) :
    Keyed { s with inits := s.inits.set i t, nonces } where
  pending j publicKey hj := by
    rcases Table.bind_set_eq_some hj with ⟨-, ht⟩ | ⟨-, hj⟩
    · exact hp publicKey ht
    · exact h.pending j publicKey hj
  generated j c hj := by
    rcases Table.set_eq_some_iff.mp hj with ⟨-, ht⟩ | ⟨-, hj⟩
    · exact hg c ht
    · exact h.generated j c hj
  stored := h.stored
  held := h.held

/-- Challenges are dropped or copied from where they were, with attempts counted. -/
theorem Keyed.of_verifies (h : s.Keyed) (hi : s'.inits = s.inits)
    (hc : ∀ fp c, s'.challenges fp = some c → c.Keyed)
    (hv : ∀ i req c, s'.inFlight i = some (req, c) → c.Keyed) : s'.Keyed where
  pending i publicKey hp := h.pending i publicKey (hi ▸ hp)
  generated i c hg := h.generated i c (hi ▸ hg)
  stored := hc
  held := hv

theorem Keyed.step (h : s.Keyed) (ha : a.Sized) (hs : s.step P env now a = some s') : s'.Keyed := by
  cases step_effect hs with
  | initReplied i e nonces hn => exact h.of_inits (by rintro _ ⟨⟩) (by rintro _ ⟨⟩)
  | initChecked i call publicKey hi hf =>
    have hk : Accepted publicKey := accepted_of_initBegin hs Table.set_self
    refine h.of_inits ?_ (by rintro _ ⟨⟩)
    rintro key ⟨⟩
    exact hk
  | initGenerated i random priv c hi hn hp he hz =>
    have hsize : c.ephemeralPriv.length = 32 := sized_of_initGenerate hs Table.set_self ha
    apply h.of_inits
    · rintro key ⟨⟩
      exact h.pending i _ (by simp [hi, InitThread.pending])
    · rintro d ⟨⟩
      exact hsize
  | initStored i c hi =>
    have hc : c.Keyed := ⟨h.pending i _ (by simp [hi, InitThread.pending]), h.generated i c hi⟩
    have hrest : Keyed { s with inits := s.inits.set i (.replied (.ok (initResponse P c))) } :=
      h.of_inits (by rintro _ ⟨⟩) (by rintro _ ⟨⟩)
    refine ⟨hrest.pending, hrest.generated, ?_, h.held⟩
    intro fp d hd
    rcases Table.set_eq_some_iff.mp hd with ⟨-, rfl⟩ | ⟨-, hd⟩
    · exact hc
    · exact h.stored fp d hd
  | verifyReplied i e hi =>
    exact h.of_verifies rfl h.stored fun j req c hj => h.held j req c (inFlight_of_replied hj).1
  | verifyDropped i call e fp c hc hd =>
    exact h.of_verifies rfl (fun fp' d hd => h.stored fp' d (Table.of_erase hd))
      fun j req d hj => h.held j req d (inFlight_of_replied hj).1
  | verifyAdmitted i call r req c hi hc he hb =>
    have hkeyed : c.Keyed := h.stored _ c hc
    have hcounted : Challenge.Keyed { c with attempts := c.attempts + 1 } :=
      ⟨hkeyed.accepted, hkeyed.sized⟩
    refine h.of_verifies rfl ?_ ?_
    · intro fp d hd
      rcases Table.set_eq_some_iff.mp hd with ⟨-, rfl⟩ | ⟨-, hd⟩
      · exact hcounted
      · exact h.stored fp d hd
    · intro j req' d hj
      rcases Table.bind_set_eq_some hj with ⟨-, hj⟩ | ⟨-, hj⟩
      · cases hj
        exact hcounted
      · exact h.held j req' d hj
  | verifyProved i random r req c secret hi hp hn =>
    refine h.of_verifies rfl h.stored ?_
    intro j req' d hj
    rcases Table.bind_set_eq_some hj with ⟨-, hj⟩ | ⟨-, hj⟩
    · cases hj
      exact h.held i req c (by simp [inFlight, hi, VerifyThread.held])
    · exact h.held j req' d hj
  | verifyAccepted i r req c secret hi =>
    exact h.of_verifies rfl (fun fp' d hd => h.stored fp' d (Table.of_erase hd))
      fun j req' d hj => h.held j req' d (inFlight_of_replied hj).1

theorem Keyed.initial : Registry.initial.Keyed := ⟨nofun, nofun, nofun, nofun⟩

/-- What the comparison of an admitted request says about the key. -/
theorem verifyCompare_keyRefused_iff {i : ℕ} {random : Bytes} {r : Request}
    {req : RegistrationVerifyRequest} {c : Challenge} (hi : s.verifies i = some (.admitted r req c))
    (h : s.verifyCompare P i random = some s') :
    s'.KeyRefused i ↔ ∃ e, KeyError e ∧ sharedSecret P c = .error e := by
  unfold verifyCompare at h
  rw [hi] at h
  dsimp only at h
  split at h
  · rename_i e he
    cases h
    constructor
    · rintro ⟨e', hk, hr⟩
      cases Table.set_self.symm.trans hr
      exact ⟨e, hk, (checkProof_keyError_iff hk).mp he⟩
    · rintro ⟨e', hk, hr⟩
      cases he.symm.trans ((checkProof_keyError_iff hk).mpr hr)
      exact ⟨e, hk, Table.set_self⟩
  · rename_i hok
    split_ifs at h
    cases h
    apply iff_of_false
    · rintro ⟨e', -, hr⟩
      cases Table.set_self.symm.trans hr
    · rintro ⟨e', hk, hr⟩
      have herr : checkProof P req c = .error e' := (checkProof_keyError_iff hk).mpr hr
      cases hok.symm.trans herr

end Registry

variable {s s' : ℕ × Registry}

/-- What every effect of a handler preserves holds of every state reached. -/
theorem invariant_of_reachable {Q : Registry → Prop} (h₀ : Q Registry.initial)
    (hs : ∀ {now s a s'}, Registry.Effect P env now s a s' → Q s → Q s')
    (hr : (registry P env).Reachable s) : Q s.2 := by
  refine hr.invariant (P := fun s => Q s.2) ?_ ?_
  · rintro ⟨now, s⟩ rfl
    exact h₀
  · intro s a s' _ _ ht h
    exact hs (Registry.step_effect (Machine.timed_step.mp ht).2.2) h

theorem keyed_of_reach (hr : (registry P env).Reach (fun _ a => a.2.Sized) s) : s.2.Keyed := by
  refine hr.invariant (P := fun s => s.2.Keyed) ?_ ?_
  · rintro ⟨now, s⟩ rfl
    exact .initial
  · rintro s a s' - ha hs h
    exact h.step ha (Machine.timed_step.mp hs).2.2

/-- Init has accepted the key of every challenge that a verify request reads. Verify can use the key
exactly when its text is the label and sixty-four digits. -/
theorem accepted_key_usable_iff (hr : (registry P env).Reach (fun _ a => a.2.Sized) s) {i now : ℕ}
    {r : Request} {req : RegistrationVerifyRequest} {c : Challenge} {random : Bytes}
    (hi : s.2.verifies i = some (.admitted r req c))
    (hs : (registry P env).step s (now, .verifyCompare i random) = some s') :
    Accepted c.publicKey ∧ (¬ s'.2.KeyRefused i ↔ c.publicKey.length = 69) := by
  have hk : c.Keyed :=
    (keyed_of_reach hr).held i req c (by simp [Registry.inFlight, hi, VerifyThread.held])
  obtain ⟨-, -, hs⟩ := Machine.timed_step.mp hs
  refine ⟨hk.accepted, ?_⟩
  rw [Registry.verifyCompare_keyRefused_iff hi hs, hk.keyError_iff, not_not]

theorem accepted_key_usable_iff_proveSteps :
    ∃ t u : ℕ × Registry, (registry Vector.primitives {}).exec (0, Registry.initial)
        (Vector.initSteps ++ [(1, .verifyBegin 1 Vector.verifyCall)]) = some t ∧
      (registry Vector.primitives {}).step t (1, .verifyCompare 1 (List.replicate 32 4)) = some u ∧
      ¬ u.2.KeyRefused 1 := by
  let M := registry Vector.primitives {}
  have hsome : ((M.exec (0, Registry.initial)
      (Vector.initSteps ++ [(1, .verifyBegin 1 Vector.verifyCall)])).bind fun t =>
        M.step t (1, .verifyCompare 1 (List.replicate 32 4))).isSome := by decide +kernel
  obtain ⟨u, hu⟩ := Option.isSome_iff_exists.mp hsome
  obtain ⟨t, ht, hu⟩ := Option.bind_eq_some_iff.mp hu
  have h₀ : M.init (0, Registry.initial) := rfl
  have hr : M.Reach (fun _ a => a.2.Sized) t :=
    .exec (by simp [Vector.initSteps, RegistryAction.Sized, Vector.ephemeralPriv]) (.init h₀) ht
  have hi : t.2.verifies 1 = some (.admitted Vector.post ⟨Vector.fingerprint, Vector.proof⟩
      { Vector.challenge with attempts := 1 }) := by
    cases ht
    rfl
  exact ⟨t, u, ht, hu, (accepted_key_usable_iff hr hi hu).2.mpr (by decide)⟩

namespace Vector

/-- A key of one byte, with its digest. -/
def shortKey : Bytes := str "mkey:00"

def shortDigest : Bytes :=
  [0xcb, 0x45, 0x9d, 0x24, 0x91, 0xac, 0xaa, 0x90, 0xbc, 0x56, 0xd8, 0x33, 0xd6, 0xa6, 0x1a, 0xbb,
    0x4f, 0x42, 0xde, 0xc0, 0x22, 0xc2, 0x95, 0x9c, 0x2a, 0xca, 0xe8, 0x7e, 0xc9, 0x03, 0x9b, 0x8f]

def withShortKey : Primitives :=
  { primitives with
    sha256 m := if m = shortKey then shortDigest else primitives.sha256 m
    length_sha256 m := by
      split_ifs
      · rfl
      · exact primitives.length_sha256 m }

/-- The key is registered and a proof is sent for it. -/
def shortKeyRun : List (ℕ × RegistryAction) :=
  [(0, .initBegin 0 ⟨post, true, some ⟨shortKey⟩⟩),
    (0, .initGenerate 0 (List.replicate 32 3) (some ephemeralPriv)), (0, .initStore 0),
    (1, .verifyBegin 1 ⟨post, true, some ⟨encodeHex (shortDigest.take 16), str "00"⟩⟩),
    (1, .verifyCompare 1 (List.replicate 32 4))]

end Vector

/-- Init stores a challenge for a key that verify cannot use. -/
theorem shortKeyRun_refused :
    ∃ s : ℕ × Registry,
      (registry Vector.withShortKey {}).exec (0, Registry.initial) Vector.shortKeyRun = some s ∧
      (∃ resp, s.2.inits 0 = some (.replied (.ok resp))) ∧ s.2.KeyRefused 1 :=
  ⟨_, rfl, ⟨_, rfl⟩, _, .inr rfl, rfl⟩

namespace Registry

/-- At the instant `t` an init request for a key with the fingerprint is answered with a conflict. -/
def RefusesInit (P : Primitives) (env : Environment) (s : ℕ × Registry) (t : ℕ) (fp : Bytes) : Prop :=
  ∃ i call publicKey s', initPublicKey call = .ok publicKey ∧ computeFingerprint P publicKey = fp ∧
    (registry P env).step s (t, .initBegin i call) = some s' ∧ s'.2.Refused i

/-- At the instant `t` a verify request for the fingerprint passes every check, and whatever secret
is drawn for it, it is issued. -/
def AcceptsVerify (P : Primitives) (env : Environment) (s : ℕ × Registry) (t : ℕ) (fp : Bytes) :
    Prop :=
  ∃ i call req c s', verifyRequest call = .ok req ∧ req.fingerprint = fp ∧
    (registry P env).step s (t, .verifyBegin i call) = some s' ∧
    s'.2.inFlight i = some (req, c) ∧ checkProof P req c = .ok () ∧
    ∀ random, random.length = 32 → randomHex random ∉ s'.2.secrets → ∃ u resp,
      (registry P env).exec s' [(t, .verifyCompare i random), (t, .verifyAccept i)] = some u ∧
        u.2.verifies i = some (.replied (.ok resp))

/-- Only finitely many verify requests have been received. -/
def VerifiesFinite (s : Registry) : Prop := ∃ n, ∀ i, n ≤ i → s.verifies i = none

variable {now : ℕ} {s s' : Registry} {a : RegistryAction}

theorem VerifiesFinite.step (h : s.VerifiesFinite) (he : Effect P env now s a s') :
    s'.VerifiesFinite := by
  obtain ⟨n, hn⟩ := h
  have bump : ∀ {k t}, ∃ m, ∀ i, m ≤ i → s.verifies.set k t i = none := fun {k t} =>
    ⟨max n (k + 1), fun i hi => by
      rw [Table.set_of_ne (by omega)]
      exact hn i (by omega)⟩
  cases he with
  | verifyReplied k e hk => exact bump
  | verifyDropped k call e fp c hc hd => exact bump
  | verifyAdmitted k call r req c hk hc hexp ha => exact bump
  | verifyProved k random r req c secret hk hp hs => exact bump
  | verifyAccepted k r req c secret hk => exact bump
  | _ => exact ⟨n, hn⟩

/-- A stored challenge lets a verify request in up to its expiry, while attempts are left. -/
theorem verifyBegin_stored {i : ℕ} {call : Call RegistrationVerifyRequest}
    {req : RegistrationVerifyRequest} {c : Challenge} (hi : s.verifies i = none)
    (hq : verifyRequest call = .ok req) (hc : s.challenges req.fingerprint = some c) :
    s.verifyBegin now i call = some
      (if now ≤ c.expiresAt ∧ c.attempts < maxAttempts then
        let c := { c with attempts := c.attempts + 1 }
        { s with
          challenges := s.challenges.set req.fingerprint c
          verifies := s.verifies.set i (.admitted call.request req c)
          log := .admitted i req.fingerprint c now :: s.log }
      else
        { s with
          challenges := s.challenges.erase req.fingerprint
          verifies := s.verifies.set i
            (.replied (.error ⟨str "challenge expired or not found", 400⟩)) }) := by
  unfold verifyBegin admitAttempt
  rw [hi, hq]
  simp only [hc]
  by_cases he : now ≤ c.expiresAt
  · rw [if_neg (not_lt.mpr he)]
    by_cases hb : c.attempts < maxAttempts
    · rw [if_neg (not_lt.mpr hb), if_pos ⟨he, hb⟩]
    · rw [if_pos (Nat.lt_succ_of_le (not_lt.mp hb)), if_neg fun h => hb h.2]
  · rw [if_pos (not_le.mp he), if_neg fun h => he h.1]

/-- A request that is in flight with its proof is issued the secret it draws. -/
theorem issued_of_checkProof {t : ℕ × Registry} {i : ℕ} {r : Request}
    {req : RegistrationVerifyRequest} {c : Challenge} {random : Bytes}
    (hi : t.2.verifies i = some (.admitted r req c)) (hp : checkProof P req c = .ok ())
    (hl : random.length = 32) (hn : randomHex random ∉ t.2.secrets) (hle : t.1 ≤ now) :
    ∃ u resp, (registry P env).exec t [(now, .verifyCompare i random), (now, .verifyAccept i)] =
      some u ∧ u.2.verifies i = some (.replied (.ok resp)) := by
  obtain ⟨t', ht', hproved, -, hclock⟩ := step_verifyCompare hi hp hl hn hle
  obtain ⟨u, hu, hreply, -⟩ := step_verifyAccept hproved hclock.le
  refine ⟨u, _, ?_, hreply⟩
  rw [Machine.exec_cons, ht', Option.bind_some, Machine.exec_cons, hu]
  rfl

end Registry

/-- The public key of the challenge is a point of the curve that the exchange accepts. -/
def Challenge.Usable (P : Primitives) (c : Challenge) (shared : Bytes) : Prop :=
  ∃ pub, decodeHex (trimPrefix c.publicKey mkeyLabel) = some pub ∧ pub.length = 32 ∧
    P.x25519 c.ephemeralPriv pub = some shared

theorem Challenge.Usable.sharedSecret {c : Challenge} {shared : Bytes} (h : c.Usable P shared)
    (hk : c.Keyed) : sharedSecret P c = .ok shared := by
  obtain ⟨pub, hd, hl, hx⟩ := h
  simp [Relay.sharedSecret, hd, hl, hx, hk.sized]

/-- A request with a fingerprint and a proof can be sent. -/
theorem exists_verifyCall {fp proof : Bytes} (hfp : fp ≠ []) (hp : proof ≠ []) :
    ∃ call : Call RegistrationVerifyRequest, verifyRequest call = .ok ⟨fp, proof⟩ := by
  refine ⟨⟨Vector.post, true, some ⟨fp, proof⟩⟩, ?_⟩
  simp [verifyRequest, Call.decode, Vector.post, hfp, hp, bind, Except.bind, pure, Except.pure]

section Live

variable {fp shared : Bytes} {c : Challenge} {t : ℕ}

theorem verifiesFinite_of_reachable (hr : (registry P env).Reachable s) : s.2.VerifiesFinite :=
  invariant_of_reachable ⟨0, fun _ _ => rfl⟩ (fun he h => h.step he) hr

theorem attempts_le_of_reachable (hr : (registry P env).Reachable s)
    (hc : s.2.challenges fp = some c) : c.attempts ≤ maxAttempts := by
  have h : s.2.Counted := invariant_of_reachable .initial (fun he h => h.step he) hr
  rw [h.counted (.entry fp) c hc]
  exact h.bounded c.nonce

theorem fingerprint_of_reachable (hr : (registry P env).Reachable s)
    (hc : s.2.challenges fp = some c) : computeFingerprint P c.publicKey = fp := by
  have h : s.2.Sound P := invariant_of_reachable .initial (fun he h => h.step he) hr
  exact (h.traced.challenges fp c hc).1.fingerprint

/-- Init refuses the fingerprint before the expiry. -/
theorem refusesInit_iff (hr : (registry P env).Reach (fun _ a => a.2.Sized) s)
    (hc : s.2.challenges fp = some c) (ht : s.1 ≤ t) :
    Registry.RefusesInit P env s t fp ↔ t < c.expiresAt := by
  constructor
  · rintro ⟨i, call, publicKey, s', hk, rfl, hs, href⟩
    obtain ⟨d, hd, hlt⟩ :=
      (Registry.initBegin_refused hk (Machine.timed_step.mp hs).2.2).mp href
    cases hc.symm.trans hd
    exact hlt
  · intro hlt
    obtain ⟨call, hk⟩ := ((keyed_of_reach hr).stored fp c hc).accepted
    obtain ⟨n, hn⟩ := finite_of_reachable hr.reachable
    obtain ⟨u, hu⟩ : ∃ u, s.2.initBegin P t n call = some u :=
      Registry.initBegin_isSome (hn n le_rfl)
    have hfp : computeFingerprint P c.publicKey = fp := fingerprint_of_reachable hr.reachable hc
    refine ⟨n, call, c.publicKey, (t, u), hk, hfp, Machine.timed_step.mpr ⟨ht, rfl, hu⟩, ?_⟩
    exact (Registry.initBegin_refused hk hu).mpr ⟨c, hfp ▸ hc, hlt⟩

/-- Verify accepts the right proof up to the expiry, while attempts are left. -/
theorem acceptsVerify_iff (hr : (registry P env).Reach (fun _ a => a.2.Sized) s)
    (hc : s.2.challenges fp = some c) (hu : c.Usable P shared)
    (hkdf : (deriveProofKey P shared c.nonce).isSome) (ht : s.1 ≤ t) :
    Registry.AcceptsVerify P env s t fp ↔ t ≤ c.expiresAt ∧ c.attempts < maxAttempts := by
  constructor
  · rintro ⟨i, call, req, d, s', hq, rfl, hs, hfl, -, -⟩
    obtain ⟨-, -, hs⟩ := Machine.timed_step.mp hs
    by_contra hlive
    have hi : s.2.verifies i = none := by
      by_contra hne
      obtain ⟨v, hv⟩ := Option.ne_none_iff_exists'.mp hne
      simp [Registry.step, Registry.verifyBegin, hv] at hs
    have heq := Option.some.inj (hs.symm.trans (Registry.verifyBegin_stored hi hq hc))
    rw [if_neg hlive] at heq
    rw [heq] at hfl
    simp [Registry.inFlight, VerifyThread.held] at hfl
  · intro hlive
    obtain ⟨key, hkey⟩ := Option.isSome_iff_exists.mp hkdf
    have hfp : computeFingerprint P c.publicKey = fp := fingerprint_of_reachable hr.reachable hc
    let proof := encodeHex (P.hmac key (transcript fp c.publicKey c.nonce c.ephemeralPubHex))
    let d : Challenge := { c with attempts := c.attempts + 1 }
    have hproves : Proves P fp proof d := by
      refine ⟨shared, hu.sharedSecret ((keyed_of_reach hr).stored fp c hc), ?_⟩
      simp [registrationProof, d, hkey, proof]
    obtain ⟨call, hq⟩ : ∃ call, verifyRequest call = .ok ⟨fp, proof⟩ := by
      apply exists_verifyCall
      · exact List.ne_nil_of_length_pos (by rw [← hfp, length_fingerprint]; decide)
      · exact List.ne_nil_of_length_pos (by rw [length_encodeHex, P.length_hmac]; decide)
    obtain ⟨n, hn⟩ := verifiesFinite_of_reachable hr.reachable
    have hs : s.2.verifyBegin t n call = _ := Registry.verifyBegin_stored (hn n le_rfl) hq hc
    rw [if_pos hlive] at hs
    have hcheck : checkProof P ⟨fp, proof⟩ d = .ok () := checkProof_eq_ok.mpr hproves
    refine ⟨n, call, ⟨fp, proof⟩, d, (t, _), hq, rfl, Machine.timed_step.mpr ⟨ht, rfl, hs⟩, ?_, hcheck,
      fun random hl hnew => Registry.issued_of_checkProof Table.set_self hcheck hl hnew le_rfl⟩
    simp [Registry.inFlight, VerifyThread.held, d]

/-- Whether init and verify agree on a challenge at an instant. They part where init goes by the
expiry alone and the attempts are used up, and at the expiry itself, where init lets a new challenge
in while verify still accepts the old one. -/
theorem live_agree_iff (hr : (registry P env).Reach (fun _ a => a.2.Sized) s)
    (hc : s.2.challenges fp = some c) (hu : c.Usable P shared)
    (hkdf : (deriveProofKey P shared c.nonce).isSome) (ht : s.1 ≤ t) :
    (Registry.RefusesInit P env s t fp ↔ Registry.AcceptsVerify P env s t fp) ↔
      c.expiresAt < t ∨ t < c.expiresAt ∧ c.attempts < maxAttempts ∨
        t = c.expiresAt ∧ c.attempts = maxAttempts := by
  have hle : c.attempts ≤ maxAttempts := attempts_le_of_reachable hr.reachable hc
  rw [refusesInit_iff hr hc ht, acceptsVerify_iff hr hc hu hkdf ht]
  rcases lt_trichotomy t c.expiresAt with hlt | heq | hgt
  · simp [hlt, hlt.le, hlt.ne, hlt.not_gt]
  · subst heq
    simp only [lt_self_iff_false, le_refl, true_and, false_iff, false_and, false_or]
    omega
  · simp [hgt, hgt.not_gt, hgt.not_ge]

end Live

theorem Vector.usable : Vector.challenge.Usable Vector.primitives Vector.shared :=
  ⟨Vector.sidecarPub, by decide +kernel, rfl, by simp [Vector.primitives, Vector.challenge]⟩

theorem Vector.initSteps_sized : ∀ a ∈ Vector.initSteps, a.2.Sized := by
  simp [Vector.initSteps, RegistryAction.Sized, Vector.ephemeralPriv]

theorem live_agree_iff_initSteps :
    ∃ s, (registry Vector.primitives {}).exec (0, Registry.initial) Vector.initSteps = some s ∧
      (Registry.RefusesInit Vector.primitives {} s 1 Vector.fingerprint ↔
        Registry.AcceptsVerify Vector.primitives {} s 1 Vector.fingerprint) := by
  obtain ⟨s, hs⟩ : ∃ s, (registry Vector.primitives {}).exec (0, Registry.initial)
      Vector.initSteps = some s := ⟨_, rfl⟩
  have h₀ : (registry Vector.primitives {}).init (0, Registry.initial) := rfl
  have hr : (registry Vector.primitives {}).Reach (fun _ a => a.2.Sized) s :=
    .exec (fun a ha _ => Vector.initSteps_sized a ha) (.init h₀) hs
  have hc : s.2.challenges Vector.fingerprint = some Vector.challenge := by
    cases hs
    rfl
  have ht : s.1 ≤ 1 := by
    cases hs
    decide
  exact ⟨s, hs, (live_agree_iff hr hc Vector.usable rfl ht).mpr (.inr (.inl (by decide)))⟩

/-- Five requests with a wrong proof. -/
def guessingRun : List (ℕ × RegistryAction) :=
  Vector.initSteps ++ [1, 2, 3, 4, 5].flatMap fun i =>
    [(1, .verifyBegin i ⟨Vector.post, true, some ⟨Vector.fingerprint, str "00"⟩⟩),
      (1, .verifyCompare i (List.replicate 32 4))]

/-- After five failed proofs no further one is accepted, but the fingerprint stays blocked. At its
expiry a challenge blocks nothing and is still accepted. -/
theorem guessingRun_disagrees :
    (∃ s, (registry Vector.primitives {}).exec (0, Registry.initial) guessingRun = some s ∧
      Registry.RefusesInit Vector.primitives {} s 2 Vector.fingerprint ∧
      ¬ Registry.AcceptsVerify Vector.primitives {} s 2 Vector.fingerprint) ∧
    ∃ s, (registry Vector.primitives {}).exec (0, Registry.initial) Vector.initSteps = some s ∧
      ¬ Registry.RefusesInit Vector.primitives {} s (5 * minute) Vector.fingerprint ∧
      Registry.AcceptsVerify Vector.primitives {} s (5 * minute) Vector.fingerprint := by
  let M := registry Vector.primitives {}
  have h₀ : M.init (0, Registry.initial) := rfl
  constructor
  · have h : ((M.exec (0, Registry.initial) guessingRun).bind fun s =>
        (s.2.challenges Vector.fingerprint).map fun c =>
          ([s.1, c.expiresAt, c.attempts], [c.publicKey, c.ephemeralPriv, c.nonce])) =
        some ([1, 5 * minute, 5], [Vector.publicKey, Vector.ephemeralPriv, Vector.nonce]) := by
      decide +kernel
    obtain ⟨s, hs, h⟩ := Option.bind_eq_some_iff.mp h
    obtain ⟨c, hc, h⟩ := Option.map_eq_some_iff.mp h
    simp only [Prod.mk.injEq, List.cons.injEq, and_true] at h
    obtain ⟨⟨hclock, hexp, hatt⟩, hpk, hpriv, hnonce⟩ := h
    have hr : M.Reach (fun _ a => a.2.Sized) s := by
      refine .exec ?_ (.init h₀) hs
      intro a ha _
      rcases List.mem_append.mp ha with ha | ha
      · exact Vector.initSteps_sized a ha
      · obtain ⟨i, -, ha⟩ := List.mem_flatMap.mp ha
        rcases List.mem_pair.mp ha with rfl | rfl
        · trivial
        · trivial
    refine ⟨s, hs, ?_, ?_⟩
    · rw [refusesInit_iff hr hc (by omega), hexp]
      decide
    · have hu : c.Usable Vector.primitives Vector.shared := by
        rw [Challenge.Usable, hpk, hpriv]
        exact Vector.usable
      have hkdf : (deriveProofKey Vector.primitives Vector.shared c.nonce).isSome := by
        rw [hnonce]
        rfl
      rw [acceptsVerify_iff hr hc hu hkdf (by omega), hatt]
      exact fun h => absurd h.2 (by decide)
  · obtain ⟨s, hs⟩ : ∃ s, M.exec (0, Registry.initial) Vector.initSteps = some s := ⟨_, rfl⟩
    have hr : M.Reach (fun _ a => a.2.Sized) s :=
      .exec (fun a ha _ => Vector.initSteps_sized a ha) (.init h₀) hs
    have hc : s.2.challenges Vector.fingerprint = some Vector.challenge := by
      cases hs
      rfl
    have ht : s.1 ≤ 5 * minute := by
      cases hs
      decide
    refine ⟨s, hs, ?_, ?_⟩
    · rw [refusesInit_iff hr hc ht]
      decide
    · rw [acceptsVerify_iff hr hc Vector.usable rfl ht]
      decide

end HeadFwd.Relay
