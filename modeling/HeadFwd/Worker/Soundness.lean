import HeadFwd.Relay.Vector
import HeadFwd.Worker.Registration

/-! # Soundness of registrations in the Worker

A registration that a verify request stores goes back to a challenge for the
public key behind its fingerprint. The legacy endpoint stores registrations in
the same place without a challenge, so registrations are sound exactly in the
runs in which nobody uses it.
-/

namespace HeadFwd.Worker

open Text Net Crypto Transition Js

variable {P : Primitives} {env : Env}

theorem length_ofAscii (s : Bytes) : (ofAscii s).length = s.length := List.length_map _

theorem challengeKey_ne_tunnelKey (x y : Bytes) : challengeKey x ≠ tunnelKey y := by
  intro h
  have hc := congrArg List.head? h
  simp [challengeKey, tunnelKey, str] at hc

theorem challengeKey_inj {x y : Bytes} : challengeKey x = challengeKey y ↔ x = y :=
  List.append_right_inj _

theorem tunnelKey_inj {x y : Bytes} : tunnelKey x = tunnelKey y ↔ x = y := List.append_right_inj _

theorem expectedProof_length {c : Challenge} {proof : Bytes} (h : expectedProof P c = some proof) :
    proof.length = 64 := by
  unfold expectedProof at h
  dsimp only at h
  split_ifs at h with hl
  obtain ⟨shared, -, rfl⟩ := Option.map_eq_some_iff.mp h
  rw [length_encodeHex, P.length_hmac]

/-- Only the expected proof, as a string, is accepted. -/
theorem checkProof_eq_ok {c : Challenge} {proof : JsValue} (h : checkProof P c proof = .ok ()) :
    ∃ expected, expectedProof P c = some expected ∧ proof = .string (ofAscii expected) := by
  unfold checkProof at h
  split at h
  · cases h
  · rename_i expected hexp
    refine ⟨expected, hexp, ?_⟩
    split at h
    · cases h
    · cases h
    · rename_i heq
      unfold timingSafeEqual at heq
      split at heq
      · rename_i s
        rw [Option.some.injEq, Crypto.timingSafeEqual_iff fun _ _ h => UInt16.toNat_inj.mp h] at heq
        rw [heq]
      · split_ifs at heq with hl hnil
        · cases heq
        · have hlen := expectedProof_length hexp
          rw [← length_ofAscii, hnil] at hlen
          cases hlen

/-- The request presents the proof expected for the challenge under the fingerprint. -/
def Presents (P : Primitives) (call : Call) (fp : Bytes) (c : Challenge) : Prop :=
  ∃ fingerprint text expected, call.field "fingerprint" = some fingerprint ∧
    fingerprint.text = some text ∧ utf8 text = fp ∧ expectedProof P c = some expected ∧
    call.field "proof" = some (.string (ofAscii expected))

/-- The challenge has been stored under the fingerprint. -/
def Challenged (kv : Versions Bytes Entry) (fp : Bytes) (c : Challenge) : Prop :=
  ∃ call, some ⟨.challenge c, .init call⟩ ∈ kv (challengeKey fp)

/-- The entry was put by a verify request that presented the proof expected for a challenge stored
for a public key with the fingerprint. -/
def Verified (P : Primitives) (kv : Versions Bytes Entry) (fp : Bytes) (e : Entry) : Prop :=
  ∃ call c secret, e = ⟨.registration ⟨.string c.publicKey, some secret⟩, .verify call⟩ ∧
    Challenged kv fp c ∧ computeFingerprint P c.publicKey = fp ∧ Presents P call fp c

/-- The body has a public key that the legacy endpoint registers. -/
def RegistryAction.Legacy : RegistryAction → Prop
  | .register call ok => ok = true ∧ ∃ pubkey text, call.field "pubkey" = some pubkey ∧
      pubkey.truthy = true ∧ pubkey.text = some text
  | _ => False

theorem handleRegister_eq_ok {call : Call} {r : Bytes × Registration × Reply}
    (h : handleRegister P env call = .ok r) : ∃ pubkey text, call.field "pubkey" = some pubkey ∧
      pubkey.truthy = true ∧ pubkey.text = some text := by
  unfold handleRegister at h
  split at h
  · cases h
  · rename_i pubkey hp
    split_ifs at h with ht
    split at h
    · cases h
    · rename_i text htext
      exact ⟨pubkey, text, hp, by simpa using ht, htext⟩

theorem handleRegisterInit_eq_ok {now : ℕ} {call : Call} {random ephemeralPriv : Random}
    {fp : Bytes} {c : Challenge} {expiresAt : ℕ} {r : Reply}
    (h : handleRegisterInit P now call random ephemeralPriv = .ok (fp, c, expiresAt, r)) :
    computeFingerprint P c.publicKey = fp := by
  unfold handleRegisterInit at h
  split at h
  · cases h
  · split_ifs at h
    split at h
    · split_ifs at h
      cases h
      rfl
    · cases h

namespace Registry

variable {now : ℕ} {s s' : Registry} {a : RegistryAction}

/-- What a step does when the namespace is bound. -/
inductive Effect (P : Primitives) (s : Registry) : RegistryAction → Registry → Prop where
  | replied (a : RegistryAction) (source : Source) (r : Reply) (ha : ¬ a.Legacy) :
    Effect P s a (s.reply source r)
  | finished (a : RegistryAction) (i : ℕ) (r : Reply) (ha : ¬ a.Legacy) : Effect P s a (s.finish i r)
  | registered (call : Call) (fp : Bytes) (registration : Registration) (r : Reply)
    (ha : RegistryAction.Legacy (.register call true)) : Effect P s (.register call true)
      ({ s with kv := s.kv.put (tunnelKey fp) ⟨.registration registration, .register call⟩ }.reply
        (.register call) r)
  | challenged (call : Call) (random ephemeralPriv : Random) (fp : Bytes) (c : Challenge) (r : Reply)
    (hc : computeFingerprint P c.publicKey = fp) : Effect P s (.init call random ephemeralPriv true)
      ({ s with kv := s.kv.put (challengeKey fp) ⟨.challenge c, .init call⟩ }.reply (.init call) r)
  | proved (i : ℕ) (call : Call) (age : ℕ) (ok : Bool) (fingerprint : JsValue) (text : JsString)
    (c : Challenge) (source : Source)
    (hc : some ⟨.challenge c, source⟩ ∈ s.kv (challengeKey (utf8 text)))
    (hp : Presents P call (utf8 text) c) : Effect P s (.verifyBegin i call age ok)
      { s with verifies := s.verifies.set i (.storing call fingerprint text c.publicKey) }
  | stored (i : ℕ) (random : Random) (call : Call) (fingerprint : JsValue) (text publicKey : JsString)
    (hi : s.verifies i = some (.storing call fingerprint text publicKey)) :
    Effect P s (.verifyStore i random true) { s with
      kv := s.kv.put (tunnelKey (utf8 text))
        ⟨.registration ⟨.string publicKey, some (ofAscii (encodeHex random.val))⟩, .verify call⟩
      verifies := s.verifies.set i (.deleting call fingerprint text (encodeHex random.val)) }
  | deleted (i : ℕ) (key : Bytes) (r : Reply) : Effect P s (.verifyDelete i true)
      ({ s with kv := s.kv.delete key }.finish i r)
  | expired (key : Bytes) : Effect P s (.expire key) { s with kv := s.kv.delete key }

theorem register_effect (hreg : env.registry = true) {call : Call} {ok : Bool} :
    Effect P s (.register call ok) (s.register P env call ok) := by
  unfold register
  split
  · rename_i r hr
    refine .replied _ _ r ?_
    rintro ⟨-, pubkey, text, hp, ht, htext⟩
    simp [handleRegister, hp, ht, htext] at hr
  · rename_i fp registration r hr
    cases ok with
    | false =>
      simp only [hreg, Bool.not_true, Bool.not_false, Bool.false_eq_true, if_false, if_true]
      exact .replied _ _ _ fun ha => Bool.false_ne_true ha.1
    | true =>
      simp only [hreg, Bool.not_true, Bool.false_eq_true, if_false]
      exact .registered call fp registration r ⟨rfl, handleRegister_eq_ok hr⟩

theorem init_effect (hreg : env.registry = true) {call : Call} {random ephemeralPriv : Random}
    {ok : Bool} : Effect P s (.init call random ephemeralPriv ok)
      (s.init P env now call random ephemeralPriv ok) := by
  unfold init
  split
  · exact .replied _ _ _ id
  · rename_i fp c expiresAt r hr
    cases ok with
    | false =>
      simp only [hreg, Bool.not_true, Bool.not_false, Bool.false_eq_true, if_false, if_true]
      exact .replied _ _ _ id
    | true =>
      simp only [hreg, Bool.not_true, Bool.false_eq_true, if_false]
      exact .challenged call random ephemeralPriv fp c r (handleRegisterInit_eq_ok hr)

theorem verifyFields_eq_ok {call : Call} {fingerprint proof : JsValue}
    (h : verifyFields call = .ok (fingerprint, proof)) :
    call.field "fingerprint" = some fingerprint ∧ call.field "proof" = some proof := by
  unfold verifyFields at h
  split at h
  · rename_i f p hf hp
    split_ifs at h
    cases h
    exact ⟨hf, hp⟩
  · cases h

theorem verifyBegin_effect (hreg : env.registry = true) {i : ℕ} {call : Call} {age : ℕ} {ok : Bool} :
    Effect P s (.verifyBegin i call age ok) (s.verifyBegin P env now i call age ok) := by
  unfold verifyBegin
  split
  · exact .finished _ i _ id
  · rename_i fingerprint proof hfields
    obtain ⟨hf, hp⟩ := verifyFields_eq_ok hfields
    simp only [hreg, if_true]
    split
    · exact .finished _ i _ id
    · rename_i text htext
      split
      · exact .finished _ i _ id
      · split
        · exact .finished _ i _ id
        · exact .finished _ i _ id
        · rename_i c hc
          split
          · exact .finished _ i _ id
          · rename_i hproof
            obtain ⟨⟨record, source⟩, hread, rfl⟩ := Option.map_eq_some_iff.mp hc
            obtain ⟨expected, hexp, rfl⟩ := checkProof_eq_ok hproof
            exact .proved i call age ok fingerprint text c source (Versions.mem_of_read hread)
              ⟨fingerprint, text, expected, hf, htext, rfl, hexp, hp⟩

theorem step_effect (hreg : env.registry = true) (h : s.step P env now a = some s') :
    Effect P s a s' := by
  cases a with
  | register call ok =>
    cases h
    exact register_effect hreg
  | init call random ephemeralPriv ok =>
    cases h
    exact init_effect hreg
  | verifyBegin i call age ok =>
    simp only [step] at h
    split_ifs at h
    cases h
    exact verifyBegin_effect hreg
  | verifyStore i random ok =>
    simp only [step, verifyStore] at h
    split at h
    · rename_i call fingerprint text publicKey hi
      cases ok with
      | false =>
        simp only [hreg, Bool.not_true, Bool.not_false, Bool.false_eq_true, if_false, if_true] at h
        cases h
        exact .finished _ i _ id
      | true =>
        simp only [hreg, Bool.not_true, Bool.false_eq_true, if_false] at h
        cases h
        exact .stored i random call fingerprint text publicKey hi
    · cases h
  | verifyDelete i ok =>
    simp only [step, verifyDelete] at h
    split at h
    · cases ok with
      | false =>
        simp only [Bool.not_false, if_true] at h
        cases h
        exact .finished _ i _ id
      | true =>
        simp only [Bool.not_true, Bool.false_eq_true, if_false] at h
        cases h
        exact .deleted i _ _
    · cases h
  | expire key =>
    cases h
    exact .expired key

/-- Every registration is verified, and a tunnel is accepted under the host of a fingerprint only
with the secret of a verified registration. -/
def Sound (P : Primitives) (env : Env) (s : Registry) : Prop :=
  (∀ fp e, some e ∈ s.kv (tunnelKey fp) → Verified P s.kv fp e) ∧
  ∀ dial age fp, extractFingerprint dial.hostname = some fp →
    acceptTunnel env s.kv dial age = .ok () → ∃ e publicKey auth, some e ∈ s.kv (tunnelKey fp) ∧
      Verified P s.kv fp e ∧ e.record = .registration ⟨publicKey, some auth⟩ ∧ dial.auth = some auth

/-- Challenges are stored by init requests under the fingerprint of their key, a verify request that
goes on to store has presented the proof for one, and registrations are verified. -/
structure Attested (P : Primitives) (s : Registry) : Prop where
  challenges : ∀ fp e, some e ∈ s.kv (challengeKey fp) → ∃ c call, e = ⟨.challenge c, .init call⟩ ∧
    computeFingerprint P c.publicKey = fp
  storing : ∀ i call fingerprint text publicKey,
    s.verifies i = some (.storing call fingerprint text publicKey) →
    ∃ c, c.publicKey = publicKey ∧ Challenged s.kv (utf8 text) c ∧ Presents P call (utf8 text) c
  registrations : ∀ fp e, some e ∈ s.kv (tunnelKey fp) → Verified P s.kv fp e

theorem Attested.initial : Registry.initial.Attested P := ⟨nofun, nofun, nofun⟩

/-- Nothing that was stored is forgotten. -/
theorem Effect.kv_mono (he : Effect P s a s') {k : Bytes} {e : Entry} (h : some e ∈ s.kv k) :
    some e ∈ s'.kv k := by
  cases he with
  | replied a source r ha => exact h
  | finished a i r ha => exact h
  | registered call fp registration r ha => exact Versions.mem_put.mpr (.inr h)
  | challenged call random ephemeralPriv fp c r hc => exact Versions.mem_put.mpr (.inr h)
  | proved i call age ok fingerprint text c source hc hp => exact h
  | stored i random call fingerprint text publicKey hi => exact Versions.mem_put.mpr (.inr h)
  | deleted i key r => exact Versions.mem_delete.mpr h
  | expired key => exact Versions.mem_delete.mpr h

theorem Effect.challenged_mono (he : Effect P s a s') {fp : Bytes} {c : Challenge}
    (h : Challenged s.kv fp c) : Challenged s'.kv fp c := by
  obtain ⟨call, hc⟩ := h
  exact ⟨call, he.kv_mono hc⟩

theorem Effect.verified_mono (he : Effect P s a s') {fp : Bytes} {e : Entry}
    (h : Verified P s.kv fp e) : Verified P s'.kv fp e := by
  obtain ⟨call, c, secret, hr, hc, hf, hp⟩ := h
  exact ⟨call, c, secret, hr, he.challenged_mono hc, hf, hp⟩

/-- What a step may have stored: a legacy registration, a challenge, or the registration of a verify
request. -/
theorem Effect.mem_kv (he : Effect P s a s') {k : Bytes} {e : Entry} (hm : some e ∈ s'.kv k) :
    some e ∈ s.kv k ∨
    (a.Legacy ∧ ∃ fp, k = tunnelKey fp) ∨
    (∃ call c, k = challengeKey (computeFingerprint P c.publicKey) ∧
      e = ⟨.challenge c, .init call⟩) ∨
    ∃ i call fingerprint text publicKey secret,
      s.verifies i = some (.storing call fingerprint text publicKey) ∧ k = tunnelKey (utf8 text) ∧
      e = ⟨.registration ⟨.string publicKey, some secret⟩, .verify call⟩ := by
  have put : ∀ {k' e'}, s'.kv = s.kv.put k' e' → some e ∈ s.kv k ∨ k = k' ∧ e = e' := by
    intro k' e' hkv
    rw [hkv] at hm
    exact (Versions.mem_put.mp hm).symm
  cases he with
  | replied a source r ha => exact .inl hm
  | finished a i r ha => exact .inl hm
  | registered call fp registration r ha =>
    exact (put rfl).imp_right fun hk => .inl ⟨ha, fp, hk.1⟩
  | challenged call random ephemeralPriv fp c r hc =>
    exact (put rfl).imp_right fun hk => .inr (.inl ⟨call, c, hc ▸ hk.1, hk.2⟩)
  | proved i call age ok fingerprint text c source hc hp => exact .inl hm
  | stored i random call fingerprint text publicKey hi =>
    exact (put rfl).imp_right fun hk => .inr (.inr ⟨i, call, fingerprint, text, publicKey, _, hi, hk⟩)
  | deleted i key r => exact .inl (Versions.mem_delete.mp hm)
  | expired key => exact .inl (Versions.mem_delete.mp hm)

theorem Attested.challenges_step (h : s.Attested P) (he : Effect P s a s') (fp : Bytes) (e : Entry)
    (hm : some e ∈ s'.kv (challengeKey fp)) : ∃ c call, e = ⟨.challenge c, .init call⟩ ∧
      computeFingerprint P c.publicKey = fp := by
  rcases he.mem_kv hm with hm | ⟨-, fp', hk⟩ | ⟨call, c, hk, rfl⟩ | ⟨_, _, _, text, _, _, -, hk, -⟩
  · exact h.challenges fp e hm
  · exact absurd hk (challengeKey_ne_tunnelKey _ _)
  · exact ⟨c, call, rfl, (challengeKey_inj.mp hk).symm⟩
  · exact absurd hk (challengeKey_ne_tunnelKey _ _)

theorem Attested.storing_step (h : s.Attested P) (he : Effect P s a s') (i : ℕ) (call : Call)
    (fingerprint : JsValue) (text publicKey : JsString)
    (hi : s'.verifies i = some (.storing call fingerprint text publicKey)) :
    ∃ c, c.publicKey = publicKey ∧ Challenged s'.kv (utf8 text) c ∧
      Presents P call (utf8 text) c := by
  have old : s.verifies i = some (.storing call fingerprint text publicKey) →
      ∃ c, c.publicKey = publicKey ∧ Challenged s'.kv (utf8 text) c ∧
        Presents P call (utf8 text) c := by
    intro hi
    obtain ⟨c, hk, hc, hp⟩ := h.storing i call fingerprint text publicKey hi
    exact ⟨c, hk, he.challenged_mono hc, hp⟩
  cases he with
  | replied a source r ha => exact old hi
  | finished a k r ha => exact old (Table.of_set hi nofun)
  | registered call' fp registration r ha => exact old hi
  | challenged call' random ephemeralPriv fp c r hc => exact old hi
  | proved k call' age ok fingerprint' text' c source hc hp =>
    rcases Table.set_eq_some_iff.mp hi with ⟨-, hi'⟩ | ⟨-, hi'⟩
    · cases hi'
      obtain ⟨c', call'', he, -⟩ := h.challenges _ _ hc
      cases he
      exact ⟨c, rfl, ⟨call'', hc⟩, hp⟩
    · exact old hi'
  | stored k random call' fingerprint' text' publicKey' hk => exact old (Table.of_set hi nofun)
  | deleted k key r => exact old (Table.of_set hi nofun)
  | expired key => exact old hi

theorem Attested.registrations_step (h : s.Attested P) (ha : ¬ a.Legacy) (he : Effect P s a s')
    (fp : Bytes) (e : Entry) (hm : some e ∈ s'.kv (tunnelKey fp)) : Verified P s'.kv fp e := by
  rcases he.mem_kv hm with hm | ⟨hl, -⟩ | ⟨_, c, hk, -⟩ | ⟨i, call, _, text, _, secret, hi, hk, rfl⟩
  · exact he.verified_mono (h.registrations fp e hm)
  · exact absurd hl ha
  · exact absurd hk.symm (challengeKey_ne_tunnelKey _ _)
  · obtain rfl : fp = utf8 text := tunnelKey_inj.mp hk
    obtain ⟨c, rfl, hc, hp⟩ := h.storing i call _ text _ hi
    obtain ⟨call', hm'⟩ := hc
    obtain ⟨c', call'', hcc, hf⟩ := h.challenges _ _ hm'
    cases hcc
    exact ⟨call, c, secret, rfl, he.challenged_mono ⟨call', hm'⟩, hf, hp⟩

theorem Attested.step (h : s.Attested P) (ha : ¬ a.Legacy) (he : Effect P s a s') : s'.Attested P :=
  ⟨h.challenges_step he, h.storing_step he, h.registrations_step ha he⟩

/-- A tunnel is accepted with a secret that the namespace holds. -/
theorem exists_of_acceptTunnel (hreg : env.registry = true) {kv : Versions Bytes Entry} {dial : Dial}
    {age : ℕ} {fp : Bytes} (hf : extractFingerprint dial.hostname = some fp)
    (h : acceptTunnel env kv dial age = .ok ()) : ∃ e publicKey auth, some e ∈ kv (tunnelKey fp) ∧
      e.record = .registration ⟨publicKey, some auth⟩ ∧ dial.auth = some auth := by
  unfold acceptTunnel at h
  split_ifs at h with ha
  unfold authorised at ha
  split at ha
  · exact absurd rfl ha
  · rename_i auth hauth
    rw [hf, hreg] at ha
    dsimp only at ha
    split at ha
    · rename_i publicKey secret hread
      obtain ⟨e, hread, hrec⟩ := Option.map_eq_some_iff.mp hread
      obtain rfl : secret = auth := by simp_all
      exact ⟨e, publicKey, secret, Versions.mem_of_read hread, hrec, hauth⟩
    · simp at ha

theorem Attested.sound (h : s.Attested P) (hreg : env.registry = true) : s.Sound P env := by
  refine ⟨h.registrations, fun dial age fp hf hacc => ?_⟩
  obtain ⟨e, publicKey, auth, hm, hrec, hauth⟩ := exists_of_acceptTunnel hreg hf hacc
  exact ⟨e, publicKey, auth, hm, h.registrations fp e hm, hrec, hauth⟩

/-- A legacy registration is not verified. -/
theorem Effect.not_sound (he : Effect P s a s') (ha : a.Legacy) : ¬ s'.Sound P env := by
  rintro ⟨h, -⟩
  cases he with
  | replied a source r hn => exact hn ha
  | finished a i r hn => exact hn ha
  | registered call fp registration r hl =>
    obtain ⟨call', c, secret, he, -⟩ := h fp _ (Versions.mem_put.mpr (.inl ⟨rfl, rfl⟩))
    cases he
  | challenged call random ephemeralPriv fp c r hc => exact ha
  | proved i call age ok fingerprint text c source hc hp => exact ha
  | stored i random call fingerprint text publicKey hi => exact ha
  | deleted i key r => exact ha
  | expired key => exact ha

end Registry

/-- The registration endpoints under any interleaving of requests. -/
def registry (P : Primitives) (env : Env) : Machine (ℕ × Registry) (ℕ × RegistryAction) :=
  .timed (· = Registry.initial) (Registry.step P env)

/-- Registrations are sound throughout a run exactly when no request of the run uses the legacy
endpoint to register a public key. -/
theorem sound_along_iff (hreg : env.registry = true) {now : ℕ} {as : List (ℕ × RegistryAction)}
    {s : ℕ × Registry} (hr : (registry P env).exec (now, Registry.initial) as = some s) :
    (registry P env).Along (fun s => s.2.Sound P env) (now, Registry.initial) as ↔
      ∀ a ∈ as, ¬ a.2.Legacy := by
  rw [← Machine.meets_iff_forall hr]
  refine Machine.along_iff_meets (I := fun s => s.2.Attested P) (fun s h => h.sound hreg) ?_ ?_
    Registry.Attested.initial hr
  · intro s a s' h ha hs
    obtain ⟨-, -, hs⟩ := Machine.timed_step.mp hs
    exact h.step ha (Registry.step_effect hreg hs)
  · intro s a s' _ ha hs
    obtain ⟨-, -, hs⟩ := Machine.timed_step.mp hs
    exact (Registry.step_effect hreg hs).not_sound (not_not.mp ha)

namespace Vector

/-- The code of the nonce under the shared secret. -/
def mac : Bytes :=
  [0xfd, 0x2a, 0x8e, 0xbe, 0xc5, 0x08, 0x1f, 0xa7, 0x6e, 0x03, 0x7e, 0x82, 0x71, 0xcd, 0x85, 0xbc,
    0xaf, 0x4b, 0xe1, 0x31, 0xe5, 0xf0, 0xa8, 0xe2, 0x31, 0x63, 0xb5, 0xa1, 0xce, 0x5b, 0x15, 0xe8]

/-- The primitives at the inputs of a registration in this version of the protocol. -/
def primitives : Primitives :=
  { Relay.Vector.primitives with
    hmac := fun key message =>
      if key = Relay.Vector.shared ∧ message = Relay.Vector.nonce then mac else List.replicate 32 0
    length_hmac := by
      intro key message
      split_ifs
      · rfl
      · rfl }

def bound : Env where
  registry := true
  tunnelSecret := some (js "secret")

/-- A request to an endpoint, with the given fields as its body. -/
def post (fields : List (JsString × JsValue)) : Call where
  hostname := js "headfwd.net"
  body := some (.object fields)

def publicKey : JsValue := .string (ofAscii Relay.Vector.publicKey)

def verifyCall : Call :=
  post [(js "fingerprint", .string (ofAscii Relay.Vector.fingerprint)),
    (js "proof", .string (ofAscii (encodeHex mac)))]

end Vector

/-- A registration that follows the protocol. -/
def registrationRun : List (ℕ × RegistryAction) :=
  [(0, .init (Vector.post [(js "publicKey", Vector.publicKey)]) ⟨List.replicate 32 3, rfl⟩
      ⟨Relay.Vector.ephemeralPriv, rfl⟩ true),
    (1, .verifyBegin 0 Vector.verifyCall 0 true),
    (2, .verifyStore 0 ⟨List.replicate 32 4, rfl⟩ true), (3, .verifyDelete 0 true)]

theorem sound_along_registrationRun :
    ∃ s, (registry Vector.primitives Vector.bound).exec (0, Registry.initial) registrationRun = some s ∧
      (s.2.kv (tunnelKey Relay.Vector.fingerprint)).length = 1 ∧
      (registry Vector.primitives Vector.bound).Along
        (fun s => s.2.Sound Vector.primitives Vector.bound) (0, Registry.initial) registrationRun := by
  have h : ((registry Vector.primitives Vector.bound).exec (0, Registry.initial) registrationRun).map
      (fun s => (s.2.kv (tunnelKey Relay.Vector.fingerprint)).length) = some 1 := by decide +kernel
  obtain ⟨s, hs, h⟩ := Option.map_eq_some_iff.mp h
  refine ⟨s, hs, h, (sound_along_iff rfl hs).mpr ?_⟩
  simp [registrationRun, RegistryAction.Legacy]

/-- Anybody registers the public key of somebody else. -/
def legacyRun : List (ℕ × RegistryAction) :=
  [(0, .register (Vector.post [(js "pubkey", Vector.publicKey)]) true)]

def legacyDial : Dial where
  hostname := ofAscii Relay.Vector.fingerprint ++ js ".headfwd.net"
  auth := some (js "secret")
  upgrade := some (js "websocket")
  wsKey := none

/-- One request without any proof stores a registration for the fingerprint of the key, and a tunnel
under its host is then accepted with the secret that the request was given. -/
theorem legacyRun_not_sound :
    ∃ s, (registry Vector.primitives Vector.bound).exec (0, Registry.initial) legacyRun = some s ∧
      extractFingerprint legacyDial.hostname = some Relay.Vector.fingerprint ∧
      acceptTunnel Vector.bound s.2.kv legacyDial 0 = .ok () ∧
      ¬ s.2.Sound Vector.primitives Vector.bound := by
  have h : ((registry Vector.primitives Vector.bound).exec (0, Registry.initial) legacyRun).map
      (fun s => acceptTunnel Vector.bound s.2.kv legacyDial 0) = some (.ok ()) := by decide +kernel
  obtain ⟨s, hs, h⟩ := Option.map_eq_some_iff.mp h
  refine ⟨s, hs, by decide +kernel, h, ?_⟩
  obtain ⟨t, ht, hs⟩ := Option.bind_eq_some_iff.mp hs
  cases hs
  obtain ⟨-, -, ht⟩ := Machine.timed_step.mp ht
  exact (Registry.step_effect rfl ht).not_sound ⟨rfl, Vector.publicKey, _, rfl, by decide, rfl⟩

end HeadFwd.Worker
