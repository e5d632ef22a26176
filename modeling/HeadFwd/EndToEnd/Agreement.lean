import HeadFwd.Relay.Provenance
import HeadFwd.Relay.Vector
import HeadFwd.Sidecar.Register
import HeadFwd.Text.Frames

/-! # Agreement of the relay and the sidecar on a proof

Both programs have their own copy of the transcript and of the proof. The copies
compute the same function, which tells its fields apart, so that the relay accepts
a proof of a sidecar exactly for the context in which it was computed.
-/

namespace HeadFwd.EndToEnd

open Text Crypto Relay

theorem appendField_eq (buf s : Bytes) : Sidecar.appendField buf s = appendField buf s := by
  simp only [Sidecar.appendField, appendField, bigEndian32, Nat.shiftRight_eq_div_pow]

theorem transcript_eq (fp pk nonce eph : Bytes) :
    Sidecar.transcript fp pk nonce eph = transcript fp pk nonce eph := by
  simp only [Sidecar.transcript, transcript, appendField_eq, List.foldl_cons, List.foldl_nil]
  rfl

theorem registrationProof_eq (P : Primitives) (shared fp pk nonce eph : Bytes) :
    Sidecar.registrationProof P shared fp pk nonce eph =
      registrationProof P shared fp pk nonce eph := by
  simp only [Sidecar.registrationProof, transcript_eq]
  rfl

theorem computeFingerprint_eq (P : Primitives) (pk : Bytes) :
    Sidecar.computeFingerprint P pk = computeFingerprint P pk := rfl

theorem bigEndian32_injective {m n : ℕ} (hm : m < 2 ^ 32) (hn : n < 2 ^ 32)
    (h : bigEndian32 m = bigEndian32 n) : m = n := by
  simp only [bigEndian32, List.cons.injEq, ← UInt8.toNat_inj, UInt8.toNat_ofNat', and_true] at h
  omega

/-- Lengths as a transcript writes them. -/
def lengths : Numeral UInt8 where
  encode := bigEndian32
  width := 4
  bound := 2 ^ 32
  length_encode _ := rfl
  encode_injective _ hm _ hn h := bigEndian32_injective hm hn h

theorem foldl_appendField (buf : Bytes) (l : List Bytes) :
    l.foldl appendField buf = buf ++ lengths.frames l := by
  induction l generalizing buf with
  | nil => simp
  | cons s l ih =>
    rw [List.foldl_cons, ih, lengths.frames_cons, appendField]
    simp [Numeral.frame, lengths]

/-- What a proof is computed from. -/
structure ProofInput where
  shared : Bytes
  fingerprint : Bytes
  publicKey : Bytes
  nonce : Bytes
  ephemeralPubHex : Bytes

namespace ProofInput

/-- The strings of the transcript. -/
def fields (x : ProofInput) : List Bytes := [x.fingerprint, x.publicKey, x.nonce, x.ephemeralPubHex]

def transcript (x : ProofInput) : Bytes :=
  Relay.transcript x.fingerprint x.publicKey x.nonce x.ephemeralPubHex

/-- Every string is shorter than the bound of its length field. -/
def Short (x : ProofInput) : Prop := ∀ s ∈ x.fields, s.length < 2 ^ 32

instance decidableShort (x : ProofInput) : Decidable x.Short :=
  inferInstanceAs (Decidable (∀ s ∈ x.fields, s.length < 2 ^ 32))

theorem transcript_eq_frames (x : ProofInput) :
    x.transcript = lengths.frames (hkdfInfo :: x.fields) := by
  rw [transcript, Relay.transcript, foldl_appendField, List.nil_append]
  rfl

theorem transcript_prefix_iff {x y : ProofInput} (hx : x.Short) (hy : y.Short) :
    x.transcript <+: y.transcript ↔ x.fields = y.fields := by
  have hs : ∀ z : ProofInput, z.Short → ∀ s ∈ hkdfInfo :: z.fields, s.length < lengths.bound := by
    intro z hz s hs
    rcases List.mem_cons.mp hs with rfl | hs
    · decide
    · exact hz s hs
  have hl : (hkdfInfo :: x.fields).length = (hkdfInfo :: y.fields).length := rfl
  rw [transcript_eq_frames, transcript_eq_frames, lengths.frames_prefix_iff hl (hs x hx) (hs y hy),
    List.cons.injEq, and_iff_right rfl]

theorem transcript_congr {x y : ProofInput} (h : x.fields = y.fields) :
    x.transcript = y.transcript := by
  rw [transcript_eq_frames, transcript_eq_frames, h]

theorem ext_fields {x y : ProofInput} (hs : x.shared = y.shared) (hf : x.fields = y.fields) :
    x = y := by
  cases x
  cases y
  simp_all [fields]

/-- What the relay expects a proof for a challenge to be computed from. -/
def expected (fp : Bytes) (c : Challenge) (shared : Bytes) : ProofInput :=
  ⟨shared, fp, c.publicKey, c.nonce, c.ephemeralPubHex⟩

def proof (P : Primitives) (x : ProofInput) : Option Bytes :=
  Sidecar.registrationProof P x.shared x.fingerprint x.publicKey x.nonce x.ephemeralPubHex

end ProofInput

open ProofInput

/-- HKDF and HMAC tell the inputs in use apart. No code of fixed length could do so on all
inputs. -/
structure CollisionFree (P : Primitives) (used : Set ProofInput) : Prop where
  hkdf : ∀ x ∈ used, ∀ y ∈ used, ∀ key, P.hkdf x.shared x.nonce hkdfInfo 32 = some key →
    P.hkdf y.shared y.nonce hkdfInfo 32 = some key → x.shared = y.shared ∧ x.nonce = y.nonce
  hmac : ∀ x ∈ used, ∀ y ∈ used, ∀ k k', P.hkdf x.shared x.nonce hkdfInfo 32 = some k →
    P.hkdf y.shared y.nonce hkdfInfo 32 = some k' →
      P.hmac k x.transcript = P.hmac k' y.transcript → k = k' ∧ x.transcript = y.transcript

variable {P : Primitives} {used : Set ProofInput}

theorem proof_eq_some {x : ProofInput} {proof : Bytes} :
    x.proof P = some proof ↔ ∃ key, P.hkdf x.shared x.nonce hkdfInfo 32 = some key ∧
      proof = encodeHex (P.hmac key x.transcript) := by
  rw [ProofInput.proof, Sidecar.registrationProof_eq_some, transcript_eq]
  rfl

theorem proves_iff {fp proof : Bytes} {c : Challenge} :
    Proves P fp proof c ↔ ∃ s, sharedSecret P c = .ok s ∧ (expected fp c s).proof P = some proof := by
  simp only [Proves, ProofInput.proof, registrationProof_eq]
  rfl

/-- A proof computed from one input is the proof of another input in use only if they agree. -/
theorem CollisionFree.eq_of_proof (h : CollisionFree P used) {x y : ProofInput} (hx : x ∈ used)
    (hy : y ∈ used) (hxs : x.Short) (hys : y.Short) {proof : Bytes} (hpx : x.proof P = some proof)
    (hpy : y.proof P = some proof) : x = y := by
  obtain ⟨k, hk, rfl⟩ := proof_eq_some.mp hpx
  obtain ⟨k', hk', he⟩ := proof_eq_some.mp hpy
  obtain ⟨rfl, ht⟩ := h.hmac x hx y hy k k' hk hk' (encodeHex_injective he)
  have hf : x.fields = y.fields := (transcript_prefix_iff hxs hys).mp (ht ▸ List.prefix_rfl)
  exact ext_fields (h.hkdf x hx y hy k hk hk').1 hf

/-- With keys of the right size on both sides, both compute the same shared secret. -/
theorem sharedSecret_iff
    (hcomm : ∀ a b, a.length = 32 → b.length = 32 →
      P.x25519 a (P.x25519Public b) = P.x25519 b (P.x25519Public a))
    (hpub : ∀ a, a.length = 32 → (P.x25519Public a).length = 32) {priv : Bytes} {c : Challenge}
    (hpriv : priv.length = 32) (heph : c.ephemeralPriv.length = 32)
    (hpk : c.publicKey = mkeyLabel ++ encodeHex (P.x25519Public priv))
    (hhex : c.ephemeralPubHex = encodeHex (P.x25519Public c.ephemeralPriv)) (s : Bytes) :
    Sidecar.sharedSecret P priv c.ephemeralPubHex = .ok s ↔ sharedSecret P c = .ok s := by
  have ht : trimPrefix c.publicKey mkeyLabel = encodeHex (P.x25519Public priv) := by
    rw [hpk, trimPrefix, if_pos (List.isPrefixOf_iff_prefix.mpr (List.prefix_append _ _)),
      List.drop_left]
  rw [Sidecar.sharedSecret, sharedSecret, ht, hhex, decodeHex_encodeHex, decodeHex_encodeHex]
  simp only [hpriv, heph, hpub _ hpriv, hpub _ heph, ne_eq, not_true_eq_false, if_false]
  rw [hcomm priv c.ephemeralPriv hpriv heph]
  cases P.x25519 c.ephemeralPriv (P.x25519Public priv) with
  | none => simp
  | some t => simp

/-- The comparison of the relay accepts the proof of a sidecar exactly if the sidecar computed it in
the context of the challenge. -/
theorem checkProof_iff (h : CollisionFree P used) {x : ProofInput} {fp proof : Bytes}
    {c : Challenge} (hx : x ∈ used) (hxs : x.Short)
    (hc : ∀ s, sharedSecret P c = .ok s → expected fp c s ∈ used ∧ (expected fp c s).Short)
    (hp : x.proof P = some proof) :
    checkProof P ⟨fp, proof⟩ c = .ok () ↔
      sharedSecret P c = .ok x.shared ∧ x = expected fp c x.shared := by
  rw [checkProof_eq_ok, proves_iff]
  constructor
  · rintro ⟨s, hs, hps⟩
    obtain ⟨hu, hsh⟩ := hc s hs
    obtain rfl : x = expected fp c s := h.eq_of_proof hx hu hxs hsh hp hps
    exact ⟨hs, rfl⟩
  · rintro ⟨hs, he⟩
    exact ⟨x.shared, hs, he ▸ hp⟩

/-- The two copies of the transcript agree and tell their fields apart, and the relay accepts a
proof exactly for the shared secret and the fields it was computed from. The two shared secrets
agree whenever the two key pairs are those of the challenge. -/
theorem proof_agreement (h : CollisionFree P used)
    (hcomm : ∀ a b, a.length = 32 → b.length = 32 →
      P.x25519 a (P.x25519Public b) = P.x25519 b (P.x25519Public a))
    (hpub : ∀ a, a.length = 32 → (P.x25519Public a).length = 32) :
    (∀ fp pk nonce eph, Sidecar.transcript fp pk nonce eph = transcript fp pk nonce eph) ∧
    (∀ x y : ProofInput, x.Short → y.Short →
      (x.transcript = y.transcript → x.fields = y.fields) ∧
      (x.transcript <+: y.transcript → x.transcript = y.transcript)) ∧
    (∀ x fp c proof, x ∈ used → x.Short →
      (∀ s, sharedSecret P c = .ok s → expected fp c s ∈ used ∧ (expected fp c s).Short) →
      Sidecar.registrationProof P x.shared x.fingerprint x.publicKey x.nonce x.ephemeralPubHex =
        some proof →
      (checkProof P ⟨fp, proof⟩ c = .ok () ↔
        sharedSecret P c = .ok x.shared ∧ x.fingerprint = fp ∧ x.publicKey = c.publicKey ∧
          x.nonce = c.nonce ∧ x.ephemeralPubHex = c.ephemeralPubHex)) ∧
    ∀ priv c, priv.length = 32 → c.ephemeralPriv.length = 32 →
      c.publicKey = mkeyLabel ++ encodeHex (P.x25519Public priv) →
      c.ephemeralPubHex = encodeHex (P.x25519Public c.ephemeralPriv) →
      ∀ s, Sidecar.sharedSecret P priv c.ephemeralPubHex = .ok s ↔ sharedSecret P c = .ok s := by
  refine ⟨transcript_eq, ?_, ?_, ?_⟩
  · intro x y hx hy
    constructor
    · intro he
      exact (transcript_prefix_iff hx hy).mp (he ▸ List.prefix_rfl)
    · intro hp
      exact transcript_congr ((transcript_prefix_iff hx hy).mp hp)
  · intro x fp c proof hx hxs hc hp
    rw [checkProof_iff h hx hxs hc hp]
    apply and_congr_right
    intro _
    cases x
    simp [expected]
  · intro priv c hpriv heph hpk hhex s
    exact sharedSecret_iff hcomm hpub hpriv heph hpk hhex s

/-- The primitives at the inputs of two registrations, with the key exchange as both parties compute
it. -/
def bothExchange : Primitives :=
  { Vector.both with
    x25519Public := Vector.exchange.x25519Public
    x25519 := Vector.exchange.x25519 }

/-- The input of the registration written out in numbers. -/
def vectorInput : ProofInput :=
  ⟨Vector.shared, Vector.fingerprint, Vector.publicKey, Vector.nonce,
    encodeHex Vector.ephemeralPub⟩

/-- The input of the next registration, which differs in the nonce. -/
def nextInput : ProofInput := { vectorInput with nonce := Vector.nextNonce }

theorem hkdf_vectorInput :
    bothExchange.hkdf vectorInput.shared vectorInput.nonce hkdfInfo 32 = some Vector.proofKey := by
  dsimp only [bothExchange, Vector.both, Vector.primitives]
  rw [if_neg fun h => absurd h.2.1 (by decide), if_pos ⟨rfl, rfl, rfl, rfl⟩]

theorem hkdf_nextInput :
    bothExchange.hkdf nextInput.shared nextInput.nonce hkdfInfo 32 = some Vector.nextProofKey := by
  dsimp only [bothExchange, Vector.both]
  rw [if_pos ⟨rfl, rfl, rfl, rfl⟩]

theorem proofKey_ne_nextProofKey : Vector.proofKey ≠ Vector.nextProofKey := by decide

theorem hmac_vectorInput :
    bothExchange.hmac Vector.proofKey vectorInput.transcript = Vector.mac := by
  dsimp only [bothExchange, Vector.both, Vector.primitives]
  rw [if_neg fun h => proofKey_ne_nextProofKey h.1, if_pos ⟨rfl, rfl⟩]

theorem hmac_nextInput :
    bothExchange.hmac Vector.nextProofKey nextInput.transcript = Vector.nextMac := by
  dsimp only [bothExchange, Vector.both]
  rw [if_pos ⟨rfl, rfl⟩]

theorem proof_vectorInput
    (hk : P.hkdf vectorInput.shared vectorInput.nonce hkdfInfo 32 = some Vector.proofKey)
    (hm : P.hmac Vector.proofKey vectorInput.transcript = Vector.mac) :
    vectorInput.proof P = some Vector.proof := by
  rw [proof_eq_some]
  exact ⟨Vector.proofKey, hk, by rw [hm]; rfl⟩

theorem proof_nextInput : nextInput.proof bothExchange = some (encodeHex Vector.nextMac) := by
  rw [proof_eq_some]
  exact ⟨Vector.nextProofKey, hkdf_nextInput, by rw [hmac_nextInput]⟩

theorem collisionFree_bothExchange : CollisionFree bothExchange {vectorInput, nextInput} where
  hkdf := by
    have hne : ∀ key,
        bothExchange.hkdf vectorInput.shared vectorInput.nonce hkdfInfo 32 = some key →
        bothExchange.hkdf nextInput.shared nextInput.nonce hkdfInfo 32 ≠ some key := by
      intro key hk hk'
      rw [hkdf_vectorInput] at hk
      rw [hkdf_nextInput] at hk'
      exact proofKey_ne_nextProofKey (Option.some.inj (hk.trans hk'.symm))
    rintro x (rfl | rfl) y (rfl | rfl) key hk hk'
    · exact ⟨rfl, rfl⟩
    · exact absurd hk' (hne key hk)
    · exact absurd hk (hne key hk')
    · exact ⟨rfl, rfl⟩
  hmac := by
    have hne : ∀ k k',
        bothExchange.hkdf vectorInput.shared vectorInput.nonce hkdfInfo 32 = some k →
        bothExchange.hkdf nextInput.shared nextInput.nonce hkdfInfo 32 = some k' →
        bothExchange.hmac k vectorInput.transcript ≠ bothExchange.hmac k' nextInput.transcript := by
      intro k k' hk hk'
      obtain rfl := Option.some.inj (hkdf_vectorInput.symm.trans hk)
      obtain rfl := Option.some.inj (hkdf_nextInput.symm.trans hk')
      rw [hmac_vectorInput, hmac_nextInput]
      decide
    rintro x (rfl | rfl) y (rfl | rfl) k k' hk hk' h
    · exact ⟨Option.some.inj (hk.symm.trans hk'), rfl⟩
    · exact absurd h (hne k k' hk hk')
    · exact absurd h.symm (hne k' k hk' hk)
    · exact ⟨Option.some.inj (hk.symm.trans hk'), rfl⟩

theorem bothExchange_comm (a b : Bytes) :
    bothExchange.x25519 a (bothExchange.x25519Public b) =
      bothExchange.x25519 b (bothExchange.x25519Public a) := by
  have hps : Vector.ephemeralPriv ≠ Vector.sidecarPriv := by decide
  have hkeys : Vector.ephemeralPub ≠ Vector.sidecarPub ∧
      List.replicate 32 0 ≠ Vector.sidecarPub ∧ List.replicate 32 0 ≠ Vector.ephemeralPub := by
    decide
  obtain ⟨hes, hzs, hze⟩ := hkeys
  simp only [bothExchange, Vector.exchange]
  by_cases ha : a = Vector.ephemeralPriv <;> by_cases ha' : a = Vector.sidecarPriv <;>
    by_cases hb : b = Vector.ephemeralPriv <;> by_cases hb' : b = Vector.sidecarPriv <;>
      simp_all [hes.symm, hps.symm]

theorem length_x25519Public (a : Bytes) : (bothExchange.x25519Public a).length = 32 := by
  simp only [bothExchange, Vector.exchange]
  split_ifs
  · rfl
  · rfl
  · rfl

/-- The relay accepts the proof of that registration for the challenge it stored, and refuses that of
the next one. -/
theorem proof_agreement_vector :
    checkProof bothExchange ⟨Vector.fingerprint, Vector.proof⟩ Vector.challenge = .ok () ∧
      (nextInput.proof bothExchange = some (encodeHex Vector.nextMac) ∧
        checkProof bothExchange ⟨Vector.fingerprint, encodeHex Vector.nextMac⟩ Vector.challenge ≠
          .ok ()) ∧
      (Sidecar.sharedSecret bothExchange Vector.sidecarPriv Vector.challenge.ephemeralPubHex =
        .ok Vector.shared) := by
  obtain ⟨-, -, haccept, hshared⟩ := proof_agreement collisionFree_bothExchange
    (fun a b _ _ => bothExchange_comm a b) fun a _ => length_x25519Public a
  have hs : sharedSecret bothExchange Vector.challenge = .ok Vector.shared := rfl
  have hshort : vectorInput.Short := by decide
  have hexpected : ∀ s, sharedSecret bothExchange Vector.challenge = .ok s →
      expected Vector.fingerprint Vector.challenge s ∈ ({vectorInput, nextInput} : Set ProofInput) ∧
        (expected Vector.fingerprint Vector.challenge s).Short := by
    intro s hs'
    obtain rfl : Vector.shared = s := Except.ok.inj (hs.symm.trans hs')
    exact ⟨.inl rfl, hshort⟩
  refine ⟨?_, ⟨proof_nextInput, fun hnext => ?_⟩, ?_⟩
  · exact (haccept vectorInput Vector.fingerprint Vector.challenge Vector.proof (.inl rfl) hshort
      hexpected (proof_vectorInput hkdf_vectorInput hmac_vectorInput)).mpr ⟨hs, rfl, rfl, rfl, rfl⟩
  · obtain ⟨-, -, -, hnonce, -⟩ := (haccept nextInput Vector.fingerprint Vector.challenge
      (encodeHex Vector.nextMac) (.inr rfl) (by decide) hexpected proof_nextInput).mp hnext
    exact absurd hnonce (by decide)
  · exact (hshared Vector.sidecarPriv Vector.challenge rfl rfl rfl rfl Vector.shared).mpr hs

end HeadFwd.EndToEnd
