import HeadFwd.Crypto.Primitives

/-! # Registration proofs of the relay

The second version of the proof: the shared secret goes through HKDF with the
nonce as salt, and the resulting key authenticates a transcript of
length-prefixed fields.
-/

namespace HeadFwd.Relay

open Text Crypto

/-- The registration protocol the relay speaks. -/
def protocolVersion : ℕ := 2

def hkdfInfo : Bytes := str "headfwd registration proof v2"

/-- The hexadecimal form of freshly read random bytes. -/
def randomHex (buf : Bytes) : Bytes := encodeHex buf

/-- The four bytes of a length, most significant first. -/
def bigEndian32 (n : ℕ) : Bytes :=
  [UInt8.ofNat (n / 2 ^ 24), UInt8.ofNat (n / 2 ^ 16), UInt8.ofNat (n / 2 ^ 8), UInt8.ofNat n]

def appendField (buf s : Bytes) : Bytes := buf ++ bigEndian32 s.length ++ s

/-- The registration context, every field preceded by its length. -/
def transcript (fingerprint publicKey nonce ephemeralPubHex : Bytes) : Bytes :=
  [hkdfInfo, fingerprint, publicKey, nonce, ephemeralPubHex].foldl appendField []

def timingSafeEqual : Bytes → Bytes → Bool := Crypto.timingSafeEqual UInt8.toNat

@[simp] theorem timingSafeEqual_eq_true (a b : Bytes) : timingSafeEqual a b = true ↔ a = b :=
  Crypto.timingSafeEqual_iff (fun _ _ h => UInt8.toNat_inj.mp h) a b

section Primitives

variable (P : Primitives)

/-- The first half of the hexadecimal digest of a public key. -/
def computeFingerprint (pubkey : Bytes) : Bytes :=
  let full := encodeHex (P.sha256 pubkey)
  if full.length < 32 then full else full.take 32

variable {P} in
theorem length_fingerprint (pk : Bytes) : (computeFingerprint P pk).length = 32 := by
  unfold computeFingerprint
  simp [P.length_sha256]

def deriveProofKey (sharedSecret nonce : Bytes) : Option Bytes :=
  P.hkdf sharedSecret nonce hkdfInfo 32

def registrationProof (sharedSecret fingerprint publicKey nonce ephemeralPubHex : Bytes) :
    Option Bytes := do
  let key ← deriveProofKey P sharedSecret nonce
  return encodeHex (P.hmac key (transcript fingerprint publicKey nonce ephemeralPubHex))

end Primitives

end HeadFwd.Relay
