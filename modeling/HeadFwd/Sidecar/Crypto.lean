import HeadFwd.Crypto.Primitives

/-! # Registration proofs of the sidecar

The sidecar has its own copy of the functions that derive a proof. It is modelled
from that copy; that the relay computes the same is a theorem elsewhere.
-/

namespace HeadFwd.Sidecar

open Text Crypto

/-- The registration protocol the sidecar speaks. -/
def protocolVersion : ℕ := 2

def hkdfInfo : Bytes := str "headfwd registration proof v2"

/-- Append a field after the four bytes of its length. -/
def appendField (buf s : Bytes) : Bytes :=
  let l := s.length
  let n : Bytes :=
    [UInt8.ofNat (l >>> 24), UInt8.ofNat (l >>> 16), UInt8.ofNat (l >>> 8), UInt8.ofNat l]
  buf ++ n ++ s

def transcript (fingerprint publicKey nonce ephemeralPubHex : Bytes) : Bytes :=
  let buf := appendField [] hkdfInfo
  let buf := appendField buf fingerprint
  let buf := appendField buf publicKey
  let buf := appendField buf nonce
  appendField buf ephemeralPubHex

section Primitives

variable (P : Primitives)

def computeFingerprint (pubkey : Bytes) : Bytes :=
  let sum := P.sha256 pubkey
  let full := encodeHex sum
  if full.length < 32 then full else full.take 32

def deriveProofKey (sharedSecret nonce : Bytes) : Option Bytes :=
  P.hkdf sharedSecret nonce hkdfInfo 32

def registrationProof (sharedSecret fingerprint publicKey nonce ephemeralPubHex : Bytes) :
    Option Bytes := do
  let key ← deriveProofKey P sharedSecret nonce
  return encodeHex (P.hmac key (transcript fingerprint publicKey nonce ephemeralPubHex))

end Primitives

end HeadFwd.Sidecar
