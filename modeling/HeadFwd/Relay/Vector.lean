import HeadFwd.Relay.Registry

/-! # One registration in numbers

The values that SHA-256, X25519, HKDF and HMAC take in the registration of one
key pair, as a table. The private keys are the bytes 1 and 2 repeated, the nonce
and the two secrets the bytes 3, 4 and 5 repeated.
-/

namespace HeadFwd.Relay.Vector

open Text Net Crypto

def sidecarPub : Bytes :=
  [0xa4, 0xe0, 0x92, 0x92, 0xb6, 0x51, 0xc2, 0x78, 0xb9, 0x77, 0x2c, 0x56, 0x9f, 0x5f, 0xa9, 0xbb,
    0x13, 0xd9, 0x06, 0xb4, 0x6a, 0xb6, 0x8c, 0x9d, 0xf9, 0xdc, 0x2b, 0x44, 0x09, 0xf8, 0xa2, 0x09]

def publicKey : Bytes := mkeyLabel ++ encodeHex sidecarPub

def digest : Bytes :=
  [0xf7, 0xc1, 0xa9, 0x4e, 0x51, 0x1e, 0x75, 0xb8, 0x71, 0x74, 0x4a, 0x19, 0x2c, 0xce, 0xc1, 0x20,
    0xda, 0xbe, 0x3a, 0x6e, 0xc8, 0x4a, 0x0e, 0x59, 0xf7, 0x69, 0x01, 0x46, 0x10, 0x8d, 0x69, 0x76]

def fingerprint : Bytes := encodeHex (digest.take 16)

def ephemeralPriv : Bytes := List.replicate 32 2

def ephemeralPub : Bytes :=
  [0xce, 0x8d, 0x3a, 0xd1, 0xcc, 0xb6, 0x33, 0xec, 0x7b, 0x70, 0xc1, 0x78, 0x14, 0xa5, 0xc7, 0x6e,
    0xcd, 0x02, 0x96, 0x85, 0x05, 0x0d, 0x34, 0x47, 0x45, 0xba, 0x05, 0x87, 0x0e, 0x58, 0x7d, 0x59]

def shared : Bytes :=
  [0x2e, 0xd7, 0x6a, 0xb5, 0x49, 0xb1, 0xe7, 0x3c, 0x03, 0x1e, 0xb4, 0x9c, 0x94, 0x48, 0xf0, 0x79,
    0x8a, 0xea, 0x81, 0xb6, 0x98, 0x27, 0x9a, 0x0c, 0x3d, 0xc3, 0xe4, 0x9f, 0xbf, 0xc4, 0xb9, 0x53]

def nonce : Bytes := randomHex (List.replicate 32 3)

def proofKey : Bytes :=
  [0x38, 0xf9, 0x8d, 0x4d, 0xab, 0xcc, 0x0c, 0x7d, 0xdb, 0x4f, 0xe6, 0x4c, 0x55, 0x4a, 0x45, 0xfa,
    0x7b, 0x04, 0xa9, 0x33, 0x84, 0xba, 0x1b, 0x80, 0xa2, 0x22, 0xd3, 0xee, 0xc3, 0x46, 0xe3, 0x08]

def mac : Bytes :=
  [0x00, 0x61, 0x92, 0x5a, 0xb1, 0x75, 0xfb, 0x2a, 0x58, 0x46, 0x52, 0x73, 0xc8, 0xef, 0xc0, 0x61,
    0x3a, 0xa1, 0x2c, 0x0d, 0x45, 0xfc, 0x01, 0x13, 0x05, 0x43, 0xa5, 0x4a, 0x6d, 0x3f, 0x98, 0x2d]

def proof : Bytes := encodeHex mac

/-- The primitives at the inputs of this registration. -/
def primitives : Primitives where
  sha256 m := if m = publicKey then digest else List.replicate 32 0
  length_sha256 m := by
    split_ifs
    · decide
    · rfl
  x25519Public priv := if priv = ephemeralPriv then ephemeralPub else []
  x25519 priv pub := if priv = ephemeralPriv ∧ pub = sidecarPub then some shared else none
  hkdf secret salt info n :=
    if secret = shared ∧ salt = nonce ∧ info = hkdfInfo ∧ n = 32 then some proofKey else none
  hmac key message :=
    if key = proofKey ∧ message = transcript fingerprint publicKey nonce (encodeHex ephemeralPub)
    then mac else List.replicate 32 0
  length_hmac key message := by
    split_ifs
    · rfl
    · rfl

def sidecarPriv : Bytes := List.replicate 32 1

/-- The same with the key exchange as both parties compute it. -/
def exchange : Primitives :=
  { primitives with
    x25519Public priv :=
      if priv = ephemeralPriv then ephemeralPub
      else if priv = sidecarPriv then sidecarPub
      else List.replicate 32 0
    x25519 priv pub :=
      if priv = ephemeralPriv ∧ pub = sidecarPub ∨ priv = sidecarPriv ∧ pub = ephemeralPub then
        some shared
      else none }

/-- A request to the relay under its base domain. -/
def post : Request where
  method := str "POST"
  host := str "relay.example.net"
  remoteAddr := str "192.0.2.1:40000"
  header := []
  tls := true

def initCall : Call RegistrationInitRequest := ⟨post, true, some ⟨publicKey⟩⟩

def verifyCall : Call RegistrationVerifyRequest := ⟨post, true, some ⟨fingerprint, proof⟩⟩

/-- An init request runs to its end. -/
def initSteps : List (ℕ × RegistryAction) :=
  [(0, .initBegin 0 initCall), (0, .initGenerate 0 (List.replicate 32 3) (some ephemeralPriv)),
    (0, .initStore 0)]

/-- The challenge it stores. -/
def challenge : Challenge where
  publicKey := publicKey
  nonce := nonce
  ephemeralPriv := ephemeralPriv
  ephemeralPubHex := encodeHex ephemeralPub
  expiresAt := 5 * minute
  attempts := 0

/-- After it, one verify request up to its second critical section. -/
def proveSteps : List (ℕ × RegistryAction) :=
  initSteps ++ [(1, .verifyBegin 1 verifyCall), (1, .verifyCompare 1 (List.replicate 32 4))]

def registrationRun : List (ℕ × RegistryAction) := proveSteps ++ [(1, .verifyAccept 1)]

/-- A second registration of the same key pair, under the nonce of bytes 6. -/
def nextNonce : Bytes := randomHex (List.replicate 32 6)

def nextProofKey : Bytes :=
  [0xc8, 0xc5, 0x88, 0x2d, 0xd3, 0xdd, 0xcb, 0xe0, 0x3b, 0xc8, 0x68, 0x39, 0x3e, 0x51, 0x62, 0xb7,
    0xa0, 0xe4, 0x58, 0xfd, 0xc3, 0x5c, 0x6a, 0x6e, 0xa7, 0x12, 0x3a, 0xeb, 0xf5, 0xea, 0x15, 0x34]

def nextMac : Bytes :=
  [0x1a, 0xd3, 0xa2, 0xb2, 0x07, 0xcb, 0x95, 0xa7, 0xe0, 0x62, 0xf2, 0x09, 0x62, 0x0f, 0x29, 0x98,
    0x1f, 0x36, 0xad, 0x69, 0xf0, 0x50, 0x1c, 0x59, 0xfb, 0x30, 0xe0, 0x91, 0x53, 0x4f, 0x45, 0x9d]

/-- The primitives at the inputs of both registrations. -/
def both : Primitives where
  sha256 := primitives.sha256
  length_sha256 := primitives.length_sha256
  x25519Public := primitives.x25519Public
  x25519 := primitives.x25519
  hkdf secret salt info n :=
    if secret = shared ∧ salt = nextNonce ∧ info = hkdfInfo ∧ n = 32 then some nextProofKey
    else primitives.hkdf secret salt info n
  hmac key message :=
    if key = nextProofKey ∧
      message = transcript fingerprint publicKey nextNonce (encodeHex ephemeralPub)
    then nextMac else primitives.hmac key message
  length_hmac key message := by
    split_ifs
    · rfl
    · exact primitives.length_hmac key message

/-- The second registration, after the first has run to its end. -/
def nextRun : List (ℕ × RegistryAction) :=
  [(2, .initBegin 1 initCall), (2, .initGenerate 1 (List.replicate 32 6) (some ephemeralPriv)),
    (2, .initStore 1), (2, .verifyBegin 2 ⟨post, true, some ⟨fingerprint, encodeHex nextMac⟩⟩),
    (2, .verifyCompare 2 (List.replicate 32 5)), (2, .verifyAccept 2)]

/-- The secret issued in that run. -/
def nextSecret : Bytes := randomHex (List.replicate 32 5)

/-- The secret issued in the first run and the host under which the tunnel is then dialled. -/
def secret : Bytes := randomHex (List.replicate 32 4)

def host : Bytes := fingerprint ++ str ".relay.example.net"

end HeadFwd.Relay.Vector
