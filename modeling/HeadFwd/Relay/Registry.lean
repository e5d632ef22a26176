import HeadFwd.Relay.Crypto
import HeadFwd.Relay.Host
import HeadFwd.Transition.Basic
import HeadFwd.Transition.Table

/-! # Registration handlers of the relay

`handleRegisterInit` and `handleRegisterVerify` as threads over the challenge
and registration maps. A thread is advanced one lock-protected section at a
time; what it computes between two sections is a step of its own, so that any
other thread may run in between. Instants and durations are in nanoseconds.
-/

namespace HeadFwd.Relay

open Text Net Crypto Transition

structure RegistrationInitRequest where
  publicKey : Bytes

structure RegistrationInitResponse where
  fingerprint : Bytes
  nonce : Bytes
  proxyPublicKey : Bytes
  expiresAt : ℕ
  protocolVersion : ℕ

structure RegistrationVerifyRequest where
  fingerprint : Bytes
  proof : Bytes

structure RegistrationVerifyResponse where
  fingerprint : Bytes
  tunnelURL : Bytes
  publicURL : Bytes

structure Challenge where
  publicKey : Bytes
  nonce : Bytes
  ephemeralPriv : Bytes
  ephemeralPubHex : Bytes
  expiresAt : ℕ
  attempts : ℕ

structure Registration where
  publicKey : Bytes
  secret : Bytes
  createdAt : ℕ

/-- A call of a registration endpoint. The answer of the rate limiter and the decoded body are
inputs: every answer and every body is considered. -/
structure Call (β : Type) where
  request : Request
  allowed : Bool
  body : Option β

def minute : ℕ := 60 * 10 ^ 9

def maxAttempts : ℕ := 5

/-- The checks with which both endpoints start. -/
def Call.decode {β : Type} (c : Call β) : Except HttpError β :=
  if c.request.method ≠ str "POST" then .error ⟨str "method not allowed", 405⟩
  else if c.allowed = false then .error ⟨str "too many registration attempts", 429⟩
  else match c.body with
    | none => .error ⟨str "invalid request", 400⟩
    | some req => .ok req

def mkeyLabel : Bytes := str "mkey:"

/-- The public key of an init request, once it has passed the format checks. -/
def initPublicKey (c : Call RegistrationInitRequest) : Except HttpError Bytes := do
  let req ← c.decode
  if req.publicKey = [] ∨ ¬ mkeyLabel.isPrefixOf req.publicKey then
    throw ⟨str "invalid publicKey", 400⟩
  match decodeHex (trimPrefix req.publicKey mkeyLabel) with
  | none => throw ⟨str "invalid publicKey", 400⟩
  | some _ => return req.publicKey

def verifyRequest (c : Call RegistrationVerifyRequest) :
    Except HttpError RegistrationVerifyRequest := do
  let req ← c.decode
  if req.fingerprint = [] ∨ req.proof = [] then throw ⟨str "missing fingerprint or proof", 400⟩
  return req

/-- The first critical section of a verify request: count the attempt and read the challenge,
or drop a challenge that is expired or used up. -/
def admitAttempt (now : ℕ) (challenges : Table Bytes Challenge) (fingerprint : Bytes) :
    Table Bytes Challenge × Option Challenge :=
  match challenges fingerprint with
  | none => (challenges, none)
  | some challenge =>
    if challenge.expiresAt < now then (challenges.erase fingerprint, none)
    else
      let challenge := { challenge with attempts := challenge.attempts + 1 }
      if maxAttempts < challenge.attempts then (challenges.erase fingerprint, none)
      else (challenges.set fingerprint challenge, some challenge)

section Primitives

variable (P : Primitives) (env : Environment)

/-- The shared secret with the holder of a challenge's public key. -/
def sharedSecret (c : Challenge) : Except HttpError Bytes :=
  match decodeHex (trimPrefix c.publicKey mkeyLabel) with
  | none => .error ⟨str "invalid public key", 400⟩
  | some sidecarPub =>
    if c.ephemeralPriv.length ≠ 32 then .error ⟨str "invalid proxy key", 500⟩
    else if sidecarPub.length ≠ 32 then .error ⟨str "invalid sidecar key", 400⟩
    else match P.x25519 c.ephemeralPriv sidecarPub with
      | none => .error ⟨str "ECDH failed", 500⟩
      | some shared => .ok shared

/-- The comparison of the proof of a request with the one expected for a challenge. -/
def checkProof (req : RegistrationVerifyRequest) (c : Challenge) : Except HttpError Unit := do
  let shared ← sharedSecret P c
  match registrationProof P shared req.fingerprint c.publicKey c.nonce c.ephemeralPubHex with
  | none => throw ⟨str "key derivation failed", 500⟩
  | some expected =>
    if timingSafeEqual req.proof expected then return () else throw ⟨str "invalid proof", 403⟩

def initResponse (c : Challenge) : RegistrationInitResponse where
  fingerprint := computeFingerprint P c.publicKey
  nonce := c.nonce
  proxyPublicKey := c.ephemeralPubHex
  expiresAt := c.expiresAt / 10 ^ 6
  protocolVersion := protocolVersion

def verifyResponse (r : Request) (fingerprint secret : Bytes) : RegistrationVerifyResponse :=
  let baseHost := publicHostFromRequest env r
  let scheme := publicSchemeFromRequest env r
  let wsScheme := if scheme = str "http" then str "ws" else str "wss"
  { fingerprint
    tunnelURL := wsScheme ++ str "://" ++ fingerprint ++ str "." ++ baseHost ++
      str "/tunnel?auth=" ++ secret
    publicURL := scheme ++ str "://" ++ fingerprint ++ str "." ++ baseHost }

/-- Where an init request stands: past the check for a challenge in flight, with a new challenge
at hand, or answered. -/
inductive InitThread where
  | checked (publicKey : Bytes)
  | generated (c : Challenge)
  | replied (r : Except HttpError RegistrationInitResponse)

/-- Where a verify request stands: it has read a challenge, it has found its proof right and drawn
a secret, or it is answered. -/
inductive VerifyThread where
  | admitted (r : Request) (req : RegistrationVerifyRequest) (c : Challenge)
  | proved (r : Request) (req : RegistrationVerifyRequest) (c : Challenge) (secret : Bytes)
  | replied (r : Except HttpError RegistrationVerifyResponse)

/-- What happened to the challenges, with the thread that did it. -/
inductive RegistryEvent where
  | stored (i : ℕ) (fingerprint : Bytes) (c : Challenge)
  | admitted (i : ℕ) (fingerprint : Bytes) (c : Challenge) (now : ℕ)
  | issued (i : ℕ) (fingerprint proof secret : Bytes) (c : Challenge)

/-- The two maps of the server and its threads. The nonces and secrets drawn so far and the log,
newest event first, are history: `nonces` and `secrets` only keep random draws apart. -/
structure Registry where
  challenges : Table Bytes Challenge
  registrations : Table Bytes Registration
  inits : Table ℕ InitThread
  verifies : Table ℕ VerifyThread
  nonces : List Bytes
  secrets : List Bytes
  log : List RegistryEvent

def Registry.initial : Registry where
  challenges := .empty
  registrations := .empty
  inits := .empty
  verifies := .empty
  nonces := []
  secrets := []
  log := []

inductive RegistryAction where
  | initBegin (i : ℕ) (call : Call RegistrationInitRequest)
  | initGenerate (i : ℕ) (random : Bytes) (ephemeralPriv : Option Bytes)
  | initStore (i : ℕ)
  | verifyBegin (i : ℕ) (call : Call RegistrationVerifyRequest)
  | verifyCompare (i : ℕ) (random : Bytes)
  | verifyAccept (i : ℕ)

namespace Registry

/-- Up to and including the check for a challenge in flight. -/
def initBegin (now : ℕ) (s : Registry) (i : ℕ) (call : Call RegistrationInitRequest) :
    Option Registry :=
  match s.inits i, initPublicKey call with
  | some _, _ => none
  | none, .error e => some { s with inits := s.inits.set i (.replied (.error e)) }
  | none, .ok publicKey =>
    match s.challenges (computeFingerprint P publicKey) with
    | some existing =>
      if now < existing.expiresAt then
        let e := ⟨str "registration already in progress for this key", 409⟩
        some { s with inits := s.inits.set i (.replied (.error e)) }
      else some { s with inits := s.inits.set i (.checked publicKey) }
    | none => some { s with inits := s.inits.set i (.checked publicKey) }

/-- Draw the nonce and the ephemeral key, outside the lock. -/
def initGenerate (now : ℕ) (s : Registry) (i : ℕ) (random : Bytes) (ephemeralPriv : Option Bytes) :
    Option Registry :=
  let nonce := randomHex random
  match s.inits i with
  | some (.checked publicKey) =>
    if random.length ≠ 32 ∨ nonce ∈ s.nonces then none
    else match ephemeralPriv with
      | none =>
        let e := ⟨str "failed to generate key", 500⟩
        some { s with inits := s.inits.set i (.replied (.error e)), nonces := nonce :: s.nonces }
      | some priv =>
        let c : Challenge :=
          { publicKey
            nonce
            ephemeralPriv := priv
            ephemeralPubHex := encodeHex (P.x25519Public priv)
            expiresAt := now + 5 * minute
            attempts := 0 }
        some { s with inits := s.inits.set i (.generated c), nonces := nonce :: s.nonces }
  | _ => none

def initStore (s : Registry) (i : ℕ) : Option Registry :=
  match s.inits i with
  | some (.generated c) =>
    let fingerprint := computeFingerprint P c.publicKey
    some { s with
      challenges := s.challenges.set fingerprint c
      inits := s.inits.set i (.replied (.ok (initResponse P c)))
      log := .stored i fingerprint c :: s.log }
  | _ => none

def verifyBegin (now : ℕ) (s : Registry) (i : ℕ) (call : Call RegistrationVerifyRequest) :
    Option Registry :=
  match s.verifies i, verifyRequest call with
  | some _, _ => none
  | none, .error e => some { s with verifies := s.verifies.set i (.replied (.error e)) }
  | none, .ok req =>
    match admitAttempt now s.challenges req.fingerprint with
    | (challenges, none) =>
      let e := ⟨str "challenge expired or not found", 400⟩
      some { s with challenges, verifies := s.verifies.set i (.replied (.error e)) }
    | (challenges, some c) =>
      some { s with
        challenges
        verifies := s.verifies.set i (.admitted call.request req c)
        log := .admitted i req.fingerprint c now :: s.log }

/-- Compare the proof and draw the secret, outside the lock. -/
def verifyCompare (s : Registry) (i : ℕ) (random : Bytes) : Option Registry :=
  let secret := randomHex random
  match s.verifies i with
  | some (.admitted r req c) =>
    match checkProof P req c with
    | .error e => some { s with verifies := s.verifies.set i (.replied (.error e)) }
    | .ok () =>
      if random.length ≠ 32 ∨ secret ∈ s.secrets then none
      else some { s with
        verifies := s.verifies.set i (.proved r req c secret)
        secrets := secret :: s.secrets }
  | _ => none

def verifyAccept (now : ℕ) (s : Registry) (i : ℕ) : Option Registry :=
  match s.verifies i with
  | some (.proved r req c secret) =>
    some { s with
      challenges := s.challenges.erase req.fingerprint
      registrations := s.registrations.set req.fingerprint ⟨c.publicKey, secret, now⟩
      verifies := s.verifies.set i (.replied (.ok (verifyResponse env r req.fingerprint secret)))
      log := .issued i req.fingerprint req.proof secret c :: s.log }
  | _ => none

def step (now : ℕ) (s : Registry) : RegistryAction → Option Registry
  | .initBegin i call => s.initBegin P now i call
  | .initGenerate i random priv => s.initGenerate P now i random priv
  | .initStore i => s.initStore P i
  | .verifyBegin i call => s.verifyBegin now i call
  | .verifyCompare i random => s.verifyCompare P i random
  | .verifyAccept i => s.verifyAccept env now i

/-- What a step of a handler does, with everything it has checked. -/
inductive Effect (now : ℕ) (s : Registry) : RegistryAction → Registry → Prop where
  | initReplied {a : RegistryAction} (i : ℕ) (e : HttpError) (nonces : List Bytes)
    (hn : s.nonces <:+ nonces) :
    Effect now s a { s with inits := s.inits.set i (.replied (.error e)), nonces }
  | initChecked (i : ℕ) (call : Call RegistrationInitRequest) (publicKey : Bytes)
    (hi : s.inits i = none)
    (hf : ∀ c, s.challenges (computeFingerprint P publicKey) = some c → c.expiresAt ≤ now) :
    Effect now s (.initBegin i call) { s with inits := s.inits.set i (.checked publicKey) }
  | initGenerated (i : ℕ) (random : Bytes) (priv : Option Bytes) (c : Challenge)
    (hi : s.inits i = some (.checked c.publicKey)) (hn : c.nonce ∉ s.nonces)
    (hp : c.ephemeralPubHex = encodeHex (P.x25519Public c.ephemeralPriv))
    (he : c.expiresAt = now + 5 * minute) (ha : c.attempts = 0) :
    Effect now s (.initGenerate i random priv)
      { s with inits := s.inits.set i (.generated c), nonces := c.nonce :: s.nonces }
  | initStored (i : ℕ) (c : Challenge) (hi : s.inits i = some (.generated c)) :
    Effect now s (.initStore i) { s with
      challenges := s.challenges.set (computeFingerprint P c.publicKey) c
      inits := s.inits.set i (.replied (.ok (initResponse P c)))
      log := .stored i (computeFingerprint P c.publicKey) c :: s.log }
  | verifyReplied {a : RegistryAction} (i : ℕ) (e : HttpError)
    (hi : (∃ call, a = .verifyBegin i call) ∨ ∃ r req c, s.verifies i = some (.admitted r req c)) :
    Effect now s a { s with verifies := s.verifies.set i (.replied (.error e)) }
  | verifyDropped (i : ℕ) (call : Call RegistrationVerifyRequest) (e : HttpError)
    (fingerprint : Bytes) (c : Challenge) (hc : s.challenges fingerprint = some c)
    (hd : c.expiresAt < now ∨ maxAttempts < c.attempts + 1) :
    Effect now s (.verifyBegin i call) { s with
      challenges := s.challenges.erase fingerprint
      verifies := s.verifies.set i (.replied (.error e)) }
  | verifyAdmitted (i : ℕ) (call : Call RegistrationVerifyRequest) (r : Request)
    (req : RegistrationVerifyRequest) (c : Challenge)
    (hi : s.verifies i = none) (hc : s.challenges req.fingerprint = some c)
    (he : now ≤ c.expiresAt) (ha : c.attempts + 1 ≤ maxAttempts) :
    Effect now s (.verifyBegin i call) { s with
      challenges := s.challenges.set req.fingerprint { c with attempts := c.attempts + 1 }
      verifies := s.verifies.set i (.admitted r req { c with attempts := c.attempts + 1 })
      log := .admitted i req.fingerprint { c with attempts := c.attempts + 1 } now :: s.log }
  | verifyProved (i : ℕ) (random : Bytes) (r : Request) (req : RegistrationVerifyRequest)
    (c : Challenge) (secret : Bytes) (hi : s.verifies i = some (.admitted r req c))
    (hp : checkProof P req c = .ok ()) (hs : secret ∉ s.secrets) :
    Effect now s (.verifyCompare i random) { s with
      verifies := s.verifies.set i (.proved r req c secret)
      secrets := secret :: s.secrets }
  | verifyAccepted (i : ℕ) (r : Request) (req : RegistrationVerifyRequest) (c : Challenge)
    (secret : Bytes) (hi : s.verifies i = some (.proved r req c secret)) :
    Effect now s (.verifyAccept i) { s with
      challenges := s.challenges.erase req.fingerprint
      registrations := s.registrations.set req.fingerprint ⟨c.publicKey, secret, now⟩
      verifies := s.verifies.set i (.replied (.ok (verifyResponse env r req.fingerprint secret)))
      log := .issued i req.fingerprint req.proof secret c :: s.log }

variable {P env} {now : ℕ} {s s' : Registry}

theorem initBegin_effect {i : ℕ} {call : Call RegistrationInitRequest}
    (h : s.initBegin P now i call = some s') : Effect P env now s (.initBegin i call) s' := by
  unfold initBegin at h
  split at h
  · cases h
  · cases h
    exact .initReplied i _ _ List.suffix_rfl
  · rename_i publicKey hi _
    split at h
    · rename_i existing hc
      split_ifs at h with hlt
      · cases h
        exact .initReplied i _ _ List.suffix_rfl
      · cases h
        refine .initChecked i call publicKey hi fun c hc' => ?_
        cases hc.symm.trans hc'
        exact not_lt.mp hlt
    · rename_i hc
      cases h
      refine .initChecked i call publicKey hi fun c hc' => ?_
      cases hc.symm.trans hc'

theorem initGenerate_effect {i : ℕ} {random : Bytes} {priv : Option Bytes}
    (h : s.initGenerate P now i random priv = some s') :
    Effect P env now s (.initGenerate i random priv) s' := by
  unfold initGenerate at h
  split at h
  · rename_i publicKey hi
    dsimp only at h
    split_ifs at h with hr
    cases priv with
    | none =>
      cases h
      exact .initReplied i _ _ (List.suffix_cons ..)
    | some priv =>
      cases h
      exact .initGenerated i random (some priv) _ hi (fun hn => hr (.inr hn)) rfl rfl rfl
  · cases h

theorem verifyBegin_effect {i : ℕ} {call : Call RegistrationVerifyRequest}
    (h : s.verifyBegin now i call = some s') : Effect P env now s (.verifyBegin i call) s' := by
  unfold verifyBegin at h
  split at h
  · cases h
  · cases h
    exact .verifyReplied i _ (.inl ⟨call, rfl⟩)
  · rename_i req hi _
    unfold admitAttempt at h
    split at h
    · rename_i hc
      split at hc
      · cases hc
        cases h
        exact .verifyReplied i _ (.inl ⟨call, rfl⟩)
      · rename_i c hf
        simp only at hc
        split_ifs at hc with he ha
        · cases hc
          cases h
          exact .verifyDropped i call _ _ c hf (.inl he)
        · cases hc
          cases h
          exact .verifyDropped i call _ _ c hf (.inr ha)
        · cases hc
    · rename_i hc
      split at hc
      · cases hc
      · rename_i c hf
        simp only at hc
        split_ifs at hc with he ha
        · cases hc
        · cases hc
        · cases hc
          cases h
          exact .verifyAdmitted i call _ req c hi hf (not_lt.mp he) (not_lt.mp ha)

theorem verifyCompare_effect {i : ℕ} {random : Bytes}
    (h : s.verifyCompare P i random = some s') :
    Effect P env now s (.verifyCompare i random) s' := by
  unfold verifyCompare at h
  split at h
  · rename_i r req c hi
    split at h
    · cases h
      exact .verifyReplied i _ (.inr ⟨r, req, c, hi⟩)
    · rename_i hp
      dsimp only at h
      split_ifs at h with hr
      cases h
      exact .verifyProved i random r req c _ hi hp fun hs => hr (.inr hs)
  · cases h

/-- Every step has one of the listed effects. -/
theorem step_effect {a : RegistryAction} (h : s.step P env now a = some s') :
    Effect P env now s a s' := by
  cases a with
  | initBegin i call => exact initBegin_effect h
  | initGenerate i random priv => exact initGenerate_effect h
  | initStore i =>
    simp only [step, initStore] at h
    split at h
    · rename_i c hi
      cases h
      exact .initStored i c hi
    · cases h
  | verifyBegin i call => exact verifyBegin_effect h
  | verifyCompare i random => exact verifyCompare_effect h
  | verifyAccept i =>
    simp only [step, verifyAccept] at h
    split at h
    · rename_i r req c secret hi
      cases h
      exact .verifyAccepted i r req c secret hi
    · cases h

/-- Secrets are drawn as the hexadecimal form of thirty-two bytes. -/
theorem secrets_step {a : RegistryAction} (h : s.step P env now a = some s') :
    s'.secrets = s.secrets ∨
      ∃ random, random.length = 32 ∧ s'.secrets = randomHex random :: s.secrets := by
  cases a with
  | verifyCompare i random =>
    simp only [step, verifyCompare] at h
    split at h
    · split at h
      · cases h
        exact .inl rfl
      · split_ifs at h with hr
        cases h
        exact .inr ⟨random, not_not.mp (not_or.mp hr).1, rfl⟩
    · cases h
  | initBegin i call => cases step_effect h <;> exact .inl rfl
  | initGenerate i random priv => cases step_effect h <;> exact .inl rfl
  | initStore i => cases step_effect h <;> exact .inl rfl
  | verifyBegin i call => cases step_effect h <;> exact .inl rfl
  | verifyAccept i => cases step_effect h <;> exact .inl rfl

/-- Only its first section starts a verify request. -/
theorem Effect.verifies_eq_none {a : RegistryAction} (h : Effect P env now s a s') {j : ℕ}
    (ha : ∀ call, a ≠ .verifyBegin j call) (hj : s.verifies j = none) : s'.verifies j = none := by
  have keep : ∀ {i t}, i ≠ j → s.verifies.set i t j = none := fun hi => by
    rw [Table.set_of_ne hi.symm, hj]
  cases h with
  | initReplied i e nonces hn => exact hj
  | initChecked i call publicKey hi hf => exact hj
  | initGenerated i random priv c hi hn hp he ha => exact hj
  | initStored i c hi => exact hj
  | verifyReplied i e hi =>
    apply keep
    rintro rfl
    rcases hi with ⟨call, rfl⟩ | ⟨r, req, c, hi⟩
    · exact ha call rfl
    · cases hj.symm.trans hi
  | verifyDropped i call e fp c hc hd => exact keep fun hij => ha call (hij ▸ rfl)
  | verifyAdmitted i call r req c hi hc he ha' => exact keep fun hij => ha call (hij ▸ rfl)
  | verifyProved i random r req c secret hi hp hs =>
    apply keep
    rintro rfl
    cases hj.symm.trans hi
  | verifyAccepted i r req c secret hi =>
    apply keep
    rintro rfl
    cases hj.symm.trans hi

end Registry

/-- The registration handlers on their own, under any interleaving. -/
def registry : Machine (ℕ × Registry) (ℕ × RegistryAction) :=
  .timed (· = Registry.initial) (Registry.step P env)

end Primitives

end HeadFwd.Relay
