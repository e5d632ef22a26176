import HeadFwd.EndToEnd.Agreement
import HeadFwd.Js.Decode
import HeadFwd.Worker.Soundness

/-! # One sidecar, two backends

The registration endpoints of the relay and of the Worker as proxies of the
sidecar, with the same draws. The raw text of a reply is kept for errors only,
since the sidecar reads it of no other reply.
-/

namespace HeadFwd.EndToEnd

open Text Net Crypto Js ProofInput

/-- What a backend draws in one registration, and when. Instants are in nanoseconds. -/
structure Draw where
  now : ℕ
  nonce : Worker.Random
  ephemeralPriv : Worker.Random
  secret : Worker.Random

/-- What the sidecar sees of an error written by `http.Error`. -/
def ofHttpError {β : Type} (e : HttpError) : Sidecar.Reply β :=
  .answered e.status (e.text ++ [10]) (.error [])

section Relay

variable (P : Primitives) (env : Relay.Environment) (r : Request) (d : Draw)

def relayChallenge (publicKey : Bytes) : Relay.Challenge where
  publicKey := publicKey
  nonce := Relay.randomHex d.nonce.val
  ephemeralPriv := d.ephemeralPriv.val
  ephemeralPubHex := encodeHex (P.x25519Public d.ephemeralPriv.val)
  expiresAt := d.now + 5 * Relay.minute
  attempts := 0

/-- The challenge as the sidecar decodes it. -/
def relayResponse (publicKey : Bytes) : Sidecar.RegistrationInitResponse :=
  let resp := Relay.initResponse P (relayChallenge P d publicKey)
  { fingerprint := resp.fingerprint
    nonce := resp.nonce
    proxyPublicKey := resp.proxyPublicKey
    expiresAt := resp.expiresAt
    protocolVersion := resp.protocolVersion }

def relayInit (req : Sidecar.RegistrationInitRequest) :
    Sidecar.Reply Sidecar.RegistrationInitResponse :=
  match Relay.initPublicKey ⟨r, true, some ⟨req.publicKey⟩⟩ with
  | .error e => ofHttpError e
  | .ok publicKey => .answered 200 [] (.ok (relayResponse P d publicKey))

/-- Whether the comparison for the challenge of a public key accepts a request. -/
def relayAccepts (publicKey : Bytes) (req : Sidecar.RegistrationVerifyRequest) :
    Except HttpError Unit := do
  let req ← Relay.verifyRequest ⟨r, true, some ⟨req.fingerprint, req.proof⟩⟩
  Relay.checkProof P req (relayChallenge P d publicKey)

def relayVerify (init : Sidecar.RegistrationInitRequest)
    (req : Sidecar.RegistrationVerifyRequest) :
    Sidecar.Reply Sidecar.RegistrationVerifyResponse :=
  match relayAccepts P r d init.publicKey req with
  | .error e => ofHttpError e
  | .ok () =>
    let resp := Relay.verifyResponse env r req.fingerprint (Relay.randomHex d.secret.val)
    .answered 200 [] (.ok ⟨resp.fingerprint, resp.tunnelURL, resp.publicURL⟩)

def relayProxy : Sidecar.Proxy where
  init := relayInit P r d
  verify := relayVerify P env r d

end Relay

section Worker

/-- A property of a reply as a string; it is empty when it is missing. -/
def decodeString : JsValue → Except Bytes Bytes
  | .string s => .ok (utf8 s)
  | .undefined => .ok []
  | .null => .ok []
  | _ => .error []

def errorBody (text : JsString) : Bytes :=
  str "\x7b\"error\":\"" ++ utf8 text ++ str "\"\x7d"

/-- No reply of the Worker mentions a protocol version. -/
def ofWorkerInit : Worker.Reply → Sidecar.Reply Sidecar.RegistrationInitResponse
  | .error text status => .answered status (errorBody text) (.ok ⟨[], [], [], 0, 0⟩)
  | .registered fingerprint _ _ =>
    .answered 200 [] ((decodeString fingerprint).map fun fp => ⟨fp, [], [], 0, 0⟩)
  | .challenged fingerprint nonce proxyPublicKey expiresAt =>
    .answered 200 [] (.ok ⟨fingerprint, nonce, proxyPublicKey, expiresAt, 0⟩)

def ofWorkerVerify : Worker.Reply → Sidecar.Reply Sidecar.RegistrationVerifyResponse
  | .error text status => .answered status (errorBody text) (.ok ⟨[], [], []⟩)
  | .registered fingerprint tunnelUrl publicUrl =>
    .answered 200 []
      ((decodeString fingerprint).map fun fp => ⟨fp, utf8 tunnelUrl, utf8 publicUrl⟩)
  | .challenged fingerprint _ _ _ => .answered 200 [] (.ok ⟨fingerprint, [], []⟩)

variable (P : Primitives) (hostname : JsString) (d : Draw)

def workerChallenge (publicKey : Bytes) : Worker.Challenge :=
  ⟨ofAscii publicKey, encodeHex d.nonce.val, d.ephemeralPriv.val⟩

def workerInit (req : Sidecar.RegistrationInitRequest) :
    Sidecar.Reply Sidecar.RegistrationInitResponse :=
  let call : Worker.Call :=
    ⟨hostname, some (.object [(js "publicKey", .string (ofAscii req.publicKey))])⟩
  match Worker.handleRegisterInit P (d.now / 10 ^ 6) call d.nonce d.ephemeralPriv with
  | .error reply => ofWorkerInit reply
  | .ok (_, _, _, reply) => ofWorkerInit reply

def workerVerify (init : Sidecar.RegistrationInitRequest)
    (req : Sidecar.RegistrationVerifyRequest) :
    Sidecar.Reply Sidecar.RegistrationVerifyResponse :=
  let call : Worker.Call := ⟨hostname, some (.object
    [(js "fingerprint", .string (ofAscii req.fingerprint)), (js "proof", .string (ofAscii req.proof))])⟩
  match Worker.verifyFields call with
  | .error reply => ofWorkerVerify reply
  | .ok (fingerprint, proof) =>
    match Worker.checkProof P (workerChallenge d init.publicKey) proof with
    | .error reply => ofWorkerVerify reply
    | .ok () => ofWorkerVerify (Worker.registered call fingerprint (ofAscii req.fingerprint)
        (ofAscii (encodeHex d.secret.val)))

def workerProxy : Sidecar.Proxy where
  init := workerInit P hostname d
  verify := workerVerify P hostname d

end Worker

/-- A file system that holds Headscale's private key. -/
def noiseFiles (priv : Bytes) : Sidecar.Files where
  stat p := p = str "/keys/noise_private.key"
  readFile p :=
    if p = str "/keys/noise_private.key" then .ok (str "privkey:" ++ encodeHex priv)
    else .error (str "open " ++ p)

section Interchangeable

variable (P : Primitives) (env : Relay.Environment) (r : Request) (hostname : JsString)

def headscalePublicKey (priv : Bytes) : Bytes := Relay.mkeyLabel ++ encodeHex (P.x25519Public priv)

/-- The registration of the holder of a private key with a proxy. -/
def registration (priv : Bytes) (proxy : Sidecar.Proxy) :
    List Sidecar.Event × Except Bytes Sidecar.RegistrationResult :=
  Sidecar.registerWithProxy P (noiseFiles priv) []
    (.answered 200 [] (.ok ⟨headscalePublicKey P priv⟩)) proxy

def WorkerAccepts (priv : Bytes) (d : Draw) (proof : JsString) : Prop :=
  Worker.checkProof P (workerChallenge d (headscalePublicKey P priv)) (.string proof) = .ok ()

def RelayAccepts (priv : Bytes) (d : Draw) (proof : Bytes) : Prop :=
  Relay.checkProof P ⟨Relay.computeFingerprint P (headscalePublicKey P priv), proof⟩
    (relayChallenge P d (headscalePublicKey P priv)) = .ok ()

/-- For one key pair and the challenge of one draw, both backends decide alike on the proof and each
of them gets a proof from the sidecar that it accepts. -/
def Interchangeable (priv : Bytes) (d : Draw) (proof : JsString) : Prop :=
  (WorkerAccepts P priv d proof ↔ RelayAccepts P priv d (utf8 proof)) ∧
  (∃ req, .verifySent req ∈ (registration P priv (workerProxy P hostname d)).1 ∧
    WorkerAccepts P priv d (ofAscii req.proof)) ∧
  ∃ req, .verifySent req ∈ (registration P priv (relayProxy P env r d)).1 ∧
    RelayAccepts P priv d req.proof

end Interchangeable

variable {P : Primitives} {env : Relay.Environment} {r : Request} {hostname : JsString}

theorem ofWorkerInit_version {reply : Worker.Reply} {status : ℤ} {body : Bytes}
    {resp : Sidecar.RegistrationInitResponse}
    (h : ofWorkerInit reply = .answered status body (.ok resp)) : resp.protocolVersion = 0 := by
  cases reply with
  | error text st =>
    cases h
    rfl
  | registered fp tunnelUrl publicUrl =>
    simp only [ofWorkerInit, Sidecar.Reply.answered.injEq] at h
    cases hf : decodeString fp with
    | error e =>
      rw [hf] at h
      cases h.2.2
    | ok s =>
      rw [hf] at h
      cases h.2.2
      rfl
  | challenged fp nonce pub expiresAt =>
    cases h
    rfl

/-- The sidecar goes on with no challenge of the Worker. -/
theorem initChallenge_workerInit {d : Draw} {fp : Bytes} {req : Sidecar.RegistrationInitRequest}
    {resp : Sidecar.RegistrationInitResponse} :
    Sidecar.initChallenge fp (workerInit P hostname d req) ≠ .ok resp := by
  intro h
  obtain ⟨⟨body, hb⟩, -, hv⟩ := Sidecar.initChallenge_eq_ok h
  have hz : resp.protocolVersion = 0 := by
    unfold workerInit at hb
    dsimp only at hb
    split at hb
    · exact ofWorkerInit_version hb
    · exact ofWorkerInit_version hb
  rw [hz] at hv
  cases hv

/-- The Worker is never sent a proof. -/
theorem verifySent_notMem_worker (priv : Bytes) (d : Draw)
    (req : Sidecar.RegistrationVerifyRequest) :
    .verifySent req ∉ (registration P priv (workerProxy P hostname d)).1 := by
  intro hm
  rcases Sidecar.registerWithProxy_cases (P := P) (noiseFiles priv) []
      (.answered 200 [] (.ok ⟨headscalePublicKey P priv⟩)) (workerProxy P hostname d) with
    ⟨err, h⟩ | ⟨pk, -, ⟨err, h⟩ | ⟨key, resp, req', -, hc, -⟩⟩
  · rw [registration, h] at hm
    simp at hm
  · rw [registration, h] at hm
    simp at hm
  · exact initChallenge_workerInit hc

/-- The backends accept a common proof only if two codes collide. -/
theorem collision_of_accepted {priv : Bytes} {d : Draw} {proof : JsString}
    (hw : WorkerAccepts P priv d proof) (hr : RelayAccepts P priv d (utf8 proof)) :
    ∃ shared key, P.hmac shared (encodeHex d.nonce.val) = P.hmac key
      (expected (Relay.computeFingerprint P (headscalePublicKey P priv))
        (relayChallenge P d (headscalePublicKey P priv)) shared).transcript := by
  obtain ⟨e, he, hp⟩ := Worker.checkProof_eq_ok hw
  obtain ⟨s, hs, hps⟩ := proves_iff.mp (Relay.checkProof_eq_ok.mp hr)
  obtain ⟨key, -, hk⟩ := proof_eq_some.mp hps
  unfold Worker.expectedProof at he
  dsimp only at he
  split_ifs at he
  obtain ⟨shared, -, rfl⟩ := Option.map_eq_some_iff.mp he
  use shared, key
  apply encodeHex_injective
  rw [JsValue.string.injEq] at hp
  rw [hp, utf8_ofAscii fun b hb => lt_of_mem_encodeHex hb] at hk
  exact hk

/-- The registration with the relay, once both sides have the same shared secret. -/
theorem registration_relay {priv s proof : Bytes} {d : Draw}
    (hload : Sidecar.loadNoisePrivateKey (noiseFiles priv) [] = .ok priv)
    (hinit : Relay.initPublicKey ⟨r, true, some ⟨headscalePublicKey P priv⟩⟩ =
      .ok (headscalePublicKey P priv))
    (hs : Sidecar.sharedSecret P priv
      (relayChallenge P d (headscalePublicKey P priv)).ephemeralPubHex = .ok s)
    (hp : (expected (Relay.computeFingerprint P (headscalePublicKey P priv))
      (relayChallenge P d (headscalePublicKey P priv)) s).proof P = some proof) :
    registration P priv (relayProxy P env r d) =
      let pk := headscalePublicKey P priv
      let req := ⟨Relay.computeFingerprint P pk, proof⟩
      ([.initSent ⟨pk⟩, .initAnswered (relayInit P r d ⟨pk⟩), .verifySent req,
          .verifyAnswered (relayVerify P env r d ⟨pk⟩ req)],
        Sidecar.verifiedResult (Relay.computeFingerprint P pk)
          (relayVerify P env r d ⟨pk⟩ req)) := by
  have hc : Sidecar.initChallenge (Sidecar.computeFingerprint P (headscalePublicKey P priv))
      (relayInit P r d ⟨headscalePublicKey P priv⟩) =
        .ok (relayResponse P d (headscalePublicKey P priv)) := by
    simp only [relayInit, hinit, Sidecar.initChallenge]
    rw [if_neg (by simp), if_neg (by simp [relayResponse, Relay.initResponse, relayChallenge,
      computeFingerprint_eq]), if_neg (by simp [relayResponse, Relay.initResponse,
      Relay.protocolVersion, Sidecar.protocolVersion])]
  have hreq : Sidecar.proofRequest P priv (headscalePublicKey P priv)
      (relayResponse P d (headscalePublicKey P priv)) =
        .ok ⟨Relay.computeFingerprint P (headscalePublicKey P priv), proof⟩ :=
    Sidecar.proofRequest_eq_ok.mpr ⟨s, hs, hp, rfl⟩
  rw [registration, Sidecar.registerWithProxy_of_proof hload rfl hc hreq]
  rfl

/-- The relay is sent a proof that it accepts, once both sides have the same shared secret. -/
theorem relay_accepts_registration {priv s proof : Bytes} {d : Draw}
    (hload : Sidecar.loadNoisePrivateKey (noiseFiles priv) [] = .ok priv)
    (hinit : Relay.initPublicKey ⟨r, true, some ⟨headscalePublicKey P priv⟩⟩ =
      .ok (headscalePublicKey P priv))
    (hs : Sidecar.sharedSecret P priv
      (relayChallenge P d (headscalePublicKey P priv)).ephemeralPubHex = .ok s)
    (hs' : Relay.sharedSecret P (relayChallenge P d (headscalePublicKey P priv)) = .ok s)
    (hp : (expected (Relay.computeFingerprint P (headscalePublicKey P priv))
      (relayChallenge P d (headscalePublicKey P priv)) s).proof P = some proof) :
    (∃ req, .verifySent req ∈ (registration P priv (relayProxy P env r d)).1 ∧
      req.proof = proof) ∧ RelayAccepts P priv d proof := by
  constructor
  · use ⟨Relay.computeFingerprint P (headscalePublicKey P priv), proof⟩
    rw [registration_relay hload hinit hs hp]
    simp
  · exact Relay.checkProof_eq_ok.mpr (proves_iff.mpr ⟨s, hs', hp⟩)

/-- A proof that the relay accepts is answered with the two URLs. -/
theorem relayVerify_of_accepts {priv proof : Bytes} {d : Draw} (hmethod : r.method = str "POST")
    (hproof : proof ≠ []) (h : RelayAccepts P priv d proof) :
    relayVerify P env r d ⟨headscalePublicKey P priv⟩
        ⟨Relay.computeFingerprint P (headscalePublicKey P priv), proof⟩ =
      let resp := Relay.verifyResponse env r
        (Relay.computeFingerprint P (headscalePublicKey P priv)) (Relay.randomHex d.secret.val)
      .answered 200 [] (.ok ⟨resp.fingerprint, resp.tunnelURL, resp.publicURL⟩) := by
  have hfp : Relay.computeFingerprint P (headscalePublicKey P priv) ≠ [] := by
    intro hnil
    have hlen := Relay.length_fingerprint (P := P) (headscalePublicKey P priv)
    rw [hnil] at hlen
    cases hlen
  have hread : Relay.verifyRequest ⟨r, true, some
      ⟨Relay.computeFingerprint P (headscalePublicKey P priv), proof⟩⟩ =
        .ok ⟨Relay.computeFingerprint P (headscalePublicKey P priv), proof⟩ := by
    rw [Relay.verifyRequest, Relay.Call.decode, if_neg (not_not.mpr hmethod), if_neg (by simp)]
    exact if_neg (not_or.mpr ⟨hfp, hproof⟩)
  have haccepts : relayAccepts P r d (headscalePublicKey P priv)
      ⟨Relay.computeFingerprint P (headscalePublicKey P priv), proof⟩ = .ok () := by
    rw [relayAccepts, hread]
    exact h
  simp only [relayVerify, haccepts]

/-- On no key pair, draw and proof are the two backends interchangeable: the Worker is never sent a
proof, and a proof that both would accept takes a collision of HMAC. -/
theorem never_interchangeable (priv : Bytes) (d : Draw) (proof : JsString) :
    ¬ Interchangeable P env r hostname priv d proof ∧
      (WorkerAccepts P priv d proof → RelayAccepts P priv d (utf8 proof) →
        ∃ shared key, P.hmac shared (encodeHex d.nonce.val) = P.hmac key
          (expected (Relay.computeFingerprint P (headscalePublicKey P priv))
            (relayChallenge P d (headscalePublicKey P priv)) shared).transcript) := by
  constructor
  · rintro ⟨-, ⟨req, hm, -⟩, -⟩
    exact verifySent_notMem_worker priv d req hm
  · exact collision_of_accepted

/-- The settings of the relay of the sidecar's domain. -/
def headfwdNet : Relay.Environment := ⟨str "headfwd.net", str "https"⟩

/-- The draws of the registration written out in numbers. -/
def vectorDraw : Draw where
  now := 0
  nonce := ⟨List.replicate 32 3, List.length_replicate⟩
  ephemeralPriv := ⟨Relay.Vector.ephemeralPriv, List.length_replicate⟩
  secret := ⟨List.replicate 32 4, List.length_replicate⟩

theorem proof_vectorInput_exchange :
    vectorInput.proof Relay.Vector.exchange = some Relay.Vector.proof := by
  apply proof_vectorInput
  · dsimp only [Relay.Vector.exchange, Relay.Vector.primitives]
    rw [if_pos ⟨rfl, rfl, rfl, rfl⟩]
  · dsimp only [Relay.Vector.exchange, Relay.Vector.primitives]
    rw [if_pos ⟨rfl, rfl⟩]

def vectorKey : Bytes := headscalePublicKey Relay.Vector.exchange Relay.Vector.sidecarPriv

/-- What the sidecar has after that registration with a relay of its own domain. -/
def vectorResult : Sidecar.RegistrationResult where
  fingerprint := Relay.Vector.fingerprint
  tunnelURL := str "wss://" ++ Relay.Vector.fingerprint ++ str ".headfwd.net/tunnel?auth=" ++
    Relay.Vector.secret
  publicURL := str "https://" ++ Relay.Vector.fingerprint ++ str ".headfwd.net"

theorem registration_vector : ∃ before after,
    registration Relay.Vector.exchange Relay.Vector.sidecarPriv
      (relayProxy Relay.Vector.exchange headfwdNet Relay.Vector.post vectorDraw) =
        (before ++ .verifySent ⟨Relay.Vector.fingerprint, Relay.Vector.proof⟩ :: after,
          .ok vectorResult) := by
  have hs : Sidecar.sharedSecret Relay.Vector.exchange Relay.Vector.sidecarPriv
      (relayChallenge Relay.Vector.exchange vectorDraw vectorKey).ephemeralPubHex =
        .ok Relay.Vector.shared := rfl
  have hs' : Relay.sharedSecret Relay.Vector.exchange
      (relayChallenge Relay.Vector.exchange vectorDraw vectorKey) = .ok Relay.Vector.shared := rfl
  have hp : (expected (Relay.computeFingerprint Relay.Vector.exchange vectorKey)
      (relayChallenge Relay.Vector.exchange vectorDraw vectorKey) Relay.Vector.shared).proof
        Relay.Vector.exchange = some Relay.Vector.proof := proof_vectorInput_exchange
  have haccepts : RelayAccepts Relay.Vector.exchange Relay.Vector.sidecarPriv vectorDraw
      Relay.Vector.proof := Relay.checkProof_eq_ok.mpr (proves_iff.mpr ⟨_, hs', hp⟩)
  have hverify : relayVerify Relay.Vector.exchange headfwdNet Relay.Vector.post vectorDraw
      ⟨vectorKey⟩ ⟨Relay.Vector.fingerprint, Relay.Vector.proof⟩ = .answered 200 [] (.ok
        ⟨vectorResult.fingerprint, vectorResult.tunnelURL, vectorResult.publicURL⟩) :=
    relayVerify_of_accepts rfl (by decide) haccepts
  have hresult : Sidecar.verifiedResult Relay.Vector.fingerprint (relayVerify Relay.Vector.exchange
      headfwdNet Relay.Vector.post vectorDraw ⟨vectorKey⟩
        ⟨Relay.Vector.fingerprint, Relay.Vector.proof⟩) = .ok vectorResult := by
    rw [hverify]
    rfl
  have hrun := @registration_relay _ headfwdNet Relay.Vector.post _ _ _ _ rfl rfl hs hp
  rw [← hresult]
  exact ⟨[.initSent ⟨vectorKey⟩, .initAnswered _], [_], hrun⟩

/-- It sent the proof only for the challenge of the relay, and has the URLs of its fingerprint. -/
theorem registerWithProxy_never_trusts_vector : ∃ before after resp body key,
    registration Relay.Vector.exchange Relay.Vector.sidecarPriv
      (relayProxy Relay.Vector.exchange headfwdNet Relay.Vector.post vectorDraw) =
        (before ++ .verifySent ⟨Relay.Vector.fingerprint, Relay.Vector.proof⟩ :: after,
          .ok vectorResult) ∧
    before = [.initSent ⟨vectorKey⟩, .initAnswered (.answered 200 body (.ok resp))] ∧
    resp.protocolVersion = 2 ∧
    Relay.Vector.proof = encodeHex (Relay.Vector.exchange.hmac key (Sidecar.transcript
      Relay.Vector.fingerprint vectorKey resp.nonce resp.proxyPublicKey)) ∧
    urlScheme vectorResult.tunnelURL = some (str "wss") ∧
    urlAuthority vectorResult.tunnelURL =
      some (Relay.Vector.fingerprint ++ str ".headfwd.net") := by
  obtain ⟨before, after, hrun⟩ := registration_vector
  obtain ⟨hproof, hurls⟩ := Sidecar.registerWithProxy_never_trusts (P := Relay.Vector.exchange)
    (noiseFiles Relay.Vector.sidecarPriv) [] (.answered 200 [] (.ok ⟨vectorKey⟩))
    (relayProxy Relay.Vector.exchange headfwdNet Relay.Vector.post vectorDraw)
  obtain ⟨pk, resp, body, key, hpk, hbefore, hversion, -, -, hmac⟩ :=
    hproof before after _ (congrArg Prod.fst hrun)
  obtain ⟨pk', hpk', -, -, hscheme, hauthority⟩ := hurls vectorResult (congrArg Prod.snd hrun)
  cases hpk
  cases hpk'
  exact ⟨before, after, resp, body, key, hrun, hbefore, hversion, hmac, hscheme, hauthority⟩

/-- The relay is sent the proof of that registration and accepts it; the Worker does not accept it
and is sent no proof at all. -/
theorem vector_not_interchangeable :
    ((∃ req, .verifySent req ∈ (registration Relay.Vector.exchange Relay.Vector.sidecarPriv
        (relayProxy Relay.Vector.exchange ⟨[], []⟩ Relay.Vector.post vectorDraw)).1 ∧
      req.proof = Relay.Vector.proof) ∧
    RelayAccepts Relay.Vector.exchange Relay.Vector.sidecarPriv vectorDraw Relay.Vector.proof) ∧
    ¬ WorkerAccepts Relay.Vector.exchange Relay.Vector.sidecarPriv vectorDraw
      (ofAscii Relay.Vector.proof) ∧
    ¬ Interchangeable Relay.Vector.exchange ⟨[], []⟩ Relay.Vector.post (js "headfwd.net")
      Relay.Vector.sidecarPriv vectorDraw (ofAscii Relay.Vector.proof) := by
  have he : Worker.expectedProof Relay.Vector.exchange (workerChallenge vectorDraw
      (headscalePublicKey Relay.Vector.exchange Relay.Vector.sidecarPriv)) =
        some (encodeHex (List.replicate 32 0)) := by
    decide +kernel
  have hs : Relay.sharedSecret Relay.Vector.exchange (relayChallenge Relay.Vector.exchange vectorDraw
      (headscalePublicKey Relay.Vector.exchange Relay.Vector.sidecarPriv)) =
        .ok Relay.Vector.shared := rfl
  refine ⟨relay_accepts_registration rfl rfl rfl hs proof_vectorInput_exchange, ?_, ?_⟩
  · intro h
    obtain ⟨e, he', hp⟩ := Worker.checkProof_eq_ok h
    obtain rfl : encodeHex (List.replicate 32 0) = e := Option.some.inj (he.symm.trans he')
    revert hp
    rw [JsValue.string.injEq]
    decide
  · rintro ⟨-, ⟨req, hm, -⟩, -⟩
    exact verifySent_notMem_worker _ _ _ hm

end HeadFwd.EndToEnd
