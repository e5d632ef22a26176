import HeadFwd.Net.Url
import HeadFwd.Sidecar.Crypto
import HeadFwd.Text.Utf8

/-! # Registration from the sidecar's side

`registerWithProxy` reads Headscale's keys, asks the proxy for a challenge and
submits a proof. The proxy is an arbitrary pair of functions. The text that a
library adds to an error of its own is left out; the text of a failed request is
part of the reply.
-/

namespace HeadFwd.Sidecar

open Text Net Crypto

structure HeadscaleKeyResponse where
  publicKey : Bytes

structure RegistrationInitRequest where
  publicKey : Bytes

/-- `protocolVersion` is zero when the reply does not mention it. -/
structure RegistrationInitResponse where
  fingerprint : Bytes
  nonce : Bytes
  proxyPublicKey : Bytes
  expiresAt : ℤ
  protocolVersion : ℤ

structure RegistrationVerifyRequest where
  fingerprint : Bytes
  proof : Bytes

structure RegistrationVerifyResponse where
  fingerprint : Bytes
  tunnelURL : Bytes
  publicURL : Bytes

structure RegistrationResult where
  fingerprint : Bytes
  tunnelURL : Bytes
  publicURL : Bytes

/-- What comes of an HTTP request: a failure, or a status, a body and what the body decodes to. -/
inductive Reply (β : Type) where
  | failed (err : Bytes)
  | answered (status : ℤ) (text : Bytes) (decoded : Except Bytes β)

/-- The proxy may choose the second reply in the light of both requests. -/
structure Proxy where
  init : RegistrationInitRequest → Reply RegistrationInitResponse
  verify : RegistrationInitRequest → RegistrationVerifyRequest → Reply RegistrationVerifyResponse

/-- The files the sidecar can see. -/
structure Files where
  stat : Bytes → Bool
  readFile : Bytes → Except Bytes Bytes

inductive Event where
  | initSent (req : RegistrationInitRequest)
  | initAnswered (reply : Reply RegistrationInitResponse)
  | verifySent (req : RegistrationVerifyRequest)
  | verifyAnswered (reply : Reply RegistrationVerifyResponse)

def publicURLFromFingerprint (fingerprint : Bytes) : Bytes :=
  if fingerprint = [] then [] else str "https://" ++ fingerprint ++ str ".headfwd.net"

def noiseKeyPaths : List Bytes :=
  [str "/var/lib/headscale/noise_private.key", str "/keys/noise_private.key",
    str "./headscale/data/noise_private.key", str "../headscale/data/noise_private.key"]

def loadNoisePrivateKey (files : Files) (keyPath : Bytes) : Except Bytes Bytes := do
  let keyPath := if keyPath = [] then (noiseKeyPaths.find? files.stat).getD [] else keyPath
  if keyPath = [] then throw (str "could not find Noise private key. Specify with --noise-key")
  match files.readFile keyPath with
  | .error err => throw (str "failed to read Noise private key from " ++ keyPath ++ str ": " ++ err)
  | .ok keyData =>
    let keyStr := trimSpace keyData
    if ¬ (str "privkey:").isPrefixOf keyStr then
      throw (str "invalid Noise key format: expected 'privkey:' prefix")
    match decodeHex (trimPrefix keyStr (str "privkey:")) with
    | none => throw (str "failed to decode Noise key hex: ")
    | some privateKey =>
      if privateKey.length ≠ 32 then
        throw (str "invalid X25519 key: expected 32 bytes, got " ++ str (toString privateKey.length))
      return privateKey

def headscaleKey (reply : Reply HeadscaleKeyResponse) : Except Bytes Bytes :=
  match reply with
  | .failed err => .error (str "failed to get Headscale key: " ++ err)
  | .answered _ _ (.error err) => .error (str "failed to decode key: " ++ err)
  | .answered _ _ (.ok keyData) => .ok keyData.publicKey

/-- The challenge in an init reply, if the sidecar goes on with it. -/
def initChallenge (localFingerprint : Bytes) (reply : Reply RegistrationInitResponse) :
    Except Bytes RegistrationInitResponse :=
  match reply with
  | .failed err => .error (str "failed to init registration: " ++ err)
  | .answered status body decoded =>
    if status ≠ 200 then .error (str "registration init failed: " ++ body)
    else match decoded with
      | .error err => .error (str "failed to decode init response: " ++ err)
      | .ok initResp =>
        if initResp.fingerprint ≠ localFingerprint then
          .error (str "proxy fingerprint mismatch: local=" ++ localFingerprint ++ str " proxy=" ++
            initResp.fingerprint)
        else if initResp.protocolVersion ≠ protocolVersion then
          .error (str "relay speaks registration protocol v" ++
            str (toString initResp.protocolVersion) ++ str ", this sidecar requires v" ++
            str (toString protocolVersion) ++ str " " ++ [0xE2, 0x80, 0x94] ++
            str " upgrade the relay")
        else .ok initResp

/-- The result in a verify reply, if the sidecar accepts it. -/
def verifiedResult (localFingerprint : Bytes) (reply : Reply RegistrationVerifyResponse) :
    Except Bytes RegistrationResult :=
  match reply with
  | .failed err => .error (str "failed to verify registration: " ++ err)
  | .answered status body decoded =>
    if status ≠ 200 then .error (str "registration verification failed: " ++ body)
    else match decoded with
      | .error err => .error (str "failed to decode verify response: " ++ err)
      | .ok verifyResp =>
        if verifyResp.fingerprint ≠ localFingerprint then
          .error (str "proxy verify fingerprint mismatch: local=" ++ localFingerprint ++
            str " proxy=" ++ verifyResp.fingerprint)
        else if verifyResp.publicURL ≠ publicURLFromFingerprint localFingerprint then
          .error (str "proxy public URL mismatch: expected=" ++
            publicURLFromFingerprint localFingerprint ++ str " got=" ++ verifyResp.publicURL)
        else if ¬ (str "wss://" ++ localFingerprint ++ str ".headfwd.net/").isPrefixOf
            verifyResp.tunnelURL then
          .error (str "proxy tunnel URL mismatch: got=" ++ verifyResp.tunnelURL)
        else .ok ⟨localFingerprint, verifyResp.tunnelURL, verifyResp.publicURL⟩

section Primitives

variable (P : Primitives)

/-- The shared secret with the holder of the key in an init reply. -/
def sharedSecret (x25519Key proxyPublicKey : Bytes) : Except Bytes Bytes :=
  match decodeHex proxyPublicKey with
  | none => .error (str "failed to decode proxy public key: ")
  | some proxyPub =>
    if x25519Key.length ≠ 32 then .error (str "failed to create X25519 private key: ")
    else if proxyPub.length ≠ 32 then .error (str "failed to create proxy public key: ")
    else match P.x25519 x25519Key proxyPub with
      | none => .error (str "ECDH failed: ")
      | some shared => .ok shared

/-- The request that answers a challenge. -/
def proofRequest (x25519Key publicKey : Bytes) (initResp : RegistrationInitResponse) :
    Except Bytes RegistrationVerifyRequest := do
  let shared ← sharedSecret P x25519Key initResp.proxyPublicKey
  match registrationProof P shared initResp.fingerprint publicKey initResp.nonce
      initResp.proxyPublicKey with
  | none => throw (str "failed to derive proof: ")
  | some proof => return ⟨initResp.fingerprint, proof⟩

/-- The messages exchanged with the proxy, oldest first, and the result. -/
def registerWithProxy (files : Files) (noiseKeyPath : Bytes)
    (keyReply : Reply HeadscaleKeyResponse) (proxy : Proxy) :
    List Event × Except Bytes RegistrationResult :=
  match loadNoisePrivateKey files noiseKeyPath with
  | .error err => ([], .error (str "failed to load noise key: " ++ err))
  | .ok x25519Key =>
    match headscaleKey keyReply with
    | .error err => ([], .error err)
    | .ok publicKey =>
      let localFingerprint := computeFingerprint P publicKey
      let initReq := ⟨publicKey⟩
      let initReply := proxy.init initReq
      let events := [.initSent initReq, .initAnswered initReply]
      match initChallenge localFingerprint initReply with
      | .error err => (events, .error err)
      | .ok initResp =>
        match proofRequest P x25519Key publicKey initResp with
        | .error err => (events, .error err)
        | .ok verifyReq =>
          let verifyReply := proxy.verify initReq verifyReq
          (events ++ [.verifySent verifyReq, .verifyAnswered verifyReply],
            verifiedResult localFingerprint verifyReply)

variable {P}

theorem initChallenge_eq_ok {fp : Bytes} {reply : Reply RegistrationInitResponse}
    {resp : RegistrationInitResponse} (h : initChallenge fp reply = .ok resp) :
    (∃ body, reply = .answered 200 body (.ok resp)) ∧ resp.fingerprint = fp ∧
      resp.protocolVersion = protocolVersion := by
  unfold initChallenge at h
  split at h
  · cases h
  · rename_i status body decoded
    split_ifs at h with hs
    cases decoded with
    | error err => cases h
    | ok r =>
      dsimp only at h
      split_ifs at h with hf hv
      cases h
      obtain rfl := not_not.mp hs
      exact ⟨⟨body, rfl⟩, not_not.mp hf, not_not.mp hv⟩

theorem verifiedResult_eq_ok {fp : Bytes} {reply : Reply RegistrationVerifyResponse}
    {r : RegistrationResult} (h : verifiedResult fp reply = .ok r) :
    r.fingerprint = fp ∧ r.publicURL = publicURLFromFingerprint fp ∧
      str "wss://" ++ fp ++ str ".headfwd.net/" <+: r.tunnelURL := by
  unfold verifiedResult at h
  split at h
  · cases h
  · rename_i status body decoded
    split_ifs at h with hs
    cases decoded with
    | error err => cases h
    | ok v =>
      dsimp only at h
      split_ifs at h with hf hu ht
      cases h
      exact ⟨rfl, not_not.mp hu, List.isPrefixOf_iff_prefix.mp ht⟩

/-- The result is what the reply says. -/
theorem verifiedResult_answered {fp body : Bytes} {v : RegistrationVerifyResponse}
    {r : RegistrationResult} (h : verifiedResult fp (.answered 200 body (.ok v)) = .ok r) :
    v.fingerprint = fp ∧ r.tunnelURL = v.tunnelURL ∧
      v.publicURL = publicURLFromFingerprint fp := by
  simp only [verifiedResult] at h
  split_ifs at h with h₁ hf hu ht
  cases h
  exact ⟨not_not.mp hf, rfl, not_not.mp hu⟩

theorem registrationProof_eq_some {shared fp pk nonce eph proof : Bytes} :
    registrationProof P shared fp pk nonce eph = some proof ↔
      ∃ key, deriveProofKey P shared nonce = some key ∧
        proof = encodeHex (P.hmac key (transcript fp pk nonce eph)) := by
  unfold registrationProof
  cases deriveProofKey P shared nonce with
  | none => simp
  | some key => simp [eq_comm]

theorem proofRequest_eq_ok {x25519Key pk : Bytes} {resp : RegistrationInitResponse}
    {req : RegistrationVerifyRequest} :
    proofRequest P x25519Key pk resp = .ok req ↔
      ∃ shared, sharedSecret P x25519Key resp.proxyPublicKey = .ok shared ∧
        registrationProof P shared resp.fingerprint pk resp.nonce resp.proxyPublicKey =
          some req.proof ∧ req.fingerprint = resp.fingerprint := by
  unfold proofRequest
  cases sharedSecret P x25519Key resp.proxyPublicKey with
  | error e => simp [bind, Except.bind]
  | ok shared =>
    cases hp : registrationProof P shared resp.fingerprint pk resp.nonce resp.proxyPublicKey with
    | none => simp [bind, Except.bind, hp, throw, throwThe, MonadExceptOf.throw]
    | some proof =>
      obtain ⟨fp, prf⟩ := req
      simp [bind, Except.bind, hp, pure, Except.pure, and_comm, eq_comm]

/-- A registration that gets to a proof. -/
theorem registerWithProxy_of_proof {files : Files} {path pk x25519Key : Bytes}
    {keyReply : Reply HeadscaleKeyResponse} {proxy : Proxy} {resp : RegistrationInitResponse}
    {req : RegistrationVerifyRequest} (hk : loadNoisePrivateKey files path = .ok x25519Key)
    (hpk : headscaleKey keyReply = .ok pk)
    (hc : initChallenge (computeFingerprint P pk) (proxy.init ⟨pk⟩) = .ok resp)
    (hp : proofRequest P x25519Key pk resp = .ok req) :
    registerWithProxy P files path keyReply proxy =
      ([.initSent ⟨pk⟩, .initAnswered (proxy.init ⟨pk⟩), .verifySent req,
          .verifyAnswered (proxy.verify ⟨pk⟩ req)],
        verifiedResult (computeFingerprint P pk) (proxy.verify ⟨pk⟩ req)) := by
  simp only [registerWithProxy, hk, hpk, hc, hp, List.cons_append, List.nil_append]

/-- How far a registration gets: not to the proxy, to a challenge that is refused, or to a proof. -/
theorem registerWithProxy_cases (files : Files) (path : Bytes)
    (keyReply : Reply HeadscaleKeyResponse) (proxy : Proxy) :
    (∃ err, registerWithProxy P files path keyReply proxy = ([], .error err)) ∨
      ∃ pk, headscaleKey keyReply = .ok pk ∧
        ((∃ err, registerWithProxy P files path keyReply proxy =
          ([.initSent ⟨pk⟩, .initAnswered (proxy.init ⟨pk⟩)], .error err)) ∨
        ∃ x25519Key resp req, loadNoisePrivateKey files path = .ok x25519Key ∧
          initChallenge (computeFingerprint P pk) (proxy.init ⟨pk⟩) = .ok resp ∧
          proofRequest P x25519Key pk resp = .ok req ∧
          registerWithProxy P files path keyReply proxy =
            ([.initSent ⟨pk⟩, .initAnswered (proxy.init ⟨pk⟩), .verifySent req,
                .verifyAnswered (proxy.verify ⟨pk⟩ req)],
              verifiedResult (computeFingerprint P pk) (proxy.verify ⟨pk⟩ req))) := by
  cases hk : loadNoisePrivateKey files path with
  | error err => exact .inl ⟨_, by simp only [registerWithProxy, hk]; rfl⟩
  | ok x25519Key =>
    cases hpk : headscaleKey keyReply with
    | error err => exact .inl ⟨err, by simp only [registerWithProxy, hk, hpk]⟩
    | ok pk =>
      right
      use pk, rfl
      cases hc : initChallenge (computeFingerprint P pk) (proxy.init ⟨pk⟩) with
      | error err => exact .inl ⟨err, by simp only [registerWithProxy, hk, hpk, hc]⟩
      | ok resp =>
        cases hp : proofRequest P x25519Key pk resp with
        | error err => exact .inl ⟨err, by simp only [registerWithProxy, hk, hpk, hc, hp]⟩
        | ok req => exact .inr ⟨x25519Key, resp, req, rfl, rfl, hp, registerWithProxy_of_proof hk hpk hc hp⟩

theorem mem_computeFingerprint {pk : Bytes} {b : UInt8} (h : b ∈ computeFingerprint P pk) :
    ∃ n < 16, b = hexDigit n := by
  unfold computeFingerprint at h
  dsimp only at h
  split_ifs at h
  · exact hexDigit_of_mem_encodeHex h
  · exact hexDigit_of_mem_encodeHex (List.mem_of_mem_take h)

theorem length_computeFingerprint (pk : Bytes) : (computeFingerprint P pk).length = 32 := by
  unfold computeFingerprint
  simp [P.length_sha256]

theorem slash_notMem_host (pk : Bytes) :
    chr '/' ∉ computeFingerprint P pk ++ str ".headfwd.net" := by
  intro h
  rcases List.mem_append.mp h with h | h
  · obtain ⟨n, hn, he⟩ := mem_computeFingerprint h
    have hne : ∀ {n : ℕ}, n < 16 → chr '/' ≠ hexDigit n := by decide
    exact hne hn he
  · revert h
    decide

theorem publicURLFromFingerprint_computeFingerprint (pk : Bytes) :
    publicURLFromFingerprint (computeFingerprint P pk) =
      str "https://" ++ computeFingerprint P pk ++ str ".headfwd.net" := by
  have hl := length_computeFingerprint (P := P) pk
  have hne : computeFingerprint P pk ≠ [] := by
    intro h
    rw [h] at hl
    cases hl
  rw [publicURLFromFingerprint, if_neg hne]

/-- A URL that passes the check for its first characters has the host of the fingerprint. -/
theorem tunnelURL_parts {pk url : Bytes}
    (h : str "wss://" ++ computeFingerprint P pk ++ str ".headfwd.net/" <+: url) :
    urlScheme url = some (str "wss") ∧
      urlAuthority url = some (computeFingerprint P pk ++ str ".headfwd.net") := by
  obtain ⟨rest, rfl⟩ := h
  have hu : str "wss://" ++ computeFingerprint P pk ++ str ".headfwd.net/" ++ rest =
      str "wss" ++ str "://" ++ (computeFingerprint P pk ++ str ".headfwd.net") ++ str "/" ++
        rest := by
    simp [str]
  rw [hu]
  exact url_parts (by decide) (slash_notMem_host pk) rest

/-- The transcript of the proof in a request is the one of the local fingerprint, Headscale's public
key and the challenge. -/
theorem proofRequest_binds {x25519Key pk : Bytes} {resp : RegistrationInitResponse}
    {req : RegistrationVerifyRequest} (h : proofRequest P x25519Key pk resp = .ok req) :
    req.fingerprint = resp.fingerprint ∧ ∃ key, req.proof = encodeHex (P.hmac key
      (transcript resp.fingerprint pk resp.nonce resp.proxyPublicKey)) := by
  obtain ⟨shared, -, hp, hf⟩ := proofRequest_eq_ok.mp h
  obtain ⟨key, -, hk⟩ := registrationProof_eq_some.mp hp
  exact ⟨hf, key, hk⟩

/-- Whatever the proxy replies, a proof is sent only in answer to a challenge of the second version
for the local fingerprint, and it is bound to that fingerprint and Headscale's public key. A
registration that succeeds leads to the host of the local fingerprint. -/
theorem registerWithProxy_never_trusts (files : Files) (path : Bytes)
    (keyReply : Reply HeadscaleKeyResponse) (proxy : Proxy) :
    (∀ before after req, (registerWithProxy P files path keyReply proxy).1 =
        before ++ .verifySent req :: after →
      ∃ pk resp body key, headscaleKey keyReply = .ok pk ∧
        before = [.initSent ⟨pk⟩, .initAnswered (.answered 200 body (.ok resp))] ∧
        resp.protocolVersion = 2 ∧ resp.fingerprint = computeFingerprint P pk ∧
        req.fingerprint = computeFingerprint P pk ∧
        req.proof = encodeHex (P.hmac key
          (transcript (computeFingerprint P pk) pk resp.nonce resp.proxyPublicKey))) ∧
    ∀ r, (registerWithProxy P files path keyReply proxy).2 = .ok r →
      ∃ pk, headscaleKey keyReply = .ok pk ∧ r.fingerprint = computeFingerprint P pk ∧
        r.publicURL = str "https://" ++ computeFingerprint P pk ++ str ".headfwd.net" ∧
        urlScheme r.tunnelURL = some (str "wss") ∧
        urlAuthority r.tunnelURL = some (computeFingerprint P pk ++ str ".headfwd.net") := by
  rcases registerWithProxy_cases (P := P) files path keyReply proxy with
    ⟨err, h⟩ | ⟨pk, hpk, ⟨err, h⟩ | ⟨x25519Key, resp, req, hk, hc, hp, h⟩⟩
  · rw [h]
    constructor
    · intro before after req he
      simp at he
    · intro r hr
      cases hr
  · rw [h]
    constructor
    · intro before after req he
      have hm : Event.verifySent req ∈ [.initSent ⟨pk⟩, .initAnswered (proxy.init ⟨pk⟩)] := by
        rw [show [_, _] = _ from he]
        simp
      simp at hm
    · intro r hr
      cases hr
  · rw [h]
    obtain ⟨⟨body, hb⟩, hf, hv⟩ := initChallenge_eq_ok hc
    constructor
    · intro before after req' he
      obtain ⟨hreq, key, hproof⟩ := proofRequest_binds hp
      -- The proof is the third message, so what precedes it is fixed.
      rcases before with _ | ⟨e₁, _ | ⟨e₂, _ | ⟨e₃, before⟩⟩⟩
      · simp at he
      · simp at he
      · simp only [List.cons_append, List.nil_append, List.cons.injEq, Event.verifySent.injEq] at he
        obtain ⟨rfl, rfl, rfl, -⟩ := he
        use pk, resp, body, key, hpk
        rw [hb, hreq, hproof, hf]
        exact ⟨rfl, hv, rfl, rfl, rfl⟩
      · have hm : Event.verifySent req' ∈ [.verifyAnswered (proxy.verify ⟨pk⟩ req)] := by
          simp only [List.cons_append, List.cons.injEq] at he
          rw [he.2.2.2]
          simp
        simp at hm
    · intro r hr
      obtain ⟨hfp, hu, ht⟩ := verifiedResult_eq_ok hr
      obtain ⟨hs, ha⟩ := tunnelURL_parts ht
      rw [publicURLFromFingerprint_computeFingerprint] at hu
      exact ⟨pk, hpk, hfp, hu, hs, ha⟩

end Primitives

end HeadFwd.Sidecar
