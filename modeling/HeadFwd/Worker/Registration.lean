import HeadFwd.Crypto.Primitives
import HeadFwd.Js.Value
import HeadFwd.Net.Http
import HeadFwd.Transition.Basic
import HeadFwd.Transition.Table
import HeadFwd.Transition.Versions

/-! # Registration in the Worker

The three registration endpoints and the authorisation of a tunnel. Challenges
and registrations live in one key-value namespace, which may return outdated
values and may let a key expire at any time, or in two maps of the process when
no namespace is bound. A handler is interrupted only while it waits for the
namespace. Hexadecimal texts are kept as their ASCII bytes.
-/

namespace HeadFwd.Worker

open Text Net Crypto Transition Js

/-- Whether `REGISTRY` is bound, and `TUNNEL_SECRET`. -/
structure Env where
  registry : Bool
  tunnelSecret : Option JsString

/-- A request to an endpoint: the host name of its URL, and its body unless that is no JSON. -/
structure Call where
  hostname : JsString
  body : Option JsValue

/-- Freshly drawn bytes: a nonce, a secret or a private key. -/
abbrev Random := { bytes : Bytes // bytes.length = 32 }

/-- A reply in JSON: an error, the result of a registration, or a challenge. -/
inductive Reply where
  | error (text : JsString) (status : ℕ)
  | registered (fingerprint : JsValue) (tunnelUrl publicUrl : JsString)
  | challenged (fingerprint nonce proxyPublicKey : Bytes) (expiresAt : ℕ)

structure Challenge where
  publicKey : JsString
  nonce : Bytes
  ephemeralPriv : Bytes
  deriving DecidableEq

structure Registration where
  publicKey : JsValue
  secret : Option JsString

/-- What the namespace holds. -/
inductive Record where
  | challenge (c : Challenge)
  | registration (r : Registration)

/-- The request on whose behalf a record was put. -/
inductive Source where
  | register (call : Call)
  | init (call : Call)
  | verify (call : Call)

/-- A record and, as history, its source. -/
structure Entry where
  record : Record
  source : Source

/-- What the `catch` of every handler replies. -/
def invalidRequest : Reply := .error (js "Invalid request") 400

/-- A property of the body; `none` when there is no JSON or nothing to take a property of. -/
def Call.field (call : Call) (name : String) : Option JsValue := call.body.bind (·.get (js name))

def isLocal (hostname : JsString) : Bool :=
  hostname = js "localhost" || (js "127.0.0.1").isPrefixOf hostname

/-- The reply that ends a registration. -/
def registered (call : Call) (fingerprint : JsValue) (text secret : JsString) : Reply :=
  let dev := isLocal call.hostname
  let host := text ++ js "." ++ js (if dev then "localhost:8787" else "headfwd.net")
  .registered fingerprint
    (js (if dev then "ws://" else "wss://") ++ host ++ js "/tunnel?auth=" ++ secret)
    (js (if dev then "http://" else "https://") ++ host)

section Primitives

variable (P : Primitives)

def computeFingerprint (pubkey : JsString) : Bytes := (encodeHex (P.sha256 (utf8 pubkey))).take 32

/-- The fingerprint and the record of a legacy registration, and its reply. -/
def handleRegister (env : Env) (call : Call) : Except Reply (Bytes × Registration × Reply) :=
  match call.field "pubkey" with
  | none => .error invalidRequest
  | some pubkey =>
    if !pubkey.truthy then .error (.error (js "Missing pubkey") 400)
    else
      match pubkey.text with
      | none => .error invalidRequest
      | some text =>
        let fingerprint := ofAscii (computeFingerprint P text)
        .ok (computeFingerprint P text, ⟨pubkey, env.tunnelSecret⟩,
          registered call (.string fingerprint) fingerprint (env.tunnelSecret.getD (js "undefined")))

/-- The fingerprint, the challenge, its expiry and the reply. -/
def handleRegisterInit (now : ℕ) (call : Call) (random ephemeralPriv : Random) :
    Except Reply (Bytes × Challenge × ℕ × Reply) :=
  match call.field "publicKey" with
  | none => .error invalidRequest
  | some publicKey =>
    if !publicKey.truthy then .error (.error (js "Missing publicKey") 400)
    else
      match publicKey with
      | .string publicKey =>
        if !(js "mkey:").isPrefixOf publicKey then
          .error (.error (js "Invalid publicKey format. Expected mkey:hex") 400)
        else
          let fingerprint := computeFingerprint P publicKey
          let nonce := encodeHex random.val
          let expiresAt := now + 300000
          .ok (fingerprint, ⟨publicKey, nonce, ephemeralPriv⟩, expiresAt,
            .challenged fingerprint nonce (encodeHex (P.x25519Public ephemeralPriv.val)) expiresAt)
      -- Only strings have a method `startsWith`.
      | _ => .error invalidRequest

/-- Two code units at a time; the odd one at the end does not fit into the array. -/
def hexToBytes : JsString → Bytes
  | a :: b :: s => (match parseHex [a, b] with
    | none => 0
    | some n => UInt8.ofNat (n % 256).toNat) :: hexToBytes s
  | _ => []

/-- The proof that a challenge asks for; `none` when one of the crypto calls throws. -/
def expectedProof (c : Challenge) : Option Bytes :=
  let sidecarPublicKey := hexToBytes (c.publicKey.drop 5)
  if sidecarPublicKey.length ≠ 32 then none
  else (P.x25519 c.ephemeralPriv sidecarPublicKey).map fun shared => encodeHex (P.hmac shared c.nonce)

/-- The property `length` of a truthy value equals `n`. -/
def hasLength (v : JsValue) (n : ℕ) : Bool :=
  match v with
  | .string s => s.length = n
  | .array xs => xs.length = n
  | .object fields =>
    match fields.lookup (js "length") with
    | some (.number text) => text = js (toString n)
    | _ => false
  | _ => false

/-- The comparison of a proof; `none` is the `TypeError` on a value with a length but without
`charCodeAt`. -/
def timingSafeEqual (a : JsValue) (b : JsString) : Option Bool :=
  match a with
  | .string s => some (Crypto.timingSafeEqual UInt16.toNat s b)
  | _ => if !hasLength a b.length then some false else if b = [] then some true else none

def checkProof (c : Challenge) (proof : JsValue) : Except Reply Unit :=
  match expectedProof P c with
  | none => .error invalidRequest
  | some expected =>
    match timingSafeEqual proof (ofAscii expected) with
    | none => .error invalidRequest
    | some false => .error (.error (js "Invalid proof") 403)
    | some true => .ok ()

end Primitives

/-- The two fields of a verify request. -/
def verifyFields (call : Call) : Except Reply (JsValue × JsValue) :=
  match call.field "fingerprint", call.field "proof" with
  | some fingerprint, some proof =>
    if !fingerprint.truthy || !proof.truthy then
      .error (.error (js "Missing fingerprint or proof") 400)
    else .ok (fingerprint, proof)
  | _, _ => .error invalidRequest

def challengeNotFound : Reply :=
  .error (js "Challenge expired or not found. Please call /api/register/init first.") 400

def challengeKey (fingerprint : Bytes) : Bytes := str "challenge:" ++ fingerprint

def tunnelKey (fingerprint : Bytes) : Bytes := str "tunnel:" ++ fingerprint

/-- A verify request that has presented the expected proof: it is about to put the registration or
to delete the challenge, or it is over. The fingerprint is kept as sent and as text. -/
inductive VerifyThread where
  | storing (call : Call) (fingerprint : JsValue) (text publicKey : JsString)
  | deleting (call : Call) (fingerprint : JsValue) (text : JsString) (secret : Bytes)
  | finished (reply : Reply)

/-- The namespace, the maps used in its place with the expiry of each challenge, and the verify
requests. `replies` lists the replies to the other requests, newest first. -/
structure Registry where
  kv : Versions Bytes Entry
  localChallenges : Table JsString (Challenge × ℕ)
  localRegistrations : Table JsString (JsString × Bytes)
  verifies : Table ℕ VerifyThread
  replies : List (Source × Reply)

def Registry.initial : Registry where
  kv := .empty
  localChallenges := .empty
  localRegistrations := .empty
  verifies := .empty
  replies := []

/-- Steps of the handlers, each up to the end of its use of the namespace, which may throw without
effect when `ok` is false, and the expiry of a key. `age` tells how outdated a read is. -/
inductive RegistryAction where
  | register (call : Call) (ok : Bool)
  | init (call : Call) (random ephemeralPriv : Random) (ok : Bool)
  | verifyBegin (i : ℕ) (call : Call) (age : ℕ) (ok : Bool)
  | verifyStore (i : ℕ) (random : Random) (ok : Bool)
  | verifyDelete (i : ℕ) (ok : Bool)
  | expire (key : Bytes)

namespace Registry

variable (P : Primitives) (env : Env)

def reply (s : Registry) (source : Source) (r : Reply) : Registry :=
  { s with replies := (source, r) :: s.replies }

def finish (s : Registry) (i : ℕ) (r : Reply) : Registry :=
  { s with verifies := s.verifies.set i (.finished r) }

def register (s : Registry) (call : Call) (ok : Bool) : Registry :=
  match handleRegister P env call with
  | .error r => s.reply (.register call) r
  | .ok (fingerprint, registration, r) =>
    if !env.registry then s.reply (.register call) r
    else if !ok then s.reply (.register call) invalidRequest
    else { s with
      kv := s.kv.put (tunnelKey fingerprint) ⟨.registration registration, .register call⟩ }.reply
        (.register call) r

def init (now : ℕ) (s : Registry) (call : Call) (random ephemeralPriv : Random) (ok : Bool) :
    Registry :=
  match handleRegisterInit P now call random ephemeralPriv with
  | .error r => s.reply (.init call) r
  | .ok (fingerprint, c, expiresAt, r) =>
    if !env.registry then
      { s with localChallenges := s.localChallenges.set (ofAscii fingerprint) (c, expiresAt) }.reply
        (.init call) r
    else if !ok then s.reply (.init call) invalidRequest
    else { s with
      kv := s.kv.put (challengeKey fingerprint) ⟨.challenge c, .init call⟩ }.reply (.init call) r

def cleanupExpiredChallenges (now : ℕ) (t : Table JsString (Challenge × ℕ)) :
    Table JsString (Challenge × ℕ) := fun k =>
  (t k).filter fun c => now ≤ c.2

/-- Look up the challenge. A record of the wrong kind lacks the key that is imported first. -/
def verifyBegin (now : ℕ) (s : Registry) (i : ℕ) (call : Call) (age : ℕ) (ok : Bool) :
    Registry :=
  match verifyFields call with
  | .error r => s.finish i r
  | .ok (fingerprint, proof) =>
    let proceed (s : Registry) (text : JsString) (c : Challenge) : Registry :=
      match checkProof P c proof with
      | .error r => s.finish i r
      | .ok () => { s with
        verifies := s.verifies.set i (.storing call fingerprint text c.publicKey) }
    if env.registry then
      match fingerprint.text with
      | none => s.finish i invalidRequest
      | some text =>
        if !ok then s.finish i invalidRequest
        else
          match (s.kv.read (challengeKey (utf8 text)) age).map Entry.record with
          | none => s.finish i challengeNotFound
          | some (.registration _) => s.finish i invalidRequest
          | some (.challenge c) => proceed s text c
    else
      let s := { s with localChallenges := cleanupExpiredChallenges now s.localChallenges }
      match fingerprint with
      | .string text =>
        match s.localChallenges text with
        | none => s.finish i challengeNotFound
        | some (c, _) => proceed s text c
      | _ => s.finish i challengeNotFound

def verifyStore (s : Registry) (i : ℕ) (random : Random) (ok : Bool) : Option Registry :=
  match s.verifies i with
  | some (.storing call fingerprint text publicKey) =>
    let secret := encodeHex random.val
    if !env.registry then
      some ({ s with
        localRegistrations := s.localRegistrations.set text (publicKey, secret)
        localChallenges := s.localChallenges.erase text }.finish i
          (registered call fingerprint text (ofAscii secret)))
    else if !ok then some (s.finish i invalidRequest)
    else some { s with
      kv := s.kv.put (tunnelKey (utf8 text))
        ⟨.registration ⟨.string publicKey, some (ofAscii secret)⟩, .verify call⟩
      verifies := s.verifies.set i (.deleting call fingerprint text secret) }
  | _ => none

def verifyDelete (s : Registry) (i : ℕ) (ok : Bool) : Option Registry :=
  match s.verifies i with
  | some (.deleting call fingerprint text secret) =>
    if !ok then some (s.finish i invalidRequest)
    else some ({ s with kv := s.kv.delete (challengeKey (utf8 text)) }.finish i
      (registered call fingerprint text (ofAscii secret)))
  | _ => none

def step (now : ℕ) (s : Registry) : RegistryAction → Option Registry
  | .register call ok => some (s.register P env call ok)
  | .init call random ephemeralPriv ok => some (s.init P env now call random ephemeralPriv ok)
  | .verifyBegin i call age ok =>
    if (s.verifies i).isSome then none else some (s.verifyBegin P env now i call age ok)
  | .verifyStore i random ok => s.verifyStore env i random ok
  | .verifyDelete i ok => s.verifyDelete i ok
  | .expire key => some { s with kv := s.kv.delete key }

end Registry

/-- Match `/^([a-f0-9]{32})\.headfwd\.net$/i` and return the group in lower case. -/
def extractFingerprint (hostname : JsString) : Option Bytes :=
  let label := hostname.take 32
  if label.length = 32 ∧ (label.all fun a => (hexUnit a).isSome) ∧
      (hostname.drop 32).map lowerUnit = js ".headfwd.net" then
    some (label.map fun a => (lowerUnit a).toUInt8)
  else none

/-- The parts of a request for a tunnel that decide whether it is accepted. -/
structure Dial where
  hostname : JsString
  auth : Option JsString
  upgrade : Option JsString
  wsKey : Option JsString

/-- The secret a tunnel asks to be accepted with is the right one, when the namespace returns a state
of the given age. -/
def authorised (env : Env) (kv : Versions Bytes Entry) (dial : Dial) (age : ℕ) : Bool :=
  match dial.auth with
  | none => false
  | some auth =>
    auth ≠ [] &&
      match extractFingerprint dial.hostname, env.registry with
      | some fingerprint, true =>
        match (kv.read (tunnelKey fingerprint) age).map Entry.record with
        | some (.registration ⟨_, some secret⟩) => secret ≠ [] && secret = auth
        | _ => false
      | _, _ => some auth = env.tunnelSecret

def acceptTunnel (env : Env) (kv : Versions Bytes Entry) (dial : Dial) (age : ℕ) :
    Except HttpError Unit :=
  if !authorised env kv dial age then .error ⟨str "Unauthorized", 401⟩
  else if dial.upgrade ≠ some (js "websocket") ∧ dial.wsKey.getD [] = [] then
    .error ⟨str "Expected WebSocket", 426⟩
  else .ok ()

end HeadFwd.Worker
