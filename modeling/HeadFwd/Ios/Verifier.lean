import HeadFwd.Crypto.Primitives
import HeadFwd.Relay.Vector
import HeadFwd.Text.Utf8
import HeadFwd.Transition.Basic

/-! # The pinned server key

Before each connect the app fetches the key of the server, checks it against the
fingerprint in the server URL and writes it to a file, from which the patched
tsnet reads it. A key already in the file must be the one just fetched, but the
check is left out when the file cannot be read, and strings that differ only in
their Unicode normalisation pass for the same.
-/

namespace HeadFwd.Ios

open Text Crypto Transition

structure HeadscaleConfig where
  server : Bytes
  key : Option Bytes
  tailnetServer : Option Bytes
  v : ℤ
  deriving DecidableEq, Repr

def HeadscaleConfig.withKeyCleared (c : HeadscaleConfig) : HeadscaleConfig :=
  { c with key := none }

/-- What the app takes from Foundation: the host of a URL that parses, if it has one; comparison of
strings and of their beginnings, which is up to canonical equivalence; and the key in a JSON reply.
No other string is equivalent to hex digits, or begins equivalently to `mkey:`. -/
structure Foundation where
  url : Bytes → Option (Option Bytes)
  equal : Bytes → Bytes → Bool
  hasPrefix : (p s : Bytes) → Bool
  decode : Bytes → Option Bytes
  equal_hex : ∀ d s, equal (encodeHex d) s = true → encodeHex d = s
  hasPrefix_mkey : ∀ s, hasPrefix Relay.mkeyLabel s = true → Relay.mkeyLabel <+: s

inductive VerificationError where
  | badServerURL (u : Bytes)
  | fetchFailed (msg : Bytes)
  | badKeyResponse
  | fingerprintMismatch (expected got : Bytes)
  | keyChanged (current : Bytes)
  | writeFailed (msg : Bytes)
  deriving DecidableEq, Repr

/-- What the request for the key gives: an error, or a response with its status, if it is one of
HTTP, and its data. -/
inductive KeyReply where
  | failed (msg : Bytes)
  | response (statusCode : Option ℤ) (data : Bytes)
  deriving DecidableEq, Repr

/-- A call of `verify` with what the server answers, whether the file can be read, and the error of
writing it, if any. -/
structure VerifyCall where
  config : HeadscaleConfig
  reply : KeyReply
  readable : Bool
  write : Option Bytes
  deriving DecidableEq, Repr

/-- Hex digits are ASCII or full-width. -/
def isHexDigit : Rune → Bool
  | .ascii b => (hexVal b).isSome
  | .multi [0xEF, 0xBC, c] => (0x90 ≤ c && c ≤ 0x99) || (0xA1 ≤ c && c ≤ 0xA6)
  | .multi [0xEF, 0xBD, c] => 0x81 ≤ c && c ≤ 0x86
  | _ => false

def firstLabel (host : Bytes) : Bytes := ((splitByte (chr '.') host).head?).getD []

variable (F : Foundation) (P : Primitives)

def parseFingerprint (serverURL : Bytes) : Except VerificationError Bytes :=
  match F.url serverURL with
  | some (some host) =>
    let subdomain := firstLabel host
    if (runes subdomain).length = 32 ∧ (runes subdomain).all isHexDigit then .ok subdomain
    else .error (.badServerURL (str "no 32-hex fingerprint found in host: " ++ host))
  | _ => .error (.badServerURL serverURL)

def fetchPublicKey (serverURL : Bytes) (reply : KeyReply) : Except VerificationError Bytes :=
  match F.url (serverURL ++ str "/key?v=96"), reply with
  | none, _ => .error (.badServerURL serverURL)
  | some _, .failed msg => .error (.fetchFailed msg)
  | some _, .response statusCode data =>
    if statusCode ≠ some 200 then
      .error (.fetchFailed (str "HTTP " ++ str (toString (statusCode.getD (-1)))))
    else match F.decode data with
      | some publicKey =>
        if F.hasPrefix Relay.mkeyLabel publicKey then .ok publicKey else .error .badKeyResponse
      | none => .error .badKeyResponse

def computeFingerprint (key : Bytes) : Bytes := encodeHex ((P.sha256 key).take 16)

/-- The trimmed text of the file. Any error of reading it counts as no file. -/
def existingPin (pin : Option Bytes) (readable : Bool) : Option Bytes :=
  match pin with
  | some data => if readable ∧ sanitize data = data then some (trimSpace data) else none
  | none => none

/-- The key that a call is about to write. -/
def checkKey (pin : Option Bytes) (c : VerifyCall) : Except VerificationError Bytes :=
  match parseFingerprint F c.config.server with
  | .error e => .error e
  | .ok expectedFingerprint =>
    match fetchPublicKey F c.config.server c.reply with
    | .error e => .error e
    | .ok publicKey =>
      let computed := computeFingerprint P publicKey
      if F.equal computed expectedFingerprint = false then
        .error (.fingerprintMismatch expectedFingerprint computed)
      else match existingPin pin c.readable with
        | some existing =>
          if existing ≠ [] ∧ F.equal existing publicKey = false then .error (.keyChanged publicKey)
          else .ok publicKey
        | none => .ok publicKey

/-- The outcome of a call and the file after it. The file is replaced as a whole or not at all. -/
def verify (pin : Option Bytes) (c : VerifyCall) : Except VerificationError Unit × Option Bytes :=
  match checkKey F P pin c, c.write with
  | .error e, _ => (.error e, pin)
  | .ok _, some msg => (.error (.writeFailed msg), pin)
  | .ok publicKey, none => (.ok (), some publicKey)

/-- The key that tsnet takes from the file. -/
def readPinnedServerKey (pin : Option Bytes) : Option Bytes :=
  match pin with
  | some data =>
    let key := trimSpace data
    if Relay.mkeyLabel.isPrefixOf key then some key else none
  | none => none

inductive PinAction where
  | verify (c : VerifyCall)
  | delete
  deriving DecidableEq, Repr

/-- The file of one state directory. -/
def pinFile : Machine (Option Bytes) PinAction where
  init pin := pin = none
  step
    | pin, .verify c => some (verify F P pin c).2
    | _, .delete => some none

/-- A call that is served a key of the right fingerprint, and that could write it, is served the key in
the file, or can read the file and tells the keys apart. -/
def Exact (pin : Option Bytes) : PinAction → Prop
  | .verify c => ∀ data label k, pin = some data → readPinnedServerKey pin ≠ none →
    parseFingerprint F c.config.server = .ok label →
    fetchPublicKey F c.config.server c.reply = .ok k →
    F.equal (computeFingerprint P k) label = true → c.write = none →
    trimSpace k = trimSpace data ∨
      c.readable = true ∧ ValidUtf8 data ∧ F.equal (trimSpace data) k = false
  | .delete => True

section Calls

variable {F P} {pin : Option Bytes} {c : VerifyCall}

/-- All that a call has checked before it writes. -/
theorem checkKey_ok {k : Bytes} (h : checkKey F P pin c = .ok k) :
    ∃ label, parseFingerprint F c.config.server = .ok label ∧
      fetchPublicKey F c.config.server c.reply = .ok k ∧
      F.equal (computeFingerprint P k) label = true ∧
      ∀ existing, existingPin pin c.readable = some existing →
        existing = [] ∨ F.equal existing k = true := by
  unfold checkKey at h
  split at h
  · cases h
  · rename_i label hlabel
    split at h
    · cases h
    · rename_i k' hk
      dsimp only at h
      split_ifs at h with hfp
      have hfp := eq_true_of_ne_false hfp
      split at h
      · rename_i existing hex
        split_ifs at h with hne
        cases h
        refine ⟨label, hlabel, hk, hfp, fun x hx => ?_⟩
        cases hex.symm.trans hx
        by_cases hnil : existing = []
        · exact .inl hnil
        · exact .inr (eq_true_of_ne_false fun heq => hne ⟨hnil, heq⟩)
      · rename_i hex
        cases h
        refine ⟨label, hlabel, hk, hfp, fun x hx => ?_⟩
        cases hex.symm.trans hx

theorem parseFingerprint_ok {server label : Bytes} (h : parseFingerprint F server = .ok label) :
    ∃ host, F.url server = some (some host) ∧ label = firstLabel host := by
  unfold parseFingerprint at h
  split at h
  · rename_i host hhost
    dsimp only at h
    split_ifs at h
    cases h
    exact ⟨host, hhost, rfl⟩
  · cases h

theorem fetchPublicKey_ok {server k : Bytes} {reply : KeyReply}
    (h : fetchPublicKey F server reply = .ok k) : Relay.mkeyLabel <+: k := by
  unfold fetchPublicKey at h
  split at h
  · cases h
  · cases h
  · split_ifs at h
    split at h
    · split_ifs at h with hp
      cases h
      exact F.hasPrefix_mkey _ hp
    · cases h

/-- A call ends without touching the file, or writes the key it has checked. -/
theorem verify_cases (F : Foundation) (P : Primitives) (pin : Option Bytes) (c : VerifyCall) :
    (∃ e, verify F P pin c = (.error e, pin)) ∨
      ∃ k, checkKey F P pin c = .ok k ∧ c.write = none ∧ verify F P pin c = (.ok (), some k) := by
  unfold verify
  split
  · exact .inl ⟨_, rfl⟩
  · exact .inl ⟨_, rfl⟩
  · rename_i k hk hw
    exact .inr ⟨k, hk, hw, rfl⟩

/-- A call that returns leaves a key of the fingerprint in the file. -/
theorem pin_of_verify_ok (h : (verify F P pin c).1 = .ok ()) :
    ∃ k host, (verify F P pin c).2 = some k ∧ Relay.mkeyLabel <+: k ∧
      F.url c.config.server = some (some host) ∧ computeFingerprint P k = firstLabel host := by
  rcases verify_cases F P pin c with ⟨e, he⟩ | ⟨k, hk, -, hv⟩
  · rw [he] at h
    cases h
  · obtain ⟨label, hlabel, hfetch, hfp, -⟩ := checkKey_ok hk
    obtain ⟨host, hhost, rfl⟩ := parseFingerprint_ok hlabel
    exact ⟨k, host, by rw [hv], fetchPublicKey_ok hfetch, hhost, F.equal_hex _ _ hfp⟩

theorem pin_of_verify_error {e : VerificationError} (h : (verify F P pin c).1 = .error e) :
    (verify F P pin c).2 = pin := by
  rcases verify_cases F P pin c with ⟨e', he⟩ | ⟨k, hk, -, hv⟩
  · rw [he]
  · rw [hv] at h
    cases h

/-- The reader of the file takes no notice of white space that was already removed. -/
theorem readPinnedServerKey_trimSpace (data : Bytes) :
    readPinnedServerKey (some (trimSpace data)) = readPinnedServerKey (some data) := by
  simp only [readPinnedServerKey, trimSpace_trimSpace]

/-- A call that is exact keeps the key in the file. -/
theorem pin_of_exact {k : Bytes} (hk : readPinnedServerKey pin = some k)
    (hc : Exact F P pin (.verify c)) : readPinnedServerKey (verify F P pin c).2 = some k := by
  rcases verify_cases F P pin c with ⟨e, he⟩ | ⟨k', hk', hw, hv⟩
  · rw [he]
    exact hk
  · rw [hv]
    obtain ⟨label, hlabel, hfetch, hfp, hsame⟩ := checkKey_ok hk'
    cases pin with
    | none => cases hk
    | some data =>
      rcases hc data label k' rfl (by simp [hk]) hlabel hfetch hfp hw with
        htrim | ⟨hread, hvalid, hdiffer⟩
      · rw [← readPinnedServerKey_trimSpace, htrim, readPinnedServerKey_trimSpace, hk]
      · -- The comparison refuses a key that is not the one in the file.
        have hex : existingPin (some data) c.readable = some (trimSpace data) :=
          if_pos ⟨hread, hvalid⟩
        have hne : trimSpace data ≠ [] := by
          intro hnil
          simp only [readPinnedServerKey, hnil] at hk
          cases hk
        cases hdiffer.symm.trans ((hsame _ hex).resolve_left hne)

end Calls

/-- Pin integrity. A call that returns leaves a key with the fingerprint of its server in the file,
a call that throws leaves the file alone, and the key that tsnet reads stays the same as long as the
calls are exact and the directory is not deleted. -/
theorem pin_integrity (pin : Option Bytes) :
    (∀ c, (verify F P pin c).1 = .ok () → ∃ k host, (verify F P pin c).2 = some k ∧
      Relay.mkeyLabel <+: k ∧ F.url c.config.server = some (some host) ∧
      computeFingerprint P k = firstLabel host) ∧
    (∀ c e, (verify F P pin c).1 = .error e → (verify F P pin c).2 = pin) ∧
    ∀ as pin' k, readPinnedServerKey pin = some k → (pinFile F P).exec pin as = some pin' →
      (∀ a ∈ as, a ≠ .delete) → (pinFile F P).Meets (Exact F P) pin as →
      readPinnedServerKey pin' = some k := by
  refine ⟨fun c => pin_of_verify_ok, fun c e => pin_of_verify_error, fun as => ?_⟩
  induction as generalizing pin with
  | nil =>
    intro pin' k hk hr _ _
    cases hr
    exact hk
  | cons a as ih =>
    intro pin' k hk hr hd hm
    obtain ⟨t, ht, hr⟩ := Option.bind_eq_some_iff.mp hr
    cases a with
    | delete => exact absurd rfl (hd _ List.mem_cons_self)
    | verify c =>
      have hrest := hm.2 t ht
      cases ht
      refine ih _ pin' k (pin_of_exact hk hm.1) hr ?_ hrest
      exact fun b hb => hd b (List.mem_cons_of_mem _ hb)

namespace Vector

/-- The letter é after the label, composed and as two code points, with the digests of both keys. -/
def composed : Bytes := Relay.mkeyLabel ++ [0xC3, 0xA9]

def decomposed : Bytes := Relay.mkeyLabel ++ [0x65, 0xCC, 0x81]

def composedDigest : Bytes :=
  [0x2e, 0xff, 0xa9, 0x5b, 0xa4, 0xe6, 0xb5, 0x00, 0xec, 0xf2, 0x5f, 0x69, 0x0c, 0x18, 0xe9, 0x16,
    0x0a, 0x0b, 0x0e, 0x79, 0x22, 0x8a, 0x13, 0xaa, 0x2c, 0xb5, 0x51, 0xd5, 0xd0, 0xab, 0xe5, 0xfb]

def decomposedDigest : Bytes :=
  [0x64, 0x7f, 0x98, 0x24, 0x9d, 0x02, 0x59, 0x32, 0xf6, 0x18, 0xc7, 0x19, 0x5f, 0x63, 0x0c, 0x26,
    0xf4, 0xc0, 0x25, 0x2b, 0x12, 0xcf, 0xb4, 0xd9, 0x7e, 0xc7, 0x98, 0xad, 0xcd, 0xc4, 0xcb, 0x59]

def primitives : Primitives :=
  { Relay.Vector.primitives with
    sha256 m := if m = composed then composedDigest else if m = decomposed then decomposedDigest
      else Relay.Vector.primitives.sha256 m
    length_sha256 m := by
      split_ifs
      · rfl
      · rfl
      · exact Relay.Vector.primitives.length_sha256 m }

/-- A JSON object with the key and nothing else. -/
def keyObject (key : Bytes) : Bytes := str "\x7b\"publicKey\":\"" ++ key ++ str "\"\x7d"

/-- The URLs here are `https` and a host, with or without a path, and the replies such objects. -/
def foundation : Foundation where
  url s :=
    if (str "https://").isPrefixOf s then
      some (some ((s.drop 8).takeWhile fun b => b ≠ chr '/'))
    else none
  equal a b := a = b || (a = composed && b = decomposed) || (a = decomposed && b = composed)
  hasPrefix p s := p.isPrefixOf s
  decode d :=
    let key := (d.drop 14).dropLast.dropLast
    if d = keyObject key then some key else none
  equal_hex d s h := by
    have hne : ∀ {t}, chr 'm' ∈ t → encodeHex d ≠ t := by
      rintro t ht rfl
      exact absurd (hexDigit_of_mem_encodeHex ht) (by decide)
    simpa [hne (t := composed) (by decide), hne (t := decomposed) (by decide)] using h
  hasPrefix_mkey s h := List.isPrefixOf_iff_prefix.mp h

/-- A call for the server whose name is the fingerprint of the key, which the server returns. -/
def honestCall (digest key : Bytes) (readable : Bool) : VerifyCall where
  config := ⟨str "https://" ++ encodeHex (digest.take 16) ++ str ".headfwd.net", none, none, 1⟩
  reply := .response (some 200) (keyObject key)
  readable := readable
  write := none

/-- A call for the registered key. -/
def registeredCall (readable : Bool) : VerifyCall :=
  honestCall Relay.Vector.digest Relay.Vector.publicKey readable

end Vector

section Runs

open HeadFwd.Ios.Vector

/-- A second call for the same key keeps it. -/
theorem pin_integrity_registeredCall :
    ∃ pin, (pinFile foundation primitives).exec none [.verify (registeredCall true)] = some pin ∧
      readPinnedServerKey pin = some Relay.Vector.publicKey ∧
      ∀ pin', (pinFile foundation primitives).exec pin [.verify (registeredCall true)] = some pin' →
        readPinnedServerKey pin' = some Relay.Vector.publicKey := by
  have hrun : (pinFile foundation primitives).exec none [.verify (registeredCall true)] =
      some (some Relay.Vector.publicKey) := by decide +kernel
  have hread : readPinnedServerKey (some Relay.Vector.publicKey) = some Relay.Vector.publicKey := by
    decide +kernel
  have hserved : fetchPublicKey foundation (registeredCall true).config.server
      (registeredCall true).reply = .ok Relay.Vector.publicKey := by decide +kernel
  have hexact : Exact foundation primitives (some Relay.Vector.publicKey)
      (.verify (registeredCall true)) := by
    intro data label k hdata _ _ hk _ _
    cases hdata
    cases hserved.symm.trans hk
    exact .inl rfl
  refine ⟨_, hrun, hread, fun pin' hr => ?_⟩
  exact (pin_integrity foundation primitives _).2.2 _ pin' _ hread hr (by simp)
    ⟨hexact, by simp [Machine.Meets]⟩

/-- Keys that are canonically equivalent replace one another, and a file that cannot be read is
overwritten with any other key. -/
theorem pin_replaced :
    composed ≠ decomposed ∧
    ((pinFile foundation primitives).exec none
        [.verify (honestCall composedDigest composed true)] = some (some composed) ∧
      readPinnedServerKey (some composed) = some composed ∧
      (pinFile foundation primitives).exec (some composed)
        [.verify (honestCall decomposedDigest decomposed true)] = some (some decomposed) ∧
      readPinnedServerKey (some decomposed) = some decomposed) ∧
    (pinFile foundation primitives).exec (some composed) [.verify (registeredCall false)] =
        some (some Relay.Vector.publicKey) ∧
      readPinnedServerKey (some Relay.Vector.publicKey) = some Relay.Vector.publicKey := by
  refine ⟨by decide, ⟨?_, ?_, ?_, ?_⟩, ?_, ?_⟩ <;> decide +kernel

end Runs

end HeadFwd.Ios
