import HeadFwd.Js.Url
import HeadFwd.Worker.Soundness
import Mathlib.Algebra.Order.Ring.Nat
import Mathlib.Data.Nat.SuccPred
import Mathlib.Tactic.Common

/-! # From a registration to its tunnel

`fetch` answers some paths itself and passes the other requests on to a tunnel
object, which is that of the fingerprint in the host name or one for local
development. The links of a registration made under a local host name lead to
neither. An object looks for the secret in the namespace, and compares with
`TUNNEL_SECRET` when none is bound; it does not look into the local maps.
-/

namespace HeadFwd.Worker

open Text Net Crypto Transition Js

/-- A request that arrives at the Worker. -/
structure FetchRequest where
  method : JsString
  url : JsString
  upgrade : Option JsString
  wsKey : Option JsString
  deriving DecidableEq, Repr

/-- Who answers a request: a handler of the Worker, or a tunnel object. -/
inductive Route where
  | health
  | registerInit
  | registerVerify
  | register
  | object (name : JsString)
  | landingPage
  | invalidSubdomain
  deriving DecidableEq, Repr

namespace FetchRequest

variable (r : FetchRequest)

def hostname : JsString := (parseUrl r.url).hostname

def pathname : JsString := (parseUrl r.url).pathname

/-- What `acceptTunnel` reads. -/
def dial : Dial where
  hostname := r.hostname
  auth := searchParam (parseUrl r.url).search (js "auth")
  upgrade := r.upgrade
  wsKey := r.wsKey

def fetch : Route :=
  if r.pathname = js "/health" then .health
  else if r.pathname = js "/api/register/init" ∧ r.method = js "POST" then .registerInit
  else if r.pathname = js "/api/register/verify" ∧ r.method = js "POST" then .registerVerify
  else if r.pathname = js "/api/register" ∧ r.method = js "POST" then .register
  else if r.hostname = js "localhost" ∨ r.hostname = js "127.0.0.1" then .object (js "local-dev")
  else
    match extractFingerprint r.hostname with
    | none => if r.hostname = js "headfwd.net" then .landingPage else .invalidSubdomain
    | some fingerprint => .object (ofAscii fingerprint)

/-- The Worker answers the request itself, whatever the host. -/
def Reserved : Prop :=
  r.pathname = js "/health" ∨ r.method = js "POST" ∧
    (r.pathname = js "/api/register/init" ∨ r.pathname = js "/api/register/verify" ∨
      r.pathname = js "/api/register")

/-- The request asks for a WebSocket. -/
def Upgrades : Prop := r.upgrade = some (js "websocket") ∨ r.wsKey.getD [] ≠ []

/-- The request reaches the object of a name, which takes it for its tunnel. -/
structure Tunnelled (env : Env) (kv : Versions Bytes Entry) (age : ℕ) (name : JsString) : Prop where
  routed : r.fetch = .object name
  path : r.pathname = js "/tunnel"
  accepted : acceptTunnel env kv r.dial age = .ok ()

end FetchRequest

/-- The URL of the request that opens a WebSocket. -/
def dialUrl (url : JsString) : JsString :=
  if (js "ws").isPrefixOf url then js "http" ++ url.drop 2 else url

/-- The namespace returns a registration with the secret. -/
def Serves (kv : Versions Bytes Entry) (fp : Bytes) (secret : JsString) (age : ℕ) : Prop :=
  ∃ r, (kv.read (tunnelKey fp) age).map Entry.record = some (.registration r) ∧
    r.secret = some secret

section Links

variable {fp : Bytes} {secret path : JsString} {dev : Bool}

/-- Lower-case hexadecimal text of 32 digits. -/
structure IsFingerprint (fp : Bytes) : Prop where
  length : fp.length = 32
  digits : ∀ b ∈ fp, ∃ n < 16, b = hexDigit n

theorem isFingerprint_computeFingerprint (P : Primitives) (pubkey : JsString) :
    IsFingerprint (computeFingerprint P pubkey) where
  length := by
    rw [computeFingerprint, List.length_take, length_encodeHex, P.length_sha256]
    rfl
  digits _ hb := hexDigit_of_mem_encodeHex (List.mem_of_mem_take hb)

theorem IsFingerprint.lt (h : IsFingerprint fp) : ∀ b ∈ fp, b < 0x80 := by
  intro b hb
  obtain ⟨n, hn, rfl⟩ := h.digits b hb
  exact hexDigit_lt hn

theorem IsFingerprint.notMem (h : IsFingerprint fp) {c : UInt8} (hc : ∀ n < 16, hexDigit n ≠ c) :
    c.toUInt16 ∉ ofAscii fp := by
  intro hm
  obtain ⟨n, hn, he⟩ := h.digits c (mem_ofAscii.mp hm)
  exact hc n hn he.symm

/-- The host of the links, without the port. -/
def linkHost (dev : Bool) (text : JsString) : JsString :=
  text ++ js (if dev then ".localhost" else ".headfwd.net")

theorem parseUrl_link (h : IsFingerprint fp) (hp : path = [] ∨ path.head? = some (unit '/')) :
    parseUrl (js (if dev then "http://" else "https://") ++
      (ofAscii fp ++ js "." ++ js (if dev then "localhost:8787" else "headfwd.net")) ++ path) =
      { hostname := linkHost dev (ofAscii fp)
        pathname := if path = [] then js "/" else path.takeWhile fun a => a ≠ unit '?'
        search := (path.dropWhile fun a => a ≠ unit '?').drop 1 } := by
  have hcolon : unit ':' ∉ ofAscii fp := h.notMem (c := chr ':') (by decide)
  have hslash : unit '/' ∉ ofAscii fp := h.notMem (c := chr '/') (by decide)
  cases dev with
  | false =>
    have hparts := @parseUrl_parts (js "https") (linkHost false (ofAscii fp)) [] path (by decide)
      (List.mem_append.not.mpr (not_or.mpr ⟨hcolon, by decide⟩))
      (List.mem_append.not.mpr (not_or.mpr ⟨hslash, by decide⟩)) (.inl rfl) List.not_mem_nil hp
    rw [← hparts]
    simp [linkHost, js]
  | true =>
    have hparts := @parseUrl_parts (js "http") (linkHost true (ofAscii fp)) (js ":8787") path
      (by decide) (List.mem_append.not.mpr (not_or.mpr ⟨hcolon, by decide⟩))
      (List.mem_append.not.mpr (not_or.mpr ⟨hslash, by decide⟩)) (.inr rfl) (by decide) hp
    rw [← hparts]
    simp [linkHost, js]

/-- Only the host of the domain has the fingerprint in it. -/
theorem extractFingerprint_linkHost (h : IsFingerprint fp) :
    extractFingerprint (linkHost dev (ofAscii fp)) = if dev then none else some fp := by
  have hlen : (ofAscii fp).length = 32 := (length_ofAscii fp).trans h.length
  have hdigit : ∀ n < 16, (hexUnit (hexDigit n).toUInt16).isSome = true ∧
      (lowerUnit (hexDigit n).toUInt16).toUInt8 = hexDigit n := by decide
  have hall : ((ofAscii fp).all fun a => (hexUnit a).isSome) = true := by
    rw [List.all_eq_true]
    intro a ha
    obtain ⟨b, hb, rfl⟩ := List.mem_map.mp ha
    obtain ⟨n, hn, rfl⟩ := h.digits b hb
    exact (hdigit n hn).1
  have hlower : (ofAscii fp).map (fun a => (lowerUnit a).toUInt8) = fp := by
    rw [ofAscii, List.map_map]
    conv_rhs => rw [← List.map_id fp]
    apply List.map_congr_left
    intro b hb
    obtain ⟨n, hn, rfl⟩ := h.digits b hb
    exact (hdigit n hn).2
  have htake : (linkHost dev (ofAscii fp)).take 32 = ofAscii fp := by
    rw [linkHost, ← hlen, List.take_left]
  have hdrop : (linkHost dev (ofAscii fp)).drop 32 =
      js (if dev then ".localhost" else ".headfwd.net") := by
    rw [linkHost, ← hlen, List.drop_left]
  rw [extractFingerprint, htake, hdrop]
  cases dev with
  | false => exact (if_pos ⟨hlen, hall, by decide⟩).trans (congrArg some hlower)
  | true => exact if_neg fun hc => absurd hc.2.2 (by decide)

end Links

namespace Registry

variable {P : Primitives} {env : Env} {now i : ℕ} {s s' : Registry} {a : RegistryAction}

/-- Challenges are kept under the fingerprint of their key, and so is what verify requests carry
on. -/
structure Named (P : Primitives) (s : Registry) : Prop where
  stored : ∀ fp e c, some e ∈ s.kv (challengeKey fp) → e.record = .challenge c →
    fp = computeFingerprint P c.publicKey
  kept : ∀ text c, s.localChallenges text = some c →
    text = ofAscii (computeFingerprint P c.1.publicKey)
  storing : ∀ i call fingerprint text publicKey,
    s.verifies i = some (.storing call fingerprint text publicKey) →
    text = ofAscii (computeFingerprint P publicKey)

theorem Named.initial : Registry.initial.Named P where
  stored := by simp [Registry.initial, Versions.empty]
  kept := by simp [Registry.initial, Table.empty]
  storing := by simp [Registry.initial, Table.empty]

/-- A step that adds nothing of these. -/
theorem Named.frame (h : s.Named P)
    (hk : ∀ fp e, some e ∈ s'.kv (challengeKey fp) → some e ∈ s.kv (challengeKey fp))
    (hl : ∀ text c, s'.localChallenges text = some c → s.localChallenges text = some c)
    (hv : ∀ i call fingerprint text publicKey,
      s'.verifies i = some (.storing call fingerprint text publicKey) →
      s.verifies i = some (.storing call fingerprint text publicKey)) : s'.Named P where
  stored fp e c he := h.stored fp e c (hk fp e he)
  kept text c hc := h.kept text c (hl text c hc)
  storing i call fingerprint text publicKey hi :=
    h.storing i call fingerprint text publicKey (hv i call fingerprint text publicKey hi)

/-- A verify request ends, or it has found a challenge with its fingerprint as text. -/
theorem verifyBegin_cases {call : Call} {age : ℕ} {ok : Bool}
    (h : s.verifyBegin P env now i call age ok = s') :
    ∃ l, (∀ text c, l text = some c → s.localChallenges text = some c) ∧
      ((∃ r, s' = { s with localChallenges := l }.finish i r) ∨
        ∃ fingerprint text c, s' = { s with
            localChallenges := l
            verifies := s.verifies.set i (.storing call fingerprint text c.publicKey) } ∧
          ((∃ e, some e ∈ s.kv (challengeKey (utf8 text)) ∧ e.record = .challenge c) ∨
            ∃ expiresAt, s.localChallenges text = some (c, expiresAt))) := by
  have hclean : ∀ text c, cleanupExpiredChallenges now s.localChallenges text = some c →
      s.localChallenges text = some c := fun text c hc => (Option.filter_eq_some_iff.mp hc).1
  unfold verifyBegin at h
  split at h
  · exact ⟨_, fun _ _ hc => hc, .inl ⟨_, h.symm⟩⟩
  · rename_i fingerprint proof hfields
    dsimp only at h
    by_cases hreg : env.registry = true
    · rw [if_pos hreg] at h
      split at h
      · exact ⟨_, fun _ _ hc => hc, .inl ⟨_, h.symm⟩⟩
      · rename_i text htext
        by_cases hok : (!ok) = true
        · rw [if_pos hok] at h
          exact ⟨_, fun _ _ hc => hc, .inl ⟨_, h.symm⟩⟩
        · rw [if_neg hok] at h
          split at h
          · exact ⟨_, fun _ _ hc => hc, .inl ⟨_, h.symm⟩⟩
          · exact ⟨_, fun _ _ hc => hc, .inl ⟨_, h.symm⟩⟩
          · rename_i c hread
            obtain ⟨e, hread, hrec⟩ := Option.map_eq_some_iff.mp hread
            split at h
            · exact ⟨_, fun _ _ hc => hc, .inl ⟨_, h.symm⟩⟩
            · exact ⟨s.localChallenges, fun _ _ hc => hc, .inr ⟨fingerprint, text, c, h.symm,
                .inl ⟨e, Versions.mem_of_read hread, hrec⟩⟩⟩
    · rw [if_neg hreg] at h
      split at h
      · rename_i text
        split at h
        · exact ⟨_, hclean, .inl ⟨_, h.symm⟩⟩
        · rename_i c expiresAt hc
          split at h
          · exact ⟨_, hclean, .inl ⟨_, h.symm⟩⟩
          · exact ⟨_, hclean, .inr ⟨.string text, text, c, h.symm,
              .inr ⟨expiresAt, hclean text _ hc⟩⟩⟩
      · exact ⟨_, hclean, .inl ⟨_, h.symm⟩⟩

theorem mem_put_tunnelKey {kv : Versions Bytes Entry} {fp fp' : Bytes} {e e' : Entry}
    (h : some e ∈ kv.put (tunnelKey fp') e' (challengeKey fp)) : some e ∈ kv (challengeKey fp) := by
  rcases Versions.mem_put.mp h with ⟨hk, -⟩ | h
  · exact absurd hk (challengeKey_ne_tunnelKey _ _)
  · exact h

theorem Named.step (h : s.Named P) (hs : s.step P env now a = some s') : s'.Named P := by
  cases a with
  | register call ok =>
    cases hs
    unfold register
    split
    · exact h.frame (fun _ _ he => he) (fun _ _ hc => hc) fun _ _ _ _ _ hi => hi
    · rename_i fp' registration r hr
      split_ifs
      · exact h.frame (fun _ _ he => he) (fun _ _ hc => hc) fun _ _ _ _ _ hi => hi
      · exact h.frame (fun _ _ he => he) (fun _ _ hc => hc) fun _ _ _ _ _ hi => hi
      · refine h.frame (fun fp e he => ?_) (fun _ _ hc => hc) fun _ _ _ _ _ hi => hi
        have hput : some e ∈ s.kv.put (tunnelKey fp') ⟨.registration registration, .register call⟩
            (challengeKey fp) := he
        exact mem_put_tunnelKey hput
  | init call random ephemeralPriv ok =>
    cases hs
    unfold init
    split
    · exact h.frame (fun _ _ he => he) (fun _ _ hc => hc) fun _ _ _ _ _ hi => hi
    · rename_i fp c expiresAt r hc
      have hfp := handleRegisterInit_eq_ok hc
      split_ifs
      · refine ⟨h.stored, fun text c' hc' => ?_, h.storing⟩
        rcases Table.set_eq_some_iff.mp hc' with ⟨rfl, rfl⟩ | ⟨-, hc'⟩
        · rw [hfp]
        · exact h.kept text c' hc'
      · exact h.frame (fun _ _ he => he) (fun _ _ hc => hc) fun _ _ _ _ _ hi => hi
      · refine ⟨fun fp' e c' he hrec => ?_, h.kept, h.storing⟩
        rcases Versions.mem_put.mp he with ⟨hk, rfl⟩ | he
        · cases hrec
          rw [challengeKey_inj.mp hk, hfp]
        · exact h.stored fp' e c' he hrec
  | verifyBegin j call age ok =>
    simp only [step] at hs
    split_ifs at hs
    obtain ⟨l, hl, ⟨r, hr⟩ | ⟨fingerprint, text, c, hc, hfound⟩⟩ :=
      verifyBegin_cases (Option.some.inj hs)
    · subst hr
      exact h.frame (fun _ _ he => he) hl fun _ _ _ _ _ hi => Table.of_set hi (by rintro ⟨⟩)
    · subst hc
      refine ⟨h.stored, fun text c hc => h.kept text c (hl text c hc), ?_⟩
      intro k call' fingerprint' text' publicKey hk
      rcases Table.set_eq_some_iff.mp hk with ⟨-, he⟩ | ⟨-, hk⟩
      · cases he
        rcases hfound with ⟨e, he, hrec⟩ | ⟨expiresAt, hlocal⟩
        · have hfp := h.stored _ e c he hrec
          have hascii : ∀ b ∈ utf8 text, b < 0x80 :=
            hfp ▸ (isFingerprint_computeFingerprint P c.publicKey).lt
          rw [← hfp, ofAscii_utf8 hascii]
        · exact h.kept text _ hlocal
      · exact h.storing k call' fingerprint' text' publicKey hk
  | verifyStore j random ok =>
    simp only [step, verifyStore] at hs
    split at hs
    · rename_i call fingerprint text publicKey hj
      split_ifs at hs
      · cases hs
        refine h.frame (fun _ _ he => he) (fun text c hc => ?_)
          fun _ _ _ _ _ hi => Table.of_set hi (by rintro ⟨⟩)
        exact (Table.erase_eq_some_iff.mp hc).2
      · cases hs
        exact h.frame (fun _ _ he => he) (fun _ _ hc => hc)
          fun _ _ _ _ _ hi => Table.of_set hi (by rintro ⟨⟩)
      · cases hs
        refine h.frame (fun fp e he => ?_) (fun _ _ hc => hc)
          fun _ _ _ _ _ hi => Table.of_set hi (by rintro ⟨⟩)
        have hput : some e ∈ s.kv.put (tunnelKey (utf8 text)) ⟨.registration ⟨.string publicKey,
            some (ofAscii (encodeHex random.val))⟩, .verify call⟩ (challengeKey fp) := he
        exact mem_put_tunnelKey hput
    · cases hs
  | verifyDelete j ok =>
    simp only [step, verifyDelete] at hs
    split at hs
    · split_ifs at hs
      · cases hs
        exact h.frame (fun _ _ he => he) (fun _ _ hc => hc)
          fun _ _ _ _ _ hi => Table.of_set hi (by rintro ⟨⟩)
      · cases hs
        exact h.frame (fun _ _ he => Versions.mem_delete.mp he) (fun _ _ hc => hc)
          fun _ _ _ _ _ hi => Table.of_set hi (by rintro ⟨⟩)
    · cases hs
  | expire key =>
    cases hs
    exact h.frame (fun _ _ he => Versions.mem_delete.mp he) (fun _ _ hc => hc)
      fun _ _ _ _ _ hi => hi

/-- The action neither registers the fingerprint again nor lets its registration expire. -/
def Leaves (P : Primitives) (env : Env) (s : Registry) (fp : Bytes) : RegistryAction → Prop
  | .register call _ => ∀ r, handleRegister P env call = .ok r → r.1 ≠ fp
  | .verifyStore i _ _ => ∀ call fingerprint text publicKey,
      s.verifies i = some (.storing call fingerprint text publicKey) → utf8 text ≠ fp
  | .expire key => key ≠ tunnelKey fp
  | _ => True

theorem put_of_ne {kv : Versions Bytes Entry} {k k' : Bytes} {e : Entry} (h : k' ≠ k) :
    kv.put k e k' = kv k' := Function.update_of_ne h _ _

theorem delete_of_ne {kv : Versions Bytes Entry} {k k' : Bytes} (h : k' ≠ k) :
    kv.delete k k' = kv k' := Function.update_of_ne h _ _

/-- Other registrations do not touch that of a fingerprint. -/
theorem Leaves.kv {fp : Bytes} (hl : s.Leaves P env fp a) (hs : s.step P env now a = some s') :
    s'.kv (tunnelKey fp) = s.kv (tunnelKey fp) := by
  cases a with
  | register call ok =>
    cases hs
    unfold register
    split
    · rfl
    · rename_i fp' registration r hr
      split_ifs
      · rfl
      · rfl
      · exact put_of_ne fun he => hl _ hr (tunnelKey_inj.mp he).symm
  | init call random ephemeralPriv ok =>
    cases hs
    unfold init
    split
    · rfl
    · rename_i fp' c expiresAt r hr
      split_ifs
      · rfl
      · rfl
      · exact put_of_ne (k := challengeKey fp') (e := ⟨.challenge c, .init call⟩)
          fun he => challengeKey_ne_tunnelKey _ _ he.symm
  | verifyBegin j call age ok =>
    simp only [step] at hs
    split_ifs at hs
    obtain ⟨l, -, ⟨r, hr⟩ | ⟨fingerprint, text, c, hc, -⟩⟩ := verifyBegin_cases (Option.some.inj hs)
    · subst hr
      rfl
    · subst hc
      rfl
  | verifyStore j random ok =>
    simp only [step, verifyStore] at hs
    split at hs
    · rename_i call fingerprint text publicKey hj
      split_ifs at hs
      · cases hs
        rfl
      · cases hs
        rfl
      · cases hs
        exact put_of_ne fun he => hl _ _ _ _ hj (tunnelKey_inj.mp he).symm
    · cases hs
  | verifyDelete j ok =>
    simp only [step, verifyDelete] at hs
    split at hs
    · rename_i call fingerprint text secret hj
      split_ifs at hs
      · cases hs
        rfl
      · cases hs
        exact delete_of_ne (k := challengeKey (utf8 text))
          fun he => challengeKey_ne_tunnelKey _ _ he.symm
    · cases hs
  | expire key =>
    cases hs
    exact delete_of_ne (Ne.symm hl)

/-- A verify request goes on by its own steps only. -/
theorem verifies_step {th : VerifyThread} (h : s.verifies i = some th)
    (hs : s.step P env now a = some s') : s'.verifies i = some th ∨
      (∃ random ok, a = .verifyStore i random ok) ∨ ∃ ok, a = .verifyDelete i ok := by
  have hother : ∀ {j th'}, j ≠ i → s'.verifies = s.verifies.set j th' → s'.verifies i = some th := by
    intro j th' hj hv
    rw [hv, Table.set_of_ne hj.symm, h]
  cases a with
  | register call ok =>
    cases hs
    unfold register
    split
    · exact .inl h
    · split_ifs <;> exact .inl h
  | init call random ephemeralPriv ok =>
    cases hs
    unfold init
    split
    · exact .inl h
    · split_ifs <;> exact .inl h
  | verifyBegin j call age ok =>
    simp only [step] at hs
    split_ifs at hs with hj
    have hne : j ≠ i := by
      rintro rfl
      simp [h] at hj
    left
    obtain ⟨l, -, ⟨r, hr⟩ | ⟨_, _, c, hc, -⟩⟩ := verifyBegin_cases (Option.some.inj hs)
    · subst hr
      exact hother hne rfl
    · subst hc
      exact hother hne rfl
  | verifyStore j random ok =>
    by_cases hne : j = i
    · exact .inr (.inl ⟨random, ok, by rw [hne]⟩)
    · left
      simp only [step, verifyStore] at hs
      split at hs
      · split_ifs at hs <;> cases hs <;> exact hother hne rfl
      · cases hs
  | verifyDelete j ok =>
    by_cases hne : j = i
    · exact .inr (.inr ⟨ok, by rw [hne]⟩)
    · left
      simp only [step, verifyDelete] at hs
      split at hs
      · split_ifs at hs <;> cases hs <;> exact hother hne rfl
      · cases hs
  | expire key =>
    cases hs
    exact .inl h

/-- What has been replied is replied for good. -/
theorem finished_step {r : Reply} (h : s.verifies i = some (.finished r))
    (hs : s.step P env now a = some s') : s'.verifies i = some (.finished r) := by
  rcases verifies_step h hs with h' | ⟨random, ok, rfl⟩ | ⟨ok, rfl⟩
  · exact h'
  · simp [step, verifyStore, h] at hs
  · simp [step, verifyDelete, h] at hs

/-- The request is about to send this reply, or has sent it or an error. -/
def Owes (s : Registry) (i : ℕ) (call : Call) (fingerprint : JsValue) (text : JsString)
    (secret : Bytes) : Prop :=
  s.verifies i = some (.deleting call fingerprint text secret) ∨
    s.verifies i = some (.finished (registered call fingerprint text (ofAscii secret))) ∨
    s.verifies i = some (.finished invalidRequest)

theorem Owes.step {call : Call} {fingerprint : JsValue} {text : JsString} {secret : Bytes}
    (h : s.Owes i call fingerprint text secret) (hs : s.step P env now a = some s') :
    s'.Owes i call fingerprint text secret := by
  rcases h with h | h | h
  · rcases verifies_step h hs with h' | ⟨random, ok, rfl⟩ | ⟨ok, rfl⟩
    · exact .inl h'
    · simp [Registry.step, verifyStore, h] at hs
    · simp only [Registry.step, verifyDelete, h] at hs
      split_ifs at hs
      · cases hs
        exact .inr (.inr Table.set_self)
      · cases hs
        exact .inr (.inl Table.set_self)
  · exact .inr (.inl (finished_step h hs))
  · exact .inr (.inr (finished_step h hs))

end Registry

section Requests

variable {env : Env} {call : Call} {value : JsValue} {fp : Bytes} {tunnelUrl publicUrl : JsString}
  {r : FetchRequest} {secret : Bytes} {kv : Versions Bytes Entry} {age : ℕ}

theorem fetch_of_not_reserved (h : IsFingerprint fp) {dev : Bool}
    (hh : r.hostname = linkHost dev (ofAscii fp)) (hr : ¬ r.Reserved) :
    r.fetch = if dev then .invalidSubdomain else .object (ofAscii fp) := by
  have hlen : ∀ t : JsString, t.length < 32 → r.hostname ≠ t := by
    intro t ht he
    have hle := congrArg List.length he
    rw [hh, linkHost, List.length_append, length_ofAscii, h.length] at hle
    omega
  simp only [FetchRequest.Reserved, not_or, not_and] at hr
  obtain ⟨hhealth, hpost⟩ := hr
  rw [FetchRequest.fetch, if_neg hhealth, if_neg (fun hc => (hpost hc.2).1 hc.1),
    if_neg (fun hc => (hpost hc.2).2.1 hc.1), if_neg (fun hc => (hpost hc.2).2.2 hc.1),
    if_neg (not_or.mpr ⟨hlen _ (by decide), hlen _ (by decide)⟩), hh,
    extractFingerprint_linkHost h]
  cases dev with
  | false => rfl
  | true => exact if_neg (hh ▸ hlen _ (by decide))

theorem fetch_of_reserved (hr : r.Reserved) (name : JsString) : r.fetch ≠ .object name := by
  have hne : ∀ {s t : JsString}, r.pathname = s → s ≠ t → ¬ (r.pathname = t ∧ r.method = js "POST") :=
    fun hs ht hc => ht (hs.symm.trans hc.1)
  unfold FetchRequest.fetch
  rcases hr with hp | ⟨hm, hp | hp | hp⟩
  · rw [if_pos hp]
    rintro ⟨⟩
  · rw [if_neg (by rw [hp]; decide), if_pos ⟨hp, hm⟩]
    rintro ⟨⟩
  · rw [if_neg (by rw [hp]; decide), if_neg (hne hp (by decide)), if_pos ⟨hp, hm⟩]
    rintro ⟨⟩
  · rw [if_neg (by rw [hp]; decide), if_neg (hne hp (by decide)), if_neg (hne hp (by decide)),
      if_pos ⟨hp, hm⟩]
    rintro ⟨⟩

/-- A request to the public link gets to the object of the fingerprint, unless the host is local or
the Worker answers it itself. -/
theorem fetch_publicUrl_iff (h : IsFingerprint fp) {path : JsString}
    (hp : path = [] ∨ path.head? = some (unit '/')) {s : JsString}
    (hu : .registered value tunnelUrl publicUrl = registered call value (ofAscii fp) s)
    (hr : r.url = publicUrl ++ path) :
    r.fetch = .object (ofAscii fp) ↔ isLocal call.hostname = false ∧ ¬ r.Reserved := by
  cases hu
  have hh : r.hostname = linkHost (isLocal call.hostname) (ofAscii fp) := by
    rw [FetchRequest.hostname, hr]
    exact congrArg Url.hostname (parseUrl_link h hp)
  by_cases hres : r.Reserved
  · exact iff_of_false (fetch_of_reserved hres _) fun hc => hc.2 hres
  · rw [fetch_of_not_reserved h hh hres]
    cases isLocal call.hostname with
    | false => exact iff_of_true rfl ⟨rfl, hres⟩
    | true => exact iff_of_false (by rintro ⟨⟩) fun hc => absurd hc.1 (by decide)

theorem dialUrl_tunnelUrl {dev : Bool} (t : JsString) :
    dialUrl (js (if dev then "ws://" else "wss://") ++ t) =
      js (if dev then "http://" else "https://") ++ t := by
  have hpre : (js "ws").isPrefixOf (js (if dev then "ws://" else "wss://") ++ t) = true := by
    rw [List.isPrefixOf_iff_prefix]
    cases dev with
    | false => exact ⟨js "s://" ++ t, rfl⟩
    | true => exact ⟨js "://" ++ t, rfl⟩
  rw [dialUrl, if_pos hpre]
  cases dev <;> rfl

theorem acceptTunnel_eq_ok_iff (hw : r.Upgrades) :
    acceptTunnel env kv r.dial age = .ok () ↔ authorised env kv r.dial age = true := by
  have hup : ¬ (r.dial.upgrade ≠ some (js "websocket") ∧ r.dial.wsKey.getD [] = []) := by
    rintro ⟨hu, hk⟩
    exact hw.elim hu fun h => h hk
  rw [acceptTunnel, if_neg hup]
  cases authorised env kv r.dial age with
  | false => exact iff_of_false (by rintro ⟨⟩) (by rintro ⟨⟩)
  | true => exact iff_of_true rfl rfl

/-- The secret is looked for in the namespace, or in the environment if there is none. -/
theorem authorised_iff {dial : Dial} (hf : extractFingerprint dial.hostname = some fp)
    {secret : JsString} (ha : dial.auth = some secret) (hne : secret ≠ []) :
    authorised env kv dial age = true ↔
      if env.registry then Serves kv fp secret age else env.tunnelSecret = some secret := by
  rw [authorised, ha, hf]
  simp only [hne, ne_eq, not_false_eq_true, decide_true, Bool.true_and]
  cases env.registry with
  | false => simpa using eq_comm
  | true =>
    dsimp only
    rw [if_pos rfl, Serves]
    split
    · rename_i publicKey auth hread
      rw [hread]
      constructor
      · intro h
        simp only [Bool.and_eq_true, decide_eq_true_eq] at h
        exact ⟨_, rfl, congrArg some h.2⟩
      · rintro ⟨r, hr, hs⟩
        cases hr
        cases hs
        simp [hne]
    · rename_i hno
      apply iff_of_false (by simp)
      rintro ⟨⟨publicKey, auth⟩, hr, hs⟩
      obtain rfl : auth = some secret := hs
      exact hno publicKey secret hr

/-- A dial of the tunnel link gets to the object of the fingerprint and is accepted exactly when the
host is not local and the object finds the secret. -/
theorem tunnelled_tunnelUrl_iff (h : IsFingerprint fp) (hn : secret ≠ [])
    (hd : ∀ b ∈ secret, ∃ n < 16, b = hexDigit n)
    (hu : .registered value tunnelUrl publicUrl = registered call value (ofAscii fp) (ofAscii secret))
    (hr : r.url = dialUrl tunnelUrl) (hw : r.Upgrades) :
    r.Tunnelled env kv age (ofAscii fp) ↔ isLocal call.hostname = false ∧
      if env.registry then Serves kv fp (ofAscii secret) age
      else env.tunnelSecret = some (ofAscii secret) := by
  cases hu
  have hplain : ∀ {c : UInt8}, (∀ n < 16, hexDigit n ≠ c) → c ∉ secret := by
    intro c hc hm
    obtain ⟨n, hn, he⟩ := hd c hm
    exact hc n hn he.symm
  have hascii : ∀ b ∈ secret, b < 0x80 := by
    intro b hb
    obtain ⟨n, hn, rfl⟩ := hd b hb
    exact hexDigit_lt hn
  have hurl : r.url = js (if isLocal call.hostname then "http://" else "https://") ++
      (ofAscii fp ++ js "." ++ js (if isLocal call.hostname then "localhost:8787" else "headfwd.net")) ++
      (js "/tunnel?auth=" ++ ofAscii secret) := by
    rw [hr, List.append_assoc, List.append_assoc, dialUrl_tunnelUrl]
    simp only [List.append_assoc]
  have hquestion : js "/tunnel?auth=" ++ ofAscii secret =
      js "/tunnel" ++ unit '?' :: (js "auth=" ++ ofAscii secret) := rfl
  have hparse := @parseUrl_link fp (js "/tunnel?auth=" ++ ofAscii secret) (isLocal call.hostname) h
    (.inr rfl)
  rw [← hurl, if_neg (by simp [js]), hquestion, takeWhile_append_unit (by decide),
    dropWhile_append_unit (by decide)] at hparse
  have hh : r.hostname = linkHost (isLocal call.hostname) (ofAscii fp) := by
    rw [FetchRequest.hostname, hparse]
  have hp : r.pathname = js "/tunnel" := by rw [FetchRequest.pathname, hparse]
  have ha : r.dial.auth = some (ofAscii secret) := by
    have hsearch : (parseUrl r.url).search = js "auth=" ++ ofAscii secret := by
      rw [hparse]
      simp
    rw [FetchRequest.dial, hsearch]
    exact searchParam_ofAscii hascii (hplain (by decide)) (hplain (by decide)) (hplain (by decide))
  have hres : ¬ r.Reserved := by
    rw [FetchRequest.Reserved, hp]
    rintro (hc | ⟨-, hc | hc | hc⟩) <;> exact absurd hc (by decide)
  have hne : ofAscii secret ≠ [] := fun he => hn (List.map_eq_nil_iff.mp he)
  have hfetch := fetch_of_not_reserved h hh hres
  cases hlocal : isLocal call.hostname with
  | true =>
    rw [hlocal] at hfetch
    refine iff_of_false (fun ht => ?_) fun hc => absurd hc.1 (by decide)
    cases hfetch.symm.trans ht.routed
  | false =>
    rw [hlocal] at hfetch hh
    have hf : extractFingerprint r.dial.hostname = some fp :=
      (congrArg extractFingerprint hh).trans (extractFingerprint_linkHost h)
    rw [← authorised_iff hf ha hne, ← acceptTunnel_eq_ok_iff hw]
    exact ⟨fun ht => ⟨rfl, ht.accepted⟩, fun hc => ⟨hfetch, hp, hc.2⟩⟩

end Requests

theorem named_of_reachable {P : Primitives} {env : Env} {s : ℕ × Registry}
    (hr : (registry P env).Reachable s) : s.2.Named P := by
  apply hr.invariant
  · rintro ⟨now, s⟩ rfl
    exact Registry.Named.initial
  · intro s a s' _ _ hs h
    obtain ⟨-, -, hs⟩ := Machine.timed_step.mp hs
    exact h.step hs

theorem kv_of_leaves {P : Primitives} {env : Env} {fp : Bytes} {s s' : ℕ × Registry}
    {as : List (ℕ × RegistryAction)} (h : (registry P env).exec s as = some s')
    (hm : (registry P env).Meets (fun s a => s.2.Leaves P env fp a.2) s as) :
    s'.2.kv (tunnelKey fp) = s.2.kv (tunnelKey fp) := by
  induction as generalizing s with
  | nil =>
    cases h
    rfl
  | cons a as ih =>
    obtain ⟨t, ht, h⟩ := Option.bind_eq_some_iff.mp h
    obtain ⟨-, -, hstep⟩ := Machine.timed_step.mp ht
    exact (ih h (hm.2 t ht)).trans (hm.1.kv hstep)

/-- The links of a registration work exactly when it was not made under a local host and its object
finds the secret. From when the secret is stored, in any state in which the links have been replied:
a dial of the tunnel link is accepted by the object of the fingerprint exactly then; the current
state of the namespace holds the secret as long as the fingerprint is not registered again; and
requests to the public link that the Worker does not answer itself get to the object of the
fingerprint exactly when the host was not local. -/
theorem links_work_iff {P : Primitives} {env : Env} {s s₁ s₂ : ℕ × Registry}
    (hreach : (registry P env).Reachable s) {now i : ℕ} {random : Random} {ok : Bool} {call : Call}
    {fingerprint value : JsValue} {text publicKey tunnelUrl publicUrl : JsString}
    (hi : s.2.verifies i = some (.storing call fingerprint text publicKey))
    (hs : (registry P env).step s (now, .verifyStore i random ok) = some s₁)
    {as : List (ℕ × RegistryAction)} (hrun : (registry P env).exec s₁ as = some s₂)
    (hreply : s₂.2.verifies i = some (.finished (.registered value tunnelUrl publicUrl))) :
    let secret := ofAscii (encodeHex random.val)
    (∀ (r : FetchRequest) age, r.url = dialUrl tunnelUrl → r.Upgrades →
      (r.Tunnelled env s₂.2.kv age text ↔ isLocal call.hostname = false ∧
        if env.registry then Serves s₂.2.kv (utf8 text) secret age
        else env.tunnelSecret = some secret)) ∧
    (env.registry = true →
      (registry P env).Meets (fun s a => s.2.Leaves P env (utf8 text) a.2) s₁ as →
      Serves s₂.2.kv (utf8 text) secret 0) ∧
    ∀ (r : FetchRequest) path, (path = [] ∨ path.head? = some (unit '/')) →
      r.url = publicUrl ++ path →
      (r.fetch = .object text ↔ isLocal call.hostname = false ∧ ¬ r.Reserved) := by
  intro secret
  obtain rfl := (named_of_reachable hreach).storing i call fingerprint text publicKey hi
  have hfp := isFingerprint_computeFingerprint P publicKey
  rw [utf8_ofAscii hfp.lt]
  obtain ⟨-, -, hstep⟩ := Machine.timed_step.mp hs
  have howes : s₁.2.Owes i call fingerprint (ofAscii (computeFingerprint P publicKey))
      (encodeHex random.val) ∧ (s₁.2.verifies i = some (.finished invalidRequest) ∨
        (env.registry = true → Serves s₁.2.kv (computeFingerprint P publicKey) secret 0)) := by
    simp only [Registry.step, Registry.verifyStore, hi, utf8_ofAscii hfp.lt] at hstep
    split_ifs at hstep with hreg hok
    · rw [← Option.some.inj hstep]
      exact ⟨.inr (.inl Table.set_self), .inr fun hc => by simp [hc] at hreg⟩
    · rw [← Option.some.inj hstep]
      exact ⟨.inr (.inr Table.set_self), .inl Table.set_self⟩
    · rw [← Option.some.inj hstep]
      refine ⟨.inl Table.set_self, .inr fun _ => ⟨⟨.string publicKey, some secret⟩, ?_, rfl⟩⟩
      simp [Versions.read, Versions.put, secret]
  obtain ⟨howes, hstored⟩ := howes
  have howes₂ : s₂.2.Owes i call fingerprint (ofAscii (computeFingerprint P publicKey))
      (encodeHex random.val) := by
    refine Machine.exec_invariant (Q := fun s : ℕ × Registry => s.2.Owes i call fingerprint
      (ofAscii (computeFingerprint P publicKey)) (encodeHex random.val)) ?_ howes hrun
    intro s a s' _ hs h
    obtain ⟨-, -, hs⟩ := Machine.timed_step.mp hs
    exact h.step hs
  have hsuccess : s₁.2.verifies i ≠ some (.finished invalidRequest) := by
    intro h
    have h₂ : s₂.2.verifies i = some (.finished invalidRequest) := by
      refine Machine.exec_invariant (Q := fun s : ℕ × Registry =>
        s.2.verifies i = some (.finished invalidRequest)) ?_ h hrun
      intro s a s' _ hs h
      obtain ⟨-, -, hs⟩ := Machine.timed_step.mp hs
      exact Registry.finished_step h hs
    cases h₂.symm.trans hreply
  have hlinks : Reply.registered value tunnelUrl publicUrl = registered call value
      (ofAscii (computeFingerprint P publicKey)) secret := by
    rcases howes₂ with h | h | h
    · cases h.symm.trans hreply
    · cases h.symm.trans hreply
      rfl
    · cases h.symm.trans hreply
  have hne : encodeHex random.val ≠ [] := by
    apply List.ne_nil_of_length_pos
    rw [length_encodeHex, random.property]
    decide
  refine ⟨fun r age hr hw => ?_, fun hreg hm => ?_, fun r path hp hr => ?_⟩
  · exact tunnelled_tunnelUrl_iff hfp hne (fun b hb => hexDigit_of_mem_encodeHex hb) hlinks hr hw
  · obtain ⟨reg, hread, hsecret⟩ := hstored.resolve_left hsuccess hreg
    refine ⟨reg, ?_, hsecret⟩
    rw [← hread, Versions.read, Versions.read, kv_of_leaves hrun hm]
  · exact fetch_publicUrl_iff hfp hp hlinks hr

/-- The links that have been replied. -/
def VerifyThread.links : VerifyThread → Option (JsString × JsString)
  | .finished (.registered _ tunnelUrl publicUrl) => some (tunnelUrl, publicUrl)
  | _ => none

/-- The host name and the fingerprint of a request that is about to store its secret. -/
def VerifyThread.stores : VerifyThread → Option (JsString × JsString)
  | .storing call _ text _ => some (call.hostname, text)
  | _ => none

namespace Vector

theorem length_nonce : (List.replicate 32 (3 : UInt8)).length = 32 := rfl

theorem length_ephemeralPriv : Relay.Vector.ephemeralPriv.length = 32 := rfl

theorem length_secret : (List.replicate 32 (4 : UInt8)).length = 32 := rfl

/-- A registration up to the secret, made under a host name. -/
def proveRun (hostname : JsString) : List (ℕ × RegistryAction) :=
  [(0, .init { post [(js "publicKey", publicKey)] with hostname }
      ⟨List.replicate 32 3, length_nonce⟩ ⟨Relay.Vector.ephemeralPriv, length_ephemeralPriv⟩ true),
    (1, .verifyBegin 0 { verifyCall with hostname } 0 true)]

def store : ℕ × RegistryAction := (2, .verifyStore 0 ⟨List.replicate 32 4, length_secret⟩ true)

def unbound : Env where
  registry := false
  tunnelSecret := some (js "secret")

def dialOf (tunnelUrl : JsString) : FetchRequest where
  method := js "GET"
  url := dialUrl tunnelUrl
  upgrade := some (js "websocket")
  wsKey := none

end Vector

theorem links_work_registrationRun :
    ∃ s tunnelUrl publicUrl,
      (registry Vector.primitives Vector.bound).exec (0, Registry.initial)
        (Vector.proveRun (js "headfwd.net") ++ [Vector.store, (3, .verifyDelete 0 true)]) = some s ∧
      (s.2.verifies 0).bind VerifyThread.links = some (tunnelUrl, publicUrl) ∧
      (Vector.dialOf tunnelUrl).Tunnelled Vector.bound s.2.kv 0 (ofAscii Relay.Vector.fingerprint) := by
  have h : ((registry Vector.primitives Vector.bound).exec (0, Registry.initial)
      (Vector.proveRun (js "headfwd.net"))).any (fun s =>
        (s.2.verifies 0).bind VerifyThread.stores =
          some (js "headfwd.net", ofAscii Relay.Vector.fingerprint) ∧
        ((registry Vector.primitives Vector.bound).step s Vector.store).any fun s₁ =>
          ((registry Vector.primitives Vector.bound).exec s₁ [(3, .verifyDelete 0 true)]).any fun s₂ =>
            ((s₂.2.verifies 0).bind VerifyThread.links).isSome) = true := by decide +kernel
  simp only [Option.any_eq_true, decide_eq_true_eq] at h
  obtain ⟨s, hs, hstores, s₁, hs₁, s₂, hs₂, hlinks⟩ := h
  obtain ⟨⟨tunnelUrl, publicUrl⟩, hlinks⟩ := Option.isSome_iff_exists.mp hlinks
  have h₀ : (registry Vector.primitives Vector.bound).init (0, Registry.initial) := rfl
  have hreach : (registry Vector.primitives Vector.bound).Reachable s :=
    .exec (fun _ _ _ => trivial) (.init h₀) hs
  refine ⟨s₂, tunnelUrl, publicUrl, ?_, hlinks, ?_⟩
  · refine Machine.exec_append.mpr ⟨s, hs, ?_⟩
    rw [Machine.exec_cons, hs₁, Option.bind_some, hs₂]
  · obtain ⟨th, hth, hstores⟩ := Option.bind_eq_some_iff.mp hstores
    obtain ⟨th₂, hth₂, hlinks⟩ := Option.bind_eq_some_iff.mp hlinks
    cases th with
    | storing call fingerprint text publicKey =>
      obtain ⟨hhost, rfl⟩ := Prod.mk.injEq .. ▸ Option.some.inj hstores
      cases th₂ with
      | finished r =>
        cases r with
        | registered value t p =>
          cases hlinks
          obtain ⟨hdial, hserves, -⟩ := links_work_iff hreach hth hs₁ hs₂ hth₂
          refine (hdial _ 0 rfl (.inl rfl)).mpr ⟨?_, ?_⟩
          · rw [hhost]
            decide
          · exact hserves rfl ⟨trivial, fun _ _ => trivial⟩
        | _ => cases hlinks
      | _ => cases hlinks
    | _ => cases hstores

/-- Without the namespace the tunnel link of a local registration leads to no object, and that of
another one to an object that does not accept the secret. -/
theorem links_fail :
    (∃ s tunnelUrl publicUrl,
      (registry Vector.primitives Vector.unbound).exec (0, Registry.initial)
        (Vector.proveRun (js "localhost") ++ [Vector.store]) = some s ∧
      (s.2.verifies 0).bind VerifyThread.links = some (tunnelUrl, publicUrl) ∧
      (Vector.dialOf tunnelUrl).fetch = .invalidSubdomain) ∧
    ∃ s tunnelUrl publicUrl,
      (registry Vector.primitives Vector.unbound).exec (0, Registry.initial)
        (Vector.proveRun (js "headfwd.net") ++ [Vector.store]) = some s ∧
      (s.2.verifies 0).bind VerifyThread.links = some (tunnelUrl, publicUrl) ∧
      (Vector.dialOf tunnelUrl).fetch = .object (ofAscii Relay.Vector.fingerprint) ∧
      acceptTunnel Vector.unbound s.2.kv (Vector.dialOf tunnelUrl).dial 0 =
        .error ⟨str "Unauthorized", 401⟩ := by
  have hlocal : ((registry Vector.primitives Vector.unbound).exec (0, Registry.initial)
      (Vector.proveRun (js "localhost") ++ [Vector.store])).any (fun s =>
        ((s.2.verifies 0).bind VerifyThread.links).any fun l =>
          (Vector.dialOf l.1).fetch = .invalidSubdomain) = true := by decide +kernel
  have hremote : ((registry Vector.primitives Vector.unbound).exec (0, Registry.initial)
      (Vector.proveRun (js "headfwd.net") ++ [Vector.store])).any (fun s =>
        ((s.2.verifies 0).bind VerifyThread.links).any fun l =>
          (Vector.dialOf l.1).fetch = .object (ofAscii Relay.Vector.fingerprint) ∧
          acceptTunnel Vector.unbound s.2.kv (Vector.dialOf l.1).dial 0 =
            .error ⟨str "Unauthorized", 401⟩) = true := by decide +kernel
  simp only [Option.any_eq_true, decide_eq_true_eq] at hlocal hremote
  obtain ⟨s, hs, ⟨t, p⟩, hl, hf⟩ := hlocal
  obtain ⟨s', hs', ⟨t', p'⟩, hl', hf', ha⟩ := hremote
  exact ⟨⟨s, t, p, hs, hl, hf⟩, s', t', p', hs', hl', hf', ha⟩

end HeadFwd.Worker
