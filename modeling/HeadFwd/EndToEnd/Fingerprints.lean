import HeadFwd.EndToEnd.Agreement
import HeadFwd.Ios.Verifier
import HeadFwd.Relay.Credentials
import HeadFwd.Worker.Routing

/-! # Fingerprints

Four programs compute the fingerprint of a server key. The app cuts the digest
before it writes it out in hexadecimal digits, the others cut the digits, and the
Worker and the app write out one byte at a time. All get the same 32 digits, which
both relays find in a host name and the app in a URL.
-/

namespace HeadFwd.EndToEnd

open Text Crypto Js

/-- The hexadecimal digits of a byte, without leading zeros. -/
def hexDigits (b : UInt8) : List Char := Nat.toDigits 16 b.toNat

section Worker

/-- `b.toString(16)`. -/
def toString16 (b : UInt8) : JsString := (hexDigits b).map fun c => UInt16.ofNat c.toNat

/-- Repetitions of the filling, cut off where they are long enough, come before the string. -/
def padStart (s : JsString) (maxLength : ℕ) (fillString : JsString) : JsString :=
  if maxLength ≤ s.length ∨ fillString = [] then s
  else
    let fillLen := maxLength - s.length
    (List.replicate fillLen fillString).flatten.take fillLen ++ s

def substring (s : JsString) (start stop : ℕ) : JsString :=
  (s.take (max start stop)).drop (min start stop)

def workerFingerprint (P : Primitives) (pubkey : JsString) : JsString :=
  let data := utf8 pubkey
  let hashArray := P.sha256 data
  let fullHex := (hashArray.map fun b => padStart (toString16 b) 2 (js "0")).flatten
  substring fullHex 0 32

end Worker

section Ios

/-- `String(format: "%02x", b)`. -/
def format02x (b : UInt8) : Bytes :=
  let digits := (hexDigits b).map fun c => UInt8.ofNat c.toNat
  List.replicate (2 - digits.length) (chr '0') ++ digits

def iosFingerprint (P : Primitives) (key : Bytes) : Bytes :=
  (((P.sha256 key).take 16).map format02x).flatten

end Ios

/-- Every byte is padded to the two digits of its halves. -/
theorem padStart_toString16 : ∀ b : UInt8, padStart (toString16 b) 2 (js "0") =
    ofAscii [hexDigit (b.toNat / 16), hexDigit (b.toNat % 16)] := by
  apply forall_byte
  decide +kernel

theorem format02x_eq : ∀ b : UInt8, format02x b =
    [hexDigit (b.toNat / 16), hexDigit (b.toNat % 16)] := by
  apply forall_byte
  decide +kernel

/-- Text made of two digits for each byte. -/
theorem flatten_pairs {α : Type*} (f : UInt8 → α) (s : Bytes) :
    (s.map fun b => [f (hexDigit (b.toNat / 16)), f (hexDigit (b.toNat % 16))]).flatten =
      (encodeHex s).map f := by
  induction s with
  | nil => rfl
  | cons b s ih =>
    rw [List.map_cons, List.flatten_cons, ih]
    rfl

/-- Cutting the bytes cuts twice as many digits. -/
theorem encodeHex_take (n : ℕ) (s : Bytes) : encodeHex (s.take n) = (encodeHex s).take (2 * n) := by
  induction n generalizing s with
  | zero => rfl
  | succ n ih =>
    cases s with
    | nil => simp [encodeHex]
    | cons b s =>
      rw [List.take_succ_cons, encodeHex, ih s, encodeHex, Nat.mul_succ, List.take_succ_cons,
        List.take_succ_cons]

variable (P : Primitives)

theorem computeFingerprint_eq_take (s : Bytes) :
    Relay.computeFingerprint P s = (encodeHex (P.sha256 s)).take 32 := by
  have hlong : ¬ (encodeHex (P.sha256 s)).length < 32 := by
    rw [length_encodeHex, P.length_sha256]
    decide
  exact if_neg hlong

theorem workerFingerprint_eq (key : JsString) :
    workerFingerprint P key = ofAscii (Relay.computeFingerprint P (utf8 key)) := by
  have hpairs : ((P.sha256 (utf8 key)).map fun b => padStart (toString16 b) 2 (js "0")).flatten =
      ofAscii (encodeHex (P.sha256 (utf8 key))) := by
    simp only [padStart_toString16]
    exact flatten_pairs UInt8.toUInt16 (P.sha256 (utf8 key))
  rw [workerFingerprint, hpairs, substring, computeFingerprint_eq_take, ofAscii, ofAscii,
    List.map_take]
  rfl

theorem iosFingerprint_eq (s : Bytes) : iosFingerprint P s = Relay.computeFingerprint P s := by
  have hpairs := flatten_pairs id ((P.sha256 s).take 16)
  rw [List.map_id] at hpairs
  rw [iosFingerprint, funext format02x_eq, computeFingerprint_eq_take, ← encodeHex_take 16]
  exact hpairs

/-- The fingerprints of the registration of the Worker and of the check of the app are these. -/
theorem computeFingerprint_eq_all (key : JsString) :
    ofAscii (Worker.computeFingerprint P key) = workerFingerprint P key ∧
      Ios.computeFingerprint P (utf8 key) = iosFingerprint P (utf8 key) := by
  rw [workerFingerprint_eq, iosFingerprint_eq, computeFingerprint_eq_take]
  exact ⟨rfl, encodeHex_take 16 _⟩

/-- The keys of the Worker are those that the other programs have as valid UTF-8. -/
theorem validUtf8_iff_exists (s : Bytes) : ValidUtf8 s ↔ ∃ key, utf8 key = s := by
  constructor
  · intro h
    exact ⟨_, utf8_decodeUtf8 h⟩
  · rintro ⟨key, rfl⟩
    exact validUtf8_utf8 key

section Checks

variable {fp : Bytes}

theorem fingerprintRe_append (hl : fp.length = 32)
    (hf : ∀ b ∈ fp, Relay.isFingerprintByte b = true) (rest : Bytes) :
    Relay.fingerprintRe (fp ++ chr '.' :: rest) =
      if rest ≠ [] ∧ chr '\n' ∉ rest then some (fp, rest) else none := by
  have htake : (fp ++ chr '.' :: rest).take 32 = fp := by rw [← hl, List.take_left]
  have hdrop : (fp ++ chr '.' :: rest).drop 32 = chr '.' :: rest := by rw [← hl, List.drop_left]
  have hall : fp.all Relay.isFingerprintByte = true := List.all_eq_true.mpr hf
  rw [Relay.fingerprintRe, htake, hdrop]
  simp only [hall, true_and]

theorem runes_eq_map {s : Bytes} (h : ∀ b ∈ s, b < 0x80) : runes s = s.map Rune.ascii := by
  induction s with
  | nil => rfl
  | cons b s ih =>
    rw [List.forall_mem_cons] at h
    rw [runes_ascii h.1, ih h.2, List.map_cons]

theorem parseFingerprint_of_host {F : Ios.Foundation} (h : Worker.IsFingerprint fp)
    {server rest : Bytes} (hhost : F.url server = some (some (fp ++ chr '.' :: rest))) :
    Ios.parseFingerprint F server = .ok fp := by
  have hdot : chr '.' ∉ fp := by
    intro hm
    obtain ⟨n, hn, he⟩ := h.digits _ hm
    have hne : ∀ {n : ℕ}, n < 16 → chr '.' ≠ hexDigit n := by decide
    exact hne hn he
  have hlabel : Ios.firstLabel (fp ++ chr '.' :: rest) = fp := by
    rw [Ios.firstLabel, Net.splitByte_append hdot]
    rfl
  have hrunes : runes fp = fp.map Rune.ascii := runes_eq_map h.lt
  have hcount : (runes fp).length = 32 := by rw [hrunes, List.length_map, h.length]
  have hdigit : (runes fp).all Ios.isHexDigit = true := by
    rw [hrunes, List.all_eq_true]
    intro r hr
    obtain ⟨b, hb, rfl⟩ := List.mem_map.mp hr
    obtain ⟨n, hn, rfl⟩ := h.digits b hb
    rw [Ios.isHexDigit, hexVal_hexDigit hn]
    rfl
  unfold Ios.parseFingerprint
  rw [hhost]
  simp only [hlabel, hcount, hdigit, and_self, if_true]

end Checks

/-- The programs compute the same 32 characters from every key, whichever of them can hold it. The
regular expressions of the relays match them before any domain, and the app takes them for the
fingerprint of a server whose host they begin. -/
theorem fingerprints_agree (F : Ios.Foundation) :
    (∀ s, ValidUtf8 s ↔ ∃ key, utf8 key = s) ∧
    ∀ s, let fp := Relay.computeFingerprint P s
      Sidecar.computeFingerprint P s = fp ∧ iosFingerprint P s = fp ∧
      (∀ key, utf8 key = s → workerFingerprint P key = ofAscii fp) ∧ fp.length = 32 ∧
      (∀ rest, Relay.fingerprintRe (fp ++ chr '.' :: rest) =
        if rest ≠ [] ∧ chr '\n' ∉ rest then some (fp, rest) else none) ∧
      Worker.extractFingerprint (ofAscii fp ++ js ".headfwd.net") = some fp ∧
      ∀ server rest, F.url server = some (some (fp ++ chr '.' :: rest)) →
        Ios.parseFingerprint F server = .ok fp := by
  refine ⟨validUtf8_iff_exists, ?_⟩
  intro s fp
  have hl : fp.length = 32 := Relay.length_fingerprint s
  have hfp : Worker.IsFingerprint fp := ⟨hl, fun b hb => Sidecar.mem_computeFingerprint hb⟩
  refine ⟨rfl, iosFingerprint_eq P s, ?_, hl, ?_, ?_, ?_⟩
  · rintro key rfl
    exact workerFingerprint_eq P key
  · exact fingerprintRe_append hl fun b hb => Relay.isFingerprintByte_of_mem hb
  · exact @Worker.extractFingerprint_linkHost fp false hfp
  · intro server rest hhost
    exact parseFingerprint_of_host hfp hhost

/-- The fingerprint of the key of a registration. -/
theorem fingerprints_agree_registered :
    workerFingerprint Relay.Vector.primitives (ofAscii Relay.Vector.publicKey) =
        ofAscii Relay.Vector.fingerprint ∧
      Ios.parseFingerprint Ios.Vector.foundation
        (str "https://" ++ Relay.Vector.fingerprint ++ str ".headfwd.net") =
          .ok Relay.Vector.fingerprint := by
  have hagree := (fingerprints_agree Relay.Vector.primitives Ios.Vector.foundation).2
    Relay.Vector.publicKey
  have hfp : Relay.computeFingerprint Relay.Vector.primitives Relay.Vector.publicKey =
      Relay.Vector.fingerprint := by decide +kernel
  rw [hfp] at hagree
  obtain ⟨-, -, hworker, -, -, -, hios⟩ := hagree
  have hkey : utf8 (ofAscii Relay.Vector.publicKey) = Relay.Vector.publicKey := by decide +kernel
  have hhost : Ios.Vector.foundation.url
      (str "https://" ++ Relay.Vector.fingerprint ++ str ".headfwd.net") =
        some (some (Relay.Vector.fingerprint ++ chr '.' :: str "headfwd.net")) := by decide +kernel
  exact ⟨hworker _ hkey, hios _ _ hhost⟩

end HeadFwd.EndToEnd
