import HeadFwd.Net.Address
import HeadFwd.Net.Http

/-! # Hosts and fingerprints

The relay serves every registration under its own subdomain, whose first label
is the fingerprint. The base host and the scheme of the links it hands out come
from the environment or from the request.
-/

namespace HeadFwd.Relay

open Text Net

/-- The environment variables the relay reads; empty when unset. -/
structure Environment where
  publicHost : Bytes := []
  publicScheme : Bytes := []

def stripPort (hostport : Bytes) : Bytes :=
  if chr ':' ∈ hostport then
    match splitHostPort hostport with
    | some (h, _) => h
    | none => (splitByte (chr ':') hostport).headD []
  else hostport

def isFingerprintByte (b : UInt8) : Bool :=
  chr 'a' ≤ b && b ≤ chr 'f' || isDigit b

/-- Match `^([a-f0-9]{32})\.(.+)$` and return the two groups. -/
def fingerprintRe (host : Bytes) : Option (Bytes × Bytes) :=
  let label := host.take 32
  match host.drop 32 with
  | dot :: rest =>
    if label.all isFingerprintByte ∧ dot = chr '.' ∧ rest ≠ [] ∧ chr '\n' ∉ rest then
      some (label, rest)
    else none
  | [] => none

def extractFingerprint (hostport : Bytes) : Bytes :=
  match fingerprintRe (toLower (stripPort hostport)) with
  | some (label, _) => label
  | none => []

def baseHostFromHost (hostport : Bytes) : Bytes :=
  match fingerprintRe (toLower (stripPort hostport)) with
  | some (_, rest) => rest
  | none => stripPort hostport

def publicHostFromRequest (env : Environment) (r : Request) : Bytes :=
  if env.publicHost ≠ [] then env.publicHost else baseHostFromHost r.host

def publicSchemeFromRequest (env : Environment) (r : Request) : Bytes :=
  if env.publicScheme ≠ [] then env.publicScheme
  else if r.header.get (str "X-Forwarded-Proto") ≠ [] then
    r.header.get (str "X-Forwarded-Proto")
  else if r.tls then str "https"
  else str "http"

theorem lowerByte_of_isFingerprintByte {b : UInt8} (h : isFingerprintByte b = true) :
    lowerByte b = b ∧ b ≠ chr ':' := by
  revert b
  apply forall_byte
  decide +kernel

/-- The fingerprint of a host that starts with one. -/
theorem extractFingerprint_append {label rest : Bytes} (hl : label.length = 32)
    (hf : ∀ b ∈ label, isFingerprintByte b = true) (hr : rest ≠ []) (hc : chr ':' ∉ rest)
    (hn : chr '\n' ∉ toLower rest) : extractFingerprint (label ++ chr '.' :: rest) = label := by
  have hport : chr ':' ∉ label ++ chr '.' :: rest := by
    intro h
    rcases List.mem_append.mp h with h | h
    · exact (lowerByte_of_isFingerprintByte (hf _ h)).2 rfl
    · rcases List.mem_cons.mp h with h | h
      · revert h
        decide
      · exact hc h
  have hlower : toLower (label ++ chr '.' :: rest) = label ++ chr '.' :: toLower rest := by
    have hlabel : label.map lowerByte = label := by
      rw [List.map_congr_left fun b hb => (lowerByte_of_isFingerprintByte (hf b hb)).1, List.map_id']
    simp only [toLower, List.map_append, hlabel, List.map_cons]
    rfl
  have hre : fingerprintRe (label ++ chr '.' :: toLower rest) = some (label, toLower rest) := by
    have hne : toLower rest ≠ [] := by simpa [toLower] using hr
    unfold fingerprintRe
    simp only [List.take_left' hl, List.drop_left' hl]
    rw [if_pos ⟨List.all_eq_true.mpr hf, trivial, hne, hn⟩]
  rw [extractFingerprint, stripPort, if_neg hport, hlower, hre]

end HeadFwd.Relay
