import HeadFwd.Net.Url
import HeadFwd.Relay.Restart

/-! # Issued credentials

An accepted registration is answered with two links. The host of each is the
fingerprint in front of the base host, which a dial takes apart again: the port
and the case do not matter, and the secret comes back out of the query. The
scheme of the public link is taken from a header as it stands.
-/

namespace HeadFwd.Relay

open Text Net Crypto Transition

variable {P : Primitives} {env : Environment}

def isNameByte (b : UInt8) : Bool := isAlpha b || isDigit b || b ∈ str "-_."

/-- A DNS name, with or without a port. -/
def DnsHost (host : Bytes) : Prop :=
  ∃ name port, name ≠ [] ∧ (∀ b ∈ name, isNameByte b = true) ∧ (∀ b ∈ port, isDigit b = true) ∧
    (host = name ∨ host = name ++ chr ':' :: port)

/-- What the bytes of a name are not, and what they stay when they are lower-cased. -/
theorem isNameByte_spec {b : UInt8} (h : isNameByte b = true) :
    isHostByte b = true ∧ b ∉ str ":[]#?/" ∧ lowerByte b ≠ chr '\n' := by
  revert b
  apply forall_byte
  decide +kernel

theorem isNameByte_of_isDigit {b : UInt8} (h : isDigit b = true) : isNameByte b = true := by
  simp [isNameByte, h]

theorem isNameByte_of_isFingerprintByte {b : UInt8} (h : isFingerprintByte b = true) :
    isNameByte b = true := by
  revert b
  apply forall_byte
  decide +kernel

/-- A byte that ends or splits a host is not in a name. -/
theorem notMem_name {name : Bytes} (h : ∀ b ∈ name, isNameByte b = true) {c : UInt8}
    (hc : c ∈ str ":[]#?/") : c ∉ name := fun hm => (isNameByte_spec (h c hm)).2.1 hc

theorem stripPort_name {name : Bytes} (h : ∀ b ∈ name, isNameByte b = true) :
    stripPort name = name := if_neg (notMem_name h (by decide))

theorem stripPort_port {name port : Bytes} (h : ∀ b ∈ name, isNameByte b = true)
    (hp : ∀ b ∈ port, isDigit b = true) : stripPort (name ++ chr ':' :: port) = name := by
  have hport : ∀ b ∈ port, isNameByte b = true := fun b hb => isNameByte_of_isDigit (hp b hb)
  have hmem : ∀ c ∈ str "[]", c ∉ name ++ chr ':' :: port := by
    intro c hc hm
    have hne : ∀ c ∈ str "[]", c ∈ str ":[]#?/" ∧ c ≠ chr ':' := by decide +kernel
    rcases List.mem_append.mp hm with hm | hm
    · exact notMem_name h (hne c hc).1 hm
    · rcases List.mem_cons.mp hm with hm | hm
      · exact (hne c hc).2 hm
      · exact notMem_name hport (hne c hc).1 hm
  have hhead : (name ++ chr ':' :: port).head? ≠ some (chr '[') := fun hh =>
    hmem (chr '[') (by decide) (List.mem_of_head? hh)
  have hsplit : splitHostPort (name ++ chr ':' :: port) = some (name, port) := by
    rw [splitHostPort, lastIndexByte_append (notMem_name hport (by decide))]
    simp only [Option.bind_eq_bind, Option.bind_some, hhead, if_false, List.take_left]
    rw [if_neg (notMem_name h (by decide)), if_neg (not_or.mpr ⟨hmem _ (by decide), hmem _ (by decide)⟩)]
    simp
  rw [stripPort, if_pos (by simp), hsplit]

/-- A fingerprint in front of a name makes a name. -/
theorem isNameByte_of_mem_host {label name : Bytes} (hf : ∀ b ∈ label, isFingerprintByte b = true)
    (hname : ∀ b ∈ name, isNameByte b = true) :
    ∀ b ∈ label ++ chr '.' :: name, isNameByte b = true := by
  intro b hb
  rcases List.mem_append.mp hb with hb | hb
  · exact isNameByte_of_isFingerprintByte (hf b hb)
  · rcases List.mem_cons.mp hb with rfl | hb
    · decide
    · exact hname b hb

/-- The fingerprint of a host made by the relay. -/
theorem extractFingerprint_dnsHost {label base : Bytes} (hl : label.length = 32)
    (hf : ∀ b ∈ label, isFingerprintByte b = true) (hb : DnsHost base) :
    extractFingerprint (label ++ chr '.' :: base) = label := by
  obtain ⟨name, port, hne, hname, hport, hbase⟩ := hb
  have hfull := isNameByte_of_mem_host hf hname
  have hlower : chr '\n' ∉ toLower name := by
    intro h
    obtain ⟨b, hb, he⟩ := List.mem_map.mp h
    exact (isNameByte_spec (hname b hb)).2.2 he
  have hplain : extractFingerprint (label ++ chr '.' :: name) = label :=
    extractFingerprint_append hl hf hne (notMem_name hname (by decide)) hlower
  rcases hbase with rfl | rfl
  · exact hplain
  · have happ : label ++ chr '.' :: (name ++ chr ':' :: port) =
        label ++ chr '.' :: name ++ chr ':' :: port := by simp
    have hsame : extractFingerprint (label ++ chr '.' :: (name ++ chr ':' :: port)) =
        extractFingerprint (label ++ chr '.' :: name) := by
      rw [extractFingerprint, extractFingerprint, happ, stripPort_port hfull hport,
        stripPort_name hfull]
    exact hsame.trans hplain

/-- The host of a link parses. -/
theorem validHost_dnsHost {label base : Bytes} (hf : ∀ b ∈ label, isFingerprintByte b = true)
    (hb : DnsHost base) : validHost (label ++ chr '.' :: base) = true := by
  obtain ⟨name, port, -, hname, hport, hbase⟩ := hb
  have hfull := isNameByte_of_mem_host hf hname
  generalize hfullname : label ++ chr '.' :: name = full at hfull
  have hhost : ∀ b ∈ full, isHostByte b = true := fun b hb => (isNameByte_spec (hfull b hb)).1
  have hdigits : ∀ b ∈ port, isNameByte b = true := fun b hb => isNameByte_of_isDigit (hport b hb)
  have hplain : ∀ c ∈ str ":[]#?/", c ∉ full := fun c hc => notMem_name hfull hc
  rcases hbase with rfl | rfl
  · rw [hfullname]
    have hhead : full.head? ≠ some (chr '[') := fun hh =>
      hplain (chr '[') (by decide) (List.mem_of_head? hh)
    rw [validHost, if_neg hhead, lastIndexByte_of_notMem (hplain _ (by decide))]
    simpa [List.all_eq_true] using hhost
  · have happ : label ++ chr '.' :: (name ++ chr ':' :: port) = full ++ chr ':' :: port := by
      rw [← hfullname]
      simp
    have hhead : (full ++ chr ':' :: port).head? ≠ some (chr '[') := by
      intro hh
      rcases List.mem_append.mp (List.mem_of_head? hh) with hm | hm
      · exact hplain (chr '[') (by decide) hm
      · rcases List.mem_cons.mp hm with hm | hm
        · revert hm
          decide
        · exact notMem_name hdigits (by decide) hm
    rw [happ, validHost, if_neg hhead, lastIndexByte_append (notMem_name hdigits (by decide))]
    simp only [List.drop_left, Bool.and_eq_true, List.all_eq_true, validOptionalPort,
      decide_eq_true_eq]
    refine ⟨fun b hb => ?_, trivial, hport⟩
    rcases List.mem_append.mp hb with hb | hb
    · exact hhost b hb
    · rcases List.mem_cons.mp hb with rfl | hb
      · decide
      · exact (isNameByte_spec (hdigits b hb)).1

/-- A fingerprint is 32 digits of the regular expression. -/
theorem isFingerprintByte_of_mem {pk : Bytes} {b : UInt8} (h : b ∈ computeFingerprint P pk) :
    isFingerprintByte b = true := by
  have hhex : b ∈ encodeHex (P.sha256 pk) := by
    unfold computeFingerprint at h
    dsimp only at h
    split_ifs at h
    · exact h
    · exact List.mem_of_mem_take h
  obtain ⟨n, hn, rfl⟩ := hexDigit_of_mem_encodeHex hhex
  have hd : ∀ {n : ℕ}, n < 16 → isFingerprintByte (hexDigit n) = true := by decide
  exact hd hn

section Links

variable {r : Request} {fp secret : Bytes}

/-- The secret of a dial: the query parameter of its URL. -/
def dialAuth (url : Bytes) : Bytes := queryGet (urlQuery url) (str "auth")

theorem urlHost_publicURL (hf : ∀ b ∈ fp, isFingerprintByte b = true)
    (hb : DnsHost (publicHostFromRequest env r))
    (hs : validScheme (publicSchemeFromRequest env r) = true) :
    urlHost (verifyResponse env r fp secret).publicURL =
      some (fp ++ chr '.' :: publicHostFromRequest env r) := by
  have hurl : (verifyResponse env r fp secret).publicURL = publicSchemeFromRequest env r ++
      chr ':' :: chr '/' :: chr '/' :: ((fp ++ chr '.' :: publicHostFromRequest env r) ++ []) := by
    simp [verifyResponse, str, chr]
  rw [hurl]
  exact urlHost_append hs (validHost_dnsHost hf hb) (.inl rfl) fun b hb => absurd hb List.not_mem_nil

theorem urlHost_tunnelURL (hf : ∀ b ∈ fp, isFingerprintByte b = true)
    (hb : DnsHost (publicHostFromRequest env r)) (random : Bytes) :
    urlHost (verifyResponse env r fp (randomHex random)).tunnelURL =
      some (fp ++ chr '.' :: publicHostFromRequest env r) := by
  obtain ⟨ws, hws, hurl⟩ : ∃ ws, validScheme ws = true ∧
      (verifyResponse env r fp (randomHex random)).tunnelURL = ws ++ chr ':' :: chr '/' :: chr '/' ::
        ((fp ++ chr '.' :: publicHostFromRequest env r) ++ (str "/tunnel?auth=" ++ randomHex random)) := by
    refine ⟨if publicSchemeFromRequest env r = str "http" then str "ws" else str "wss", ?_, ?_⟩
    · split_ifs <;> decide
    · simp [verifyResponse, str, chr]
  rw [hurl]
  apply urlHost_append hws (validHost_dnsHost hf hb) (.inr rfl)
  intro b hb
  rcases List.mem_append.mp hb with hb | hb
  · have hpath : ∀ b ∈ str "/tunnel?auth=", isControl b = false ∧ b ≠ chr '#' := by decide +kernel
    exact hpath b hb
  · obtain ⟨n, hn, rfl⟩ := hexDigit_of_mem_encodeHex hb
    have hd : ∀ {n : ℕ}, n < 16 → isControl (hexDigit n) = false ∧ hexDigit n ≠ chr '#' := by decide
    exact hd hn

theorem dialAuth_tunnelURL (hf : ∀ b ∈ fp, isFingerprintByte b = true)
    (hb : DnsHost (publicHostFromRequest env r)) (random : Bytes) :
    dialAuth (verifyResponse env r fp (randomHex random)).tunnelURL = randomHex random := by
  obtain ⟨ws, hws, hurl⟩ : ∃ ws, (∀ c ∈ str "#?", c ∉ ws) ∧
      (verifyResponse env r fp (randomHex random)).tunnelURL =
        ws ++ str "://" ++ (fp ++ chr '.' :: publicHostFromRequest env r) ++ str "/tunnel" ++
          chr '?' :: (str "auth" ++ chr '=' :: randomHex random) := by
    refine ⟨if publicSchemeFromRequest env r = str "http" then str "ws" else str "wss", ?_, ?_⟩
    · split_ifs <;> decide +kernel
    · simp [verifyResponse, str, chr]
  have hhost : ∀ c ∈ str "#?", c ∉ fp ++ chr '.' :: publicHostFromRequest env r := by
    intro c hc hm
    have hmark : ∀ c ∈ str "#?", c ∈ str "#?/@" := by decide +kernel
    exact (not_delimiter_of_validHost (validHost_dnsHost hf hb) hm).2 (hmark c hc)
  have hbase : ∀ c ∈ str "#?", c ∉ ws ++ str "://" ++
      (fp ++ chr '.' :: publicHostFromRequest env r) ++ str "/tunnel" := by
    intro c hc hm
    have hfixed : ∀ c ∈ str "#?", c ∉ str "://" ∧ c ∉ str "/tunnel" := by decide +kernel
    rcases List.mem_append.mp hm with hm | hm
    · rcases List.mem_append.mp hm with hm | hm
      · rcases List.mem_append.mp hm with hm | hm
        · exact hws c hc hm
        · exact (hfixed c hc).1 hm
      · exact hhost c hc hm
    · exact (hfixed c hc).2 hm
  have hkey : ∀ b ∈ str "auth", b ∉ queryMarks := by decide +kernel
  rw [dialAuth, hurl]
  exact queryGet_urlQuery (hbase _ (by decide)) (hbase _ (by decide)) (by decide) hkey
    fun b hb => notMem_queryMarks hb

end Links

namespace Server

variable {now : ℕ} {s s' : Server} {a : Action} {fp : Bytes}

/-- The action writes no registration for the fingerprint. -/
def Leaves (fp : Bytes) (s : Server) : Action → Prop
  | .registry (.verifyAccept j) => ∀ r req c secret,
    s.registry.verifies j = some (.proved r req c secret) → req.fingerprint ≠ fp
  | _ => True

theorem Leaves.registrations (h : s.Leaves fp a) (hs : s.step P env now a = some s') :
    s'.registry.registrations fp = s.registry.registrations fp := by
  rcases step_cases hs with ⟨b, reg, rfl, hr, rfl⟩ | ⟨b, t, -, -, -, rfl⟩ | ⟨b, x, -, -, rfl⟩
  · cases Registry.step_effect hr with
    | verifyAccepted j r req c secret hj => exact Table.set_of_ne (h r req c secret hj).symm
    | _ => rfl
  · rfl
  · rfl

/-- What is authorised is installed as it was authorised. -/
theorem dialInstall_authorised {k : ℕ} {auth : Bytes}
    (hk : s.tunnels.dials k = some (.authorised fp auth)) :
    ∃ s', s.step P env now (.tunnel (.dialInstall k)) = some s' ∧
      s'.tunnels.tunnels fp = some s.tunnels.next ∧
      s'.tunnels.conns s.tunnels.next = some ⟨fp, auth, false, .running⟩ := by
  obtain ⟨t, ht, hfp, hconn⟩ : ∃ t, s.tunnels.dialInstall k = some t ∧
      t.tunnels fp = some s.tunnels.next ∧
      t.conns s.tunnels.next = some ⟨fp, auth, false, .running⟩ := by
    rw [Tunnels.dialInstall, hk]
    exact ⟨_, rfl, Table.set_self, Table.set_self⟩
  exact ⟨{ s with tunnels := t }, by simp [step, busy, Tunnels.step, ht], hfp, hconn⟩

end Server

/-- A dial with the host and the secret passes every check and, whatever happens before its upgrade
is done, is then installed under the fingerprint. -/
def Installs (P : Primitives) (env : Environment) (s : ℕ × Server) (host auth fp : Bytes) : Prop :=
  ∀ k now, s.2.tunnels.dials k = none → s.1 ≤ now →
    ∃ t, (relay P env).step s (now, .tunnel (.dialBegin k host auth)) = some t ∧
      t.2.tunnels.dials k = some (.authorised fp auth) ∧
      ∀ bs u, (relay P env).exec t bs = some u → u.2.tunnels.dials k = t.2.tunnels.dials k →
        ∀ now', u.1 ≤ now' →
          ∃ v, (relay P env).step u (now', .tunnel (.dialInstall k)) = some v ∧
            v.2.tunnels.tunnels fp = some u.2.tunnels.next ∧
            v.2.tunnels.conns u.2.tunnels.next = some ⟨fp, auth, false, .running⟩

section Dials

variable {s : ℕ × Server}

theorem tracked_of_reachable (hr : (relay P env).Reachable s) : s.2.Tracked env := by
  refine hr.invariant (P := fun s => s.2.Tracked env) ?_ ?_
  · rintro ⟨now, s⟩ rfl
    exact .initial
  · rintro s a s' - - hs h
    obtain ⟨-, -, hs⟩ := Machine.timed_step.mp hs
    exact h.step hs

/-- A dial with the secret of the registration. -/
theorem installs_of_registered {host auth fp : Bytes} {reg : Registration} (ha : auth ≠ [])
    (hf : fp ≠ []) (hh : extractFingerprint host = fp)
    (hr : s.2.registry.registrations fp = some reg) (hs : reg.secret = auth) :
    Installs P env s host auth fp := by
  intro k now hk hnow
  have hauth : authorise s.2.registry.registrations host auth = .authorised fp auth := by
    simp [authorise, ha, hh, hf, hr, hs]
  refine ⟨(now, { s.2 with tunnels := { s.2.tunnels with
    dials := s.2.tunnels.dials.set k (authorise s.2.registry.registrations host auth) } }), ?_, ?_, ?_⟩
  · exact Machine.timed_step.mpr ⟨hnow, rfl, Server.step_dialBegin.mpr ⟨hk, rfl⟩⟩
  · exact hauth ▸ Table.set_self
  · intro bs u _ hu now' hnow'
    have hdial : u.2.tunnels.dials k = some (.authorised fp auth) := by
      rw [hu, ← hauth]
      exact Table.set_self
    obtain ⟨v, hv, hfp, hconn⟩ := Server.dialInstall_authorised hdial
    exact ⟨(now', v), Machine.timed_step.mpr ⟨hnow', rfl, hv⟩, hfp, hconn⟩

/-- What an accepted verify request leaves behind. -/
theorem accepted {s₁ : ℕ × Server} {now i : ℕ} {r : Request} {req : RegistrationVerifyRequest}
    {c : Challenge} {secret : Bytes}
    (hi : s.2.registry.verifies i = some (.proved r req c secret))
    (hs : (relay P env).step s (now, .registry (.verifyAccept i)) = some s₁) :
    s₁.2.registry.verifies i =
        some (.replied (.ok (verifyResponse env r req.fingerprint secret))) ∧
      s₁.2.registry.registrations req.fingerprint = some ⟨c.publicKey, secret, now⟩ := by
  obtain ⟨-, -, hs⟩ := Machine.timed_step.mp hs
  simp only [Server.step, Registry.step, Registry.verifyAccept, hi, Option.map_some,
    Option.some.injEq] at hs
  rw [← hs]
  exact ⟨Table.set_self, Table.set_self⟩

theorem registrations_of_leaves {s' : ℕ × Server} {fp : Bytes} {as : List (ℕ × Action)}
    (h : (relay P env).exec s as = some s')
    (hm : (relay P env).Meets (fun s a => s.2.Leaves fp a.2) s as) :
    s'.2.registry.registrations fp = s.2.registry.registrations fp := by
  induction as generalizing s with
  | nil =>
    cases h
    rfl
  | cons a as ih =>
    obtain ⟨t, ht, h⟩ := Option.bind_eq_some_iff.mp h
    obtain ⟨-, -, hstep⟩ := Machine.timed_step.mp ht
    exact (ih h (hm.2 t ht)).trans (hm.1.registrations hstep)

end Dials

/-- Credentials. A dial of the tunnel link of an accepted registration passes and is installed under
its fingerprint in every later state up to the next registration for the fingerprint; and the public
link, if its scheme is one, leads to the fingerprint. -/
theorem credentials_work {s s₁ : ℕ × Server} (hr : (relay P env).Reachable s) {now i : ℕ}
    {r : Request} {req : RegistrationVerifyRequest} {c : Challenge} {secret : Bytes}
    (hi : s.2.registry.verifies i = some (.proved r req c secret))
    (hs : (relay P env).step s (now, .registry (.verifyAccept i)) = some s₁)
    (hb : DnsHost (publicHostFromRequest env r)) :
    ∃ resp, s₁.2.registry.verifies i = some (.replied (.ok resp)) ∧
      (∃ host, urlHost resp.tunnelURL = some host ∧ ∀ as s₂, (relay P env).exec s₁ as = some s₂ →
        (relay P env).Meets (fun s a => s.2.Leaves req.fingerprint a.2) s₁ as →
        Installs P env s₂ host (dialAuth resp.tunnelURL) req.fingerprint) ∧
      (validScheme (publicSchemeFromRequest env r) = true →
        ∃ host, urlHost resp.publicURL = some host ∧ extractFingerprint host = req.fingerprint) := by
  have hfp : computeFingerprint P c.publicKey = req.fingerprint :=
    ((authentic_of_reachable hr).sound.traced.proved i r req c secret hi).1.1.fingerprint
  have hf : ∀ b ∈ req.fingerprint, isFingerprintByte b = true := fun b hb =>
    isFingerprintByte_of_mem (hfp ▸ hb)
  have hl : req.fingerprint.length = 32 := hfp ▸ length_fingerprint c.publicKey
  have htracked := tracked_of_reachable hr
  obtain ⟨random, hrandom, rfl⟩ :=
    htracked.drawn secret (htracked.fresh.drew i secret (.inl ⟨r, req, c, hi⟩))
  obtain ⟨hreply, hreg⟩ := accepted hi hs
  have hextract := extractFingerprint_dnsHost hl hf hb
  refine ⟨_, hreply, ⟨_, urlHost_tunnelURL hf hb random, fun as s₂ hrun hm => ?_⟩, fun hscheme => ?_⟩
  · have hkept := (registrations_of_leaves hrun hm).trans hreg
    have hfne : req.fingerprint ≠ [] := List.ne_nil_of_length_pos (hl ▸ by decide)
    rw [dialAuth_tunnelURL hf hb random]
    refine installs_of_registered ?_ hfne hextract hkept rfl
    intro hnil
    have hlen := congrArg List.length hnil
    rw [randomHex, length_encodeHex, hrandom] at hlen
    cases hlen
  · exact ⟨_, urlHost_publicURL hf hb hscheme, hextract⟩

/-- The base host of a request under which a registration is about to be written, with its
fingerprint. -/
def VerifyThread.pending (env : Environment) : VerifyThread → Option (Bytes × Bytes)
  | .proved r req _ _ => some (publicHostFromRequest env r, req.fingerprint)
  | _ => none

/-- The base domain of the relay is a DNS name. -/
theorem dnsHost_relay : DnsHost (str "relay.example.net") :=
  ⟨str "relay.example.net", [], by decide, by decide +kernel, nofun, .inl rfl⟩

theorem credentials_work_proveSteps :
    ∃ s s₁ resp host,
      (relay Vector.primitives {}).exec (0, .initial)
        (Vector.proveSteps.map fun a => (a.1, .registry a.2)) = some s ∧
      (relay Vector.primitives {}).step s (1, .registry (.verifyAccept 1)) = some s₁ ∧
      s₁.2.registry.verifies 1 = some (.replied (.ok resp)) ∧
      urlHost resp.tunnelURL = some host ∧
      Installs Vector.primitives {} s₁ host (dialAuth resp.tunnelURL) Vector.fingerprint := by
  have h : ((relay Vector.primitives {}).exec (0, .initial)
      (Vector.proveSteps.map fun a => (a.1, .registry a.2))).map
      (fun s => ((s.2.registry.verifies 1).bind (VerifyThread.pending {}),
        ((relay Vector.primitives {}).step s (1, .registry (.verifyAccept 1))).isSome)) =
      some (some (str "relay.example.net", Vector.fingerprint), true) := by decide +kernel
  obtain ⟨s, hs, h⟩ := Option.map_eq_some_iff.mp h
  obtain ⟨hpending, hsome⟩ := Prod.mk.injEq .. ▸ h
  obtain ⟨s₁, hs₁⟩ := Option.isSome_iff_exists.mp hsome
  have h₀ : (relay Vector.primitives {}).init (0, Server.initial) := rfl
  have hr : (relay Vector.primitives {}).Reachable s := .exec (fun _ _ _ => trivial) (.init h₀) hs
  obtain ⟨thread, hthread, hpending⟩ := Option.bind_eq_some_iff.mp hpending
  cases thread with
  | proved r req c secret =>
    obtain ⟨hbase, hfp⟩ := Prod.mk.injEq .. ▸ Option.some.inj hpending
    obtain ⟨resp, hreply, ⟨host, hhost, hinstalls⟩, -⟩ :=
      credentials_work hr hthread hs₁ (hbase ▸ dnsHost_relay)
    exact ⟨s, s₁, resp, host, hs, hs₁, hreply, hhost, hfp ▸ hinstalls [] s₁ rfl trivial⟩
  | _ => cases hpending

/-- The request of the registration with the protocol that a proxy in front says it was made by. -/
def Vector.forwarded (proto : Bytes) : Request :=
  { Vector.post with header := [(str "X-Forwarded-Proto", [proto])] }

def Vector.forwardedSteps (proto : Bytes) : List (ℕ × RegistryAction) :=
  Vector.initSteps ++ [(1, .verifyBegin 1 ⟨Vector.forwarded proto, true,
      some ⟨Vector.fingerprint, Vector.proof⟩⟩),
    (1, .verifyCompare 1 (List.replicate 32 4)), (1, .verifyAccept 1)]

def forwardedRun (proto : Bytes) : List (ℕ × Action) :=
  (Vector.forwardedSteps proto).map fun a => (a.1, .registry a.2)

def VerifyThread.publicURL : VerifyThread → Option Bytes
  | .replied (.ok resp) => some resp.publicURL
  | _ => none

/-- The registration is accepted, and no host of its public link has the fingerprint. -/
def Misdirects (proto : Bytes) : Prop :=
  ∃ s resp, (relay Vector.primitives {}).exec (0, .initial) (forwardedRun proto) = some s ∧
    s.2.registry.verifies 1 = some (.replied (.ok resp)) ∧
    ¬ ∃ host, urlHost resp.publicURL = some host ∧ extractFingerprint host = Vector.fingerprint

theorem misdirects_of_publicURL {proto : Bytes} (url : Bytes)
    (h : ((relay Vector.primitives {}).exec (0, .initial) (forwardedRun proto)).map
      (fun s => (s.2.registry.verifies 1).bind VerifyThread.publicURL) = some (some url))
    (hu : (urlHost url).all (fun host => extractFingerprint host ≠ Vector.fingerprint) = true) :
    Misdirects proto := by
  obtain ⟨s, hs, hurl⟩ := Option.map_eq_some_iff.mp h
  obtain ⟨thread, hthread, hurl⟩ := Option.bind_eq_some_iff.mp hurl
  cases thread with
  | replied x =>
    cases x with
    | error e => cases hurl
    | ok resp =>
      cases hurl
      refine ⟨s, resp, hs, hthread, ?_⟩
      rintro ⟨host, hhost, hfp⟩
      simp [hhost, hfp] at hu
  | _ => cases hurl

/-- A list of protocols, as proxies in a row make it, is no scheme, and a whole link in its place puts
its own host there. -/
theorem forwarded_misdirects :
    DnsHost (publicHostFromRequest {} (Vector.forwarded (str "https,http"))) ∧
      Misdirects (str "https,http") ∧
    DnsHost (publicHostFromRequest {} (Vector.forwarded (str "http://proxy"))) ∧
      Misdirects (str "http://proxy") := by
  have hbase : baseHostFromHost Vector.post.host = str "relay.example.net" := by decide +kernel
  have hdns : ∀ proto, DnsHost (publicHostFromRequest {} (Vector.forwarded proto)) := by
    intro proto
    change DnsHost (baseHostFromHost Vector.post.host)
    rw [hbase]
    exact dnsHost_relay
  refine ⟨hdns _, ?_, hdns _, ?_⟩
  · exact misdirects_of_publicURL (str "https,http://" ++ Vector.host) (by decide +kernel)
      (by decide +kernel)
  · exact misdirects_of_publicURL (str "http://proxy://" ++ Vector.host) (by decide +kernel)
      (by decide +kernel)

end HeadFwd.Relay
