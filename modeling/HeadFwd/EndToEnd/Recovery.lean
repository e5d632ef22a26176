import HeadFwd.EndToEnd.Backends
import HeadFwd.Relay.Restart

/-! # A sidecar and a relay that restarts

A sidecar registers once and then dials the tunnel over and over with the URL it
was given. The relay keeps challenges, registrations and tunnels in memory and
loses them when it restarts. Whether the tunnel can be installed again is decided
by what the relay still holds.
-/

namespace HeadFwd.EndToEnd

open Text Net Crypto Relay Transition

/-- Where a sidecar with `--register` stands: its init or verify request is on its way, it is in the
reconnect loop, with or without a dial of its own under way, or the process has ended. -/
inductive Phase where
  | starting
  | initiating (i : ℕ)
  | verifying (j : ℕ)
  | looping (tunnelURL : Bytes) (dial : Option ℕ)
  | exited (err : Bytes)

structure System where
  server : Server
  sidecar : Phase

def System.initial : System where
  server := .initial
  sidecar := .starting

/-- A step of the relay on behalf of anyone, a restart of the relay, or a step of the sidecar. The
request as it reaches the relay and the answer of the rate limiter are inputs. -/
inductive SystemAction where
  | relay (a : Action)
  | restart
  | register (i : ℕ) (r : Request) (allowed : Bool)
  | verify (j : ℕ) (r : Request) (allowed : Bool)
  | enter
  | fail (err : Bytes)
  | dial (i : ℕ)
  | lose

/-- What the sidecar sees of an answered init request. -/
def initReply : InitThread → Option (Sidecar.Reply Sidecar.RegistrationInitResponse)
  | .replied (.error e) => some (ofHttpError e)
  | .replied (.ok resp) => some (.answered 200 [] (.ok
      { fingerprint := resp.fingerprint
        nonce := resp.nonce
        proxyPublicKey := resp.proxyPublicKey
        expiresAt := resp.expiresAt
        protocolVersion := resp.protocolVersion }))
  | _ => none

def verifyReply : VerifyThread → Option (Sidecar.Reply Sidecar.RegistrationVerifyResponse)
  | .replied (.error e) => some (ofHttpError e)
  | .replied (.ok resp) =>
    some (.answered 200 [] (.ok ⟨resp.fingerprint, resp.tunnelURL, resp.publicURL⟩))
  | _ => none

/-- The secret in the URL of a tunnel. -/
def tunnelAuth (tunnelURL : Bytes) : Bytes := queryGet (urlQuery tunnelURL) (str "auth")

namespace System

section Step

variable (P : Primitives) (env : Environment) (publicKey x25519Key : Bytes)

/-- The request of the sidecar for a reply to its init request. -/
def proofFor (reply : Sidecar.Reply Sidecar.RegistrationInitResponse) :
    Except Bytes Sidecar.RegistrationVerifyRequest := do
  let resp ← Sidecar.initChallenge (Sidecar.computeFingerprint P publicKey) reply
  Sidecar.proofRequest P x25519Key publicKey resp

/-- A restart breaks the connections of the sidecar. A reply that was sent before still arrives. -/
def disconnect (s : System) : Phase :=
  match s.sidecar with
  | .initiating i =>
    if ((s.server.registry.inits i).bind initReply).isSome then .initiating i else .exited []
  | .verifying j =>
    if ((s.server.registry.verifies j).bind verifyReply).isSome then .verifying j else .exited []
  | .looping tunnelURL _ => .looping tunnelURL none
  | p => p

def step (now : ℕ) (s : System) : SystemAction → Option System
  | .relay a => (s.server.step P env now a).map fun server => { s with server }
  | .restart => some ⟨s.server.restart, s.disconnect⟩
  | .register i r allowed =>
    match s.sidecar with
    | .starting =>
      let call := ⟨{ r with method := str "POST" }, allowed, some ⟨publicKey⟩⟩
      (s.server.step P env now (.registry (.initBegin i call))).map fun server =>
        ⟨server, .initiating i⟩
    | _ => none
  | .verify j r allowed =>
    match s.sidecar with
    | .initiating i =>
      match (s.server.registry.inits i).bind initReply with
      | none => none
      | some reply =>
        match proofFor P publicKey x25519Key reply with
        | .error err => some { s with sidecar := .exited err }
        | .ok req =>
          let call := ⟨{ r with method := str "POST" }, allowed, some ⟨req.fingerprint, req.proof⟩⟩
          (s.server.step P env now (.registry (.verifyBegin j call))).map fun server =>
            ⟨server, .verifying j⟩
    | _ => none
  | .enter =>
    match s.sidecar with
    | .verifying j =>
      match (s.server.registry.verifies j).bind verifyReply with
      | none => none
      | some reply =>
        match Sidecar.verifiedResult (Sidecar.computeFingerprint P publicKey) reply with
        | .error err => some { s with sidecar := .exited err }
        | .ok result => some { s with sidecar := .looping result.tunnelURL none }
    | _ => none
  | .fail err =>
    match s.sidecar with
    | .initiating _ => some { s with sidecar := .exited err }
    | .verifying _ => some { s with sidecar := .exited err }
    | _ => none
  | .dial i =>
    match s.sidecar with
    | .looping tunnelURL none =>
      match urlAuthority tunnelURL with
      | none => none
      | some host =>
        (s.server.step P env now (.tunnel (.dialBegin i host (tunnelAuth tunnelURL)))).map
          fun server => ⟨server, .looping tunnelURL (some i)⟩
    | _ => none
  | .lose =>
    match s.sidecar with
    | .looping tunnelURL (some _) => some { s with sidecar := .looping tunnelURL none }
    | _ => none

/-- The connection of the sidecar is the entry of its fingerprint. -/
def Installed (s : System) : Prop :=
  ∃ tunnelURL i t, s.sidecar = .looping tunnelURL (some i) ∧
    s.server.tunnels.dials i = some (.installed t) ∧
    s.server.tunnels.tunnels (computeFingerprint P publicKey) = some t

/-- The relay holds the secret with which the sidecar dials. -/
def Registered (s : System) (tunnelURL : Bytes) : Prop :=
  ∃ reg, s.server.registry.registrations (computeFingerprint P publicKey) = some reg ∧
    reg.secret = tunnelAuth tunnelURL

/-- The dial under way has been authorised and may still be installed, or is the entry. -/
def Admitted (s : System) (i : ℕ) : Prop :=
  (∃ fp auth, s.server.tunnels.dials i = some (.authorised fp auth)) ∨
    ∃ t, s.server.tunnels.dials i = some (.installed t) ∧
      s.server.tunnels.tunnels (computeFingerprint P publicKey) = some t

/-- The relay holds what the sidecar in the loop needs. -/
def Held (s : System) : Prop :=
  ∃ tunnelURL dial, s.sidecar = .looping tunnelURL dial ∧
    (s.Registered P publicKey tunnelURL ∨ ∃ i, dial = some i ∧ s.Admitted P publicKey i)

/-- The step does not take from the relay the secret with which the sidecar in the loop dials: no
restart, no other registration of the fingerprint, and the sidecar enters the loop while the relay
holds the secret. -/
def Keeps (s : System) : SystemAction → Prop
  | .restart => ∀ tunnelURL dial, s.sidecar ≠ .looping tunnelURL dial
  | .relay (.registry (.verifyAccept i)) => ∀ tunnelURL dial, s.sidecar = .looping tunnelURL dial →
    ∀ r req c secret, s.server.registry.verifies i = some (.proved r req c secret) →
      req.fingerprint ≠ computeFingerprint P publicKey
  | .enter => ∀ j resp, s.sidecar = .verifying j →
    s.server.registry.verifies j = some (.replied (.ok resp)) →
    s.Registered P publicKey resp.tunnelURL
  | _ => True

end Step

/-- What a step does, as far as the loop is concerned. -/
inductive Effect (P : Primitives) (env : Environment) (publicKey : Bytes) (now : ℕ) (s : System) :
    SystemAction → System → Prop where
  | relayed (a : Action) (server : Server) (hs : s.server.step P env now a = some server) :
    Effect P env publicKey now s (.relay a) { s with server }
  | restarted : Effect P env publicKey now s .restart ⟨s.server.restart, s.disconnect⟩
  | requested {a : SystemAction} (b : RegistryAction) (server : Server) (p : Phase)
    (hs : s.server.step P env now (.registry b) = some server)
    (hl : ∀ url d, s.sidecar ≠ .looping url d) (hp : ∀ url d, p ≠ .looping url d) :
    Effect P env publicKey now s a ⟨server, p⟩
  | ended {a : SystemAction} (err : Bytes) (hl : ∀ url d, s.sidecar ≠ .looping url d) :
    Effect P env publicKey now s a { s with sidecar := .exited err }
  | entered (j : ℕ) (resp : RegistrationVerifyResponse) (result : Sidecar.RegistrationResult)
    (hj : s.sidecar = .verifying j)
    (hr : s.server.registry.verifies j = some (.replied (.ok resp)))
    (hv : Sidecar.verifiedResult (computeFingerprint P publicKey)
      (.answered 200 [] (.ok ⟨resp.fingerprint, resp.tunnelURL, resp.publicURL⟩)) = .ok result) :
    Effect P env publicKey now s .enter { s with sidecar := .looping result.tunnelURL none }
  | dialled (i : ℕ) (url host : Bytes) (server : Server) (hl : s.sidecar = .looping url none)
    (hh : urlAuthority url = some host)
    (hs : s.server.step P env now (.tunnel (.dialBegin i host (tunnelAuth url))) = some server) :
    Effect P env publicKey now s (.dial i) ⟨server, .looping url (some i)⟩
  | lost (url : Bytes) (i : ℕ) (hl : s.sidecar = .looping url (some i)) :
    Effect P env publicKey now s .lose { s with sidecar := .looping url none }

variable {P : Primitives} {env : Environment} {publicKey x25519Key : Bytes} {now : ℕ}
  {s s' : System} {a : SystemAction}

theorem disconnect_eq_looping {url : Bytes} {dial : Option ℕ}
    (h : s.disconnect = .looping url dial) :
    dial = none ∧ ∃ dial', s.sidecar = .looping url dial' := by
  unfold disconnect at h
  split at h
  · split_ifs at h
  · split_ifs at h
  · rename_i url' dial' hs
    cases h
    exact ⟨rfl, dial', hs⟩
  · rename_i hn
    exact absurd h (hn _ _)

theorem verifyReply_eq_some {t : VerifyThread}
    {reply : Sidecar.Reply Sidecar.RegistrationVerifyResponse} (h : verifyReply t = some reply) :
    (∃ e, reply = ofHttpError e) ∨ ∃ resp, t = .replied (.ok resp) ∧
      reply = .answered 200 [] (.ok ⟨resp.fingerprint, resp.tunnelURL, resp.publicURL⟩) := by
  unfold verifyReply at h
  split at h
  · exact .inl ⟨_, (Option.some.inj h).symm⟩
  · exact .inr ⟨_, rfl, (Option.some.inj h).symm⟩
  · cases h

/-- An error of the relay never leads into the loop. -/
theorem verifiedResult_ofHttpError (fp : Bytes) (e : HttpError)
    (r : Sidecar.RegistrationResult) : Sidecar.verifiedResult fp (ofHttpError e) ≠ .ok r := by
  intro h
  simp only [Sidecar.verifiedResult, ofHttpError] at h
  split_ifs at h

theorem step_effect (h : s.step P env publicKey x25519Key now a = some s') :
    Effect P env publicKey now s a s' := by
  cases a with
  | relay a =>
    obtain ⟨server, hs, rfl⟩ := Option.map_eq_some_iff.mp h
    exact .relayed a server hs
  | restart =>
    cases h
    exact .restarted
  | register i r allowed =>
    simp only [step] at h
    split at h
    · rename_i hp
      obtain ⟨server, hs, rfl⟩ := Option.map_eq_some_iff.mp h
      exact .requested _ server _ hs (by simp [hp]) (by simp)
    · cases h
  | verify j r allowed =>
    simp only [step] at h
    split at h
    · rename_i i hp
      split at h
      · cases h
      · split at h
        · cases h
          exact .ended _ (by simp [hp])
        · obtain ⟨server, hs, rfl⟩ := Option.map_eq_some_iff.mp h
          exact .requested _ server _ hs (by simp [hp]) (by simp)
    · cases h
  | enter =>
    simp only [step] at h
    split at h
    · rename_i j hj
      split at h
      · cases h
      · rename_i reply hr
        split at h
        · cases h
          exact .ended _ (by simp [hj])
        · rename_i result hv
          cases h
          obtain ⟨t, ht, hr⟩ := Option.bind_eq_some_iff.mp hr
          rcases verifyReply_eq_some hr with ⟨e, rfl⟩ | ⟨resp, rfl, rfl⟩
          · exact absurd hv (verifiedResult_ofHttpError _ e result)
          · exact .entered j resp result hj ht hv
    · cases h
  | fail err =>
    simp only [step] at h
    split at h
    · rename_i hp
      cases h
      exact .ended err (by simp [hp])
    · rename_i hp
      cases h
      exact .ended err (by simp [hp])
    · cases h
  | dial i =>
    simp only [step] at h
    split at h
    · rename_i url hl
      split at h
      · cases h
      · rename_i host hh
        obtain ⟨server, hs, rfl⟩ := Option.map_eq_some_iff.mp h
        exact .dialled i url host server hl hh hs
    · cases h
  | lose =>
    simp only [step] at h
    split at h
    · rename_i url i hl
      cases h
      exact .lost url i hl
    · cases h

/-- The URL of a tunnel that a sidecar accepts. -/
def tunnelURLFor (fp secret : Bytes) : Bytes :=
  str "wss://" ++ fp ++ str ".headfwd.net/tunnel?auth=" ++ secret

theorem colon_notMem_fingerprint (pk : Bytes) : chr ':' ∉ computeFingerprint P pk := by
  intro h
  obtain ⟨n, hn, he⟩ := Sidecar.mem_computeFingerprint h
  have hne : ∀ {n : ℕ}, n < 16 → chr ':' ≠ hexDigit n := by decide
  exact hne hn he

/-- A link has the form the sidecar expects only under its own domain. -/
theorem publicURL_parts {scheme fp base : Bytes} (hf : chr ':' ∉ fp)
    (h : scheme ++ str "://" ++ fp ++ str "." ++ base = str "https://" ++ fp ++ str ".headfwd.net") :
    scheme = str "https" ∧ base = str "headfwd.net" := by
  -- The right side has a single colon.
  have hc : List.count (chr ':') scheme = 0 := by
    have hcount := congrArg (List.count (chr ':')) h
    have h₁ : List.count (chr ':') (str "://") = 1 := by decide
    have h₂ : List.count (chr ':') (str "https://") = 1 := by decide
    have h₃ : List.count (chr ':') (str ".headfwd.net") = 0 := by decide
    simp only [List.count_append, h₁, h₂, h₃, List.count_eq_zero.mpr hf] at hcount
    omega
  have hl : scheme ++ str "://" ++ fp ++ str "." ++ base =
      scheme ++ chr ':' :: (str "//" ++ fp ++ str "." ++ base) := by
    simp [str, chr]
  have hr : str "https://" ++ fp ++ str ".headfwd.net" =
      str "https" ++ chr ':' :: (str "//" ++ fp ++ str "." ++ str "headfwd.net") := by
    simp [str, chr]
  rw [hl, hr] at h
  have hs : scheme = str "https" := by
    have ht := congrArg (List.takeWhile fun b => b ≠ chr ':') h
    rwa [takeWhile_append_of_notMem (List.count_eq_zero.mp hc),
      takeWhile_append_of_notMem (by decide)] at ht
  subst hs
  simpa using h

/-- What an accepted answer of the relay says. -/
theorem verified_response {r : Request} {fp secret : Bytes} {result : Sidecar.RegistrationResult}
    (h : Sidecar.verifiedResult (computeFingerprint P publicKey)
      (.answered 200 [] (.ok ⟨(verifyResponse env r fp secret).fingerprint,
        (verifyResponse env r fp secret).tunnelURL, (verifyResponse env r fp secret).publicURL⟩)) =
      .ok result) :
    fp = computeFingerprint P publicKey ∧ result.tunnelURL = tunnelURLFor fp secret := by
  obtain ⟨hf, hu, hp⟩ := Sidecar.verifiedResult_answered h
  obtain rfl : fp = computeFingerprint P publicKey := hf
  rw [← computeFingerprint_eq, Sidecar.publicURLFromFingerprint_computeFingerprint] at hp
  obtain ⟨hs, hb⟩ := publicURL_parts (colon_notMem_fingerprint publicKey) hp
  use rfl
  rw [hu]
  simp only [verifyResponse, hs, hb]
  rw [if_neg (by decide)]
  simp [tunnelURLFor, str]

theorem urlAuthority_tunnelURLFor (pk secret : Bytes) :
    urlAuthority (tunnelURLFor (computeFingerprint P pk) secret) =
      some (computeFingerprint P pk ++ str ".headfwd.net") := by
  have hp : str "wss://" ++ Sidecar.computeFingerprint P pk ++ str ".headfwd.net/" <+:
      tunnelURLFor (computeFingerprint P pk) secret :=
    ⟨str "tunnel?auth=" ++ secret, by simp [tunnelURLFor, computeFingerprint_eq, str]⟩
  exact (Sidecar.tunnelURL_parts hp).2

theorem extractFingerprint_host (pk : Bytes) :
    extractFingerprint (computeFingerprint P pk ++ str ".headfwd.net") =
      computeFingerprint P pk := by
  have hh : computeFingerprint P pk ++ str ".headfwd.net" =
      computeFingerprint P pk ++ chr '.' :: str "headfwd.net" := rfl
  rw [hh]
  refine extractFingerprint_append (Sidecar.length_computeFingerprint pk) ?_ (by decide) (by decide)
    (by decide)
  intro b hb
  obtain ⟨n, hn, rfl⟩ := Sidecar.mem_computeFingerprint hb
  have hd : ∀ {n : ℕ}, n < 16 → isFingerprintByte (hexDigit n) = true := by decide
  exact hd hn

theorem tunnelAuth_tunnelURLFor (pk random : Bytes) :
    tunnelAuth (tunnelURLFor (computeFingerprint P pk) (randomHex random)) = randomHex random := by
  have hb : ∀ c, (∀ n < 16, c ≠ hexDigit n) → c ∉ str "wss://" → c ∉ str ".headfwd.net/tunnel" →
      c ∉ str "wss://" ++ computeFingerprint P pk ++ str ".headfwd.net/tunnel" := by
    intro c hc h₁ h₂ h
    rcases List.mem_append.mp h with h | h
    · rcases List.mem_append.mp h with h | h
      · exact h₁ h
      · obtain ⟨n, hn, he⟩ := Sidecar.mem_computeFingerprint h
        exact hc n hn he
    · exact h₂ h
  have hu : tunnelURLFor (computeFingerprint P pk) (randomHex random) =
      str "wss://" ++ computeFingerprint P pk ++ str ".headfwd.net/tunnel" ++
        chr '?' :: (str "auth" ++ chr '=' :: randomHex random) := by
    simp [tunnelURLFor, str, chr]
  have hk : ∀ b ∈ str "auth", b ∉ queryMarks := by decide +kernel
  rw [tunnelAuth, hu]
  exact queryGet_urlQuery (hb _ (by decide) (by decide) (by decide))
    (hb _ (by decide) (by decide) (by decide)) (by decide) hk fun b hb => notMem_queryMarks hb

/-- The sidecar in the loop dials with a secret that was issued for its fingerprint, and its dial
under way is for that fingerprint. -/
structure Sound (P : Primitives) (env : Environment) (publicKey : Bytes) (s : System) : Prop where
  tracked : s.server.Tracked env
  looping : ∀ url dial, s.sidecar = .looping url dial → ∃ j proof c secret,
    .issued j (computeFingerprint P publicKey) proof secret c ∈ s.server.registry.log ∧
      url = tunnelURLFor (computeFingerprint P publicKey) secret
  dialled : ∀ url i, s.sidecar = .looping url (some i) → ∃ d, s.server.tunnels.dials i = some d ∧
    ∀ fp auth, d = .authorised fp auth → fp = computeFingerprint P publicKey

theorem Sound.initial : System.initial.Sound P env publicKey where
  tracked := .initial
  looping := nofun
  dialled := nofun

/-- Where the sidecar in the loop dials, and with which secret. -/
theorem Sound.target (h : s.Sound P env publicKey) {url : Bytes} {dial : Option ℕ}
    (hl : s.sidecar = .looping url dial) :
    urlAuthority url = some (computeFingerprint P publicKey ++ str ".headfwd.net") ∧
      tunnelAuth url ≠ [] ∧ ∃ j proof c,
        .issued j (computeFingerprint P publicKey) proof (tunnelAuth url) c ∈
          s.server.registry.log := by
  obtain ⟨j, proof, c, secret, hm, rfl⟩ := h.looping url dial hl
  obtain ⟨random, hr, rfl⟩ :=
    h.tracked.drawn secret (h.tracked.fresh.drew j secret (.inr ⟨_, proof, c, hm⟩))
  rw [tunnelAuth_tunnelURLFor]
  refine ⟨urlAuthority_tunnelURLFor publicKey _, ?_, j, proof, c, hm⟩
  intro h0
  have hlen : (randomHex random).length = 64 := by simp [randomHex, hr]
  rw [h0] at hlen
  cases hlen

theorem server_log {a : Action} {t t' : Server} (hs : t.step P env now a = some t') :
    t.registry.log ⊆ t'.registry.log := by
  rcases Server.step_cases hs with ⟨b, r, -, hr, rfl⟩ | ⟨b, x, -, -, -, rfl⟩ | ⟨b, x, -, -, rfl⟩
  · exact (Registry.step_effect hr).log_sublist.subset
  · exact List.Subset.refl _
  · exact List.Subset.refl _

/-- A dial stays a dial for its fingerprint. -/
theorem dialled_step {a : Action} {t t' : Server} (hs : t.step P env now a = some t') {i : ℕ}
    {fp : Bytes} (h : ∃ d, t.tunnels.dials i = some d ∧ ∀ fp' auth, d = .authorised fp' auth → fp' = fp) :
    ∃ d, t'.tunnels.dials i = some d ∧ ∀ fp' auth, d = .authorised fp' auth → fp' = fp := by
  rcases Server.step_cases hs with ⟨b, r, -, -, rfl⟩ | ⟨b, x, -, -, hx, rfl⟩ | ⟨b, x, -, -, rfl⟩
  · exact h
  · obtain ⟨d, hd, hf⟩ := h
    rcases Tunnels.dials_kept hx hd with hd' | ⟨-, d', hd', hn⟩
    · exact ⟨d, hd', hf⟩
    · exact ⟨d', hd', fun fp' auth ha => absurd ha (hn fp' auth)⟩
  · exact h

theorem Sound.step (h : s.Sound P env publicKey) (he : Effect P env publicKey now s a s') :
    s'.Sound P env publicKey := by
  cases he with
  | relayed a server hs =>
    refine ⟨h.tracked.step hs, ?_, fun url i hl => dialled_step hs (h.dialled url i hl)⟩
    intro url dial hl
    obtain ⟨j, proof, c, secret, hm, hu⟩ := h.looping url dial hl
    exact ⟨j, proof, c, secret, server_log hs hm, hu⟩
  | restarted =>
    constructor
    · exact h.tracked.restart
    · intro url dial hl
      obtain ⟨-, dial', hs⟩ := disconnect_eq_looping hl
      exact h.looping url dial' hs
    · intro url i hl
      cases (disconnect_eq_looping hl).1
  | requested b server p hs hl hp =>
    exact ⟨h.tracked.step hs, fun url dial hl' => absurd hl' (hp url dial),
      fun url i hl' => absurd hl' (hp url (some i))⟩
  | ended err hl => exact ⟨h.tracked, nofun, nofun⟩
  | entered j resp result hj hr hv =>
    refine ⟨h.tracked, ?_, nofun⟩
    intro url dial hl
    cases hl
    obtain ⟨r, fp, secret, proof, c, rfl, hm⟩ := h.tracked.granting j resp hr
    obtain ⟨rfl, hu⟩ := verified_response hv
    exact ⟨j, proof, c, secret, hm, hu⟩
  | dialled i url host server hl hh hs =>
    refine ⟨h.tracked.step hs, ?_, ?_⟩
    · intro url' dial hl'
      cases hl'
      obtain ⟨j, proof, c, secret, hm, hu⟩ := h.looping url none hl
      exact ⟨j, proof, c, secret, server_log hs hm, hu⟩
    · intro url' i' hl'
      cases hl'
      obtain rfl := Option.some.inj ((h.target hl).1.symm.trans hh)
      obtain ⟨-, rfl⟩ := Server.step_dialBegin.mp hs
      refine ⟨_, Table.set_self, ?_⟩
      rcases Tunnels.authorise_cases s.server.registry.registrations
        (computeFingerprint P publicKey ++ str ".headfwd.net") (tunnelAuth url) with
        ⟨e, he⟩ | ⟨reg, -, -, he⟩
      · simp [he]
      · rw [he, extractFingerprint_host]
        rintro fp auth ⟨⟩
        rfl
  | lost url i hl =>
    refine ⟨h.tracked, ?_, nofun⟩
    intro url' dial hl'
    cases hl'
    exact h.looping url (some i) hl

/-- What a dial of the sidecar comes to. -/
theorem authorise_host (registrations : Table Bytes Registration) {auth : Bytes}
    (ha : auth ≠ []) :
    authorise registrations (computeFingerprint P publicKey ++ str ".headfwd.net") auth =
        .authorised (computeFingerprint P publicKey) auth ↔
      ∃ reg, registrations (computeFingerprint P publicKey) = some reg ∧ reg.secret = auth := by
  constructor
  · intro h
    rcases Tunnels.authorise_cases registrations
      (computeFingerprint P publicKey ++ str ".headfwd.net") auth with ⟨e, he⟩ | ⟨reg, hr, hs, -⟩
    · cases h.symm.trans he
    · exact ⟨reg, extractFingerprint_host (P := P) publicKey ▸ hr, hs⟩
  · rintro ⟨reg, hr, hs⟩
    have hfp : computeFingerprint P publicKey ≠ [] := by
      intro h0
      have hl := Sidecar.length_computeFingerprint (P := P) publicKey
      rw [computeFingerprint_eq, h0] at hl
      cases hl
    simp [authorise, ha, extractFingerprint_host, hfp, hr, hs]

/-- The sidecar never leaves the loop. -/
theorem looping_step (he : Effect P env publicKey now s a s') {url : Bytes} {dial : Option ℕ}
    (hl : s.sidecar = .looping url dial) : ∃ dial', s'.sidecar = .looping url dial' := by
  cases he with
  | relayed a server hs => exact ⟨dial, hl⟩
  | restarted => exact ⟨none, by simp [disconnect, hl]⟩
  | requested b server p hs hn hp => exact absurd hl (hn url dial)
  | ended err hn => exact absurd hl (hn url dial)
  | entered j resp result hj hr hv => cases hj.symm.trans hl
  | dialled i url' host server hl' hh hs =>
    cases hl'.symm.trans hl
    exact ⟨some i, rfl⟩
  | lost url' i hl' =>
    cases hl'.symm.trans hl
    exact ⟨none, rfl⟩

/-- No step of the relay brings back what the sidecar in the loop needs. -/
theorem Sound.held_of_relayed (h : s.Sound P env publicKey) {b : Action} {server : Server}
    (hs : s.server.step P env now b = some server) {url : Bytes} {dial : Option ℕ}
    (hl : s.sidecar = .looping url dial)
    (hh : (⟨server, .looping url dial⟩ : System).Registered P publicKey url ∨
      ∃ i, dial = some i ∧ (⟨server, .looping url dial⟩ : System).Admitted P publicKey i) :
    s.Registered P publicKey url ∨ ∃ i, dial = some i ∧ s.Admitted P publicKey i := by
  obtain ⟨-, -, j, proof, c, hm⟩ := h.target hl
  rcases Server.step_cases hs with ⟨b, r, -, hr, rfl⟩ | ⟨b, x, -, -, hx, rfl⟩ | ⟨b, x, -, -, rfl⟩
  · rcases hh with ⟨reg, hreg, hsec⟩ | ha
    · exact .inl ⟨reg, h.tracked.fresh.registrations_step (Registry.step_effect hr) hm hreg hsec, hsec⟩
    · exact .inr ha
  · rcases hh with hreg | ⟨i, rfl, ha⟩
    · exact .inl hreg
    · right
      use i, rfl
      obtain ⟨d, hd, -⟩ := h.dialled url i hl
      rcases Tunnels.dials_kept hx hd with hd' | ⟨⟨fp, auth, rfl⟩, -⟩
      · rcases ha with ⟨fp, auth, ha⟩ | ⟨t, ha, ht⟩
        · cases hd'.symm.trans ha
          exact .inl ⟨fp, auth, hd⟩
        · cases hd'.symm.trans ha
          exact .inr ⟨t, hd, Tunnels.tunnels_step (Tunnels.step_effect hx)
            (h.tracked.numbered.installed i t hd) ht⟩
      · exact .inl ⟨fp, auth, hd⟩
  · exact hh

/-- What the sidecar in the loop needs of the relay, once lost, never comes back. -/
theorem Sound.held_of_step (h : s.Sound P env publicKey) (he : Effect P env publicKey now s a s')
    {url : Bytes} {dial : Option ℕ} (hl : s.sidecar = .looping url dial)
    (hh : s'.Held P publicKey) : s.Held P publicKey := by
  obtain ⟨url', dial', hl', hh⟩ := hh
  use url, dial, hl
  cases he with
  | relayed b server hs =>
    cases hl.symm.trans hl'
    apply h.held_of_relayed hs hl
    exact hh
  | restarted =>
    have hd : s.disconnect = .looping url none := by simp [disconnect, hl]
    cases hd.symm.trans hl'
    rcases hh with ⟨reg, hreg, -⟩ | ⟨i, hi, -⟩
    · cases hreg
    · cases hi
  | requested b server p hs hn hp => exact absurd hl (hn url dial)
  | ended err hn => exact absurd hl (hn url dial)
  | entered j resp result hj hr hv => cases hj.symm.trans hl
  | dialled i url'' host server hl'' hh' hs =>
    cases hl''.symm.trans hl
    cases hl'
    obtain ⟨hhost, hne, -⟩ := h.target hl
    obtain rfl := Option.some.inj (hhost.symm.trans hh')
    obtain ⟨-, rfl⟩ := Server.step_dialBegin.mp hs
    left
    rcases hh with hreg | ⟨k, hk, ha⟩
    · exact hreg
    · cases hk
      -- The dial has just been answered; if it was authorised, the relay holds the secret.
      rcases Tunnels.authorise_cases s.server.registry.registrations
        (computeFingerprint P publicKey ++ str ".headfwd.net") (tunnelAuth url) with
        ⟨e, he⟩ | ⟨reg, hr, hsec, -⟩
      · rcases ha with ⟨fp, auth, ha⟩ | ⟨t, ha, -⟩
        · cases (Table.set_self.symm.trans ha).symm.trans (congrArg some he)
        · cases (Table.set_self.symm.trans ha).symm.trans (congrArg some he)
      · rw [extractFingerprint_host] at hr
        exact ⟨reg, hr, hsec⟩
  | lost url'' i hl'' =>
    cases hl''.symm.trans hl
    cases hl'
    rcases hh with hreg | ⟨k, hk, -⟩
    · exact .inl hreg
    · cases hk

theorem Installed.held (h : s.Installed P publicKey) : s.Held P publicKey := by
  obtain ⟨url, i, t, hl, hi, ht⟩ := h
  exact ⟨url, some i, hl, .inr ⟨i, rfl, .inr ⟨t, hi, ht⟩⟩⟩

/-- The secret of the sidecar in the loop stays with the relay over a step that does not take it
away. -/
theorem registered_step (he : Effect P env publicKey now s a s') (hk : s.Keeps P publicKey a)
    (h : ∀ url dial, s.sidecar = .looping url dial → s.Registered P publicKey url) {url : Bytes}
    {dial : Option ℕ} (hl : s'.sidecar = .looping url dial) : s'.Registered P publicKey url := by
  cases he with
  | relayed b server hs =>
    obtain ⟨reg, hreg, hsec⟩ := h url dial hl
    rcases Server.step_cases hs with ⟨b, r, rfl, hr, rfl⟩ | ⟨b, x, -, -, -, rfl⟩ | ⟨b, x, -, -, rfl⟩
    · refine ⟨reg, ?_, hsec⟩
      cases Registry.step_effect hr with
      | initReplied i e nonces hn => exact hreg
      | initChecked i call publicKey hi hf => exact hreg
      | initGenerated i random priv c hi hn hp hexp ha => exact hreg
      | initStored i c hi => exact hreg
      | verifyReplied i e hi => exact hreg
      | verifyDropped i call e fp c hc hd => exact hreg
      | verifyAdmitted i call r req c hi hc hexp ha => exact hreg
      | verifyProved i random r req c fresh hi hp hf => exact hreg
      | verifyAccepted i r req c secret hi =>
        have hne := hk url dial hl r req c secret hi
        exact (Table.set_of_ne hne.symm).trans hreg
    · exact ⟨reg, hreg, hsec⟩
    · exact ⟨reg, hreg, hsec⟩
  | restarted =>
    obtain ⟨-, dial', hd⟩ := disconnect_eq_looping hl
    exact absurd hd (hk url dial')
  | requested b server p hs hn hp => exact absurd hl (hp url dial)
  | ended err hn => cases hl
  | entered j resp result hj hr hv =>
    cases hl
    have hreg := hk j resp hj hr
    obtain ⟨-, ht, -⟩ := Sidecar.verifiedResult_answered hv
    rw [ht]
    exact hreg
  | dialled i url' host server hl' hh hs =>
    cases hl
    obtain ⟨-, rfl⟩ := Server.step_dialBegin.mp hs
    exact h url none hl'
  | lost url' i hl' =>
    cases hl
    exact h url (some i) hl'

end System

/-- One sidecar and the relay, under any interleaving with restarts and other clients. -/
def system (P : Primitives) (env : Environment) (publicKey x25519Key : Bytes) :
    Machine (ℕ × System) (ℕ × SystemAction) :=
  .timed (· = System.initial) (System.step P env publicKey x25519Key)

/-- Some sequence of steps, none of which restarts the sidecar, installs its tunnel. -/
def Recoverable (P : Primitives) (env : Environment) (publicKey x25519Key : Bytes)
    (s : ℕ × System) : Prop :=
  ∃ as s', (system P env publicKey x25519Key).exec s as = some s' ∧ s'.2.Installed P publicKey

/-- The sidecar has entered its reconnect loop. -/
def System.InLoop (s : System) : Prop := ∃ url dial, s.sidecar = .looping url dial

variable {P : Primitives} {env : Environment} {publicKey x25519Key : Bytes} {s : ℕ × System}

theorem sound_of_reachable (hr : (system P env publicKey x25519Key).Reachable s) :
    s.2.Sound P env publicKey := by
  refine hr.invariant (P := fun s => s.2.Sound P env publicKey) ?_ ?_
  · rintro ⟨now, s⟩ rfl
    exact .initial
  · rintro s a s' - - hs h
    obtain ⟨-, -, hs⟩ := Machine.timed_step.mp hs
    exact h.step (System.step_effect hs)

/-- Once the relay no longer holds what the sidecar needs, nothing installs the tunnel. -/
theorem held_of_recoverable (h : s.2.Sound P env publicKey) (hl : s.2.InLoop)
    (hr : Recoverable P env publicKey x25519Key s) : s.2.Held P publicKey := by
  obtain ⟨as, s', hrun, hi⟩ := hr
  by_contra hn
  have hdead : s'.2.Sound P env publicKey ∧ s'.2.InLoop ∧ ¬ s'.2.Held P publicKey := by
    refine Machine.exec_invariant (Q := fun s : ℕ × System =>
      s.2.Sound P env publicKey ∧ s.2.InLoop ∧ ¬ s.2.Held P publicKey) ?_ ⟨h, hl, hn⟩ hrun
    rintro t a t' - ht ⟨h, ⟨url, dial, hl⟩, hn⟩
    obtain ⟨-, -, ht⟩ := Machine.timed_step.mp ht
    have he := System.step_effect ht
    obtain ⟨dial', hl'⟩ := System.looping_step he hl
    exact ⟨h.step he, ⟨url, dial', hl'⟩, fun hh => hn (h.held_of_step he hl hh)⟩
  exact hdead.2.2 hi.held

theorem recoverable_of_step {a : SystemAction} {t : System}
    (hs : s.2.step P env publicKey x25519Key s.1 a = some t)
    (h : Recoverable P env publicKey x25519Key (s.1, t)) :
    Recoverable P env publicKey x25519Key s := by
  obtain ⟨as, s', hrun, hi⟩ := h
  have hstep : (system P env publicKey x25519Key).step s (s.1, a) = some (s.1, t) :=
    Machine.timed_step.mpr ⟨le_rfl, rfl, hs⟩
  refine ⟨(s.1, a) :: as, s', ?_, hi⟩
  rw [Machine.exec_cons, hstep, Option.bind_some, hrun]

theorem recoverable_of_authorised {url auth : Bytes} {i : ℕ}
    (hl : s.2.sidecar = .looping url (some i))
    (hi : s.2.server.tunnels.dials i = some (.authorised (computeFingerprint P publicKey) auth)) :
    Recoverable P env publicKey x25519Key s := by
  have hinstall : ∃ t, s.2.server.step P env s.1 (.tunnel (.dialInstall i)) = some t ∧
      t.tunnels.dials i = some (.installed s.2.server.tunnels.next) ∧
      t.tunnels.tunnels (computeFingerprint P publicKey) = some s.2.server.tunnels.next := by
    simp [Server.step, Server.busy, Tunnels.step, Tunnels.dialInstall, hi]
  obtain ⟨t, ht, hd, hm⟩ := hinstall
  have hstep : s.2.step P env publicKey x25519Key s.1 (.relay (.tunnel (.dialInstall i))) =
      some ⟨t, s.2.sidecar⟩ := by
    simp [System.step, ht]
  exact recoverable_of_step hstep ⟨[], _, rfl, url, i, _, hl, hd, hm⟩

/-- A sidecar between two dials gets its tunnel back by dialling. -/
theorem recoverable_of_registered (h : s.2.Sound P env publicKey) {url : Bytes}
    (hl : s.2.sidecar = .looping url none) (hreg : s.2.Registered P publicKey url) :
    Recoverable P env publicKey x25519Key s := by
  obtain ⟨hh, hne, -⟩ := h.target hl
  obtain ⟨n, hn⟩ := h.tracked.numbered.bounded
  have hdial : ∃ t, s.2.server.step P env s.1 (.tunnel (.dialBegin n
        (computeFingerprint P publicKey ++ str ".headfwd.net") (tunnelAuth url))) = some t ∧
      t.tunnels.dials n = some (.authorised (computeFingerprint P publicKey) (tunnelAuth url)) := by
    refine ⟨_, Server.step_dialBegin.mpr ⟨hn n le_rfl, rfl⟩, ?_⟩
    exact Table.set_self.trans (congrArg some ((System.authorise_host _ hne).mpr hreg))
  obtain ⟨t, ht, hd⟩ := hdial
  have hstep : s.2.step P env publicKey x25519Key s.1 (.dial n) =
      some ⟨t, .looping url (some n)⟩ := by
    simp [System.step, hl, hh, ht]
  exact recoverable_of_step hstep (recoverable_of_authorised rfl hd)

theorem recoverable_of_held (h : s.2.Sound P env publicKey) (hh : s.2.Held P publicKey) :
    Recoverable P env publicKey x25519Key s := by
  obtain ⟨url, dial, hl, hreg | ⟨i, rfl, ha⟩⟩ := hh
  · cases dial with
    | none => exact recoverable_of_registered h hl hreg
    | some i =>
      -- Give up the dial under way and start another one.
      have hstep : s.2.step P env publicKey x25519Key s.1 .lose =
          some { s.2 with sidecar := .looping url none } := by
        simp [System.step, hl]
      have hlost := h.step (System.step_effect hstep)
      exact recoverable_of_step hstep (recoverable_of_registered hlost rfl hreg)
  · rcases ha with ⟨fp, auth, ha⟩ | ⟨t, ha, ht⟩
    · obtain ⟨d, hd, hf⟩ := h.dialled url i hl
      cases hd.symm.trans ha
      cases hf fp auth rfl
      exact recoverable_of_authorised hl ha
    · exact ⟨[], s, rfl, url, i, t, hl, ha, ht⟩

/-- A restart strands every sidecar that is in its loop. -/
theorem not_recoverable_restart (hr : (system P env publicKey x25519Key).Reachable s)
    (hl : s.2.InLoop) {now : ℕ} {s' : ℕ × System}
    (hs : (system P env publicKey x25519Key).step s (now, .restart) = some s') :
    s'.2.InLoop ∧ ¬ Recoverable P env publicKey x25519Key s' := by
  obtain ⟨url, dial, hl⟩ := hl
  have h' := sound_of_reachable (.step hr trivial hs)
  obtain ⟨-, -, hs⟩ := Machine.timed_step.mp hs
  obtain ⟨dial', hl'⟩ := System.looping_step (System.step_effect hs) hl
  have hloop : s'.2.InLoop := ⟨url, dial', hl'⟩
  use hloop
  intro hrec
  obtain ⟨url'', dial'', hl'', hh⟩ := held_of_recoverable h' hloop hrec
  obtain ⟨now', t⟩ := s'
  cases hs
  rcases hh with ⟨reg, hreg, -⟩ | ⟨i, rfl, -⟩
  · cases hreg
  · cases (System.disconnect_eq_looping hl'').1

/-- A sidecar in its loop can get its tunnel installed exactly as long as the relay holds the secret
it dials with, or has admitted its dial. It can in every state of a run in which no step takes the
secret from the relay. -/
theorem recovery_iff_held :
    (∀ s, (system P env publicKey x25519Key).Reachable s → s.2.InLoop →
      (Recoverable P env publicKey x25519Key s ↔ s.2.Held P publicKey)) ∧
    ∀ s, (system P env publicKey x25519Key).Reach (fun s a => s.2.Keeps P publicKey a.2) s →
      s.2.InLoop → Recoverable P env publicKey x25519Key s := by
  constructor
  · intro s hr hl
    have h := sound_of_reachable hr
    exact ⟨held_of_recoverable h hl, recoverable_of_held h⟩
  · intro s hr hl
    have h : s.2.Sound P env publicKey ∧
        ∀ url dial, s.2.sidecar = .looping url dial → s.2.Registered P publicKey url := by
      refine hr.invariant (P := fun s => s.2.Sound P env publicKey ∧
        ∀ url dial, s.2.sidecar = .looping url dial → s.2.Registered P publicKey url) ?_ ?_
      · rintro ⟨now, s⟩ rfl
        exact ⟨.initial, nofun⟩
      · rintro s a s' - hk hs ⟨h, hreg⟩
        obtain ⟨-, -, hs⟩ := Machine.timed_step.mp hs
        have he := System.step_effect hs
        exact ⟨h.step he, fun url dial hl => System.registered_step he hk hreg hl⟩
    obtain ⟨url, dial, hl⟩ := hl
    exact recoverable_of_held h.1 ⟨url, dial, hl, .inl (h.2 url dial hl)⟩

/-- The registration written out in numbers, by a sidecar, up to its loop. -/
def enterRun : List (ℕ × SystemAction) :=
  [(0, .register 0 Vector.post true),
    (0, .relay (.registry (.initGenerate 0 (List.replicate 32 3) (some Vector.ephemeralPriv)))),
    (0, .relay (.registry (.initStore 0))), (1, .verify 1 Vector.post true),
    (1, .relay (.registry (.verifyCompare 1 (List.replicate 32 4)))),
    (1, .relay (.registry (.verifyAccept 1))), (2, .enter)]

theorem inLoop_enterRun : ∃ s,
    (system Vector.exchange headfwdNet Vector.publicKey Vector.sidecarPriv).exec
      (0, System.initial) enterRun = some s ∧ s.1 = 2 ∧
      s.2.sidecar = .looping (System.tunnelURLFor Vector.fingerprint Vector.secret) none := by
  have h : ((system Vector.exchange headfwdNet Vector.publicKey Vector.sidecarPriv).exec
      (0, System.initial) enterRun).map (fun s => (s.1, match s.2.sidecar with
        | .looping url none => some url
        | _ => none)) =
      some (2, some (System.tunnelURLFor Vector.fingerprint Vector.secret)) := by
    decide +kernel
  obtain ⟨s, hs, he⟩ := Option.map_eq_some_iff.mp h
  obtain ⟨hnow, hp⟩ := Prod.mk.injEq .. ▸ he
  use s, hs, hnow
  split at hp
  · rename_i url hl
    cases hp
    exact hl
  · cases hp

theorem reachable_enterRun {s : ℕ × System}
    (h : (system Vector.exchange headfwdNet Vector.publicKey Vector.sidecarPriv).exec
      (0, System.initial) enterRun = some s) :
    (system Vector.exchange headfwdNet Vector.publicKey Vector.sidecarPriv).Reachable s := by
  have h₀ : (system Vector.exchange headfwdNet Vector.publicKey Vector.sidecarPriv).init
      (0, System.initial) := rfl
  exact .exec (fun _ _ _ => trivial) (.init h₀) h

/-- Registered, restarted, stranded. -/
theorem restart_strands : ¬ ∀ s,
    (system Vector.exchange headfwdNet Vector.publicKey Vector.sidecarPriv).Reachable s →
      s.2.InLoop →
      Recoverable Vector.exchange headfwdNet Vector.publicKey Vector.sidecarPriv s := by
  intro hall
  obtain ⟨s, hs, hnow, hl⟩ := inLoop_enterRun
  have hr := reachable_enterRun hs
  have hstep : (system Vector.exchange headfwdNet Vector.publicKey Vector.sidecarPriv).step s
      (3, .restart) = some (3, ⟨s.2.server.restart, s.2.disconnect⟩) :=
    Machine.timed_step.mpr ⟨by omega, rfl, rfl⟩
  obtain ⟨hloop, hn⟩ := not_recoverable_restart hr ⟨_, _, hl⟩ hstep
  exact hn (hall _ (.step hr trivial hstep) hloop)

/-- Without a restart the sidecar of that run can dial. -/
theorem recovery_iff_held_enterRun : ∃ s,
    (system Vector.exchange headfwdNet Vector.publicKey Vector.sidecarPriv).exec
      (0, System.initial) enterRun = some s ∧
      Recoverable Vector.exchange headfwdNet Vector.publicKey Vector.sidecarPriv s := by
  obtain ⟨s, hs, -, hl⟩ := inLoop_enterRun
  have hreg : ((system Vector.exchange headfwdNet Vector.publicKey Vector.sidecarPriv).exec
      (0, System.initial) enterRun).bind (fun s =>
        (s.2.server.registry.registrations (computeFingerprint Vector.exchange Vector.publicKey)).map
          (·.secret)) =
      some (tunnelAuth (System.tunnelURLFor Vector.fingerprint Vector.secret)) := by
    decide +kernel
  rw [hs, Option.bind_some] at hreg
  obtain ⟨reg, hr, hsec⟩ := Option.map_eq_some_iff.mp hreg
  use s, hs
  exact (recovery_iff_held.1 s (reachable_enterRun hs) ⟨_, _, hl⟩).mpr
    ⟨_, _, hl, .inl ⟨reg, hr, hsec⟩⟩

end HeadFwd.EndToEnd
