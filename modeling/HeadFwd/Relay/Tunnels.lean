import HeadFwd.Relay.Registry

/-! # The tunnel map of the relay

`handleTunnel` authorises a dial against the registrations, and later, in a
critical section of its own, closes and replaces the tunnel of the fingerprint.
The reader of a connection ends by closing its websocket and then, again under
the lock, retracting the entry if it still points to this connection.
Connections are numbered in the order in which they are installed.
-/

namespace HeadFwd.Relay

open Text Net Transition

/-- Where the `readTunnel` goroutine of a connection stands: reading, past the failed read with the
websocket closed, or past its cleanup. -/
inductive Reader | running | closing | cleaned
  deriving DecidableEq, Repr

/-- An installed connection. `auth` is the secret its dial carried. -/
structure Conn where
  fingerprint : Bytes
  auth : Bytes
  closed : Bool
  reader : Reader

/-- Where a `handleTunnel` call stands. -/
inductive DialThread where
  | authorised (fingerprint auth : Bytes)
  | replied (e : HttpError)
  | upgradeFailed
  | installed (t : ℕ)

structure Tunnels where
  tunnels : Table Bytes ℕ
  conns : Table ℕ Conn
  next : ℕ
  dials : Table ℕ DialThread

def Tunnels.initial : Tunnels where
  tunnels := .empty
  conns := .empty
  next := 0
  dials := .empty

inductive TunnelAction where
  | dialBegin (i : ℕ) (host auth : Bytes)
  | dialFail (i : ℕ)
  | dialInstall (i : ℕ)
  | readFail (t : ℕ)
  | cleanup (t : ℕ)

/-- Close the websocket of a connection. -/
def closeWs (conns : Table ℕ Conn) (t : Option ℕ) : Table ℕ Conn := fun u =>
  if t = some u then (conns u).map fun c => { c with closed := true } else conns u

/-- The answer of `handleTunnel` before the upgrade. -/
def authorise (registrations : Table Bytes Registration) (host auth : Bytes) : DialThread :=
  if auth = [] then .replied ⟨str "unauthorized", 401⟩
  else
    let fingerprint := extractFingerprint host
    if fingerprint = [] then .replied ⟨str "invalid subdomain", 400⟩
    else match registrations fingerprint with
      | none => .replied ⟨str "unauthorized", 401⟩
      | some reg =>
        if reg.secret ≠ auth then .replied ⟨str "unauthorized", 401⟩
        else .authorised fingerprint auth

namespace Tunnels

def dialInstall (s : Tunnels) (i : ℕ) : Option Tunnels :=
  match s.dials i with
  | some (.authorised fingerprint auth) =>
    some { s with
      conns := (closeWs s.conns (s.tunnels fingerprint)).set s.next ⟨fingerprint, auth, false, .running⟩
      tunnels := s.tunnels.set fingerprint s.next
      next := s.next + 1
      dials := s.dials.set i (.installed s.next) }
  | _ => none

def readFail (s : Tunnels) (t : ℕ) : Option Tunnels :=
  match s.conns t with
  | some c =>
    if c.reader = .running then
      some { s with conns := s.conns.set t { c with closed := true, reader := .closing } }
    else none
  | none => none

def cleanup (s : Tunnels) (t : ℕ) : Option Tunnels :=
  match s.conns t with
  | some c =>
    if c.reader = .closing then
      let current := s.tunnels c.fingerprint = some t
      some { s with
        tunnels := if current then s.tunnels.erase c.fingerprint else s.tunnels
        conns := s.conns.set t { c with reader := .cleaned } }
    else none
  | none => none

def step (registrations : Table Bytes Registration) (s : Tunnels) : TunnelAction → Option Tunnels
  | .dialBegin i host auth =>
    match s.dials i with
    | some _ => none
    | none => some { s with dials := s.dials.set i (authorise registrations host auth) }
  | .dialFail i =>
    match s.dials i with
    | some (.authorised _ _) => some { s with dials := s.dials.set i .upgradeFailed }
    | _ => none
  | .dialInstall i => s.dialInstall i
  | .readFail t => s.readFail t
  | .cleanup t => s.cleanup t

/-- What a step does to the dials, the connections and the map. -/
inductive Effect (registrations : Table Bytes Registration) (s : Tunnels) :
    TunnelAction → Tunnels → Prop where
  | dialEnded {a : TunnelAction} (i : ℕ) (d : DialThread)
    (hd : ∀ fingerprint auth, d ≠ .authorised fingerprint auth)
    (ha : (∃ host auth, a = .dialBegin i host auth) ∨ a = .dialFail i) :
    Effect registrations s a { s with dials := s.dials.set i d }
  | dialAuthorised (i : ℕ) (host : Bytes) (reg : Registration)
    (hr : registrations (extractFingerprint host) = some reg) :
    Effect registrations s (.dialBegin i host reg.secret)
      { s with dials := s.dials.set i (.authorised (extractFingerprint host) reg.secret) }
  | installed (i : ℕ) (fingerprint auth : Bytes)
    (hi : s.dials i = some (.authorised fingerprint auth)) :
    Effect registrations s (.dialInstall i) { s with
      conns := (closeWs s.conns (s.tunnels fingerprint)).set s.next ⟨fingerprint, auth, false, .running⟩
      tunnels := s.tunnels.set fingerprint s.next
      next := s.next + 1
      dials := s.dials.set i (.installed s.next) }
  | failed (t : ℕ) (c : Conn) (hc : s.conns t = some c) (hr : c.reader = .running) :
    Effect registrations s (.readFail t)
      { s with conns := s.conns.set t { c with closed := true, reader := .closing } }
  | cleaned (t : ℕ) (c : Conn) (hc : s.conns t = some c) (hr : c.reader = .closing) :
    Effect registrations s (.cleanup t) { s with
      tunnels := if s.tunnels c.fingerprint = some t then s.tunnels.erase c.fingerprint
        else s.tunnels
      conns := s.conns.set t { c with reader := .cleaned } }

variable {registrations : Table Bytes Registration} {s s' : Tunnels} {a : TunnelAction}

theorem dialBegin_effect {i : ℕ} {host auth : Bytes}
    (h : s.step registrations (.dialBegin i host auth) = some s') :
    Effect registrations s (.dialBegin i host auth) s' := by
  simp only [step] at h
  split at h
  · cases h
  · cases h
    simp only [authorise]
    split_ifs with ha hf
    · exact .dialEnded i _ (by simp) (.inl ⟨host, auth, rfl⟩)
    · exact .dialEnded i _ (by simp) (.inl ⟨host, auth, rfl⟩)
    · split
      · exact .dialEnded i _ (by simp) (.inl ⟨host, auth, rfl⟩)
      · rename_i reg hr
        split_ifs with hs
        · exact .dialEnded i _ (by simp) (.inl ⟨host, auth, rfl⟩)
        · obtain rfl := not_not.mp hs
          exact .dialAuthorised i host reg hr

theorem step_effect (h : s.step registrations a = some s') : Effect registrations s a s' := by
  cases a with
  | dialBegin i host auth => exact dialBegin_effect h
  | dialFail i =>
    simp only [step] at h
    split at h
    · cases h
      exact .dialEnded i _ (by simp) (.inr rfl)
    · cases h
  | dialInstall i =>
    simp only [step, dialInstall] at h
    split at h
    · rename_i fingerprint auth hi
      cases h
      exact .installed i fingerprint auth hi
    · cases h
  | readFail t =>
    simp only [step, readFail] at h
    split at h
    · rename_i c hc
      split_ifs at h with hr
      cases h
      exact .failed t c hc hr
    · cases h
  | cleanup t =>
    simp only [step, cleanup] at h
    split at h
    · rename_i c hc
      by_cases hr : c.reader = .closing
      · rw [if_pos hr] at h
        cases h
        exact .cleaned t c hc hr
      · rw [if_neg hr] at h
        cases h
    · cases h

/-- A dial is answered, or authorised with the secret of a registration. -/
theorem authorise_cases (registrations : Table Bytes Registration) (host auth : Bytes) :
    (∃ e, authorise registrations host auth = .replied e) ∨
      ∃ reg, registrations (extractFingerprint host) = some reg ∧ reg.secret = auth ∧
        authorise registrations host auth = .authorised (extractFingerprint host) auth := by
  simp only [authorise]
  split_ifs with ha hf
  · exact .inl ⟨_, rfl⟩
  · exact .inl ⟨_, rfl⟩
  · split
    · exact .inl ⟨_, rfl⟩
    · rename_i reg hr
      split_ifs with hs
      · exact .inl ⟨_, rfl⟩
      · exact .inr ⟨reg, hr, not_not.mp hs, rfl⟩

/-- What a step does to the dials: a new one is answered or authorised, and an authorised one fails
or is installed under the next number. -/
theorem dials_step (h : s.step registrations a = some s') :
    s'.dials = s.dials ∧ s'.next = s.next ∨
    (∃ i host auth, a = .dialBegin i host auth ∧ s.dials i = none ∧
      s'.dials = s.dials.set i (authorise registrations host auth) ∧ s'.next = s.next) ∨
    ∃ i fp auth d, s.dials i = some (.authorised fp auth) ∧ s'.dials = s.dials.set i d ∧
      (d = .upgradeFailed ∧ s'.next = s.next ∨ d = .installed s.next ∧ s'.next = s.next + 1) := by
  cases a with
  | dialBegin i host auth =>
    simp only [step] at h
    split at h
    · cases h
    · rename_i hi
      cases h
      exact .inr (.inl ⟨i, host, auth, rfl, hi, rfl, rfl⟩)
  | dialFail i =>
    simp only [step] at h
    split at h
    · rename_i fp auth hi
      cases h
      exact .inr (.inr ⟨i, fp, auth, _, hi, rfl, .inl ⟨rfl, rfl⟩⟩)
    · cases h
  | dialInstall i =>
    simp only [step, dialInstall] at h
    split at h
    · rename_i fp auth hi
      cases h
      exact .inr (.inr ⟨i, fp, auth, _, hi, rfl, .inr ⟨rfl, rfl⟩⟩)
    · cases h
  | readFail t =>
    cases step_effect h with
    | dialEnded i d hd ha => rcases ha with ⟨host, auth, ha⟩ | ha <;> cases ha
    | failed t c hc hr => exact .inl ⟨rfl, rfl⟩
  | cleanup t =>
    cases step_effect h with
    | dialEnded i d hd ha => rcases ha with ⟨host, auth, ha⟩ | ha <;> cases ha
    | cleaned t c hc hr => exact .inl ⟨rfl, rfl⟩

/-- A dial that is not waiting for its upgrade keeps its outcome. -/
theorem dials_kept (h : s.step registrations a = some s') {i : ℕ} {d : DialThread}
    (hi : s.dials i = some d) :
    s'.dials i = some d ∨ (∃ fp auth, d = .authorised fp auth) ∧
      ∃ d', s'.dials i = some d' ∧ ∀ fp auth, d' ≠ .authorised fp auth := by
  rcases dials_step h with ⟨he, -⟩ | ⟨k, host, auth, -, hk, he, -⟩ | ⟨k, fp, auth, d', hk, he, hd⟩
  · exact .inl (he ▸ hi)
  · have hne : i ≠ k := by
      rintro rfl
      cases hi.symm.trans hk
    exact .inl (by rw [he, Table.set_of_ne hne, hi])
  · by_cases hik : i = k
    · subst hik
      cases hi.symm.trans hk
      refine .inr ⟨⟨fp, auth, rfl⟩, d', by rw [he, Table.set_self], ?_⟩
      rcases hd with ⟨rfl, -⟩ | ⟨rfl, -⟩
      · nofun
      · nofun
    · exact .inl (by rw [he, Table.set_of_ne hik, hi])

end Tunnels

end HeadFwd.Relay
