import HeadFwd.Relay.Tunnels

/-! # Reconnects

Any number of connections of one fingerprint may be alive at once, each with a
cleanup still to come. The map keeps pointing to the latest of them until that
one has cleaned up after itself.
-/

namespace HeadFwd.Relay.Tunnels

open Text Net Transition

variable {registrations : Table Bytes Registration} {s s' : Tunnels} {a : TunnelAction}

/-- `t` is the connection most recently installed for the fingerprint. -/
def Latest (s : Tunnels) (fp : Bytes) (t : ℕ) : Prop :=
  (∃ c, s.conns t = some c ∧ c.fingerprint = fp) ∧
    ∀ u c, s.conns u = some c → c.fingerprint = fp → u ≤ t

/-- The cleanup of connection `t` has run. -/
def CleanedUp (s : Tunnels) (t : ℕ) : Prop := ∃ c, s.conns t = some c ∧ c.reader = .cleaned

/-- The invariant of installs and cleanups. -/
structure Ordered (s : Tunnels) : Prop where
  numbered : ∀ t c, s.conns t = some c → t < s.next
  current : ∀ fp t, s.tunnels fp = some t → ∃ c, s.conns t = some c ∧ c.fingerprint = fp
  retained : ∀ fp t, s.Latest fp t → ¬ s.CleanedUp t → s.tunnels fp = some t
  retracted : ∀ fp t, s.CleanedUp t → s.tunnels fp ≠ some t
  closing : ∀ t c, s.conns t = some c → c.reader ≠ .running → c.closed = true
  replaced : ∀ t c, s.conns t = some c → s.tunnels c.fingerprint ≠ some t → c.closed = true

theorem Ordered.initial : Tunnels.initial.Ordered where
  numbered := nofun
  current := nofun
  retained := fun _ _ h => nomatch h.1
  retracted := nofun
  closing := nofun
  replaced := nofun

/-- Changing a connection in place keeps its place in the order of installs. -/
theorem latest_set {t : ℕ} {c d : Conn} {tunnels : Table Bytes ℕ} {fp : Bytes} {u : ℕ}
    (h : Latest { s with tunnels, conns := s.conns.set t d } fp u) (hc : s.conns t = some c)
    (hd : d.fingerprint = c.fingerprint) : s.Latest fp u := by
  obtain ⟨⟨e, he, hf⟩, hmax⟩ := h
  constructor
  · rcases Table.set_eq_some_iff.mp he with ⟨rfl, rfl⟩ | ⟨-, he⟩
    · exact ⟨c, hc, hd ▸ hf⟩
    · exact ⟨e, he, hf⟩
  · intro v e hv hf
    by_cases hvt : v = t
    · subst hvt
      obtain rfl : c = e := Option.some.inj (hc.symm.trans hv)
      exact hmax v d Table.set_self (hd.trans hf)
    · exact hmax v e ((Table.set_of_ne hvt).trans hv) hf

theorem Ordered.readFail (h : s.Ordered) {t : ℕ} {c : Conn} (hc : s.conns t = some c)
    (hr : c.reader = .running) :
    Ordered { s with conns := s.conns.set t { c with closed := true, reader := .closing } } := by
  have hclean : ∀ u, CleanedUp { s with
      conns := s.conns.set t { c with closed := true, reader := .closing } } u ↔ s.CleanedUp u := by
    intro u
    by_cases hu : u = t
    · subst hu
      simp [CleanedUp, hc, hr]
    · simp [CleanedUp, Table.set_of_ne hu]
  constructor
  · intro u d hu
    rcases Table.set_eq_some_iff.mp hu with ⟨rfl, -⟩ | ⟨-, hu⟩
    · exact h.numbered u c hc
    · exact h.numbered u d hu
  · intro fp u hu
    obtain ⟨d, hd, hf⟩ := h.current fp u hu
    by_cases hut : u = t
    · subst hut
      obtain rfl : c = d := Option.some.inj (hc.symm.trans hd)
      exact ⟨_, Table.set_self, hf⟩
    · exact ⟨d, (Table.set_of_ne hut).trans hd, hf⟩
  · intro fp u hl hn
    exact h.retained fp u (latest_set hl hc rfl) ((hclean u).not.mp hn)
  · intro fp u hcl
    exact h.retracted fp u ((hclean u).mp hcl)
  · intro u d hu hd
    rcases Table.set_eq_some_iff.mp hu with ⟨-, rfl⟩ | ⟨-, hu⟩
    · rfl
    · exact h.closing u d hu hd
  · intro u d hu hne
    rcases Table.set_eq_some_iff.mp hu with ⟨-, rfl⟩ | ⟨-, hu⟩
    · rfl
    · exact h.replaced u d hu hne

/-- The entries after the cleanup of `t`: those that pointed to other connections. -/
theorem cleanup_tunnels {t u : ℕ} {c : Conn} {fp : Bytes} :
    (if s.tunnels c.fingerprint = some t then s.tunnels.erase c.fingerprint else s.tunnels) fp =
      some u ↔ s.tunnels fp = some u ∧ (fp = c.fingerprint → u ≠ t) := by
  split_ifs with hcur
  · rw [Table.erase_eq_some_iff]
    constructor
    · rintro ⟨hne, hu⟩
      exact ⟨hu, fun hf => absurd hf hne⟩
    · rintro ⟨hu, hne⟩
      refine ⟨fun hf => hne hf ?_, hu⟩
      subst hf
      exact Option.some.inj (hu.symm.trans hcur)
  · constructor
    · intro hu
      refine ⟨hu, fun hf hut => hcur ?_⟩
      rw [← hf, ← hut, hu]
    · exact And.left

/-- A connection becomes an entry only when it is installed. -/
theorem tunnels_step (he : Effect registrations s a s') {fp : Bytes} {t : ℕ} (ht : t < s.next)
    (h : s'.tunnels fp = some t) : s.tunnels fp = some t := by
  cases he with
  | dialEnded i d hd ha => exact h
  | dialAuthorised i host reg hr => exact h
  | installed i fp' auth hi =>
    rcases Table.set_eq_some_iff.mp h with ⟨-, rfl⟩ | ⟨-, h⟩
    · exact absurd ht (lt_irrefl _)
    · exact h
  | failed u c hc hr => exact h
  | cleaned u c hc hr => exact (cleanup_tunnels.mp h).1

theorem Ordered.cleanup (h : s.Ordered) {t : ℕ} {c : Conn} (hc : s.conns t = some c)
    (hr : c.reader = .closing) :
    Ordered { s with
      tunnels := if s.tunnels c.fingerprint = some t then s.tunnels.erase c.fingerprint
        else s.tunnels
      conns := s.conns.set t { c with reader := .cleaned } } := by
  have hcl : c.closed = true := h.closing t c hc (by rw [hr]; nofun)
  constructor
  · intro u d hu
    rcases Table.set_eq_some_iff.mp hu with ⟨rfl, -⟩ | ⟨-, hu⟩
    · exact h.numbered u c hc
    · exact h.numbered u d hu
  · intro fp u hu
    obtain ⟨hu, hne⟩ := cleanup_tunnels.mp hu
    obtain ⟨d, hd, hf⟩ := h.current fp u hu
    by_cases hut : u = t
    · subst hut
      obtain rfl : c = d := Option.some.inj (hc.symm.trans hd)
      exact absurd rfl (hne hf.symm)
    · exact ⟨d, (Table.set_of_ne hut).trans hd, hf⟩
  · intro fp u hl hn
    have hut : u ≠ t := by
      rintro rfl
      exact hn ⟨_, Table.set_self, rfl⟩
    have hn' : ¬ s.CleanedUp u := fun ⟨d, hd, hdr⟩ =>
      hn ⟨d, (Table.set_of_ne hut).trans hd, hdr⟩
    exact cleanup_tunnels.mpr ⟨h.retained fp u (latest_set hl hc rfl) hn', fun _ => hut⟩
  · intro fp u hcu hu
    obtain ⟨hu', hne⟩ := cleanup_tunnels.mp hu
    by_cases hut : u = t
    · subst hut
      obtain ⟨d, hd, hf⟩ := h.current fp u hu'
      obtain rfl : c = d := Option.some.inj (hc.symm.trans hd)
      exact hne hf.symm rfl
    · obtain ⟨d, hd, hdr⟩ := hcu
      exact h.retracted fp u ⟨d, (Table.set_of_ne hut).symm.trans hd, hdr⟩ hu'
  · intro u d hu hd
    rcases Table.set_eq_some_iff.mp hu with ⟨-, rfl⟩ | ⟨-, hu⟩
    · exact hcl
    · exact h.closing u d hu hd
  · intro u d hu hne
    rcases Table.set_eq_some_iff.mp hu with ⟨-, rfl⟩ | ⟨hut, hu⟩
    · exact hcl
    · refine h.replaced u d hu fun hcur => hne ?_
      exact cleanup_tunnels.mpr ⟨hcur, fun _ => hut⟩

theorem closeWs_eq_some {conns : Table ℕ Conn} {t : Option ℕ} {u : ℕ} {d : Conn}
    (h : closeWs conns t u = some d) : ∃ c, conns u = some c ∧ d.fingerprint = c.fingerprint ∧
      d.auth = c.auth ∧ d.reader = c.reader ∧
      (c.closed = true ∨ t = some u → d.closed = true) := by
  unfold closeWs at h
  split_ifs at h with ht
  · obtain ⟨c, hc, rfl⟩ := Option.map_eq_some_iff.mp h
    exact ⟨c, hc, rfl, rfl, rfl, fun _ => rfl⟩
  · exact ⟨d, h, rfl, rfl, rfl, fun hd => hd.resolve_right ht⟩

theorem closeWs_of_eq_some {conns : Table ℕ Conn} {t : Option ℕ} {u : ℕ} {c : Conn}
    (h : conns u = some c) : ∃ d, closeWs conns t u = some d ∧ d.fingerprint = c.fingerprint ∧
      d.reader = c.reader := by
  unfold closeWs
  split_ifs
  · exact ⟨_, congrArg (Option.map _) h, rfl, rfl⟩
  · exact ⟨c, h, rfl, rfl⟩

/-- The connections after an install: the new one, and those from before, of which the one it
replaces is closed. -/
theorem install_conns (h : s.Ordered) {fp auth : Bytes} {u : ℕ} {d : Conn}
    (hu : (closeWs s.conns (s.tunnels fp)).set s.next ⟨fp, auth, false, .running⟩ u = some d) :
    u = s.next ∧ d = ⟨fp, auth, false, .running⟩ ∨ ∃ c, s.conns u = some c ∧ u < s.next ∧
      d.fingerprint = c.fingerprint ∧ d.auth = c.auth ∧ d.reader = c.reader ∧
      (c.closed = true ∨ s.tunnels fp = some u → d.closed = true) := by
  rcases Table.set_eq_some_iff.mp hu with ⟨rfl, rfl⟩ | ⟨-, hu⟩
  · exact .inl ⟨rfl, rfl⟩
  · obtain ⟨c, hc, hrest⟩ := closeWs_eq_some hu
    exact .inr ⟨c, hc, h.numbered u c hc, hrest⟩

theorem install_conns_of (h : s.Ordered) {fp auth : Bytes} {u : ℕ} {c : Conn}
    (hu : s.conns u = some c) :
    ∃ d, (closeWs s.conns (s.tunnels fp)).set s.next ⟨fp, auth, false, .running⟩ u = some d ∧
      d.fingerprint = c.fingerprint ∧ d.reader = c.reader := by
  obtain ⟨d, hd, hrest⟩ := closeWs_of_eq_some (t := s.tunnels fp) hu
  exact ⟨d, (Table.set_of_ne (h.numbered u c hu).ne).trans hd, hrest⟩

theorem Ordered.install (h : s.Ordered) {fp auth : Bytes} {dials : Table ℕ DialThread} :
    Ordered { s with
      conns := (closeWs s.conns (s.tunnels fp)).set s.next ⟨fp, auth, false, .running⟩
      tunnels := s.tunnels.set fp s.next
      next := s.next + 1
      dials } := by
  constructor
  · intro u d hu
    rcases install_conns h hu with ⟨rfl, -⟩ | ⟨c, -, hlt, -⟩
    · exact Nat.lt_succ_self _
    · exact Nat.lt_succ_of_lt hlt
  · intro fp' u hu
    rcases Table.set_eq_some_iff.mp hu with ⟨rfl, rfl⟩ | ⟨-, hu⟩
    · exact ⟨_, Table.set_self, rfl⟩
    · obtain ⟨c, hc, hf⟩ := h.current fp' u hu
      obtain ⟨d, hd, hdf, -⟩ := install_conns_of h hc
      exact ⟨d, hd, hdf.trans hf⟩
  · intro fp' u hl hn
    obtain ⟨⟨d, hd, hf⟩, hmax⟩ := hl
    rcases install_conns h hd with ⟨rfl, rfl⟩ | ⟨c, hc, hlt, hcf, -, hcr, -⟩
    · exact hf ▸ Table.set_self
    · have hfp : fp' ≠ fp := fun hfp =>
        absurd (hmax s.next _ Table.set_self hfp.symm) (not_le.mpr hlt)
      refine (Table.set_of_ne hfp).trans (h.retained fp' u ⟨⟨c, hc, hcf ▸ hf⟩, ?_⟩ ?_)
      · intro v e he hef
        obtain ⟨e', he', hef', -⟩ := install_conns_of h he
        exact hmax v e' he' (hef'.trans hef)
      · rintro ⟨c', hc', hr⟩
        obtain rfl : c = c' := Option.some.inj (hc.symm.trans hc')
        exact hn ⟨d, hd, hcr.trans hr⟩
  · intro fp' u hcu hu
    obtain ⟨d, hd, hr⟩ := hcu
    rcases install_conns h hd with ⟨-, rfl⟩ | ⟨c, hc, hlt, -, -, hcr, -⟩
    · cases hr
    · rcases Table.set_eq_some_iff.mp hu with ⟨-, hu⟩ | ⟨-, hu⟩
      · exact hlt.ne hu.symm
      · exact h.retracted fp' u ⟨c, hc, hcr ▸ hr⟩ hu
  · intro u d hu hd
    rcases install_conns h hu with ⟨-, rfl⟩ | ⟨c, hc, -, -, -, hcr, hcl⟩
    · exact absurd rfl hd
    · exact hcl (.inl (h.closing u c hc (hcr ▸ hd)))
  · intro u d hu hne
    rcases install_conns h hu with ⟨rfl, rfl⟩ | ⟨c, hc, -, hcf, -, -, hcl⟩
    · exact absurd Table.set_self hne
    · by_cases hcur : s.tunnels c.fingerprint = some u
      · have hfp : c.fingerprint = fp := by
          by_contra hfp
          exact hne (hcf ▸ (Table.set_of_ne hfp).trans hcur)
        exact hcl (.inr (hfp ▸ hcur))
      · exact hcl (.inl (h.replaced u c hc hcur))

theorem Ordered.step (h : s.Ordered) (he : Effect registrations s a s') : s'.Ordered := by
  cases he with
  | dialEnded i d hd ha => exact ⟨h.numbered, h.current, h.retained, h.retracted, h.closing, h.replaced⟩
  | dialAuthorised i host reg hr =>
    exact ⟨h.numbered, h.current, h.retained, h.retracted, h.closing, h.replaced⟩
  | installed i fp auth hi => exact h.install
  | failed t c hc hr => exact h.readFail hc hr
  | cleaned t c hc hr => exact h.cleanup hc hr

/-- A cleanup is not undone. -/
theorem CleanedUp.step (h : s.Ordered) {t : ℕ} (ht : s.CleanedUp t)
    (he : Effect registrations s a s') : s'.CleanedUp t := by
  obtain ⟨c, hc, hr⟩ := ht
  have other : ∀ {u d d'}, s.conns u = some d → d.reader ≠ .cleaned →
      s.conns.set u d' t = some c := by
    intro u d d' hd hdr
    apply Table.set_frame hc
    rw [hd]
    rintro ⟨⟩
    exact hdr hr
  cases he with
  | dialEnded i d hd ha => exact ⟨c, hc, hr⟩
  | dialAuthorised i host reg hreg => exact ⟨c, hc, hr⟩
  | installed i fp auth hi =>
    obtain ⟨d, hd, -, hdr⟩ := install_conns_of h hc
    exact ⟨d, hd, hdr.trans hr⟩
  | failed u d hd hdr => exact ⟨c, other hd (by simp [hdr]), hr⟩
  | cleaned u d hd hdr => exact ⟨c, other hd (by simp [hdr]), hr⟩

/-- A connection is cleaned up by its own cleanup. -/
theorem CleanedUp.of_step (h : s.Ordered) {t : ℕ} (he : Effect registrations s a s')
    (ht : s'.CleanedUp t) : s.CleanedUp t ∨ a = .cleanup t := by
  obtain ⟨c, hc, hr⟩ := ht
  cases he with
  | dialEnded i d hd ha => exact .inl ⟨c, hc, hr⟩
  | dialAuthorised i host reg hreg => exact .inl ⟨c, hc, hr⟩
  | installed i fp auth hi =>
    rcases install_conns h hc with ⟨-, rfl⟩ | ⟨d, hd, -, -, -, hdr⟩
    · cases hr
    · exact .inl ⟨d, hd, hdr.1.symm.trans hr⟩
  | failed u d hd hdr =>
    rcases Table.set_eq_some_iff.mp hc with ⟨rfl, rfl⟩ | ⟨-, hc⟩
    · cases hr
    · exact .inl ⟨c, hc, hr⟩
  | cleaned u d hd hdr =>
    rcases Table.set_eq_some_iff.mp hc with ⟨rfl, -⟩ | ⟨-, hc⟩
    · exact .inr rfl
    · exact .inl ⟨c, hc, hr⟩

end HeadFwd.Relay.Tunnels
