import HeadFwd.Relay.Server

/-! # Superseded secrets

A new registration replaces the secret of its fingerprint, and from then on a
dial with the old one is turned away. A dial that was let in before is not
looked at again: it installs its connection whenever its handshake ends. The
map runs through the registrations in their order as long as no dial installs
its connection after its secret was replaced.
-/

namespace HeadFwd.Relay

open Text Net Crypto Transition

variable {P : Primitives} {env : Environment}

/-- The secret issued for the fingerprint. -/
def RegistryEvent.issuedFor (fp : Bytes) : RegistryEvent → Option Bytes
  | .issued _ fp' _ secret _ => if fp' = fp then some secret else none
  | _ => none

namespace Registry

/-- The secrets of the accepted registrations of a fingerprint, in their order. -/
def accepted (s : Registry) (fp : Bytes) : List Bytes :=
  s.log.reverse.filterMap (·.issuedFor fp)

/-- The registered secret of a fingerprint is the last one accepted, and none is issued twice. -/
structure Accepted (s : Registry) : Prop where
  last : ∀ fp r, s.registrations fp = some r → (s.accepted fp).getLast? = some r.secret
  nodup : ∀ fp, (s.accepted fp).Nodup

variable {now : ℕ} {s s' : Registry} {a : RegistryAction}

theorem mem_accepted {fp secret : Bytes} (h : secret ∈ s.accepted fp) :
    ∃ i proof c, .issued i fp proof secret c ∈ s.log := by
  obtain ⟨e, he, hs⟩ := List.mem_filterMap.mp h
  cases e with
  | issued i fp' proof secret' c =>
    simp only [RegistryEvent.issuedFor] at hs
    split_ifs at hs with hfp
    cases hs
    exact ⟨i, proof, c, hfp ▸ List.mem_reverse.mp he⟩
  | stored i fp' c => cases hs
  | admitted i fp' c now => cases hs

theorem mem_accepted_of_issued {fp secret : Bytes} (h : Issued P s.log fp secret) :
    secret ∈ s.accepted fp := by
  obtain ⟨i, j, instant, proof, c, hl, -⟩ := h
  have hm : .issued i fp proof secret c ∈ s.log := hl.subset List.mem_cons_self
  exact List.mem_filterMap.mpr ⟨_, List.mem_reverse.mpr hm, by simp [RegistryEvent.issuedFor]⟩

/-- A step accepts nothing, or one registration with a new secret. -/
theorem Effect.accepted (he : Effect P env now s a s') (hf : s.Fresh) :
    s'.registrations = s.registrations ∧ s'.accepted = s.accepted ∨
      ∃ fp r, r.secret ∉ s.accepted fp ∧ s'.registrations = s.registrations.set fp r ∧
        s'.accepted = Function.update s.accepted fp (s.accepted fp ++ [r.secret]) := by
  cases he with
  | verifyAccepted i r req c secret hi =>
    refine .inr ⟨req.fingerprint, _, fun hm => ?_, rfl, ?_⟩
    · obtain ⟨j, proof, d, hm⟩ := mem_accepted hm
      exact hf.proved_ne hm hi rfl
    · funext fp
      by_cases hfp : fp = req.fingerprint
      · subst hfp
        simp [Registry.accepted, RegistryEvent.issuedFor]
      · simp [Registry.accepted, RegistryEvent.issuedFor, hfp, Ne.symm hfp]
  | initStored i c hi =>
    refine .inl ⟨rfl, ?_⟩
    funext fp
    simp [Registry.accepted, RegistryEvent.issuedFor]
  | verifyAdmitted i call r req c hi hc hexp ha =>
    refine .inl ⟨rfl, ?_⟩
    funext fp
    simp [Registry.accepted, RegistryEvent.issuedFor]
  | _ => exact .inl ⟨rfl, rfl⟩

theorem Accepted.step (h : s.Accepted) (hf : s.Fresh) (he : Effect P env now s a s') :
    s'.Accepted := by
  rcases he.accepted hf with ⟨hr, ha⟩ | ⟨fp, r, hnew, hr, ha⟩
  · constructor
    · intro fp r hfp
      rw [hr] at hfp
      exact ha ▸ h.last fp r hfp
    · exact fun fp => ha ▸ h.nodup fp
  · constructor
    · intro fp' r' hfp'
      rw [hr] at hfp'
      rw [ha]
      rcases Table.set_eq_some_iff.mp hfp' with ⟨rfl, rfl⟩ | ⟨hne, hfp'⟩
      · simp
      · rw [Function.update_of_ne hne]
        exact h.last fp' r' hfp'
    · rw [ha]
      refine (Function.forall_update_iff s.accepted fun _ l => l.Nodup).mpr ⟨?_, ?_⟩
      · refine List.nodup_append.mpr ⟨h.nodup fp, by simp, fun x hx y hy hxy => hnew ?_⟩
        rw [List.mem_singleton.mp hy] at hxy
        exact hxy ▸ hx
      · exact fun fp' _ => h.nodup fp'

theorem Accepted.initial : Registry.initial.Accepted where
  last := nofun
  nodup _ := List.nodup_nil

/-- The registered secret has the highest number. -/
theorem Accepted.le_current (h : s.Accepted) {fp : Bytes} {r : Registration}
    (hr : s.registrations fp = some r) {j k : ℕ} (hj : (s.accepted fp)[j]? = some r.secret)
    {secret : Bytes} (hk : (s.accepted fp)[k]? = some secret) : k ≤ j := by
  have hlast := h.last fp r hr
  rw [List.getLast?_eq_getElem?] at hlast
  have hlt : k < (s.accepted fp).length := (List.getElem?_eq_some_iff.mp hk).1
  have hjl : j < (s.accepted fp).length := (List.getElem?_eq_some_iff.mp hj).1
  have heq := (List.getElem?_inj hjl (h.nodup fp)).mp (hj.trans hlast.symm)
  omega

end Registry

namespace Tunnels

variable {registrations : Table Bytes Registration} {s s' : Tunnels} {a : TunnelAction}

/-- A connection after a step was there before, with the same dial, or has just been installed. -/
theorem conns_step (h : s.Ordered) (he : Effect registrations s a s') {u : ℕ} {d : Conn}
    (hu : s'.conns u = some d) :
    (∃ c, s.conns u = some c ∧ c.fingerprint = d.fingerprint ∧ c.auth = d.auth) ∨
      u = s.next ∧ ∃ i, a = .dialInstall i ∧ s.dials i = some (.authorised d.fingerprint d.auth) := by
  cases he with
  | dialEnded i e hd ha => exact .inl ⟨d, hu, rfl, rfl⟩
  | dialAuthorised i host reg hr => exact .inl ⟨d, hu, rfl, rfl⟩
  | installed i fp auth hi =>
    rcases install_conns h hu with ⟨rfl, rfl⟩ | ⟨c, hc, -, hf, ha, -⟩
    · exact .inr ⟨rfl, i, rfl, hi⟩
    · exact .inl ⟨c, hc, hf.symm, ha.symm⟩
  | failed t c hc hr =>
    rcases Table.set_eq_some_iff.mp hu with ⟨rfl, rfl⟩ | ⟨-, hu⟩
    · exact .inl ⟨c, hc, rfl, rfl⟩
    · exact .inl ⟨d, hu, rfl, rfl⟩
  | cleaned t c hc hr =>
    rcases Table.set_eq_some_iff.mp hu with ⟨rfl, rfl⟩ | ⟨-, hu⟩
    · exact .inl ⟨c, hc, rfl, rfl⟩
    · exact .inl ⟨d, hu, rfl, rfl⟩

/-- Connections are not forgotten. -/
theorem conns_kept (h : s.Ordered) (he : Effect registrations s a s') {u : ℕ} {c : Conn}
    (hu : s.conns u = some c) :
    ∃ d, s'.conns u = some d ∧ d.fingerprint = c.fingerprint ∧ d.auth = c.auth := by
  obtain ⟨d, hd⟩ : ∃ d, s'.conns u = some d := by
    cases he with
    | dialEnded i e hd ha => exact ⟨c, hu⟩
    | dialAuthorised i host reg hr => exact ⟨c, hu⟩
    | installed i fp auth hi =>
      obtain ⟨d, hd, -⟩ := install_conns_of h hu
      exact ⟨d, hd⟩
    | failed t e hc hr =>
      by_cases hut : u = t
      · subst hut
        exact ⟨_, Table.set_self⟩
      · exact ⟨c, (Table.set_of_ne hut).trans hu⟩
    | cleaned t e hc hr =>
      by_cases hut : u = t
      · subst hut
        exact ⟨_, Table.set_self⟩
      · exact ⟨c, (Table.set_of_ne hut).trans hu⟩
  rcases conns_step h he hd with ⟨e, he, hf, ha⟩ | ⟨rfl, -⟩
  · cases hu.symm.trans he
    exact ⟨d, hd, hf.symm, ha.symm⟩
  · exact absurd (h.numbered _ c hu) (lt_irrefl _)

end Tunnels

namespace Server

/-- A dial installs its connection while the secret it was let in with is still registered. -/
def unreplaced (s : Server) : Action → Bool
  | .tunnel (.dialInstall i) =>
    match s.tunnels.dials i with
    | some (.authorised fp auth) => (s.registry.registrations fp).any (·.secret = auth)
    | _ => true
  | _ => true

/-- The connections of a fingerprint were installed in the order of their registrations. -/
structure InTurn (P : Primitives) (s : Server) : Prop where
  authentic : s.Authentic P
  accepted : s.registry.Accepted
  ordered : ∀ (u v : ℕ) c d, u ≤ v → s.tunnels.conns u = some c → s.tunnels.conns v = some d →
    c.fingerprint = d.fingerprint → ∀ j k : ℕ, (s.registry.accepted c.fingerprint)[j]? = some c.auth →
      (s.registry.accepted c.fingerprint)[k]? = some d.auth → j ≤ k

variable {now : ℕ} {s s' : Server} {a : Action}

/-- A new registration comes last. -/
theorem InTurn.registry_step (h : s.InTurn P) {b : RegistryAction} {r : Registry}
    (he : Registry.Effect P env now s.registry b r) (ha : Authentic P { s with registry := r }) :
    InTurn P { s with registry := r } := by
  refine ⟨ha, h.accepted.step h.authentic.sound.fresh he, ?_⟩
  intro u v c d huv hu hv hf j k hj hk
  rcases he.accepted h.authentic.sound.fresh with ⟨-, hacc⟩ | ⟨fp, reg, hnew, -, hacc⟩
  · simp only [hacc] at hj hk
    exact h.ordered u v c d huv hu hv hf j k hj hk
  · simp only [hacc] at hj hk
    by_cases hfp : c.fingerprint = fp
    · -- Neither connection carries the new secret.
      have hc := Registry.mem_accepted_of_issued (h.authentic.conns u c hu)
      have hd := Registry.mem_accepted_of_issued (h.authentic.conns v d hv)
      subst hfp
      rw [Function.update_self] at hj hk
      rw [← hf] at hd
      have old : ∀ {x : Bytes} {i : ℕ}, x ∈ s.registry.accepted c.fingerprint →
          (s.registry.accepted c.fingerprint ++ [reg.secret])[i]? = some x →
            (s.registry.accepted c.fingerprint)[i]? = some x := by
        intro x i hx hi
        rw [List.getElem?_append] at hi
        split_ifs at hi with hlt
        · exact hi
        · exact absurd (List.mem_singleton.mp (List.mem_of_getElem? hi) ▸ hx) hnew
      exact h.ordered u v c d huv hu hv hf j k (old hc hj) (old hd hk)
    · rw [Function.update_of_ne hfp] at hj hk
      exact h.ordered u v c d huv hu hv hf j k hj hk

/-- A new connection carries the registered secret. -/
theorem InTurn.tunnel_step (h : s.InTurn P) {b : TunnelAction} {t : Tunnels}
    (hx : s.unreplaced (.tunnel b)) (he : Tunnels.Effect s.registry.registrations s.tunnels b t) :
    InTurn P { s with tunnels := t } := by
  refine ⟨h.authentic.tunnel_step he, h.accepted, ?_⟩
  intro u v c d huv hu hv hf j k hj hk
  have ho := h.authentic.ordered
  rcases Tunnels.conns_step ho he hv with ⟨d', hd', hdf, hda⟩ | ⟨rfl, i, rfl, hi⟩
  · rcases Tunnels.conns_step ho he hu with ⟨c', hc', hcf, hca⟩ | ⟨rfl, -⟩
    · rw [← hcf] at hj hk
      exact h.ordered u v c' d' huv hc' hd' (hcf.trans (hf.trans hdf.symm)) j k (hca ▸ hj) (hda ▸ hk)
    · exact absurd (ho.numbered v d' hd') (not_lt.mpr huv)
  · simp only [unreplaced, hi] at hx
    obtain ⟨reg, hreg, hsec⟩ := (Option.any_eq_true _ _).mp hx
    rw [hf] at hj hk
    exact h.accepted.le_current hreg (of_decide_eq_true hsec ▸ hk) hj

theorem InTurn.step (h : s.InTurn P) (hx : s.unreplaced a) (hs : s.step P env now a = some s') :
    s'.InTurn P := by
  have ha := h.authentic.step hs
  rcases step_cases hs with ⟨b, r, -, hr, rfl⟩ | ⟨b, t, rfl, -, ht, rfl⟩ | ⟨b, x, -, -, rfl⟩
  · exact h.registry_step (Registry.step_effect hr) ha
  · exact h.tunnel_step hx (Tunnels.step_effect ht)
  · exact ⟨ha, h.accepted, h.ordered⟩

/-- Entries move on to later connections only. -/
theorem tunnels_mono (h : s.Authentic P) (hs : s.step P env now a = some s') {fp : Bytes} {t : ℕ}
    {c : Conn} (hc : s.tunnels.conns t = some c)
    (hle : ∀ u, s.tunnels.tunnels fp = some u → t ≤ u) :
    (∃ d, s'.tunnels.conns t = some d ∧ d.fingerprint = c.fingerprint ∧ d.auth = c.auth) ∧
      ∀ u, s'.tunnels.tunnels fp = some u → t ≤ u := by
  rcases step_cases hs with ⟨b, r, -, hr, rfl⟩ | ⟨b, x, rfl, -, hx, rfl⟩ | ⟨b, x, -, -, rfl⟩
  · exact ⟨⟨c, hc, rfl, rfl⟩, hle⟩
  · have he := Tunnels.step_effect hx
    refine ⟨Tunnels.conns_kept h.ordered he hc, fun u hu => ?_⟩
    rcases Nat.lt_or_ge u s.tunnels.next with hlt | hge
    · exact hle u (Tunnels.tunnels_step he hlt hu)
    · exact (h.ordered.numbered t c hc).le.trans hge
  · exact ⟨⟨c, hc, rfl, rfl⟩, hle⟩

end Server

variable {s s' : ℕ × Server}

theorem inTurn_of_reach (hr : (relay P env).Reach (fun s a => s.2.unreplaced a.2) s) :
    s.2.InTurn P := by
  refine hr.invariant (P := fun s => s.2.InTurn P) ?_ ?_
  · rintro ⟨now, s⟩ rfl
    exact ⟨.initial, .initial, nofun⟩
  · intro s a s' _ hx hs h
    exact h.step hx (Machine.timed_step.mp hs).2.2

/-- In every run in which no dial installs its connection after its secret was replaced, the entry
of a fingerprint never goes back to the secret of an earlier registration. -/
theorem superseded_stays (hr : (relay P env).Reach (fun s a => s.2.unreplaced a.2) s)
    {as : List (ℕ × Action)} (hm : (relay P env).Meets (fun s a => s.2.unreplaced a.2) s as)
    (h : (relay P env).exec s as = some s') {fp : Bytes} {t t' : ℕ} {c c' : Conn}
    (ht : s.2.tunnels.tunnels fp = some t) (hc : s.2.tunnels.conns t = some c)
    (ht' : s'.2.tunnels.tunnels fp = some t') (hc' : s'.2.tunnels.conns t' = some c') {j k : ℕ}
    (hj : (s'.2.registry.accepted fp)[j]? = some c'.auth)
    (hk : (s'.2.registry.accepted fp)[k]? = some c.auth) : k ≤ j := by
  have hfp : c.fingerprint = fp := by
    obtain ⟨d, hd, hf⟩ := (inTurn_of_reach hr).authentic.ordered.current fp t ht
    exact Option.some.inj (hc.symm.trans hd) ▸ hf
  have hfp' : c'.fingerprint = fp := by
    obtain ⟨d, hd, hf⟩ := (inTurn_of_reach (hr.meets hm h)).authentic.ordered.current fp t' ht'
    exact Option.some.inj (hc'.symm.trans hd) ▸ hf
  have kept : s'.2.Authentic P ∧
      (∃ d, s'.2.tunnels.conns t = some d ∧ d.fingerprint = c.fingerprint ∧ d.auth = c.auth) ∧
        ∀ u, s'.2.tunnels.tunnels fp = some u → t ≤ u := by
    refine Machine.exec_invariant (Q := fun s => s.2.Authentic P ∧
      (∃ d, s.2.tunnels.conns t = some d ∧ d.fingerprint = c.fingerprint ∧ d.auth = c.auth) ∧
        ∀ u, s.2.tunnels.tunnels fp = some u → t ≤ u) ?_ ?_ h
    · rintro s a s' - hs ⟨ha, ⟨d, hd, hdf, hda⟩, hle⟩
      obtain ⟨-, -, hs⟩ := Machine.timed_step.mp hs
      obtain ⟨⟨e, he, hef, hea⟩, hle'⟩ := Server.tunnels_mono ha hs hd hle
      exact ⟨ha.step hs, ⟨e, he, hef.trans hdf, hea.trans hda⟩, hle'⟩
    · refine ⟨(inTurn_of_reach hr).authentic, ⟨c, hc, rfl, rfl⟩, fun u hu => ?_⟩
      exact (Option.some.inj (ht.symm.trans hu)).le
  obtain ⟨-, ⟨d, hd, hdf, hda⟩, hle⟩ := kept
  have hd' : d.fingerprint = fp := hdf.trans hfp
  refine (inTurn_of_reach (hr.meets hm h)).ordered t t' d c' (hle t' ht') hd hc'
    (hd'.trans hfp'.symm) k j ?_ ?_
  · rw [hd', hda, hk]
  · rw [hd', hj]

/-- Register and dial, then register and dial again. -/
def renewedRun : List (ℕ × Action) :=
  (Vector.nextRun.map fun a => (a.1, .registry a.2)) ++
    [(3, .tunnel (.dialBegin 1 Vector.host Vector.nextSecret)), (3, .tunnel (.dialInstall 1))]

theorem superseded_stays_renewedRun :
    ∃ s s' c c', (relay Vector.both {}).exec (0, Server.initial) connectRun = some s ∧
      (relay Vector.both {}).exec s renewedRun = some s' ∧
      s.2.tunnels.tunnels Vector.fingerprint = some 0 ∧ s.2.tunnels.conns 0 = some c ∧
      s'.2.tunnels.tunnels Vector.fingerprint = some 1 ∧ s'.2.tunnels.conns 1 = some c' ∧
      s'.2.registry.accepted Vector.fingerprint = [c.auth, c'.auth] ∧
      ∀ j k : ℕ, (s'.2.registry.accepted Vector.fingerprint)[j]? = some c'.auth →
        (s'.2.registry.accepted Vector.fingerprint)[k]? = some c.auth → k ≤ j := by
  have hall : (relay Vector.both {}).Meets (fun s a => s.2.unreplaced a.2) (0, Server.initial)
      (connectRun ++ renewedRun) := by decide +kernel
  have h : ((relay Vector.both {}).exec (0, Server.initial) connectRun).bind (fun s =>
      ((relay Vector.both {}).exec s renewedRun).map fun s' =>
        ((s.2.tunnels.tunnels Vector.fingerprint, s'.2.tunnels.tunnels Vector.fingerprint),
          (s.2.tunnels.conns 0).map Conn.auth, (s'.2.tunnels.conns 1).map Conn.auth,
          s'.2.registry.accepted Vector.fingerprint)) =
      some ((some 0, some 1), some Vector.secret, some Vector.nextSecret,
        [Vector.secret, Vector.nextSecret]) := by decide +kernel
  obtain ⟨s, hs, h⟩ := Option.bind_eq_some_iff.mp h
  obtain ⟨s', hs', h⟩ := Option.map_eq_some_iff.mp h
  simp only [Prod.mk.injEq, Option.map_eq_some_iff] at h
  obtain ⟨⟨ht, ht'⟩, ⟨c, hc, hca⟩, ⟨c', hc', hca'⟩, hacc⟩ := h
  obtain ⟨hm, hm'⟩ := (Machine.meets_append hs).mp hall
  have hr : (relay Vector.both {}).Reach (fun s a => s.2.unreplaced a.2) s :=
    .meets (.init (show (relay Vector.both {}).init (0, Server.initial) from rfl)) hm hs
  exact ⟨s, s', c, c', hs, hs', ht, hc, ht', hc', by rw [hacc, hca, hca'],
    fun j k hj hk => superseded_stays hr hm' hs' ht hc ht' hc' hj hk⟩

/-- A dial with the first secret is let in before the second registration and installs its
connection after the dial with the second secret. -/
def overtakenRun : List (ℕ × Action) :=
  (Vector.registrationRun.map fun a => (a.1, .registry a.2)) ++
    [(1, .tunnel (.dialBegin 0 Vector.host Vector.secret))] ++ renewedRun

/-- The entry then goes back to the secret that the second registration replaced. -/
theorem overtakenRun_reverts :
    ∃ s s', (relay Vector.both {}).exec (0, Server.initial) overtakenRun = some s ∧
      (relay Vector.both {}).step s (4, .tunnel (.dialInstall 0)) = some s' ∧
      s'.2.registry.accepted Vector.fingerprint = [Vector.secret, Vector.nextSecret] ∧
      ((s.2.tunnels.tunnels Vector.fingerprint).bind s.2.tunnels.conns).map Conn.auth =
        some Vector.nextSecret ∧
      ((s'.2.tunnels.tunnels Vector.fingerprint).bind s'.2.tunnels.conns).map Conn.auth =
        some Vector.secret := by
  have h : ((relay Vector.both {}).exec (0, Server.initial) overtakenRun).bind (fun s =>
      ((relay Vector.both {}).step s (4, .tunnel (.dialInstall 0))).map fun s' =>
        (s'.2.registry.accepted Vector.fingerprint,
          ((s.2.tunnels.tunnels Vector.fingerprint).bind s.2.tunnels.conns).map Conn.auth,
          ((s'.2.tunnels.tunnels Vector.fingerprint).bind s'.2.tunnels.conns).map Conn.auth)) =
      some ([Vector.secret, Vector.nextSecret], some Vector.nextSecret, some Vector.secret) := by
    decide +kernel
  obtain ⟨s, hs, h⟩ := Option.bind_eq_some_iff.mp h
  obtain ⟨s', hs', h⟩ := Option.map_eq_some_iff.mp h
  simp only [Prod.mk.injEq] at h
  exact ⟨s, s', hs, hs', h⟩

end HeadFwd.Relay
