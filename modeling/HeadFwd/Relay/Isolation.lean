import HeadFwd.Relay.Delivery
import HeadFwd.Relay.Exchange
import HeadFwd.Relay.Server

/-! # Isolation of tenants

The maps of outstanding requests and open streams are shared by all tenants and
have no fingerprint in their keys. What keeps tenants apart is that an
identifier is drawn for a client of one fingerprint and leaves the relay only on
tunnels of that fingerprint.
-/

namespace HeadFwd.Relay

open Text Net Crypto Transition Tunnel

/-- The connection belongs to the fingerprint. -/
def OnTunnel (T : Tunnels) (fp : Bytes) (t : ℕ) : Prop :=
  ∃ c, T.conns t = some c ∧ c.fingerprint = fp

/-- The tunnel a call has taken and not yet written to. -/
def HttpThread.tunnel : HttpThread → Option ℕ
  | .building t _ => some t
  | .registered t _ => some t
  | _ => none

def StreamThread.tunnel : StreamThread → Option ℕ
  | .building t _ => some t
  | .registered t _ => some t
  | .relaying t _ => some t
  | .sending t _ => some t
  | .ending t _ => some t
  | _ => none

def StreamThread.id? : StreamThread → Option Bytes
  | .registered _ o => some o.id
  | .relaying _ id => some id
  | .sending _ d => some d.id
  | .ending _ id => some id
  | .removing id => some id
  | _ => none

namespace Traffic

variable {now : ℕ} {T : Tunnels} {s s' : Traffic} {a : TrafficAction}

/-- The fingerprint of the host a client connected to. -/
def host (s : Traffic) : Owner → Option Bytes
  | .http i => s.callers i
  | .stream j => s.streamers j

/-- Clients and identifiers keep to the tunnels of the fingerprint their client asked for. -/
structure Owned (T : Tunnels) (s : Traffic) : Prop where
  caller_begun : ∀ i fp, s.callers i = some fp → ∃ thread, s.https i = some thread
  streamer_begun : ∀ j fp, s.streamers j = some fp → ∃ thread, s.upgrades j = some thread
  https : ∀ i t, (s.https i).bind HttpThread.tunnel = some t →
    ∃ fp, s.callers i = some fp ∧ OnTunnel T fp t
  upgrades : ∀ j t, (s.upgrades j).bind StreamThread.tunnel = some t →
    ∃ fp, s.streamers j = some fp ∧ OnTunnel T fp t
  ids : ∀ j x, (s.upgrades j).bind StreamThread.id? = some x → s.owners x = some (.stream j)
  pending : ∀ x i, s.pending x = some i → s.owners x = some (.http i)
  streams : ∀ x j, s.streams x = some j → s.owners x = some (.stream j)
  hosted : ∀ x o, s.owners x = some o → ∃ fp, s.host o = some fp
  outbox : ∀ t m x, m ∈ s.outbox t → m.id? = some x →
    ∃ o fp, s.owners x = some o ∧ s.host o = some fp ∧ OnTunnel T fp t

theorem Owned.initial : Owned T Traffic.initial :=
  ⟨nofun, nofun, nofun, nofun, nofun, nofun, nofun, nofun, nofun⟩

/-- An identifier is never given away again. -/
theorem Effect.owners_mono (he : Effect now T s a s') {x : Bytes} {o : Owner}
    (hx : s.owners x = some o) : s'.owners x = some o := by
  have fresh : ∀ {id o'}, s.owners id = none → s.owners.set id o' x = some o := by
    intro id o' hid
    exact Table.set_frame_new hx hid
  cases he with
  | registered i random t r hi ho => exact fresh ho
  | streamRegistered j random t r hj ho => exact fresh ho
  | _ => exact hx

/-- The host of a client is looked up once. -/
theorem Owned.host_mono (h : Owned T s) (he : Effect now T s a s') {o : Owner} {fp : Bytes}
    (ho : s.host o = some fp) : s'.host o = some fp := by
  have begun : ∀ {i fp'}, s.https i = none → s.callers.set i fp' = s'.callers →
      s.streamers = s'.streamers → s'.host o = some fp := by
    intro i fp' hi hc hst
    cases o with
    | http k =>
      refine (congrFun hc k).symm.trans ((Table.set_of_ne ?_).trans ho)
      rintro rfl
      obtain ⟨thread, hk⟩ := h.caller_begun k fp ho
      cases hi.symm.trans hk
    | stream j => exact (congrFun hst j).symm.trans ho
  cases he with
  | unconnected i r fp' hi => exact begun hi rfl rfl
  | built i r fp' t hi ht => exact begun hi rfl rfl
  | streamBegun j r fp' thread hj ht =>
    cases o with
    | http k => exact ho
    | stream k =>
      refine (Table.set_of_ne ?_).trans ho
      rintro rfl
      obtain ⟨thread', hk⟩ := h.streamer_begun k fp ho
      cases hj.symm.trans hk
  | _ => cases o <;> exact ho

theorem Owned.caller_begun_step (h : Owned T s) (he : Effect now T s a s') (i : ℕ) (fp : Bytes)
    (hi : s'.callers i = some fp) : ∃ thread, s'.https i = some thread := by
  have old : s.callers i = some fp → ∃ thread, s'.https i = some thread := by
    intro hc
    obtain ⟨thread, hth⟩ := h.caller_begun i fp hc
    obtain ⟨thread', hth', -⟩ := he.rank hth
    exact ⟨thread', hth'⟩
  cases he with
  | unconnected k r fp' hk =>
    rcases Table.set_eq_some_iff.mp hi with ⟨rfl, -⟩ | ⟨-, hi'⟩
    · exact ⟨_, Table.set_self⟩
    · exact old hi'
  | built k r fp' t hk ht =>
    rcases Table.set_eq_some_iff.mp hi with ⟨rfl, -⟩ | ⟨-, hi'⟩
    · exact ⟨_, Table.set_self⟩
    · exact old hi'
  | _ => exact old hi

theorem exists_set_eq_some {κ α : Type*} [DecidableEq κ] {t : Table κ α} {k k' : κ} {v : α}
    (h : ∃ w, t k' = some w) : ∃ w, t.set k v k' = some w := by
  by_cases hk : k' = k
  · exact ⟨v, hk ▸ Table.set_self⟩
  · exact h.imp fun w hw => (Table.set_of_ne hk).trans hw

theorem Owned.streamer_begun_step (h : Owned T s) (he : Effect now T s a s') (j : ℕ) (fp : Bytes)
    (hj : s'.streamers j = some fp) : ∃ thread, s'.upgrades j = some thread := by
  cases he with
  | streamBegun k r fp' thread hk ht =>
    rcases Table.set_eq_some_iff.mp hj with ⟨rfl, -⟩ | ⟨-, hj'⟩
    · exact ⟨_, Table.set_self⟩
    · exact exists_set_eq_some (h.streamer_begun j fp hj')
  | streamRefused k supported t r e hk => exact exists_set_eq_some (h.streamer_begun j fp hj)
  | streamRegistered k random t r hk ho => exact exists_set_eq_some (h.streamer_begun j fp hj)
  | streamRead k chunk t id thread hk ht => exact exists_set_eq_some (h.streamer_begun j fp hj)
  | streamSent k w t m id thread hk ht => exact exists_set_eq_some (h.streamer_begun j fp hj)
  | streamRemoved k id thread hk ht => exact exists_set_eq_some (h.streamer_begun j fp hj)
  | streamClosed k l hk => exact exists_set_eq_some (h.streamer_begun j fp hj)
  | _ => exact h.streamer_begun j fp hj

theorem Owned.https_step (h : Owned T s) (hT : T.Ordered) (he : Effect now T s a s') (i t : ℕ)
    (hi : (s'.https i).bind HttpThread.tunnel = some t) :
    ∃ fp, s'.callers i = some fp ∧ OnTunnel T fp t := by
  have old : (s.https i).bind HttpThread.tunnel = some t →
      ∃ fp, s'.callers i = some fp ∧ OnTunnel T fp t := by
    intro hi
    obtain ⟨fp, hfp, ht⟩ := h.https i t hi
    exact ⟨fp, h.host_mono he (o := .http i) hfp, ht⟩
  have moved : ∀ {k thread}, s'.https = s.https.set k thread →
      (thread.tunnel = none ∨ thread.tunnel = (s.https k).bind HttpThread.tunnel) →
      ∃ fp, s'.callers i = some fp ∧ OnTunnel T fp t := by
    intro k thread hh hth
    rw [hh] at hi
    rcases Table.bind_set_eq_some hi with ⟨rfl, hi'⟩ | ⟨-, hi'⟩
    · rcases hth with hth | hth
      · cases hth.symm.trans hi'
      · exact old (hth.symm.trans hi')
    · exact old hi'
  cases he with
  | refused k r e hk => exact moved rfl (.inl rfl)
  | unconnected k r fp hk => exact moved rfl (.inl rfl)
  | built k r fp u hk hu =>
    rcases Table.bind_set_eq_some hi with ⟨rfl, hi'⟩ | ⟨-, hi'⟩
    · cases hi'
      exact ⟨fp, Table.set_self, hT.current fp t hu⟩
    · exact old hi'
  | registered k random u r hk ho => exact moved rfl (.inr (by rw [hk]; rfl))
  | sent k w u req thread hk hth =>
    refine moved rfl (.inl ?_)
    rcases hth with rfl | rfl <;> rfl
  | received k req deadline u resp hk hc => exact moved rfl (.inl rfl)
  | timedOut k req deadline hk hd => exact moved rfl (.inl rfl)
  | cleared k req e hk => exact moved rfl (.inl rfl)
  | _ => exact old hi

/-- The tunnel and the identifier of a stream, after a step. -/
theorem Owned.upgrades_step (h : Owned T s) (hT : T.Ordered) (he : Effect now T s a s') (j : ℕ)
    (thread : StreamThread) (hj : s'.upgrades j = some thread) :
    (∀ t, thread.tunnel = some t → ∃ fp, s'.streamers j = some fp ∧ OnTunnel T fp t) ∧
      ∀ x, thread.id? = some x → s'.owners x = some (.stream j) := by
  have old : ∀ {thread₀}, s.upgrades j = some thread₀ →
      (∀ t, thread₀.tunnel = some t → ∃ fp, s'.streamers j = some fp ∧ OnTunnel T fp t) ∧
        ∀ x, thread₀.id? = some x → s'.owners x = some (.stream j) := by
    intro thread₀ hj
    refine ⟨fun t ht => ?_, fun x hx => he.owners_mono (h.ids j x (by rw [hj]; exact hx))⟩
    obtain ⟨fp, hfp, ht⟩ := h.upgrades j t (by rw [hj]; exact ht)
    exact ⟨fp, h.host_mono he (o := .stream j) hfp, ht⟩
  -- A thread that takes its tunnel and identifier from the one before it.
  have moved : ∀ {k thread₀ thread'}, s'.upgrades = s.upgrades.set k thread' →
      s.upgrades k = some thread₀ → (∀ t, thread'.tunnel = some t → thread₀.tunnel = some t) →
      (∀ x, thread'.id? = some x → thread₀.id? = some x) →
      (∀ t, thread.tunnel = some t → ∃ fp, s'.streamers j = some fp ∧ OnTunnel T fp t) ∧
        ∀ x, thread.id? = some x → s'.owners x = some (.stream j) := by
    intro k thread₀ thread' hu hk ht hx
    rw [hu] at hj
    rcases Table.set_eq_some_iff.mp hj with ⟨rfl, rfl⟩ | ⟨-, hj'⟩
    · exact ⟨fun t h => (old hk).1 t (ht t h), fun x h => (old hk).2 x (hx x h)⟩
    · exact old hj'
  cases he with
  | streamBegun k r fp thread' hk ht =>
    rcases Table.set_eq_some_iff.mp hj with ⟨rfl, rfl⟩ | ⟨-, hj'⟩
    · rcases ht with rfl | ⟨t, ht, rfl⟩
      · exact ⟨nofun, nofun⟩
      · refine ⟨fun u hu => ?_, nofun⟩
        cases hu
        exact ⟨fp, Table.set_self, hT.current fp t ht⟩
    · exact old hj'
  | streamRefused k supported t r e hk => exact moved rfl hk nofun nofun
  | streamRegistered k random t r hk ho =>
    rcases Table.set_eq_some_iff.mp hj with ⟨rfl, rfl⟩ | ⟨-, hj'⟩
    · refine ⟨(old hk).1, fun x hx => ?_⟩
      cases hx
      exact Table.set_self
    · exact old hj'
  | streamRead k chunk t id thread' hk ht =>
    rcases ht with rfl | ⟨d, rfl, rfl⟩
    · exact moved rfl hk (fun _ ht => ht) fun _ hx => hx
    · exact moved rfl hk (fun _ ht => ht) fun _ hx => hx
  | streamSent k w t m id thread' hk ht =>
    obtain ⟨thread₀, hk, hs⟩ := Option.bind_eq_some_iff.mp hk
    obtain ⟨htun, hid⟩ : thread₀.tunnel = some t ∧ thread₀.id? = some id := by
      cases thread₀ <;> cases hs <;> exact ⟨rfl, rfl⟩
    rcases ht with rfl | rfl
    · exact moved rfl hk (fun _ ht => htun.trans ht) fun _ hx => hid.trans hx
    · exact moved rfl hk nofun fun _ hx => hid.trans hx
  | streamRemoved k id thread' hk ht =>
    rcases ht with rfl | ⟨l, -, rfl⟩
    · exact moved rfl hk nofun nofun
    · exact moved rfl hk nofun nofun
  | streamClosed k l hk => exact moved rfl hk nofun nofun
  | _ => exact old hj

theorem Owned.maps_step (h : Owned T s) (he : Effect now T s a s') :
    (∀ x i, s'.pending x = some i → s'.owners x = some (.http i)) ∧
      ∀ x j, s'.streams x = some j → s'.owners x = some (.stream j) := by
  have hp : ∀ {x i}, s.pending x = some i → s'.owners x = some (.http i) := fun hx =>
    he.owners_mono (h.pending _ _ hx)
  have hs : ∀ {x j}, s.streams x = some j → s'.owners x = some (.stream j) := fun hx =>
    he.owners_mono (h.streams _ _ hx)
  cases he with
  | registered i random t r hi ho =>
    refine ⟨fun x k hx => ?_, fun x j => hs⟩
    rcases Table.set_eq_some_iff.mp hx with ⟨rfl, rfl⟩ | ⟨-, hx⟩
    · exact Table.set_self
    · exact hp hx
  | cleared i req e hi => exact ⟨fun x k hx => hp (Table.of_erase hx), fun x j => hs⟩
  | streamRegistered j random t r hj ho =>
    refine ⟨fun x i => hp, fun x k hx => ?_⟩
    rcases Table.set_eq_some_iff.mp hx with ⟨rfl, rfl⟩ | ⟨-, hx⟩
    · exact Table.set_self
    · exact hs hx
  | streamRemoved j id thread hj ht => exact ⟨fun x i => hp, fun x k hx => hs (Table.of_erase hx)⟩
  | readResponse t resp i conn hc ht hp' =>
    exact ⟨fun x k hx => hp (Table.of_erase hx), fun x j => hs⟩
  | readClose t c j conn hc ht hs' => exact ⟨fun x i => hp, fun x k hx => hs (Table.of_erase hx)⟩
  | readIgnored t m pending streams hp' hs' =>
    exact ⟨fun x i hx => hp (hp' x i hx), fun x j hx => hs (hs' x j hx)⟩
  | _ => exact ⟨fun x i => hp, fun x j => hs⟩

theorem Owned.hosted_step (h : Owned T s) (he : Effect now T s a s') (x : Bytes) (o : Owner)
    (hx : s'.owners x = some o) : ∃ fp, s'.host o = some fp := by
  have old : s.owners x = some o → ∃ fp, s'.host o = some fp := by
    intro hx
    obtain ⟨fp, hfp⟩ := h.hosted x o hx
    exact ⟨fp, h.host_mono he hfp⟩
  cases he with
  | registered i random t r hi ho =>
    rcases Table.set_eq_some_iff.mp hx with ⟨-, rfl⟩ | ⟨-, hx⟩
    · obtain ⟨fp, hfp, -⟩ := h.https i t (by rw [hi]; rfl)
      exact ⟨fp, hfp⟩
    · exact old hx
  | streamRegistered j random t r hj ho =>
    rcases Table.set_eq_some_iff.mp hx with ⟨-, rfl⟩ | ⟨-, hx⟩
    · obtain ⟨fp, hfp, -⟩ := h.upgrades j t (by rw [hj]; rfl)
      exact ⟨fp, hfp⟩
    · exact old hx
  | _ => exact old hx

/-- An identifier leaves the relay only on tunnels of its client's fingerprint. -/
theorem Owned.outbox_step (h : Owned T s) (hid : s.Identified) (he : Effect now T s a s') (t : ℕ)
    (m : TunnelMessage) (x : Bytes) (hm : m ∈ s'.outbox t) (hx : m.id? = some x) :
    ∃ o fp, s'.owners x = some o ∧ s'.host o = some fp ∧ OnTunnel T fp t := by
  have old : m ∈ s.outbox t →
      ∃ o fp, s'.owners x = some o ∧ s'.host o = some fp ∧ OnTunnel T fp t := by
    intro hm
    obtain ⟨o, fp, ho, hfp, ht⟩ := h.outbox t m x hm hx
    exact ⟨o, fp, he.owners_mono ho, h.host_mono he hfp, ht⟩
  cases he with
  | sent i w u req thread hi hth =>
    rcases mem_push hm with hm | ⟨rfl, rfl⟩
    · exact old hm
    · cases hx
      obtain ⟨fp, hfp, ht⟩ := h.https i t (by rw [hi]; rfl)
      exact ⟨.http i, fp, (hid.outstanding i req (by rw [hi]; rfl)).2, hfp, ht⟩
  | streamSent j w u m' id thread hj hth =>
    rcases mem_push hm with hm | ⟨rfl, rfl⟩
    · exact old hm
    · obtain ⟨thread₀, hj₀, hs⟩ := Option.bind_eq_some_iff.mp hj
      obtain ⟨htun, hid', hmid⟩ : thread₀.tunnel = some t ∧ thread₀.id? = some id ∧
          m.id? = some id := by
        cases thread₀ <;> cases hs <;> exact ⟨rfl, rfl, rfl⟩
      cases hmid.symm.trans hx
      obtain ⟨fp, hfp, ht⟩ := h.upgrades j t (by rw [hj₀]; exact htun)
      exact ⟨.stream j, fp, h.ids j x (by rw [hj₀]; exact hid'), hfp, ht⟩
  | ponged u written w hu =>
    rcases mem_push hm with hm | ⟨-, rfl⟩
    · exact old hm
    · cases hx
  | _ => exact old hm

theorem Owned.step (h : Owned T s) (hT : T.Ordered) (hid : s.Identified)
    (he : Effect now T s a s') : Owned T s' where
  caller_begun := h.caller_begun_step he
  streamer_begun := h.streamer_begun_step he
  https := h.https_step hT he
  upgrades j t hj := by
    obtain ⟨thread, hj, ht⟩ := Option.bind_eq_some_iff.mp hj
    exact (h.upgrades_step hT he j thread hj).1 t ht
  ids j x hj := by
    obtain ⟨thread, hj, hx⟩ := Option.bind_eq_some_iff.mp hj
    exact (h.upgrades_step hT he j thread hj).2 x hx
  pending := (h.maps_step he).1
  streams := (h.maps_step he).2
  hosted := h.hosted_step he
  outbox := h.outbox_step hid he

/-- Connections keep their fingerprint, so nothing changes owner when the tunnels change. -/
theorem Owned.mono {T' : Tunnels} (h : Owned T s)
    (hT : ∀ fp t, OnTunnel T fp t → OnTunnel T' fp t) : Owned T' s where
  caller_begun := h.caller_begun
  streamer_begun := h.streamer_begun
  https i t hi := by
    obtain ⟨fp, hfp, ht⟩ := h.https i t hi
    exact ⟨fp, hfp, hT fp t ht⟩
  upgrades j t hj := by
    obtain ⟨fp, hfp, ht⟩ := h.upgrades j t hj
    exact ⟨fp, hfp, hT fp t ht⟩
  ids := h.ids
  pending := h.pending
  streams := h.streams
  hosted := h.hosted
  outbox t m x hm hx := by
    obtain ⟨o, fp, ho, hfp, ht⟩ := h.outbox t m x hm hx
    exact ⟨o, fp, ho, hfp, hT fp t ht⟩

/-- The client belongs to some fingerprint, and if to `fp`, the connection is one of `fp`. -/
def Reaches (fp : Bytes) (T : Tunnels) (s : Traffic) (o : Owner) (t : ℕ) (_ : TunnelMessage) :
    Prop :=
  ∃ fp', s.host o = some fp' ∧ (fp' = fp → OnTunnel T fp t)

/-- The peers of other fingerprints only answer to identifiers that were sent on some tunnel of
their own fingerprint. -/
def Confined (fp : Bytes) (T : Tunnels) (s : Traffic) : TrafficAction → Prop
  | .read t m => ∀ c x, T.conns t = some c → c.fingerprint ≠ fp → m.answers = some x →
      ∃ u m', OnTunnel T c.fingerprint u ∧ m' ∈ s.outbox u ∧ m'.id? = some x
  | _ => True

theorem Owned.owners_of_finds (h : Owned T s) {x : Bytes} {o : Owner} (hx : s.Finds x o) :
    s.owners x = some o := by
  cases o with
  | http i => exact h.pending x i hx
  | stream j => exact h.streams x j hx

/-- An identifier of a client of `fp` is answered on a tunnel of `fp`. -/
theorem Owned.confined {fp : Bytes} (h : Owned T s) {t : ℕ} {m : TunnelMessage} {c : Conn}
    {x : Bytes} {o : Owner} (hg : Confined fp T s (.read t m)) (hc : T.conns t = some c)
    (hm : m.answers = some x) (hx : s.owners x = some o) : Reaches fp T s o t m := by
  obtain ⟨fp', hfp⟩ := h.hosted x o hx
  refine ⟨fp', hfp, ?_⟩
  rintro rfl
  by_contra hne
  have hcf : c.fingerprint ≠ fp' := fun hcf => hne ⟨c, hc, hcf⟩
  obtain ⟨u, m', ⟨d, hd, hdf⟩, hm', hid⟩ := hg c x hc hcf hm
  obtain ⟨o', fp'', ho', hfp'', d', hd', hdf'⟩ := h.outbox u m' x hm' hid
  cases hx.symm.trans ho'
  cases hfp.symm.trans hfp''
  cases hd.symm.trans hd'
  exact hcf (hdf.symm.trans hdf')

/-- Whatever is on its way to a client of `fp`, or has reached it, comes from a tunnel of `fp`. -/
theorem isolated_step {fp : Bytes} (h : s.Carried (Reaches fp T s)) (ho : Owned T s)
    (hg : Confined fp T s a) (he : Effect now T s a s') : s'.Carried (Reaches fp T s') := by
  have keep : ∀ {o t m}, Reaches fp T s o t m → Reaches fp T s' o t m := by
    rintro o t m ⟨fp', hfp, ht⟩
    exact ⟨fp', ho.host_mono he hfp, ht⟩
  refine h.step he keep fun t m x o c ha hc hm hx => keep ?_
  subst ha
  exact ho.confined hg hc hm (ho.owners_of_finds hx)

end Traffic

/-- Connections are never forgotten and keep their fingerprint. -/
theorem OnTunnel.step {registrations : Table Bytes Registration} {T T' : Tunnels}
    {b : TunnelAction} (hT : T.Ordered) (he : Tunnels.Effect registrations T b T') (fp : Bytes)
    (t : ℕ) (h : OnTunnel T fp t) : OnTunnel T' fp t := by
  obtain ⟨c, hc, hf⟩ := h
  have set : ∀ {u d d'}, T.conns u = some d → d'.fingerprint = d.fingerprint →
      ∃ c', T.conns.set u d' t = some c' ∧ c'.fingerprint = fp := by
    intro u d d' hu hd
    by_cases ht : t = u
    · subst ht
      cases hc.symm.trans hu
      exact ⟨d', Table.set_self, hd.trans hf⟩
    · exact ⟨c, (Table.set_of_ne ht).trans hc, hf⟩
  cases he with
  | dialEnded i d hd ha => exact ⟨c, hc, hf⟩
  | dialAuthorised i host reg hr => exact ⟨c, hc, hf⟩
  | installed i fp' auth hi =>
    obtain ⟨d, hd, hdf, -⟩ := Tunnels.install_conns_of hT hc
    exact ⟨d, hd, hdf.trans hf⟩
  | failed u d hd hr => exact set hd rfl
  | cleaned u d hd hr => exact set hd rfl

namespace Server

variable {P : Primitives} {env : Environment} {now : ℕ} {s s' : Server} {a : Action} {fp : Bytes}

/-- `Traffic.Confined` for the actions of the relay. -/
def Confined (fp : Bytes) (s : Server) : Action → Prop
  | .traffic b => s.traffic.Confined fp s.tunnels b
  | _ => True

/-- Only what the peers send is restricted. -/
theorem confined_of_reads (h : a.reads = false) : s.Confined fp a := by
  cases a with
  | registry b => trivial
  | tunnel b => trivial
  | traffic b =>
    cases b with
    | read t m => cases h
    | _ => trivial

/-- The invariant of runs in which the peers of other fingerprints are confined. -/
structure Separate (P : Primitives) (fp : Bytes) (s : Server) : Prop where
  authentic : s.Authentic P
  correlated : s.traffic.Correlated
  sourced : s.traffic.Sourced
  owned : s.traffic.Owned s.tunnels
  isolated : s.traffic.Carried (s.traffic.Reaches fp s.tunnels)

theorem Separate.initial : Server.initial.Separate P fp :=
  ⟨.initial, .initial, .initial, .initial, .initial⟩

theorem Separate.step (h : s.Separate P fp) (hg : s.Confined fp a)
    (hs : s.step P env now a = some s') : s'.Separate P fp := by
  have ha := h.authentic.step hs
  rcases step_cases hs with ⟨b, r, rfl, -, rfl⟩ | ⟨b, t, rfl, -, ht, rfl⟩ | ⟨b, x, rfl, hx, rfl⟩
  · exact ⟨ha, h.correlated, h.sourced, h.owned, h.isolated⟩
  · have hT := OnTunnel.step h.authentic.ordered (Tunnels.step_effect ht)
    refine ⟨ha, h.correlated, h.sourced, h.owned.mono hT, h.isolated.mono ?_⟩
    rintro o t m ⟨fp', hfp, ht⟩
    exact ⟨fp', hfp, fun hf => hT fp t (ht hf)⟩
  · have he := Traffic.step_effect hx
    exact ⟨ha, h.correlated.step he, h.sourced.step he,
      h.owned.step h.authentic.ordered h.correlated.identified he,
      Traffic.isolated_step h.isolated h.owned hg he⟩

end Server

/-- Tenant isolation. Every response relayed, every byte written and every stream closed by a tunnel
message, for a client that connected to the host of `fp`, is what the relay makes of a message read
on a tunnel that was authenticated with a secret issued for `fp`. -/
theorem tenant_isolation {P : Primitives} {env : Environment} {fp : Bytes} {s : ℕ × Server}
    (hr : (relay P env).Reach (fun s a => s.2.Confined fp a.2) s) {e : TrafficEvent}
    (he : e ∈ s.2.traffic.log) {o : Owner} {t : ℕ} (hv : e.via = some (o, t))
    (ho : s.2.traffic.host o = some fp) :
    ∃ c m, s.2.tunnels.conns t = some c ∧ c.fingerprint = fp ∧
      Issued P s.2.registry.log fp c.auth ∧ .read t m ∈ s.2.traffic.log ∧ e.CausedBy m := by
  have h : s.2.Separate P fp := by
    refine hr.invariant (P := fun s => s.2.Separate P fp) ?_ ?_
    · rintro ⟨now, s⟩ rfl
      exact .initial
    · rintro s a s' - hg hs h
      obtain ⟨-, -, hs⟩ := Machine.timed_step.mp hs
      exact h.step hg hs
  obtain ⟨-, -, fp', hfp, ht⟩ := h.isolated.log e he o t hv
  obtain ⟨m, hc, hm⟩ := h.sourced.log e he o t hv
  cases ho.symm.trans hfp
  obtain ⟨c, hct, rfl⟩ := ht rfl
  exact ⟨c, m, hct, rfl, h.authentic.conns t c hct, hm, hc⟩

/-- A request to the host of the registration. -/
def Vector.clientRequest : ClientRequest where
  request := { Vector.post with host := Vector.host }
  url := [0x2f]
  body := none

/-- The response that the tunnel peer gives to it. -/
def Vector.clientResponse : TunnelResponse where
  id := randomHex (List.replicate 16 6)
  status := 200
  headers := []
  body := none
  isBinary := false

/-- A request goes out over the tunnel. -/
def requestRun : List (ℕ × Action) :=
  connectRun ++ [(3, .traffic (.httpBegin 0 Vector.clientRequest)),
    (3, .traffic (.httpRegister 0 (List.replicate 16 6))), (3, .traffic (.httpSend 0 .sent))]

/-- Its response comes back. -/
def answerRun : List (ℕ × Action) :=
  [(4, .traffic (.read 0 (.response Vector.clientResponse))),
    (4, .traffic (.readerFinish 0 0 .sent)), (4, .traffic (.httpReceive 0))]

theorem tenant_isolation_answerRun :
    ∃ s, (relay Vector.primitives {}).exec (0, Server.initial) (requestRun ++ answerRun) = some s ∧
      .finished 0 (.relayed 0 Vector.clientResponse) ∈ s.2.traffic.log ∧
      ∃ c, s.2.tunnels.conns 0 = some c ∧ c.fingerprint = Vector.fingerprint ∧
        Issued Vector.primitives s.2.registry.log Vector.fingerprint c.auth ∧
        .read 0 (.response Vector.clientResponse) ∈ s.2.traffic.log := by
  have h : ((relay Vector.primitives {}).exec (0, Server.initial) (requestRun ++ answerRun)).map
      (fun s => (decide (.finished 0 (.relayed 0 Vector.clientResponse) ∈ s.2.traffic.log),
        s.2.traffic.callers 0)) = some (true, some Vector.fingerprint) := by decide +kernel
  obtain ⟨s, hs, h⟩ := Option.map_eq_some_iff.mp h
  obtain ⟨hlog, hhost⟩ := Prod.mk.injEq .. ▸ h
  have hlog := of_decide_eq_true hlog
  obtain ⟨t, ht, hs'⟩ := Machine.exec_append.mp hs
  have h₀ : (relay Vector.primitives {}).init (0, Server.initial) := rfl
  have hquiet : ∀ a ∈ requestRun, a.2.reads = false := by decide +kernel
  have hr : (relay Vector.primitives {}).Reach
      (fun s a => s.2.Confined Vector.fingerprint a.2) t :=
    .exec (fun a ha _ => Server.confined_of_reads (hquiet a ha)) (.init h₀) ht
  -- The response is read on the tunnel of the fingerprint itself.
  have hread : t.2.Confined Vector.fingerprint
      (.traffic (.read 0 (.response Vector.clientResponse))) := by
    intro c x hc hne
    have hf : ((relay Vector.primitives {}).exec (0, Server.initial) requestRun).map
        (fun s => (s.2.tunnels.conns 0).map Conn.fingerprint) =
        some (some Vector.fingerprint) := by decide +kernel
    rw [ht, Option.map_some, hc] at hf
    exact absurd (Option.some.inj (Option.some.inj hf)) hne
  obtain ⟨u, hu, hs'⟩ := Option.bind_eq_some_iff.mp hs'
  have hr' : (relay Vector.primitives {}).Reach
      (fun s a => s.2.Confined Vector.fingerprint a.2) s :=
    .exec (by simp [Server.Confined, Traffic.Confined]) (.step hr hread hu) hs'
  obtain ⟨c, m, hc, hf, hi, hm, hmsg⟩ := tenant_isolation hr' hlog (o := .http 0) rfl hhost
  cases hmsg
  exact ⟨s, hs, hlog, c, hc, hf, hi, hm⟩

end HeadFwd.Relay
