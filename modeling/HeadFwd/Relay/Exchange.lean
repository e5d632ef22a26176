import HeadFwd.Relay.Traffic

/-! # Requests and responses

Every outstanding request has one slot for its response: an entry of the map, a
reader about to send on the channel, or the filled channel. The slot moves
along in this order and is never duplicated, so the send on the channel finds
room and a call ends exactly once.
-/

namespace HeadFwd.Relay

open Text Net Transition Tunnel

/-- The request a call has put into the map of outstanding requests and not yet given up. -/
def HttpThread.outstanding : HttpThread → Option TunnelRequest
  | .registered _ req => some req
  | .unsent req => some req
  | .waiting req _ => some req
  | .timedOut req => some req
  | _ => none

def HttpThread.outcome : HttpThread → Option Outcome
  | .finished o => some o
  | _ => none

/-- The call has not drawn an identifier yet. -/
def HttpThread.early : HttpThread → Bool
  | .building _ _ => true
  | _ => false

/-- How many steps a call has at most before it. -/
def HttpThread.rank : HttpThread → ℕ
  | .building _ _ => 4
  | .registered _ _ => 3
  | .waiting _ _ => 2
  | .unsent _ => 1
  | .timedOut _ => 1
  | .finished _ => 0

theorem HttpThread.outcome_of_rank {thread : HttpThread} (h : thread.rank = 0) :
    ∃ o, thread.outcome = some o := by
  cases thread with
  | finished o => exact ⟨o, rfl⟩
  | _ => cases h

/-- The call whose step an action is. -/
def TrafficAction.caller : TrafficAction → Option ℕ
  | .httpBegin i _ => some i
  | .httpRegister i _ => some i
  | .httpSend i _ => some i
  | .httpReceive i => some i
  | .httpTimeout i => some i
  | .httpClear i => some i
  | _ => none

def TrafficEvent.finishes (i : ℕ) : TrafficEvent → Bool
  | .finished k _ => k = i
  | _ => false

namespace Traffic

variable {now : ℕ} {tunnels : Tunnels} {s s' : Traffic} {a : TrafficAction}

/-- Identifiers are drawn once: an identifier of a call is that of its request. -/
structure Identified (s : Traffic) : Prop where
  outstanding : ∀ i req, (s.https i).bind HttpThread.outstanding = some req →
    s.requests i = some req ∧ s.owners req.id = some (.http i)
  owned : ∀ x i, s.owners x = some (.http i) → ∃ req, s.requests i = some req ∧ req.id = x
  started : ∀ i req, s.requests i = some req →
    ∃ thread, s.https i = some thread ∧ thread.early = false
  sent : ∀ t req, .request req ∈ s.outbox t →
    ∃ i, s.requests i = some req ∧ s.owners req.id = some (.http i)

theorem mem_push {outbox : ℕ → List TunnelMessage} {t u : ℕ} {m m' : TunnelMessage}
    {w : WriteOutcome} (h : m' ∈ push outbox t m w u) : m' ∈ outbox u ∨ u = t ∧ m' = m := by
  have hup : m' ∈ Function.update outbox t (outbox t ++ [m]) u → m' ∈ outbox u ∨ u = t ∧ m' = m := by
    intro h
    by_cases hu : u = t
    · subst hu
      rw [Function.update_self, List.mem_append, List.mem_singleton] at h
      exact h.imp_right fun h => ⟨rfl, h⟩
    · rw [Function.update_of_ne hu] at h
      exact .inl h
  cases w with
  | sent => exact hup h
  | failed delivered =>
    cases delivered with
    | false => exact .inl h
    | true => exact hup h

theorem mem_push_of_mem {outbox : ℕ → List TunnelMessage} {t u : ℕ} {m m' : TunnelMessage}
    {w : WriteOutcome} (h : m' ∈ outbox u) : m' ∈ push outbox t m w u := by
  have hup : m' ∈ Function.update outbox t (outbox t ++ [m]) u := by
    by_cases hu : u = t
    · subst hu
      rw [Function.update_self]
      exact List.mem_append_left _ h
    · rw [Function.update_of_ne hu]
      exact h
  cases w with
  | sent => exact hup
  | failed delivered =>
    cases delivered with
    | false => exact h
    | true => exact hup

/-- What has reached the other end of a connection stays there. -/
theorem Effect.outbox_mono (he : Effect now tunnels s a s') {t : ℕ} {m : TunnelMessage}
    (hm : m ∈ s.outbox t) : m ∈ s'.outbox t := by
  cases he with
  | sent i w u req thread hi ht => exact mem_push_of_mem hm
  | streamSent j w u m id thread hj ht => exact mem_push_of_mem hm
  | ponged u written w ht => exact mem_push_of_mem hm
  | _ => exact hm

/-- A call is about the request it was begun with: the request it has taken up, and the message made
of it. -/
structure About (clients : Table ℕ ClientRequest) (s : Traffic) : Prop where
  building : ∀ i t r, s.https i = some (.building t r) → clients i = some r
  requests : ∀ i req, s.requests i = some req →
    ∃ r, clients i = some r ∧ req = tunnelRequest req.id r

/-- The requests that the calls were begun with, after an action. -/
def begun (clients : Table ℕ ClientRequest) : TrafficAction → Table ℕ ClientRequest
  | .httpBegin i r => clients.set i r
  | _ => clients

/-- Identifiers are hexadecimal text, which travels unchanged. -/
theorem Effect.validUtf8 (he : Effect now tunnels s a s')
    (h : ∀ x o, s.owners x = some o → ValidUtf8 x) {x : Bytes} {o : Owner}
    (hx : s'.owners x = some o) : ValidUtf8 x := by
  have drawn : ∀ {random o'}, s.owners.set (randomHex random) o' x = some o → ValidUtf8 x := by
    intro random o' hx
    rcases Table.set_eq_some_iff.mp hx with ⟨rfl, -⟩ | ⟨-, hx⟩
    · exact validUtf8_of_ascii fun b hb => lt_of_mem_encodeHex hb
    · exact h x o hx
  cases he with
  | registered i random t r hi ho => exact drawn hx
  | streamRegistered j random t r hj ho => exact drawn hx
  | _ => exact h x o hx

theorem Identified.initial : Traffic.initial.Identified := ⟨nofun, nofun, nofun, nofun⟩

/-- Steps of a call that leave its identifier alone. -/
theorem Identified.advance (h : s.Identified) {i : ℕ} {thread : HttpThread}
    (hh : s'.https = s.https.set i thread) (hr : s'.requests = s.requests)
    (ho : s'.owners = s.owners)
    (hout : ∀ req, thread.outstanding = some req →
      (s.https i).bind HttpThread.outstanding = some req)
    (hearly : thread.early = true → s.https i = none)
    (hsent : ∀ t req, .request req ∈ s'.outbox t → .request req ∈ s.outbox t ∨
      (s.https i).bind HttpThread.outstanding = some req) : s'.Identified where
  outstanding k req hk := by
    rw [hh] at hk
    rw [hr, ho]
    rcases Table.bind_set_eq_some hk with ⟨rfl, hk'⟩ | ⟨-, hk'⟩
    · exact h.outstanding k req (hout req hk')
    · exact h.outstanding k req hk'
  owned := by
    rw [hr, ho]
    exact h.owned
  started k req hk := by
    rw [hr] at hk
    rw [hh]
    by_cases hki : k = i
    · subst hki
      refine ⟨thread, Table.set_self, ?_⟩
      cases he : thread.early with
      | false => rfl
      | true =>
        obtain ⟨_, hk, -⟩ := h.started k req hk
        cases (hearly he).symm.trans hk
    · rw [Table.set_of_ne hki]
      exact h.started k req hk
  sent t req hm := by
    rw [hr, ho]
    rcases hsent t req hm with hm | hm
    · exact h.sent t req hm
    · exact ⟨i, h.outstanding i req hm⟩

/-- A call that has not begun has no request. -/
theorem Identified.requests_eq_none (h : s.Identified) {i : ℕ} (hi : s.https i = none) :
    s.requests i = none := by
  cases hr : s.requests i with
  | none => rfl
  | some req =>
    obtain ⟨thread, hth, -⟩ := h.started i req hr
    cases hi.symm.trans hth

theorem About.step {clients : Table ℕ ClientRequest} (h : s.About clients) (hid : s.Identified)
    (he : Effect now tunnels s a s') : s'.About (begun clients a) := by
  -- Only the call that begins changes what is recorded, and it has nothing else yet.
  have start : ∀ {k r thread}, s.https k = none → s'.https = s.https.set k thread →
      s'.requests = s.requests → (∀ t r', thread = .building t r' → r' = r) →
      s'.About (clients.set k r) := by
    intro k r thread hk hh hr hthread
    constructor
    · intro i t r' hi
      rw [hh] at hi
      rcases Table.set_eq_some_iff.mp hi with ⟨rfl, hi'⟩ | ⟨hne, hi'⟩
      · rw [hthread t r' hi']
        exact Table.set_self
      · exact (Table.set_of_ne hne).trans (h.building i t r' hi')
    · intro i req hi
      rw [hr] at hi
      have hne : i ≠ k := by
        rintro rfl
        cases (hid.requests_eq_none hk).symm.trans hi
      obtain ⟨r', hr', hreq⟩ := h.requests i req hi
      exact ⟨r', (Table.set_of_ne hne).trans hr', hreq⟩
  have advance : ∀ {k thread}, s'.https = s.https.set k thread → s'.requests = s.requests →
      (∀ t r, thread ≠ .building t r) → s'.About clients := by
    intro k thread hh hr hthread
    refine ⟨fun i t r hi => ?_, hr ▸ h.requests⟩
    rw [hh] at hi
    exact h.building i t r (Table.of_set hi (hthread t r))
  have keep : s'.https = s.https → s'.requests = s.requests → s'.About clients :=
    fun hh hr => ⟨hh ▸ h.building, hr ▸ h.requests⟩
  cases he with
  | refused i r e hi => exact start hi rfl rfl nofun
  | unconnected i r fp hi => exact start hi rfl rfl nofun
  | built i r fp t hi ht =>
    apply start hi rfl rfl
    intro t' r' hr
    cases hr
    rfl
  | registered i random t r hi ho =>
    refine ⟨fun k t' r' hk => h.building k t' r' (Table.of_set hk nofun), fun k req hk => ?_⟩
    rcases Table.set_eq_some_iff.mp hk with ⟨rfl, rfl⟩ | ⟨-, hk'⟩
    · exact ⟨r, h.building k t r hi, rfl⟩
    · exact h.requests k req hk'
  | sent i w t req thread hi ht =>
    apply advance rfl rfl
    intro t' r hr
    rcases ht with rfl | rfl <;> cases hr
  | received i req deadline t resp hi hc => exact advance rfl rfl nofun
  | timedOut i req deadline hi hd => exact advance rfl rfl nofun
  | cleared i req e hi => exact advance rfl rfl nofun
  | _ => exact keep rfl rfl

/-- Steps that leave the calls alone. -/
theorem Identified.keep (h : s.Identified) (hh : s'.https = s.https)
    (hr : s'.requests = s.requests) (ho : ∀ x i, s'.owners x = some (.http i) ↔
      s.owners x = some (.http i))
    (hsent : ∀ t req, .request req ∈ s'.outbox t → .request req ∈ s.outbox t) : s'.Identified where
  outstanding k req hk := by
    rw [hh] at hk
    rw [hr, ho]
    exact h.outstanding k req hk
  owned x i hx := by
    rw [hr]
    exact h.owned x i ((ho x i).mp hx)
  started := by
    rw [hr, hh]
    exact h.started
  sent t req hm := by
    obtain ⟨i, hi, hx⟩ := h.sent t req (hsent t req hm)
    exact ⟨i, hr ▸ hi, (ho _ i).mpr hx⟩

theorem Identified.register (h : s.Identified) {i t : ℕ} {id : Bytes} {r : ClientRequest}
    {pending : Table Bytes ℕ} (hi : s.https i = some (.building t r)) (ho : s.owners id = none) :
    Identified { s with
      pending
      https := s.https.set i (.registered t (tunnelRequest id r))
      owners := s.owners.set id (.http i)
      requests := s.requests.set i (tunnelRequest id r) } := by
  have hnew : s.requests i = none := by
    cases hr : s.requests i with
    | none => rfl
    | some req =>
      obtain ⟨thread, hth, he⟩ := h.started i req hr
      cases hi.symm.trans hth
      cases he
  -- Requests and owners recorded before the draw are still there after it.
  have keep : ∀ {k req}, s.requests k = some req ∧ s.owners req.id = some (.http k) →
      s.requests.set i (tunnelRequest id r) k = some req ∧
        s.owners.set id (.http i) req.id = some (.http k) := by
    rintro k req ⟨hk, hx⟩
    have hki : k ≠ i := by
      rintro rfl
      cases hnew.symm.trans hk
    have hxid : req.id ≠ id := by
      intro hx'
      cases ho.symm.trans (hx' ▸ hx)
    exact ⟨(Table.set_of_ne hki).trans hk, (Table.set_of_ne hxid).trans hx⟩
  constructor
  · intro k req hk
    rcases Table.bind_set_eq_some hk with ⟨rfl, hk'⟩ | ⟨-, hk'⟩
    · cases hk'
      exact ⟨Table.set_self, Table.set_self⟩
    · exact keep (h.outstanding k req hk')
  · intro x k hx
    rcases Table.set_eq_some_iff.mp hx with ⟨rfl, hk⟩ | ⟨-, hx'⟩
    · cases hk
      exact ⟨_, Table.set_self, rfl⟩
    · obtain ⟨req, hreq, rfl⟩ := h.owned x k hx'
      exact ⟨req, (keep ⟨hreq, hx'⟩).1, rfl⟩
  · intro k req hk
    by_cases hki : k = i
    · subst hki
      exact ⟨_, Table.set_self, rfl⟩
    · obtain ⟨thread, hth, he⟩ := h.started k req ((Table.set_of_ne hki).symm.trans hk)
      exact ⟨thread, (Table.set_of_ne hki).trans hth, he⟩
  · intro u req hm
    obtain ⟨k, hk⟩ := h.sent u req hm
    exact ⟨k, keep hk⟩

theorem Identified.step (h : s.Identified) (he : Effect now tunnels s a s') : s'.Identified := by
  cases he with
  | refused i r e hi => exact h.advance rfl rfl rfl nofun nofun fun t req hm => .inl hm
  | unconnected i r fp hi => exact h.advance rfl rfl rfl nofun nofun fun t req hm => .inl hm
  | built i r fp t hi ht =>
    exact h.advance rfl rfl rfl nofun (fun _ => hi) fun t req hm => .inl hm
  | registered i random t r hi ho => exact h.register hi ho
  | sent i w t req thread hi ht =>
    have hout : (s.https i).bind HttpThread.outstanding = some req := by rw [hi]; rfl
    refine h.advance rfl rfl rfl (fun req' hreq => ?_) (fun hearly => ?_) fun u req' hm => ?_
    · rcases ht with rfl | rfl
      · exact hout.trans hreq
      · exact hout.trans hreq
    · rcases ht with rfl | rfl <;> cases hearly
    · rcases mem_push hm with hm | ⟨-, hm⟩
      · exact .inl hm
      · cases hm
        exact .inr hout
  | received i req deadline t resp hi hc =>
    exact h.advance rfl rfl rfl nofun nofun fun t req hm => .inl hm
  | timedOut i req deadline hi hd =>
    refine h.advance rfl rfl rfl (fun req' hreq => ?_) nofun fun t req hm => .inl hm
    rw [hi]
    exact hreq
  | cleared i req e hi => exact h.advance rfl rfl rfl nofun nofun fun t req hm => .inl hm
  | streamRegistered j random t r hj ho =>
    refine h.keep rfl rfl (fun x i => ?_) fun t req hm => hm
    rw [Table.set_eq_some_iff]
    constructor
    · rintro (⟨-, hx⟩ | ⟨-, hx⟩)
      · cases hx
      · exact hx
    · intro hx
      refine .inr ⟨?_, hx⟩
      rintro rfl
      cases ho.symm.trans hx
  | streamSent j w t m id thread hj ht =>
    refine h.keep rfl rfl (fun _ _ => Iff.rfl) fun u req hm => ?_
    rcases mem_push hm with hm | ⟨-, rfl⟩
    · exact hm
    · obtain ⟨th, hth, hs⟩ := Option.bind_eq_some_iff.mp hj
      cases th <;> cases hs
  | ponged t written w ht =>
    refine h.keep rfl rfl (fun _ _ => Iff.rfl) fun u req hm => ?_
    rcases mem_push hm with hm | ⟨-, hm⟩
    · exact hm
    · cases hm
  | _ => exact h.keep rfl rfl (fun _ _ => Iff.rfl) fun t req hm => hm

/-- The slots: a call with an entry in the map has nothing in its channel and no reader on the way
there, and at most one reader is on the way to an empty channel. -/
structure Slotted (s : Traffic) : Prop where
  pending : ∀ x i, s.pending x = some i →
    (∃ req, (s.https i).bind HttpThread.outstanding = some req ∧ req.id = x) ∧ s.chans i = none ∧
      ∀ t resp, s.readers t ≠ some (.delivering i resp)
  delivering : ∀ t i resp, s.readers t = some (.delivering i resp) →
    s.chans i = none ∧ s.owners resp.id = some (.http i)
  single : ∀ t u i resp resp', s.readers t = some (.delivering i resp) →
    s.readers u = some (.delivering i resp') → t = u
  chans : ∀ i t resp, s.chans i = some (t, resp) → s.owners resp.id = some (.http i)

theorem Slotted.initial : Traffic.initial.Slotted := ⟨nofun, nofun, nofun, nofun⟩

/-- Steps that fill no slot. -/
theorem Slotted.shrink (h : s.Slotted)
    (hp : ∀ x i, s'.pending x = some i → s.pending x = some i ∧
      (s'.https i).bind HttpThread.outstanding = (s.https i).bind HttpThread.outstanding)
    (hc : ∀ i v, s'.chans i = some v → s.chans i = some v)
    (hr : ∀ t i resp, s'.readers t = some (.delivering i resp) →
      s.readers t = some (.delivering i resp))
    (ho : ∀ x i, s.owners x = some (.http i) → s'.owners x = some (.http i)) : s'.Slotted := by
  have none_of : ∀ {i}, s.chans i = none → s'.chans i = none := by
    intro i hi
    cases hi' : s'.chans i with
    | none => rfl
    | some v => cases hi.symm.trans (hc i v hi')
  refine ⟨fun x i hx => ?_, fun t i resp ht => ?_, fun t u i resp resp' ht hu => ?_,
    fun i t resp hi => ho _ i (h.chans i t resp (hc i _ hi))⟩
  · obtain ⟨hx, hth⟩ := hp x i hx
    obtain ⟨hreq, hi, hd⟩ := h.pending x i hx
    exact ⟨hth ▸ hreq, none_of hi, fun t resp ht => hd t resp (hr t i resp ht)⟩
  · obtain ⟨hi, hx⟩ := h.delivering t i resp (hr t i resp ht)
    exact ⟨none_of hi, ho _ i hx⟩
  · exact h.single t u i resp resp' (hr t i resp ht) (hr u i resp' hu)

/-- Steps of one call, when an entry of the map for it means that its request stays outstanding. -/
theorem Slotted.advance (h : s.Slotted) {i : ℕ} {thread : HttpThread}
    (hh : s'.https = s.https.set i thread)
    (hp : ∀ x k, s'.pending x = some k → s.pending x = some k)
    (hi : ∀ x, s'.pending x = some i →
      thread.outstanding = (s.https i).bind HttpThread.outstanding)
    (hc : ∀ k v, s'.chans k = some v → s.chans k = some v) (hr : s'.readers = s.readers)
    (ho : s'.owners = s.owners) : s'.Slotted := by
  refine h.shrink (fun x k hx => ⟨hp x k hx, ?_⟩) hc (fun t k resp ht => hr ▸ ht)
    fun x k hx => ho ▸ hx
  rw [hh]
  by_cases hk : k = i
  · subst hk
    exact Table.bind_set_self.trans (hi x hx)
  · exact Table.bind_set_of_ne hk

/-- A call without an outstanding request has no entry. -/
theorem Slotted.not_pending (h : s.Slotted) {i : ℕ}
    (hi : (s.https i).bind HttpThread.outstanding = none) {x : Bytes} : s.pending x ≠ some i := by
  intro hx
  obtain ⟨⟨req, hreq, -⟩, -⟩ := h.pending x i hx
  cases hi.symm.trans hreq

theorem Slotted.register (h : s.Slotted) (hid : s.Identified) {i t : ℕ} {id : Bytes}
    {r : ClientRequest} (hi : s.https i = some (.building t r)) (ho : s.owners id = none) :
    Slotted { s with
      pending := s.pending.set id i
      https := s.https.set i (.registered t (tunnelRequest id r))
      owners := s.owners.set id (.http i)
      requests := s.requests.set i (tunnelRequest id r) } := by
  have hnone : ∀ x, s.owners x ≠ some (.http i) := by
    intro x hx
    obtain ⟨req, hreq, -⟩ := hid.owned x i hx
    obtain ⟨thread, hth, he⟩ := hid.started i req hreq
    cases hi.symm.trans hth
    cases he
  have hown : ∀ {x k}, s.owners x = some (.http k) →
      s.owners.set id (.http i) x = some (.http k) := by
    intro x k hx
    exact Table.set_frame_new hx ho
  have hpend : ∀ {x}, s.pending x ≠ some i := h.not_pending (by rw [hi]; rfl)
  refine ⟨fun x k hx => ?_, fun u k resp hu => ?_, h.single,
    fun k u resp hk => hown (h.chans k u resp hk)⟩
  · rcases Table.set_eq_some_iff.mp hx with ⟨rfl, rfl⟩ | ⟨-, hx'⟩
    · refine ⟨⟨_, Table.bind_set_self, rfl⟩, ?_, fun u resp hu => ?_⟩
      · cases hc : s.chans i with
        | none => rfl
        | some v => exact absurd (h.chans i v.1 v.2 hc) (hnone _)
      · exact hnone _ (h.delivering u i resp hu).2
    · obtain ⟨⟨req, hreq, hid⟩, hrest⟩ := h.pending x k hx'
      have hki : k ≠ i := fun hk => hpend (hk ▸ hx')
      exact ⟨⟨req, (Table.bind_set_of_ne hki).trans hreq, hid⟩, hrest⟩
  · obtain ⟨hk, hx⟩ := h.delivering u k resp hu
    exact ⟨hk, hown hx⟩

/-- A reader takes an entry out of the map. -/
theorem Slotted.take (h : s.Slotted) (hid : s.Identified) {t i : ℕ} {resp : TunnelResponse}
    {log : List TrafficEvent} (hp : s.pending resp.id = some i) :
    Slotted { s with
      pending := s.pending.erase resp.id
      readers := s.readers.set t (.delivering i resp)
      log } := by
  obtain ⟨⟨req, hreq, hx⟩, hchan, hfree⟩ := h.pending resp.id i hp
  refine ⟨fun x k hx' => ?_, fun u k resp' hu => ?_, fun u v k r₁ r₂ hu hv => ?_, h.chans⟩
  · obtain ⟨hne, hx'⟩ := Table.erase_eq_some_iff.mp hx'
    obtain ⟨⟨req', hreq', hid'⟩, hk, hd⟩ := h.pending x k hx'
    refine ⟨⟨req', hreq', hid'⟩, hk, fun u resp' hu => ?_⟩
    rcases Table.set_eq_some_iff.mp hu with ⟨-, hu⟩ | ⟨-, hu⟩
    · cases hu
      cases hreq.symm.trans hreq'
      exact hne (hid'.symm.trans hx)
    · exact hd u resp' hu
  · rcases Table.set_eq_some_iff.mp hu with ⟨-, hu⟩ | ⟨-, hu⟩
    · cases hu
      exact ⟨hchan, hx ▸ (hid.outstanding i req hreq).2⟩
    · exact h.delivering u k resp' hu
  · rcases Table.set_eq_some_iff.mp hu with ⟨rfl, hu'⟩ | ⟨-, hu'⟩ <;>
      rcases Table.set_eq_some_iff.mp hv with ⟨rfl, hv'⟩ | ⟨-, hv'⟩
    · rfl
    · cases hu'
      exact absurd hv' (hfree v r₂)
    · cases hv'
      exact absurd hu' (hfree u r₁)
    · exact h.single u v k r₁ r₂ hu' hv'

/-- A reader fills the channel. -/
theorem Slotted.fill (h : s.Slotted) {t i : ℕ} {resp : TunnelResponse}
    (ht : s.readers t = some (.delivering i resp)) :
    Slotted { s with chans := s.chans.set i (t, resp), readers := s.readers.erase t } := by
  constructor
  · intro x k hx
    obtain ⟨hreq, hk, hd⟩ := h.pending x k hx
    have hki : k ≠ i := by
      rintro rfl
      exact hd t resp ht
    exact ⟨hreq, (Table.set_of_ne hki).trans hk, fun u r hu => hd u r (Table.of_erase hu)⟩
  · intro u k resp' hu
    obtain ⟨hne, hu'⟩ := Table.erase_eq_some_iff.mp hu
    obtain ⟨hk, hx⟩ := h.delivering u k resp' hu'
    have hki : k ≠ i := by
      rintro rfl
      exact hne (h.single u t k resp' resp hu' ht)
    exact ⟨(Table.set_of_ne hki).trans hk, hx⟩
  · intro u v k r₁ r₂ hu hv
    exact h.single u v k r₁ r₂ (Table.of_erase hu) (Table.of_erase hv)
  · intro k u resp' hk
    rcases Table.set_eq_some_iff.mp hk with ⟨rfl, hk'⟩ | ⟨-, hk'⟩
    · cases hk'
      exact (h.delivering t k resp ht).2
    · exact h.chans k u resp' hk'

theorem Slotted.step (h : s.Slotted) (hid : s.Identified) (he : Effect now tunnels s a s') :
    s'.Slotted := by
  -- The steps of streams and the steps of readers for streams do not touch the slots.
  have stay : s'.pending = s.pending → s'.https = s.https → s'.chans = s.chans →
      (∀ t i resp, s'.readers t = some (.delivering i resp) →
        s.readers t = some (.delivering i resp)) →
      (∀ x i, s.owners x = some (.http i) → s'.owners x = some (.http i)) → s'.Slotted :=
    fun hp hh hc hr ho => h.shrink (fun x i hx => ⟨hp ▸ hx, by rw [hh]⟩) (fun i v hv => hc ▸ hv) hr ho
  cases he with
  | refused i r e hi =>
    exact h.advance rfl (fun _ _ hx => hx) (fun x hx => absurd hx (h.not_pending (by rw [hi]; rfl)))
      (fun _ _ hv => hv) rfl rfl
  | unconnected i r fp hi =>
    exact h.advance rfl (fun _ _ hx => hx) (fun x hx => absurd hx (h.not_pending (by rw [hi]; rfl)))
      (fun _ _ hv => hv) rfl rfl
  | built i r fp t hi ht =>
    exact h.advance rfl (fun _ _ hx => hx) (fun x hx => absurd hx (h.not_pending (by rw [hi]; rfl)))
      (fun _ _ hv => hv) rfl rfl
  | registered i random t r hi ho => exact h.register hid hi ho
  | sent i w t req thread hi ht =>
    refine h.advance rfl (fun _ _ hx => hx) (fun x _ => ?_) (fun _ _ hv => hv) rfl rfl
    rw [hi]
    rcases ht with rfl | rfl <;> rfl
  | received i req deadline t resp hi hc =>
    refine h.advance rfl (fun _ _ hx => hx) (fun x hx => ?_) (fun _ _ hv => Table.of_erase hv) rfl rfl
    cases hc.symm.trans (h.pending x i hx).2.1
  | timedOut i req deadline hi hd =>
    refine h.advance rfl (fun _ _ hx => hx) (fun x _ => ?_) (fun _ _ hv => hv) rfl rfl
    rw [hi]
    rfl
  | cleared i req e hi =>
    have hout : (s.https i).bind HttpThread.outstanding = some req := by
      rcases hi with hi | hi <;> rw [hi] <;> rfl
    refine h.advance rfl (fun _ _ hx => Table.of_erase hx) (fun x hx => ?_) (fun _ _ hv => hv) rfl rfl
    obtain ⟨hne, hx⟩ := Table.erase_eq_some_iff.mp hx
    obtain ⟨⟨req', hreq, hx'⟩, -⟩ := h.pending x i hx
    cases hout.symm.trans hreq
    exact absurd hx'.symm hne
  | streamRegistered j random t r hj ho =>
    exact stay rfl rfl rfl (fun _ _ _ ht => ht) fun x i hx => Table.set_frame_new hx ho
  | readResponse t resp i conn hc ht hp => exact h.take hid hp
  | readData t d j conn hc ht hs =>
    exact stay rfl rfl rfl (fun _ _ _ ht => Table.of_set ht nofun) fun _ _ hx => hx
  | readClose t c j conn hc ht hs =>
    exact stay rfl rfl rfl (fun _ _ _ ht => Table.of_set ht nofun) fun _ _ hx => hx
  | readPing t ht => exact stay rfl rfl rfl (fun _ _ _ ht => Table.of_set ht nofun) fun _ _ hx => hx
  | readIgnored t m pending streams hp hs =>
    exact h.shrink (fun x i hx => ⟨hp x i hx, rfl⟩) (fun _ _ hv => hv) (fun _ _ _ ht => ht)
      fun _ _ hx => hx
  | delivered t written w i resp ht hc => exact h.fill ht
  | wrote t written w j d payload ht hp =>
    exact stay rfl rfl rfl (fun _ _ _ ht => Table.of_erase ht) fun _ _ hx => hx
  | hungUp t written w j c ht =>
    exact stay rfl rfl rfl (fun _ _ _ ht => Table.of_erase ht) fun _ _ hx => hx
  | ponged t written w ht =>
    exact stay rfl rfl rfl (fun _ _ _ ht => Table.of_erase ht) fun _ _ hx => hx
  | _ => exact stay rfl rfl rfl (fun _ _ _ ht => ht) fun _ _ hx => hx

/-- The number of ends of a call that the log shows. -/
def outcomes (s : Traffic) (i : ℕ) : ℕ := s.log.countP (·.finishes i)

/-- A call has ended once if it is over and not at all before, and a relayed response answers an
identifier of the call. -/
structure Counted (s : Traffic) : Prop where
  ended : ∀ i o, (s.https i).bind HttpThread.outcome = some o →
    s.outcomes i = 1 ∧ .finished i o ∈ s.log
  running : ∀ i, (s.https i).bind HttpThread.outcome = none → s.outcomes i = 0
  relayed : ∀ i t resp, .finished i (.relayed t resp) ∈ s.log → s.owners resp.id = some (.http i)

theorem Counted.initial : Traffic.initial.Counted := ⟨nofun, fun _ _ => rfl, nofun⟩

/-- A step that ends no call. -/
theorem Counted.keep (h : s.Counted)
    (hh : ∀ i, (s'.https i).bind HttpThread.outcome = (s.https i).bind HttpThread.outcome)
    (hl : ∃ es, s'.log = es ++ s.log ∧ ∀ i, es.countP (·.finishes i) = 0)
    (ho : ∀ x i, s.owners x = some (.http i) → s'.owners x = some (.http i)) : s'.Counted := by
  obtain ⟨es, hl, hes⟩ := hl
  have hcount : ∀ i, s'.outcomes i = s.outcomes i := by
    intro i
    rw [outcomes, hl, List.countP_append, hes, Nat.zero_add, outcomes]
  refine ⟨fun i o hi => ?_, fun i hi => ?_, fun i t resp hm => ho _ i (h.relayed i t resp ?_)⟩
  · rw [hh] at hi
    rw [hcount, hl]
    exact ⟨(h.ended i o hi).1, List.mem_append_right _ (h.ended i o hi).2⟩
  · rw [hh] at hi
    rw [hcount]
    exact h.running i hi
  · rw [hl] at hm
    apply (List.mem_append.mp hm).resolve_left
    intro hm
    have := List.countP_eq_zero.mp (hes i) _ hm
    simp [TrafficEvent.finishes] at this

/-- A step that ends a call. -/
theorem Counted.finish (h : s.Counted) {i : ℕ} {o : Outcome}
    (hi : (s.https i).bind HttpThread.outcome = none)
    (hr : ∀ t resp, o = .relayed t resp → s.owners resp.id = some (.http i))
    (hh : s'.https = s.https.set i (.finished o)) (hl : s'.log = .finished i o :: s.log)
    (ho : s'.owners = s.owners) : s'.Counted := by
  have hcount : ∀ k, s'.outcomes k = s.outcomes k + if i = k then 1 else 0 := by
    intro k
    simp [outcomes, hl, List.countP_cons, TrafficEvent.finishes]
  constructor
  · intro k o' hk
    rw [hh] at hk
    rw [hcount, hl]
    rcases Table.bind_set_eq_some hk with ⟨rfl, hk'⟩ | ⟨hne, hk'⟩
    · cases hk'
      rw [h.running k hi, if_pos rfl]
      exact ⟨rfl, List.mem_cons_self⟩
    · rw [if_neg hne.symm]
      exact ⟨(h.ended k o' hk').1, List.mem_cons_of_mem _ (h.ended k o' hk').2⟩
  · intro k hk
    rw [hh] at hk
    by_cases hki : k = i
    · subst hki
      cases Table.bind_set_self.symm.trans hk
    · rw [hcount, if_neg (Ne.symm hki)]
      exact h.running k ((Table.bind_set_of_ne hki).symm.trans hk)
  · intro k t resp hm
    rw [hl] at hm
    rw [ho]
    rcases List.mem_cons.mp hm with hm | hm
    · cases hm
      exact hr t resp rfl
    · exact h.relayed k t resp hm

theorem outcome_set {https : Table ℕ HttpThread} {i k : ℕ} {thread : HttpThread}
    (ht : thread.outcome = none) (hi : (https i).bind HttpThread.outcome = none) :
    (https.set i thread k).bind HttpThread.outcome = (https k).bind HttpThread.outcome := by
  by_cases hk : k = i
  · subst hk
    exact (Table.bind_set_self.trans ht).trans hi.symm
  · exact Table.bind_set_of_ne hk

theorem Counted.step (h : s.Counted) (hsl : s.Slotted) (he : Effect now tunnels s a s') :
    s'.Counted := by
  have quiet : s'.log = s.log → ∃ es, s'.log = es ++ s.log ∧ ∀ i, es.countP (·.finishes i) = 0 :=
    fun hl => ⟨[], hl, fun _ => rfl⟩
  have stay : s'.https = s.https →
      (∃ es, s'.log = es ++ s.log ∧ ∀ i, es.countP (·.finishes i) = 0) →
      s'.owners = s.owners → s'.Counted := fun hh hl ho =>
    h.keep (fun i => by rw [hh]) hl fun x i hx => ho ▸ hx
  cases he with
  | refused i r e hi => exact h.finish (o := .failed e) (by rw [hi]; rfl) nofun rfl rfl rfl
  | unconnected i r fp hi =>
    exact h.finish (o := .failed notConnected) (by rw [hi]; rfl) nofun rfl rfl rfl
  | built i r fp t hi ht =>
    exact h.keep (fun k => outcome_set rfl (by rw [hi]; rfl)) (quiet rfl) fun _ _ hx => hx
  | registered i random t r hi ho =>
    exact h.keep (fun k => outcome_set rfl (by rw [hi]; rfl)) (quiet rfl) fun x k hx =>
      Table.set_frame_new hx ho
  | sent i w t req thread hi ht =>
    refine h.keep (fun k => outcome_set ?_ (by rw [hi]; rfl)) (quiet rfl) fun _ _ hx => hx
    rcases ht with rfl | rfl <;> rfl
  | received i req deadline t resp hi hc =>
    refine h.finish (by rw [hi]; rfl) (fun u resp' ho => ?_) rfl rfl rfl
    cases ho
    exact hsl.chans i t resp hc
  | timedOut i req deadline hi hd =>
    exact h.keep (fun k => outcome_set rfl (by rw [hi]; rfl)) (quiet rfl) fun _ _ hx => hx
  | cleared i req e hi =>
    refine h.finish (o := .failed e) ?_ nofun rfl rfl rfl
    rcases hi with hi | hi <;> rw [hi] <;> rfl
  | streamRegistered j random t r hj ho =>
    exact h.keep (fun _ => rfl) (quiet rfl) fun x k hx => Table.set_frame_new hx ho
  | streamClosed j k hj => exact stay rfl ⟨[.hungUp k none], rfl, fun _ => rfl⟩ rfl
  | readResponse t resp i conn hc ht hp => exact stay rfl ⟨[.read t _], rfl, fun _ => rfl⟩ rfl
  | readData t d j conn hc ht hs => exact stay rfl ⟨[.read t _], rfl, fun _ => rfl⟩ rfl
  | readClose t c j conn hc ht hs => exact stay rfl ⟨[.read t _], rfl, fun _ => rfl⟩ rfl
  | readPing t ht => exact stay rfl ⟨[.read t _], rfl, fun _ => rfl⟩ rfl
  | readIgnored t m pending streams hp hs => exact stay rfl ⟨[.read t m], rfl, fun _ => rfl⟩ rfl
  | wrote t written w j d payload ht hp =>
    exact stay rfl ⟨[.wrote j t payload], rfl, fun _ => rfl⟩ rfl
  | hungUp t written w j c ht => exact stay rfl ⟨[.hungUp j (some t)], rfl, fun _ => rfl⟩ rfl
  | _ => exact stay rfl (quiet rfl) rfl

/-- The invariant of the exchange of requests and responses. -/
structure Correlated (s : Traffic) : Prop where
  identified : s.Identified
  slotted : s.Slotted
  counted : s.Counted

theorem Correlated.initial : Traffic.initial.Correlated := ⟨.initial, .initial, .initial⟩

theorem Correlated.step (h : s.Correlated) (he : Effect now tunnels s a s') : s'.Correlated :=
  ⟨h.identified.step he, h.slotted.step h.identified he, h.counted.step h.slotted he⟩

/-- A call that has begun is moved by its own steps only, and each brings it closer to its end. -/
theorem Effect.rank (he : Effect now tunnels s a s') {i : ℕ} {thread : HttpThread}
    (hi : s.https i = some thread) : ∃ thread', s'.https i = some thread' ∧
      (a.caller = some i → thread'.rank < thread.rank) ∧ (a.caller ≠ some i → thread' = thread) := by
  have own : ∀ {k thread'}, s'.https = s.https.set k thread' → a.caller = some k →
      (∀ thread₀, s.https k = some thread₀ → thread'.rank < thread₀.rank) →
      ∃ thread', s'.https i = some thread' ∧ (a.caller = some i → thread'.rank < thread.rank) ∧
        (a.caller ≠ some i → thread' = thread) := by
    intro k thread' hh ha hr
    rw [hh]
    by_cases hk : i = k
    · subst hk
      exact ⟨thread', Table.set_self, fun _ => hr thread hi, fun hne => absurd ha hne⟩
    · refine ⟨thread, (Table.set_of_ne hk).trans hi, fun ha' => ?_, fun _ => rfl⟩
      exact absurd (Option.some.inj (ha'.symm.trans ha)) hk
  have other : s'.https = s.https → a.caller = none →
      ∃ thread', s'.https i = some thread' ∧ (a.caller = some i → thread'.rank < thread.rank) ∧
        (a.caller ≠ some i → thread' = thread) := by
    intro hh ha
    rw [hh]
    refine ⟨thread, hi, fun ha' => ?_, fun _ => rfl⟩
    cases ha.symm.trans ha'
  cases he with
  | refused k r e hk => exact own rfl rfl fun _ hk' => nomatch hk.symm.trans hk'
  | unconnected k r fp hk => exact own rfl rfl fun _ hk' => nomatch hk.symm.trans hk'
  | built k r fp t hk ht => exact own rfl rfl fun _ hk' => nomatch hk.symm.trans hk'
  | registered k random t r hk ho =>
    apply own rfl rfl
    intro thread₀ hk'
    cases hk.symm.trans hk'
    exact Nat.lt_succ_self 3
  | sent k w t req thread' hk ht =>
    apply own rfl rfl
    intro thread₀ hk'
    cases hk.symm.trans hk'
    rcases ht with rfl | rfl
    · exact Nat.lt_succ_self 2
    · exact Nat.lt_of_sub_eq_succ rfl
  | received k req deadline t resp hk hc =>
    apply own rfl rfl
    intro thread₀ hk'
    cases hk.symm.trans hk'
    exact Nat.zero_lt_two
  | timedOut k req deadline hk hd =>
    apply own rfl rfl
    intro thread₀ hk'
    cases hk.symm.trans hk'
    exact Nat.one_lt_two
  | cleared k req e hk =>
    apply own rfl rfl
    intro thread₀ hk'
    rcases hk with hk | hk <;> cases hk.symm.trans hk' <;> exact Nat.one_pos
  | _ => exact other rfl rfl

/-- A call that is not over has a step of its own to take, at the latest when its time is up,
whatever the others do. -/
theorem exists_own_step (tunnels : Tunnels) {i : ℕ} {thread : HttpThread} (hi : s.https i = some thread)
    (ht : thread.outcome = none) {random : Bytes} (hr : random.length = 16)
    (ho : s.owners (randomHex random) = none) :
    ∃ a, a.caller = some i ∧ ∃ deadline, ∀ now, deadline ≤ now →
      (s.step now tunnels a).isSome = true := by
  cases thread with
  | building t r =>
    exact ⟨.httpRegister i random, rfl, 0, fun now _ => by simp [step, httpRegister, hi, ho, hr]⟩
  | registered t req => exact ⟨.httpSend i .sent, rfl, 0, fun now _ => by simp [step, httpSend, hi]⟩
  | unsent req => exact ⟨.httpClear i, rfl, 0, fun now _ => by simp [step, httpClear, hi]⟩
  | waiting req deadline =>
    exact ⟨.httpTimeout i, rfl, deadline, fun now hd => by simp [step, httpTimeout, hi, hd]⟩
  | timedOut req => exact ⟨.httpClear i, rfl, 0, fun now _ => by simp [step, httpClear, hi]⟩
  | finished o => cases ht

end Traffic

end HeadFwd.Relay
