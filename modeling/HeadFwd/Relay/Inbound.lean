import HeadFwd.Relay.Streams

/-! # From the clients to the tunnels

The thread of a stream reads from its client and sends what it read under the identifier
of the stream, one chunk at a time. It gives up at the first write that fails.
-/

namespace HeadFwd.Relay.Traffic

open Text Net Transition Tunnel

variable {now : ℕ} {T : Tunnels} {s s' : Traffic} {a : TrafficAction} {c c' : Clients}

/-- The bytes that the thread of a client has read and not yet sent. -/
def unsent (s : Traffic) (j : ℕ) : Bytes := ((s.upgrades j).map StreamThread.unsent).getD []

/-- The bytes of a client go to its tunnel in order. -/
structure Inbound (c : Clients) (s : Traffic) : Prop where
  begun : ∀ j, c.read j ≠ [] → ∃ id, s.owners id = some (.stream j)
  stage : ∀ id j t, s.owners id = some (.stream j) →
    Relayed ((s.upgrades j).bind StreamThread.liveOn = some t) (c.read j) (s.unsent j)
      (dataOf id (s.outbox t))

theorem Inbound.initial : Traffic.initial.Inbound Clients.initial where
  begun _ h := absurd rfl h
  stage := nofun

section Inbound

variable {id : Bytes} {j t : ℕ}

theorem unsent_eq {thread : StreamThread} (h : s.upgrades j = some thread) :
    s.unsent j = thread.unsent := by
  rw [unsent, h]
  rfl

/-- A step of another thread. -/
theorem Inbound.keep (h : s.Inbound c) (hc : c.step s a = some c')
    (ho : s.owners id = some (.stream j)) (hu : s'.upgrades j = s.upgrades j)
    (ha : ∀ b, a ≠ .streamRead j (some b))
    (hd : dataOf id (s'.outbox t) = dataOf id (s.outbox t)) :
    Relayed ((s'.upgrades j).bind StreamThread.liveOn = some t) (c'.read j) (s'.unsent j)
      (dataOf id (s'.outbox t)) := by
  refine (h.stage id j t ho).keep ?_ (Clients.read_step hc ha) ?_ hd
  · rw [hu]
    exact fun hl => hl
  · rw [unsent, unsent, hu]

/-- The thread of the client gives up. -/
theorem Inbound.end (h : s.Inbound c) (hc : c.step s a = some c')
    (ho : s.owners id = some (.stream j)) {thread : StreamThread}
    (hu : s'.upgrades j = some thread) (hl : thread.liveOn = none)
    (ha : ∀ b, a ≠ .streamRead j (some b))
    (hd : dataOf id (s'.outbox t) = dataOf id (s.outbox t)) :
    Relayed ((s'.upgrades j).bind StreamThread.liveOn = some t) (c'.read j) (s'.unsent j)
      (dataOf id (s'.outbox t)) := by
  rw [Clients.read_step hc ha, hd]
  apply (h.stage id j t ho).dead
  rw [hu, Option.bind_some, hl]
  nofun

/-- The thread of the client reads a chunk. -/
theorem Inbound.read_own (h : s.Inbound c) {b : Bytes}
    (hs : s.step now T (.streamRead j (some b)) = some s')
    (hc : c.step s (.streamRead j (some b)) = some c') (ho : s.owners id = some (.stream j))
    (hd : s'.outbox = s.outbox) :
    Relayed ((s'.upgrades j).bind StreamThread.liveOn = some t) (c'.read j) (s'.unsent j)
      (dataOf id (s'.outbox t)) := by
  obtain ⟨u, x, hj, ⟨hb, -⟩ | ⟨b', hb, hj'⟩⟩ := streamRead_cases hs
  · cases hb
  · cases hb
    have hk := h.stage id j t ho
    rw [unsent_eq hj] at hk
    have hheld : StreamThread.unsent (.sending u ⟨x, toBase64 b, true⟩) = b := fromBase64_toBase64 b
    rw [Clients.read_own hc, unsent_eq hj', hheld, hd]
    refine hk.take ?_ b
    rw [hj, hj']
    exact fun h => h

/-- The thread of the client sends a chunk. -/
theorem Inbound.send_data (h : s.Inbound c) {u : ℕ} {d : WsData} {w : WriteOutcome}
    (hc : c.step s (.streamSend j w) = some c') (ho : s.owners d.id = some (.stream j))
    (hj : s.upgrades j = some (.sending u d)) (hout : s'.outbox = push s.outbox u (.wsData d) w)
    (hj' : s'.upgrades j = some (.relaying u d.id) ∧ w = .sent ∨
      s'.upgrades j = some (.removing d.id)) :
    Relayed ((s'.upgrades j).bind StreamThread.liveOn = some t) (c'.read j) (s'.unsent j)
      (dataOf d.id (s'.outbox t)) := by
  have hk := h.stage d.id j t ho
  rw [unsent_eq hj] at hk
  have hheld : s'.unsent j = [] := by
    rcases hj' with ⟨hj', -⟩ | hj' <;> exact unsent_eq hj'
  rw [Clients.read_step hc nofun, hheld, hout]
  rcases push_cases s.outbox u (.wsData d) w t with ⟨hpush, hfail⟩ | ⟨rfl, hpush⟩
  · -- The message did not get there, or it went to another connection.
    rw [hpush]
    apply hk.dead
    rcases hj' with ⟨hj', rfl⟩ | hj'
    · rw [hj']
      intro hlive
      obtain ⟨b, hb⟩ := hfail (Option.some.inj hlive).symm
      cases hb
    · rw [hj']
      nofun
  · have hchunk : TunnelMessage.chunk d.id (.wsData d) = fromBase64 d.data := if_pos rfl
    rw [hpush, dataOf_append, dataOf_singleton, hchunk]
    exact hk.pass (by rw [hj]; rfl)

/-- The thread of the client sends the message it has waited to send. -/
theorem Inbound.send_own (h : s.Inbound c) (hA : s.Announcing) (hO : Owned T s) {w : WriteOutcome}
    (hs : s.step now T (.streamSend j w) = some s') (hc : c.step s (.streamSend j w) = some c')
    (ho : s.owners id = some (.stream j)) :
    Relayed ((s'.upgrades j).bind StreamThread.liveOn = some t) (c'.read j) (s'.unsent j)
      (dataOf id (s'.outbox t)) := by
  rcases streamSend_cases hs with ⟨u, o, hj, hout, hj'⟩ | ⟨u, d, hj, hout, hj'⟩ | ⟨u, x, -, hout, hj'⟩
  · have hdata : dataOf id (s'.outbox t) = dataOf id (s.outbox t) := by
      rw [hout]
      exact dataOf_push rfl
    rcases hj' with ⟨hj', -⟩ | hj'
    · refine (h.stage id j t ho).keep ?_ (Clients.read_step hc nofun) ?_ hdata
      · rw [hj, hj']
        exact fun h => h
      · rw [unsent_eq hj, unsent_eq hj']
        rfl
    · exact h.end hc ho hj' rfl nofun hdata
  · obtain rfl := hA.own d.id id j (hO.ids j d.id (by rw [hj]; rfl)) ho
    exact h.send_data hc ho hj hout hj'
  · apply h.end hc ho hj' rfl nofun
    rw [hout]
    exact dataOf_push rfl

/-- What another client sends has nothing for the stream. -/
theorem Owned.chunk_of_ne (hO : Owned T s) {k u : ℕ} {m : TunnelMessage} {x : Bytes}
    (hk : (s.upgrades k).bind StreamThread.sends = some (u, m, x)) (hne : j ≠ k)
    (ho : s.owners id = some (.stream j)) : m.chunk id = [] := by
  obtain ⟨thread, hthread, hsends⟩ := Option.bind_eq_some_iff.mp hk
  cases thread with
  | sending v d =>
    cases hsends
    apply if_neg
    rintro rfl
    have hown := hO.ids k d.id (by rw [hthread]; rfl)
    cases ho.symm.trans hown
    exact hne rfl
  | _ => cases hsends <;> rfl

theorem Inbound.old_step (h : s.Inbound c) (hA : s.Announcing) (hO : Owned T s)
    (hs : s.step now T a = some s') (hc : c.step s a = some c')
    (ho : s.owners id = some (.stream j)) :
    Relayed ((s'.upgrades j).bind StreamThread.liveOn = some t) (c'.read j) (s'.unsent j)
      (dataOf id (s'.outbox t)) := by
  -- The client has drawn its identifier before.
  have ne_of_begun : ∀ {k}, (∀ thread, s.upgrades k = some thread → thread.begun = false) →
      j ≠ k := by
    rintro k hk rfl
    obtain ⟨thread, hj, hb⟩ := hA.begun id j ho
    cases (hk thread hj).symm.trans hb
  cases step_effect hs with
  | sent i w u req thread hi ht => exact h.keep hc ho rfl nofun (dataOf_push rfl)
  | ponged u n w hu => exact h.keep hc ho rfl nofun (dataOf_push rfl)
  | streamBegun k r fp thread hk ht =>
    have hne : j ≠ k := ne_of_begun fun thread hk' => by cases hk.symm.trans hk'
    exact h.keep hc ho (Table.set_of_ne hne) nofun rfl
  | streamRefused k supported u r e hk =>
    have hne : j ≠ k := ne_of_begun fun thread hk' => by cases hk.symm.trans hk'; rfl
    exact h.keep hc ho (Table.set_of_ne hne) nofun rfl
  | streamRegistered k random u r hk hfree =>
    have hne : j ≠ k := ne_of_begun fun thread hk' => by cases hk.symm.trans hk'; rfl
    exact h.keep hc ho (Table.set_of_ne hne) nofun rfl
  | streamRead k chunk u x thread hk ht =>
    by_cases hjk : j = k
    · subst hjk
      cases chunk with
      | none =>
        obtain ⟨v, y, -, ⟨-, hj'⟩ | ⟨b, hb, -⟩⟩ := streamRead_cases hs
        · exact h.end hc ho hj' rfl nofun rfl
        · cases hb
      | some b => exact h.read_own hs hc ho rfl
    · refine h.keep hc ho (Table.set_of_ne hjk) ?_ rfl
      rintro b ⟨⟩
      exact hjk rfl
  | streamSent k w u m x thread hk ht =>
    by_cases hjk : j = k
    · subst hjk
      exact h.send_own hA hO hs hc ho
    · exact h.keep hc ho (Table.set_of_ne hjk) nofun (dataOf_push (hO.chunk_of_ne hk hjk ho))
  | streamRemoved k x thread hk ht =>
    by_cases hjk : j = k
    · subst hjk
      refine h.end hc ho Table.set_self ?_ nofun rfl
      rcases ht with rfl | ⟨l, -, rfl⟩ <;> rfl
    · exact h.keep hc ho (Table.set_of_ne hjk) nofun rfl
  | streamClosed k l hk =>
    by_cases hjk : j = k
    · subst hjk
      exact h.end hc ho Table.set_self rfl nofun rfl
    · exact h.keep hc ho (Table.set_of_ne hjk) nofun rfl
  | _ => exact h.keep hc ho rfl nofun rfl

theorem Inbound.step (h : s.Inbound c) (hA : s.Announcing) (hO : Owned T s)
    (hs : s.step now T a = some s') (hc : c.step s a = some c') : s'.Inbound c' := by
  have he := step_effect hs
  constructor
  · intro j hj
    by_cases ha : ∃ b, a = .streamRead j (some b)
    · obtain ⟨b, rfl⟩ := ha
      obtain ⟨t, id, hk, -⟩ := streamRead_cases hs
      exact ⟨id, he.owners_mono (hO.ids j id (by rw [hk]; rfl))⟩
    · rw [Clients.read_step hc fun b hb => ha ⟨b, hb⟩] at hj
      obtain ⟨id, ho⟩ := h.begun j hj
      exact ⟨id, he.owners_mono ho⟩
  · intro id j t ho'
    rcases owners_step he ho' with ho | ⟨hfree, u, r, hj, hj', hout, -⟩
    · exact h.old_step hA hO hs hc ho
    · -- The client has no identifier before, and its connection has not been read from.
      have hread : c.read j = [] := by
        by_contra hne
        obtain ⟨x, hx⟩ := h.begun j hne
        obtain ⟨thread, hk, hb⟩ := hA.begun x j hx
        cases hj.symm.trans hk
        cases hb
      have ha : ∀ b, a ≠ .streamRead j (some b) := by
        rintro b rfl
        obtain ⟨v, x, hk, -⟩ := streamRead_cases hs
        cases hj.symm.trans hk
      have hdata : dataOf id (s.outbox t) = [] := by
        apply dataOf_eq_nil
        rintro d hd rfl
        obtain ⟨o, fp, ho, -⟩ := hO.outbox t _ d.id hd rfl
        cases hfree.symm.trans ho
      rw [Clients.read_step hc ha, hread, hout, hdata, unsent_eq hj']
      exact .nil

end Inbound

end HeadFwd.Relay.Traffic
