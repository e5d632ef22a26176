import HeadFwd.Relay.Traffic

/-! # From messages to clients

A message that a reader has looked up a client for travels on in the task of the
reader and, if it is a response, in the channel of the call, until it reaches the
client. What is true of the message when it is read, and stays true, is true of
what reaches the client.
-/

namespace HeadFwd.Relay

open Text Net Transition Tunnel

/-- The client a reader is busy with, and the message it is busy with. -/
def ReaderTask.client : ReaderTask → Option (Owner × TunnelMessage)
  | .delivering i resp => some (.http i, .response resp)
  | .writing j d => some (.stream j, .wsData d)
  | .closing j c => some (.stream j, .wsClose c)
  | .ponging => none

/-- The client an event is about and the connection whose reader caused it, if one did. -/
def TrafficEvent.via : TrafficEvent → Option (Owner × ℕ)
  | .finished i (.relayed t _) => some (.http i, t)
  | .wrote j t _ => some (.stream j, t)
  | .hungUp j (some t) => some (.stream j, t)
  | _ => none

/-- The event is what the relay makes of the message: the response itself, bytes of the data, or
the end of the stream. -/
def TrafficEvent.CausedBy : TrafficEvent → TunnelMessage → Prop
  | .finished _ (.relayed _ resp), m => m = .response resp
  | .wrote _ _ payload, m => ∃ d, m = .wsData d ∧ payload <+: fromBase64 d.data
  | .hungUp _ _, m => ∃ c, m = .wsClose c
  | _, _ => False

namespace Traffic

variable {now : ℕ} {T : Tunnels} {s s' : Traffic} {a : TrafficAction}

/-- A reader finds the client in the map for the identifier. -/
def Finds (s : Traffic) (x : Bytes) : Owner → Prop
  | .http i => s.pending x = some i
  | .stream j => s.streams x = some j

/-- The relation holds of every message on its way to a client, its client and its connection, and
of a message behind everything that has reached a client. -/
structure Carried (R : Owner → ℕ → TunnelMessage → Prop) (s : Traffic) : Prop where
  readers : ∀ t o m, (s.readers t).bind ReaderTask.client = some (o, m) → R o t m
  chans : ∀ i t resp, s.chans i = some (t, resp) → R (.http i) t (.response resp)
  log : ∀ e ∈ s.log, ∀ o t, e.via = some (o, t) → ∃ m, e.CausedBy m ∧ R o t m

variable {R R' : Owner → ℕ → TunnelMessage → Prop}

theorem Carried.initial : Traffic.initial.Carried R := ⟨nofun, nofun, nofun⟩

theorem Carried.mono (h : s.Carried R) (hR : ∀ {o t m}, R o t m → R' o t m) : s.Carried R' := by
  refine ⟨fun t o m ht => hR (h.readers t o m ht), fun i t resp hi => hR (h.chans i t resp hi),
    fun e he o t hv => ?_⟩
  obtain ⟨m, hc, hr⟩ := h.log e he o t hv
  exact ⟨m, hc, hR hr⟩

/-- A step adds at most one event to the log, and a reader is the one to add that it has read. -/
theorem Effect.log_cases (he : Effect now T s a s') :
    s'.log = s.log ∨ ∃ e, s'.log = e :: s.log ∧ ∀ t m, e = .read t m → a = .read t m := by
  have reads : ∀ {t m}, s'.log = .read t m :: s.log → a = .read t m →
      s'.log = s.log ∨ ∃ e, s'.log = e :: s.log ∧ ∀ t m, e = .read t m → a = .read t m := by
    intro t m hl ha
    refine .inr ⟨_, hl, fun u m' hr => ?_⟩
    cases hr
    exact ha
  cases he with
  | refused i r e hi => exact .inr ⟨_, rfl, nofun⟩
  | unconnected i r fp hi => exact .inr ⟨_, rfl, nofun⟩
  | received i req deadline t resp hi hc => exact .inr ⟨_, rfl, nofun⟩
  | cleared i req e hi => exact .inr ⟨_, rfl, nofun⟩
  | streamClosed j k hj => exact .inr ⟨_, rfl, nofun⟩
  | readResponse t resp i conn hc ht hp => exact reads rfl rfl
  | readData t d j conn hc ht hs => exact reads rfl rfl
  | readClose t c j conn hc ht hs => exact reads rfl rfl
  | readPing t ht => exact reads rfl rfl
  | readIgnored t m pending streams hp hs => exact reads rfl rfl
  | wrote t written w j d payload ht hp => exact .inr ⟨_, rfl, nofun⟩
  | hungUp t written w j c ht => exact .inr ⟨_, rfl, nofun⟩
  | _ => exact .inl rfl

theorem Effect.log_mono (he : Effect now T s a s') : s.log ⊆ s'.log := by
  rcases he.log_cases with hl | ⟨e, hl, -⟩
  · rw [hl]
    exact List.Subset.refl _
  · rw [hl]
    exact List.subset_cons_self ..

/-- Only a reader adds to what has been read. -/
theorem Effect.read_of_mem (he : Effect now T s a s') {t : ℕ} {m : TunnelMessage}
    (hm : .read t m ∈ s'.log) : .read t m ∈ s.log ∨ a = .read t m := by
  rcases he.log_cases with hl | ⟨e, hl, hread⟩
  · exact .inl (hl ▸ hm)
  · rw [hl] at hm
    rcases List.mem_cons.mp hm with hm | hm
    · exact .inr (hread t m hm.symm)
    · exact .inl hm

theorem Carried.readers_step (h : s.Carried R) (he : Effect now T s a s')
    (hnew : ∀ t m x o c, a = .read t m → T.conns t = some c → m.answers = some x →
      s.Finds x o → R o t m) (t : ℕ) (o : Owner) (m : TunnelMessage)
    (ht : (s'.readers t).bind ReaderTask.client = some (o, m)) : R o t m := by
  have taken : ∀ {u task}, s'.readers = s.readers.set u task →
      (task.client = some (o, m) → R o u m) → R o t m := by
    intro u task hr htask
    rw [hr] at ht
    rcases Table.bind_set_eq_some ht with ⟨rfl, ht'⟩ | ⟨-, ht'⟩
    · exact htask ht'
    · exact h.readers t o m ht'
  have left : ∀ {u}, s'.readers = s.readers.erase u → R o t m := by
    intro u hr
    rw [hr] at ht
    obtain ⟨task, ht, hc⟩ := Option.bind_eq_some_iff.mp ht
    exact h.readers t o m (Option.bind_eq_some_iff.mpr ⟨task, Table.of_erase ht, hc⟩)
  cases he with
  | readResponse u resp i conn hc hu hp =>
    apply taken rfl
    intro htask
    cases htask
    exact hnew u _ resp.id (.http i) conn rfl hc rfl hp
  | readData u d j conn hc hu hs =>
    apply taken rfl
    intro htask
    cases htask
    exact hnew u _ d.id (.stream j) conn rfl hc rfl hs
  | readClose u c j conn hc hu hs =>
    apply taken rfl
    intro htask
    cases htask
    exact hnew u _ c.id (.stream j) conn rfl hc rfl hs
  | readPing u hu => exact taken rfl nofun
  | delivered u written w i resp hu hc => exact left rfl
  | wrote u written w j d payload hu hp => exact left rfl
  | hungUp u written w j c hu => exact left rfl
  | ponged u written w hu => exact left rfl
  | _ => exact h.readers t o m ht

theorem Carried.chans_step (h : s.Carried R) (he : Effect now T s a s') (i t : ℕ)
    (resp : TunnelResponse) (hi : s'.chans i = some (t, resp)) : R (.http i) t (.response resp) := by
  cases he with
  | received k req deadline u resp' hk hc => exact h.chans i t resp (Table.of_erase hi)
  | delivered u written w k resp' hu hc =>
    rcases Table.set_eq_some_iff.mp hi with ⟨rfl, hi'⟩ | ⟨-, hi'⟩
    · cases hi'
      exact h.readers t (.http i) (.response resp) (by rw [hu]; rfl)
    · exact h.chans i t resp hi'
  | _ => exact h.chans i t resp hi

theorem Carried.log_step (h : s.Carried R) (he : Effect now T s a s') (e : TrafficEvent)
    (hm : e ∈ s'.log) (o : Owner) (t : ℕ) (hv : e.via = some (o, t)) :
    ∃ m, e.CausedBy m ∧ R o t m := by
  have new : ∀ {e'}, s'.log = e' :: s.log →
      (e'.via = some (o, t) → ∃ m, e'.CausedBy m ∧ R o t m) → ∃ m, e.CausedBy m ∧ R o t m := by
    intro e' hl hnew
    rw [hl] at hm
    rcases List.mem_cons.mp hm with rfl | hm
    · exact hnew hv
    · exact h.log e hm o t hv
  cases he with
  | refused i r e' hi => exact new rfl nofun
  | unconnected i r fp' hi => exact new rfl nofun
  | received i req deadline u resp hi hc =>
    apply new rfl
    intro hv
    cases hv
    exact ⟨.response resp, rfl, h.chans i t resp hc⟩
  | cleared i req e' hi => exact new rfl nofun
  | streamClosed j k hj => exact new rfl nofun
  | readResponse u resp i conn hc hu hp => exact new rfl nofun
  | readData u d j conn hc hu hs => exact new rfl nofun
  | readClose u c j conn hc hu hs => exact new rfl nofun
  | readPing u hu => exact new rfl nofun
  | readIgnored u m pending streams hp hs => exact new rfl nofun
  | wrote u written w j d payload hu hp =>
    apply new rfl
    intro hv
    cases hv
    exact ⟨.wsData d, ⟨d, rfl, hp⟩, h.readers t (.stream j) (.wsData d) (by rw [hu]; rfl)⟩
  | hungUp u written w j c hu =>
    apply new rfl
    intro hv
    cases hv
    exact ⟨.wsClose c, ⟨c, rfl⟩, h.readers t (.stream j) (.wsClose c) (by rw [hu]; rfl)⟩
  | _ => exact h.log e hm o t hv

/-- A relation that a step does not take back and that holds of the messages it reads. -/
theorem Carried.step (h : s.Carried R) (he : Effect now T s a s')
    (hmono : ∀ {o t m}, R o t m → R' o t m)
    (hnew : ∀ t m x o c, a = .read t m → T.conns t = some c → m.answers = some x →
      s.Finds x o → R' o t m) : s'.Carried R' :=
  ⟨(h.mono hmono).readers_step he hnew, (h.mono hmono).chans_step he, (h.mono hmono).log_step he⟩

/-- Everything on its way to a client was read on its connection. -/
def Sourced (s : Traffic) : Prop := s.Carried fun _ t m => .read t m ∈ s.log

theorem Sourced.initial : Traffic.initial.Sourced := Carried.initial

theorem Sourced.step (h : s.Sourced) (he : Effect now T s a s') : s'.Sourced := by
  apply Carried.step h he (fun hm => he.log_mono hm)
  intro t m x o c ha _ _ hx
  subst ha
  cases he with
  | readResponse u resp i conn hc hu hp => exact List.mem_cons_self
  | readData u d j conn hc hu hs => exact List.mem_cons_self
  | readClose u c j conn hc hu hs => exact List.mem_cons_self
  | readPing u hu => exact List.mem_cons_self
  | readIgnored u m pending streams hp hs => exact List.mem_cons_self

end Traffic

end HeadFwd.Relay
