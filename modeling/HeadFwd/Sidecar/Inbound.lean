import HeadFwd.Sidecar.Streams

/-! # From the tunnel to Headscale

`runTunnel` handles the data and the end of a stream itself, while a goroutine is
still opening the stream. As long as the goroutine has not stored its connection,
what arrives for the stream is dropped. Data that comes after that is written in
order, and an end that comes after that takes the connection out of the map.
-/

namespace HeadFwd.Sidecar

open Text Net Transition Tunnel

/-- What writing to a connection depends on and changes. -/
def Link.downstream (l : Link) : Bytes × Bool × Bool := (l.written, l.broken, l.closed)

/-- What the relay sends for a chunk decodes to the chunk. -/
theorem payload_toBase64 (id b : Bytes) : payload ⟨id, toBase64 b, true⟩ = some b := by
  simp only [payload, if_true, toBase64]
  split_ifs with hb
  · rw [hb]
    rfl
  · exact decodeBase64_encodeBase64 b

namespace Process

variable {s s' : Process} {a : ProcessAction}

/-- No goroutine is still opening the stream that a message continues or ends. -/
def Ready (s : Process) : ProcessAction → Prop
  | .receive t m => ∀ k < (s.received t).length, ∀ hd ∈ s.handlers (t, k),
      hd.early = true → hd.stream ≠ m.follows
  | _ => True

instance decidableReady (s : Process) (a : ProcessAction) : Decidable (s.Ready a) :=
  match a with
  | .receive t m => inferInstanceAs (Decidable (∀ k < (s.received t).length,
      ∀ hd ∈ s.handlers (t, k), hd.early = true → hd.stream ≠ m.follows))
  | .finish .. | .respond .. | .reply .. | .dial .. | .request .. | .store .. | .read ..
  | .send .. | .delete .. | .close .. | .ping .. => .isTrue trivial

/-- What the relay sends about a stream comes after the message that opens it, and data decodes. -/
structure Coherent (s : Process) (a : ProcessAction) : Prop where
  opened : ∀ t m id, a = .receive t m → m.follows = some id → ∃ k, s.Opened (t, k) id
  decodes : ∀ t d, a = .receive t (.wsData d) → payload d = some (fromBase64 d.data)

/-- The goroutine has not yet stored its connection. -/
def Early (s : Process) (h : Task) : Prop := ∃ hd, s.handlers h = some hd ∧ hd.early = true

/-- The bytes that a loop is about to write to the connection of a stream. -/
def unwritten (s : Process) (h : Task) : Bytes :=
  match s.loops h.1 with
  | some (.writing k p) => if k = h then p else []
  | _ => []

/-- The connection of the stream still takes what arrives for it. -/
def Serving (s : Process) (h : Task) (id : Bytes) : Prop :=
  (s.links h).broken = false ∧ (s.links h).closed = false ∧
    (s.Early h ∨ s.streamConns id = some h ∨ ∃ p, s.loops h.1 = some (.writing h p))

/-- The bytes for a stream go to Headscale in order, and a stream that has ended is not in the
map. -/
structure Inbound (s : Process) : Prop where
  opened : ∀ t m id, m ∈ s.received t → m.follows = some id → ∃ k, s.Opened (t, k) id
  quiet : ∀ h id, s.Early h → s.Opened h id → ∀ m ∈ s.received h.1, m.follows ≠ some id
  ended : ∀ t c, .wsClose c ∈ s.received t → s.streamConns c.id = none
  aimed : ∀ t h p, s.loops t = some (.writing h p) → h.1 = t
  stage : ∀ h id, s.Opened h id → Relayed (s.Serving h id) (dataOf id (s.received h.1))
    (s.unwritten h) (s.links h).written

theorem Inbound.initial : Process.initial.Inbound := by
  refine ⟨nofun, nofun, nofun, nofun, ?_⟩
  rintro h id ⟨m, hm, -⟩
  cases hm

theorem unwritten_eq {h : Task} {p : Bytes} (hl : s.loops h.1 = some (.writing h p)) :
    s.unwritten h = p := by
  rw [unwritten, hl]
  exact if_pos rfl

theorem unwritten_eq_nil {h : Task} (hl : ∀ p, s.loops h.1 ≠ some (.writing h p)) :
    s.unwritten h = [] := by
  unfold unwritten
  split
  · rename_i k p hk
    split_ifs with hkh
    · exact absurd (hkh ▸ hk) (hl p)
    · rfl
  · rfl

theorem unwritten_congr {h : Task}
    (hl : ∀ p, s'.loops h.1 = some (.writing h p) ↔ s.loops h.1 = some (.writing h p)) :
    s'.unwritten h = s.unwritten h := by
  by_cases hp : ∃ p, s.loops h.1 = some (.writing h p)
  · obtain ⟨p, hp⟩ := hp
    rw [unwritten_eq hp, unwritten_eq ((hl p).mpr hp)]
  · rw [not_exists] at hp
    rw [unwritten_eq_nil hp, unwritten_eq_nil fun p hp' => hp p ((hl p).mp hp')]

theorem writing_set {h : Task} {t : ℕ} {l : LoopTask} (hn : s.loops t = none)
    (hl : ∀ p, l ≠ .writing h p) (p : Bytes) :
    s.loops.set t l h.1 = some (.writing h p) ↔ s.loops h.1 = some (.writing h p) := by
  by_cases ht : h.1 = t
  · simp [ht, hn, hl p]
  · rw [Table.set_of_ne ht]

theorem writing_erase {h : Task} {t : ℕ} {l : LoopTask} (ht : s.loops t = some l)
    (hl : ∀ p, l ≠ .writing h p) (p : Bytes) :
    s.loops.erase t h.1 = some (.writing h p) ↔ s.loops h.1 = some (.writing h p) := by
  by_cases hht : h.1 = t
  · simp [hht, ht, hl p]
  · rw [Table.erase_of_ne hht]

/-- A goroutine that is opening its stream serves a stream. -/
theorem early_stream {hd : Handler} (h : hd.early = true) : ∃ id, hd.stream = some id := by
  cases hd with
  | opening o => exact ⟨_, rfl⟩
  | dialled o addr => exact ⟨_, rfl⟩
  | storing id => exact ⟨_, rfl⟩
  | _ => cases h

/-- Goroutines do not go back to opening their stream. -/
theorem Early.of_set {u h : Task} {hd hd₀ : Handler} (hu : s.handlers u = some hd₀)
    (hs : s'.handlers = s.handlers.set u hd) (he : hd.early = true → hd₀.early = true)
    (h' : s'.Early h) : s.Early h := by
  obtain ⟨hd', hh, hearly⟩ := h'
  rw [hs] at hh
  rcases Table.set_eq_some_iff.mp hh with ⟨rfl, rfl⟩ | ⟨-, hh⟩
  · exact ⟨hd₀, hu, he hearly⟩
  · exact ⟨hd', hh, hearly⟩

/-- While a goroutine is opening a stream, nothing else about the stream is taken. -/
theorem Ready.not_early (hr : s.Rooted) {t k : ℕ} {m : TunnelMessage} {id : Bytes}
    (hready : s.Ready (.receive t m)) (hm : m.follows = some id) (ho : s.Opened (t, k) id) :
    ¬ s.Early (t, k) := by
  rintro ⟨hd, hh, hearly⟩
  obtain ⟨id', hid'⟩ := early_stream hearly
  obtain rfl := (hr.handlers _ hd id' hh hid').eq ho
  exact hready k ho.lt hd hh hearly (hid'.trans hm.symm)

theorem dataOf_push {t u : ℕ} {m : TunnelMessage} {id : Bytes} (hm : u = t → m.chunk id = []) :
    dataOf id (s.push t m u) = dataOf id (s.received u) := by
  rw [push]
  by_cases hu : u = t
  · subst hu
    rw [Function.update_self, dataOf_append, dataOf_singleton, hm rfl, List.append_nil]
  · rw [Function.update_of_ne hu]

section

variable {h : Task} {id : Bytes}

/-- A step that neither brings anything for the stream nor writes to its connection. -/
theorem Inbound.keep (hi : s.Inbound) (ho : s.Opened h id) (he : s'.Early h → s.Early h)
    (hs : s'.streamConns id = some h → s.Early h ∨ s.streamConns id = some h)
    (hl : ∀ p, s'.loops h.1 = some (.writing h p) ↔ s.loops h.1 = some (.writing h p))
    (hlink : (s'.links h).downstream = (s.links h).downstream)
    (hd : dataOf id (s'.received h.1) = dataOf id (s.received h.1)) :
    Relayed (s'.Serving h id) (dataOf id (s'.received h.1)) (s'.unwritten h)
      (s'.links h).written := by
  simp only [Link.downstream, Prod.mk.injEq] at hlink
  obtain ⟨hw, hb, hc⟩ := hlink
  refine (hi.stage h id ho).keep ?_ hd (unwritten_congr hl) hw
  rintro ⟨hb', hc', hlive⟩
  refine ⟨hb ▸ hb', hc ▸ hc', ?_⟩
  rcases hlive with hearly | hstored | ⟨p, hp⟩
  · exact .inl (he hearly)
  · rcases hs hstored with hearly | hstored
    · exact .inl hearly
    · exact .inr (.inl hstored)
  · exact .inr (.inr ⟨p, (hl p).mp hp⟩)

/-- The connection of the stream is closed. -/
theorem Inbound.close (hi : s.Inbound) (ho : s.Opened h id) (hr : s'.received = s.received)
    (hc : s'.links h = { s.links h with closed := true }) :
    Relayed (s'.Serving h id) (dataOf id (s'.received h.1)) (s'.unwritten h)
      (s'.links h).written := by
  rw [hr, hc]
  apply (hi.stage h id ho).dead
  rintro ⟨-, hopen, -⟩
  rw [hc] at hopen
  cases hopen

/-- Data for the stream arrives and is about to be written. -/
theorem Inbound.deliver (hi : s.Inbound) {d : WsData} (ho : s.Opened h d.id)
    (hl : s.loops h.1 = none) (hs : s.streamConns d.id = some h)
    (hl' : s'.loops h.1 = some (.writing h (fromBase64 d.data)))
    (hr : s'.received h.1 = s.received h.1 ++ [.wsData d]) (hlink : s'.links = s.links) :
    Relayed (s'.Serving h d.id) (dataOf d.id (s'.received h.1)) (s'.unwritten h)
      (s'.links h).written := by
  have hk := hi.stage h d.id ho
  have hheld : s.unwritten h = [] := unwritten_eq_nil fun p hp => by cases hl.symm.trans hp
  have hchunk : TunnelMessage.chunk d.id (.wsData d) = fromBase64 d.data := if_pos rfl
  rw [hheld] at hk
  rw [hr, dataOf_append, dataOf_singleton, hchunk, unwritten_eq hl', hlink]
  refine hk.take ?_ _
  rintro ⟨hb, hc, -⟩
  rw [hlink] at hb hc
  exact ⟨hb, hc, .inr (.inl hs)⟩

/-- Data for the stream is dropped. -/
theorem Inbound.drop (hi : s.Inbound) (ho : s.Opened h id) {m : TunnelMessage}
    (hl : s.loops h.1 = none) (hl' : s'.loops = s.loops) (hn : s'.streamConns id ≠ some h)
    (hearly : ¬ s'.Early h) (hr : s'.received h.1 = s.received h.1 ++ [m])
    (hlink : s'.links = s.links) :
    Relayed (s'.Serving h id) (dataOf id (s'.received h.1)) (s'.unwritten h)
      (s'.links h).written := by
  rw [hr, dataOf_append, hlink]
  refine (hi.stage h id ho).lose ?_ _
  rintro ⟨-, -, h' | h' | ⟨p, hp⟩⟩
  · exact hearly h'
  · exact hn h'
  · rw [hl', hl] at hp
    cases hp

/-- A loop writes what it has for the stream. -/
theorem Inbound.write (hi : s.Inbound) {n : ℕ} {p : Bytes} (ho : s.Opened h id)
    (hl : s.loops h.1 = some (.writing h p)) (hloops : s'.loops = s.loops.erase h.1)
    (hr : s'.received = s.received) (hlink : s'.links h = (s.links h).write p n) :
    Relayed (s'.Serving h id) (dataOf id (s'.received h.1)) (s'.unwritten h)
      (s'.links h).written := by
  have hk := hi.stage h id ho
  rw [unwritten_eq hl] at hk
  have hheld : s'.unwritten h = [] := unwritten_eq_nil fun q hq => by
    rw [hloops, Table.erase_self] at hq
    cases hq
  rw [hr, hheld, hlink]
  unfold Link.write at hlink ⊢
  split_ifs at hlink ⊢ with hdown
  · apply hk.dead
    rintro ⟨hb, hc, -⟩
    rw [hlink] at hb hc
    rw [hb, hc] at hdown
    cases hdown
  · rw [Bool.or_eq_true, not_or, Bool.not_eq_true, Bool.not_eq_true] at hdown
    have hlive : s.Serving h id := ⟨hdown.1, hdown.2, .inr (.inr ⟨p, hl⟩)⟩
    by_cases hn : n < p.length
    · apply hk.short hlive (List.take_prefix ..)
      rintro ⟨hb, -⟩
      rw [hlink] at hb
      exact absurd hn (of_decide_eq_false hb)
    · dsimp only
      rw [List.take_of_length_le (not_lt.mp hn)]
      exact hk.pass hlive

/-- A message read by the step, or before it. -/
theorem mem_received_step (he : Effect s a s') {t : ℕ} {m : TunnelMessage}
    (hm : m ∈ s'.received t) : m ∈ s.received t ∨ a = .receive t m := by
  rcases received_step he with ⟨u, m', rfl, hr⟩ | hr
  · rw [hr, push] at hm
    by_cases ht : t = u
    · subst ht
      rw [Function.update_self, List.mem_append, List.mem_singleton] at hm
      rcases hm with hm | rfl
      · exact .inl hm
      · exact .inr rfl
    · rw [Function.update_of_ne ht] at hm
      exact .inl hm
  · exact .inl (hr ▸ hm)

theorem opened_cases (he : Effect s a s') (ho : s'.Opened h id) :
    s.Opened h id ∨ ∃ m, a = .receive h.1 m ∧ h.2 = (s.received h.1).length ∧ m.opens = some id := by
  rcases received_step he with ⟨u, m, rfl, hr⟩ | hr
  · apply ((opened_push hr).mp ho).imp_right
    rintro ⟨rfl, hm⟩
    exact ⟨m, rfl, rfl, hm⟩
  · left
    rwa [Opened, hr] at ho

/-- A goroutine that is opening its stream was doing so before, or has just been started. -/
theorem early_step (he : Effect s a s') (hh : h.2 < (s.received h.1).length) :
    s'.Early h → s.Early h := by
  cases he with
  | started t m hd hl hm =>
    rintro ⟨hd', hh', hearly⟩
    refine ⟨hd', (Table.set_of_ne ?_).symm.trans hh', hearly⟩
    rintro rfl
    exact lt_irrefl _ hh
  | moved u hd₀ hd' hu hs hearly hun hun' => exact Early.of_set hu rfl hearly
  | requested u ok o addr raw hu => exact Early.of_set hu rfl (fun _ => rfl)
  | replied u w resp hu => exact Early.of_set hu (write_handlers ..) nofun
  | stored u id' hu => exact Early.of_set hu rfl nofun
  | read u id' chunk hu => exact Early.of_set hu rfl nofun
  | sent u w id' p hu => exact Early.of_set hu (write_handlers ..) nofun
  | sentClose u w id' hu => exact Early.of_set hu (write_handlers ..) nofun
  | deleted u id' hu => exact Early.of_set hu rfl nofun
  | left u hu => exact Early.of_set hu rfl nofun
  | pinged t w =>
    rw [Early, write_handlers]
    exact fun h => h
  | _ => exact fun h => h

/-- A goroutine takes a step that is not about the map. -/
theorem Inbound.moved (hi : s.Inbound) (ho : s.Opened h id) (hearly : s'.Early h → s.Early h)
    (hstreams : s'.streamConns = s.streamConns) (hloops : s'.loops = s.loops)
    (hlink : (s'.links h).downstream = (s.links h).downstream) (hrec : s'.received = s.received) :
    Relayed (s'.Serving h id) (dataOf id (s'.received h.1)) (s'.unwritten h)
      (s'.links h).written := by
  refine hi.keep ho hearly (fun h => .inr (hstreams ▸ h)) ?_ hlink ?_
  · intro p
    rw [hloops]
  · rw [hrec]

/-- It sends something, which the connections to Headscale do not see. -/
theorem Inbound.sent (hi : s.Inbound) (ho : s.Opened h id) (hearly : s'.Early h → s.Early h)
    {s₀ : Process} {t : ℕ} {m : TunnelMessage} {w : WriteResult} (hs : s' = s₀.write t m w)
    (hstreams : s₀.streamConns = s.streamConns) (hloops : s₀.loops = s.loops)
    (hlinks : s₀.links = s.links) (hrec : s₀.received = s.received) :
    Relayed (s'.Serving h id) (dataOf id (s'.received h.1)) (s'.unwritten h)
      (s'.links h).written := by
  subst hs
  apply hi.moved ho hearly
  · rw [write_streamConns, hstreams]
  · rw [write_loops, hloops]
  · rw [write_links, hlinks]
  · rw [write_received, hrec]

/-- A stream that was open before the step. -/
theorem Inbound.opened_step (hi : s.Inbound) (hr : s.Rooted) (hd : s.Distinct) (hc : s.Coherent a)
    (hready : s.Ready a) (he : Effect s a s') (ho : s.Opened h id) :
    Relayed (s'.Serving h id) (dataOf id (s'.received h.1)) (s'.unwritten h)
      (s'.links h).written := by
  have same : ∀ p, s.loops h.1 = some (.writing h p) ↔ s.loops h.1 = some (.writing h p) :=
    fun _ => Iff.rfl
  have hearly := early_step he ho.lt
  have moved := hi.moved ho hearly
  cases he with
  | started t m hd' hl hm =>
    refine hi.keep ho hearly .inr same rfl (dataOf_push fun _ => ?_)
    rcases hm with ⟨req, rfl, -⟩ | ⟨o, o', rfl, -⟩ <;> rfl
  | delivered t d u p hl hs hp =>
    -- The connection in the map is the one of the goroutine that opened the stream here.
    obtain ⟨k, hk⟩ := hc.opened t _ d.id rfl rfl
    obtain rfl := hd _ _ _ (hr.streams d.id u hs) hk
    cases (hc.decodes t d rfl).symm.trans hp
    by_cases hid : d.id = id
    · subst hid
      obtain rfl := hd _ _ _ ho hk
      exact hi.deliver ho hl hs Table.set_self (Function.update_self ..) rfl
    · refine hi.keep ho hearly .inr (writing_set hl ?_) rfl (dataOf_push fun _ => if_neg hid)
      rintro p ⟨⟩
      exact hid (hk.eq ho)
  | hungUp t c u hl hs =>
    exact hi.keep ho hearly (fun h => .inr (Table.of_erase h)) (writing_set hl nofun) rfl
      (dataOf_push fun _ => rfl)
  | ignored t m hl hopens hdata hclose =>
    by_cases hm : h.1 = t ∧ ∃ d, m = .wsData d ∧ d.id = id
    · obtain ⟨rfl, d, rfl, rfl⟩ := hm
      have hnone : s.streamConns d.id = none := by
        rcases hdata d rfl with hnone | hpay
        · exact hnone
        · cases hpay.symm.trans (hc.decodes h.1 d rfl)
      have hlate : ¬ s.Early h := Ready.not_early hr hready rfl ho
      refine hi.drop ho hl rfl ?_ hlate (Function.update_self ..) rfl
      intro h'
      cases hnone.symm.trans h'
    · refine hi.keep ho hearly .inr same rfl (dataOf_push fun ht => ?_)
      exact chunk_eq_nil fun d hmd hid => hm ⟨ht, d, hmd, hid⟩
  | wrote t n u p hl =>
    obtain rfl := hi.aimed t u p hl
    by_cases hu : h = u
    · subst hu
      exact hi.write ho hl rfl rfl (Function.update_self ..)
    · refine hi.keep ho hearly .inr (writing_erase hl ?_) ?_ rfl
      · rintro p ⟨⟩
        exact hu rfl
      · exact congrArg Link.downstream (Function.update_of_ne hu ..)
  | closed t n u hl =>
    by_cases hu : h = u
    · subst hu
      exact hi.close ho rfl (Function.update_self ..)
    · refine hi.keep ho hearly .inr (writing_erase hl nofun) ?_ rfl
      exact congrArg Link.downstream (Function.update_of_ne hu ..)
  | crashed p => exact moved rfl rfl rfl rfl
  | moved u hd₀ hd' hu hs he hun hun' => exact moved rfl rfl rfl rfl
  | requested u ok o addr raw hu => exact moved rfl rfl (view_update Link.downstream rfl) rfl
  | replied u w resp hu => exact hi.sent ho hearly rfl rfl rfl rfl rfl
  | stored u id' hu =>
    refine hi.keep ho hearly ?_ same rfl rfl
    intro h'
    rcases Table.set_eq_some_iff.mp h' with ⟨-, rfl⟩ | ⟨-, h'⟩
    · exact .inl ⟨_, hu, rfl⟩
    · exact .inr h'
  | read u id' chunk hu => exact moved rfl rfl (view_update Link.downstream rfl) rfl
  | sent u w id' p hu => exact hi.sent ho hearly rfl rfl rfl rfl rfl
  | sentClose u w id' hu => exact hi.sent ho hearly rfl rfl rfl rfl rfl
  | deleted u id' hu =>
    exact hi.keep ho hearly (fun h => .inr (Table.of_erase h)) same rfl rfl
  | left u hu =>
    by_cases hhu : h = u
    · subst hhu
      exact hi.close ho rfl (Function.update_self ..)
    · exact moved rfl rfl (congrArg Link.downstream (Function.update_of_ne hhu ..)) rfl
  | pinged t w => exact hi.sent ho hearly rfl rfl rfl rfl rfl

theorem follows_of_opens {m : TunnelMessage} (hm : m.opens = some id) : m.follows = none := by
  obtain ⟨o, rfl, -⟩ := opens_eq_some.mp hm
  rfl

theorem Inbound.quiet_step (hi : s.Inbound) (hr : s.Rooted) (hd : s'.Distinct) (hready : s.Ready a)
    (he : Effect s a s') (hearly : s'.Early h) (ho' : s'.Opened h id) {m : TunnelMessage}
    (hm : m ∈ s'.received h.1) : m.follows ≠ some id := by
  intro hf
  rcases opened_cases he ho' with ho | ⟨m', rfl, hk, hopens⟩
  · rcases mem_received_step he hm with hm | rfl
    · exact hi.quiet h id (early_step he ho.lt hearly) ho m hm hf
    · exact hready.not_early hr hf ho (early_step he ho.lt hearly)
  · rcases mem_received_step he hm with hm | hm
    · -- The stream would have been opened before.
      obtain ⟨k, ho⟩ := hi.opened h.1 m id hm hf
      have hkk : k = h.2 := congrArg Prod.snd (hd _ _ _ (ho.step he) ho')
      have hlt : k < (s.received h.1).length := ho.lt
      omega
    · cases hm
      cases (follows_of_opens hopens).symm.trans hf

theorem Inbound.ended_step (hi : s.Inbound) (hr : s.Rooted) (hd : s.Distinct) (he : Effect s a s')
    {t : ℕ} {c : WsClose} (hc : .wsClose c ∈ s'.received t) : s'.streamConns c.id = none := by
  have old : .wsClose c ∈ s.received t → s.streamConns c.id = none := hi.ended t c
  have erased : ∀ {x}, s.streamConns c.id = none → s.streamConns.erase x c.id = none := by
    intro x hn
    by_contra hne
    obtain ⟨k, hk⟩ := Option.ne_none_iff_exists'.mp hne
    cases hn.symm.trans (Table.of_erase hk)
  have hmem := mem_received_step he hc
  cases he with
  | started u m hd' hl hm =>
    refine old (hmem.resolve_right ?_)
    rintro ⟨⟩
    rcases hm with ⟨req, hm, -⟩ | ⟨o, o', hm, -⟩ <;> cases hm
  | delivered u d k p hl hs hp => exact old (hmem.resolve_right nofun)
  | hungUp u c' k hl hs =>
    rcases hmem with hmem | hmem
    · exact erased (old hmem)
    · cases hmem
      exact Table.erase_self
  | ignored u m hl hopens hdata hclose =>
    rcases hmem with hmem | hmem
    · exact old hmem
    · cases hmem
      exact hclose c rfl
  | stored u id' hu =>
    replace hmem := hmem.resolve_right nofun
    by_cases hid : c.id = id'
    · -- The end was taken while the stream was being opened.
      subst hid
      obtain ⟨k, hk⟩ := hi.opened t _ c.id hmem rfl
      have ho := hr.handlers u _ c.id hu rfl
      cases hd _ _ _ ho hk
      exact absurd rfl (hi.quiet _ c.id ⟨_, hu, rfl⟩ ho (.wsClose c) hmem)
    · exact (Table.set_of_ne hid).trans (old hmem)
  | deleted u id' hu => exact erased (old (hmem.resolve_right nofun))
  | replied u w resp hu =>
    rw [write_streamConns]
    exact old (hmem.resolve_right nofun)
  | sent u w id' p hu =>
    rw [write_streamConns]
    exact old (hmem.resolve_right nofun)
  | sentClose u w id' hu =>
    rw [write_streamConns]
    exact old (hmem.resolve_right nofun)
  | pinged u w =>
    rw [write_streamConns]
    exact old (hmem.resolve_right nofun)
  | wrote u n k p hl => exact old (hmem.resolve_right nofun)
  | closed u n k hl => exact old (hmem.resolve_right nofun)
  | crashed p => exact old hc
  | moved u hd₀ hd' hu hs hearly hun hun' => exact old hc
  | requested u ok o addr raw hu => exact old hc
  | read u id' chunk hu => exact old hc
  | left u hu => exact old hc

theorem Inbound.aimed_step (hi : s.Inbound) (hr : s.Rooted) (hd : s.Distinct) (hc : s.Coherent a)
    (he : Effect s a s') {t : ℕ} {p : Bytes} (hl : s'.loops t = some (.writing h p)) : h.1 = t := by
  have old : s.loops t = some (.writing h p) → h.1 = t := hi.aimed t h p
  cases he with
  | delivered u d k q hn hs hp =>
    rcases Table.set_eq_some_iff.mp hl with ⟨rfl, hw⟩ | ⟨-, hl⟩
    · cases hw
      obtain ⟨n, hn⟩ := hc.opened t _ d.id rfl rfl
      rw [hd _ _ _ (hr.streams d.id h hs) hn]
    · exact old hl
  | hungUp u c k hn hs => exact old (Table.of_set hl nofun)
  | wrote u n k q hu => exact old (Table.of_erase hl)
  | closed u n k hu => exact old (Table.of_erase hl)
  | replied u w resp hu => exact old (by simpa using hl)
  | sent u w id' p hu => exact old (by simpa using hl)
  | sentClose u w id' hu => exact old (by simpa using hl)
  | pinged u w => exact old (by simpa using hl)
  | _ => exact old hl

theorem Inbound.step (hi : s.Inbound) (hr : s.Rooted) (hd : s'.Distinct) (hc : s.Coherent a)
    (hready : s.Ready a) (he : Effect s a s') : s'.Inbound := by
  constructor
  · intro t m id hm hf
    rcases mem_received_step he hm with hm | rfl
    · obtain ⟨k, ho⟩ := hi.opened t m id hm hf
      exact ⟨k, ho.step he⟩
    · obtain ⟨k, ho⟩ := hc.opened t m id rfl hf
      exact ⟨k, ho.step he⟩
  · intro h id hearly ho m hm
    exact hi.quiet_step hr hd hready he hearly ho hm
  · intro t c hm
    exact hi.ended_step hr (hd.of_step he) he hm
  · intro t h p hl
    exact hi.aimed_step hr (hd.of_step he) hc he hl
  · intro h id ho'
    rcases opened_cases he ho' with ho | ⟨m, rfl, hk, hopens⟩
    · exact hi.opened_step hr (hd.of_step he) hc hready he ho
    · -- Nothing has been read about the stream before it is opened, nor written to its connection.
      obtain ⟨-, hlink⟩ := hr.unborn h hk.ge
      have hdata : dataOf id (s.received h.1) = [] := by
        apply dataOf_eq_nil
        rintro d hmem rfl
        obtain ⟨k, ho⟩ := hi.opened h.1 _ d.id hmem rfl
        have hkk : k = h.2 := congrArg Prod.snd (hd _ _ _ (ho.step he) ho')
        have hlt : k < (s.received h.1).length := ho.lt
        omega
      have hheld : s.unwritten h = [] := unwritten_eq_nil fun p hp => by
        obtain ⟨x, hx⟩ := hr.loops h.1 _ hp
        exact absurd hx.lt hk.not_lt
      cases he with
      | started t m hd' hl hm =>
        refine Relayed.nil.keep (fun h => h) ?_ hheld (congrArg Link.written hlink)
        rw [dataOf_push fun _ => ?_, hdata]
        rcases hm with ⟨req, rfl, -⟩ | ⟨o, o', rfl, -⟩ <;> rfl
      | delivered t d k p hl hs hp => cases hopens
      | hungUp t c k hl hs => cases hopens
      | ignored t m hl hnone hdata hclose => cases hnone.symm.trans hopens
      | crashed p => exact absurd (Opened.lt ho') hk.not_lt
      | moved u hd₀ hd' hu hs hearly hun hun' => exact absurd (Opened.lt ho') hk.not_lt

end

end Process

end HeadFwd.Sidecar
