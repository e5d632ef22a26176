import HeadFwd.Relay.Streams

/-! # From Headscale to the clients

Every reader decodes the chunks that arrive on its connection and writes them to the
clients of their streams. The client of a stream gets what arrived for the stream, in
order, up to the first write that fails.
-/

namespace HeadFwd.Relay.Traffic

open Text Net Transition Tunnel

variable {now : ℕ} {T : Tunnels} {s s' : Traffic} {a : TrafficAction} {c c' : Clients}

theorem reads_cons {e : TrafficEvent} (h : s'.log = e :: s.log) (t : ℕ) :
    s'.reads t = s.reads t ++ (e.readOn t).toList := by
  rw [reads, reads, h, List.reverse_cons, List.filterMap_append]
  cases he : e.readOn t with
  | none => simp [he]
  | some m => simp [he]

/-- Only the reader of a connection adds to what has been read on it. -/
theorem reads_step (he : Effect now T s a s') (t : ℕ) :
    s'.reads t = s.reads t ∨ ∃ m, a = .read t m ∧ s'.reads t = s.reads t ++ [m] := by
  rcases he.log_cases with hl | ⟨e, hl, hread⟩
  · left
    rw [reads, reads, hl]
  · rw [reads_cons hl]
    cases e with
    | read u m =>
      simp only [TrafficEvent.readOn]
      split_ifs with hu
      · exact .inr ⟨m, hu ▸ hread u m rfl, rfl⟩
      · exact .inl (List.append_nil _)
    | _ => exact .inl (List.append_nil _)

theorem written_cons {e : TrafficEvent} (h : s'.log = e :: s.log) (j : ℕ) :
    s'.written j = s.written j ++ e.writtenTo j := by
  simp [written, h]

/-- The bytes that a reader is about to write to a client. -/
def unwritten (s : Traffic) (t j : ℕ) : Bytes :=
  match s.readers t with
  | some (.writing k d) => if k = j then fromBase64 d.data else []
  | _ => []

theorem unwritten_eq {t j : ℕ} {d : WsData} (h : s.readers t = some (.writing j d)) :
    s.unwritten t j = fromBase64 d.data := by
  rw [unwritten, h]
  exact if_pos rfl

theorem unwritten_eq_nil {t j : ℕ} (h : ∀ d, s.readers t ≠ some (.writing j d)) :
    s.unwritten t j = [] := by
  unfold unwritten
  split
  · rename_i k d hk
    split_ifs with hkj
    · exact absurd (hkj ▸ hk) (h d)
    · rfl
  · rfl

theorem unwritten_congr {t j : ℕ}
    (h : ∀ d, s'.readers t = some (.writing j d) ↔ s.readers t = some (.writing j d)) :
    s'.unwritten t j = s.unwritten t j := by
  by_cases hd : ∃ d, s.readers t = some (.writing j d)
  · obtain ⟨d, hd⟩ := hd
    rw [unwritten_eq hd, unwritten_eq ((h d).mpr hd)]
  · rw [not_exists] at hd
    rw [unwritten_eq_nil hd, unwritten_eq_nil fun d hd' => hd d ((h d).mp hd')]

theorem writing_set {t u j : ℕ} {task : ReaderTask} (hu : s.readers u = none)
    (hn : ∀ d, task ≠ .writing j d) (d : WsData) :
    s.readers.set u task t = some (.writing j d) ↔ s.readers t = some (.writing j d) := by
  by_cases ht : t = u
  · subst ht
    simp [hu, hn d]
  · rw [Table.set_of_ne ht]

theorem writing_erase {t u j : ℕ} {task : ReaderTask} (hu : s.readers u = some task)
    (hn : ∀ d, task ≠ .writing j d) (d : WsData) :
    s.readers.erase u t = some (.writing j d) ↔ s.readers t = some (.writing j d) := by
  by_cases ht : t = u
  · subst ht
    simp [hu, hn d]
  · rw [Table.erase_of_ne ht]

/-- The client still takes what arrives for its stream on the connection. -/
def Writable (c : Clients) (s : Traffic) (id : Bytes) (j t : ℕ) : Prop :=
  c.broken j = false ∧ s.closed j = false ∧
    (s.streams id = some j ∨ ∃ d, s.readers t = some (.writing j d))

/-- The bytes for a stream go to its client in order. -/
structure Outbound (c : Clients) (s : Traffic) : Prop where
  confined : ∀ t d, .wsData d ∈ s.reads t → s.Announced t d.id
  tasks : ∀ t j d, s.readers t = some (.writing j d) →
    s.owners d.id = some (.stream j) ∧ .wsData d ∈ s.reads t
  wrote : ∀ j t p, .wrote j t p ∈ s.log → ∃ id, s.owners id = some (.stream j) ∧ s.Announced t id
  stage : ∀ id j t, s.owners id = some (.stream j) → s.Announced t id →
    Relayed (Writable c s id j t) (dataOf id (s.reads t)) (s.unwritten t j) (s.written j)

/-- Data is read about streams on the connection where they were announced. -/
def Answerable (s : Traffic) : TrafficAction → Prop
  | .read t (.wsData d) => s.Announced t d.id
  | _ => True

theorem Outbound.initial : Traffic.initial.Outbound Clients.initial := by
  refine ⟨nofun, nofun, nofun, ?_⟩
  rintro id j t ho
  cases ho

section Outbound

variable {id : Bytes} {j t : ℕ}

/-- A step that neither reads for the stream nor writes to its client. -/
theorem Outbound.keep (h : s.Outbound c) (hc : c.step s a = some c')
    (ho : s.owners id = some (.stream j)) (ha : s.Announced t id)
    (hr : ∀ d, s'.readers t = some (.writing j d) ↔ s.readers t = some (.writing j d))
    (hst : s'.streams id = some j → s.streams id = some j)
    (hcl : s'.closed j = false → s.closed j = false)
    (hlog : s'.log = s.log ∨ ∃ e, s'.log = e :: s.log ∧ e.writtenTo j = [] ∧
      ∀ m, e.readOn t = some m → m.chunk id = []) :
    Relayed (Writable c' s' id j t) (dataOf id (s'.reads t)) (s'.unwritten t j) (s'.written j) := by
  refine (h.stage id j t ho ha).keep ?_ ?_ (unwritten_congr hr) ?_
  · rintro ⟨hb, hclosed, hs⟩
    refine ⟨Clients.broken_mono hc hb, hcl hclosed, ?_⟩
    rcases hs with hs | ⟨d, hd⟩
    · exact .inl (hst hs)
    · exact .inr ⟨d, (hr d).mp hd⟩
  · rcases hlog with hlog | ⟨e, hlog, -, he⟩
    · rw [reads, reads, hlog]
    · rw [reads_cons hlog, dataOf_append]
      cases hm : e.readOn t with
      | none => simp
      | some m => simp [he m hm]
  · rcases hlog with hlog | ⟨e, hlog, he, -⟩
    · rw [written, written, hlog]
    · rw [written_cons hlog, he, List.append_nil]

/-- A chunk is read for a stream. -/
theorem Outbound.read_own (h : s.Outbound c) {d : WsData} (hid : d.id = id)
    (hs : s.step now T (.read t (.wsData d)) = some s')
    (ho : s.owners id = some (.stream j)) (ha : s.Announced t id)
    (hstream : s.streams id = none ∨ s.streams id = some j)
    (hst : s'.streams id = some j → s.streams id = some j) (hcl : s'.closed = s.closed)
    (hlog : s'.log = .read t (.wsData d) :: s.log)
    (hrd : s.streams id = none → s'.readers = s.readers) :
    Relayed (Writable c s' id j t) (dataOf id (s'.reads t)) (s'.unwritten t j) (s'.written j) := by
  subst hid
  have hfree := readers_of_read hs
  have hun : s.unwritten t j = [] := unwritten_eq_nil fun d hd => by
    cases hfree.symm.trans hd
  have hk := h.stage d.id j t ho ha
  rw [hun] at hk
  have hreads : dataOf d.id (s'.reads t) = dataOf d.id (s.reads t) ++ fromBase64 d.data := by
    rw [reads_cons hlog, dataOf_append]
    simp [TrafficEvent.readOn, TunnelMessage.chunk]
  have hwritten : s'.written j = s.written j := by
    rw [written_cons hlog]
    exact List.append_nil _
  rw [hreads, hwritten]
  rcases hstream with hnone | hsome
  · -- The stream is not in the map any more.
    refine hk.lose ?_ _
    rintro ⟨-, -, hin | ⟨d', hd'⟩⟩
    · cases hnone.symm.trans (hst hin)
    · rw [hrd hnone, hfree] at hd'
      cases hd'
  · rw [unwritten_eq (reader_of_data hs hsome)]
    refine hk.take ?_ _
    rintro ⟨hb, hclosed, -⟩
    exact ⟨hb, hcl ▸ hclosed, .inl hsome⟩

/-- A reader writes a chunk to the client. -/
theorem Outbound.write_own (h : s.Outbound c) {n : ℕ} {w : WriteOutcome} {d : WsData}
    (hs : s.step now T (.readerFinish t n w) = some s')
    (hc : c.step s (.readerFinish t n w) = some c') (hr : s.readers t = some (.writing j d))
    (ho : s.owners id = some (.stream j)) (ha : s.Announced t id) :
    Relayed (Writable c' s' id j t) (dataOf id (s'.reads t)) (s'.unwritten t j) (s'.written j) := by
  have hk := h.stage id j t ho ha
  rw [unwritten_eq hr] at hk
  obtain ⟨hzero, hshort⟩ := Clients.step_writing hc hr
  simp only [step, readerFinish, hr] at hs
  cases hs
  have hun : unwritten { s with
      readers := s.readers.erase t
      log := .wrote j t (if s.closed j then [] else (fromBase64 d.data).take n) :: s.log } t j = [] :=
    unwritten_eq_nil fun d' hd' => by cases Table.erase_self.symm.trans hd'
  rw [hun, reads_cons rfl, written_cons rfl]
  simp only [TrafficEvent.readOn, TrafficEvent.writtenTo, Option.toList_none, List.append_nil,
    if_true]
  split_ifs with hclosed
  · rw [List.append_nil]
    apply hk.dead
    rintro ⟨-, hopen, -⟩
    cases hclosed.symm.trans hopen
  · by_cases hb : c.broken j = true
    · rw [hzero hb, List.take_zero, List.append_nil]
      apply hk.dead
      rintro ⟨hb', -⟩
      cases hb.symm.trans (Clients.broken_mono hc hb')
    · have hlive : Writable c s id j t :=
        ⟨eq_false_of_ne_true hb, eq_false_of_ne_true hclosed, .inr ⟨d, hr⟩⟩
      by_cases hn : n < (fromBase64 d.data).length
      · apply hk.short hlive (List.take_prefix ..)
        rintro ⟨hb', -⟩
        cases (hshort hn).symm.trans hb'
      · rw [List.take_of_length_le (not_lt.mp hn)]
        exact hk.pass hlive

/-- Events that are neither a read on the connection nor a write to the client. -/
theorem quiet_cons {e : TrafficEvent} (he : e.readOn t = none) (hw : e.writtenTo j = [])
    (hlog : s'.log = e :: s.log) :
    s'.log = s.log ∨ ∃ e, s'.log = e :: s.log ∧ e.writtenTo j = [] ∧
      ∀ m, e.readOn t = some m → TunnelMessage.chunk id m = [] :=
  .inr ⟨e, hlog, hw, fun m hm => by cases he.symm.trans hm⟩

/-- Reads of something else. -/
theorem quiet_read {u : ℕ} {m : TunnelMessage} (hm : u = t → m.chunk id = [])
    (hlog : s'.log = .read u m :: s.log) :
    s'.log = s.log ∨ ∃ e, s'.log = e :: s.log ∧ e.writtenTo j = [] ∧
      ∀ m, e.readOn t = some m → TunnelMessage.chunk id m = [] := by
  refine .inr ⟨_, hlog, rfl, ?_⟩
  intro m' hm'
  simp only [TrafficEvent.readOn] at hm'
  split_ifs at hm' with hu
  cases hm'
  exact hm hu

theorem closed_update {f : ℕ → Bool} {k : ℕ} (h : Function.update f k true j = false) :
    f j = false := by
  by_cases hj : j = k
  · subst hj
    rw [Function.update_self] at h
    cases h
  · rwa [Function.update_of_ne hj] at h

theorem Outbound.old_step (h : s.Outbound c) (hA : s.Announcing) (hO : Owned T s)
    (hg : s.Answerable a) (hs : s.step now T a = some s') (hc : c.step s a = some c')
    (ho : s.owners id = some (.stream j)) (ha : s.Announced t id) :
    Relayed (Writable c' s' id j t) (dataOf id (s'.reads t)) (s'.unwritten t j) (s'.written j) := by
  -- A step that leaves the readers, the map and the clients alone.
  have other : s'.readers = s.readers → s'.streams = s.streams → s'.closed = s.closed →
      (s'.log = s.log ∨ ∃ e, s'.log = e :: s.log ∧ e.writtenTo j = [] ∧
        ∀ m, e.readOn t = some m → m.chunk id = []) →
      Relayed (Writable c' s' id j t) (dataOf id (s'.reads t)) (s'.unwritten t j)
        (s'.written j) := by
    intro hr hst hcl hlog
    refine h.keep hc ho ha ?_ (fun hs => hst ▸ hs) (fun hs => hcl ▸ hs) hlog
    rw [hr]
    exact fun _ => Iff.rfl
  cases step_effect hs with
  | refused i r e hi => exact other rfl rfl rfl (quiet_cons rfl rfl rfl)
  | unconnected i r fp hi => exact other rfl rfl rfl (quiet_cons rfl rfl rfl)
  | received i req deadline u resp hi hch => exact other rfl rfl rfl (quiet_cons rfl rfl rfl)
  | cleared i req e hi => exact other rfl rfl rfl (quiet_cons rfl rfl rfl)
  | streamRegistered k random u r hk hfree =>
    refine h.keep hc ho ha (fun _ => Iff.rfl) ?_ (fun h => h) (.inl rfl)
    intro hst
    rcases Table.set_eq_some_iff.mp hst with ⟨rfl, -⟩ | ⟨-, hst⟩
    · cases hfree.symm.trans ho
    · exact hst
  | streamRemoved k x thread hk ht =>
    exact h.keep hc ho ha (fun _ => Iff.rfl) Table.of_erase (fun h => h) (.inl rfl)
  | streamClosed k l hk =>
    exact h.keep hc ho ha (fun _ => Iff.rfl) (fun h => h) closed_update (quiet_cons rfl rfl rfl)
  | readResponse u resp i conn hconn hu hp =>
    exact h.keep hc ho ha (writing_set hu nofun) (fun h => h) (fun h => h)
      (quiet_read (fun _ => rfl) rfl)
  | readClose u cl k conn hconn hu hst =>
    exact h.keep hc ho ha (writing_set hu nofun) Table.of_erase (fun h => h)
      (quiet_read (fun _ => rfl) rfl)
  | readPing u hu =>
    exact h.keep hc ho ha (writing_set hu nofun) (fun h => h) (fun h => h)
      (quiet_read (fun _ => rfl) rfl)
  | delivered u n w i resp hu hch =>
    exact h.keep hc ho ha (writing_erase hu nofun) (fun h => h) (fun h => h) (.inl rfl)
  | hungUp u n w k cl hu =>
    exact h.keep hc ho ha (writing_erase hu nofun) (fun h => h) closed_update
      (quiet_cons rfl rfl rfl)
  | ponged u n w hu =>
    exact h.keep hc ho ha (writing_erase hu nofun) (fun h => h) (fun h => h) (.inl rfl)
  | readData u d k conn hconn hu hst =>
    obtain rfl : c = c' := Option.some.inj hc
    have hk := hO.streams d.id k hst
    by_cases hid : d.id = id
    · subst hid
      cases ho.symm.trans hk
      obtain rfl := hA.unique ha hg
      exact h.read_own rfl hs ho ha (.inr hst) (fun h => h) rfl rfl fun hn => by
        cases hn.symm.trans hst
    · have hne : k ≠ j := by
        rintro rfl
        exact hid (hA.own d.id id k hk ho)
      refine h.keep hc ho ha (writing_set hu ?_) (fun h => h) (fun h => h)
        (quiet_read (m := .wsData d) (fun _ => if_neg hid) rfl)
      rintro d' ⟨⟩
      exact hne rfl
  | readIgnored u m pending streams hp hst =>
    obtain rfl : c = c' := Option.some.inj hc
    by_cases hm : u = t ∧ ∃ d, m = .wsData d ∧ d.id = id
    · obtain ⟨rfl, d, rfl, hid⟩ := hm
      have hnone : s.streams id = none := by
        cases hx : s.streams id with
        | none => rfl
        | some k =>
          have hw := reader_of_data hs (hid ▸ hx)
          cases (readers_of_read hs).symm.trans hw
      exact h.read_own hid hs ho ha (.inl hnone) (hst id j) rfl rfl fun _ => rfl
    · refine h.keep hc ho ha (fun _ => Iff.rfl) (hst id j) (fun h => h) (quiet_read ?_ rfl)
      intro hu
      apply chunk_eq_nil
      rintro d hd hid
      exact hm ⟨hu, d, hd, hid⟩
  | wrote u n w k d payload hu hp =>
    by_cases hk : k = j
    · subst hk
      obtain ⟨hown, hmem⟩ := h.tasks u k d hu
      obtain rfl := hA.own d.id id k hown ho
      obtain rfl := hA.unique ha (h.confined u d hmem)
      exact h.write_own hs hc hu ho ha
    · refine h.keep hc ho ha (writing_erase hu ?_) (fun h => h) (fun h => h)
        (quiet_cons (e := .wrote k u payload) rfl (if_neg hk) rfl)
      rintro d' ⟨⟩
      exact hk rfl
  | _ => exact other rfl rfl rfl (.inl rfl)

theorem mem_reads {m : TunnelMessage} : m ∈ s.reads t ↔ .read t m ∈ s.log := by
  simp only [reads, List.mem_filterMap, List.mem_reverse]
  constructor
  · rintro ⟨e, he, hm⟩
    cases e with
    | read u m' =>
      simp only [TrafficEvent.readOn] at hm
      split_ifs at hm with hu
      cases hm
      exact hu ▸ he
    | _ => cases hm
  · intro hm
    exact ⟨_, hm, if_pos rfl⟩

theorem wrote_of_mem (he : Effect now T s a s') {p : Bytes} (hm : .wrote j t p ∈ s'.log) :
    .wrote j t p ∈ s.log ∨ ∃ d, s.readers t = some (.writing j d) := by
  cases he with
  | wrote u n w k d payload hu hp =>
    rcases List.mem_cons.mp hm with hm | hm
    · cases hm
      exact .inr ⟨d, hu⟩
    · exact .inl hm
  | refused i r e hi => exact .inl ((List.mem_cons.mp hm).resolve_left nofun)
  | unconnected i r fp hi => exact .inl ((List.mem_cons.mp hm).resolve_left nofun)
  | received i req deadline u resp hi hc => exact .inl ((List.mem_cons.mp hm).resolve_left nofun)
  | cleared i req e hi => exact .inl ((List.mem_cons.mp hm).resolve_left nofun)
  | streamClosed k l hk => exact .inl ((List.mem_cons.mp hm).resolve_left nofun)
  | readResponse u resp i conn hc hu hp => exact .inl ((List.mem_cons.mp hm).resolve_left nofun)
  | readData u d k conn hc hu hs => exact .inl ((List.mem_cons.mp hm).resolve_left nofun)
  | readClose u cl k conn hc hu hs => exact .inl ((List.mem_cons.mp hm).resolve_left nofun)
  | readPing u hu => exact .inl ((List.mem_cons.mp hm).resolve_left nofun)
  | readIgnored u m pending streams hp hs =>
    exact .inl ((List.mem_cons.mp hm).resolve_left nofun)
  | hungUp u n w k cl hu => exact .inl ((List.mem_cons.mp hm).resolve_left nofun)
  | _ => exact .inl hm

theorem Outbound.tasks_step (h : s.Outbound c) (hO : Owned T s) (he : Effect now T s a s')
    {d : WsData} (hr : s'.readers t = some (.writing j d)) :
    s'.owners d.id = some (.stream j) ∧ .wsData d ∈ s'.reads t := by
  have old : s.readers t = some (.writing j d) →
      s'.owners d.id = some (.stream j) ∧ .wsData d ∈ s'.reads t := by
    intro hr
    obtain ⟨ho, hm⟩ := h.tasks t j d hr
    exact ⟨he.owners_mono ho, mem_reads.mpr (he.log_mono (mem_reads.mp hm))⟩
  cases he with
  | readResponse u resp i conn hc hu hp => exact old (Table.of_set hr nofun)
  | readData u d' k conn hc hu hs =>
    rcases Table.set_eq_some_iff.mp hr with ⟨rfl, hw⟩ | ⟨-, hr⟩
    · cases hw
      exact ⟨hO.streams d.id j hs, mem_reads.mpr List.mem_cons_self⟩
    · exact old hr
  | readClose u cl k conn hc hu hs => exact old (Table.of_set hr nofun)
  | readPing u hu => exact old (Table.of_set hr nofun)
  | delivered u n w i resp hu hc => exact old (Table.of_erase hr)
  | wrote u n w k d' payload hu hp => exact old (Table.of_erase hr)
  | hungUp u n w k cl hu => exact old (Table.of_erase hr)
  | ponged u n w hu => exact old (Table.of_erase hr)
  | _ => exact old hr

/-- A stream that is announced by this very step: nothing has been read or written for it. -/
theorem Outbound.new_step (h : s.Outbound c) (hA : s.Announcing) (hn : ∀ u, ¬ s.Announced u id)
    (ho : s.owners id = some (.stream j)) (hr : s'.readers = s.readers) (hl : s'.log = s.log) :
    Relayed (Writable c' s' id j t) (dataOf id (s'.reads t)) (s'.unwritten t j) (s'.written j) := by
  have hreads : dataOf id (s'.reads t) = [] := by
    rw [reads, hl]
    apply dataOf_eq_nil
    rintro d hd rfl
    exact hn t (h.confined t d hd)
  have hun : s'.unwritten t j = [] := by
    apply unwritten_eq_nil
    rintro d hd
    rw [hr] at hd
    obtain ⟨ho', hm⟩ := h.tasks t j d hd
    cases hA.own d.id id j ho' ho
    exact hn t (h.confined t d hm)
  have hwritten : s'.written j = [] := by
    rw [written, hl, List.flatMap_eq_nil_iff]
    rintro e hmem
    cases e with
    | wrote k u p =>
      simp only [TrafficEvent.writtenTo]
      split_ifs with hk
      · obtain ⟨x, hx, ha⟩ := h.wrote k u p (List.mem_reverse.mp hmem)
        cases hA.own x id j (hk ▸ hx) ho
        exact absurd ha (hn u)
      · rfl
    | _ => rfl
  rw [hreads, hun, hwritten]
  exact .nil

theorem Outbound.step (h : s.Outbound c) (hA : s.Announcing) (hO : Owned T s)
    (hg : s.Answerable a) (hs : s.step now T a = some s') (hc : c.step s a = some c') :
    s'.Outbound c' := by
  have he := step_effect hs
  constructor
  · intro t d hd
    rcases he.read_of_mem (mem_reads.mp hd) with hd | rfl
    · exact (h.confined t d (mem_reads.mpr hd)).mono he
    · exact Announced.mono he hg
  · intro t j d hr
    exact h.tasks_step hO he hr
  · intro j t p hm
    rcases wrote_of_mem he hm with hm | ⟨d, hr⟩
    · obtain ⟨id, ho, ha⟩ := h.wrote j t p hm
      exact ⟨id, he.owners_mono ho, ha.mono he⟩
    · obtain ⟨ho, hmem⟩ := h.tasks t j d hr
      exact ⟨d.id, he.owners_mono ho, (h.confined t d hmem).mono he⟩
  · intro id j t ho' ha'
    rcases owners_step he ho' with ho | ⟨hfree, -, -, -, -, hout, -⟩
    · rcases announced_step he ha' with ha | ⟨k, o, w, hk, rfl, rfl⟩
      · exact h.old_step hA hO hg hs hc ho ha
      · cases he with
        | streamSent k w u m x thread hj ht =>
          exact h.new_step hA (hA.pending k t o hk) ho rfl rfl
    · obtain ⟨m, hm, hid⟩ := ha'
      rw [hout] at hm
      obtain ⟨o, ho⟩ := Announced.owned hO ⟨m, hm, hid⟩
      cases hfree.symm.trans ho

end Outbound

end HeadFwd.Relay.Traffic
