import HeadFwd.Relay.Isolation
import HeadFwd.Transition.Stage
import HeadFwd.Tunnel.Streams

/-! # Streams through the relay

A stream runs through the relay in both directions: from its hijacked client
connection to a tunnel, and back. Each direction is a stage. The identifier of a
stream is drawn for one client and announced on one tunnel, once, before anything
else is sent about it.
-/

namespace HeadFwd.Relay

open Text Net Transition Tunnel

/-- The sockets of the hijacked clients: the bytes read from them, and whether a write has failed.
A socket that a write has failed on takes nothing more. -/
structure Clients where
  read : ℕ → Bytes
  broken : ℕ → Bool

def Clients.initial : Clients where
  read := fun _ => []
  broken := fun _ => false

/-- What a step of the relay does to the sockets of the clients; `none` where they do not allow
it. -/
def Clients.step (c : Clients) (s : Traffic) : TrafficAction → Option Clients
  | .streamRead j (some chunk) =>
    some { c with read := Function.update c.read j (c.read j ++ chunk) }
  | .readerFinish t written _ =>
    match s.readers t with
    | some (.writing j d) =>
      if c.broken j ∧ written ≠ 0 then none
      else
        let short : Bool := written < (fromBase64 d.data).length
        some { c with broken := Function.update c.broken j (c.broken j || short) }
    | _ => some c
  | _ => some c

/-- The tunnel that a thread is going to send data on. -/
def StreamThread.liveOn : StreamThread → Option ℕ
  | .registered t _ => some t
  | .relaying t _ => some t
  | .sending t _ => some t
  | _ => none

/-- The bytes a thread has read and not yet sent. -/
def StreamThread.unsent : StreamThread → Bytes
  | .sending _ d => fromBase64 d.data
  | _ => []

/-- The thread has drawn its identifier. -/
def StreamThread.begun : StreamThread → Bool
  | .building _ _ => false
  | _ => true

/-- The tunnel and the stream of a thread past its announcement. -/
def StreamThread.announced : StreamThread → Option (ℕ × Bytes)
  | .relaying t id => some (t, id)
  | .sending t d => some (t, d.id)
  | .ending t id => some (t, id)
  | _ => none

/-- The data of a message is the encoding of some bytes. -/
def Encoded (d : WsData) : Prop := d.isBinary = true ∧ ∃ b, d.data = toBase64 b

def TrafficEvent.readOn (t : ℕ) : TrafficEvent → Option TunnelMessage
  | .read u m => if u = t then some m else none
  | _ => none

def TrafficEvent.writtenTo (j : ℕ) : TrafficEvent → Bytes
  | .wrote k _ payload => if k = j then payload else []
  | _ => []

namespace Traffic

/-- The messages read on a connection, oldest first. -/
def reads (s : Traffic) (t : ℕ) : List TunnelMessage := s.log.reverse.filterMap (·.readOn t)

/-- The bytes written to a client. -/
def written (s : Traffic) (j : ℕ) : Bytes := s.log.reverse.flatMap (·.writtenTo j)

/-- The stream was announced on the connection. -/
def Announced (s : Traffic) (t : ℕ) (id : Bytes) : Prop := ∃ m ∈ s.outbox t, m.opens = some id

variable {now : ℕ} {T : Tunnels} {s s' : Traffic} {a : TrafficAction} {c c' : Clients}

theorem push_cases (outbox : ℕ → List TunnelMessage) (t : ℕ) (m : TunnelMessage) (w : WriteOutcome)
    (u : ℕ) :
    push outbox t m w u = outbox u ∧ (u = t → ∃ b, w = .failed b) ∨
      u = t ∧ push outbox t m w t = outbox t ++ [m] := by
  by_cases hu : u = t
  · subst hu
    cases w with
    | sent => exact .inr ⟨rfl, Function.update_self ..⟩
    | failed delivered =>
      cases delivered with
      | true => exact .inr ⟨rfl, Function.update_self ..⟩
      | false => exact .inl ⟨rfl, fun _ => ⟨false, rfl⟩⟩
  · refine .inl ⟨?_, fun h => absurd h hu⟩
    cases w with
    | sent => exact Function.update_of_ne hu ..
    | failed delivered =>
      cases delivered with
      | true => exact Function.update_of_ne hu ..
      | false => rfl

theorem dataOf_push {outbox : ℕ → List TunnelMessage} {t u : ℕ} {m : TunnelMessage}
    {w : WriteOutcome} {id : Bytes} (hm : m.chunk id = []) :
    dataOf id (push outbox t m w u) = dataOf id (outbox u) := by
  rcases push_cases outbox t m w u with ⟨ho, -⟩ | ⟨rfl, ho⟩
  · rw [ho]
  · rw [ho, dataOf_append, dataOf_singleton, hm, List.append_nil]

/-- What a read from the client leads to. -/
theorem streamRead_cases {j : ℕ} {chunk : Option Bytes}
    (h : s.step now T (.streamRead j chunk) = some s') :
    ∃ t id, s.upgrades j = some (.relaying t id) ∧
      (chunk = none ∧ s'.upgrades j = some (.ending t id) ∨
        ∃ b, chunk = some b ∧ s'.upgrades j = some (.sending t ⟨id, toBase64 b, true⟩)) := by
  simp only [step, streamRead] at h
  split at h
  · rename_i t id hj
    cases h
    exact ⟨t, id, hj, .inl ⟨rfl, Table.set_self⟩⟩
  · rename_i t id b hj
    split_ifs at h
    cases h
    exact ⟨t, id, hj, .inr ⟨b, rfl, Table.set_self⟩⟩
  · cases h

/-- What a thread does with the message it has waited to send. It goes on only after a write that
succeeded. -/
theorem streamSend_cases {j : ℕ} {w : WriteOutcome}
    (h : s.step now T (.streamSend j w) = some s') :
    (∃ t o, s.upgrades j = some (.registered t o) ∧ s'.outbox = push s.outbox t (.wsOpen o) w ∧
      (s'.upgrades j = some (.relaying t o.id) ∧ w = .sent ∨
        s'.upgrades j = some (.removing o.id))) ∨
    (∃ t d, s.upgrades j = some (.sending t d) ∧ s'.outbox = push s.outbox t (.wsData d) w ∧
      (s'.upgrades j = some (.relaying t d.id) ∧ w = .sent ∨
        s'.upgrades j = some (.removing d.id))) ∨
    ∃ t id, s.upgrades j = some (.ending t id) ∧
      s'.outbox = push s.outbox t (.wsClose { id }) w ∧ s'.upgrades j = some (.removing id) := by
  simp only [step, streamSend] at h
  split at h
  · rename_i t o hj
    cases h
    refine .inl ⟨t, o, hj, rfl, ?_⟩
    cases w with
    | sent => exact .inl ⟨Table.set_self, rfl⟩
    | failed delivered => exact .inr Table.set_self
  · rename_i t d hj
    cases h
    refine .inr (.inl ⟨t, d, hj, rfl, ?_⟩)
    cases w with
    | sent => exact .inl ⟨Table.set_self, rfl⟩
    | failed delivered => exact .inr Table.set_self
  · rename_i t id hj
    cases h
    exact .inr (.inr ⟨t, id, hj, rfl, Table.set_self⟩)
  · cases h

/-- A reader takes a message only when it is done with the one before. -/
theorem readers_of_read {t : ℕ} {m : TunnelMessage} (h : s.step now T (.read t m) = some s') :
    s.readers t = none := by
  simp only [step, read] at h
  split at h
  · rename_i hr
    exact hr
  · cases h

theorem reader_of_data {t : ℕ} {d : WsData} (h : s.step now T (.read t (.wsData d)) = some s')
    {j : ℕ} (hs : s.streams d.id = some j) : s'.readers t = some (.writing j d) := by
  simp only [step, read] at h
  split at h
  · rw [hs] at h
    cases h
    exact Table.set_self
  · cases h

/-- What streams rely on: an identifier belongs to one client and is announced at most once. -/
structure Announcing (s : Traffic) : Prop where
  valid : ∀ x o, s.owners x = some o → ValidUtf8 x
  begun : ∀ x j, s.owners x = some (.stream j) →
    ∃ thread, s.upgrades j = some thread ∧ thread.begun = true
  own : ∀ x y j, s.owners x = some (.stream j) → s.owners y = some (.stream j) → x = y
  pending : ∀ j t o, s.upgrades j = some (.registered t o) → ∀ u, ¬ s.Announced u o.id
  single : ∀ (t k t' k' : ℕ) m m' id, (s.outbox t)[k]? = some m → (s.outbox t')[k']? = some m' →
    m.opens = some id → m'.opens = some id → t = t' ∧ k = k'
  encoded : ∀ t d, .wsData d ∈ s.outbox t → Encoded d
  sending : ∀ j t d, s.upgrades j = some (.sending t d) → Encoded d

theorem Announcing.initial : Traffic.initial.Announcing := by
  refine ⟨nofun, nofun, nofun, nofun, ?_, nofun, nofun⟩
  rintro t k t' k' m m' id hm
  cases hm

theorem opens_id? {m : TunnelMessage} {id : Bytes} (h : m.opens = some id) : m.id? = some id := by
  obtain ⟨o, rfl, rfl⟩ := opens_eq_some.mp h
  rfl

/-- Announcements are messages about owned identifiers. -/
theorem Announced.owned (h : Owned T s) {t : ℕ} {id : Bytes} (ha : s.Announced t id) :
    ∃ o, s.owners id = some o := by
  obtain ⟨m, hm, hid⟩ := ha
  obtain ⟨o, fp, ho, -⟩ := h.outbox t m id hm (opens_id? hid)
  exact ⟨o, ho⟩

theorem Announced.mono (he : Effect now T s a s') {t : ℕ} {id : Bytes} (h : s.Announced t id) :
    s'.Announced t id := by
  obtain ⟨m, hm, hid⟩ := h
  exact ⟨m, he.outbox_mono hm, hid⟩

/-- What a step appends to a tunnel is about no stream, or is the message that the thread of a
stream waited to send. -/
theorem outbox_step (he : Effect now T s a s') (t : ℕ) :
    s'.outbox t = s.outbox t ∨ ∃ m, s'.outbox t = s.outbox t ++ [m] ∧
      (m.opens = none ∧ m.follows = none ∨ ∃ j w id,
        (s.upgrades j).bind StreamThread.sends = some (t, m, id) ∧ a = .streamSend j w) := by
  cases he with
  | sent i w u req thread hi ht =>
    rcases push_cases s.outbox u (.request req) w t with ⟨hp, -⟩ | ⟨rfl, hp⟩
    · exact .inl hp
    · exact .inr ⟨_, hp, .inl ⟨rfl, rfl⟩⟩
  | streamSent j w u m x thread hj ht =>
    rcases push_cases s.outbox u m w t with ⟨hp, -⟩ | ⟨rfl, hp⟩
    · exact .inl hp
    · exact .inr ⟨m, hp, .inr ⟨j, w, x, hj, rfl⟩⟩
  | ponged u written w ht =>
    rcases push_cases s.outbox u .pong w t with ⟨hp, -⟩ | ⟨rfl, hp⟩
    · exact .inl hp
    · exact .inr ⟨_, hp, .inl ⟨rfl, rfl⟩⟩
  | _ => exact .inl rfl

theorem outbox_grows (he : Effect now T s a s') (t : ℕ) : s.outbox t <+: s'.outbox t := by
  rcases outbox_step he t with ho | ⟨m, ho, -⟩
  · rw [ho]
  · rw [ho]
    exact List.prefix_append ..

/-- The thread that sends an announcement has registered its stream before. -/
theorem registered_of_opens {j t : ℕ} {m : TunnelMessage} {x id : Bytes}
    (hj : (s.upgrades j).bind StreamThread.sends = some (t, m, x)) (hm : m.opens = some id) :
    ∃ o, s.upgrades j = some (.registered t o) ∧ o.id = id := by
  obtain ⟨thread, hthread, hsends⟩ := Option.bind_eq_some_iff.mp hj
  cases thread with
  | registered u o =>
    cases hsends
    cases hm
    exact ⟨o, hthread, rfl⟩
  | _ =>
    cases hsends <;> cases hm

/-- A new announcement is the message that a thread waited to send. -/
theorem announced_step (he : Effect now T s a s') {t : ℕ} {id : Bytes} (h : s'.Announced t id) :
    s.Announced t id ∨ ∃ j o w, s.upgrades j = some (.registered t o) ∧ o.id = id ∧
      a = .streamSend j w := by
  obtain ⟨m, hm, hid⟩ := h
  rcases outbox_step he t with ho | ⟨m', ho, hm'⟩
  · exact .inl ⟨m, ho ▸ hm, hid⟩
  · rw [ho, List.mem_append, List.mem_singleton] at hm
    rcases hm with hm | rfl
    · exact .inl ⟨m, hm, hid⟩
    · rcases hm' with ⟨hn, -⟩ | ⟨j, w, x, hj, ha⟩
      · cases hn.symm.trans hid
      · obtain ⟨o, hj, ho⟩ := registered_of_opens hj hid
        exact .inr ⟨j, o, w, hj, ho, ha⟩

/-- A thread that has drawn its identifier does not go back. -/
theorem begun_step (he : Effect now T s a s') {j : ℕ} {thread : StreamThread}
    (hj : s.upgrades j = some thread) (hb : thread.begun = true) :
    ∃ thread', s'.upgrades j = some thread' ∧ thread'.begun = true := by
  have set : ∀ {k thread'}, thread'.begun = true → s'.upgrades = s.upgrades.set k thread' →
      ∃ thread', s'.upgrades j = some thread' ∧ thread'.begun = true := by
    intro k thread' hb' hu
    rw [hu]
    by_cases hk : j = k
    · exact ⟨thread', hk ▸ Table.set_self, hb'⟩
    · exact ⟨thread, (Table.set_of_ne hk).trans hj, hb⟩
  cases he with
  | streamBegun k r fp thread' hk ht =>
    exact ⟨thread, Table.set_frame_new hj hk, hb⟩
  | streamRefused k supported t r e hk => exact set rfl rfl
  | streamRegistered k random t r hk ho => exact set rfl rfl
  | streamRead k chunk t id thread' hk ht =>
    rcases ht with rfl | ⟨d, -, rfl⟩
    · exact set rfl rfl
    · exact set rfl rfl
  | streamSent k w t m id thread' hk ht =>
    rcases ht with rfl | rfl
    · exact set rfl rfl
    · exact set rfl rfl
  | streamRemoved k id thread' hk ht =>
    rcases ht with rfl | ⟨l, -, rfl⟩
    · exact set rfl rfl
    · exact set rfl rfl
  | streamClosed k l hk => exact set rfl rfl
  | _ => exact ⟨thread, hj, hb⟩

/-- A stream is newly owned only by the client that draws its identifier. -/
theorem owners_step (he : Effect now T s a s') {x : Bytes} {j : ℕ}
    (hx : s'.owners x = some (.stream j)) :
    s.owners x = some (.stream j) ∨ s.owners x = none ∧ ∃ t r, s.upgrades j = some (.building t r) ∧
      s'.upgrades j = some (.registered t (tunnelRequest x r)) ∧ s'.outbox = s.outbox ∧
      s'.log = s.log := by
  cases he with
  | registered i random t r hi ho => exact .inl (Table.of_set hx (by simp))
  | streamRegistered k random t r hk ho =>
    rcases Table.set_eq_some_iff.mp hx with ⟨rfl, he⟩ | ⟨-, hx⟩
    · cases he
      exact .inr ⟨ho, t, r, hk, Table.set_self, rfl, rfl⟩
    · exact .inl hx
  | _ => exact .inl hx

theorem Announcing.own_step (h : s.Announcing) (he : Effect now T s a s') {x y : Bytes} {j : ℕ}
    (hx : s'.owners x = some (.stream j)) (hy : s'.owners y = some (.stream j)) : x = y := by
  -- The client that draws an identifier has none so far.
  have new : ∀ {z t r}, s.upgrades j = some (.building t r) → s.owners z ≠ some (.stream j) := by
    intro z t r hj hz
    obtain ⟨thread, hj', hb⟩ := h.begun z j hz
    cases hj.symm.trans hj'
    cases hb
  rcases owners_step he hx with hx' | ⟨-, t, r, hj, hj', -⟩
  · rcases owners_step he hy with hy' | ⟨-, t, r, hj, -⟩
    · exact h.own x y j hx' hy'
    · exact absurd hx' (new hj)
  · rcases owners_step he hy with hy' | ⟨-, t', r', hj₂, hj₂', -⟩
    · exact absurd hy' (new hj)
    · cases hj.symm.trans hj₂
      have hsame := Option.some.inj (hj'.symm.trans hj₂')
      exact congrArg TunnelRequest.id (StreamThread.registered.inj hsame).2

/-- Threads about to announce a stream. -/
theorem registered_step (he : Effect now T s a s') {j t : ℕ} {o : WsOpen}
    (hj : s'.upgrades j = some (.registered t o)) :
    s.upgrades j = some (.registered t o) ∧ (∀ w, a ≠ .streamSend j w) ∨
      s.owners o.id = none ∧ s'.outbox = s.outbox := by
  have set : ∀ {k thread}, s.upgrades.set k thread j = some (.registered t o) →
      thread ≠ .registered t o → j ≠ k ∧ s.upgrades j = some (.registered t o) := by
    intro k thread hj hn
    rcases Table.set_eq_some_iff.mp hj with ⟨-, ht⟩ | hj
    · exact absurd ht hn
    · exact hj
  cases he with
  | streamBegun k r fp thread hk ht =>
    refine .inl ⟨(set hj ?_).2, nofun⟩
    rcases ht with rfl | ⟨u, -, rfl⟩
    · nofun
    · nofun
  | streamRefused k supported u r e hk => exact .inl ⟨(set hj nofun).2, nofun⟩
  | streamRegistered k random u r hk ho =>
    rcases Table.set_eq_some_iff.mp hj with ⟨-, ht⟩ | ⟨-, hj⟩
    · cases ht
      exact .inr ⟨ho, rfl⟩
    · exact .inl ⟨hj, nofun⟩
  | streamRead k chunk u id thread hk ht =>
    refine .inl ⟨(set hj ?_).2, nofun⟩
    rcases ht with rfl | ⟨d, -, rfl⟩
    · nofun
    · nofun
  | streamSent k w u m id thread hk ht =>
    have hset := set hj (by rcases ht with rfl | rfl <;> nofun)
    refine .inl ⟨hset.2, ?_⟩
    rintro w' ⟨⟩
    exact hset.1 rfl
  | streamRemoved k id thread hk ht =>
    refine .inl ⟨(set hj ?_).2, nofun⟩
    rcases ht with rfl | ⟨l, -, rfl⟩
    · nofun
    · nofun
  | streamClosed k l hk => exact .inl ⟨(set hj nofun).2, nofun⟩
  | _ => exact .inl ⟨hj, nofun⟩

theorem Announcing.pending_step (h : s.Announcing) (hO : Owned T s) (he : Effect now T s a s')
    {j t u : ℕ} {o : WsOpen} (hj : s'.upgrades j = some (.registered t o)) :
    ¬ s'.Announced u o.id := by
  intro ha
  rcases registered_step he hj with ⟨hj, hn⟩ | ⟨hfree, hout⟩
  · rcases announced_step he ha with ha | ⟨k, o', w, hk, hid, rfl⟩
    · exact h.pending j t o hj u ha
    · -- Both threads own the identifier.
      have hoj := hO.ids j o.id (by rw [hj]; rfl)
      have hok := hO.ids k o'.id (by rw [hk]; rfl)
      rw [hid] at hok
      cases hoj.symm.trans hok
      exact hn w rfl
  · obtain ⟨m, hm, hid⟩ := ha
    rw [hout] at hm
    obtain ⟨o', ho'⟩ := Announced.owned hO ⟨m, hm, hid⟩
    cases hfree.symm.trans ho'

theorem Announcing.single_step (h : s.Announcing) (he : Effect now T s a s') {t k t' k' : ℕ}
    {m m' : TunnelMessage} {id : Bytes} (hm : (s'.outbox t)[k]? = some m)
    (hm' : (s'.outbox t')[k']? = some m') (hid : m.opens = some id) (hid' : m'.opens = some id) :
    t = t' ∧ k = k' := by
  -- A position of the announcement is an old one or the one just added.
  have cases_of : ∀ {u n : ℕ} {m}, (s'.outbox u)[n]? = some m → m.opens = some id →
      (s.outbox u)[n]? = some m ∨ n = (s.outbox u).length ∧ ∃ j o w,
        s.upgrades j = some (.registered u o) ∧ o.id = id ∧ a = .streamSend j w := by
    intro u n m hm hid
    rcases outbox_step he u with ho | ⟨m₁, ho, hm₁⟩
    · exact .inl (ho ▸ hm)
    · rw [ho, List.getElem?_append] at hm
      split_ifs at hm with hlt
      · exact .inl hm
      · rw [List.getElem?_singleton] at hm
        split_ifs at hm with hn
        cases hm
        rcases hm₁ with ⟨hnone, -⟩ | ⟨j, w, x, hj, ha⟩
        · cases hnone.symm.trans hid
        · obtain ⟨o, hj, ho⟩ := registered_of_opens hj hid
          exact .inr ⟨by omega, j, o, w, hj, ho, ha⟩
  have announced : ∀ {u n : ℕ} {m}, (s.outbox u)[n]? = some m → m.opens = some id →
      s.Announced u id :=
    fun hm hid => ⟨_, List.mem_of_getElem? hm, hid⟩
  rcases cases_of hm hid with hold | ⟨hk, j, o, w, hj, ho, ha⟩
  · rcases cases_of hm' hid' with hold' | ⟨-, j, o, w, hj, ho, -⟩
    · exact h.single t k t' k' m m' id hold hold' hid hid'
    · exact absurd (announced hold hid) (ho ▸ h.pending j t' o hj t)
  · rcases cases_of hm' hid' with hold' | ⟨hk', j', o', w', hj', ho', ha'⟩
    · exact absurd (announced hold' hid') (ho ▸ h.pending j t o hj t')
    · cases ha.symm.trans ha'
      cases hj.symm.trans hj'
      exact ⟨rfl, hk.trans hk'.symm⟩

theorem Announcing.encoded_step (h : s.Announcing) (he : Effect now T s a s') {t : ℕ} {d : WsData}
    (hd : .wsData d ∈ s'.outbox t) : Encoded d := by
  have old : ∀ {u m w}, .wsData d ∈ push s.outbox u m w t → m ≠ .wsData d → Encoded d := by
    intro u m w hd hm
    rcases mem_push hd with hd | ⟨-, hd⟩
    · exact h.encoded t d hd
    · exact absurd hd.symm hm
  cases he with
  | sent i w u req thread hi ht => exact old hd nofun
  | streamSent j w u m x thread hj ht =>
    obtain ⟨thread₀, hk, hs⟩ := Option.bind_eq_some_iff.mp hj
    rcases mem_push hd with hd | ⟨-, rfl⟩
    · exact h.encoded t d hd
    · cases thread₀ with
      | sending v d' =>
        cases hs
        exact h.sending j u d hk
      | _ => cases hs
  | ponged u written w ht => exact old hd nofun
  | _ => exact h.encoded t d hd

theorem Announcing.sending_step (h : s.Announcing) (hs : s.step now T a = some s') {j t : ℕ}
    {d : WsData} (hj : s'.upgrades j = some (.sending t d)) : Encoded d := by
  have set : ∀ {k thread}, s.upgrades.set k thread j = some (.sending t d) →
      (∀ u d, thread ≠ .sending u d) → Encoded d := by
    intro k thread hj hn
    exact h.sending j t d (Table.of_set hj (hn t d))
  cases step_effect hs with
  | streamBegun k r fp thread hk ht =>
    apply set hj
    rcases ht with rfl | ⟨u, -, rfl⟩
    · nofun
    · nofun
  | streamRefused k supported u r e hk => exact set hj nofun
  | streamRegistered k random u r hk ho => exact set hj nofun
  | streamRead k chunk u id thread hk ht =>
    rcases Table.set_eq_some_iff.mp hj with ⟨rfl, rfl⟩ | ⟨-, hj⟩
    · obtain ⟨v, x, -, ⟨-, hend⟩ | ⟨b, -, hsend⟩⟩ := streamRead_cases hs
      · cases Table.set_self.symm.trans hend
      · cases Table.set_self.symm.trans hsend
        exact ⟨rfl, b, rfl⟩
    · exact h.sending j t d hj
  | streamSent k w u m id thread hk ht =>
    apply set hj
    rcases ht with rfl | rfl
    · nofun
    · nofun
  | streamRemoved k id thread hk ht =>
    apply set hj
    rcases ht with rfl | ⟨l, -, rfl⟩
    · nofun
    · nofun
  | streamClosed k l hk => exact set hj nofun
  | _ => exact h.sending j t d hj

theorem Announcing.step (h : s.Announcing) (hO : Owned T s) (hs : s.step now T a = some s') :
    s'.Announcing := by
  have he := step_effect hs
  constructor
  · intro x o hx
    exact he.validUtf8 h.valid hx
  · intro x j hx
    rcases owners_step he hx with hx | ⟨-, t, r, -, hj, -⟩
    · obtain ⟨thread, hj, hb⟩ := h.begun x j hx
      exact begun_step he hj hb
    · exact ⟨_, hj, rfl⟩
  · intro x y j hx hy
    exact h.own_step he hx hy
  · intro j t o hj u
    exact h.pending_step hO he hj
  · intro t k t' k' m m' id hm hm' hid hid'
    exact h.single_step he hm hm' hid hid'
  · intro t d hd
    exact h.encoded_step he hd
  · intro j t d hj
    exact h.sending_step hs hj

/-- A stream is announced on one connection only. -/
theorem Announcing.unique (h : s.Announcing) {t u : ℕ} {id : Bytes} (ha : s.Announced t id)
    (ha' : s.Announced u id) : u = t := by
  obtain ⟨m, hm, hid⟩ := ha
  obtain ⟨m', hm', hid'⟩ := ha'
  obtain ⟨k, hk⟩ := List.mem_iff_getElem?.mp hm
  obtain ⟨k', hk'⟩ := List.mem_iff_getElem?.mp hm'
  exact (h.single u k' t k m' m id hk' hk hid' hid).1

/-- A stream is announced before anything else is sent about it. -/
structure Preceded (s : Traffic) : Prop where
  threads : ∀ j t id, (s.upgrades j).bind StreamThread.announced = some (t, id) → s.Announced t id
  messages : ∀ (t n : ℕ) m id, (s.outbox t)[n]? = some m → m.follows = some id →
    ∃ m' ∈ (s.outbox t).take n, m'.opens = some id

theorem Preceded.initial : Traffic.initial.Preceded := by
  refine ⟨nofun, ?_⟩
  rintro t n m id hm
  cases hm

theorem announced_of_follows {j t : ℕ} {m : TunnelMessage} {x id : Bytes}
    (hj : (s.upgrades j).bind StreamThread.sends = some (t, m, x)) (hm : m.follows = some id) :
    (s.upgrades j).bind StreamThread.announced = some (t, id) := by
  obtain ⟨thread, hthread, hsends⟩ := Option.bind_eq_some_iff.mp hj
  rw [hthread]
  cases thread with
  | registered u o =>
    cases hsends
    cases hm
  | _ =>
    cases hsends <;> cases hm <;> rfl

/-- The thread of a stream goes on after a message that got to the other end. -/
theorem Preceded.send_step (h : s.Preceded) {j t : ℕ} {w : WriteOutcome} {id : Bytes}
    (hs : s.step now T (.streamSend j w) = some s')
    (hj : (s'.upgrades j).bind StreamThread.announced = some (t, id)) : s'.Announced t id := by
  have he := step_effect hs
  rcases streamSend_cases hs with ⟨u, o, -, hout, hj'⟩ | ⟨u, d, hj₀, hout, hj'⟩ | ⟨u, x, -, -, hj'⟩
  · rcases hj' with ⟨hj', rfl⟩ | hj'
    · rw [hj'] at hj
      cases hj
      refine ⟨.wsOpen o, ?_, rfl⟩
      have hpush : push s.outbox t (.wsOpen o) .sent t = s.outbox t ++ [.wsOpen o] :=
        Function.update_self ..
      rw [hout, hpush]
      exact List.mem_concat_self
    · rw [hj'] at hj
      cases hj
  · rcases hj' with ⟨hj', -⟩ | hj'
    · rw [hj'] at hj
      cases hj
      exact (h.threads j t d.id (by rw [hj₀]; rfl)).mono he
    · rw [hj'] at hj
      cases hj
  · rw [hj'] at hj
    cases hj

theorem Preceded.threads_step (h : s.Preceded) (hs : s.step now T a = some s') {j t : ℕ}
    {id : Bytes} (hj : (s'.upgrades j).bind StreamThread.announced = some (t, id)) :
    s'.Announced t id := by
  have he := step_effect hs
  have old : (s.upgrades j).bind StreamThread.announced = some (t, id) → s'.Announced t id :=
    fun hj => (h.threads j t id hj).mono he
  -- A thread that has not announced its stream, or has done so before.
  have set : ∀ {k thread}, s'.upgrades = s.upgrades.set k thread →
      (thread.announced = none ∨
        thread.announced = (s.upgrades k).bind StreamThread.announced) → s'.Announced t id := by
    intro k thread hu hth
    rw [hu] at hj
    rcases Table.bind_set_eq_some hj with ⟨rfl, hj'⟩ | ⟨-, hj'⟩
    · rcases hth with hth | hth
      · cases hth.symm.trans hj'
      · exact old (hth.symm.trans hj')
    · exact old hj'
  cases he with
  | streamBegun k r fp thread hk ht =>
    refine set rfl (.inl ?_)
    rcases ht with rfl | ⟨u, -, rfl⟩ <;> rfl
  | streamRefused k supported u r e hk => exact set rfl (.inl rfl)
  | streamRegistered k random u r hk ho => exact set rfl (.inl rfl)
  | streamRead k chunk u x thread hk ht =>
    refine set rfl (.inr ?_)
    rw [hk]
    rcases ht with rfl | ⟨d, rfl, rfl⟩ <;> rfl
  | streamSent k w u m x thread hk ht =>
    by_cases hjk : j = k
    · subst hjk
      exact h.send_step hs hj
    · exact old ((congrArg (·.bind StreamThread.announced) (Table.set_of_ne hjk)).symm.trans hj)
  | streamRemoved k x thread hk ht =>
    refine set rfl (.inl ?_)
    rcases ht with rfl | ⟨l, -, rfl⟩ <;> rfl
  | streamClosed k l hk => exact set rfl (.inl rfl)
  | _ => exact old hj

theorem Preceded.step (h : s.Preceded) (hs : s.step now T a = some s') : s'.Preceded := by
  constructor
  · intro j t id hj
    exact h.threads_step hs hj
  · intro t n m id hm hf
    rcases outbox_step (step_effect hs) t with ho | ⟨m₁, ho, hm₁⟩
    · rw [ho] at hm ⊢
      exact h.messages t n m id hm hf
    · rw [ho, List.getElem?_append] at hm
      rw [ho]
      split_ifs at hm with hlt
      · rw [List.take_append_of_le_length hlt.le]
        exact h.messages t n m id hm hf
      · -- The message has just been sent, by a thread that is past its announcement.
        rw [List.getElem?_singleton] at hm
        split_ifs at hm with hn
        cases hm
        rcases hm₁ with ⟨-, hnone⟩ | ⟨j, w, x, hj, -⟩
        · cases hnone.symm.trans hf
        · obtain ⟨m', hm', hid⟩ := h.threads j t id (announced_of_follows hj hf)
          have hlen : n = (s.outbox t).length := by omega
          rw [hlen, List.take_left]
          exact ⟨m', hm', hid⟩

end Traffic

namespace Clients

variable {s : Traffic} {c c' : Clients} {a : TrafficAction}

/-- Sockets do not recover. -/
theorem broken_mono (h : c.step s a = some c') {j : ℕ} (hj : c'.broken j = false) :
    c.broken j = false := by
  unfold step at h
  split at h
  · cases h
    exact hj
  · split at h
    · rename_i k d hk
      split_ifs at h
      cases h
      by_cases hjk : j = k
      · subst hjk
        simp only [Function.update_self, Bool.or_eq_false_iff] at hj
        exact hj.1
      · simpa only [Function.update_of_ne hjk] using hj
    · cases h
      exact hj
  · cases h
    exact hj

/-- Only the thread of a client reads from it. -/
theorem read_step (h : c.step s a = some c') {j : ℕ} (ha : ∀ b, a ≠ .streamRead j (some b)) :
    c'.read j = c.read j := by
  unfold step at h
  split at h
  · rename_i k b
    cases h
    refine Function.update_of_ne ?_ ..
    rintro rfl
    exact ha b rfl
  · split at h
    · split_ifs at h
      cases h
      rfl
    · cases h
      rfl
  · cases h
    rfl

theorem read_own {j : ℕ} {b : Bytes} (h : c.step s (.streamRead j (some b)) = some c') :
    c'.read j = c.read j ++ b := by
  cases h
  exact Function.update_self ..

/-- A write that stops short breaks the socket, and a broken socket takes nothing. -/
theorem step_writing {t n j : ℕ} {w : WriteOutcome} {d : WsData}
    (h : c.step s (.readerFinish t n w) = some c') (ht : s.readers t = some (.writing j d)) :
    (c.broken j = true → n = 0) ∧ (n < (fromBase64 d.data).length → c'.broken j = true) := by
  simp only [step, ht] at h
  split_ifs at h with hb
  cases h
  constructor
  · intro hj
    by_contra hn
    exact hb ⟨hj, hn⟩
  · intro hn
    simp only [Function.update_self, decide_eq_true hn, Bool.or_true]

end Clients

end HeadFwd.Relay
