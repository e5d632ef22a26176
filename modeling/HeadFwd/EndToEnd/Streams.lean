import HeadFwd.Relay.Inbound
import HeadFwd.Relay.Outbound
import HeadFwd.Sidecar.Inbound
import HeadFwd.Sidecar.Outbound

/-! # Streams between clients and Headscale

The relay, its hijacked clients, and the sidecar processes at the other ends of its
connections. A connection delivers messages in order; how far it has come is seen
from what the other end has read. A stream passes four stages in either direction,
and each of them keeps its bytes in order.
-/

namespace HeadFwd.EndToEnd

open Text Net Crypto Transition Tunnel Relay Sidecar

/-- The relay with the sockets of its clients and the sidecar processes. `buffered` has, for every
hijacked client, the bytes that the HTTP server had read beyond the request. -/
structure Mesh where
  server : Server
  clients : Clients
  buffered : ℕ → Bytes
  sidecars : ℕ → Process

def Mesh.initial : Mesh where
  server := .initial
  clients := .initial
  buffered := fun _ => []
  sidecars := fun _ => .initial

/-- A step of the relay other than those that follow; a client is hijacked and its stream put into
the map; the relay reads the next message on a connection; the sidecar of a connection takes the
next one; a step of a sidecar of its own. -/
inductive MeshAction where
  | relay (a : Action)
  | hijack (j : ℕ) (random buffered : Bytes)
  | hear (t : ℕ)
  | take (t : ℕ)
  | sidecar (p : ℕ) (a : ProcessAction)

/-- A stream is put into the map. -/
def registers : Action → Bool
  | .traffic (.streamRegister _ _) => true
  | _ => false

def receives : ProcessAction → Bool
  | .receive _ _ => true
  | _ => false

/-- What a step of the relay does to the sockets of the clients. -/
def moveClients (c : Clients) (s : Server) : Action → Option Clients
  | .traffic b => c.step s.traffic b
  | _ => some c

namespace Mesh

section Step

variable (P : Primitives) (env : Environment) (cfg : ℕ → Settings) (process : ℕ → ℕ)

/-- The bytes that a client has sent after its request, as far as the relay has them. The HTTP
server reads some of them before the connection is hijacked. -/
def sent (s : Mesh) (j : ℕ) : Bytes := s.buffered j ++ s.clients.read j

def stepRelay (now : ℕ) (s : Mesh) (a : Action) : Option Mesh :=
  match s.server.step P env now a, moveClients s.clients s.server a with
  | some server, some clients => some { s with server, clients }
  | _, _ => none

def stepSidecar (s : Mesh) (p : ℕ) (a : ProcessAction) : Option Mesh :=
  ((s.sidecars p).step (cfg p) a).map fun sidecar =>
    { s with sidecars := Function.update s.sidecars p sidecar }

/-- The message that the sidecar of a connection takes next. -/
def next (s : Mesh) (t : ℕ) : Option TunnelMessage :=
  (s.server.traffic.outbox t)[((s.sidecars (process t)).received t).length]?

/-- The message that the relay reads next on a connection. -/
def answer (s : Mesh) (t : ℕ) : Option TunnelMessage :=
  ((s.sidecars (process t)).outbox t)[(s.server.traffic.reads t).length]?

/-- `process` is the process that dialled a connection. -/
def step (now : ℕ) (s : Mesh) : MeshAction → Option Mesh
  | .relay a => if a.reads || registers a then none else s.stepRelay P env now a
  | .hijack j random buffered =>
    (s.stepRelay P env now (.traffic (.streamRegister j random))).map fun s' =>
      { s' with buffered := Function.update s.buffered j buffered }
  | .hear t =>
    match s.answer process t with
    | some m => s.stepRelay P env now (.traffic (.read t m.wire))
    | none => none
  | .take t =>
    match s.next process t with
    | some m => s.stepSidecar cfg (process t) (.receive t m.wire)
    | none => none
  | .sidecar p a => if receives a then none else s.stepSidecar cfg p a

/-- What a step does to the relay, its clients and the sidecars. -/
inductive Effect (now : ℕ) (s : Mesh) : MeshAction → Mesh → Prop where
  | relayed {a : MeshAction} (b : Action) (server : Server) (clients : Clients)
    (buffered : ℕ → Bytes) (hs : s.server.step P env now b = some server)
    (hc : moveClients s.clients s.server b = some clients)
    (hb : b.reads = false ∨ ∃ t m, s.answer process t = some m ∧ b = .traffic (.read t m.wire))
    (hu : buffered = s.buffered ∨
      ∃ j random bytes, a = .hijack j random bytes ∧
        buffered = Function.update s.buffered j bytes) :
    Effect now s a { s with server, clients, buffered }
  | moved {a : MeshAction} (p : ℕ) (b : ProcessAction) (sidecar : Process)
    (hs : (s.sidecars p).step (cfg p) b = some sidecar)
    (hb : receives b = false ∨
      ∃ t m, a = .take t ∧ p = process t ∧ s.next process t = some m ∧ b = .receive t m.wire) :
    Effect now s a { s with sidecars := Function.update s.sidecars p sidecar }

end Step

variable {P : Primitives} {env : Environment} {cfg : ℕ → Settings} {process : ℕ → ℕ} {now : ℕ}
  {s s' : Mesh} {a : MeshAction}

theorem stepRelay_cases {b : Action} (h : s.stepRelay P env now b = some s') :
    ∃ server clients, s.server.step P env now b = some server ∧
      moveClients s.clients s.server b = some clients ∧ s' = { s with server, clients } := by
  unfold stepRelay at h
  split at h
  · rename_i server clients hs hc
    cases h
    exact ⟨server, clients, hs, hc, rfl⟩
  · cases h

theorem step_effect (h : s.step P env cfg process now a = some s') :
    Effect P env cfg process now s a s' := by
  cases a with
  | relay b =>
    simp only [step] at h
    split_ifs at h with hb
    rw [Bool.or_eq_true, not_or, Bool.not_eq_true] at hb
    obtain ⟨server, clients, hs, hc, rfl⟩ := stepRelay_cases h
    exact .relayed b server clients s.buffered hs hc (.inl hb.1) (.inl rfl)
  | hijack j random buffered =>
    obtain ⟨u, hu, rfl⟩ := Option.map_eq_some_iff.mp h
    obtain ⟨server, clients, hs, hc, rfl⟩ := stepRelay_cases hu
    exact .relayed _ server clients _ hs hc (.inl rfl) (.inr ⟨j, random, buffered, rfl, rfl⟩)
  | hear t =>
    simp only [step] at h
    split at h
    · rename_i m hm
      obtain ⟨server, clients, hs, hc, rfl⟩ := stepRelay_cases h
      exact .relayed _ server clients s.buffered hs hc (.inr ⟨t, m, hm, rfl⟩) (.inl rfl)
    · cases h
  | take t =>
    simp only [step] at h
    split at h
    · rename_i m hm
      obtain ⟨sidecar, hs, rfl⟩ := Option.map_eq_some_iff.mp h
      exact .moved _ _ sidecar hs (.inr ⟨t, m, rfl, rfl, hm, rfl⟩)
    · cases h
  | sidecar p b =>
    simp only [step] at h
    split_ifs at h with hb
    obtain ⟨sidecar, hs, rfl⟩ := Option.map_eq_some_iff.mp h
    exact .moved p b sidecar hs (.inl (eq_false_of_ne_true hb))

/-- What holds of the relay and its clients. -/
structure Streaming (P : Primitives) (c : Clients) (s : Server) : Prop where
  authentic : s.Authentic P
  correlated : s.traffic.Correlated
  owned : s.traffic.Owned s.tunnels
  announcing : s.traffic.Announcing
  preceded : s.traffic.Preceded
  outbound : s.traffic.Outbound c
  inbound : s.traffic.Inbound c

theorem Streaming.initial : Streaming P .initial .initial :=
  ⟨.initial, .initial, .initial, .initial, .initial, .initial, .initial⟩

/-- Data is read about streams on the connections where they were announced. -/
theorem Streaming.step {c c' : Clients} {server server' : Server} {b : Action}
    (h : Streaming P c server) (hs : server.step P env now b = some server')
    (hc : moveClients c server b = some c')
    (hb : ∀ x, b = .traffic x → server.traffic.Answerable x) : Streaming P c' server' := by
  have ha := h.authentic.step hs
  rcases Server.step_cases hs with ⟨x, r, rfl, -, rfl⟩ | ⟨x, t, rfl, -, ht, rfl⟩ | ⟨x, y, rfl, hx, rfl⟩
  · cases hc
    exact ⟨ha, h.correlated, h.owned, h.announcing, h.preceded, h.outbound, h.inbound⟩
  · cases hc
    have hT := OnTunnel.step h.authentic.ordered (Tunnels.step_effect ht)
    exact ⟨ha, h.correlated, h.owned.mono hT, h.announcing, h.preceded, h.outbound, h.inbound⟩
  · have he := Traffic.step_effect hx
    constructor
    · exact ha
    · exact h.correlated.step he
    · exact h.owned.step h.authentic.ordered h.correlated.identified he
    · exact h.announcing.step h.owned hx
    · exact h.preceded.step hx
    · exact h.outbound.step h.announcing h.owned (hb x rfl) hx hc
    · exact h.inbound.step h.announcing h.owned hx hc

/-- Identifiers travel unchanged. -/
theorem Streaming.valid {c : Clients} {server : Server} (h : Streaming P c server) {t : ℕ}
    {m : TunnelMessage} {id : Bytes} (hm : m ∈ server.traffic.outbox t) (hid : m.id? = some id) :
    ValidUtf8 id := by
  obtain ⟨o, fp, ho, -⟩ := h.owned.outbox t m id hm hid
  exact h.announcing.valid id o ho

/-- The connections deliver in order, to the process that dialled them. -/
structure Delivered (process : ℕ → ℕ) (s : Mesh) : Prop where
  apart : ∀ p t, p ≠ process t → (s.sidecars p).received t = []
  taken : ∀ t, Conveyed TunnelMessage.wire (s.server.traffic.outbox t)
    ((s.sidecars (process t)).received t)
  heard : ∀ t, Conveyed TunnelMessage.wire ((s.sidecars (process t)).outbox t)
    (s.server.traffic.reads t)

theorem Delivered.initial : Mesh.initial.Delivered process :=
  ⟨fun _ _ _ => rfl, fun _ => .nil, fun _ => .nil⟩

/-- A step of the relay: it sends more, and reads at most the next answer on one connection. -/
theorem Delivered.relay_step (h : s.Delivered process) {b : Action} {server : Server}
    {clients : Clients} {buffered : ℕ → Bytes} (hs : s.server.step P env now b = some server)
    (hb : b.reads = false ∨ ∃ t m, s.answer process t = some m ∧ b = .traffic (.read t m.wire)) :
    Delivered process { s with server, clients, buffered } := by
  rcases Server.step_traffic hs with ⟨ht, -⟩ | ⟨x, rfl, he⟩
  · constructor
    · exact h.apart
    · simp only [ht]
      exact h.taken
    · simp only [ht]
      exact h.heard
  · constructor
    · exact h.apart
    · intro t
      exact (h.taken t).put (Traffic.outbox_grows he t)
    · intro t
      rcases Traffic.reads_step he t with hr | ⟨m, rfl, hr⟩
      · simp only [hr]
        exact h.heard t
      · rcases hb with hb | ⟨u, m', hm', hb⟩
        · cases hb
        · cases hb
          simp only [hr]
          exact (h.heard t).next hm'

/-- A step of a sidecar: it sends more, and takes at most the next message on one of its
connections. -/
theorem Delivered.sidecar_step (h : s.Delivered process) {p : ℕ} {b : ProcessAction}
    {sidecar : Process} (he : Process.Effect (s.sidecars p) b sidecar)
    (hb : receives b = false ∨
      ∃ t m, p = process t ∧ s.next process t = some m ∧ b = .receive t m.wire) :
    Delivered process { s with sidecars := Function.update s.sidecars p sidecar } := by
  constructor
  · refine (Function.forall_update_iff s.sidecars
      fun q x => ∀ t, q ≠ process t → x.received t = []).mpr ⟨?_, fun q _ => h.apart q⟩
    intro t hp
    rcases Process.received_step he with ⟨u, m, rfl, hr⟩ | hr
    · rcases hb with hb | ⟨v, m', rfl, -, hv⟩
      · cases hb
      · cases hv
        rw [hr, Process.push, Function.update_of_ne]
        · exact h.apart _ t hp
        · rintro rfl
          exact hp rfl
    · rw [hr]
      exact h.apart p t hp
  · intro t
    by_cases hp : process t = p
    · subst hp
      simp only [Function.update_self]
      rcases Process.received_step he with ⟨u, m, rfl, hr⟩ | hr
      · rcases hb with hb | ⟨v, m', -, hm', hv⟩
        · cases hb
        · cases hv
          rw [hr, Process.push]
          by_cases htu : t = u
          · subst htu
            rw [Function.update_self]
            exact (h.taken t).next hm'
          · rw [Function.update_of_ne htu]
            exact h.taken t
      · rw [hr]
        exact h.taken t
    · simp only [Function.update_of_ne hp]
      exact h.taken t
  · intro t
    by_cases hp : process t = p
    · subst hp
      simp only [Function.update_self]
      exact (h.heard t).put (Process.outbox_grows he t)
    · simp only [Function.update_of_ne hp]
      exact h.heard t

/-- A goroutine was started for an announcement of the relay. -/
theorem announced_of_opened (hst : Streaming P s.clients s.server) (h : s.Delivered process) {p : ℕ}
    {k : Task} {id : Bytes} (ho : (s.sidecars p).Opened k id) :
    p = process k.1 ∧ ∃ m, (s.server.traffic.outbox k.1)[k.2]? = some m ∧ m.opens = some id := by
  obtain ⟨m', hm', hid⟩ := ho
  have hp : p = process k.1 := by
    by_contra hne
    rw [h.apart p k.1 hne] at hm'
    cases hm'
  subst hp
  obtain ⟨m, hm, rfl⟩ := (h.taken k.1).source hm'
  refine ⟨rfl, m, hm, ?_⟩
  rw [← hid]
  refine (opens_wire ?_).symm
  rintro o rfl
  exact hst.valid (List.mem_of_getElem? hm) rfl

/-- All goroutines of a stream are one. -/
theorem opened_unique (hst : Streaming P s.clients s.server) (h : s.Delivered process) {p q : ℕ}
    {k l : Task} {id : Bytes} (hk : (s.sidecars p).Opened k id) (hl : (s.sidecars q).Opened l id) :
    p = q ∧ k = l := by
  obtain ⟨rfl, m, hm, hid⟩ := announced_of_opened hst h hk
  obtain ⟨rfl, m', hm', hid'⟩ := announced_of_opened hst h hl
  obtain ⟨h₁, h₂⟩ := hst.announcing.single k.1 k.2 l.1 l.2 m m' id hm hm' hid hid'
  exact ⟨congrArg process h₁, Prod.ext h₁ h₂⟩

theorem distinct (hst : Streaming P s.clients s.server) (h : s.Delivered process) (p : ℕ) :
    (s.sidecars p).Distinct :=
  fun _ _ _ ho ho' => (opened_unique hst h ho ho').2

/-- What holds in every state. -/
structure Wired (P : Primitives) (process : ℕ → ℕ) (s : Mesh) : Prop where
  streaming : Streaming P s.clients s.server
  delivered : s.Delivered process
  rooted : ∀ p, (s.sidecars p).Rooted
  outbound : ∀ p, (s.sidecars p).Outbound

theorem Wired.initial : Mesh.initial.Wired P process :=
  ⟨.initial, .initial, fun _ => .initial, fun _ => .initial⟩

/-- A sidecar sends data about streams that were announced on the connection. -/
theorem Wired.sent (h : s.Wired P process) {t : ℕ} {d : WsData}
    (hd : .wsData d ∈ (s.sidecars (process t)).outbox t) :
    ValidUtf8 d.id ∧ ValidUtf8 d.data ∧ s.server.traffic.Announced t d.id := by
  obtain ⟨⟨k, ho⟩, hv⟩ := (h.rooted (process t)).sent t d hd
  obtain ⟨-, m, hm, hid⟩ := announced_of_opened h.streaming h.delivered ho
  have hmem := List.mem_of_getElem? hm
  exact ⟨h.streaming.valid hmem (Traffic.opens_id? hid), hv, m, hmem, hid⟩

theorem Wired.answerable (h : s.Wired P process) {b : Action}
    (hb : b.reads = false ∨ ∃ t m, s.answer process t = some m ∧ b = .traffic (.read t m.wire))
    (x : TrafficAction) (hx : b = .traffic x) : s.server.traffic.Answerable x := by
  subst hx
  rcases hb with hb | ⟨t, m, hm, hb⟩
  · cases x with
    | read t m => cases hb
    | _ => trivial
  · cases hb
    cases m with
    | wsData d =>
      obtain ⟨hid, -, ha⟩ := h.sent (List.mem_of_getElem? hm)
      change s.server.traffic.Announced t (sanitize d.id)
      rwa [show sanitize d.id = d.id from hid]
    | _ => trivial

theorem Wired.step (h : s.Wired P process) (hs : s.step P env cfg process now a = some s') :
    s'.Wired P process := by
  cases step_effect hs with
  | relayed b server clients buffered hb hc hread hu =>
    exact ⟨h.streaming.step hb hc (h.answerable hread), h.delivered.relay_step hb hread, h.rooted,
      h.outbound⟩
  | moved p b sidecar hb hread =>
    have he := Process.step_effect hb
    have hdel := h.delivered.sidecar_step he
      (hread.imp_right fun ⟨t, m, _, hm⟩ => ⟨t, m, hm⟩)
    have hdistinct : sidecar.Distinct := by
      simpa only [Function.update_self] using
        distinct (s := { s with sidecars := Function.update s.sidecars p sidecar }) h.streaming hdel p
    refine ⟨h.streaming, hdel, ?_, ?_⟩
    · exact (Function.forall_update_iff s.sidecars fun _ x => x.Rooted).mpr
        ⟨(h.rooted p).step he, fun q _ => h.rooted q⟩
    · exact (Function.forall_update_iff s.sidecars fun _ x => x.Outbound).mpr
        ⟨(h.outbound p).step (h.rooted p) hdistinct he, fun q _ => h.outbound q⟩

/-- The client's stream is the one that the goroutine of a sidecar was started for. -/
def Carries (s : Mesh) (j : ℕ) (id : Bytes) (p : ℕ) (h : Task) : Prop :=
  s.server.traffic.owners id = some (.stream j) ∧ (s.sidecars p).Opened h id

/-- A client has one stream, a stream one goroutine, and a goroutine one client. -/
theorem Wired.carries_iff (h : s.Wired P process) {j j' p p' : ℕ} {id id' : Bytes} {k k' : Task}
    (hc : s.Carries j id p k) (hc' : s.Carries j' id' p' k') : j' = j ↔ p' = p ∧ k' = k := by
  constructor
  · rintro rfl
    obtain rfl := h.streaming.announcing.own id id' j' hc.1 hc'.1
    exact opened_unique h.streaming h.delivered hc'.2 hc.2
  · rintro ⟨rfl, rfl⟩
    obtain rfl := hc'.2.eq hc.2
    cases hc.1.symm.trans hc'.1
    rfl

/-- What the relay has read for a stream was read from Headscale's connection for it. -/
theorem Wired.reads_ordered (h : s.Wired P process) {p : ℕ} {k : Task} {id : Bytes}
    (ho : (s.sidecars p).Opened k id) :
    dataOf id (s.server.traffic.reads k.1) <+: ((s.sidecars p).links k).read := by
  obtain ⟨rfl, -⟩ := announced_of_opened h.streaming h.delivered ho
  have hheard := dataOf_conveyed id (h.delivered.heard k.1)
    fun d hd => ⟨(h.sent hd).1, (h.sent hd).2.1⟩
  exact hheard.trans (h.outbound _ k id ho).ordered

/-- A client gets a first part of what was read from Headscale for its stream. -/
theorem Wired.written_ordered (h : s.Wired P process) {j p : ℕ} {id : Bytes} {k : Task}
    (hc : s.Carries j id p k) :
    s.server.traffic.written j <+: ((s.sidecars p).links k).read := by
  obtain ⟨-, m, hm, hid⟩ := announced_of_opened h.streaming h.delivered hc.2
  have hstage := h.streaming.outbound.stage id j k.1 hc.1 ⟨m, List.mem_of_getElem? hm, hid⟩
  exact hstage.ordered.trans (h.reads_ordered hc.2)

/-- A client that something was written to has a stream that a sidecar serves. -/
theorem Wired.carried (h : s.Wired P process) {j : ℕ} (hj : s.server.traffic.written j ≠ []) :
    ∃ id p k, s.Carries j id p k := by
  obtain ⟨t, q, hq⟩ : ∃ t q, .wrote j t q ∈ s.server.traffic.log := by
    by_contra hn
    simp only [not_exists] at hn
    refine hj (List.flatMap_eq_nil_iff.mpr ?_)
    intro e he
    cases e with
    | wrote k t q =>
      apply if_neg
      rintro rfl
      exact hn t q (List.mem_reverse.mp he)
    | _ => rfl
  obtain ⟨id, ho, ha⟩ := h.streaming.outbound.wrote j t q hq
  have hdata : dataOf id (s.server.traffic.reads t) ≠ [] := by
    intro hnil
    have hstage := (h.streaming.outbound.stage id j t ho ha).ordered
    rw [hnil, List.prefix_nil] at hstage
    exact hj hstage
  obtain ⟨d, hd, rfl⟩ : ∃ d, .wsData d ∈ s.server.traffic.reads t ∧ d.id = id := by
    by_contra hn
    exact hdata (dataOf_eq_nil fun d hd hid => hn ⟨d, hd, hid⟩)
  obtain ⟨m, hm, hw⟩ := (h.delivered.heard t).mem hd
  cases m with
  | wsData d' =>
    cases hw
    obtain ⟨⟨k, hk⟩, -⟩ := (h.rooted (process t)).sent t d' hm
    have hid : sanitize d'.id = d'.id := (h.sent hm).1
    refine ⟨_, process t, (t, k), ho, ?_⟩
    dsimp only
    rwa [hid]
  | _ => cases hw

end Mesh

section Mesh

variable (P : Primitives) (env : Environment) (cfg : ℕ → Settings) (process : ℕ → ℕ)

/-- Relay, clients and sidecars under any interleaving. -/
def mesh : Machine (ℕ × Mesh) (ℕ × MeshAction) :=
  .timed (· = Mesh.initial) (Mesh.step P env cfg process)

end Mesh

variable {P : Primitives} {env : Environment} {cfg : ℕ → Settings} {process : ℕ → ℕ}
  {s : ℕ × Mesh}

theorem wired_of_reachable (hr : (mesh P env cfg process).Reachable s) : s.2.Wired P process := by
  refine hr.invariant (P := fun s => s.2.Wired P process) ?_ ?_
  · rintro ⟨now, s⟩ rfl
    exact .initial
  · rintro s a s' - - hs h
    obtain ⟨-, -, hs⟩ := Machine.timed_step.mp hs
    exact h.step hs

/-- From Headscale to the client. Whatever has been written to a client is a first part of what was
read from Headscale's connection for its stream; no other client has that connection, and the
client has no other. -/
theorem client_in_order (hr : (mesh P env cfg process).Reachable s) (j : ℕ) :
    (s.2.server.traffic.written j = [] ∨ ∃ id p h, s.2.Carries j id p h) ∧
    ∀ id p h, s.2.Carries j id p h →
      s.2.server.traffic.written j <+: ((s.2.sidecars p).links h).read ∧
      ∀ j' id' p' h', s.2.Carries j' id' p' h' → (j' = j ↔ p' = p ∧ h' = h) := by
  have hw := wired_of_reachable hr
  constructor
  · by_cases hj : s.2.server.traffic.written j = []
    · exact .inl hj
    · exact .inr (hw.carried hj)
  · intro id p h hc
    refine ⟨hw.written_ordered hc, ?_⟩
    intro j' id' p' h' hc'
    exact hw.carries_iff hc hc'

section Run

/-- A client of the registration asks for an upgrade. -/
def upgradeRequest : ClientRequest where
  request := { Vector.post with
    method := str "GET"
    host := Vector.host
    header := [(str "Connection", [str "Upgrade"]),
      (str "Upgrade", [str "tailscale-control-protocol"])] }
  url := str "/ts2021"
  body := none

def streamID : Bytes := randomHex (List.replicate 16 6)

/-- The client is hijacked, its stream is announced, and the sidecar takes the announcement. -/
def announceRun (buffered : Bytes) : List (ℕ × MeshAction) :=
  (connectRun.map fun a => (a.1, .relay a.2)) ++
    [(3, .relay (.traffic (.streamBegin 0 upgradeRequest))),
      (3, .hijack 0 (List.replicate 16 6) buffered),
      (3, .relay (.traffic (.streamSend 0 .sent))), (4, .take 0)]

/-- The goroutine of the stream stores its connection. -/
def storeRun : List (ℕ × MeshAction) :=
  [(4, .sidecar 0 (.dial (0, 0) true)), (4, .sidecar 0 (.request (0, 0) true)),
    (4, .sidecar 0 (.store (0, 0)))]

/-- A chunk from the client reaches the sidecar; `none` is the end. -/
def clientRun (chunk : Option Bytes) : List (ℕ × MeshAction) :=
  [(4, .relay (.traffic (.streamRead 0 chunk))), (4, .relay (.traffic (.streamSend 0 .sent))),
    (4, .take 0)]

/-- A chunk from Headscale reaches the client. -/
def headscaleRun (chunk : Bytes) : List (ℕ × MeshAction) :=
  [(4, .sidecar 0 (.read (0, 0) (some chunk))), (4, .sidecar 0 (.send (0, 0) .ok)), (4, .hear 0),
    (4, .relay (.traffic (.readerFinish 0 chunk.length .sent)))]

/-- The relay with one sidecar process. -/
def pair : Machine (ℕ × Mesh) (ℕ × MeshAction) :=
  mesh Vector.primitives {} (fun _ => percentSettings) (fun _ => 0)

theorem carries_streamID {s : Mesh} (ho : s.server.traffic.owners streamID = some (.stream 0))
    (hm : (((s.sidecars 0).received 0)[0]?).bind TunnelMessage.opens = some streamID) :
    s.Carries 0 streamID 0 (0, 0) :=
  ⟨ho, Option.bind_eq_some_iff.mp hm⟩

theorem client_in_order_headscaleRun :
    ∃ s, pair.exec (0, Mesh.initial) (announceRun [] ++ storeRun ++ headscaleRun (str "hello")) =
        some s ∧
      s.2.server.traffic.written 0 = str "hello" ∧ s.2.Carries 0 streamID 0 (0, 0) ∧
      s.2.server.traffic.written 0 <+: ((s.2.sidecars 0).links (0, 0)).read := by
  have h : (pair.exec (0, Mesh.initial)
      (announceRun [] ++ storeRun ++ headscaleRun (str "hello"))).map (fun s =>
        (s.2.server.traffic.written 0, s.2.server.traffic.owners streamID,
          (((s.2.sidecars 0).received 0)[0]?).bind TunnelMessage.opens)) =
      some (str "hello", some (.stream 0), some streamID) := by decide +kernel
  obtain ⟨s, hs, h⟩ := Option.map_eq_some_iff.mp h
  simp only [Prod.mk.injEq] at h
  obtain ⟨hw, ho, hm⟩ := h
  have h₀ : pair.init (0, Mesh.initial) := rfl
  have hr : pair.Reachable s := .exec (fun _ _ _ => trivial) (.init h₀) hs
  have hc := carries_streamID ho hm
  exact ⟨s, hs, hw, hc, ((client_in_order hr 0).2 streamID 0 (0, 0) hc).1⟩

end Run

namespace Mesh

/-- The HTTP server has read nothing beyond the request of a client that is hijacked, and a sidecar
takes what continues or ends a stream only when no goroutine is still opening the stream. -/
def Orderly (process : ℕ → ℕ) (s : Mesh) : MeshAction → Prop
  | .hijack _ _ buffered => buffered = []
  | .take t => ∀ m ∈ s.next process t, (s.sidecars (process t)).Ready (.receive t m.wire)
  | _ => True

instance decidableOrderly (process : ℕ → ℕ) (s : Mesh) (a : MeshAction) :
    Decidable (s.Orderly process a) :=
  match a with
  | .hijack _ _ buffered => inferInstanceAs (Decidable (buffered = []))
  | .take t => inferInstanceAs (Decidable (∀ m ∈ s.next process t,
      (s.sidecars (process t)).Ready (.receive t m.wire)))
  | .relay _ | .hear _ | .sidecar _ _ => .isTrue trivial

/-- What was written to Headscale for a stream is a first part of what its client sent, and a stream
whose end was taken is not in the map. -/
def Intact (s : Mesh) : Prop :=
  (∀ j id p h, s.Carries j id p h → ((s.sidecars p).links h).written <+: s.sent j) ∧
    ∀ p t c, .wsClose c ∈ (s.sidecars p).received t → (s.sidecars p).streamConns c.id = none

variable {P : Primitives} {env : Environment} {cfg : ℕ → Settings} {process : ℕ → ℕ} {now : ℕ}
  {s s' : Mesh} {a : MeshAction}

/-- What holds in the states of orderly runs. -/
structure Unbroken (P : Primitives) (process : ℕ → ℕ) (s : Mesh) : Prop where
  wired : s.Wired P process
  inbound : ∀ p, (s.sidecars p).Inbound
  unbuffered : ∀ j, s.buffered j = []

theorem Unbroken.initial : Mesh.initial.Unbroken P process :=
  ⟨.initial, fun _ => .initial, fun _ => rfl⟩

theorem id?_of_follows {m : TunnelMessage} {id : Bytes} (h : m.follows = some id) :
    m.id? = some id := by
  cases m with
  | wsData d => exact h
  | wsClose c => exact h
  | _ => cases h

/-- The messages of the relay come after the announcement of their stream, and data decodes. -/
theorem Wired.coherent (h : s.Wired P process) {t : ℕ} {m : TunnelMessage}
    (hm : s.next process t = some m) :
    (s.sidecars (process t)).Coherent (.receive t m.wire) := by
  have hmem := List.mem_of_getElem? hm
  constructor
  · rintro _ _ id ⟨⟩ hf
    rw [follows_wire fun x hx => h.streaming.valid hmem (id?_of_follows hx)] at hf
    obtain ⟨m₀, hm₀, hid⟩ := h.streaming.preceded.messages t _ m id hm hf
    obtain ⟨k, hk⟩ := List.mem_iff_getElem?.mp hm₀
    rw [List.getElem?_take] at hk
    split_ifs at hk with hlt
    refine ⟨k, m₀.wire, (h.delivered.taken t).target hlt hk, ?_⟩
    rw [opens_wire, hid]
    rintro o rfl
    exact h.streaming.valid (List.mem_of_getElem? hk) rfl
  · intro u d hd
    cases m with
    | wsData d' =>
      cases hd
      obtain ⟨hbin, b, hb⟩ := h.streaming.announcing.encoded t d' hmem
      have hdata : sanitize d'.data = toBase64 b := by
        rw [hb]
        exact validUtf8_toBase64 b
      simp only [hbin, hdata, payload_toBase64, fromBase64_toBase64]
    | _ => cases hd

theorem Unbroken.step (h : s.Unbroken P process) (hg : s.Orderly process a)
    (hs : s.step P env cfg process now a = some s') : s'.Unbroken P process := by
  have hw := h.wired.step hs
  cases step_effect hs with
  | relayed b server clients buffered hb hc hread hu =>
    refine ⟨hw, h.inbound, ?_⟩
    rcases hu with rfl | ⟨j, random, bytes, rfl, rfl⟩
    · exact h.unbuffered
    · exact (Function.forall_update_iff s.buffered fun _ x => x = []).mpr
        ⟨hg, fun j _ => h.unbuffered j⟩
  | moved p b sidecar hb hread =>
    have hdistinct : sidecar.Distinct := by
      simpa only [Function.update_self] using distinct hw.streaming hw.delivered p
    have hrule : (s.sidecars p).Coherent b ∧ (s.sidecars p).Ready b := by
      rcases hread with hread | ⟨t, m, rfl, rfl, hm, rfl⟩
      · cases b with
        | receive t m => cases hread
        | _ => exact ⟨⟨nofun, nofun⟩, trivial⟩
      · exact ⟨h.wired.coherent hm, hg m hm⟩
    refine ⟨hw, ?_, h.unbuffered⟩
    exact (Function.forall_update_iff s.sidecars fun _ x => x.Inbound).mpr
      ⟨(h.inbound p).step (h.wired.rooted p) hdistinct hrule.1 hrule.2 (Process.step_effect hb),
        fun q _ => h.inbound q⟩

/-- What a sidecar has taken for a stream was read from the client. -/
theorem Wired.received_ordered (h : s.Wired P process) {j p : ℕ} {id : Bytes} {k : Task}
    (hc : s.Carries j id p k) :
    dataOf id ((s.sidecars p).received k.1) <+: s.clients.read j := by
  obtain ⟨rfl, -⟩ := announced_of_opened h.streaming h.delivered hc.2
  have htaken := dataOf_conveyed id (h.delivered.taken k.1) fun d hd => by
    obtain ⟨-, b, hb⟩ := h.streaming.announcing.encoded k.1 d hd
    exact ⟨h.streaming.valid hd rfl, hb ▸ validUtf8_toBase64 b⟩
  exact htaken.trans (h.streaming.inbound.stage id j k.1 hc.1).ordered

theorem Unbroken.intact (h : s.Unbroken P process) : s.Intact := by
  constructor
  · intro j id p k hc
    rw [sent, h.unbuffered, List.nil_append]
    exact ((h.inbound p).stage k id hc.2).ordered.trans (h.wired.received_ordered hc)
  · intro p t c hm
    exact (h.inbound p).ended t c hm

end Mesh

/-- From the client to Headscale. In every state of an orderly run, whatever has been written for a
stream is a first part of what its client sent, and no stream that has ended is left in the map. -/
theorem orderly_intact
    (hr : (mesh P env cfg process).Reach (fun s a => s.2.Orderly process a.2) s) : s.2.Intact := by
  have h : s.2.Unbroken P process := by
    refine hr.invariant (P := fun s => s.2.Unbroken P process) ?_ ?_
    · rintro ⟨now, s⟩ rfl
      exact .initial
    · rintro s a s' - hg hs h
      obtain ⟨-, -, hs⟩ := Machine.timed_step.mp hs
      exact h.step hg hs
  exact h.intact

/-- The sidecar writes what it has taken for a stream. -/
def writeRun : List (ℕ × MeshAction) := [(4, .sidecar 0 (.finish 0 1))]

/-- Two chunks and the end of the client, after the connection is stored. -/
def orderlyRun : List (ℕ × MeshAction) :=
  announceRun [] ++ storeRun ++ clientRun (some (str "a")) ++ writeRun ++
    clientRun (some (str "b")) ++ writeRun ++ clientRun none

theorem orderly_intact_orderlyRun :
    ∃ s, pair.exec (0, Mesh.initial) orderlyRun = some s ∧
      ((s.2.sidecars 0).links (0, 0)).written = str "ab" ∧ s.2.Intact := by
  have h : (pair.exec (0, Mesh.initial) orderlyRun).map
      (fun s => ((s.2.sidecars 0).links (0, 0)).written) = some (str "ab") := by decide +kernel
  have hm : pair.Meets (fun s a => s.2.Orderly (fun _ => 0) a.2) (0, Mesh.initial) orderlyRun := by
    decide +kernel
  obtain ⟨s, hs, hw⟩ := Option.map_eq_some_iff.mp h
  have h₀ : pair.init (0, Mesh.initial) := rfl
  have hr : pair.Reach (fun s a => s.2.Orderly (fun _ => 0) a.2) s := .meets (.init h₀) hm hs
  exact ⟨s, hs, hw, orderly_intact hr⟩

/-- The HTTP server has read the first byte when the client is hijacked. -/
def bufferedRun : List (ℕ × MeshAction) :=
  announceRun (str "a") ++ storeRun ++ clientRun (some (str "b")) ++ writeRun

/-- The first chunk arrives before the connection is stored, the second one after that. -/
def earlyRun : List (ℕ × MeshAction) :=
  announceRun [] ++ clientRun (some (str "a")) ++ storeRun ++ clientRun (some (str "b")) ++ writeRun

/-- The end arrives before the connection is stored. -/
def closeRun : List (ℕ × MeshAction) := announceRun [] ++ clientRun none ++ storeRun

/-- The first byte is lost and the second one written. -/
theorem not_intact_of_gap {as : List (ℕ × MeshAction)}
    (h : (pair.exec (0, Mesh.initial) as).map (fun s =>
        (((s.2.sidecars 0).links (0, 0)).written, s.2.sent 0,
          s.2.server.traffic.owners streamID,
          (((s.2.sidecars 0).received 0)[0]?).bind TunnelMessage.opens)) =
      some (str "b", str "ab", some (.stream 0), some streamID)) :
    ∃ s, pair.exec (0, Mesh.initial) as = some s ∧ ¬ s.2.Intact := by
  obtain ⟨s, hs, h⟩ := Option.map_eq_some_iff.mp h
  simp only [Prod.mk.injEq] at h
  obtain ⟨hw, hsent, ho, hm⟩ := h
  refine ⟨s, hs, ?_⟩
  rintro ⟨hpre, -⟩
  have hgap := hpre 0 streamID 0 (0, 0) (carries_streamID ho hm)
  rw [hw, hsent] at hgap
  exact absurd hgap (by decide)

/-- Bytes that the HTTP server holds are lost, chunks that come early are lost, and an end that
comes early leaves the stream in the map. -/
theorem streams_lose_bytes :
    (∃ s, pair.exec (0, Mesh.initial) bufferedRun = some s ∧ ¬ s.2.Intact) ∧
    (∃ s, pair.exec (0, Mesh.initial) earlyRun = some s ∧ ¬ s.2.Intact) ∧
    ∃ s, pair.exec (0, Mesh.initial) closeRun = some s ∧ ¬ s.2.Intact := by
  refine ⟨not_intact_of_gap (by decide +kernel), not_intact_of_gap (by decide +kernel), ?_⟩
  have h : (pair.exec (0, Mesh.initial) closeRun).map (fun s =>
      (decide (.wsClose { id := streamID } ∈ (s.2.sidecars 0).received 0),
        (s.2.sidecars 0).streamConns streamID)) = some (true, some (0, 0)) := by decide +kernel
  obtain ⟨s, hs, h⟩ := Option.map_eq_some_iff.mp h
  simp only [Prod.mk.injEq, decide_eq_true_eq] at h
  refine ⟨s, hs, ?_⟩
  rintro ⟨-, hclosed⟩
  cases (hclosed 0 0 _ h.1).symm.trans h.2

end HeadFwd.EndToEnd
