import HeadFwd.Relay.Delivery
import HeadFwd.Relay.Exchange
import HeadFwd.Relay.Isolation
import HeadFwd.Sidecar.Forward

/-! # Round trips

The relay and the sidecars at the other ends of its connections. A sidecar takes
the messages off its connection in order and answers every request in a goroutine
of its own; the relay's reader takes the answers off in the order in which they
were written. Whatever else a sidecar sends, it sends responses only in answer to
requests.
-/

namespace HeadFwd.EndToEnd

open Text Net Crypto Transition Tunnel Relay Sidecar

variable (P : Primitives) (env : Environment) (cfg : Config)

/-- The relay, and for every connection the messages its sidecar has taken off it, the requests the
sidecar works on by the position of their message, and the messages on their way to the relay.
As history, `clients` has the request each `forwardHTTP` call was begun with, and `produced` lists
the connection, the request and the response of every `handleRequest` that got as far as to send. -/
structure Network where
  server : Server
  taken : ℕ → ℕ
  tasks : Table (ℕ × ℕ) TunnelRequest
  inbox : ℕ → List TunnelMessage
  clients : Table ℕ ClientRequest
  produced : List (ℕ × TunnelRequest × TunnelResponse)

def Network.initial : Network where
  server := .initial
  taken := fun _ => 0
  tasks := .empty
  inbox := fun _ => []
  clients := .empty
  produced := []

/-- A step of the relay other than reading from a tunnel; its reader takes the next message; the
sidecar of a connection takes the next message, answers a request, or sends something else. -/
inductive NetworkAction where
  | relay (a : Action)
  | read (t : ℕ)
  | receive (t : ℕ)
  | respond (t k : ℕ) (headscale : HeadscaleRequest → Option HeadscaleReply) (w : WriteOutcome)
  | send (t : ℕ) (m : TunnelMessage) (w : WriteOutcome)

/-- The call whose step an action is. -/
def NetworkAction.caller : NetworkAction → Option ℕ
  | .relay (.traffic a) => a.caller
  | _ => none

namespace Network

/-- The requests that the calls were begun with, after an action of the relay. -/
def begun (clients : Table ℕ ClientRequest) : Action → Table ℕ ClientRequest
  | .traffic a => Traffic.begun clients a
  | _ => clients

/-- `runTunnel` dispatches a message. -/
def receive (s : Network) (t : ℕ) : Option Network :=
  match (s.server.traffic.outbox t)[s.taken t]? with
  | none => none
  | some m =>
    let s' := { s with taken := Function.update s.taken t (s.taken t + 1) }
    match m with
    | .request req => some { s' with tasks := s.tasks.set (t, s.taken t) req.wire }
    | _ => some s'

def step (now : ℕ) (s : Network) : NetworkAction → Option Network
  | .relay a =>
    if a.reads then none
    else (s.server.step P env now a).map fun server =>
      { s with server, clients := begun s.clients a }
  | .read t =>
    match s.inbox t with
    | [] => none
    | m :: rest => (s.server.step P env now (.traffic (.read t m))).map fun server =>
      { s with server, inbox := Function.update s.inbox t rest }
  | .receive t => s.receive t
  | .respond t k headscale w =>
    match s.tasks (t, k) with
    | none => none
    | some req =>
      let resp := handleRequest cfg headscale req
      some { s with
        tasks := s.tasks.erase (t, k)
        inbox := Traffic.push s.inbox t (.response resp.wire) w
        produced := (t, req, resp) :: s.produced }
  | .send _ (.response _) _ => none
  | .send t m w => some { s with inbox := Traffic.push s.inbox t m w }

/-- What a step does to the relay, the sidecars and the messages between them. -/
inductive Effect (now : ℕ) (s : Network) : NetworkAction → Network → Prop where
  | relayed (a : Action) (server : Server) (ha : a.reads = false)
    (hs : s.server.step P env now a = some server) :
    Effect now s (.relay a) { s with server, clients := begun s.clients a }
  | read (t : ℕ) (m : TunnelMessage) (rest : List TunnelMessage) (server : Server)
    (hi : s.inbox t = m :: rest) (hs : s.server.step P env now (.traffic (.read t m)) = some server) :
    Effect now s (.read t) { s with server, inbox := Function.update s.inbox t rest }
  | accepted (t : ℕ) (req : TunnelRequest) (taken : ℕ → ℕ)
    (hm : .request req ∈ s.server.traffic.outbox t) :
    Effect now s (.receive t) { s with taken, tasks := s.tasks.set (t, s.taken t) req.wire }
  | skipped (t : ℕ) (taken : ℕ → ℕ) : Effect now s (.receive t) { s with taken }
  | responded (t k : ℕ) (headscale : HeadscaleRequest → Option HeadscaleReply) (w : WriteOutcome)
    (req : TunnelRequest) (hk : s.tasks (t, k) = some req) :
    Effect now s (.respond t k headscale w) { s with
      tasks := s.tasks.erase (t, k)
      inbox := Traffic.push s.inbox t (.response (handleRequest cfg headscale req).wire) w
      produced := (t, req, handleRequest cfg headscale req) :: s.produced }
  | sent (t : ℕ) (m : TunnelMessage) (w : WriteOutcome) (hm : ∀ resp, m ≠ .response resp) :
    Effect now s (.send t m w) { s with inbox := Traffic.push s.inbox t m w }

variable {P env cfg} {now : ℕ} {s s' : Network} {a : NetworkAction}

theorem step_effect (h : s.step P env cfg now a = some s') : Effect P env cfg now s a s' := by
  cases a with
  | relay a =>
    simp only [step] at h
    split_ifs at h with ha
    obtain ⟨server, hs, rfl⟩ := Option.map_eq_some_iff.mp h
    exact .relayed a server (eq_false_of_ne_true ha) hs
  | read t =>
    simp only [step] at h
    split at h
    · cases h
    · rename_i m rest hi
      obtain ⟨server, hs, rfl⟩ := Option.map_eq_some_iff.mp h
      exact .read t m rest server hi hs
  | receive t =>
    simp only [step, receive] at h
    split at h
    · cases h
    · rename_i m hm
      split at h
      · rename_i req
        cases h
        exact .accepted t req _ (List.mem_of_getElem? hm)
      · cases h
        exact .skipped t _
  | respond t k headscale w =>
    simp only [step] at h
    split at h
    · cases h
    · rename_i req hk
      cases h
      exact .responded t k headscale w req hk
  | send t m w =>
    cases m with
    | response resp => cases h
    | _ =>
      cases h
      exact .sent t _ w (by simp)

/-- The response was produced for a request on its connection. -/
def Answers (s : Network) (t : ℕ) (resp : TunnelResponse) : Prop :=
  ∃ req resp', (t, req, resp') ∈ s.produced ∧ resp = resp'.wire

/-- Requests and responses are those of the relay and of `handleRequest` wherever they are. -/
structure Faithful (cfg : Config) (s : Network) : Prop where
  correlated : s.server.traffic.Correlated
  sourced : s.server.traffic.Sourced
  about : s.server.traffic.About s.clients
  ids : ∀ x o, s.server.traffic.owners x = some o → ValidUtf8 x
  tasks : ∀ t k req, s.tasks (t, k) = some req →
    ∃ r, .request r ∈ s.server.traffic.outbox t ∧ req = r.wire
  produced : ∀ t req resp, (t, req, resp) ∈ s.produced →
    (∃ r, .request r ∈ s.server.traffic.outbox t ∧ req = r.wire) ∧
      ∃ headscale, resp = handleRequest cfg headscale req
  inbox : ∀ t resp, .response resp ∈ s.inbox t → s.Answers t resp
  read : ∀ t resp, .read t (.response resp) ∈ s.server.traffic.log → s.Answers t resp

theorem Faithful.initial : Network.initial.Faithful cfg :=
  ⟨.initial, .initial, ⟨nofun, nofun⟩, nofun, nofun, nofun, nofun, nofun⟩

/-- A step of the relay that reads nothing but a message which is in order. -/
theorem Faithful.server_step (h : s.Faithful cfg) {b : Action} {server : Server}
    {inbox : ℕ → List TunnelMessage} (hs : s.server.step P env now b = some server)
    (hb : ∀ t resp, b = .traffic (.read t (.response resp)) → s.Answers t resp)
    (hi : ∀ t m, m ∈ inbox t → m ∈ s.inbox t) :
    Faithful cfg { s with server, inbox, clients := begun s.clients b } := by
  have hinbox : ∀ t resp, .response resp ∈ inbox t → s.Answers t resp :=
    fun t resp hm => h.inbox t resp (hi t _ hm)
  rcases Server.step_traffic hs with ⟨ht, hb⟩ | ⟨c, rfl, he⟩
  · have hc : begun s.clients b = s.clients := by
      cases b with
      | traffic c => exact absurd rfl (hb c)
      | _ => rfl
    refine ⟨?_, ?_, ?_, ?_, ?_, ?_, hinbox, ?_⟩ <;> dsimp only <;> rw [ht]
    exacts [h.correlated, h.sourced, hc.symm ▸ h.about, h.ids, h.tasks, h.produced, h.read]
  · refine ⟨h.correlated.step he, h.sourced.step he, h.about.step h.correlated.identified he,
      fun x o hx => he.validUtf8 h.ids hx,
      fun t k req hk => ?_, fun t req resp hp => ?_, hinbox, fun t resp hm => ?_⟩
    · obtain ⟨r, hr, hreq⟩ := h.tasks t k req hk
      exact ⟨r, he.outbox_mono hr, hreq⟩
    · obtain ⟨⟨r, hr, hreq⟩, hresp⟩ := h.produced t req resp hp
      exact ⟨⟨r, he.outbox_mono hr, hreq⟩, hresp⟩
    · rcases he.read_of_mem hm with hm | rfl
      · exact h.read t resp hm
      · exact hb t resp rfl

theorem Faithful.respond (h : s.Faithful cfg) {t k : ℕ} {req : TunnelRequest} {w : WriteOutcome}
    (hk : s.tasks (t, k) = some req) (headscale : HeadscaleRequest → Option HeadscaleReply) :
    Faithful cfg { s with
      tasks := s.tasks.erase (t, k)
      inbox := Traffic.push s.inbox t (.response (handleRequest cfg headscale req).wire) w
      produced := (t, req, handleRequest cfg headscale req) :: s.produced } := by
  have keep : ∀ {u resp}, s.Answers u resp → ∃ req' resp',
      (u, req', resp') ∈ (t, req, handleRequest cfg headscale req) :: s.produced ∧
        resp = resp'.wire := by
    rintro u resp ⟨req', resp', hm, hresp⟩
    exact ⟨req', resp', List.mem_cons_of_mem _ hm, hresp⟩
  refine ⟨h.correlated, h.sourced, h.about, h.ids,
    fun u l req' hl => h.tasks u l req' (Table.of_erase hl), fun u req' resp hm => ?_,
    fun u resp hm => ?_, fun u resp hm => keep (h.read u resp hm)⟩
  · rcases List.mem_cons.mp hm with hm | hm
    · cases hm
      exact ⟨h.tasks t k req hk, headscale, rfl⟩
    · exact h.produced u req' resp hm
  · rcases Traffic.mem_push hm with hm | ⟨rfl, hresp⟩
    · exact keep (h.inbox u resp hm)
    · cases hresp
      exact ⟨req, _, List.mem_cons_self, rfl⟩

theorem Faithful.step (h : s.Faithful cfg) (he : Effect P env cfg now s a s') :
    s'.Faithful cfg := by
  cases he with
  | relayed b server hb hs =>
    refine h.server_step hs (fun t resp hr => ?_) fun t m hm => hm
    subst hr
    cases hb
  | read t m rest server hi hs =>
    refine h.server_step hs (fun u resp hr => ?_) fun u m' hm => ?_
    · cases hr
      exact h.inbox t resp (hi ▸ List.mem_cons_self)
    · by_cases hu : u = t
      · subst hu
        rw [Function.update_self] at hm
        exact hi ▸ List.mem_cons_of_mem _ hm
      · rwa [Function.update_of_ne hu] at hm
  | accepted t req taken hm =>
    refine ⟨h.correlated, h.sourced, h.about, h.ids, fun u k req' hk => ?_, h.produced, h.inbox,
      h.read⟩
    rcases Table.set_eq_some_iff.mp hk with ⟨hu, rfl⟩ | ⟨-, hk⟩
    · cases hu
      exact ⟨req, hm, rfl⟩
    · exact h.tasks u k req' hk
  | skipped t taken =>
    exact ⟨h.correlated, h.sourced, h.about, h.ids, h.tasks, h.produced, h.inbox, h.read⟩
  | responded t k headscale w req hk => exact h.respond hk headscale
  | sent t m w hm =>
    refine ⟨h.correlated, h.sourced, h.about, h.ids, h.tasks, h.produced, fun u resp hu => ?_,
      h.read⟩
    rcases Traffic.mem_push hu with hu | ⟨-, hu⟩
    · exact h.inbox u resp hu
    · exact absurd hu.symm (hm resp)

/-- A call that has begun is moved by its own steps only, and each brings it closer to its end. -/
theorem Effect.rank (he : Effect P env cfg now s a s') {i : ℕ} {thread : HttpThread}
    (hi : s.server.traffic.https i = some thread) :
    ∃ thread', s'.server.traffic.https i = some thread' ∧
      thread'.rank + (if a.caller = some i then 1 else 0) ≤ thread.rank := by
  have relay : ∀ {b server}, s.server.step P env now b = some server →
      ∃ thread', server.traffic.https i = some thread' ∧
        thread'.rank + (if (NetworkAction.relay b).caller = some i then 1 else 0) ≤ thread.rank := by
    intro b server hs
    rcases Server.step_traffic hs with ⟨ht, hb⟩ | ⟨c, rfl, he⟩
    · refine ⟨thread, ht ▸ hi, ?_⟩
      cases b with
      | traffic c => exact absurd rfl (hb c)
      | _ => exact le_rfl
    · obtain ⟨thread', hi', hown, hother⟩ := he.rank hi
      refine ⟨thread', hi', ?_⟩
      by_cases hc : c.caller = some i
      · simpa [NetworkAction.caller, hc, Nat.add_one_le_iff] using hown hc
      · simp [NetworkAction.caller, hc, hother hc]
  have still : a.caller = none → s'.server = s.server → ∃ thread',
      s'.server.traffic.https i = some thread' ∧
        thread'.rank + (if a.caller = some i then 1 else 0) ≤ thread.rank := by
    intro ha hs
    exact ⟨thread, hs ▸ hi, by simp [ha]⟩
  cases he with
  | relayed b server hb hs => exact relay hs
  | read t m rest server hr hs => exact relay hs
  | accepted t req taken hm => exact still rfl rfl
  | skipped t taken => exact still rfl rfl
  | responded t k headscale w req hk => exact still rfl rfl
  | sent t m w hm => exact still rfl rfl

end Network

/-- The relay and its sidecars under any interleaving. -/
def network : Machine (ℕ × Network) (ℕ × NetworkAction) :=
  .timed (· = Network.initial) (Network.step P env cfg)

variable {P env cfg} {s s' : ℕ × Network}

theorem faithful_of_reachable (hr : (network P env cfg).Reachable s) : s.2.Faithful cfg := by
  refine hr.invariant (P := fun s => s.2.Faithful cfg) ?_ ?_
  · rintro ⟨now, s⟩ rfl
    exact .initial
  · rintro s a s' - - hs h
    obtain ⟨-, -, hs⟩ := Machine.timed_step.mp hs
    exact h.step (Network.step_effect hs)

/-- The own steps of a call in a run are paid for by its rank. -/
theorem rank_exec {as : List (ℕ × NetworkAction)} (h : (network P env cfg).exec s as = some s')
    {i : ℕ} {thread : HttpThread} (hi : s.2.server.traffic.https i = some thread) :
    ∃ thread', s'.2.server.traffic.https i = some thread' ∧
      thread'.rank + as.countP (fun a => a.2.caller = some i) ≤ thread.rank := by
  induction as generalizing s thread with
  | nil =>
    cases h
    exact ⟨thread, hi, le_rfl⟩
  | cons a as ih =>
    obtain ⟨u, hu, h⟩ := Option.bind_eq_some_iff.mp h
    obtain ⟨-, -, hu⟩ := Machine.timed_step.mp hu
    obtain ⟨mid, hmid, hle⟩ := (Network.step_effect hu).rank hi
    obtain ⟨thread', hi', hle'⟩ := ih h hmid
    refine ⟨thread', hi', ?_⟩
    simp only [List.countP_cons, decide_eq_true_eq]
    omega

/-- The response that ends a call is what `handleRequest` produced for the request of that call,
under the identifier of that call. -/
theorem Network.Faithful.relayed (h : s.2.Faithful cfg) {i t : ℕ} {resp : TunnelResponse}
    (hm : .finished i (.relayed t resp) ∈ s.2.server.traffic.log) :
    ∃ r id headscale, s.2.clients i = some r ∧
      s.2.server.traffic.requests i = some (tunnelRequest id r) ∧
      s.2.server.traffic.owners id = some (.http i) ∧
      .request (tunnelRequest id r) ∈ s.2.server.traffic.outbox t ∧
      (t, (tunnelRequest id r).wire, handleRequest cfg headscale (tunnelRequest id r).wire) ∈
        s.2.produced ∧
      resp = (handleRequest cfg headscale (tunnelRequest id r).wire).wire := by
  obtain ⟨m, rfl, hread⟩ := h.sourced.log _ hm (.http i) t rfl
  obtain ⟨req', resp', hp, rfl⟩ := h.read t resp hread
  obtain ⟨⟨req, hreq, rfl⟩, headscale, rfl⟩ := h.produced t req' resp' hp
  obtain ⟨k, hk, hown⟩ := h.correlated.identified.sent t req hreq
  -- The identifier has passed through JSON twice.
  have hid : (handleRequest cfg headscale req.wire).wire.id = req.id := by
    have hv : sanitize req.id = req.id := h.ids req.id _ hown
    simp only [TunnelResponse.wire, handleRequest_id, TunnelRequest.wire, hv]
  have hi := h.correlated.counted.relayed i t _ hm
  rw [hid] at hi
  cases hown.symm.trans hi
  obtain ⟨r, hr, hreq'⟩ := h.about.requests i req hk
  refine ⟨r, req.id, headscale, hr, ?_, hown, ?_, ?_, ?_⟩ <;> rw [← hreq']
  exacts [hk, hreq, hp]

/-- What clients of the relay can rely on. A call has ended at most once, and it has ended if it is
over; its own steps are at most as many as its rank, until it is over there is one to take, at the
latest when its time is up, and when all are taken it has ended. A relayed response is the one
`handleRequest` produced for the request that this call sent, under the identifier that this call
owns. A reader that holds a response finds room in the channel, and no request of a call that is over
is outstanding. -/
structure RoundTrip (P : Primitives) (env : Environment) (cfg : Config) (s : ℕ × Network) :
    Prop where
  once : ∀ i, s.2.server.traffic.outcomes i =
    if ((s.2.server.traffic.https i).bind HttpThread.outcome).isSome then 1 else 0
  bounded : ∀ as s' i thread, (network P env cfg).exec s as = some s' →
    s.2.server.traffic.https i = some thread → ∃ thread', s'.2.server.traffic.https i = some thread' ∧
      thread'.rank + as.countP (fun a => a.2.caller = some i) ≤ thread.rank
  enabled : ∀ i thread random, s.2.server.traffic.https i = some thread → thread.outcome = none →
    random.length = 16 → s.2.server.traffic.owners (randomHex random) = none →
    ∃ a, a.caller = some i ∧ ∃ deadline, ∀ now, s.1 ≤ now → deadline ≤ now →
      ((network P env cfg).step s (now, a)).isSome = true
  ends : ∀ as s' i thread, (network P env cfg).exec s as = some s' →
    s.2.server.traffic.https i = some thread →
    thread.rank ≤ as.countP (fun a => a.2.caller = some i) → s'.2.server.traffic.outcomes i = 1
  relayed : ∀ i t resp, .finished i (.relayed t resp) ∈ s.2.server.traffic.log →
    ∃ r id headscale, s.2.clients i = some r ∧
      s.2.server.traffic.requests i = some (tunnelRequest id r) ∧
      s.2.server.traffic.owners id = some (.http i) ∧
      .request (tunnelRequest id r) ∈ s.2.server.traffic.outbox t ∧
      (t, (tunnelRequest id r).wire, handleRequest cfg headscale (tunnelRequest id r).wire) ∈
        s.2.produced ∧
      resp = (handleRequest cfg headscale (tunnelRequest id r).wire).wire
  unblocked : ∀ t i resp now written w, s.2.server.traffic.readers t = some (.delivering i resp) →
    s.1 ≤ now →
    ((network P env cfg).step s (now, .relay (.traffic (.readerFinish t written w)))).isSome = true
  cleared : ∀ x i, s.2.server.traffic.pending x = some i →
    ∃ thread, s.2.server.traffic.https i = some thread ∧ thread.outcome = none

/-- A step of the traffic that reads nothing is a step of the network. -/
theorem network_step_isSome {now : ℕ} {b : TrafficAction} (hn : s.1 ≤ now)
    (hb : (Action.traffic b).reads = false)
    (h : (s.2.server.traffic.step now s.2.server.tunnels b).isSome = true) :
    ((network P env cfg).step s (now, .relay (.traffic b))).isSome = true := by
  simp [network, Machine.timed, Network.step, Server.step, hn, hb, h]

theorem TrafficAction.reads_of_caller {b : TrafficAction} {i : ℕ} (h : b.caller = some i) :
    (Action.traffic b).reads = false := by
  cases b with
  | read t m => cases h
  | _ => rfl

/-- A call that has taken all its steps has ended. -/
theorem outcomes_of_rank_le (hr : (network P env cfg).Reachable s)
    {as : List (ℕ × NetworkAction)} (h : (network P env cfg).exec s as = some s') {i : ℕ}
    {thread : HttpThread} (hi : s.2.server.traffic.https i = some thread)
    (hle : thread.rank ≤ as.countP (fun a => a.2.caller = some i)) :
    s'.2.server.traffic.outcomes i = 1 := by
  have hf : s'.2.Faithful cfg := faithful_of_reachable (.exec (fun _ _ _ => trivial) hr h)
  obtain ⟨thread', hi', hsum⟩ := rank_exec h hi
  obtain ⟨o, ho⟩ := HttpThread.outcome_of_rank (show thread'.rank = 0 by omega)
  refine (hf.correlated.counted.ended i o ?_).1
  rw [hi']
  exact ho

/-- Round trips through the relay and the sidecar, in every reachable state. -/
theorem roundTrip (hr : (network P env cfg).Reachable s) : RoundTrip P env cfg s := by
  have h := faithful_of_reachable hr
  refine ⟨fun i => ?_, fun as s' i thread h hi => rank_exec h hi, ?_,
    fun as s' i thread h hi hle => outcomes_of_rank_le hr h hi hle, fun i t resp hm => h.relayed hm,
    ?_, fun x i hx => ?_⟩
  · cases ho : (s.2.server.traffic.https i).bind HttpThread.outcome with
    | none => exact h.correlated.counted.running i ho
    | some o => exact (h.correlated.counted.ended i o ho).1
  · intro i thread random hi ht hlen hfree
    obtain ⟨b, hb, deadline, hstep⟩ := Traffic.exists_own_step s.2.server.tunnels hi ht hlen hfree
    exact ⟨.relay (.traffic b), hb, deadline, fun now hn hd =>
      network_step_isSome hn (TrafficAction.reads_of_caller hb) (hstep now hd)⟩
  · intro t i resp now written w ht hn
    apply network_step_isSome hn rfl
    simp [Traffic.step, Traffic.readerFinish, ht, (h.correlated.slotted.delivering t i resp ht).1]
  · obtain ⟨⟨req, hreq, -⟩, -⟩ := h.correlated.slotted.pending x i hx
    obtain ⟨thread, hi, hout⟩ := Option.bind_eq_some_iff.mp hreq
    refine ⟨thread, hi, ?_⟩
    cases thread with
    | finished o => cases hout
    | _ => rfl

/-- A sidecar whose Headscale answers every request with an empty page. -/
def Vector.config : Config where
  headscaleURL := str "http://headscale:8080"
  parseURL := fun _ => none

def Vector.headscale (_ : HeadscaleRequest) : Option HeadscaleReply := some ⟨200, [], []⟩

def Vector.request : TunnelRequest :=
  tunnelRequest (randomHex (List.replicate 16 6)) Relay.Vector.clientRequest

/-- A request goes out, is answered by the sidecar, and its response is relayed. -/
def roundTripRun : List (ℕ × NetworkAction) :=
  (requestRun.map fun a => (a.1, .relay a.2)) ++
    [(4, .receive 0), (4, .respond 0 0 Vector.headscale .sent), (5, .read 0),
      (5, .relay (.traffic (.readerFinish 0 0 .sent))), (5, .relay (.traffic (.httpReceive 0)))]

theorem roundTrip_roundTripRun :
    ∃ s, (network Relay.Vector.primitives {} Vector.config).exec (0, Network.initial) roundTripRun =
        some s ∧
      .finished 0 (.relayed 0 (handleRequest Vector.config Vector.headscale Vector.request.wire).wire) ∈
        s.2.server.traffic.log ∧
      RoundTrip Relay.Vector.primitives {} Vector.config s := by
  have h : ((network Relay.Vector.primitives {} Vector.config).exec (0, Network.initial)
      roundTripRun).map (fun s => decide (.finished 0 (.relayed 0
        (handleRequest Vector.config Vector.headscale Vector.request.wire).wire) ∈
          s.2.server.traffic.log)) = some true := by decide +kernel
  obtain ⟨s, hs, h⟩ := Option.map_eq_some_iff.mp h
  have h₀ : (network Relay.Vector.primitives {} Vector.config).init (0, Network.initial) := rfl
  exact ⟨s, hs, of_decide_eq_true h, roundTrip (.exec (fun _ _ _ => trivial) (.init h₀) hs)⟩

end HeadFwd.EndToEnd
