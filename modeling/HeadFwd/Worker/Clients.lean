import HeadFwd.Worker.Reconnect
import Mathlib.Data.List.Nodup

/-! # WebSocket clients of the tunnel object

Messages to and from a WebSocket client carry the identifier drawn for it. Over one
socket after another the object speaks about a client as about a conversation: its
opening, its data, its end. The client is sent the data under its identifier up to the
first end, and nothing else.
-/

namespace HeadFwd.Worker

open Net Transition Js

/-- The client that a message is about. -/
def Message.client? : Message → Option JsString
  | .wsOpen id _ _ _ => some id
  | .wsData id _ _ => some id
  | .wsClose id _ _ => some id
  | _ => none

/-- The client a message of the sidecar is for, with its data; without data it is the end. -/
def TunnelEvent.address : TunnelEvent → Option (JsString × Option JsValue)
  | .message _ (some v) true =>
    match v.get (js "type"), v.get (js "data") with
    | some (.string type), some data =>
      match data.get (js "id") with
      | some (.string id) =>
        if type = js "ws_data" then some (id, some data)
        else if type = js "ws_close" then some (id, none)
        else none
      | _ => none
    | _, _ => none
  | _ => none

def TunnelEvent.leaves (j : ℕ) : TunnelEvent → Bool
  | .wsClose i _ _ _ => i = j
  | _ => false

/-- The client is left by this event, or the sidecar ends it. -/
def TunnelEvent.ends (id : JsString) (j : ℕ) (e : TunnelEvent) : Bool :=
  e.leaves j || e.address.any fun a => a.1 = id && a.2.isNone

def TunnelEvent.chunk (id : JsString) (e : TunnelEvent) : Option JsValue :=
  e.address.bind fun a => if a.1 = id then a.2 else none

/-- The data for a client up to its first end. -/
def deliveries (id : JsString) (j : ℕ) : List TunnelEvent → List JsValue
  | [] => []
  | e :: es => if e.ends id j then [] else (e.chunk id).toList ++ deliveries id j es

/-- An opening, then data, all of one client. -/
def Talking (id : JsString) (l : List Message) : Prop :=
  ∃ method url headers data, l = .wsOpen id method url headers :: data ∧
    ∀ m ∈ data, ∃ t b, m = .wsData id t b

/-- An opening, then data, then at most one end, all of one client. -/
def Conversation (id : JsString) (l : List Message) : Prop :=
  l = [] ∨ ∃ method url headers data tail, l = .wsOpen id method url headers :: (data ++ tail) ∧
    (∀ m ∈ data, ∃ t b, m = .wsData id t b) ∧
      (tail = [] ∨ ∃ code reason, tail = [.wsClose id code reason])

theorem Talking.unended {id : JsString} {l : List Message} (h : Talking id l) :
    Conversation id l := by
  obtain ⟨method, url, headers, data, rfl, hdata⟩ := h
  exact .inr ⟨method, url, headers, data, [], by rw [List.append_nil], hdata, .inl rfl⟩

theorem Talking.say {id : JsString} {l : List Message} (h : Talking id l) (t : JsString) (b : Bool) :
    Talking id (l ++ [.wsData id t b]) := by
  obtain ⟨method, url, headers, data, rfl, hdata⟩ := h
  refine ⟨method, url, headers, data ++ [.wsData id t b], rfl, fun m hm => ?_⟩
  rcases List.mem_append.mp hm with hm | hm
  · exact hdata m hm
  · exact ⟨t, b, List.mem_singleton.mp hm⟩

theorem Talking.leave {id : JsString} {l : List Message} (h : Talking id l) (code : ℕ)
    (reason : JsString) : Conversation id (l ++ [.wsClose id code reason]) := by
  obtain ⟨method, url, headers, data, rfl, hdata⟩ := h
  exact .inr ⟨method, url, headers, data, _, rfl, hdata, .inr ⟨code, reason, rfl⟩⟩

namespace HeadscaleTunnel

variable {now : ℕ} {s s' : HeadscaleTunnel} {e : TunnelEvent} {id : JsString} {j : ℕ}

/-- Everything sent, over one socket after another. -/
def sent (s : HeadscaleTunnel) : List Message := (List.range s.accepted).flatMap s.outbox

def about (s : HeadscaleTunnel) (id : JsString) : List Message :=
  s.sent.filter fun m => m.client? = some id

/-! ## Sockets -/

/-- Messages go over the latest socket. -/
structure Latest (s : HeadscaleTunnel) : Prop where
  tunnel : ∀ k, s.tunnel = some k → k + 1 = s.accepted
  unused : ∀ k, s.accepted ≤ k → s.outbox k = []

theorem Latest.sent_eq (h : s.Latest) {k : ℕ} (ht : s.tunnel = some k) (m : Message) :
    sent { s with outbox := Function.update s.outbox k (s.outbox k ++ [m]) } = s.sent ++ [m] := by
  have hk := h.tunnel k ht
  have hrest : (List.range k).flatMap (Function.update s.outbox k (s.outbox k ++ [m])) =
      (List.range k).flatMap s.outbox := by
    apply List.flatMap_congr
    intro i hi
    exact Function.update_of_ne (List.mem_range.mp hi).ne _ _
  simp only [sent, ← hk, List.range_succ, List.flatMap_append, List.flatMap_singleton, hrest,
    Function.update_self, List.append_assoc]

/-- Sending adds one message or throws. -/
theorem Latest.send_cases (h : s.Latest) (m : Message) (ok : Bool) :
    s.send m ok = none ∨ ∃ t, s.send m ok = some t ∧ t.Latest ∧ t.sent = s.sent ++ [m] ∧
      t.clients = s.clients ∧ t.wsConnections = s.wsConnections ∧ t.delivered = s.delivered ∧
        t.drawn = s.drawn := by
  unfold send
  split
  · rename_i k ht
    refine .inr ⟨_, rfl, ⟨h.tunnel, ?_⟩, h.sent_eq ht m, rfl, rfl, rfl, rfl⟩
    intro l hl
    have hne : l ≠ k := by
      have hk := h.tunnel k ht
      change s.accepted ≤ l at hl
      omega
    change Function.update s.outbox k _ l = []
    rw [Function.update_of_ne hne]
    exact h.unused l hl
  · exact .inl rfl

theorem about_append {l : List Message} (h : s'.sent = s.sent ++ l) (id : JsString) :
    s'.about id = s.about id ++ l.filter fun m => m.client? = some id := by
  rw [about, h, List.filter_append]
  rfl

/-- Nothing is said to a client or about one. -/
structure Quiet (s s' : HeadscaleTunnel) : Prop where
  latest : s'.Latest
  clients : s'.clients = s.clients
  wsConnections : s'.wsConnections = s.wsConnections
  delivered : s'.delivered = s.delivered
  drawn : s.drawn ⊆ s'.drawn
  about : ∀ id, s'.about id = s.about id

theorem Quiet.refl (h : s.Latest) : s.Quiet s :=
  ⟨h, rfl, rfl, rfl, List.Subset.refl _, fun _ => rfl⟩

theorem Quiet.trans {t : HeadscaleTunnel} (h : s.Quiet t) (h' : t.Quiet s') : s.Quiet s' :=
  ⟨h'.latest, h'.clients.trans h.clients, h'.wsConnections.trans h.wsConnections,
    h'.delivered.trans h.delivered, List.Subset.trans h.drawn h'.drawn,
    fun id => (h'.about id).trans (h.about id)⟩

/-- The requests do not matter. -/
theorem quiet_of_eq (h : s.Latest) (ht : s'.tunnel = s.tunnel) (ha : s'.accepted = s.accepted)
    (ho : s'.outbox = s.outbox) (hc : s'.clients = s.clients)
    (hw : s'.wsConnections = s.wsConnections) (hd : s'.delivered = s.delivered)
    (hn : s.drawn ⊆ s'.drawn) : s.Quiet s' := by
  have hsent : s'.sent = s.sent := by
    rw [sent, sent, ha, ho]
  refine ⟨⟨?_, ?_⟩, hc, hw, hd, hn, fun id => ?_⟩
  · rw [ht, ha]
    exact h.tunnel
  · rw [ha, ho]
    exact h.unused
  · rw [HeadscaleTunnel.about, HeadscaleTunnel.about, hsent]

theorem quiet_settle (h : s.Latest) (i : ℕ) (o : Settlement) : s.Quiet (s.settle i o) :=
  quiet_of_eq h rfl rfl rfl rfl rfl rfl (List.Subset.refl _)

theorem quiet_send {m : Message} {ok : Bool} (h : s.Latest) (hm : m.client? = none) :
    s.Quiet ((s.send m ok).getD s) := by
  obtain hn | ⟨t, ht, hl, hsent, hc, hw, hd, hdrawn⟩ := h.send_cases m ok
  · rw [hn]
    exact .refl h
  · rw [ht, Option.getD_some]
    refine ⟨hl, hc, hw, hd, hdrawn ▸ List.Subset.refl _, fun id => ?_⟩
    rw [about_append hsent, List.filter_singleton, hm]
    exact List.append_nil _

theorem quiet_sendRequest (h : s.Latest) (i : ℕ) (r : ClientRequest) (id : JsString) (ok : Bool) :
    s.Quiet (s.sendRequest now i r id ok) := by
  have hdrawn : s.Quiet { s with drawn := id :: s.drawn } :=
    quiet_of_eq h rfl rfl rfl rfl rfl rfl (List.subset_cons_self _ _)
  have hsent : Quiet { s with drawn := id :: s.drawn }
      ((send { s with drawn := id :: s.drawn } (.request (tunnelRequest id r)) ok).getD
        { s with drawn := id :: s.drawn }) := quiet_send hdrawn.latest rfl
  unfold sendRequest
  dsimp only
  split
  · rename_i k t ht hs
    rw [hs] at hsent
    exact (hdrawn.trans hsent).trans
      (quiet_of_eq hsent.latest rfl rfl rfl rfl rfl rfl (List.Subset.refl _))
  · exact hdrawn.trans (quiet_settle hdrawn.latest i _)

theorem quiet_handleResponse (h : s.Latest) (data : JsValue) (ok : Bool) :
    s.Quiet (s.handleResponse data ok) := by
  have hkept : ∀ t : HeadscaleTunnel, t.tunnel = s.tunnel → t.accepted = s.accepted →
      t.outbox = s.outbox → t.clients = s.clients → t.wsConnections = s.wsConnections →
      t.delivered = s.delivered → t.drawn = s.drawn → s.Quiet t :=
    fun t ht ha ho hc hw hd hn => quiet_of_eq h ht ha ho hc hw hd (hn ▸ List.Subset.refl _)
  unfold handleResponse
  split
  · split
    · exact .refl h
    · dsimp only
      split_ifs
      · exact hkept _ rfl rfl rfl rfl rfl rfl rfl
      · exact hkept _ rfl rfl rfl rfl rfl rfl rfl
  · exact .refl h

/-! ## What an event does to the clients -/

inductive ClientEffect (s : HeadscaleTunnel) : TunnelEvent → HeadscaleTunnel → Prop where
  | quiet (e : TunnelEvent) (s' : HeadscaleTunnel) (h : s.Quiet s') (ha : e.address = none)
    (hl : ∀ j, e.leaves j = false) : ClientEffect s e s'
  | unknown (e : TunnelEvent) (id : JsString) (d : Option JsValue)
    (ha : e.address = some (id, d)) (hw : s.wsConnections.lookup id = none) : ClientEffect s e s
  | data (e : TunnelEvent) (id : JsString) (j : ℕ) (d : JsValue)
    (ha : e.address = some (id, some d)) (hw : s.wsConnections.lookup id = some j) :
    ClientEffect s e
      { s with delivered := Function.update s.delivered j (s.delivered j ++ [d]) }
  | ended (e : TunnelEvent) (id : JsString) (j : ℕ) (ha : e.address = some (id, none))
    (hw : s.wsConnections.lookup id = some j) :
    ClientEffect s e { s with wsConnections := s.wsConnections.filter fun p => p.1 ≠ id }
  | refused (j : ℕ) (r : ClientRequest) (id : JsString) (ok : Bool) (err : HttpError)
    (hj : s.clients j = none) :
    ClientEffect s (.wsOpen j r id ok) { s with clients := s.clients.set j (.refused err) }
  | opened (j : ℕ) (r : ClientRequest) (id : JsString) (ok : Bool) (c : ClientThread)
    (s' : HeadscaleTunnel) (hj : s.clients j = none) (hid : id ∉ s.drawn) (hl : s'.Latest)
    (hc : s'.clients = s.clients.set j c) (hw : s'.wsConnections = s.wsConnections ++ [(id, j)])
    (hd : s'.delivered = s.delivered) (hn : s'.drawn = id :: s.drawn)
    (hs : c = .dropped ∧ s'.sent = s.sent ∨
      c = .connected id ∧ s'.sent = s.sent ++ [.wsOpen id r.method r.url r.headers]) :
    ClientEffect s (.wsOpen j r id ok) s'
  | said (j : ℕ) (d : ClientData) (ok : Bool) (id t : JsString) (b : Bool) (s' : HeadscaleTunnel)
    (hj : s.clients j = some (.connected id)) (hl : s'.Latest) (hc : s'.clients = s.clients)
    (hw : s'.wsConnections = s.wsConnections) (hd : s'.delivered = s.delivered)
    (hn : s'.drawn = s.drawn) (hs : s'.sent = s.sent ∨ s'.sent = s.sent ++ [.wsData id t b]) :
    ClientEffect s (.wsMessage j d ok) s'
  | left (j code : ℕ) (reason : JsString) (ok : Bool) (id : JsString) (s' : HeadscaleTunnel)
    (hj : s.clients j = some (.connected id)) (hl : s'.Latest)
    (hc : s'.clients = s.clients.set j .closed)
    (hw : s'.wsConnections = s.wsConnections.filter fun p => p.1 ≠ id)
    (hd : s'.delivered = s.delivered) (hn : s'.drawn = s.drawn)
    (hs : s'.sent = s.sent ∨ s'.sent = s.sent ++ [.wsClose id code reason]) :
    ClientEffect s (.wsClose j code reason ok) s'

theorem response_type : js "response" ≠ js "ws_data" ∧ js "response" ≠ js "ws_close" := by
  decide +kernel

theorem handleClient_unsent (data : JsValue) (closing : Bool) :
    s.handleClient data closing false = s := by
  unfold handleClient
  split
  · cases s.wsConnections.lookup _ <;> rfl
  · rfl

theorem quiet_failed (h : s.Latest) (v : JsValue) : s.Quiet (s.handleTunnelMessage v false) := by
  unfold handleTunnelMessage
  split
  · split_ifs
    · exact quiet_handleResponse h _ false
    · rw [handleClient_unsent]
      exact .refl h
    · rw [handleClient_unsent]
      exact .refl h
    · exact quiet_send h rfl
    · exact .refl h
  · exact .refl h

theorem message_client (h : s.Latest) (k : ℕ) (v : JsValue) :
    s.ClientEffect (.message k (some v) true) (s.handleTunnelMessage v true) := by
  unfold handleTunnelMessage
  split
  · rename_i type data htype hdata
    have hquiet : ∀ s' : HeadscaleTunnel, s.Quiet s' → type ≠ js "ws_data" →
        type ≠ js "ws_close" → s.ClientEffect (.message k (some v) true) s' := by
      intro s' hq hd hc
      refine .quiet _ _ hq ?_ fun _ => rfl
      simp only [TunnelEvent.address, htype, hdata]
      split
      · rw [if_neg hd, if_neg hc]
      · rfl
    split_ifs with hr hd hc hp
    · subst hr
      exact hquiet _ (quiet_handleResponse h _ true) response_type.1 response_type.2
    · unfold handleClient
      split
      · rename_i id hid
        have ha : TunnelEvent.address (.message k (some v) true) = some (id, some data) := by
          simp only [TunnelEvent.address, htype, hdata, hid, if_pos hd]
        cases hw : s.wsConnections.lookup id with
        | none => exact .unknown _ id _ ha hw
        | some j => exact .data _ id j data ha hw
      · refine .quiet _ _ (.refl h) ?_ fun _ => rfl
        simp only [TunnelEvent.address, htype, hdata]
    · unfold handleClient
      split
      · rename_i id hid
        have ha : TunnelEvent.address (.message k (some v) true) = some (id, none) := by
          simp only [TunnelEvent.address, htype, hdata, hid, if_neg hd, if_pos hc]
        cases hw : s.wsConnections.lookup id with
        | none => exact .unknown _ id _ ha hw
        | some j => exact .ended _ id j ha hw
      · refine .quiet _ _ (.refl h) ?_ fun _ => rfl
        simp only [TunnelEvent.address, htype, hdata]
    · exact hquiet _ (quiet_send h rfl) hd hc
    · exact hquiet _ (.refl h) hd hc
  · refine .quiet _ _ (.refl h) ?_ fun _ => rfl
    simp only [TunnelEvent.address]

theorem wsOpen_client (h : s.Latest) {r : ClientRequest} {ok : Bool}
    (ho : s.wsOpen j r id ok = some s') : s.ClientEffect (.wsOpen j r id ok) s' := by
  unfold wsOpen at ho
  split_ifs at ho with hg ht hu
  · cases ho
    exact .refused j r id ok _ (by simpa using mt Or.inl hg)
  · cases ho
    exact .refused j r id ok _ (by simpa using mt Or.inl hg)
  · have hj : s.clients j = none := by simpa using mt Or.inl hg
    have hid : id ∉ s.drawn := fun hm => hg (.inr (.inl hm))
    dsimp only at ho
    have hadded : Latest { s with
        drawn := id :: s.drawn
        wsConnections := s.wsConnections ++ [(id, j)] } := ⟨h.tunnel, h.unused⟩
    obtain hn | ⟨t, hm, hl, hsent, hc, hw, hd, hdrawn⟩ :=
      hadded.send_cases (.wsOpen id r.method r.url r.headers) ok
    · rw [hn] at ho
      obtain rfl := Option.some.inj ho
      exact .opened j r id ok .dropped _ hj hid ⟨hadded.tunnel, hadded.unused⟩ rfl rfl rfl rfl
        (.inl ⟨rfl, rfl⟩)
    · rw [hm] at ho
      obtain rfl := Option.some.inj ho
      refine .opened j r id ok (.connected id) _ hj hid ⟨hl.tunnel, hl.unused⟩ ?_ hw hd hdrawn
        (.inr ⟨rfl, hsent⟩)
      change t.clients.set j (.connected id) = _
      rw [hc]

theorem said_client (h : s.Latest) {d : ClientData} {ok : Bool}
    (hj : s.clients j = some (.connected id)) (t : JsString) (b : Bool) :
    s.ClientEffect (.wsMessage j d ok) ((s.send (.wsData id t b) ok).getD s) := by
  obtain hn | ⟨u, hu, hl, hsent, hc, hw, hd, hdrawn⟩ := h.send_cases (.wsData id t b) ok
  · rw [hn]
    exact .said j d ok id t b _ hj h rfl rfl rfl rfl (.inl rfl)
  · rw [hu]
    exact .said j d ok id t b _ hj hl hc hw hd hdrawn (.inr hsent)

theorem wsMessage_client (h : s.Latest) {d : ClientData} {ok : Bool}
    (hm : s.wsMessage j d ok = some s') : s.ClientEffect (.wsMessage j d ok) s' := by
  unfold wsMessage at hm
  split at hm
  · rename_i id hj
    cases d with
    | text t =>
      obtain rfl := Option.some.inj hm
      exact said_client h hj t false
    | binary b =>
      obtain rfl := Option.some.inj hm
      exact said_client h hj _ true
  · cases hm

theorem wsClose_client (h : s.Latest) {code : ℕ} {reason : JsString} {ok : Bool}
    (hm : s.wsClose j code reason ok = some s') :
    s.ClientEffect (.wsClose j code reason ok) s' := by
  unfold wsClose at hm
  split at hm
  · rename_i id hj
    dsimp only at hm
    obtain rfl := Option.some.inj hm
    have hleft : Latest { s with
        clients := s.clients.set j .closed
        wsConnections := s.wsConnections.filter fun p => p.1 ≠ id } := ⟨h.tunnel, h.unused⟩
    obtain hn | ⟨u, hu, hl, hsent, hc, hw, hd, hdrawn⟩ :=
      hleft.send_cases (.wsClose id code reason) ok
    · rw [hn]
      exact .left j code reason ok id _ hj hleft rfl rfl rfl rfl (.inl rfl)
    · rw [hu]
      exact .left j code reason ok id _ hj hl hc hw hd hdrawn (.inr hsent)
  · cases hm

theorem quiet_accept (h : s.Latest) : s.Quiet s.accept := by
  have hsent : s.accept.sent = s.sent := by
    simp only [sent, accept, List.range_succ, List.flatMap_append, List.flatMap_singleton,
      h.unused s.accepted le_rfl, List.append_nil]
  refine ⟨⟨?_, ?_⟩, rfl, rfl, rfl, List.Subset.refl _, fun id => ?_⟩
  · intro k hk
    obtain rfl := Option.some.inj hk
    rfl
  · intro k hk
    exact h.unused k (Nat.le_of_succ_le hk)
  · rw [HeadscaleTunnel.about, HeadscaleTunnel.about, hsent]

theorem quiet_close (h : s.Latest) {k : ℕ} (hc : s.close k = some s') : s.Quiet s' := by
  unfold close at hc
  split_ifs at hc
  cases hc
  refine ⟨⟨?_, h.unused⟩, rfl, rfl, rfl, List.Subset.refl _, fun _ => rfl⟩
  intro k hk
  cases hk

theorem quiet_request (h : s.Latest) {i : ℕ} {r : ClientRequest} {ok : Bool}
    (hr : s.request now i r id ok = some s') : s.Quiet s' := by
  unfold request at hr
  split_ifs at hr
  · cases hr
    exact quiet_settle h i _
  · split at hr
    · cases hr
      exact quiet_of_eq h rfl rfl rfl rfl rfl rfl (List.Subset.refl _)
    · cases hr
      exact quiet_sendRequest h i r id ok

theorem quiet_bodyRead (h : s.Latest) {i : ℕ} {read ok : Bool}
    (hr : s.bodyRead now i read id ok = some s') : s.Quiet s' := by
  unfold bodyRead at hr
  split at hr
  · split_ifs at hr
    · cases hr
      exact quiet_settle h i _
    · cases hr
      exact quiet_sendRequest h i _ id ok
  · cases hr

theorem quiet_timeout (h : s.Latest) {i : ℕ} (ht : s.timeout now i = some s') : s.Quiet s' := by
  unfold timeout at ht
  split at ht
  · split_ifs at ht
    cases ht
    exact quiet_of_eq h rfl rfl rfl rfl rfl rfl (List.Subset.refl _)
  · cases ht

theorem step_client (h : s.Latest) (hs : s.step now e = some s') : s.ClientEffect e s' := by
  cases e with
  | accept =>
    cases hs
    exact .quiet _ _ (quiet_accept h) rfl fun _ => rfl
  | close k => exact .quiet _ _ (quiet_close h hs) rfl fun _ => rfl
  | message k data ok =>
    simp only [step, message] at hs
    split_ifs at hs
    cases data with
    | none =>
      obtain rfl := Option.some.inj hs
      exact .quiet _ _ (.refl h) rfl fun _ => rfl
    | some v =>
      obtain rfl := Option.some.inj hs
      cases ok with
      | false => exact .quiet _ _ (quiet_failed h v) rfl fun _ => rfl
      | true => exact message_client h k v
  | request i r id ok => exact .quiet _ _ (quiet_request h hs) rfl fun _ => rfl
  | bodyRead i read id ok => exact .quiet _ _ (quiet_bodyRead h hs) rfl fun _ => rfl
  | timeout i => exact .quiet _ _ (quiet_timeout h hs) rfl fun _ => rfl
  | wsOpen j r id ok => exact wsOpen_client h hs
  | wsMessage j data ok => exact wsMessage_client h hs
  | wsClose j code reason ok => exact wsClose_client h hs

theorem ClientEffect.latest (he : s.ClientEffect e s') (h : s.Latest) : s'.Latest := by
  cases he with
  | quiet _ _ hq _ _ => exact hq.latest
  | opened _ _ _ _ _ _ _ _ hl => exact hl
  | said _ _ _ _ _ _ _ _ hl => exact hl
  | left _ _ _ _ _ _ _ hl => exact hl
  | _ => exact ⟨h.tunnel, h.unused⟩

/-- Where there is a tunnel, a WebSocket client gets an entry. -/
theorem wsOpen_entry (h : s.Latest) {r : ClientRequest} {ok : Bool} (ht : s.tunnel.isSome)
    (hr : r.header "upgrade" = some (js "websocket")) (ho : s.wsOpen j r id ok = some s') :
    s.clients j = none ∧ (id, j) ∈ s'.wsConnections ∧ s'.delivered = s.delivered := by
  unfold wsOpen at ho
  split_ifs at ho with hg hn hu
  · rw [Option.isNone_iff_eq_none] at hn
    rw [hn] at ht
    cases ht
  · exact absurd hr hu
  · have hj : s.clients j = none := by simpa using mt Or.inl hg
    dsimp only at ho
    have hadded : Latest { s with
        drawn := id :: s.drawn
        wsConnections := s.wsConnections ++ [(id, j)] } := ⟨h.tunnel, h.unused⟩
    have hm : (id, j) ∈ s.wsConnections ++ [(id, j)] := by simp
    obtain hn | ⟨t, ht, -, -, -, hw, hd, -⟩ :=
      hadded.send_cases (.wsOpen id r.method r.url r.headers) ok
    · rw [hn] at ho
      obtain rfl := Option.some.inj ho
      exact ⟨hj, hm, rfl⟩
    · rw [ht] at ho
      obtain rfl := Option.some.inj ho
      exact ⟨hj, hw ▸ hm, hd⟩

/-! ## Data for a client -/

/-- Clients and identifiers belong together one to one. -/
structure Named (s : HeadscaleTunnel) : Prop where
  drawn : ∀ p ∈ s.wsConnections, p.1 ∈ s.drawn
  known : ∀ p ∈ s.wsConnections, s.clients p.2 ≠ none
  ids : (s.wsConnections.map Prod.fst).Nodup
  handlers : (s.wsConnections.map Prod.snd).Nodup
  connected : ∀ j id, s.clients j = some (.connected id) →
    id ∈ s.drawn ∧ ∀ p ∈ s.wsConnections, p.1 = id ↔ p.2 = j
  unique : ∀ j i id, s.clients j = some (.connected id) → s.clients i = some (.connected id) →
    j = i
  silent : ∀ j, s.clients j = none → s.delivered j = []

theorem Named.initial : HeadscaleTunnel.initial.Named where
  drawn p hp := by cases hp
  known p hp := by cases hp
  ids := List.nodup_nil
  handlers := List.nodup_nil
  connected j id h := by cases h
  unique j i id h := by cases h
  silent _ _ := rfl

/-- Neither the clients nor their entries change, and nothing is delivered. -/
theorem Named.of_eq (h : s.Named) (hc : s'.clients = s.clients)
    (hw : s'.wsConnections = s.wsConnections) (hd : s'.delivered = s.delivered)
    (hn : s.drawn ⊆ s'.drawn) : s'.Named := by
  constructor
  · rw [hw]
    exact fun p hp => hn (h.drawn p hp)
  · rw [hw, hc]
    exact h.known
  · rw [hw]
    exact h.ids
  · rw [hw]
    exact h.handlers
  · rw [hw, hc]
    exact fun j id hj => ⟨hn (h.connected j id hj).1, (h.connected j id hj).2⟩
  · rw [hc]
    exact h.unique
  · rw [hc, hd]
    exact h.silent

theorem Named.drop (h : s.Named) (id : JsString) :
    Named { s with wsConnections := s.wsConnections.filter fun p => p.1 ≠ id } where
  drawn p hp := h.drawn p (List.mem_filter.mp hp).1
  known p hp := h.known p (List.mem_filter.mp hp).1
  ids := h.ids.sublist (List.filter_sublist.map _)
  handlers := h.handlers.sublist (List.filter_sublist.map _)
  connected j id hj :=
    ⟨(h.connected j id hj).1, fun p hp => (h.connected j id hj).2 p (List.mem_filter.mp hp).1⟩
  unique := h.unique
  silent := h.silent

/-- A client that is refused or closed has no name. -/
theorem Named.set (h : s.Named) (j : ℕ) {c : ClientThread} (hc : ∀ id, c ≠ .connected id) :
    Named { s with clients := s.clients.set j c } := by
  have hback : ∀ i id, s.clients.set j c i = some (.connected id) →
      s.clients i = some (.connected id) := fun i id hi => Table.of_set hi (hc id)
  refine ⟨h.drawn, fun p hp => ?_, h.ids, h.handlers, fun i id hi => h.connected i id (hback i id hi),
    fun i k id hi hk => h.unique i k id (hback i id hi) (hback k id hk), fun i hi => ?_⟩
  · change s.clients.set j c p.2 ≠ none
    by_cases hp2 : p.2 = j
    · rw [hp2, Table.set_self]
      exact Option.some_ne_none c
    · rw [Table.set_of_ne hp2]
      exact h.known p hp
  · change s.clients.set j c i = none at hi
    by_cases hij : i = j
    · rw [hij, Table.set_self] at hi
      cases hi
    · rw [Table.set_of_ne hij] at hi
      exact h.silent i hi

/-- A new client under a new identifier. -/
theorem Named.enter (h : s.Named) {c : ClientThread} (hj : s.clients j = none) (hid : id ∉ s.drawn)
    (hs : ∀ id', c = .connected id' → id' = id) (hc : s'.clients = s.clients.set j c)
    (hw : s'.wsConnections = s.wsConnections ++ [(id, j)]) (hd : s'.delivered = s.delivered)
    (hn : s'.drawn = id :: s.drawn) : s'.Named := by
  have hnew : ∀ p ∈ s.wsConnections, p.1 ≠ id ∧ p.2 ≠ j := by
    intro p hp
    constructor
    · rintro rfl
      exact hid (h.drawn p hp)
    · rintro rfl
      exact h.known p hp hj
  have hcases : ∀ i id', s'.clients i = some (.connected id') →
      i = j ∧ id' = id ∨ i ≠ j ∧ s.clients i = some (.connected id') := by
    intro i id' hi
    rw [hc] at hi
    rcases Table.set_eq_some_iff.mp hi with ⟨rfl, he⟩ | ⟨hne, hi⟩
    · exact .inl ⟨rfl, hs id' he⟩
    · exact .inr ⟨hne, hi⟩
  have hother : ∀ i id', s.clients i = some (.connected id') → id' ≠ id := by
    rintro i id' hi rfl
    exact hid (h.connected i id' hi).1
  have hnone : ∀ i, s'.clients i = none → s.clients i = none := by
    intro i hi
    rw [hc] at hi
    by_cases hij : i = j
    · rw [hij, Table.set_self] at hi
      cases hi
    · rwa [Table.set_of_ne hij] at hi
  constructor
  · rw [hw, hn]
    intro p hp
    rcases List.mem_append.mp hp with hp | hp
    · exact List.mem_cons_of_mem _ (h.drawn p hp)
    · rw [List.mem_singleton.mp hp]
      exact List.mem_cons_self
  · rw [hw]
    intro p hp hnp
    rcases List.mem_append.mp hp with hp | hp
    · exact h.known p hp (hnone _ hnp)
    · rw [List.mem_singleton.mp hp, hc, Table.set_self] at hnp
      cases hnp
  · rw [hw, List.map_append, List.map_singleton]
    refine h.ids.append (List.nodup_singleton _) ?_
    simp only [List.disjoint_singleton, List.mem_map, not_exists, not_and]
    exact fun p hp => (hnew p hp).1
  · rw [hw, List.map_append, List.map_singleton]
    refine h.handlers.append (List.nodup_singleton _) ?_
    simp only [List.disjoint_singleton, List.mem_map, not_exists, not_and]
    exact fun p hp => (hnew p hp).2
  · intro i id' hi
    rw [hn, hw]
    rcases hcases i id' hi with ⟨rfl, rfl⟩ | ⟨hij, hi⟩
    · refine ⟨List.mem_cons_self, fun p hp => ?_⟩
      rcases List.mem_append.mp hp with hp | hp
      · exact iff_of_false (hnew p hp).1 (hnew p hp).2
      · rw [List.mem_singleton.mp hp]
        exact iff_of_true rfl rfl
    · refine ⟨List.mem_cons_of_mem _ (h.connected i id' hi).1, fun p hp => ?_⟩
      rcases List.mem_append.mp hp with hp | hp
      · exact (h.connected i id' hi).2 p hp
      · rw [List.mem_singleton.mp hp]
        exact iff_of_false (hother i id' hi).symm hij.symm
  · intro i k id' hi hk
    rcases hcases i id' hi with ⟨rfl, rfl⟩ | ⟨-, hi⟩ <;>
      rcases hcases k _ hk with ⟨rfl, hid'⟩ | ⟨-, hk⟩
    · rfl
    · exact absurd rfl (hother k _ hk)
    · exact absurd hid' (hother i id' hi)
    · exact h.unique i k id' hi hk
  · intro i hi
    rw [hd]
    exact h.silent i (hnone i hi)

theorem Named.effect (h : s.Named) (he : s.ClientEffect e s') : s'.Named := by
  cases he with
  | quiet _ _ hq _ _ => exact h.of_eq hq.clients hq.wsConnections hq.delivered hq.drawn
  | unknown _ _ _ _ _ => exact h
  | data _ id j d _ hw =>
    refine ⟨h.drawn, h.known, h.ids, h.handlers, h.connected, h.unique, fun i hi => ?_⟩
    have hij : i ≠ j := by
      rintro rfl
      exact h.known _ (mem_of_lookup hw) hi
    change Function.update s.delivered j _ i = []
    rw [Function.update_of_ne hij]
    exact h.silent i hi
  | ended _ id _ _ _ => exact h.drop id
  | refused j _ _ _ _ hj => exact h.set j fun id hc => by cases hc
  | opened j r id ok c _ hj hid _ hc hw hd hn hs =>
    refine h.enter hj hid ?_ hc hw hd hn
    rintro id' rfl
    rcases hs with ⟨hc, -⟩ | ⟨hc, -⟩
    · cases hc
    · cases hc
      rfl
  | said _ _ _ _ _ _ _ _ _ hc hw hd hn =>
    exact h.of_eq hc hw hd (hn ▸ List.Subset.refl _)
  | left j _ _ _ id _ hj _ hc hw hd hn =>
    have hleft := (h.set j (c := .closed) fun id hc => by cases hc).drop id
    refine hleft.of_eq hc hw hd fun id hid => ?_
    rw [hn]
    exact hid

/-- The client is known and has no entry. -/
def Gone (s : HeadscaleTunnel) (j : ℕ) : Prop :=
  s.clients j ≠ none ∧ ∀ p ∈ s.wsConnections, p.2 ≠ j

theorem set_ne_none {t : Table ℕ ClientThread} {i : ℕ} {c : ClientThread} (h : t j ≠ none) :
    t.set i c j ≠ none := by
  by_cases hij : j = i
  · rw [hij, Table.set_self]
    exact Option.some_ne_none c
  · rwa [Table.set_of_ne hij]

theorem leaves_of_address {a : JsString × Option JsValue} (h : e.address = some a) (j : ℕ) :
    e.leaves j = false := by
  cases e with
  | wsClose => cases h
  | _ => rfl

/-- Nothing more is delivered to a client without an entry. -/
theorem Gone.effect (h : s.Gone j) (he : s.ClientEffect e s') :
    s'.Gone j ∧ s'.delivered j = s.delivered j := by
  obtain ⟨hj, hp⟩ := h
  have hdrop : ∀ id, ∀ p ∈ s.wsConnections.filter (fun p => p.1 ≠ id), p.2 ≠ j :=
    fun id p hm => hp p (List.mem_filter.mp hm).1
  cases he with
  | quiet _ _ hq _ _ =>
    refine ⟨⟨?_, ?_⟩, by rw [hq.delivered]⟩
    · rwa [hq.clients]
    · rwa [hq.wsConnections]
  | unknown _ _ _ _ _ => exact ⟨⟨hj, hp⟩, rfl⟩
  | data _ id i d _ hw =>
    have hne : i ≠ j := hp _ (mem_of_lookup hw)
    exact ⟨⟨hj, hp⟩, Function.update_of_ne hne.symm _ _⟩
  | ended _ id _ _ _ => exact ⟨⟨hj, hdrop id⟩, rfl⟩
  | refused i _ _ _ _ _ => exact ⟨⟨set_ne_none hj, hp⟩, rfl⟩
  | opened i r id ok c _ hi _ _ hc hw hd _ _ =>
    refine ⟨⟨?_, ?_⟩, by rw [hd]⟩
    · rw [hc]
      exact set_ne_none hj
    · rw [hw]
      intro p hm
      rcases List.mem_append.mp hm with hm | hm
      · exact hp p hm
      · rw [List.mem_singleton.mp hm]
        rintro rfl
        exact hj hi
  | said _ _ _ _ _ _ _ _ _ hc hw hd _ =>
    refine ⟨⟨?_, ?_⟩, by rw [hd]⟩
    · rwa [hc]
    · rwa [hw]
  | left i _ _ _ id _ _ _ hc hw hd _ =>
    refine ⟨⟨?_, ?_⟩, by rw [hd]⟩
    · rw [hc]
      exact set_ne_none hj
    · rw [hw]
      exact hdrop id

/-- An event passes on the data for a client with an entry, or ends it. -/
theorem Named.entry_effect (h : s.Named) (hm : (id, j) ∈ s.wsConnections)
    (he : s.ClientEffect e s') :
    (e.ends id j = true ∧ s'.Gone j ∧ s'.delivered j = s.delivered j) ∨
      e.ends id j = false ∧ (id, j) ∈ s'.wsConnections ∧
        s'.delivered j = s.delivered j ++ (e.chunk id).toList := by
  have hlook : s.wsConnections.lookup id = some j := lookup_eq_some_of_mem h.ids hm
  have hidle : ∀ (s' : HeadscaleTunnel) (id' : JsString) (d : Option JsValue), id' ≠ id →
      e.address = some (id', d) → (id, j) ∈ s'.wsConnections → s'.delivered j = s.delivered j →
        (e.ends id j = true ∧ s'.Gone j ∧ s'.delivered j = s.delivered j) ∨
          e.ends id j = false ∧ (id, j) ∈ s'.wsConnections ∧
            s'.delivered j = s.delivered j ++ (e.chunk id).toList := by
    intro s' id' d hne ha hm' hd
    refine .inr ⟨?_, hm', ?_⟩
    · simp [TunnelEvent.ends, leaves_of_address ha, ha, hne]
    · simp [TunnelEvent.chunk, ha, hne, hd]
  have hlost : ∀ p ∈ s.wsConnections.filter (fun p => p.1 ≠ id), p.2 ≠ j := by
    intro p hp hpj
    obtain ⟨hp, hne⟩ := List.mem_filter.mp hp
    have hpe := List.inj_on_of_nodup_map h.handlers hp hm hpj
    subst hpe
    simp at hne
  cases he with
  | quiet _ _ hq ha hl =>
    refine .inr ⟨?_, ?_, ?_⟩
    · simp [TunnelEvent.ends, hl, ha]
    · rwa [hq.wsConnections]
    · simp [TunnelEvent.chunk, ha, hq.delivered]
  | unknown _ id' d ha hw =>
    refine hidle _ id' d ?_ ha hm rfl
    rintro rfl
    cases hlook.symm.trans hw
  | data _ id' i d ha hw =>
    by_cases hid : id' = id
    · subst hid
      obtain rfl := Option.some.inj (hlook.symm.trans hw)
      refine .inr ⟨?_, hm, ?_⟩
      · simp [TunnelEvent.ends, leaves_of_address ha, ha]
      · simp [TunnelEvent.chunk, ha]
    · refine hidle _ id' _ hid ha hm (Function.update_of_ne ?_ _ _)
      rintro rfl
      exact hid (congrArg Prod.fst
        (List.inj_on_of_nodup_map h.handlers (mem_of_lookup hw) hm rfl))
  | ended _ id' i ha hw =>
    by_cases hid : id' = id
    · subst hid
      refine .inl ⟨?_, ⟨h.known _ hm, hlost⟩, rfl⟩
      simp [TunnelEvent.ends, ha]
    · refine hidle _ id' _ hid ha ?_ rfl
      exact List.mem_filter.mpr ⟨hm, decide_eq_true (Ne.symm hid)⟩
  | refused i _ _ _ _ _ => exact .inr ⟨rfl, hm, (List.append_nil _).symm⟩
  | opened i _ _ _ _ _ _ _ _ _ hw hd _ _ =>
    refine .inr ⟨rfl, ?_, ?_⟩
    · rw [hw]
      exact List.mem_append_left _ hm
    · rw [hd]
      exact (List.append_nil _).symm
  | said i _ _ _ _ _ _ _ _ _ hw hd _ =>
    refine .inr ⟨rfl, ?_, ?_⟩
    · rwa [hw]
    · rw [hd]
      exact (List.append_nil _).symm
  | left i code reason ok id' _ hi _ hc hw hd _ =>
    have hiff := (h.connected i id' hi).2 _ hm
    by_cases hij : i = j
    · subst hij
      obtain rfl : id = id' := hiff.mpr rfl
      refine .inl ⟨?_, ⟨?_, ?_⟩, by rw [hd]⟩
      · simp [TunnelEvent.ends, TunnelEvent.leaves]
      · rw [hc, Table.set_self]
        exact Option.some_ne_none _
      · rw [hw]
        exact hlost
    · refine .inr ⟨?_, ?_, ?_⟩
      · simp [TunnelEvent.ends, TunnelEvent.leaves, TunnelEvent.address, hij]
      · rw [hw]
        refine List.mem_filter.mpr ⟨hm, decide_eq_true fun hid => hij (hiff.mp hid).symm⟩
      · rw [hd]
        exact (List.append_nil _).symm

/-! ## What is sent about a client -/

theorem about_of_ne {m : Message} {id' : JsString} (h : s'.sent = s.sent ++ [m])
    (hm : m.client? = some id) (hne : id' ≠ id) : s'.about id' = s.about id' := by
  rw [about_append h, List.filter_singleton, hm]
  simp [hne.symm]

theorem about_self {m : Message} (id : JsString) (h : s'.sent = s.sent ++ [m])
    (hm : m.client? = some id) :
    s'.about id = s.about id ++ [m] := by
  rw [about_append h, List.filter_singleton, hm]
  simp

theorem about_of_sent (h : s'.sent = s.sent) (id : JsString) : s'.about id = s.about id := by
  rw [about, about, h]

/-- Nothing is said under an identifier before it is drawn, and a connected client has not been
left. -/
structure Spoken (s : HeadscaleTunnel) : Prop where
  fresh : ∀ id, id ∉ s.drawn → s.about id = []
  talking : ∀ j id, s.clients j = some (.connected id) → Talking id (s.about id)
  all : ∀ id, Conversation id (s.about id)

theorem Spoken.initial : HeadscaleTunnel.initial.Spoken where
  fresh _ _ := rfl
  talking j id h := by cases h
  all _ := .inl rfl

/-- Nothing is said, and no client is connected that was not. -/
theorem Spoken.of_eq (h : s.Spoken) (hn : s.drawn ⊆ s'.drawn)
    (hc : ∀ j id, s'.clients j = some (.connected id) → s.clients j = some (.connected id))
    (ha : ∀ id, s'.about id = s.about id) : s'.Spoken := by
  constructor
  · intro id hid
    rw [ha]
    exact h.fresh id fun hm => hid (hn hm)
  · intro j id hj
    rw [ha]
    exact h.talking j id (hc j id hj)
  · intro id
    rw [ha]
    exact h.all id

/-- One message is said about one client; whoever else is connected was so before. -/
theorem Spoken.add {m : Message} (h : s.Spoken) (hs : s'.sent = s.sent ++ [m])
    (hm : m.client? = some id) (hn : s.drawn ⊆ s'.drawn) (hid : id ∈ s'.drawn)
    (hc : ∀ i id', s'.clients i = some (.connected id') →
      id' = id ∧ Talking id (s.about id ++ [m]) ∨
        id' ≠ id ∧ s.clients i = some (.connected id'))
    (hall : Conversation id (s.about id ++ [m])) : s'.Spoken := by
  have hself := about_self id hs hm
  have hother : ∀ id', id' ≠ id → s'.about id' = s.about id' := fun id' => about_of_ne hs hm
  constructor
  · intro id' hid'
    have hne : id' ≠ id := by
      rintro rfl
      exact hid' hid
    rw [hother id' hne]
    exact h.fresh id' fun hd => hid' (hn hd)
  · intro i id' hi
    rcases hc i id' hi with ⟨rfl, htalk⟩ | ⟨hne, hi⟩
    · rwa [hself]
    · rw [hother id' hne]
      exact h.talking i id' hi
  · intro id'
    by_cases hne : id' = id
    · rw [hne, hself]
      exact hall
    · rw [hother id' hne]
      exact h.all id'

theorem Spoken.effect (h : s.Spoken) (hn : s.Named) (he : s.ClientEffect e s') : s'.Spoken := by
  cases he with
  | quiet _ _ hq _ _ => exact h.of_eq hq.drawn (fun j id hj => hq.clients ▸ hj) hq.about
  | unknown _ _ _ _ _ => exact h
  | data _ _ _ _ _ _ => exact h.of_eq (List.Subset.refl _) (fun _ _ hj => hj) fun _ => rfl
  | ended _ _ _ _ _ => exact h.of_eq (List.Subset.refl _) (fun _ _ hj => hj) fun _ => rfl
  | refused i _ _ _ err _ =>
    exact h.of_eq (List.Subset.refl _) (fun j id hj => Table.of_set hj (by simp)) fun _ => rfl
  | opened j r id ok c _ hj hid _ hc _ _ hdrawn hs =>
    have hsub : s.drawn ⊆ id :: s.drawn := List.subset_cons_self _ _
    rw [← hdrawn] at hsub
    rcases hs with ⟨rfl, hs⟩ | ⟨rfl, hs⟩
    · refine h.of_eq hsub (fun i id' hi => ?_) (about_of_sent hs)
      rw [hc] at hi
      exact Table.of_set hi (by simp)
    · have hopen : Talking id (s.about id ++ [.wsOpen id r.method r.url r.headers]) := by
        rw [h.fresh id hid]
        exact ⟨_, _, _, [], rfl, fun m hm => by cases hm⟩
      refine h.add hs rfl hsub (hdrawn ▸ List.mem_cons_self) (fun i id' hi => ?_)
        hopen.unended
      rw [hc] at hi
      rcases Table.set_eq_some_iff.mp hi with ⟨-, he⟩ | ⟨-, hold⟩
      · cases he
        exact .inl ⟨rfl, hopen⟩
      · refine .inr ⟨?_, hold⟩
        rintro rfl
        exact hid (hn.connected i id' hold).1
  | said j d ok id t b _ hj _ hc _ _ hdrawn hs =>
    rcases hs with hs | hs
    · exact h.of_eq (hdrawn ▸ List.Subset.refl _) (fun i id' hi => hc ▸ hi) (about_of_sent hs)
    · have htalk := (h.talking j id hj).say t b
      refine h.add hs rfl (hdrawn ▸ List.Subset.refl _) (hdrawn ▸ (hn.connected j id hj).1)
        (fun i id' hi => ?_) htalk.unended
      rw [hc] at hi
      by_cases hne : id' = id
      · exact .inl ⟨hne, htalk⟩
      · exact .inr ⟨hne, hi⟩
  | left j code reason ok id _ hj _ hc _ _ hdrawn hs =>
    have hback : ∀ i id', s'.clients i = some (.connected id') →
        i ≠ j ∧ s.clients i = some (.connected id') := by
      intro i id' hi
      rw [hc] at hi
      rcases Table.set_eq_some_iff.mp hi with ⟨-, hi⟩ | hi
      · cases hi
      · exact hi
    rcases hs with hs | hs
    · exact h.of_eq (hdrawn ▸ List.Subset.refl _) (fun i id' hi => (hback i id' hi).2)
        (about_of_sent hs)
    · refine h.add hs rfl (hdrawn ▸ List.Subset.refl _) (hdrawn ▸ (hn.connected j id hj).1)
        (fun i id' hi => .inr ⟨?_, (hback i id' hi).2⟩) ((h.talking j id hj).leave code reason)
      rintro rfl
      exact (hback i id' hi).1 (hn.unique i j id' (hback i id' hi).2 hj)

/-- What holds of the clients in every state. -/
structure Clients (s : HeadscaleTunnel) : Prop where
  latest : s.Latest
  named : s.Named
  spoken : s.Spoken

theorem Clients.initial : HeadscaleTunnel.initial.Clients :=
  ⟨⟨fun k hk => (by cases hk), fun _ _ => rfl⟩, .initial, .initial⟩

theorem Clients.effect (h : s.Clients) (he : s.ClientEffect e s') : s'.Clients :=
  ⟨he.latest h.latest, h.named.effect he, h.spoken.effect h.named he⟩

end HeadscaleTunnel

section Runs

variable {s s' : ℕ × HeadscaleTunnel} {es : List (ℕ × TunnelEvent)} {id : JsString} {j : ℕ}

theorem clients_step {e : ℕ × TunnelEvent} (h : s.2.Clients)
    (hs : tunnelObject.step s e = some s') : s.2.ClientEffect e.2 s'.2 :=
  HeadscaleTunnel.step_client h.latest (Machine.timed_step.mp hs).2.2

theorem clients_exec (h : s.2.Clients) (hr : tunnelObject.exec s es = some s') : s'.2.Clients :=
  Machine.exec_invariant (Q := fun s => s.2.Clients)
    (fun _ _ _ _ hs h => h.effect (clients_step h hs)) h hr

/-- A client without an entry gets nothing in a run. -/
theorem gone_exec (h : s.2.Clients) (hj : s.2.Gone j) (hr : tunnelObject.exec s es = some s') :
    s'.2.delivered j = s.2.delivered j := by
  induction es generalizing s with
  | nil => rw [Option.some.inj hr]
  | cons e es ih =>
    obtain ⟨t, ht, hr⟩ := Option.bind_eq_some_iff.mp hr
    have he := clients_step h ht
    obtain ⟨hgone, hd⟩ := hj.effect he
    rw [ih (h.effect he) hgone hr, hd]

/-- A client with an entry gets its data up to its end in a run. -/
theorem entry_exec (h : s.2.Clients) (hm : (id, j) ∈ s.2.wsConnections)
    (hr : tunnelObject.exec s es = some s') :
    s'.2.delivered j = s.2.delivered j ++ deliveries id j (es.map Prod.snd) := by
  induction es generalizing s with
  | nil =>
    cases hr
    exact (List.append_nil _).symm
  | cons e es ih =>
    obtain ⟨t, ht, hr⟩ := Option.bind_eq_some_iff.mp hr
    have he := clients_step h ht
    rw [List.map_cons, deliveries]
    rcases h.named.entry_effect hm he with ⟨hend, hgone, hd⟩ | ⟨hend, hm, hd⟩
    · rw [gone_exec (h.effect he) hgone hr, hd, if_pos hend, List.append_nil]
    · rw [ih (h.effect he) hm hr, hd, hend, List.append_assoc]
      rfl

end Runs

/-- In every run, what the object sends about a client over its sockets is its opening, then its
data, then at most one end. -/
theorem conversation {now : ℕ} {es : List (ℕ × TunnelEvent)} {s : ℕ × HeadscaleTunnel}
    (hr : tunnelObject.exec (now, HeadscaleTunnel.initial) es = some s) (id : JsString) :
    Conversation id (s.2.about id) :=
  (clients_exec (s := (now, HeadscaleTunnel.initial)) .initial hr).spoken.all id

/-- From its opening on, whether or not the sidecar heard of it, a client is sent exactly the data
for its identifier up to its first end, in order, through any changes of the socket. -/
theorem delivered_eq {now t j : ℕ} {front back : List (ℕ × TunnelEvent)} {r : ClientRequest}
    {id : JsString} {ok : Bool} {u s : ℕ × HeadscaleTunnel}
    (hu : tunnelObject.exec (now, HeadscaleTunnel.initial) front = some u)
    (ht : u.2.tunnel.isSome) (hr : r.header "upgrade" = some (js "websocket"))
    (hs : tunnelObject.exec u ((t, .wsOpen j r id ok) :: back) = some s) :
    s.2.delivered j = deliveries id j (back.map Prod.snd) := by
  have hu' := clients_exec (s := (now, HeadscaleTunnel.initial)) .initial hu
  obtain ⟨v, hv, hs⟩ := Option.bind_eq_some_iff.mp hs
  have he := clients_step hu' hv
  have hstep := (Machine.timed_step.mp hv).2.2
  obtain ⟨hj, hm, hd⟩ := HeadscaleTunnel.wsOpen_entry hu'.latest ht hr hstep
  rw [entry_exec (hu'.effect he) hm hs, hd, hu'.named.silent j hj, List.nil_append]

/-- A WebSocket request of a client. -/
def websocketRequest : ClientRequest where
  method := js "GET"
  url := js "https://headfwd.net/ts2021"
  headers := [(js "upgrade", js "websocket")]
  body := none

/-- A message of the sidecar for a client. -/
def clientMessage (type id data : String) : JsValue :=
  .object [(js "type", .string (js type)),
    (js "data", .object [(js "id", .string (js id)), (js "data", .string (js data))])]

/-- What follows an opening: data both ways, a new socket, the end, and data behind the end. -/
def chatRun : List (ℕ × TunnelEvent) :=
  [(2, .message 0 (some (clientMessage "ws_data" "a" "hi")) true),
    (3, .wsMessage 0 (.text (js "yes")) true), (4, .accept),
    (5, .message 0 (some (clientMessage "ws_data" "b" "no")) true),
    (6, .message 1 (some (clientMessage "ws_data" "a" "bye")) true),
    (7, .message 1 (some (clientMessage "ws_close" "a" "")) true),
    (8, .message 1 (some (clientMessage "ws_data" "a" "late")) true),
    (9, .wsClose 0 1000 (js "done") true)]

theorem conversation_chatRun :
    ∃ s, tunnelObject.exec (0, HeadscaleTunnel.initial) ((0, .accept) ::
        (1, .wsOpen 0 websocketRequest (js "a") true) :: chatRun) = some s ∧
      Conversation (js "a") (s.2.about (js "a")) := by
  have h : (tunnelObject.exec (0, HeadscaleTunnel.initial) ((0, .accept) ::
      (1, .wsOpen 0 websocketRequest (js "a") true) :: chatRun)).isSome := by decide +kernel
  obtain ⟨s, hs⟩ := Option.isSome_iff_exists.mp h
  exact ⟨s, hs, conversation hs (js "a")⟩

theorem delivered_eq_chatRun :
    ∃ s, tunnelObject.exec (0, HeadscaleTunnel.initial.accept)
        ((1, .wsOpen 0 websocketRequest (js "a") true) :: chatRun) = some s ∧
      s.2.delivered 0 = deliveries (js "a") 0 (chatRun.map Prod.snd) := by
  have h : (tunnelObject.exec (0, HeadscaleTunnel.initial.accept)
      ((1, .wsOpen 0 websocketRequest (js "a") true) :: chatRun)).isSome := by decide +kernel
  obtain ⟨s, hs⟩ := Option.isSome_iff_exists.mp h
  have hu : tunnelObject.exec (0, HeadscaleTunnel.initial) [(0, .accept)] =
      some (0, HeadscaleTunnel.initial.accept) := rfl
  exact ⟨s, hs, delivered_eq hu rfl (by decide +kernel) hs⟩

end HeadFwd.Worker
