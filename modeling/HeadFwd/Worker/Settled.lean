import HeadFwd.Worker.Reconnect

/-! # Settling client requests

A forwarded request waits on a promise with an entry in `pendingRequests` and a
timer. A response, the timer, the close handler and a failed send each remove
the entry, stop the timer and settle the promise. The response handler does the
first two before it rebuilds the response, and what it calls there may throw: a
response that cannot be rebuilt leaves its promise behind for good.
-/

namespace HeadFwd.Worker

open Text Net Transition Js

/-- What the `Response` constructor is given as a body. -/
inductive BodyInit where
  | value (v : JsValue)
  | binary (b : Bytes)

/-- The calls with which a response is rebuilt: `atob`, for which `none` is an exception, and the
`Response` constructor, which returns or throws. -/
structure Platform where
  atob : JsString → Option JsString
  constructs (body : BodyInit) (status headers : JsValue) : Bool

/-- The value of a number written as a plain decimal integer. -/
def integer (text : JsString) : Option ℕ :=
  if text ≠ [] ∧ text.all fun a => 0x30 ≤ a && a ≤ 0x39 then
    some (text.foldl (fun n a => 10 * n + (a.toNat - 0x30)) 0)
  else none

/-- A code unit that may stand in base64 text, white space included. -/
def isBase64Unit (a : UInt16) : Bool :=
  0x41 ≤ a && a ≤ 0x5A || 0x61 ≤ a && a ≤ 0x7A || 0x30 ≤ a && a ≤ 0x39 || a = 0x2B || a = 0x2F ||
    a = 0x3D || isSpace a

namespace Platform

/-- What the platform is known to refuse. -/
structure Documented (p : Platform) : Prop where
  atob : ∀ s, s.all isBase64Unit = false → p.atob s = none
  status : ∀ body text n headers, integer text = some n → ¬ (200 ≤ n ∧ n ≤ 599) →
    p.constructs body (.number text) headers = false
  headers : ∀ body status fields name value a, (name, .string value) ∈ fields → a ∈ value →
    255 < a.toNat → p.constructs body status (.object fields) = false

variable (p : Platform)

def fromBase64 (b64 : JsValue) : Option Bytes := do
  let binary ← p.atob (← b64.text)
  return binary.map UInt16.toUInt8

/-- The response of a message can be rebuilt. -/
def rebuilds (response : JsValue) : Bool :=
  match response.get (js "body"), response.get (js "isBinary"), response.get (js "status"),
    response.get (js "headers") with
  | some body, some isBinary, some status, some headers =>
    if isBinary.truthy && body.truthy then
      (p.fromBase64 body).any fun binary => p.constructs (.binary binary) status headers
    else
      let body := match body with
        | .undefined => .null
        | v => v
      p.constructs (.value body) status headers
  | _, _, _, _ => false

end Platform

/-- The data of a response message. -/
def responseData (v : JsValue) : Option JsValue :=
  match v.get (js "type"), v.get (js "data") with
  | some (.string type), some data => if type = js "response" then some data else none
  | _, _ => none

/-- A response is rebuilt as the platform does it. -/
def TunnelEvent.agrees (p : Platform) : TunnelEvent → Bool
  | .message _ (some v) ok => (responseData v).all fun data => ok = p.rebuilds data
  | _ => true

namespace HeadscaleTunnel

/-- The entry that a response finds. -/
def pendingFor (s : HeadscaleTunnel) (data : JsValue) : Option (JsString × ℕ) :=
  match data.get (js "id") with
  | some (.string id) => (s.pendingRequests.lookup id).map fun i => (id, i)
  | _ => none

/-- A response for a pending request can be rebuilt. -/
def rebuilt (p : Platform) (s : HeadscaleTunnel) : TunnelEvent → Bool
  | .message _ (some v) _ =>
    (responseData v).all fun data => (s.pendingFor data).isNone || p.rebuilds data
  | _ => true

/-- Every promise that is not settled has its entry, and its timer settles it in at most thirty
seconds. -/
def Watched (now : ℕ) (s : HeadscaleTunnel) : Prop :=
  ∀ i id deadline, s.requests i = some (.waiting id deadline) →
    s.pendingRequests.lookup id = some i ∧ deadline ≤ now + 30000 ∧
      ∀ later, deadline ≤ later → ∃ s', s.timeout later i = some s' ∧
        s'.requests i = some (.settled (.rejected .timeout))

/-- The thread is not waiting for a response. -/
def Idle (s : HeadscaleTunnel) (i : ℕ) : Prop :=
  ∀ id deadline, s.requests i ≠ some (.waiting id deadline)

/-- What an event does to the promises. -/
inductive Turn (now : ℕ) (s : HeadscaleTunnel) : HeadscaleTunnel → Prop where
  | same {s' : HeadscaleTunnel} (hr : s'.requests = s.requests)
    (hp : s'.pendingRequests = s.pendingRequests) (hd : s.drawn ⊆ s'.drawn) : Turn now s s'
  | idle {s' : HeadscaleTunnel} (i : ℕ) (t : RequestThread) (hi : s.Idle i)
    (ht : ∀ id deadline, t ≠ .waiting id deadline) (hr : s'.requests = s.requests.set i t)
    (hp : s'.pendingRequests = s.pendingRequests) (hd : s.drawn ⊆ s'.drawn) : Turn now s s'
  | sent {s' : HeadscaleTunnel} (i : ℕ) (id : JsString) (hi : s.Idle i) (hid : id ∉ s.drawn)
    (hr : s'.requests = s.requests.set i (.waiting id (now + 30000)))
    (hp : s'.pendingRequests = s.pendingRequests ++ [(id, i)]) (hd : s'.drawn = id :: s.drawn) :
    Turn now s s'
  | settled {s' : HeadscaleTunnel} (i : ℕ) (id : JsString) (o : Settlement)
    (hl : s.pendingRequests.lookup id = some i) (hr : s'.requests = s.requests.set i (.settled o))
    (hp : s'.pendingRequests = s.pendingRequests.filter fun p => p.1 ≠ id)
    (hd : s.drawn ⊆ s'.drawn) : Turn now s s'
  | closed {s' : HeadscaleTunnel} (o : Settlement)
    (hr : s'.requests = fun i =>
      if s.pendingRequests.any fun p => p.2 = i then some (.settled o) else s.requests i)
    (hp : s'.pendingRequests = []) (hd : s.drawn ⊆ s'.drawn) : Turn now s s'

/-- The entries are those of the waiting requests, each under its own identifier. -/
structure Listed (now : ℕ) (s : HeadscaleTunnel) : Prop where
  entry : ∀ i id deadline, s.requests i = some (.waiting id deadline) →
    (id, i) ∈ s.pendingRequests ∧ deadline ≤ now + 30000
  waiting : ∀ id i, (id, i) ∈ s.pendingRequests →
    ∃ deadline, s.requests i = some (.waiting id deadline)
  nodup : (s.pendingRequests.map Prod.fst).Nodup
  drawn : ∀ id i, (id, i) ∈ s.pendingRequests → id ∈ s.drawn

variable {now : ℕ} {s s' : HeadscaleTunnel} {p : Platform} {e : TunnelEvent}

theorem Listed.watched (h : s.Listed now) : s.Watched now := by
  intro i id deadline hi
  obtain ⟨hm, hle⟩ := h.entry i id deadline hi
  have hl := lookup_eq_some_of_mem h.nodup hm
  refine ⟨hl, hle, fun later hlater => ?_⟩
  simp only [timeout, hi]
  rw [if_neg (by simp [hl, hlater])]
  exact ⟨_, rfl, Table.set_self⟩

theorem Listed.later {past : ℕ} (h : s.Listed past) (hle : past ≤ now) : s.Listed now where
  entry i id deadline hi := by
    obtain ⟨hm, hd⟩ := h.entry i id deadline hi
    exact ⟨hm, by omega⟩
  waiting := h.waiting
  nodup := h.nodup
  drawn := h.drawn

/-- Removing an identifier removes the request that waits under it. -/
theorem Listed.mem_filter (h : s.Listed now) {id id' : JsString} {i j : ℕ}
    (hl : s.pendingRequests.lookup id = some i) (hj : (id', j) ∈ s.pendingRequests) :
    id' ≠ id ↔ j ≠ i := by
  obtain ⟨d, hd⟩ := h.waiting id i (mem_of_lookup hl)
  obtain ⟨d', hd'⟩ := h.waiting id' j hj
  rw [not_iff_not]
  constructor
  · rintro rfl
    exact Option.some.inj ((lookup_eq_some_of_mem h.nodup hj).symm.trans hl)
  · rintro rfl
    cases hd.symm.trans hd'
    rfl

theorem Idle.ne {i j : ℕ} {id : JsString} {deadline : ℕ} (hi : s.Idle i)
    (hj : s.requests j = some (.waiting id deadline)) : j ≠ i := by
  rintro rfl
  exact hi id deadline hj

/-- A request is sent under an identifier that was never drawn before. -/
theorem Listed.sent (h : s.Listed now) {i : ℕ} {id : JsString} (hi : s.Idle i) (hid : id ∉ s.drawn)
    (hr : s'.requests = s.requests.set i (.waiting id (now + 30000)))
    (hp : s'.pendingRequests = s.pendingRequests ++ [(id, i)]) (hd : s'.drawn = id :: s.drawn) :
    s'.Listed now := by
  constructor
  · intro j id' deadline hj
    rw [hr] at hj
    rw [hp]
    rcases Table.set_eq_some_iff.mp hj with ⟨rfl, ht⟩ | ⟨-, hj⟩
    · cases ht
      exact ⟨List.mem_append_right _ List.mem_cons_self, le_rfl⟩
    · obtain ⟨hm, hle⟩ := h.entry j id' deadline hj
      exact ⟨List.mem_append_left _ hm, hle⟩
  · intro id' j hm
    rw [hp] at hm
    rcases List.mem_append.mp hm with hm | hm
    · obtain ⟨deadline, hj⟩ := h.waiting id' j hm
      exact ⟨deadline, by rw [hr, Table.set_of_ne (hi.ne hj), hj]⟩
    · cases List.mem_singleton.mp hm
      exact ⟨_, by rw [hr, Table.set_self]⟩
  · have hnew : ∀ x ∈ s.pendingRequests.map Prod.fst, x ≠ id := by
      rintro x hx rfl
      obtain ⟨⟨id', j⟩, hj, rfl⟩ := List.mem_map.mp hx
      exact hid (h.drawn id' j hj)
    rw [hp, List.map_append]
    apply List.nodup_append.mpr
    exact ⟨h.nodup, by simp, by simpa using hnew⟩
  · intro id' j hm
    rw [hp] at hm
    rw [hd]
    rcases List.mem_append.mp hm with hm | hm
    · exact List.mem_cons_of_mem _ (h.drawn id' j hm)
    · cases List.mem_singleton.mp hm
      exact List.mem_cons_self

/-- A request that is settled loses its entry and no other does. -/
theorem Listed.settled (h : s.Listed now) {i : ℕ} {id : JsString} {o : Settlement}
    (hl : s.pendingRequests.lookup id = some i) (hr : s'.requests = s.requests.set i (.settled o))
    (hp : s'.pendingRequests = s.pendingRequests.filter fun p => p.1 ≠ id)
    (hd : s.drawn ⊆ s'.drawn) : s'.Listed now := by
  constructor
  · intro j id' deadline hj
    rw [hr] at hj
    rcases Table.set_eq_some_iff.mp hj with ⟨-, hj⟩ | ⟨hne, hj⟩
    · cases hj
    · obtain ⟨hm, hle⟩ := h.entry j id' deadline hj
      rw [hp]
      exact ⟨List.mem_filter.mpr ⟨hm, by simpa using (h.mem_filter hl hm).mpr hne⟩, hle⟩
  · intro id' j hm
    rw [hp] at hm
    obtain ⟨hm, hne⟩ := List.mem_filter.mp hm
    obtain ⟨deadline, hj⟩ := h.waiting id' j hm
    have hji : j ≠ i := (h.mem_filter hl hm).mp (by simpa using hne)
    exact ⟨deadline, by rw [hr, Table.set_of_ne hji, hj]⟩
  · rw [hp]
    exact h.nodup.sublist (List.filter_sublist.map Prod.fst)
  · intro id' j hm
    rw [hp] at hm
    exact hd (h.drawn id' j (List.mem_filter.mp hm).1)

theorem Listed.step (h : s.Listed now) (ht : s.Turn now s') : s'.Listed now := by
  cases ht with
  | same hr hp hd =>
    constructor
    · exact hr ▸ hp ▸ h.entry
    · exact hr ▸ hp ▸ h.waiting
    · exact hp ▸ h.nodup
    · exact fun id i hm => hd (h.drawn id i (hp ▸ hm))
  | idle i t hi ht hr hp hd =>
    constructor
    · intro j id deadline hj
      rw [hr] at hj
      rw [hp]
      exact h.entry j id deadline (Table.of_set hj (ht id deadline))
    · intro id j hm
      rw [hp] at hm
      obtain ⟨deadline, hj⟩ := h.waiting id j hm
      exact ⟨deadline, by rw [hr, Table.set_of_ne (hi.ne hj), hj]⟩
    · exact hp ▸ h.nodup
    · exact fun id i hm => hd (h.drawn id i (hp ▸ hm))
  | sent i id hi hid hr hp hd => exact h.sent hi hid hr hp hd
  | settled i id o hl hr hp hd => exact h.settled hl hr hp hd
  | closed o hr hp hd =>
    constructor
    · intro j id' deadline hj
      simp only [hr] at hj
      split_ifs at hj with hany
      · cases hj
      · obtain ⟨hm, -⟩ := h.entry j id' deadline hj
        exact absurd (List.any_eq_true.mpr ⟨_, hm, by simp⟩) hany
    · simp [hp]
    · simp [hp]
    · simp [hp]

theorem turn_send_getD (m : Message) (ok : Bool) : s.Turn now ((s.send m ok).getD s) := by
  unfold send
  split
  · exact .same rfl rfl (List.Subset.refl _)
  · exact .same rfl rfl (List.Subset.refl _)

theorem turn_sendRequest {i : ℕ} {r : ClientRequest} {id : JsString} {ok : Bool} (hi : s.Idle i)
    (hid : id ∉ s.drawn) : s.Turn now (s.sendRequest now i r id ok) := by
  unfold sendRequest
  dsimp only
  split
  · rename_i k s' ht hs
    unfold send at hs
    split at hs
    · cases hs
      exact .sent i id hi hid rfl rfl rfl
    · cases hs
  · exact .idle i (.settled (.rejected .unsent)) hi (by simp) rfl rfl (List.subset_cons_self _ _)

theorem turn_handleClient (data : JsValue) (closing ok : Bool) :
    s.Turn now (s.handleClient data closing ok) := by
  unfold handleClient
  split
  · split
    · split_ifs
      · exact .same rfl rfl (List.Subset.refl _)
      · exact .same rfl rfl (List.Subset.refl _)
    · exact .same rfl rfl (List.Subset.refl _)
  · exact .same rfl rfl (List.Subset.refl _)

/-- A response without an entry is dropped. -/
theorem turn_handleResponse {data : JsValue} {ok : Bool}
    (h : (s.pendingFor data).isNone ∨ ok = true) : s.Turn now (s.handleResponse data ok) := by
  unfold handleResponse
  unfold pendingFor at h
  split
  · rename_i id hid
    split
    · exact .same rfl rfl (List.Subset.refl _)
    · rename_i i hl
      rw [hid] at h
      simp only [hl, Option.map_some, Option.isNone_some, Bool.false_eq_true, false_or] at h
      subst h
      exact .settled i id (.resolved data) hl rfl rfl (List.Subset.refl _)
  · exact .same rfl rfl (List.Subset.refl _)

theorem responseData_eq_some {v data : JsValue} (h : responseData v = some data) :
    v.get (js "type") = some (.string (js "response")) ∧ v.get (js "data") = some data := by
  unfold responseData at h
  split at h
  · rename_i type data' htype hdata
    split_ifs at h with ht
    cases h
    exact ⟨by rw [htype, ht], hdata⟩
  · cases h

theorem handleTunnelMessage_of_response {v data : JsValue} {ok : Bool}
    (h : responseData v = some data) : s.handleTunnelMessage v ok = s.handleResponse data ok := by
  obtain ⟨htype, hdata⟩ := responseData_eq_some h
  rw [handleTunnelMessage, htype, hdata]
  exact if_pos rfl

theorem turn_of_not_response {v : JsValue} {ok : Bool} (h : responseData v = none) :
    s.Turn now (s.handleTunnelMessage v ok) := by
  unfold responseData at h
  unfold handleTunnelMessage
  split
  · rename_i type data htype hdata
    simp only [htype, hdata] at h
    split_ifs at h with ht
    split_ifs
    · exact turn_handleClient _ _ ok
    · exact turn_handleClient _ _ ok
    · exact turn_send_getD _ ok
    · exact .same rfl rfl (List.Subset.refl _)
  · exact .same rfl rfl (List.Subset.refl _)

theorem turn_message {k : ℕ} {data : Option JsValue} {ok : Bool}
    (ha : (TunnelEvent.message k data ok).agrees p) (hg : s.rebuilt p (.message k data ok))
    (h : s.message k data ok = some s') : s.Turn now s' := by
  unfold message at h
  split_ifs at h
  split at h
  · cases h
    exact .same rfl rfl (List.Subset.refl _)
  · rename_i v
    cases h
    cases hv : responseData v with
    | none => exact turn_of_not_response hv
    | some data =>
      simp only [TunnelEvent.agrees, rebuilt, hv, Option.all_some, decide_eq_true_eq,
        Bool.or_eq_true] at ha hg
      rw [handleTunnelMessage_of_response hv]
      exact turn_handleResponse (hg.imp_right fun hp => ha.trans hp)

theorem idle_of_new {i : ℕ} (h : ¬ (s.requests i).isSome) : s.Idle i := by
  intro id deadline hi
  simp [hi] at h

theorem turn_request {i : ℕ} {r : ClientRequest} {id : JsString} {ok : Bool}
    (h : s.request now i r id ok = some s') : s.Turn now s' := by
  unfold request at h
  split_ifs at h with hg ht
  · cases h
    have hidle : s.Idle i := idle_of_new (not_or.mp hg).1
    exact .idle i (.settled (.answered notConnected)) hidle (by simp) rfl rfl (List.Subset.refl _)
  · have hidle : s.Idle i := idle_of_new (not_or.mp hg).1
    split at h
    · cases h
      exact .idle i (.reading r) hidle (by simp) rfl rfl (List.Subset.refl _)
    · cases h
      exact turn_sendRequest hidle (not_or.mp (not_or.mp hg).2).1

theorem pendingFor_isSome {data : JsValue} (h : (s.pendingFor data).isNone = false) :
    ∃ id i, data.get (js "id") = some (.string id) ∧ s.pendingRequests.lookup id = some i := by
  unfold pendingFor at h
  split at h
  · rename_i id hid
    cases hl : s.pendingRequests.lookup id with
    | none => simp [hl] at h
    | some i => exact ⟨id, i, hid, hl⟩
  · cases h

/-- A response that cannot be rebuilt takes the entry of its request away and settles nothing. -/
theorem Listed.not_watched (h : s.Listed now) (ha : e.agrees p) (hg : ¬ s.rebuilt p e)
    (hs : s.step now e = some s') : ¬ s'.Watched now := by
  cases e with
  | message k data ok =>
    cases data with
    | none => exact absurd rfl hg
    | some v =>
      cases hv : responseData v with
      | none => simp [rebuilt, hv] at hg
      | some data =>
        simp only [TunnelEvent.agrees, rebuilt, hv, Option.all_some, decide_eq_true_eq,
          Bool.or_eq_true, not_or, Bool.not_eq_true] at ha hg
        obtain ⟨hpend, hreb⟩ := hg
        obtain ⟨id, i, hid, hl⟩ := pendingFor_isSome hpend
        have hs' : s' = s.handleResponse data false := by
          have hs : s.message k (some v) ok = some s' := hs
          unfold message at hs
          split_ifs at hs
          rw [← ha.trans hreb, ← handleTunnelMessage_of_response hv]
          exact (Option.some.inj hs).symm
        obtain ⟨deadline, hi⟩ := h.waiting id i (mem_of_lookup hl)
        intro hw
        have hreq : s'.requests i = some (.waiting id deadline) := by
          simp [hs', handleResponse, hid, hl, hi]
        have hm := mem_of_lookup (hw i id deadline hreq).1
        simp [hs', handleResponse, hid, hl] at hm
  | _ => exact absurd rfl hg

theorem turn_bodyRead {i : ℕ} {read : Bool} {id : JsString} {ok : Bool}
    (h : s.bodyRead now i read id ok = some s') : s.Turn now s' := by
  unfold bodyRead at h
  split at h
  · rename_i r hi
    have hidle : s.Idle i := by simp [Idle, hi]
    split_ifs at h with hid hread
    · cases h
      exact .idle i (.settled (.rejected .unread)) hidle (by simp) rfl rfl (List.Subset.refl _)
    · cases h
      exact turn_sendRequest hidle hid
  · cases h

theorem turn_wsOpen {j : ℕ} {r : ClientRequest} {id : JsString} {ok : Bool}
    (h : s.wsOpen j r id ok = some s') : s.Turn now s' := by
  unfold wsOpen at h
  split_ifs at h
  · cases h
    exact .same rfl rfl (List.Subset.refl _)
  · cases h
    exact .same rfl rfl (List.Subset.refl _)
  · dsimp only [send] at h
    split at h
    · rename_i hs
      split at hs
      · cases hs
        cases h
        exact .same rfl rfl (List.subset_cons_self _ _)
      · cases hs
    · cases h
      exact .same rfl rfl (List.subset_cons_self _ _)

/-- A response that is handled was rebuilt, and then every step is one of the turns. -/
theorem turn_step (ha : e.agrees p) (hg : s.rebuilt p e) (h : s.step now e = some s') :
    s.Turn now s' := by
  cases e with
  | accept =>
    cases h
    exact .same rfl rfl (List.Subset.refl _)
  | close k =>
    simp only [step, close] at h
    split_ifs at h
    cases h
    exact .closed (.rejected (.closed k)) rfl rfl (List.Subset.refl _)
  | message k data ok => exact turn_message ha hg h
  | request i r id ok => exact turn_request h
  | bodyRead i read id ok => exact turn_bodyRead h
  | timeout i =>
    simp only [step, timeout] at h
    split at h
    · split_ifs at h with hg
      cases h
      exact .settled i _ _ (not_not.mp (not_or.mp hg).2) rfl rfl (List.Subset.refl _)
    · cases h
  | wsOpen j r id ok => exact turn_wsOpen h
  | wsMessage j data ok =>
    simp only [step, wsMessage] at h
    split at h
    · cases h
      exact turn_send_getD _ ok
    · cases h
  | wsClose j code reason ok =>
    simp only [step, wsClose] at h
    split at h
    · cases h
      unfold send
      split
      · exact .same rfl rfl (List.Subset.refl _)
      · exact .same rfl rfl (List.Subset.refl _)
    · cases h

end HeadscaleTunnel

/-- The tunnel object on a platform. -/
def tunnelObjectOn (p : Platform) : Machine (ℕ × HeadscaleTunnel) (ℕ × TunnelEvent) :=
  .timed (· = HeadscaleTunnel.initial) fun now s e => if e.agrees p then s.step now e else none

/-- Every promise is settled or watched throughout a run exactly when every response that finds its
request pending can be rebuilt. -/
theorem watched_iff (p : Platform) {start : ℕ} {es : List (ℕ × TunnelEvent)}
    {s : ℕ × HeadscaleTunnel}
    (hr : (tunnelObjectOn p).exec (start, HeadscaleTunnel.initial) es = some s) :
    (tunnelObjectOn p).Along (fun s => s.2.Watched s.1) (start, HeadscaleTunnel.initial) es ↔
      (tunnelObjectOn p).Meets (fun s e => s.2.rebuilt p e.2) (start, HeadscaleTunnel.initial) es := by
  refine Machine.along_iff_meets (I := fun s => s.2.Listed s.1) (fun s h => h.watched) ?_ ?_
    ⟨nofun, nofun, List.nodup_nil, nofun⟩ hr
  · intro s e s' h hg hs
    obtain ⟨hle, hn, hs⟩ := Machine.timed_step.mp hs
    split_ifs at hs with ha
    rw [hn]
    exact (h.later hle).step (HeadscaleTunnel.turn_step ha hg hs)
  · intro s e s' h hg hs
    obtain ⟨hle, hn, hs⟩ := Machine.timed_step.mp hs
    split_ifs at hs with ha
    rw [hn]
    exact (h.later hle).not_watched ha hg hs

/-- A platform that refuses what is documented and accepts everything else. -/
def lenientPlatform : Platform where
  atob s := if s.all isBase64Unit then
      (decodeBase64 (s.map UInt16.toUInt8)).map fun b => b.map UInt8.toUInt16
    else none
  constructs _ status headers :=
    (match status with
      | .number text => (integer text).all fun n => 200 ≤ n && n ≤ 599
      | _ => true) &&
    match headers with
    | .object fields => fields.all fun f =>
        match f.2 with
        | .string value => value.all fun a => a.toNat ≤ 255
        | _ => true
    | _ => true

theorem lenientPlatform_documented : lenientPlatform.Documented where
  atob s hs := if_neg (by simp only [hs, Bool.false_eq_true, not_false_eq_true])
  status body text n headers hn hr := by
    simp only [lenientPlatform, hn, Option.all_some, Bool.and_eq_false_iff, decide_eq_false_iff_not]
    exact .inl (not_and_or.mp hr)
  headers body status fields name value a hm ha hlt := by
    simp only [lenientPlatform, Bool.and_eq_false_iff, List.all_eq_false]
    refine .inr ⟨_, hm, ?_⟩
    simp only [List.all_eq_true, decide_eq_true_eq, not_forall]
    exact ⟨a, ha, not_le.mpr hlt⟩

/-- A response message with a status and no body. -/
def responseMessage (id : JsString) (status : String) : JsValue :=
  .object [(js "type", .string (js "response")), (js "data", .object
    [(js "id", .string id), (js "status", .number (js status)), (js "headers", .object [])])]

/-- A request is sent and answered with the given status. -/
def answeredRun (status : String) (ok : Bool) : List (ℕ × TunnelEvent) :=
  [(0, .accept), (1, .request 0 healthRequest (js "a") true),
    (2, .message 0 (some (responseMessage (js "a") status)) ok)]

theorem watched_iff_answeredRun :
    ∃ s, (tunnelObjectOn lenientPlatform).exec (0, HeadscaleTunnel.initial)
        (answeredRun "200" true) = some s ∧
      (tunnelObjectOn lenientPlatform).Along (fun s => s.2.Watched s.1)
        (0, HeadscaleTunnel.initial) (answeredRun "200" true) := by
  have h : ((tunnelObjectOn lenientPlatform).exec (0, HeadscaleTunnel.initial)
      (answeredRun "200" true)).isSome := by decide +kernel
  obtain ⟨s, hs⟩ := Option.isSome_iff_exists.mp h
  exact ⟨s, hs, (watched_iff lenientPlatform hs).mpr (by decide +kernel)⟩

/-- Where the request is still waiting, under which identifier and until when. -/
def RequestThread.awaited : RequestThread → Option (JsString × ℕ)
  | .waiting id deadline => some (id, deadline)
  | _ => none

/-- A response with a status that the constructor refuses: the request waits on, its entry is gone
and its timer does not go off. -/
theorem answeredRun_unsettled :
    lenientPlatform.Documented ∧
    ∃ s, (tunnelObjectOn lenientPlatform).exec (0, HeadscaleTunnel.initial)
        (answeredRun "99" false) = some s ∧
      s.2.requests 0 = some (.waiting (js "a") 30001) ∧
      s.2.pendingRequests = [] ∧ (∀ later, s.2.timeout later 0 = none) ∧ ¬ s.2.Watched s.1 := by
  refine ⟨lenientPlatform_documented, ?_⟩
  have h : ((tunnelObjectOn lenientPlatform).exec (0, HeadscaleTunnel.initial)
      (answeredRun "99" false)).map (fun s =>
        ((s.2.requests 0).bind RequestThread.awaited, s.2.pendingRequests)) =
      some (some (js "a", 30001), []) := by decide +kernel
  obtain ⟨s, hs, h⟩ := Option.map_eq_some_iff.mp h
  simp only [Prod.mk.injEq] at h
  obtain ⟨hw, hp⟩ := h
  obtain ⟨t, ht, hw⟩ := Option.bind_eq_some_iff.mp hw
  have hreq : s.2.requests 0 = some (.waiting (js "a") 30001) := by
    cases t with
    | waiting id deadline =>
      cases hw
      exact ht
    | reading r => cases hw
    | settled o => cases hw
  refine ⟨s, hs, hreq, hp, fun later => ?_, fun hwatched => ?_⟩
  · simp [HeadscaleTunnel.timeout, hreq, hp]
  · have hl := (hwatched 0 _ _ hreq).1
    rw [hp] at hl
    cases hl

end HeadFwd.Worker
