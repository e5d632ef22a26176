import HeadFwd.Worker.Tunnel

/-! # Reconnecting to the tunnel object

The close handler of a socket clears the tunnel and rejects the pending requests
without asking whether the socket is still the tunnel. That is right exactly as
long as no socket closes behind a newer one that is still open.
-/

namespace HeadFwd.Worker

open Transition Js

namespace HeadscaleTunnel

variable {now : ℕ} {s s' : HeadscaleTunnel} {e : TunnelEvent}

/-- Nothing about the sockets changes, and without a tunnel nothing becomes pending. -/
structure Keeps (s s' : HeadscaleTunnel) : Prop where
  tunnel : s'.tunnel = s.tunnel
  accepted : s'.accepted = s.accepted
  closed : s'.closed = s.closed
  pending : s.tunnel = none → s'.pendingRequests ⊆ s.pendingRequests

theorem Keeps.refl (s : HeadscaleTunnel) : s.Keeps s := ⟨rfl, rfl, rfl, fun _ => List.Subset.refl _⟩

theorem Keeps.trans {s'' : HeadscaleTunnel} (h : s.Keeps s') (h' : s'.Keeps s'') : s.Keeps s'' :=
  ⟨h'.tunnel.trans h.tunnel, h'.accepted.trans h.accepted, h'.closed.trans h.closed,
    fun ht => List.Subset.trans (h'.pending (h.tunnel.trans ht)) (h.pending ht)⟩

/-- The other fields do not matter. -/
theorem keeps_of_eq (ht : s'.tunnel = s.tunnel) (ha : s'.accepted = s.accepted)
    (hc : s'.closed = s.closed) (hp : s'.pendingRequests = s.pendingRequests) : s.Keeps s' :=
  ⟨ht, ha, hc, fun _ => hp ▸ List.Subset.refl _⟩

theorem Keeps.after {t : HeadscaleTunnel} (h : t.Keeps s') (ht : t.tunnel = s.tunnel)
    (ha : t.accepted = s.accepted) (hc : t.closed = s.closed)
    (hp : t.pendingRequests = s.pendingRequests) : s.Keeps s' :=
  (keeps_of_eq ht ha hc hp).trans h

theorem keeps_settle (i : ℕ) (o : Settlement) : s.Keeps (s.settle i o) :=
  keeps_of_eq rfl rfl rfl rfl

theorem keeps_send {m : Message} {ok : Bool} (h : s.send m ok = some s') : s.Keeps s' := by
  unfold send at h
  split at h
  · cases h
    exact keeps_of_eq rfl rfl rfl rfl
  · cases h

theorem keeps_send_getD (m : Message) (ok : Bool) : s.Keeps ((s.send m ok).getD s) := by
  cases h : s.send m ok with
  | none => exact .refl s
  | some s' => exact keeps_send h

theorem keeps_sendRequest (i : ℕ) (r : ClientRequest) (id : JsString) (ok : Bool) :
    s.Keeps (s.sendRequest now i r id ok) := by
  unfold sendRequest
  dsimp only
  split
  · rename_i k s' ht hs
    have h : s.Keeps s' := (keeps_send hs).after rfl rfl rfl rfl
    refine ⟨h.tunnel, h.accepted, h.closed, fun hn => ?_⟩
    cases hn.symm.trans ht
  · exact keeps_of_eq rfl rfl rfl rfl

theorem keeps_handleResponse (data : JsValue) (ok : Bool) : s.Keeps (s.handleResponse data ok) := by
  have hdrop : ∀ id, (s.pendingRequests.filter fun p => p.1 ≠ id) ⊆ s.pendingRequests :=
    fun _ => List.filter_sublist.subset
  unfold handleResponse
  split
  · split
    · exact .refl s
    · dsimp only
      split_ifs
      · exact ⟨rfl, rfl, rfl, fun _ => hdrop _⟩
      · exact ⟨rfl, rfl, rfl, fun _ => hdrop _⟩
  · exact .refl s

theorem keeps_handleClient (data : JsValue) (closing ok : Bool) :
    s.Keeps (s.handleClient data closing ok) := by
  unfold handleClient
  split
  · split
    · split_ifs
      · exact keeps_of_eq rfl rfl rfl rfl
      · exact keeps_of_eq rfl rfl rfl rfl
    · exact .refl s
  · exact .refl s

theorem keeps_handleTunnelMessage (v : JsValue) (ok : Bool) :
    s.Keeps (s.handleTunnelMessage v ok) := by
  unfold handleTunnelMessage
  split
  · split_ifs
    · exact keeps_handleResponse _ ok
    · exact keeps_handleClient _ _ ok
    · exact keeps_handleClient _ _ ok
    · exact keeps_send_getD _ ok
    · exact .refl s
  · exact .refl s

/-- What an event does to the sockets. -/
inductive Effect (s : HeadscaleTunnel) : TunnelEvent → HeadscaleTunnel → Prop where
  | accepted : Effect s .accept s.accept
  | closed (k : ℕ) (s' : HeadscaleTunnel) (hk : k < s.accepted) (ht : s'.tunnel = none)
    (ha : s'.accepted = s.accepted) (hc : s'.closed = Function.update s.closed k true)
    (hp : s'.pendingRequests = []) : Effect s (.close k) s'
  | kept (e : TunnelEvent) (s' : HeadscaleTunnel) (he : ∀ k, e ≠ .close k) (h : s.Keeps s') :
    Effect s e s'

theorem request_keeps {i : ℕ} {r : ClientRequest} {id : JsString} {ok : Bool}
    (h : s.request now i r id ok = some s') : s.Keeps s' := by
  unfold request at h
  split_ifs at h
  · cases h
    exact keeps_settle i _
  · split at h
    · cases h
      exact keeps_of_eq rfl rfl rfl rfl
    · cases h
      exact keeps_sendRequest i r id ok

theorem bodyRead_keeps {i : ℕ} {read : Bool} {id : JsString} {ok : Bool}
    (h : s.bodyRead now i read id ok = some s') : s.Keeps s' := by
  unfold bodyRead at h
  split at h
  · split_ifs at h
    · cases h
      exact keeps_settle i _
    · cases h
      exact keeps_sendRequest i _ id ok
  · cases h

theorem timeout_keeps {i : ℕ} (h : s.timeout now i = some s') : s.Keeps s' := by
  unfold timeout at h
  split at h
  · split_ifs at h
    cases h
    exact ⟨rfl, rfl, rfl, fun _ => List.filter_sublist.subset⟩
  · cases h

theorem message_keeps {k : ℕ} {data : Option JsValue} {ok : Bool}
    (h : s.message k data ok = some s') : s.Keeps s' := by
  unfold message at h
  split_ifs at h
  split at h
  · cases h
    exact .refl s
  · cases h
    exact keeps_handleTunnelMessage _ ok

theorem wsOpen_keeps {j : ℕ} {r : ClientRequest} {id : JsString} {ok : Bool}
    (h : s.wsOpen j r id ok = some s') : s.Keeps s' := by
  unfold wsOpen at h
  split_ifs at h
  · cases h
    exact keeps_of_eq rfl rfl rfl rfl
  · cases h
    exact keeps_of_eq rfl rfl rfl rfl
  · dsimp only at h
    split at h
    · rename_i t hs
      cases h
      have ht : s.Keeps t := (keeps_send hs).after rfl rfl rfl rfl
      exact ht.trans (keeps_of_eq rfl rfl rfl rfl)
    · cases h
      exact keeps_of_eq rfl rfl rfl rfl

theorem step_effect (h : s.step now e = some s') : s.Effect e s' := by
  cases e with
  | accept =>
    cases h
    exact .accepted
  | close k =>
    simp only [step, close] at h
    split_ifs at h with hk
    cases h
    exact .closed k _ (by omega) rfl rfl rfl rfl
  | message k data ok => exact .kept _ _ (by simp) (message_keeps h)
  | request i r id ok => exact .kept _ _ (by simp) (request_keeps h)
  | bodyRead i read id ok => exact .kept _ _ (by simp) (bodyRead_keeps h)
  | timeout i => exact .kept _ _ (by simp) (timeout_keeps h)
  | wsOpen j r id ok => exact .kept _ _ (by simp) (wsOpen_keeps h)
  | wsMessage j data ok =>
    simp only [step, wsMessage] at h
    split at h
    · cases h
      exact .kept _ _ (by simp) (keeps_send_getD _ ok)
    · cases h
  | wsClose j code reason ok =>
    simp only [step, wsClose] at h
    split at h
    · cases h
      exact .kept _ _ (by simp) ((keeps_send_getD _ ok).after rfl rfl rfl rfl)
    · cases h

/-- The tunnel is missing only before the first socket and after the latest one has closed. -/
def Connected (s : HeadscaleTunnel) : Prop :=
  s.tunnel = none → s.accepted = 0 ∨ s.closed (s.accepted - 1) = true

/-- The close event of a socket that has been replaced leaves the tunnel alone, and the pending
requests that were sent over a later socket. -/
def Spares (s : HeadscaleTunnel) (k : ℕ) (s' : HeadscaleTunnel) : Prop :=
  k + 1 < s.accepted → s'.tunnel = s.tunnel ∧ ∀ id i u, (id, i) ∈ s.pendingRequests →
    s.sentOver i = some u → k < u → (id, i) ∈ s'.pendingRequests ∧ s'.requests i = s.requests i

/-- What an event should leave. -/
def Safe (s : HeadscaleTunnel) (e : TunnelEvent) (s' : HeadscaleTunnel) : Prop :=
  s'.Connected ∧ ∀ k, e = .close k → s.Spares k s'

/-- The event does not close a socket behind a newer one that is open. -/
def InOrder (s : HeadscaleTunnel) : TunnelEvent → Prop
  | .close k => k + 1 = s.accepted ∨ s.closed (s.accepted - 1) = true
  | _ => True

instance (s : HeadscaleTunnel) (e : TunnelEvent) : Decidable (s.InOrder e) :=
  match e with
  | .close k => inferInstanceAs (Decidable (k + 1 = s.accepted ∨ s.closed (s.accepted - 1) = true))
  | .accept => .isTrue trivial
  | .message _ _ _ => .isTrue trivial
  | .request _ _ _ _ => .isTrue trivial
  | .bodyRead _ _ _ _ => .isTrue trivial
  | .timeout _ => .isTrue trivial
  | .wsOpen _ _ _ _ => .isTrue trivial
  | .wsMessage _ _ _ => .isTrue trivial
  | .wsClose _ _ _ _ => .isTrue trivial

/-- The tunnel is the latest socket while it is open, and nothing is pending without a tunnel. -/
structure Current (s : HeadscaleTunnel) : Prop where
  tunnel : s.tunnel = none ↔ s.accepted = 0 ∨ s.closed (s.accepted - 1) = true
  pending : s.tunnel = none → s.pendingRequests = []
  closed : ∀ k, s.closed k = true → k < s.accepted

theorem Current.initial : HeadscaleTunnel.initial.Current :=
  ⟨iff_of_true rfl (.inl rfl), fun _ => rfl, nofun⟩

theorem Current.step (h : s.Current) (hg : s.InOrder e) (he : s.Effect e s') : s'.Current := by
  cases he with
  | accepted =>
    refine ⟨?_, nofun, fun k hk => (h.closed k hk).trans (Nat.lt_succ_self _)⟩
    have hopen : s.closed s.accepted ≠ true := fun hc => (h.closed _ hc).false
    simp [accept, hopen]
  | closed k _ hk ht ha hc hp =>
    refine ⟨?_, fun _ => hp, fun l hl => ?_⟩
    · rw [ht, ha, hc]
      refine iff_of_true rfl (.inr ?_)
      rcases hg with hg | hg
      · simp [← hg]
      · by_cases hk' : s.accepted - 1 = k
        · simp [hk']
        · simp [hk', hg]
    · rw [hc] at hl
      rw [ha]
      by_cases hlk : l = k
      · exact hlk ▸ hk
      · rw [Function.update_of_ne hlk] at hl
        exact h.closed l hl
  | kept _ _ _ hk =>
    constructor
    · rw [hk.tunnel, hk.accepted, hk.closed]
      exact h.tunnel
    · intro ht
      rw [hk.tunnel] at ht
      exact List.subset_nil.mp (h.pending ht ▸ hk.pending ht)
    · rw [hk.accepted, hk.closed]
      exact h.closed

/-- An event is safe exactly when it is in order. -/
theorem Current.safe_iff (h : s.Current) (he : s.Effect e s') : Safe s e s' ↔ s.InOrder e := by
  constructor
  · rintro ⟨hconn, -⟩
    cases he with
    | accepted => trivial
    | closed k _ hk ht ha hc hp =>
      by_contra hg
      have hne : s.accepted - 1 ≠ k := fun hk' => hg (.inl (by omega))
      rcases hconn ht with h0 | hlast
      · omega
      · rw [ha, hc, Function.update_of_ne hne] at hlast
        exact hg (.inr hlast)
    | kept e _ hne _ =>
      cases e with
      | close k => exact absurd rfl (hne k)
      | _ => trivial
  · intro hg
    refine ⟨(h.step hg he).tunnel.mp, ?_⟩
    rintro k rfl hk
    cases he with
    | closed _ _ hk' ht ha hc hp =>
      have hlast : s.closed (s.accepted - 1) = true := hg.resolve_left (by omega)
      have hnone := h.tunnel.mpr (.inr hlast)
      refine ⟨ht.trans hnone.symm, fun id i u hm => ?_⟩
      rw [h.pending hnone] at hm
      cases hm
    | kept _ _ hne _ => exact absurd rfl (hne k)

end HeadscaleTunnel

/-- The tunnel object under any interleaving of events. -/
def tunnelObject : Machine (ℕ × HeadscaleTunnel) (ℕ × TunnelEvent) :=
  .timed (· = HeadscaleTunnel.initial) HeadscaleTunnel.step

/-- The object reconnects safely throughout a run exactly when no socket closes behind a newer one
that is still open. -/
theorem steps_safe_iff {now : ℕ} {es : List (ℕ × TunnelEvent)} {s : ℕ × HeadscaleTunnel}
    (hr : tunnelObject.exec (now, HeadscaleTunnel.initial) es = some s) :
    tunnelObject.Steps (fun s e s' => HeadscaleTunnel.Safe s.2 e.2 s'.2)
        (now, HeadscaleTunnel.initial) es ↔
      tunnelObject.Meets (fun s e => s.2.InOrder e.2) (now, HeadscaleTunnel.initial) es := by
  refine Machine.steps_iff_meets (I := fun s => s.2.Current) ?_ ?_ HeadscaleTunnel.Current.initial hr
  · intro s e s' h hg hs
    obtain ⟨-, -, hs⟩ := Machine.timed_step.mp hs
    exact h.step hg (HeadscaleTunnel.step_effect hs)
  · intro s e s' h hs
    obtain ⟨-, -, hs⟩ := Machine.timed_step.mp hs
    exact h.safe_iff (HeadscaleTunnel.step_effect hs)

/-- A request without a body. -/
def healthRequest : ClientRequest where
  method := js "GET"
  url := js "https://headfwd.net/health"
  headers := []
  body := none

/-- Two sockets, a request over the second, and the close events of both, the second first. -/
def orderlyRun : List (ℕ × TunnelEvent) :=
  [(0, .accept), (1, .accept), (2, .request 0 healthRequest (js "a") true), (3, .close 1),
    (4, .close 0)]

theorem steps_safe_orderlyRun :
    (tunnelObject.exec (0, HeadscaleTunnel.initial) orderlyRun).isSome ∧
      tunnelObject.Steps (fun s e s' => HeadscaleTunnel.Safe s.2 e.2 s'.2)
        (0, HeadscaleTunnel.initial) orderlyRun := by
  have h : (tunnelObject.exec (0, HeadscaleTunnel.initial) orderlyRun).isSome := by decide +kernel
  obtain ⟨s, hs⟩ := Option.isSome_iff_exists.mp h
  exact ⟨h, (steps_safe_iff hs).mpr (by decide +kernel)⟩

/-- The first socket closes after the second was accepted and a request was sent over it. -/
def lateCloseRun : List (ℕ × TunnelEvent) :=
  [(0, .accept), (1, .accept), (2, .request 0 healthRequest (js "a") true), (3, .close 0)]

def RequestThread.rejection : RequestThread → Option Rejection
  | .settled (.rejected e) => some e
  | _ => none

/-- The late close event takes the tunnel away while its socket is open, and rejects the request that
waits for a response over that socket. -/
theorem lateCloseRun_not_connected :
    ∃ s, tunnelObject.exec (0, HeadscaleTunnel.initial) lateCloseRun = some s ∧
      s.2.accepted = 2 ∧ s.2.closed 1 = false ∧ ¬ s.2.Connected ∧ s.2.sentOver 0 = some 1 ∧
      (s.2.requests 0).bind RequestThread.rejection = some (.closed 0) := by
  have h : (tunnelObject.exec (0, HeadscaleTunnel.initial) lateCloseRun).map (fun s =>
      (s.2.tunnel, s.2.accepted, s.2.closed 1, s.2.sentOver 0,
        (s.2.requests 0).bind RequestThread.rejection)) =
      some (none, 2, false, some 1, some (.closed 0)) := by decide +kernel
  obtain ⟨s, hs, h⟩ := Option.map_eq_some_iff.mp h
  simp only [Prod.mk.injEq] at h
  obtain ⟨ht, ha, hc, hv, hr⟩ := h
  refine ⟨s, hs, ha, hc, fun hconn => ?_, hv, hr⟩
  rcases hconn ht with h0 | hlast
  · cases ha.symm.trans h0
  · rw [ha] at hlast
    cases hc.symm.trans hlast

end HeadFwd.Worker
