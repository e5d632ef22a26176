import HeadFwd.EndToEnd.Bodies

/-! # Headers through the tunnel

A header has any number of values under a name. A tunnel message has a map with one
text under each: the relay puts in the first value of every name, the sidecar sets
what it finds, and a response goes back the same way. What is set does not depend on
the order in which the maps are gone through.
-/

namespace HeadFwd.EndToEnd

open Text Net Tunnel

open scoped List

/-- Every value of `h`, but for the names excepted, has arrived in `h'`, in the order of its name. -/
def Carries (excepted : Bytes → Prop) (h h' : Header) : Prop :=
  ∀ k vs, (k, vs) ∈ h → ¬ excepted k → vs <+ (h'.values k).getD []

/-- Every name, but for those excepted, has at most one value, which is valid UTF-8. -/
def SingleValued (excepted : Bytes → Prop) (h : Header) : Prop :=
  ∀ k vs, (k, vs) ∈ h → ¬ excepted k → vs.length ≤ 1 ∧ ∀ v ∈ vs, ValidUtf8 v

variable {excepted : Bytes → Prop} {h : Header}

theorem mem_headersToMap {k v : Bytes} :
    (k, v) ∈ headersToMap h ↔ ∃ vs, (k, v :: vs) ∈ h := by
  simp only [headersToMap, List.mem_filterMap]
  constructor
  · rintro ⟨⟨k', vs⟩, hm, hv⟩
    cases vs with
    | nil => cases hv
    | cons x vs =>
      cases hv
      exact ⟨vs, hm⟩
  · rintro ⟨vs, hm⟩
    exact ⟨(k, v :: vs), hm, rfl⟩

theorem headersToMap_names : (headersToMap h).map Prod.fst <+ h.map Prod.fst := by
  induction h with
  | nil => exact .slnil
  | cons f h ih =>
    obtain ⟨k, vs⟩ := f
    cases vs with
    | nil => exact ih.cons _
    | cons v vs => exact ih.cons_cons _

/-- Names survive the trip as JSON. -/
theorem sanitize_name (hc : h.Canonical) {f : Bytes × List Bytes} (hf : f ∈ h) :
    sanitize f.1 = f.1 :=
  validUtf8_of_ascii fun b hb => isTokenByte_lt b (hc.token f hf b hb)

theorem wire_names (hc : h.Canonical) :
    (headersToMap h).wire.map Prod.fst = (headersToMap h).map Prod.fst := by
  rw [Headers.wire, List.map_map]
  apply List.map_congr_left
  rintro ⟨k, v⟩ hm
  obtain ⟨vs, hf⟩ := mem_headersToMap.mp hm
  exact sanitize_name hc hf

theorem mem_wire (hc : h.Canonical) {k v : Bytes} {vs : List Bytes} (hf : (k, v :: vs) ∈ h) :
    (k, sanitize v) ∈ (headersToMap h).wire := by
  refine List.mem_map.mpr ⟨(k, v), mem_headersToMap.mpr ⟨vs, hf⟩, ?_⟩
  exact congrArg (·, sanitize v) (sanitize_name hc hf)

theorem wire_canonical (hc : h.Canonical) : ∀ f ∈ (headersToMap h).wire,
    canonicalHeaderKey f.1 = f.1 := by
  intro f hf
  have hname : f.1 ∈ h.map Prod.fst :=
    headersToMap_names.subset (wire_names hc ▸ List.mem_map_of_mem hf)
  obtain ⟨g, hg, he⟩ := List.mem_map.mp hname
  rw [← he]
  exact hc.canonical g hg

/-- Under a name with values the other end finds the first one, with invalid UTF-8 replaced. -/
theorem values_ofFields (hc : h.Canonical) {order : Headers} (ho : order ~ (headersToMap h).wire)
    {k v : Bytes} {vs : List Bytes} (hf : (k, v :: vs) ∈ h) :
    (Header.ofFields order).values k = some [sanitize v] := by
  rw [Header.values, hc.canonical _ hf]
  apply Header.lookup_ofFields
  · rw [(ho.map Prod.fst).nodup_iff, wire_names hc]
    exact hc.nodup.sublist headersToMap_names
  · exact fun f hm => wire_canonical hc f (ho.mem_iff.mp hm)
  · exact ho.mem_iff.mpr (mem_wire hc hf)

/-- A header arrives whole exactly if it has single values. -/
theorem carries_iff (hc : h.Canonical) {order : Headers} (ho : order ~ (headersToMap h).wire) :
    Carries excepted h (Header.ofFields order) ↔ SingleValued excepted h := by
  refine forall_congr' fun k => forall_congr' fun vs => imp_congr_right fun hf =>
    imp_congr_right fun _ => ?_
  cases vs with
  | nil => simp
  | cons v vs =>
    rw [values_ofFields hc ho hf, Option.getD_some]
    cases vs with
    | nil => simp [ValidUtf8, eq_comm]
    | cons w vs =>
      apply iff_of_false
      · intro hsub
        have hlen := hsub.length_le
        simp at hlen
      · simp

/-- A request of the relay always gets as far as Headscale, with the headers of the message. -/
theorem headscaleRequest_headers (cfg : Sidecar.Config) (id : Bytes) (r : Relay.ClientRequest) :
    ∃ q, Sidecar.headscaleRequest cfg (Relay.tunnelRequest id r).wire = some q ∧
      q.headers = (headersToMap r.request.header).wire := by
  have hbody : ∃ body, Sidecar.requestBody (Relay.tunnelRequest id r).wire = .ok body := by
    unfold Sidecar.requestBody Relay.tunnelRequest Relay.readRequestBody TunnelRequest.wire
    cases r.body with
    | none => exact ⟨_, rfl⟩
    | some data =>
      by_cases hd : data = []
      · simp [hd]
      · cases isText (r.request.header.get (str "Content-Type")) with
        | true => simp [hd]
        | false =>
          have hwire : sanitize (encodeBase64 data) = encodeBase64 data := validUtf8_encodeBase64 data
          simp [hd, toBase64, hwire, decodeBase64_encodeBase64]
  obtain ⟨body, hbody⟩ := hbody
  unfold Sidecar.headscaleRequest
  rw [hbody]
  exact ⟨_, rfl, rfl⟩

/-- Headscale is sent every value of every header of a client but the host, in whatever order the
sidecar goes through the map, exactly if no name has two values and the values are valid UTF-8. The
same holds of the headers of a response, which is written if its status is one of three digits. -/
theorem headers_carried_iff (cfg : Sidecar.Config) (id : Bytes) (r : Relay.ClientRequest)
    (req : TunnelRequest) (reply : Sidecar.HeadscaleReply) (hr : r.request.header.Canonical)
    (hp : reply.header.Canonical) :
    ((∃ q, Sidecar.headscaleRequest cfg (Relay.tunnelRequest id r).wire = some q ∧
        ∀ order, order ~ q.headers →
          Carries (· = str "Host") r.request.header (.ofFields order)) ↔
      SingleValued (· = str "Host") r.request.header) ∧
    ((∃ w, Relay.writeTunnelResponse (Sidecar.tunnelResponse req reply).wire = some w ∧
        ∀ order, order ~ w.headers → Carries (fun _ => False) reply.header (.ofFields order)) ↔
      (100 ≤ reply.status ∧ reply.status ≤ 999) ∧ SingleValued (fun _ => False) reply.header) := by
  constructor
  · obtain ⟨q, hq, hh⟩ := headscaleRequest_headers cfg id r
    rw [hq]
    simp only [Option.some.injEq, exists_eq_left']
    constructor
    · intro h
      exact (carries_iff hr (hh ▸ List.Perm.refl _)).mp (h q.headers (List.Perm.refl _))
    · intro h order ho
      exact (carries_iff hr (hh ▸ ho)).mpr h
  · by_cases hs : 100 ≤ reply.status ∧ reply.status ≤ 999
    · have hw : Relay.writeTunnelResponse (Sidecar.tunnelResponse req reply).wire = some _ :=
        if_neg (by simp [Sidecar.tunnelResponse, TunnelResponse.wire]; omega)
      rw [hw]
      simp only [Option.some.injEq, exists_eq_left']
      rw [and_iff_right hs]
      constructor
      · intro h
        exact (carries_iff hp (List.Perm.refl _)).mp (h _ (List.Perm.refl _))
      · intro h order ho
        exact (carries_iff hp ho).mpr h
    · have hw : Relay.writeTunnelResponse (Sidecar.tunnelResponse req reply).wire = none :=
        if_pos (by simp [Sidecar.tunnelResponse, TunnelResponse.wire]; omega)
      rw [hw]
      simp [hs]

/-- A request with a repeated header, and a reply that sets two cookies. -/
def repeatedRequest : Relay.ClientRequest where
  request := { method := str "GET", host := str "relay.example.net", remoteAddr := [], tls := true,
               header := [(str "X-Forwarded-For", [str "192.0.2.1", str "198.51.100.7"])] }
  url := str "/"
  body := none

def cookieReply : Sidecar.HeadscaleReply where
  status := 200
  header := [(str "Set-Cookie", [str "a=1", str "b=2"])]
  body := []

/-- The same with one value each. -/
def plainRequest : Relay.ClientRequest :=
  { repeatedRequest with request := { repeatedRequest.request with
    header := [(str "X-Forwarded-For", [str "192.0.2.1"])] } }

def plainReply : Sidecar.HeadscaleReply :=
  { cookieReply with header := [(str "Set-Cookie", [str "a=1"])] }

theorem headers_carried_iff_plain :
    let cfg : Sidecar.Config := ⟨str "http://headscale:8080", fun u => some (u, [])⟩
    let forwarded := (Relay.tunnelRequest (str "1") plainRequest).wire
    (∃ q, Sidecar.headscaleRequest cfg forwarded = some q ∧ ∀ order, order ~ q.headers →
      Carries (· = str "Host") plainRequest.request.header (.ofFields order)) ∧
    ∃ w, Relay.writeTunnelResponse (Sidecar.tunnelResponse forwarded plainReply).wire = some w ∧
      ∀ order, order ~ w.headers → Carries (fun _ => False) plainReply.header (.ofFields order) := by
  intro cfg forwarded
  have hr : plainRequest.request.header.Canonical :=
    ⟨by decide, by decide +kernel, by decide +kernel⟩
  have hp : plainReply.header.Canonical :=
    ⟨by decide, by decide +kernel, by decide +kernel⟩
  obtain ⟨hreq, hresp⟩ := headers_carried_iff cfg (str "1") plainRequest forwarded plainReply hr hp
  constructor
  · apply hreq.mpr
    intro k vs hm _
    obtain ⟨rfl, rfl⟩ := Prod.mk.injEq .. ▸ List.mem_singleton.mp hm
    exact ⟨le_rfl, by decide +kernel⟩
  · apply hresp.mpr
    refine ⟨by decide, ?_⟩
    intro k vs hm _
    obtain ⟨rfl, rfl⟩ := Prod.mk.injEq .. ▸ List.mem_singleton.mp hm
    exact ⟨le_rfl, by decide +kernel⟩

/-- Of a repeated header only the first value arrives, in either direction. -/
theorem repeated_header_lost :
    let forwarded := (Relay.tunnelRequest (str "1") repeatedRequest).wire
    let response := (Sidecar.tunnelResponse forwarded cookieReply).wire
    repeatedRequest.request.header.Canonical ∧ cookieReply.header.Canonical ∧
    (Header.ofFields forwarded.headers).values (str "X-Forwarded-For") = some [str "192.0.2.1"] ∧
    ¬ Carries (· = str "Host") repeatedRequest.request.header (.ofFields forwarded.headers) ∧
    (Header.ofFields response.headers).values (str "Set-Cookie") = some [str "a=1"] ∧
    ¬ Carries (fun _ => False) cookieReply.header (.ofFields response.headers) := by
  have hr : repeatedRequest.request.header.Canonical :=
    ⟨by decide, by decide +kernel, by decide +kernel⟩
  have hp : cookieReply.header.Canonical :=
    ⟨by decide, by decide +kernel, by decide +kernel⟩
  refine ⟨hr, hp, by decide +kernel, ?_, by decide +kernel, ?_⟩
  · intro h
    have hs := (carries_iff hr (List.Perm.refl _)).mp h
    exact absurd (hs _ _ (List.mem_singleton.mpr rfl) (by decide)).1 (by decide)
  · intro h
    have hs := (carries_iff hp (List.Perm.refl _)).mp h
    exact absurd (hs _ _ (List.mem_singleton.mpr rfl) not_false).1 (by decide)

end HeadFwd.EndToEnd
