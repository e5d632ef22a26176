import HeadFwd.Js.Decode
import HeadFwd.Relay.Traffic
import HeadFwd.Sidecar.Forward
import HeadFwd.Worker.Tunnel

/-! # Bodies through the tunnel

A body travels as text when its content type looks like text and in base64
otherwise. In base64 it arrives as it was; as text it arrives as it was only if
it is valid UTF-8.
-/

namespace HeadFwd.EndToEnd

open Text Net Tunnel Transition Js

/-- The body with which the sidecar asks Headscale, `none` when it does not ask. -/
def deliveredBody (cfg : Sidecar.Config) (req : TunnelRequest) : Option Bytes :=
  (Sidecar.headscaleRequest cfg req).map fun q => q.body.getD []

/-- A request of the Worker as the sidecar decodes it. -/
def ofWorker (r : Worker.TunnelRequest) : TunnelRequest where
  id := utf8 r.id
  method := utf8 r.method
  url := utf8 r.url
  headers := r.headers.map fun (k, v) => (utf8 k, utf8 v)
  body := r.body.map utf8
  isBinary := r.isBinary

/-- The bytes a client of the Worker sent. -/
def sentBody (r : Worker.ClientRequest) : Bytes := (r.body.map Worker.ClientBody.bytes).getD []

/-- The text that a handler is given is what decoding the bytes gives. -/
def Decoded (r : Worker.ClientRequest) : Prop := ∀ b ∈ r.body, b.text = decodeUtf8 b.bytes

theorem validUtf8_encodeBase64 (s : Bytes) : ValidUtf8 (encodeBase64 s) :=
  validUtf8_of_ascii fun _ hb => lt_of_mem_encodeBase64 hb

section Delivered

variable {cfg : Sidecar.Config} {req : TunnelRequest}

theorem deliveredBody_none (hb : req.body = none) : deliveredBody cfg req = some [] := by
  unfold deliveredBody Sidecar.headscaleRequest Sidecar.requestBody
  rw [hb]
  rfl

theorem deliveredBody_text {s : Bytes} (hb : req.body = some s) (ht : req.isBinary = false) :
    deliveredBody cfg req = some s := by
  unfold deliveredBody Sidecar.headscaleRequest Sidecar.requestBody
  rw [hb, ht]
  rfl

theorem deliveredBody_binary {s : Bytes} (hb : req.body = some (encodeBase64 s))
    (ht : req.isBinary = true) : deliveredBody cfg req = some s := by
  unfold deliveredBody Sidecar.headscaleRequest Sidecar.requestBody
  rw [hb, ht]
  simp only [decodeBase64_encodeBase64]
  rfl

end Delivered

/-! ## From a client of the relay -/

theorem relay_body_iff (cfg : Sidecar.Config) (id : Bytes) (r : Relay.ClientRequest) :
    deliveredBody cfg (Relay.tunnelRequest id r).wire = r.body ↔
      ∃ data, r.body = some data ∧
        (isText (r.request.header.get (str "Content-Type")) = true → ValidUtf8 data) := by
  cases hr : r.body with
  | none =>
    -- A body that could not be read is forwarded as no body.
    rw [deliveredBody_none (by simp [Relay.tunnelRequest, TunnelRequest.wire,
      Relay.readRequestBody, hr])]
    simp
  | some data =>
    simp only [Option.some.injEq, exists_eq_left']
    by_cases hd : data = []
    · rw [deliveredBody_none (by simp [Relay.tunnelRequest, TunnelRequest.wire,
        Relay.readRequestBody, hr, hd])]
      simp [hd, ValidUtf8, sanitize, runes]
    · cases ht : isText (r.request.header.get (str "Content-Type")) with
      | true =>
        rw [deliveredBody_text (s := sanitize data) (by simp [Relay.tunnelRequest,
          TunnelRequest.wire, Relay.readRequestBody, hr, hd, ht]) (by simp [Relay.tunnelRequest,
          TunnelRequest.wire, Relay.readRequestBody, hr, hd, ht])]
        simp [ValidUtf8]
      | false =>
        rw [deliveredBody_binary (s := data)]
        · simp
        · simp only [Relay.tunnelRequest, TunnelRequest.wire, Relay.readRequestBody, hr, if_neg hd,
            ht, Bool.false_eq_true, if_false, toBase64, Option.map_some]
          exact congrArg some (validUtf8_encodeBase64 data)
        · simp [Relay.tunnelRequest, TunnelRequest.wire, Relay.readRequestBody, hr, hd, ht]

/-! ## From a client of the Worker -/

theorem flatten_toChunks_go {α : Type} (n : ℕ) (xs : List α) (acc : Array α)
    (accs : Array (List α)) :
    (List.toChunks.go n xs acc accs).flatten = accs.toList.flatten ++ acc.toList ++ xs := by
  induction xs generalizing acc accs with
  | nil => simp [List.toChunks.go]
  | cons x xs ih =>
    rw [List.toChunks.go]
    split_ifs
    · simp [ih]
    · simp [ih]

theorem flatten_toChunks {α : Type} (n : ℕ) (xs : List α) : (xs.toChunks n).flatten = xs := by
  unfold List.toChunks
  split
  · rfl
  · simp
  · simp [flatten_toChunks_go]

theorem ofWorker_toBase64 (bytes : Bytes) : utf8 (Worker.toBase64 bytes) = encodeBase64 bytes := by
  rw [Worker.toBase64, flatten_toChunks, utf8_ofAscii fun b hb => lt_of_mem_encodeBase64 hb]

theorem worker_body_iff (cfg : Sidecar.Config) (id : JsString) {r : Worker.ClientRequest}
    (hdec : Decoded r) :
    deliveredBody cfg (ofWorker (Worker.tunnelRequest id r)) = some (sentBody r) ↔
      (Worker.isText ((r.header "content-type").getD []) = true → ValidUtf8 (sentBody r)) := by
  cases hr : r.body with
  | none =>
    rw [deliveredBody_none (by simp [ofWorker, Worker.tunnelRequest, hr])]
    simp [sentBody, hr, ValidUtf8, sanitize, runes]
  | some b =>
    have hs : sentBody r = b.bytes := by simp [sentBody, hr]
    have htext : b.text = decodeUtf8 b.bytes := hdec b hr
    rw [hs]
    cases ht : Worker.isText ((r.header "content-type").getD []) with
    | true =>
      rw [deliveredBody_text (s := utf8 b.text) (by simp [ofWorker, Worker.tunnelRequest, hr, ht])
        (by simp [ofWorker, Worker.tunnelRequest, ht]), htext, Option.some.injEq,
        utf8_decodeUtf8_iff]
      simp
    | false =>
      rw [deliveredBody_binary (s := b.bytes) (by simp [ofWorker, Worker.tunnelRequest, hr, ht,
        ofWorker_toBase64]) (by simp [ofWorker, Worker.tunnelRequest, hr, ht])]
      simp

/-- A request whose body could not be read is not sent. -/
theorem bodyRead_unread {now i : ℕ} {id : JsString} {ok : Bool} {s s' : Worker.HeadscaleTunnel}
    (h : s.bodyRead now i false id ok = some s') : s'.outbox = s.outbox := by
  unfold Worker.HeadscaleTunnel.bodyRead at h
  split at h
  · split_ifs at h
    · cases h
      rfl
    · simp_all
  · cases h

/-! ## From Headscale -/

/-- The body that a response gives the client, if its status can be written. -/
theorem writeTunnelResponse_body (req : TunnelRequest) (reply : Sidecar.HeadscaleReply)
    (h : ¬ ((reply.status : ℤ) < 100 ∨ 999 < (reply.status : ℤ))) :
    (Relay.writeTunnelResponse (Sidecar.tunnelResponse req reply).wire).map Relay.Written.body =
      some (if isText (reply.header.get (str "Content-Type")) then sanitize reply.body
        else reply.body) := by
  have hst : (Sidecar.tunnelResponse req reply).wire.status = reply.status := rfl
  unfold Relay.writeTunnelResponse
  rw [hst, if_neg h, Option.map_some]
  by_cases hb : reply.body = []
  · simp [Sidecar.tunnelResponse, TunnelResponse.wire, hb, sanitize, runes]
  · cases ht : isText (reply.header.get (str "Content-Type")) with
    | true => simp [Sidecar.tunnelResponse, TunnelResponse.wire, ht]
    | false =>
      have hs : sanitize (encodeBase64 reply.body) = encodeBase64 reply.body :=
        validUtf8_encodeBase64 reply.body
      simp [Sidecar.tunnelResponse, TunnelResponse.wire, hb, ht, hs, fromBase64,
        decodeBase64_encodeBase64]

theorem response_body_iff (req : TunnelRequest) (reply : Sidecar.HeadscaleReply) :
    (Relay.writeTunnelResponse (Sidecar.tunnelResponse req reply).wire).map Relay.Written.body =
        some reply.body ↔
      100 ≤ reply.status ∧ reply.status ≤ 999 ∧
        (isText (reply.header.get (str "Content-Type")) = true → ValidUtf8 reply.body) := by
  by_cases h : (reply.status : ℤ) < 100 ∨ 999 < (reply.status : ℤ)
  · have hst : (Sidecar.tunnelResponse req reply).wire.status = reply.status := rfl
    rw [Relay.writeTunnelResponse, hst, if_pos h]
    simp only [Option.map_none, reduceCtorEq, false_iff]
    omega
  · have hlo : 100 ≤ reply.status := by omega
    have hhi : reply.status ≤ 999 := by omega
    rw [writeTunnelResponse_body req reply h, Option.some.injEq, and_iff_right hlo,
      and_iff_right hhi]
    cases ht : isText (reply.header.get (str "Content-Type")) with
    | true => simp [ValidUtf8]
    | false => simp

/-- When a body survives the tunnel: from a client of the relay, from a client of the Worker, and
from Headscale. The relay forwards a body that it could not read; the Worker does not. -/
theorem bodies_survive_iff (cfg : Sidecar.Config) :
    (∀ id (r : Relay.ClientRequest),
      deliveredBody cfg (Relay.tunnelRequest id r).wire = r.body ↔
        ∃ data, r.body = some data ∧
          (isText (r.request.header.get (str "Content-Type")) = true → ValidUtf8 data)) ∧
    (∀ id (r : Worker.ClientRequest), Decoded r →
      (deliveredBody cfg (ofWorker (Worker.tunnelRequest id r)) = some (sentBody r) ↔
        (Worker.isText ((r.header "content-type").getD []) = true → ValidUtf8 (sentBody r)))) ∧
    (∀ now i id ok (s s' : Worker.HeadscaleTunnel), s.bodyRead now i false id ok = some s' →
      s'.outbox = s.outbox) ∧
    ∀ headscale req q reply, Sidecar.headscaleRequest cfg req = some q →
      headscale q = some reply →
      (((Sidecar.forwardToHeadscale cfg headscale req).bind fun resp =>
          (Relay.writeTunnelResponse resp.wire).map Relay.Written.body) = some reply.body ↔
        100 ≤ reply.status ∧ reply.status ≤ 999 ∧
          (isText (reply.header.get (str "Content-Type")) = true → ValidUtf8 reply.body)) := by
  refine ⟨relay_body_iff cfg, fun id r hr => worker_body_iff cfg id hr, ?_, ?_⟩
  · intro now i id ok s s' h
    exact bodyRead_unread h
  · intro headscale req q reply hq hreply
    rw [Sidecar.forwardToHeadscale_eq, hq, Option.bind_some, hreply, Option.map_some,
      Option.bind_some]
    exact response_body_iff req reply

/-- A configuration without a URL parser. -/
def plainConfig : Sidecar.Config := ⟨str "http://headscale:8080", fun _ => none⟩

/-- A request with a text body. -/
def textRequest (body : Option Bytes) : Relay.ClientRequest where
  request :=
    { method := str "POST"
      host := []
      remoteAddr := []
      header := [(str "Content-Type", [str "text/plain; charset=iso-8859-1"])]
      tls := true }
  url := str "/api/v1/note"
  body := body

/-- A request to the Worker whose text body begins with a byte order mark. -/
def markedRequest : Worker.ClientRequest where
  method := js "POST"
  url := js "https://0123456789abcdef0123456789abcdef.headfwd.net/api/v1/note"
  headers := [(js "content-type", js "text/plain")]
  body := some ⟨[0xEF, 0xBB, 0xBF, 0x61], decodeUtf8 [0xEF, 0xBB, 0xBF, 0x61]⟩

/-- A tunnel whose handler still reads the body of the marked request. -/
def readingTunnel : Worker.HeadscaleTunnel :=
  { Worker.HeadscaleTunnel.initial with requests := Table.empty.set 0 (.reading markedRequest) }

/-- A page that is no text. -/
def octetReply : Sidecar.HeadscaleReply :=
  ⟨200, [(str "Content-Type", [str "application/octet-stream"])], [0x00, 0xFF]⟩

theorem bodies_survive_markedRequest :
    deliveredBody plainConfig (Relay.tunnelRequest [] (textRequest (some [0x61]))).wire =
        some [0x61] ∧
      deliveredBody plainConfig (ofWorker (Worker.tunnelRequest (js "1") markedRequest)) =
        some [0xEF, 0xBB, 0xBF, 0x61] ∧
      (∃ s', readingTunnel.bodyRead 0 0 false (js "1") true = some s' ∧
        s'.outbox = readingTunnel.outbox) ∧
      ((Sidecar.forwardToHeadscale plainConfig (fun _ => some octetReply)
          (Relay.tunnelRequest [] (textRequest (some [0x61]))).wire).bind fun resp =>
        (Relay.writeTunnelResponse resp.wire).map Relay.Written.body) = some [0x00, 0xFF] := by
  obtain ⟨hrelay, hworker, hunread, hreply⟩ := bodies_survive_iff plainConfig
  have hdecoded : Decoded markedRequest := by
    rintro b ⟨rfl⟩
    rfl
  refine ⟨(hrelay [] (textRequest (some [0x61]))).mpr ⟨[0x61], rfl, ?_⟩,
    (hworker (js "1") markedRequest hdecoded).mpr ?_, ⟨_, rfl, ?_⟩,
    (hreply _ _ _ octetReply rfl rfl).mpr ⟨by decide, by decide, ?_⟩⟩
  · decide +kernel
  · decide +kernel
  · exact hunread 0 0 (js "1") true readingTunnel _ rfl
  · decide +kernel

/-- A Latin-1 text is changed and a body that could not be read is forwarded as empty. -/
theorem latin1_changed :
    (deliveredBody plainConfig (Relay.tunnelRequest [] (textRequest (some [0xE9]))).wire =
        some [0xEF, 0xBF, 0xBD] ∧
      deliveredBody plainConfig (Relay.tunnelRequest [] (textRequest (some [0xE9]))).wire ≠
        (textRequest (some [0xE9])).body) ∧
    deliveredBody plainConfig (Relay.tunnelRequest [] (textRequest none)).wire = some [] ∧
      deliveredBody plainConfig (Relay.tunnelRequest [] (textRequest none)).wire ≠
        (textRequest none).body := by
  decide

end HeadFwd.EndToEnd
