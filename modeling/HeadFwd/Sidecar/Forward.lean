import HeadFwd.Tunnel.Message

/-! # The sidecar's side of a request

`handleRequest` passes a request that came over the tunnel on to Headscale and
answers it over the tunnel, with an error response when Headscale cannot be asked.
-/

namespace HeadFwd.Sidecar

open Text Net Tunnel

/-- The base URL of Headscale, and the path and the raw query that `url.Parse` finds in a URL, if it
accepts it. -/
structure Config where
  headscaleURL : Bytes
  parseURL : Bytes → Option (Bytes × Bytes)

/-- A request to Headscale. The headers are set one by one, under their canonical names. -/
structure HeadscaleRequest where
  method : Bytes
  url : Bytes
  headers : Headers
  body : Option Bytes

structure HeadscaleReply where
  status : ℕ
  header : Header
  body : Bytes

/-- The path and query of a request URL. -/
def requestPath (cfg : Config) (reqURL : Bytes) : Bytes :=
  match reqURL with
  | [] => []
  | c :: _ =>
    if c = chr '/' then reqURL
    else
      match cfg.parseURL reqURL with
      | none => reqURL
      | some (path, rawQuery) => if rawQuery = [] then path else path ++ [chr '?'] ++ rawQuery

/-- The body of a tunnel request; an error when it does not decode. -/
def requestBody (req : TunnelRequest) : Except Unit (Option Bytes) :=
  match req.body, req.isBinary with
  | none, _ => .ok none
  | some body, false => .ok (some body)
  | some body, true =>
    match decodeBase64 body with
    | none => .error ()
    | some payload => .ok (some payload)

/-- Ask Headscale, which may fail to answer; `none` is an error. -/
def forwardToHeadscale (cfg : Config) (headscale : HeadscaleRequest → Option HeadscaleReply)
    (req : TunnelRequest) : Option TunnelResponse :=
  let reqURL := requestPath cfg req.url
  match requestBody req with
  | .error () => none
  | .ok body =>
    match headscale
        { method := req.method, url := cfg.headscaleURL ++ reqURL, headers := req.headers, body } with
    | none => none
    | some reply =>
      let text := isText (reply.header.get (str "Content-Type"))
      let binary := reply.body ≠ [] ∧ text = false
      some
        { id := req.id
          status := reply.status
          headers := headersToMap reply.header
          body := some (if binary then encodeBase64 reply.body else reply.body)
          isBinary := binary }

/-- The response that `handleRequest` sends. -/
def handleRequest (cfg : Config) (headscale : HeadscaleRequest → Option HeadscaleReply)
    (req : TunnelRequest) : TunnelResponse :=
  match forwardToHeadscale cfg headscale req with
  | some resp => resp
  | none =>
    { id := req.id
      status := 502
      headers := [(str "Content-Type", str "text/plain")]
      body := some (str "Bad Gateway")
      isBinary := false }

variable {cfg : Config} {headscale : HeadscaleRequest → Option HeadscaleReply} {req : TunnelRequest}

/-- The request that Headscale is asked, if the body decodes. -/
def headscaleRequest (cfg : Config) (req : TunnelRequest) : Option HeadscaleRequest :=
  match requestBody req with
  | .error () => none
  | .ok body => some
    { method := req.method, url := cfg.headscaleURL ++ requestPath cfg req.url,
      headers := req.headers, body }

/-- The response made of a reply. -/
def tunnelResponse (req : TunnelRequest) (reply : HeadscaleReply) : TunnelResponse :=
  let binary := reply.body ≠ [] ∧ isText (reply.header.get (str "Content-Type")) = false
  { id := req.id
    status := reply.status
    headers := headersToMap reply.header
    body := some (if binary then encodeBase64 reply.body else reply.body)
    isBinary := binary }

theorem forwardToHeadscale_eq :
    forwardToHeadscale cfg headscale req =
      (headscaleRequest cfg req).bind fun q => (headscale q).map (tunnelResponse req) := by
  unfold forwardToHeadscale headscaleRequest
  dsimp only
  cases requestBody req with
  | error e => rfl
  | ok body =>
    dsimp only [Option.bind_some]
    split
    · rename_i hh
      rw [hh]
      rfl
    · rename_i reply hh
      rw [hh]
      rfl

theorem forwardToHeadscale_id {resp : TunnelResponse}
    (h : forwardToHeadscale cfg headscale req = some resp) : resp.id = req.id := by
  rw [forwardToHeadscale_eq] at h
  obtain ⟨q, -, h⟩ := Option.bind_eq_some_iff.mp h
  obtain ⟨reply, -, rfl⟩ := Option.map_eq_some_iff.mp h
  rfl

/-- A response, also an error response, is sent under the identifier of its request. -/
@[simp] theorem handleRequest_id : (handleRequest cfg headscale req).id = req.id := by
  unfold handleRequest
  split
  · rename_i resp hresp
    exact forwardToHeadscale_id hresp
  · rfl

end HeadFwd.Sidecar
