import HeadFwd.Js.Value
import HeadFwd.Net.Http
import HeadFwd.Text.Base64
import HeadFwd.Transition.Basic
import HeadFwd.Transition.Table
import Mathlib.Data.List.Infix

/-! # The tunnel object of the Worker

`HeadscaleTunnel` holds the tunnel of one fingerprint. It runs on one thread:
every step is a handler that runs to its end or to the point where it waits for
a request body. The sockets it has accepted are numbered in the order of
acceptance and are closed by their other ends. Calls into the platform may throw.
-/

namespace HeadFwd.Worker

open Text Net Transition Js

/-- The bytes of a request body, and the string that decoding them gives. -/
structure ClientBody where
  bytes : Bytes
  text : JsString

/-- A client request with lower-case header names. -/
structure ClientRequest where
  method : JsString
  url : JsString
  headers : List (JsString × JsString)
  body : Option ClientBody

def ClientRequest.header (r : ClientRequest) (name : String) : Option JsString :=
  r.headers.lookup (js name)

/-- The data of a request for the sidecar. -/
structure TunnelRequest where
  id : JsString
  method : JsString
  url : JsString
  headers : List (JsString × JsString)
  body : Option JsString
  isBinary : Bool

/-- The messages to the sidecar. -/
inductive Message where
  | request (r : TunnelRequest)
  | wsOpen (id method url : JsString) (headers : List (JsString × JsString))
  | wsData (id data : JsString) (isBinary : Bool)
  | wsClose (id : JsString) (code : ℕ) (reason : JsString)
  | pong

/-- What a WebSocket client sends. -/
inductive ClientData where
  | text (s : JsString)
  | binary (b : Bytes)

/-- Why a promise is rejected. A close event carries its socket. -/
inductive Rejection where
  | timeout
  | unread
  | unsent
  | closed (k : ℕ)
  deriving DecidableEq

/-- How a client request ends: with an answer of the object itself, with the data of a response, or
with an exception. -/
inductive Settlement where
  | answered (e : HttpError)
  | resolved (response : JsValue)
  | rejected (e : Rejection)

/-- Where a client request stands: it waits for its body, it waits for the response, or it is
settled. -/
inductive RequestThread where
  | reading (r : ClientRequest)
  | waiting (id : JsString) (deadline : ℕ)
  | settled (o : Settlement)

/-- Where a WebSocket client stands: it was refused, it was dropped because its opening could not be
sent, it is connected, or it has closed. -/
inductive ClientThread where
  | refused (e : HttpError)
  | dropped
  | connected (id : JsString)
  | closed

/-- The fields of the object; the number of sockets accepted and those whose close event has come;
the client requests and the WebSocket clients. `outbox` lists what was sent over each socket and
`delivered` the messages passed on to each client. The identifiers drawn and the socket each request
was sent over are history. -/
structure HeadscaleTunnel where
  tunnel : Option ℕ
  pendingRequests : List (JsString × ℕ)
  wsConnections : List (JsString × ℕ)
  accepted : ℕ
  closed : ℕ → Bool
  requests : Table ℕ RequestThread
  clients : Table ℕ ClientThread
  outbox : ℕ → List Message
  delivered : ℕ → List JsValue
  drawn : List JsString
  sentOver : Table ℕ ℕ

def HeadscaleTunnel.initial : HeadscaleTunnel where
  tunnel := none
  pendingRequests := []
  wsConnections := []
  accepted := 0
  closed := fun _ => false
  requests := .empty
  clients := .empty
  outbox := fun _ => []
  delivered := fun _ => []
  drawn := []
  sentOver := .empty

/-- Events of the object. `ok` tells whether the call into the platform that a handler makes last
succeeds, `id` is the UUID it draws. -/
inductive TunnelEvent where
  | accept
  | close (k : ℕ)
  | message (k : ℕ) (data : Option JsValue) (ok : Bool)
  | request (i : ℕ) (r : ClientRequest) (id : JsString) (ok : Bool)
  | bodyRead (i : ℕ) (read : Bool) (id : JsString) (ok : Bool)
  | timeout (i : ℕ)
  | wsOpen (j : ℕ) (r : ClientRequest) (id : JsString) (ok : Bool)
  | wsMessage (j : ℕ) (data : ClientData) (ok : Bool)
  | wsClose (j : ℕ) (code : ℕ) (reason : JsString) (ok : Bool)

def isText (contentType : JsString) : Bool :=
  (js "text/").isPrefixOf contentType || js "json" <:+: contentType || js "xml" <:+: contentType ||
    js "x-www-form-urlencoded" <:+: contentType

/-- `btoa` of the code units of all chunks. -/
def toBase64 (bytes : Bytes) : JsString :=
  ofAscii (encodeBase64 (bytes.toChunks 0x8000).flatten)

def tunnelRequest (id : JsString) (r : ClientRequest) : TunnelRequest :=
  let text := isText ((r.header "content-type").getD [])
  { id, method := r.method, url := r.url, headers := r.headers
    body := r.body.map fun b => if text then b.text else toBase64 b.bytes
    isBinary := r.body.isSome && !text }

def notConnected : HttpError := ⟨str "Headscale not connected", 503⟩

/-- The request asks for a WebSocket. -/
def wantsWebSocket (r : ClientRequest) : Bool :=
  ((r.header "upgrade").getD []).map lowerUnit = js "websocket" ||
    (r.header "sec-websocket-key").getD [] ≠ []

namespace HeadscaleTunnel

def settle (s : HeadscaleTunnel) (i : ℕ) (o : Settlement) : HeadscaleTunnel :=
  { s with requests := s.requests.set i (.settled o) }

/-- Send a message over the tunnel; `none` is an exception. -/
def send (s : HeadscaleTunnel) (m : Message) (ok : Bool) : Option HeadscaleTunnel :=
  match s.tunnel, ok with
  | some k, true => some { s with outbox := Function.update s.outbox k (s.outbox k ++ [m]) }
  | _, _ => none

def accept (s : HeadscaleTunnel) : HeadscaleTunnel :=
  { s with tunnel := some s.accepted, accepted := s.accepted + 1 }

/-- The close handler, which rejects every pending request. -/
def close (s : HeadscaleTunnel) (k : ℕ) : Option HeadscaleTunnel :=
  if s.accepted ≤ k ∨ s.closed k then none
  else some { s with
    tunnel := none
    closed := Function.update s.closed k true
    requests := fun i =>
      if s.pendingRequests.any fun p => p.2 = i then some (.settled (.rejected (.closed k)))
      else s.requests i
    pendingRequests := [] }

/-- The promise of `forwardToHeadscale`: its entry is set, and taken back when sending throws. -/
def sendRequest (now : ℕ) (s : HeadscaleTunnel) (i : ℕ) (r : ClientRequest) (id : JsString)
    (ok : Bool) : HeadscaleTunnel :=
  let s := { s with drawn := id :: s.drawn }
  match s.tunnel, s.send (.request (tunnelRequest id r)) ok with
  | some k, some s => { s with
      pendingRequests := s.pendingRequests ++ [(id, i)]
      requests := s.requests.set i (.waiting id (now + 30000))
      sentOver := s.sentOver.set i k }
  | _, _ => s.settle i (.rejected .unsent)

/-- `forwardToHeadscale` up to its first wait. -/
def request (now : ℕ) (s : HeadscaleTunnel) (i : ℕ) (r : ClientRequest) (id : JsString)
    (ok : Bool) : Option HeadscaleTunnel :=
  if (s.requests i).isSome ∨ id ∈ s.drawn ∨ wantsWebSocket r then none
  else if s.tunnel.isNone then some (s.settle i (.answered notConnected))
  else
    match r.body with
    | some _ => some { s with requests := s.requests.set i (.reading r) }
    | none => some (s.sendRequest now i r id ok)

/-- The rest of `forwardToHeadscale` once the body is there. -/
def bodyRead (now : ℕ) (s : HeadscaleTunnel) (i : ℕ) (read : Bool) (id : JsString) (ok : Bool) :
    Option HeadscaleTunnel :=
  match s.requests i with
  | some (.reading r) =>
    if id ∈ s.drawn then none
    else if !read then some (s.settle i (.rejected .unread))
    else some (s.sendRequest now i r id ok)
  | _ => none

def timeout (now : ℕ) (s : HeadscaleTunnel) (i : ℕ) : Option HeadscaleTunnel :=
  match s.requests i with
  | some (.waiting id deadline) =>
    if now < deadline ∨ s.pendingRequests.lookup id ≠ some i then none
    else some ({ s with
      pendingRequests := s.pendingRequests.filter fun p => p.1 ≠ id }.settle i (.rejected .timeout))
  | _ => none

/-- A response: its entry is gone even when the response cannot be built. -/
def handleResponse (s : HeadscaleTunnel) (data : JsValue) (ok : Bool) : HeadscaleTunnel :=
  match data.get (js "id") with
  | some (.string id) =>
    match s.pendingRequests.lookup id with
    | none => s
    | some i =>
      let s := { s with pendingRequests := s.pendingRequests.filter fun p => p.1 ≠ id }
      if ok then s.settle i (.resolved data) else s
  | _ => s

/-- Data for a WebSocket client, or its end, which is not recorded when closing it throws. -/
def handleClient (s : HeadscaleTunnel) (data : JsValue) (closing ok : Bool) : HeadscaleTunnel :=
  match data.get (js "id") with
  | some (.string id) =>
    match s.wsConnections.lookup id, ok with
    | some j, true =>
      if closing then { s with wsConnections := s.wsConnections.filter fun p => p.1 ≠ id }
      else { s with delivered := Function.update s.delivered j (s.delivered j ++ [data]) }
    | _, _ => s
  | _ => s

/-- A message from a socket, whichever it is. -/
def handleTunnelMessage (s : HeadscaleTunnel) (v : JsValue) (ok : Bool) : HeadscaleTunnel :=
  match v.get (js "type"), v.get (js "data") with
  | some (.string type), some data =>
    if type = js "response" then s.handleResponse data ok
    else if type = js "ws_data" then s.handleClient data false ok
    else if type = js "ws_close" then s.handleClient data true ok
    else if type = js "ping" then (s.send .pong ok).getD s
    else s
  | _, _ => s

def message (s : HeadscaleTunnel) (k : ℕ) (data : Option JsValue) (ok : Bool) :
    Option HeadscaleTunnel :=
  if s.accepted ≤ k ∨ s.closed k then none
  else
    match data with
    | none => some s
    | some v => some (s.handleTunnelMessage v ok)

/-- `forwardWebSocket`; its entry stays when sending throws. -/
def wsOpen (s : HeadscaleTunnel) (j : ℕ) (r : ClientRequest) (id : JsString) (ok : Bool) :
    Option HeadscaleTunnel :=
  if (s.clients j).isSome ∨ id ∈ s.drawn ∨ !wantsWebSocket r then none
  else if s.tunnel.isNone then some { s with clients := s.clients.set j (.refused notConnected) }
  else if r.header "upgrade" ≠ some (js "websocket") then
    some { s with clients := s.clients.set j (.refused ⟨str "Expected WebSocket", 426⟩) }
  else
    let s := { s with drawn := id :: s.drawn, wsConnections := s.wsConnections ++ [(id, j)] }
    match s.send (.wsOpen id r.method r.url r.headers) ok with
    | some s => some { s with clients := s.clients.set j (.connected id) }
    | none => some { s with clients := s.clients.set j .dropped }

def wsMessage (s : HeadscaleTunnel) (j : ℕ) (data : ClientData) (ok : Bool) :
    Option HeadscaleTunnel :=
  match s.clients j with
  | some (.connected id) =>
    let m := match data with
      | .text t => Message.wsData id t false
      | .binary b => Message.wsData id (toBase64 b) true
    some ((s.send m ok).getD s)
  | _ => none

def wsClose (s : HeadscaleTunnel) (j : ℕ) (code : ℕ) (reason : JsString) (ok : Bool) :
    Option HeadscaleTunnel :=
  match s.clients j with
  | some (.connected id) =>
    let s := { s with
      clients := s.clients.set j .closed
      wsConnections := s.wsConnections.filter fun p => p.1 ≠ id }
    some ((s.send (.wsClose id code reason) ok).getD s)
  | _ => none

def step (now : ℕ) (s : HeadscaleTunnel) : TunnelEvent → Option HeadscaleTunnel
  | .accept => some s.accept
  | .close k => s.close k
  | .message k data ok => s.message k data ok
  | .request i r id ok => s.request now i r id ok
  | .bodyRead i read id ok => s.bodyRead now i read id ok
  | .timeout i => s.timeout now i
  | .wsOpen j r id ok => s.wsOpen j r id ok
  | .wsMessage j data ok => s.wsMessage j data ok
  | .wsClose j code reason ok => s.wsClose j code reason ok

end HeadscaleTunnel

end HeadFwd.Worker
