import HeadFwd.Net.Http
import HeadFwd.Text.Base64
import HeadFwd.Text.Utf8

/-! # The tunnel protocol

The messages that relay and sidecar exchange over a tunnel. They travel as JSON,
so every string arrives with its invalid UTF-8 replaced.
-/

namespace HeadFwd.Tunnel

open Text Net

/-- A map from header names to one value each. -/
abbrev Headers := List (Bytes × Bytes)

structure TunnelRequest where
  id : Bytes
  method : Bytes
  url : Bytes
  headers : Headers
  body : Option Bytes
  isBinary : Bool
  deriving DecidableEq

structure TunnelResponse where
  id : Bytes
  status : ℤ
  headers : Headers
  body : Option Bytes
  isBinary : Bool
  deriving DecidableEq

/-- Opening a stream carries the same fields as a request. -/
abbrev WsOpen := TunnelRequest

structure WsData where
  id : Bytes
  data : Bytes
  isBinary : Bool
  deriving DecidableEq

structure WsClose where
  id : Bytes
  code : ℤ := 0
  reason : Bytes := []
  deriving DecidableEq

/-- The messages by type. `other` is a message of an unknown type or one whose data does not have
the shape its type asks for. -/
inductive TunnelMessage where
  | request (r : TunnelRequest)
  | response (r : TunnelResponse)
  | wsOpen (o : WsOpen)
  | wsData (d : WsData)
  | wsClose (c : WsClose)
  | ping
  | pong
  | other
  deriving DecidableEq

/-- The request or stream a message is about. -/
def TunnelMessage.id? : TunnelMessage → Option Bytes
  | .request r => some r.id
  | .response r => some r.id
  | .wsOpen o => some o.id
  | .wsData d => some d.id
  | .wsClose c => some c.id
  | _ => none

/-- The identifier in a message that makes a relay turn to one of its clients. -/
def TunnelMessage.answers : TunnelMessage → Option Bytes
  | .response r => some r.id
  | .wsData d => some d.id
  | .wsClose c => some c.id
  | _ => none

/-- The first value of every header. -/
def headersToMap (h : Header) : Headers := h.filterMap fun (k, v) => v.head?.map fun x => (k, x)

/-- Whether a body of this content type travels as text. -/
def isText (contentType : Bytes) : Bool :=
  (str "text/").isPrefixOf contentType || containsStr (str "json") contentType ||
    containsStr (str "xml") contentType || containsStr (str "x-www-form-urlencoded") contentType

def toBase64 (buf : Bytes) : Bytes := if buf = [] then [] else encodeBase64 buf

/-- Decoding that gives nothing on an error. -/
def fromBase64 (s : Bytes) : Bytes := (decodeBase64 s).getD []

def Headers.wire (h : Headers) : Headers := h.map fun (k, v) => (sanitize k, sanitize v)

/-- A request as the other end decodes it. -/
def TunnelRequest.wire (r : TunnelRequest) : TunnelRequest where
  id := sanitize r.id
  method := sanitize r.method
  url := sanitize r.url
  headers := r.headers.wire
  body := r.body.map sanitize
  isBinary := r.isBinary

/-- A response as the other end decodes it. -/
def TunnelResponse.wire (r : TunnelResponse) : TunnelResponse where
  id := sanitize r.id
  status := r.status
  headers := r.headers.wire
  body := r.body.map sanitize
  isBinary := r.isBinary

end HeadFwd.Tunnel
