import HeadFwd.Sidecar.Forward

/-! # Run-time panics of the handlers

The functions that handle a message, with every use of a pointer, an index and a
slice written out. Where one of them goes wrong the process dies, since no handler
recovers. `url.Parse` returns a nil pointer with its error.
-/

namespace HeadFwd.Sidecar

open Text Net Tunnel

inductive Panic | nilDereference | indexOutOfRange
  deriving DecidableEq, Repr

def deref {α : Type} : Option α → Except Panic α
  | some x => .ok x
  | none => .error .nilDereference

def index (s : Bytes) (i : ℕ) : Except Panic UInt8 :=
  match s[i]? with
  | some b => .ok b
  | none => .error .indexOutOfRange

/-- The first `n` bytes. -/
def sliceTo (s : Bytes) (n : ℕ) : Except Panic Bytes :=
  if n ≤ s.length then .ok (s.take n) else .error .indexOutOfRange

/-- A parsed URL, with what its method `RequestURI` returns. -/
structure URL where
  scheme : Bytes
  host : Bytes
  path : Bytes
  rawQuery : Bytes
  requestURI : Bytes

/-- The base URL of Headscale, and `url.Parse`. -/
structure Settings where
  headscaleURL : Bytes
  parse : Bytes → Option URL

def Settings.config (cfg : Settings) : Config where
  headscaleURL := cfg.headscaleURL
  parseURL u := (cfg.parse u).map fun v => (v.path, v.rawQuery)

/-- Comparison with an ASCII text under case folding. Two letters outside ASCII fold into it. -/
def foldCase : Bytes → Bytes
  | 0xC5 :: 0xBF :: s => chr 's' :: foldCase s
  | 0xE2 :: 0x84 :: 0xAA :: s => chr 'k' :: foldCase s
  | b :: s => lowerByte b :: foldCase s
  | [] => []

def equalFold (s t : Bytes) : Bool := foldCase s = foldCase t

variable (cfg : Settings)

namespace Go

/-- The path and query of a request URL. -/
def requestPath (reqURL : Bytes) : Except Panic Bytes := do
  if 0 < reqURL.length then
    let c ← index reqURL 0
    if c ≠ chr '/' then
      match cfg.parse reqURL with
      | none => return reqURL
      | some u => return if u.rawQuery ≠ [] then u.path ++ [chr '?'] ++ u.rawQuery else u.path
    else return reqURL
  else return reqURL

/-- The body of a request; for one path the start of it is cut out for the log. -/
def requestBody (reqURL : Bytes) (req : TunnelRequest) :
    Except Panic (Except Unit (Option Bytes)) := do
  if req.body = none then return .ok none
  else
    let body ← deref req.body
    if req.isBinary then
      match decodeBase64 body with
      | none => return .error ()
      | some payload =>
        if containsStr (str "/ts2021") reqURL then
          let _preview ← if 16 < payload.length then sliceTo payload 16 else pure payload
          return .ok (some payload)
        else return .ok (some payload)
    else return .ok (some body)

def forwardToHeadscale (headscale : HeadscaleRequest → Option HeadscaleReply)
    (req : TunnelRequest) : Except Panic (Option TunnelResponse) := do
  let reqURL ← requestPath cfg req.url
  match ← requestBody reqURL req with
  | .error () => return none
  | .ok body =>
    let q := { method := req.method, url := cfg.headscaleURL ++ reqURL, headers := req.headers, body }
    return (headscale q).map (tunnelResponse req)

/-- The response that `handleRequest` sends. -/
def handleRequest (headscale : HeadscaleRequest → Option HeadscaleReply) (req : TunnelRequest) :
    Except Panic TunnelResponse := do
  match ← forwardToHeadscale cfg headscale req with
  | some resp => return resp
  | none =>
    return { id := req.id
             status := 502
             headers := [(str "Content-Type", str "text/plain")]
             body := some (str "Bad Gateway")
             isBinary := false }

/-- The request line and the headers as text, and the body. The result of `url.Parse` is used
without a look at its error. -/
def buildRawRequest (method requestURL : Bytes) (headers : Headers) (body host : Bytes) :
    Except Panic Bytes := do
  let u ← deref (cfg.parse requestURL)
  let path := if u.requestURI = [] then str "/" else u.requestURI
  let fields := headers.filter fun (k, _) => !equalFold k (str "Host")
  let hasContentLength := fields.any fun (k, _) => equalFold k (str "Content-Length")
  let length :=
    if body ≠ [] ∧ hasContentLength = false then
      str "Content-Length: " ++ str (toString body.length) ++ str "\r\n"
    else []
  return method ++ str " " ++ path ++ str " HTTP/1.1\r\n" ++
    fields.flatMap (fun (k, v) => k ++ str ": " ++ v ++ str "\r\n") ++
    str "Host: " ++ host ++ str "\r\n" ++ length ++ str "\r\n" ++ body

end Go

/-- The address at which Headscale is dialled for a stream; `none` is an error. -/
def headscaleDialAddress : Option Bytes :=
  (cfg.parse cfg.headscaleURL).map fun u =>
    let host :=
      if u.host = [] then
        trimPrefix (trimPrefix cfg.headscaleURL (str "http://")) (str "https://")
      else u.host
    if chr ':' ∈ host then host
    else if u.scheme = str "https" then host ++ str ":443"
    else host ++ str ":80"

/-- The body with which a stream is opened; `none` when it does not decode. -/
def openBody (o : WsOpen) : Option Bytes :=
  match o.body, o.isBinary with
  | none, _ => some []
  | some body, false => some body
  | some body, true => decodeBase64 body

theorem Go.requestPath_eq (reqURL : Bytes) :
    Go.requestPath cfg reqURL = .ok (Sidecar.requestPath cfg.config reqURL) := by
  unfold Go.requestPath Sidecar.requestPath
  cases reqURL with
  | nil => rfl
  | cons c s =>
    simp only [List.length_cons, Nat.zero_lt_succ, if_true, index, List.getElem?_cons_zero,
      Settings.config]
    change (if c ≠ chr '/' then _ else _) = _
    by_cases hc : c = chr '/'
    · simp [hc, pure, Except.pure]
    · cases hp : cfg.parse (c :: s) with
      | none => simp [hc, pure, Except.pure]
      | some u => by_cases hq : u.rawQuery = [] <;> simp [hc, hq, pure, Except.pure]

theorem Go.requestBody_eq (reqURL : Bytes) (req : TunnelRequest) :
    Go.requestBody reqURL req = .ok (Sidecar.requestBody req) := by
  unfold Go.requestBody Sidecar.requestBody
  cases hb : req.body with
  | none => rfl
  | some body =>
    cases hi : req.isBinary with
    | false => rfl
    | true =>
      cases hd : decodeBase64 body with
      | none => simp [deref, hd, bind, Except.bind, pure, Except.pure]
      | some payload =>
        by_cases hl : 16 < payload.length
        · simp [deref, hd, bind, Except.bind, pure, Except.pure, sliceTo, hl.le, hl]
        · simp [deref, hd, bind, Except.bind, pure, Except.pure, hl]

/-- Forwarding a request never panics. -/
theorem Go.forwardToHeadscale_eq (headscale : HeadscaleRequest → Option HeadscaleReply)
    (req : TunnelRequest) :
    Go.forwardToHeadscale cfg headscale req =
      .ok (Sidecar.forwardToHeadscale cfg.config headscale req) := by
  rw [Go.forwardToHeadscale, Go.requestPath_eq, Sidecar.forwardToHeadscale_eq, headscaleRequest]
  change (Go.requestBody _ req >>= _) = _
  rw [Go.requestBody_eq]
  cases Sidecar.requestBody req with
  | error e => rfl
  | ok body => rfl

/-- A request is always answered. -/
theorem Go.handleRequest_eq (headscale : HeadscaleRequest → Option HeadscaleReply)
    (req : TunnelRequest) :
    Go.handleRequest cfg headscale req =
      .ok (Sidecar.handleRequest cfg.config headscale req) := by
  rw [Go.handleRequest, Go.forwardToHeadscale_eq, Sidecar.handleRequest]
  change (match Sidecar.forwardToHeadscale cfg.config headscale req with
    | some resp => _
    | none => _) = _
  cases Sidecar.forwardToHeadscale cfg.config headscale req with
  | none => rfl
  | some resp => rfl

/-- Building the raw request panics exactly on a URL that does not parse. -/
theorem Go.buildRawRequest_eq_error {method requestURL body host : Bytes} {headers : Headers}
    {p : Panic} :
    Go.buildRawRequest cfg method requestURL headers body host = .error p ↔
      cfg.parse requestURL = none ∧ p = .nilDereference := by
  unfold Go.buildRawRequest
  cases cfg.parse requestURL with
  | none => simp [deref, bind, Except.bind, eq_comm]
  | some u => simp [deref, bind, Except.bind, pure, Except.pure]

end HeadFwd.Sidecar
