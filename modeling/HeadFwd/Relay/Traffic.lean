import HeadFwd.Relay.Tunnels
import HeadFwd.Tunnel.Message

/-! # Traffic through the tunnels

`forwardHTTP` and `handleStreamUpgrade` hand client requests to the tunnel of
their fingerprint; `readTunnel` takes the answers off the tunnels. All of them
meet in the maps of outstanding requests and of open streams. Threads advance
by one lock-protected section, one channel operation or one socket operation
at a time. A socket operation may fail at any time.
-/

namespace HeadFwd.Relay

open Text Net Transition Tunnel

/-- A request of a client as the handlers see it. `url` is the text of its URL, `body` what reading
the whole body gave, `none` when that failed. -/
structure ClientRequest where
  request : Request
  url : Bytes
  body : Option Bytes

/-- The end of a `forwardHTTP` call. A relayed response carries the connection it was read on. -/
inductive Outcome where
  | failed (e : HttpError)
  | relayed (t : ℕ) (resp : TunnelResponse)
  deriving DecidableEq

/-- The arguments with which a handler calls its response writer. -/
structure Written where
  headers : Headers
  status : ℤ
  body : Bytes

/-- Where a `forwardHTTP` call stands: it has a tunnel, its request is outstanding, the write of the
request failed, it waits for the response, it gave up waiting, or it is over. -/
inductive HttpThread where
  | building (t : ℕ) (r : ClientRequest)
  | registered (t : ℕ) (req : TunnelRequest)
  | unsent (req : TunnelRequest)
  | waiting (req : TunnelRequest) (deadline : ℕ)
  | timedOut (req : TunnelRequest)
  | finished (o : Outcome)

/-- Where a `handleStreamUpgrade` call, and the goroutine that continues it, stands: it has a
tunnel, its stream is in the map, it reads from the client, it has something to send, it is about
to take the stream out of the map, it is about to close the client connection it found there, or it
is over. -/
inductive StreamThread where
  | building (t : ℕ) (r : ClientRequest)
  | registered (t : ℕ) (o : WsOpen)
  | relaying (t : ℕ) (id : Bytes)
  | sending (t : ℕ) (d : WsData)
  | ending (t : ℕ) (id : Bytes)
  | removing (id : Bytes)
  | closing (j : ℕ)
  | ended (e : Option HttpError)

/-- The tunnel, the message and the stream of a thread that is about to send. -/
def StreamThread.sends : StreamThread → Option (ℕ × TunnelMessage × Bytes)
  | .registered t o => some (t, .wsOpen o, o.id)
  | .sending t d => some (t, .wsData d, d.id)
  | .ending t id => some (t, .wsClose { id }, id)
  | _ => none

/-- What a reader does with a message after its critical section: send a response on the channel of
a call, write to the client of a stream, close the client of a stream, or answer a ping. -/
inductive ReaderTask where
  | delivering (i : ℕ) (resp : TunnelResponse)
  | writing (j : ℕ) (d : WsData)
  | closing (j : ℕ) (c : WsClose)
  | ponging

/-- Who drew an identifier: an HTTP call or a stream. -/
inductive Owner where
  | http (i : ℕ)
  | stream (j : ℕ)
  deriving DecidableEq

/-- A message read on a connection, and what reached a client: the end of a call, bytes written to
a stream and the end of a stream, with the connection whose reader did it, if any. -/
inductive TrafficEvent where
  | read (t : ℕ) (m : TunnelMessage)
  | finished (i : ℕ) (o : Outcome)
  | wrote (j : ℕ) (t : ℕ) (payload : Bytes)
  | hungUp (j : ℕ) (t : Option ℕ)
  deriving DecidableEq

/-- How a write to a tunnel ended. A failed write may still have reached the other end. -/
inductive WriteOutcome where
  | sent
  | failed (delivered : Bool)

/-- The two maps, the threads, the one-slot response channels with the connection of their content,
and the client connections already closed. `outbox` lists what reached the other end of each
connection. The fingerprints of calls and streams, the owners of identifiers, the requests sent and
the log, newest event first, are history; `owners` keeps random draws apart. -/
structure Traffic where
  pending : Table Bytes ℕ
  streams : Table Bytes ℕ
  https : Table ℕ HttpThread
  upgrades : Table ℕ StreamThread
  chans : Table ℕ (ℕ × TunnelResponse)
  readers : Table ℕ ReaderTask
  closed : ℕ → Bool
  outbox : ℕ → List TunnelMessage
  callers : Table ℕ Bytes
  streamers : Table ℕ Bytes
  owners : Table Bytes Owner
  requests : Table ℕ TunnelRequest
  log : List TrafficEvent

def Traffic.initial : Traffic where
  pending := .empty
  streams := .empty
  https := .empty
  upgrades := .empty
  chans := .empty
  readers := .empty
  closed := fun _ => false
  outbox := fun _ => []
  callers := .empty
  streamers := .empty
  owners := .empty
  requests := .empty
  log := []

inductive TrafficAction where
  | httpBegin (i : ℕ) (r : ClientRequest)
  | httpRegister (i : ℕ) (random : Bytes)
  | httpSend (i : ℕ) (w : WriteOutcome)
  | httpReceive (i : ℕ)
  | httpTimeout (i : ℕ)
  | httpClear (i : ℕ)
  | streamBegin (j : ℕ) (r : ClientRequest)
  | streamHijackFail (j : ℕ) (supported : Bool)
  | streamRegister (j : ℕ) (random : Bytes)
  | streamRead (j : ℕ) (chunk : Option Bytes)
  | streamSend (j : ℕ) (w : WriteOutcome)
  | streamRemove (j : ℕ)
  | streamClose (j : ℕ)
  | read (t : ℕ) (m : TunnelMessage)
  | readerFinish (t : ℕ) (written : ℕ) (w : WriteOutcome)

/-- The fingerprint of the host and whether the client asks for an upgrade. -/
def handleClient (r : Request) : Except HttpError (Bytes × Bool) :=
  if r.host = [] then .error ⟨str "missing host", 400⟩
  else
    let fingerprint := extractFingerprint r.host
    if fingerprint = [] then .error ⟨str "invalid subdomain", 400⟩
    else .ok (fingerprint, containsStr (str "upgrade") (toLower (r.header.get (str "Connection"))) &&
      r.header.get (str "Upgrade") ≠ [])

def readRequestBody (r : ClientRequest) : Option Bytes × Bool :=
  match r.body with
  | none => (none, false)
  | some data =>
    if data = [] then (none, false)
    else if isText (r.request.header.get (str "Content-Type")) then (some data, false)
    else (some (toBase64 data), true)

/-- The message for a request or for a stream that is opened. -/
def tunnelRequest (id : Bytes) (r : ClientRequest) : TunnelRequest :=
  let (body, isBinary) := readRequestBody r
  { id, method := r.request.method, url := r.url, headers := headersToMap r.request.header, body,
    isBinary }

/-- What the response writer is given; `none` when it panics on the status. -/
def writeTunnelResponse (resp : TunnelResponse) : Option Written :=
  if resp.status < 100 ∨ 999 < resp.status then none
  else some
    { headers := resp.headers
      status := resp.status
      body := match resp.body with
        | none => []
        | some body => if resp.isBinary then fromBase64 body else body }

/-- What ends a call at the client. `http.Error` adds a line end and two headers of its own. -/
def Outcome.written : Outcome → Option Written
  | .failed e => some
    { headers := [(str "Content-Type", str "text/plain; charset=utf-8"),
        (str "X-Content-Type-Options", str "nosniff")]
      status := e.status
      body := e.text ++ str "\n" }
  | .relayed _ resp => writeTunnelResponse resp

def notConnected : HttpError := ⟨str "Headscale not connected", 503⟩

def responseTimeout : ℕ := 30 * 10 ^ 9

namespace Traffic

/-- Append a message to what the other end of a connection has received, unless it was lost. -/
def push (outbox : ℕ → List TunnelMessage) (t : ℕ) (m : TunnelMessage) :
    WriteOutcome → ℕ → List TunnelMessage
  | .failed false => outbox
  | _ => Function.update outbox t (outbox t ++ [m])

/-- End an HTTP call. -/
def finish (s : Traffic) (i : ℕ) (o : Outcome) : Traffic :=
  { s with https := s.https.set i (.finished o), log := .finished i o :: s.log }

def httpBegin (tunnels : Tunnels) (s : Traffic) (i : ℕ) (r : ClientRequest) : Option Traffic :=
  match s.https i, handleClient r.request with
  | none, .error e => some (s.finish i (.failed e))
  | none, .ok (fingerprint, false) =>
    let s := { s with callers := s.callers.set i fingerprint }
    match tunnels.tunnels fingerprint with
    | none => some (s.finish i (.failed notConnected))
    | some t => some { s with https := s.https.set i (.building t r) }
  | _, _ => none

def httpRegister (s : Traffic) (i : ℕ) (random : Bytes) : Option Traffic :=
  let id := randomHex random
  match s.https i, s.owners id with
  | some (.building t r), none =>
    if random.length ≠ 16 then none
    else
      let req := tunnelRequest id r
      some { s with
        pending := s.pending.set id i
        https := s.https.set i (.registered t req)
        owners := s.owners.set id (.http i)
        requests := s.requests.set i req }
  | _, _ => none

def httpSend (now : ℕ) (s : Traffic) (i : ℕ) (w : WriteOutcome) : Option Traffic :=
  match s.https i with
  | some (.registered t req) =>
    let thread := match w with
      | .sent => HttpThread.waiting req (now + responseTimeout)
      | .failed _ => HttpThread.unsent req
    some { s with https := s.https.set i thread, outbox := push s.outbox t (.request req) w }
  | _ => none

def httpReceive (s : Traffic) (i : ℕ) : Option Traffic :=
  match s.https i, s.chans i with
  | some (.waiting _ _), some (t, resp) =>
    some ({ s with chans := s.chans.erase i }.finish i (.relayed t resp))
  | _, _ => none

def httpTimeout (now : ℕ) (s : Traffic) (i : ℕ) : Option Traffic :=
  match s.https i with
  | some (.waiting req deadline) =>
    if deadline ≤ now then some { s with https := s.https.set i (.timedOut req) } else none
  | _ => none

/-- `clearPending` and the error that follows it. -/
def httpClear (s : Traffic) (i : ℕ) : Option Traffic :=
  match s.https i with
  | some (.unsent req) =>
    some ({ s with pending := s.pending.erase req.id }.finish i
      (.failed ⟨str "tunnel write failed", 502⟩))
  | some (.timedOut req) =>
    some ({ s with pending := s.pending.erase req.id }.finish i (.failed ⟨str "timeout", 504⟩))
  | _ => none

def streamBegin (tunnels : Tunnels) (s : Traffic) (j : ℕ) (r : ClientRequest) : Option Traffic :=
  match s.upgrades j, handleClient r.request with
  | none, .ok (fingerprint, true) =>
    let s := { s with streamers := s.streamers.set j fingerprint }
    match tunnels.tunnels fingerprint with
    | none => some { s with upgrades := s.upgrades.set j (.ended (some notConnected)) }
    | some t => some { s with upgrades := s.upgrades.set j (.building t r) }
  | _, _ => none

def streamHijackFail (s : Traffic) (j : ℕ) (supported : Bool) : Option Traffic :=
  match s.upgrades j with
  | some (.building _ _) =>
    let e := if supported then str "hijack failed" else str "hijacking not supported"
    some { s with upgrades := s.upgrades.set j (.ended (some ⟨e, 500⟩)) }
  | _ => none

def streamRegister (s : Traffic) (j : ℕ) (random : Bytes) : Option Traffic :=
  let id := randomHex random
  match s.upgrades j, s.owners id with
  | some (.building t r), none =>
    if random.length ≠ 16 then none
    else some { s with
      streams := s.streams.set id j
      upgrades := s.upgrades.set j (.registered t (tunnelRequest id r))
      owners := s.owners.set id (.stream j) }
  | _, _ => none

/-- One read from the client; `none` is an error. -/
def streamRead (s : Traffic) (j : ℕ) (chunk : Option Bytes) : Option Traffic :=
  match s.upgrades j, chunk with
  | some (.relaying t id), none => some { s with upgrades := s.upgrades.set j (.ending t id) }
  | some (.relaying t id), some chunk =>
    if 32 * 1024 < chunk.length then none
    else
      let d := { id, data := toBase64 chunk, isBinary := true }
      some { s with upgrades := s.upgrades.set j (.sending t d) }
  | _, _ => none

/-- Send the pending message of a stream. Only the goroutine that found its client gone does not
look at the result. -/
def streamSend (s : Traffic) (j : ℕ) (w : WriteOutcome) : Option Traffic :=
  match s.upgrades j with
  | some (.registered t o) =>
    let thread := match w with
      | .sent => StreamThread.relaying t o.id
      | .failed _ => StreamThread.removing o.id
    some { s with upgrades := s.upgrades.set j thread, outbox := push s.outbox t (.wsOpen o) w }
  | some (.sending t d) =>
    let thread := match w with
      | .sent => StreamThread.relaying t d.id
      | .failed _ => StreamThread.removing d.id
    some { s with upgrades := s.upgrades.set j thread, outbox := push s.outbox t (.wsData d) w }
  | some (.ending t id) =>
    some { s with
      upgrades := s.upgrades.set j (.removing id)
      outbox := push s.outbox t (.wsClose { id }) w }
  | _ => none

/-- The critical section of `removeStream` at the end of a stream. -/
def streamRemove (s : Traffic) (j : ℕ) : Option Traffic :=
  match s.upgrades j with
  | some (.removing id) =>
    let thread := match s.streams id with
      | some k => StreamThread.closing k
      | none => StreamThread.ended none
    some { s with streams := s.streams.erase id, upgrades := s.upgrades.set j thread }
  | _ => none

/-- Close a client connection. -/
def hangUp (s : Traffic) (j : ℕ) (t : Option ℕ) : Traffic :=
  { s with closed := Function.update s.closed j true, log := .hungUp j t :: s.log }

def streamClose (s : Traffic) (j : ℕ) : Option Traffic :=
  match s.upgrades j with
  | some (.closing k) =>
    some ({ s with upgrades := s.upgrades.set j (.ended none) }.hangUp k none)
  | _ => none

/-- A reader takes a message off its connection and runs the critical section for it. -/
def read (tunnels : Tunnels) (s : Traffic) (t : ℕ) (m : TunnelMessage) : Option Traffic :=
  match (tunnels.conns t).map Conn.reader, s.readers t with
  | some .running, none =>
    let s := { s with log := .read t m :: s.log }
    match m with
    | .response resp =>
      let s' := { s with pending := s.pending.erase resp.id }
      match s.pending resp.id with
      | some i => some { s' with readers := s.readers.set t (.delivering i resp) }
      | none => some s'
    | .wsData d =>
      match s.streams d.id with
      | some j => some { s with readers := s.readers.set t (.writing j d) }
      | none => some s
    | .wsClose c =>
      let s' := { s with streams := s.streams.erase c.id }
      match s.streams c.id with
      | some j => some { s' with readers := s.readers.set t (.closing j c) }
      | none => some s'
    | .ping => some { s with readers := s.readers.set t .ponging }
    | _ => some s
  | _, _ => none

/-- A reader completes what it began. The send on a response channel waits for its slot to be
free; a write to a client may stop short, and writes nothing once the client is closed. -/
def readerFinish (s : Traffic) (t : ℕ) (written : ℕ) (w : WriteOutcome) : Option Traffic :=
  match s.readers t with
  | some (.delivering i resp) =>
    match s.chans i with
    | some _ => none
    | none => some { s with chans := s.chans.set i (t, resp), readers := s.readers.erase t }
  | some (.writing j d) =>
    let payload := fromBase64 d.data
    let payload := if s.closed j then [] else payload.take written
    some { s with readers := s.readers.erase t, log := .wrote j t payload :: s.log }
  | some (.closing j _) => some ({ s with readers := s.readers.erase t }.hangUp j (some t))
  | some .ponging =>
    some { s with readers := s.readers.erase t, outbox := push s.outbox t .pong w }
  | none => none

def step (now : ℕ) (tunnels : Tunnels) (s : Traffic) : TrafficAction → Option Traffic
  | .httpBegin i r => s.httpBegin tunnels i r
  | .httpRegister i random => s.httpRegister i random
  | .httpSend i w => s.httpSend now i w
  | .httpReceive i => s.httpReceive i
  | .httpTimeout i => s.httpTimeout now i
  | .httpClear i => s.httpClear i
  | .streamBegin j r => s.streamBegin tunnels j r
  | .streamHijackFail j supported => s.streamHijackFail j supported
  | .streamRegister j random => s.streamRegister j random
  | .streamRead j chunk => s.streamRead j chunk
  | .streamSend j w => s.streamSend j w
  | .streamRemove j => s.streamRemove j
  | .streamClose j => s.streamClose j
  | .read t m => s.read tunnels t m
  | .readerFinish t written w => s.readerFinish t written w

/-- What a step does to the maps, threads, channels and clients, with everything it has checked. -/
inductive Effect (now : ℕ) (tunnels : Tunnels) (s : Traffic) : TrafficAction → Traffic → Prop where
  | refused (i : ℕ) (r : ClientRequest) (e : HttpError) (hi : s.https i = none) :
    Effect now tunnels s (.httpBegin i r) (s.finish i (.failed e))
  | unconnected (i : ℕ) (r : ClientRequest) (fp : Bytes) (hi : s.https i = none) :
    Effect now tunnels s (.httpBegin i r)
      ({ s with callers := s.callers.set i fp }.finish i (.failed notConnected))
  | built (i : ℕ) (r : ClientRequest) (fp : Bytes) (t : ℕ) (hi : s.https i = none)
    (ht : tunnels.tunnels fp = some t) :
    Effect now tunnels s (.httpBegin i r)
      { s with callers := s.callers.set i fp, https := s.https.set i (.building t r) }
  | registered (i : ℕ) (random : Bytes) (t : ℕ) (r : ClientRequest)
    (hi : s.https i = some (.building t r)) (ho : s.owners (randomHex random) = none) :
    Effect now tunnels s (.httpRegister i random) { s with
      pending := s.pending.set (randomHex random) i
      https := s.https.set i (.registered t (tunnelRequest (randomHex random) r))
      owners := s.owners.set (randomHex random) (.http i)
      requests := s.requests.set i (tunnelRequest (randomHex random) r) }
  | sent (i : ℕ) (w : WriteOutcome) (t : ℕ) (req : TunnelRequest) (thread : HttpThread)
    (hi : s.https i = some (.registered t req))
    (ht : thread = .waiting req (now + responseTimeout) ∨ thread = .unsent req) :
    Effect now tunnels s (.httpSend i w)
      { s with https := s.https.set i thread, outbox := push s.outbox t (.request req) w }
  | received (i : ℕ) (req : TunnelRequest) (deadline t : ℕ) (resp : TunnelResponse)
    (hi : s.https i = some (.waiting req deadline)) (hc : s.chans i = some (t, resp)) :
    Effect now tunnels s (.httpReceive i)
      ({ s with chans := s.chans.erase i }.finish i (.relayed t resp))
  | timedOut (i : ℕ) (req : TunnelRequest) (deadline : ℕ)
    (hi : s.https i = some (.waiting req deadline)) (hd : deadline ≤ now) :
    Effect now tunnels s (.httpTimeout i) { s with https := s.https.set i (.timedOut req) }
  | cleared (i : ℕ) (req : TunnelRequest) (e : HttpError)
    (hi : s.https i = some (.unsent req) ∨ s.https i = some (.timedOut req)) :
    Effect now tunnels s (.httpClear i)
      ({ s with pending := s.pending.erase req.id }.finish i (.failed e))
  | streamBegun (j : ℕ) (r : ClientRequest) (fp : Bytes) (thread : StreamThread)
    (hj : s.upgrades j = none)
    (ht : thread = .ended (some notConnected) ∨
      ∃ t, tunnels.tunnels fp = some t ∧ thread = .building t r) :
    Effect now tunnels s (.streamBegin j r)
      { s with streamers := s.streamers.set j fp, upgrades := s.upgrades.set j thread }
  | streamRefused (j : ℕ) (supported : Bool) (t : ℕ) (r : ClientRequest) (e : HttpError)
    (hj : s.upgrades j = some (.building t r)) :
    Effect now tunnels s (.streamHijackFail j supported)
      { s with upgrades := s.upgrades.set j (.ended (some e)) }
  | streamRegistered (j : ℕ) (random : Bytes) (t : ℕ) (r : ClientRequest)
    (hj : s.upgrades j = some (.building t r)) (ho : s.owners (randomHex random) = none) :
    Effect now tunnels s (.streamRegister j random) { s with
      streams := s.streams.set (randomHex random) j
      upgrades := s.upgrades.set j (.registered t (tunnelRequest (randomHex random) r))
      owners := s.owners.set (randomHex random) (.stream j) }
  | streamRead (j : ℕ) (chunk : Option Bytes) (t : ℕ) (id : Bytes) (thread : StreamThread)
    (hj : s.upgrades j = some (.relaying t id))
    (ht : thread = .ending t id ∨ ∃ d, d.id = id ∧ thread = .sending t d) :
    Effect now tunnels s (.streamRead j chunk) { s with upgrades := s.upgrades.set j thread }
  | streamSent (j : ℕ) (w : WriteOutcome) (t : ℕ) (m : TunnelMessage) (id : Bytes)
    (thread : StreamThread) (hj : (s.upgrades j).bind StreamThread.sends = some (t, m, id))
    (ht : thread = .relaying t id ∨ thread = .removing id) :
    Effect now tunnels s (.streamSend j w)
      { s with upgrades := s.upgrades.set j thread, outbox := push s.outbox t m w }
  | streamRemoved (j : ℕ) (id : Bytes) (thread : StreamThread)
    (hj : s.upgrades j = some (.removing id))
    (ht : thread = .ended none ∨ ∃ k, s.streams id = some k ∧ thread = .closing k) :
    Effect now tunnels s (.streamRemove j)
      { s with streams := s.streams.erase id, upgrades := s.upgrades.set j thread }
  | streamClosed (j k : ℕ) (hj : s.upgrades j = some (.closing k)) :
    Effect now tunnels s (.streamClose j)
      ({ s with upgrades := s.upgrades.set j (.ended none) }.hangUp k none)
  | readResponse (t : ℕ) (resp : TunnelResponse) (i : ℕ) (conn : Conn)
    (hc : tunnels.conns t = some conn) (ht : s.readers t = none)
    (hp : s.pending resp.id = some i) :
    Effect now tunnels s (.read t (.response resp)) { s with
      pending := s.pending.erase resp.id
      readers := s.readers.set t (.delivering i resp)
      log := .read t (.response resp) :: s.log }
  | readData (t : ℕ) (d : WsData) (j : ℕ) (conn : Conn) (hc : tunnels.conns t = some conn)
    (ht : s.readers t = none) (hs : s.streams d.id = some j) :
    Effect now tunnels s (.read t (.wsData d)) { s with
      readers := s.readers.set t (.writing j d)
      log := .read t (.wsData d) :: s.log }
  | readClose (t : ℕ) (c : WsClose) (j : ℕ) (conn : Conn) (hc : tunnels.conns t = some conn)
    (ht : s.readers t = none) (hs : s.streams c.id = some j) :
    Effect now tunnels s (.read t (.wsClose c)) { s with
      streams := s.streams.erase c.id
      readers := s.readers.set t (.closing j c)
      log := .read t (.wsClose c) :: s.log }
  | readPing (t : ℕ) (ht : s.readers t = none) :
    Effect now tunnels s (.read t .ping)
      { s with readers := s.readers.set t .ponging, log := .read t .ping :: s.log }
  | readIgnored (t : ℕ) (m : TunnelMessage) (pending streams : Table Bytes ℕ)
    (hp : ∀ x i, pending x = some i → s.pending x = some i)
    (hs : ∀ x j, streams x = some j → s.streams x = some j) :
    Effect now tunnels s (.read t m) { s with pending, streams, log := .read t m :: s.log }
  | delivered (t written : ℕ) (w : WriteOutcome) (i : ℕ) (resp : TunnelResponse)
    (ht : s.readers t = some (.delivering i resp)) (hc : s.chans i = none) :
    Effect now tunnels s (.readerFinish t written w)
      { s with chans := s.chans.set i (t, resp), readers := s.readers.erase t }
  | wrote (t written : ℕ) (w : WriteOutcome) (j : ℕ) (d : WsData) (payload : Bytes)
    (ht : s.readers t = some (.writing j d)) (hp : payload <+: fromBase64 d.data) :
    Effect now tunnels s (.readerFinish t written w)
      { s with readers := s.readers.erase t, log := .wrote j t payload :: s.log }
  | hungUp (t written : ℕ) (w : WriteOutcome) (j : ℕ) (c : WsClose)
    (ht : s.readers t = some (.closing j c)) :
    Effect now tunnels s (.readerFinish t written w)
      ({ s with readers := s.readers.erase t }.hangUp j (some t))
  | ponged (t written : ℕ) (w : WriteOutcome) (ht : s.readers t = some .ponging) :
    Effect now tunnels s (.readerFinish t written w)
      { s with readers := s.readers.erase t, outbox := push s.outbox t .pong w }

variable {now : ℕ} {tunnels : Tunnels} {s s' : Traffic}

theorem httpBegin_effect {i : ℕ} {r : ClientRequest} (h : s.httpBegin tunnels i r = some s') :
    Effect now tunnels s (.httpBegin i r) s' := by
  unfold httpBegin at h
  split at h
  · rename_i e hi _
    cases h
    exact .refused i r e hi
  · rename_i fp hi _
    dsimp only at h
    split at h
    · cases h
      exact .unconnected i r fp hi
    · rename_i t ht
      cases h
      exact .built i r fp t hi ht
  · cases h

theorem httpRegister_effect {i : ℕ} {random : Bytes} (h : s.httpRegister i random = some s') :
    Effect now tunnels s (.httpRegister i random) s' := by
  unfold httpRegister at h
  dsimp only at h
  split at h
  · rename_i t r hi ho
    split_ifs at h with hl
    cases h
    exact .registered i random t r hi ho
  · cases h

theorem httpSend_effect {i : ℕ} {w : WriteOutcome} (h : s.httpSend now i w = some s') :
    Effect now tunnels s (.httpSend i w) s' := by
  unfold httpSend at h
  split at h
  · rename_i t req hi
    cases h
    refine .sent i w t req _ hi ?_
    cases w with
    | sent => exact .inl rfl
    | failed delivered => exact .inr rfl
  · cases h

theorem httpReceive_effect {i : ℕ} (h : s.httpReceive i = some s') :
    Effect now tunnels s (.httpReceive i) s' := by
  unfold httpReceive at h
  split at h
  · rename_i req deadline t resp hi hc
    cases h
    exact .received i req deadline t resp hi hc
  · cases h

theorem httpTimeout_effect {i : ℕ} (h : s.httpTimeout now i = some s') :
    Effect now tunnels s (.httpTimeout i) s' := by
  unfold httpTimeout at h
  split at h
  · rename_i req deadline hi
    split_ifs at h with hd
    cases h
    exact .timedOut i req deadline hi hd
  · cases h

theorem httpClear_effect {i : ℕ} (h : s.httpClear i = some s') :
    Effect now tunnels s (.httpClear i) s' := by
  unfold httpClear at h
  split at h
  · rename_i req hi
    cases h
    exact .cleared i req _ (.inl hi)
  · rename_i req hi
    cases h
    exact .cleared i req _ (.inr hi)
  · cases h

theorem streamBegin_effect {j : ℕ} {r : ClientRequest} (h : s.streamBegin tunnels j r = some s') :
    Effect now tunnels s (.streamBegin j r) s' := by
  unfold streamBegin at h
  split at h
  · rename_i fp hj _
    dsimp only at h
    split at h
    · cases h
      exact .streamBegun j r fp _ hj (.inl rfl)
    · rename_i t ht
      cases h
      exact .streamBegun j r fp _ hj (.inr ⟨t, ht, rfl⟩)
  · cases h

theorem streamRegister_effect {j : ℕ} {random : Bytes} (h : s.streamRegister j random = some s') :
    Effect now tunnels s (.streamRegister j random) s' := by
  unfold streamRegister at h
  dsimp only at h
  split at h
  · rename_i t r hj ho
    split_ifs at h with hl
    cases h
    exact .streamRegistered j random t r hj ho
  · cases h

theorem streamRead_effect {j : ℕ} {chunk : Option Bytes} (h : s.streamRead j chunk = some s') :
    Effect now tunnels s (.streamRead j chunk) s' := by
  unfold streamRead at h
  split at h
  · rename_i t id hj
    cases h
    exact .streamRead j none t id _ hj (.inl rfl)
  · rename_i t id chunk hj
    split_ifs at h with hl
    cases h
    exact .streamRead j (some chunk) t id _ hj (.inr ⟨_, rfl, rfl⟩)
  · cases h

theorem streamSend_effect {j : ℕ} {w : WriteOutcome} (h : s.streamSend j w = some s') :
    Effect now tunnels s (.streamSend j w) s' := by
  unfold streamSend at h
  split at h
  · rename_i t o hj
    cases h
    refine .streamSent j w t (.wsOpen o) o.id _ (by rw [hj]; rfl) ?_
    cases w with
    | sent => exact .inl rfl
    | failed delivered => exact .inr rfl
  · rename_i t d hj
    cases h
    refine .streamSent j w t (.wsData d) d.id _ (by rw [hj]; rfl) ?_
    cases w with
    | sent => exact .inl rfl
    | failed delivered => exact .inr rfl
  · rename_i t id hj
    cases h
    exact .streamSent j w t _ id _ (by rw [hj]; rfl) (.inr rfl)
  · cases h

theorem streamRemove_effect {j : ℕ} (h : s.streamRemove j = some s') :
    Effect now tunnels s (.streamRemove j) s' := by
  unfold streamRemove at h
  split at h
  · rename_i id hj
    cases h
    refine .streamRemoved j id _ hj ?_
    split
    · rename_i k hk
      exact .inr ⟨k, hk, rfl⟩
    · exact .inl rfl
  · cases h

theorem read_effect {t : ℕ} {m : TunnelMessage} (h : s.read tunnels t m = some s') :
    Effect now tunnels s (.read t m) s' := by
  unfold read at h
  split at h
  · rename_i hrun ht
    obtain ⟨conn, hc, -⟩ := Option.map_eq_some_iff.mp hrun
    dsimp only at h
    split at h
    · rename_i resp
      split at h
      · rename_i i hp
        cases h
        exact .readResponse t resp i conn hc ht hp
      · cases h
        exact .readIgnored t _ _ _ (fun x i hx => Table.of_erase hx) fun x j hx => hx
    · rename_i d
      split at h
      · rename_i j hs
        cases h
        exact .readData t d j conn hc ht hs
      · cases h
        exact .readIgnored t _ _ _ (fun x i hx => hx) fun x j hx => hx
    · rename_i c
      split at h
      · rename_i j hs
        cases h
        exact .readClose t c j conn hc ht hs
      · cases h
        exact .readIgnored t _ _ _ (fun x i hx => hx) fun x j hx => Table.of_erase hx
    · cases h
      exact .readPing t ht
    · cases h
      exact .readIgnored t m _ _ (fun x i hx => hx) fun x j hx => hx
  · cases h

theorem readerFinish_effect {t written : ℕ} {w : WriteOutcome}
    (h : s.readerFinish t written w = some s') :
    Effect now tunnels s (.readerFinish t written w) s' := by
  unfold readerFinish at h
  split at h
  · rename_i i resp ht
    split at h
    · cases h
    · rename_i hc
      cases h
      exact .delivered t written w i resp ht hc
  · rename_i j d ht
    cases h
    refine .wrote t written w j d _ ht ?_
    split_ifs
    · exact List.nil_prefix
    · exact List.take_prefix ..
  · rename_i j c ht
    cases h
    exact .hungUp t written w j c ht
  · rename_i ht
    cases h
    exact .ponged t written w ht
  · cases h

theorem step_effect {a : TrafficAction} (h : s.step now tunnels a = some s') :
    Effect now tunnels s a s' := by
  cases a with
  | httpBegin i r => exact httpBegin_effect h
  | httpRegister i random => exact httpRegister_effect h
  | httpSend i w => exact httpSend_effect h
  | httpReceive i => exact httpReceive_effect h
  | httpTimeout i => exact httpTimeout_effect h
  | httpClear i => exact httpClear_effect h
  | streamBegin j r => exact streamBegin_effect h
  | streamHijackFail j supported =>
    simp only [step, streamHijackFail] at h
    split at h
    · rename_i t r hj
      cases h
      exact .streamRefused j supported t r _ hj
    · cases h
  | streamRegister j random => exact streamRegister_effect h
  | streamRead j chunk => exact streamRead_effect h
  | streamSend j w => exact streamSend_effect h
  | streamRemove j => exact streamRemove_effect h
  | streamClose j =>
    simp only [step, streamClose] at h
    split at h
    · rename_i k hj
      cases h
      exact .streamClosed j k hj
    · cases h
  | read t m => exact read_effect h
  | readerFinish t written w => exact readerFinish_effect h

end Traffic

end HeadFwd.Relay
