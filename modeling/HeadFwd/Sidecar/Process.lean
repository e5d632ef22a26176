import HeadFwd.Sidecar.Panic
import HeadFwd.Transition.Basic
import HeadFwd.Transition.Table

/-! # The tunnel side of the sidecar process

`runTunnel` reads messages off a connection. It starts a goroutine for every
request and every stream that is opened, and handles the data and the end of a
stream itself. Threads advance by one lock-protected section or one socket operation
at a time; a goroutine is named by its connection and the position of its message.
A socket that a write has failed on takes nothing more.
-/

namespace HeadFwd.Sidecar

open Text Net Transition Tunnel

/-- The connection and the position of the message that a goroutine was started for. -/
abbrev Task := ℕ × ℕ

/-- A connection to Headscale: the raw request, the bytes written after it and the bytes read,
whether a write has failed, and whether the sidecar has closed it. -/
structure Link where
  request : Bytes
  written : Bytes
  read : Bytes
  broken : Bool
  closed : Bool

/-- Where a goroutine stands. For a request: before it is forwarded, or with a response to send. For
a stream: before Headscale is dialled, before the raw request is written, before the connection is
in the map, reading, with bytes to send, with the end to send, before the connection is out of the
map, before it is closed. -/
inductive Handler where
  | requested (req : TunnelRequest)
  | responding (resp : TunnelResponse)
  | opening (o : WsOpen)
  | dialled (o : WsOpen) (addr : Bytes)
  | storing (id : Bytes)
  | reading (id : Bytes)
  | sending (id payload : Bytes)
  | closing (id : Bytes)
  | deleting (id : Bytes)
  | leaving
  | ended

/-- What `runTunnel` does after its critical section: write to a stream or close it. -/
inductive LoopTask where
  | writing (h : Task) (payload : Bytes)
  | closing (h : Task)

/-- How a write to a tunnel ends. A failed write may still have reached the other end. -/
inductive WriteResult where
  | ok
  | failed (delivered : Bool)

/-- The map of streams, the goroutines, the loops over connections, and the sockets. `received` lists
the messages read on each connection, `outbox` those that reached the relay. -/
structure Process where
  streamConns : Table Bytes Task
  handlers : Table Task Handler
  loops : Table ℕ LoopTask
  links : Task → Link
  received : ℕ → List TunnelMessage
  outbox : ℕ → List TunnelMessage
  failed : ℕ → Bool
  crashed : Option Panic

def Process.initial : Process where
  streamConns := .empty
  handlers := .empty
  loops := .empty
  links := fun _ => ⟨[], [], [], false, false⟩
  received := fun _ => []
  outbox := fun _ => []
  failed := fun _ => false
  crashed := none

inductive ProcessAction where
  | receive (t : ℕ) (m : TunnelMessage)
  | finish (t : ℕ) (written : ℕ)
  | respond (h : Task) (headscale : HeadscaleRequest → Option HeadscaleReply)
  | reply (h : Task) (w : WriteResult)
  | dial (h : Task) (ok : Bool)
  | request (h : Task) (ok : Bool)
  | store (h : Task)
  | read (h : Task) (chunk : Option Bytes)
  | send (h : Task) (w : WriteResult)
  | delete (h : Task)
  | close (h : Task)
  | ping (t : ℕ) (w : WriteResult)

/-- The bytes in a message for a stream; `none` when they do not decode. -/
def payload (d : WsData) : Option Bytes := if d.isBinary then decodeBase64 d.data else some d.data

namespace Process

/-- Write a message to a tunnel. -/
def write (s : Process) (t : ℕ) (m : TunnelMessage) (w : WriteResult) : Process :=
  if s.failed t then s
  else
    match w with
    | .ok => { s with outbox := Function.update s.outbox t (s.outbox t ++ [m]) }
    | .failed delivered => { s with
        failed := Function.update s.failed t true
        outbox := if delivered then Function.update s.outbox t (s.outbox t ++ [m]) else s.outbox }

/-- `runTunnel` dispatches a message. -/
def receive (s : Process) (t : ℕ) (m : TunnelMessage) : Option Process :=
  if (s.loops t).isSome then none
  else
    let h := (t, (s.received t).length)
    let s' := { s with received := Function.update s.received t (s.received t ++ [m]) }
    match m with
    | .request req => some { s' with handlers := s.handlers.set h (.requested req) }
    | .wsOpen o =>
      let o := if o.method = [] then { o with method := str "GET" } else o
      some { s' with handlers := s.handlers.set h (.opening o) }
    | .wsData d =>
      match s.streamConns d.id, payload d with
      | some h, some payload => some { s' with loops := s.loops.set t (.writing h payload) }
      | _, _ => some s'
    | .wsClose c =>
      match s.streamConns c.id with
      | some h => some { s' with
          streamConns := s.streamConns.erase c.id
          loops := s.loops.set t (.closing h) }
      | none => some s'
    | _ => some s'

/-- `runTunnel` completes what it began; a write may stop short. -/
def finish (s : Process) (t : ℕ) (written : ℕ) : Option Process :=
  match s.loops t with
  | some (.writing h payload) =>
    let link := s.links h
    let link :=
      if link.broken || link.closed then link
      else { link with
        written := link.written ++ payload.take written
        broken := written < payload.length }
    some { s with loops := s.loops.erase t, links := Function.update s.links h link }
  | some (.closing h) =>
    some { s with
      loops := s.loops.erase t
      links := Function.update s.links h { s.links h with closed := true } }
  | none => none

variable (cfg : Settings)

def respond (s : Process) (h : Task) (headscale : HeadscaleRequest → Option HeadscaleReply) :
    Option Process :=
  match s.handlers h with
  | some (.requested req) =>
    match Go.handleRequest cfg headscale req with
    | .error p => some { s with crashed := some p }
    | .ok resp => some { s with handlers := s.handlers.set h (.responding resp) }
  | _ => none

def reply (s : Process) (h : Task) (w : WriteResult) : Option Process :=
  match s.handlers h with
  | some (.responding resp) =>
    some ({ s with handlers := s.handlers.set h .ended }.write h.1 (.response resp) w)
  | _ => none

def dial (s : Process) (h : Task) (ok : Bool) : Option Process :=
  match s.handlers h with
  | some (.opening o) =>
    match headscaleDialAddress cfg, ok with
    | some addr, true => some { s with handlers := s.handlers.set h (.dialled o addr) }
    | _, _ => some { s with handlers := s.handlers.set h .ended }
  | _ => none

/-- Build and write the raw request. -/
def request (s : Process) (h : Task) (ok : Bool) : Option Process :=
  match s.handlers h with
  | some (.dialled o addr) =>
    match openBody o with
    | none => some { s with handlers := s.handlers.set h .leaving }
    | some body =>
      match Go.buildRawRequest cfg o.method o.url o.headers body addr with
      | .error p => some { s with crashed := some p }
      | .ok rawRequest =>
        if ok then some { s with
          handlers := s.handlers.set h (.storing o.id)
          links := Function.update s.links h { s.links h with request := rawRequest } }
        else some { s with handlers := s.handlers.set h .leaving }
  | _ => none

def store (s : Process) (h : Task) : Option Process :=
  match s.handlers h with
  | some (.storing id) =>
    some { s with
      streamConns := s.streamConns.set id h
      handlers := s.handlers.set h (.reading id) }
  | _ => none

/-- One read from Headscale; `none` is an error. -/
def read (s : Process) (h : Task) (chunk : Option Bytes) : Option Process :=
  match s.handlers h, chunk with
  | some (.reading id), none => some { s with handlers := s.handlers.set h (.closing id) }
  | some (.reading id), some chunk =>
    if (s.links h).closed ∨ 32 * 1024 < chunk.length then none
    else some { s with
      handlers := s.handlers.set h (.sending id chunk)
      links := Function.update s.links h { s.links h with read := (s.links h).read ++ chunk } }
  | _, _ => none

/-- `sendWsData` and `sendWsClose`, which do not report an error. -/
def send (s : Process) (h : Task) (w : WriteResult) : Option Process :=
  match s.handlers h with
  | some (.sending id payload) =>
    let d := { id, data := encodeBase64 payload, isBinary := true }
    some ({ s with handlers := s.handlers.set h (.reading id) }.write h.1 (.wsData d) w)
  | some (.closing id) =>
    let c := { id, code := 1000, reason := str "closed" }
    some ({ s with handlers := s.handlers.set h (.deleting id) }.write h.1 (.wsClose c) w)
  | _ => none

def delete (s : Process) (h : Task) : Option Process :=
  match s.handlers h with
  | some (.deleting id) =>
    some { s with
      streamConns := s.streamConns.erase id
      handlers := s.handlers.set h .leaving }
  | _ => none

def close (s : Process) (h : Task) : Option Process :=
  match s.handlers h with
  | some .leaving =>
    some { s with
      handlers := s.handlers.set h .ended
      links := Function.update s.links h { s.links h with closed := true } }
  | _ => none

def step (s : Process) (a : ProcessAction) : Option Process :=
  if s.crashed.isSome then none
  else
    match a with
    | .receive t m => s.receive t m
    | .finish t written => s.finish t written
    | .respond h headscale => s.respond cfg h headscale
    | .reply h w => s.reply h w
    | .dial h ok => s.dial cfg h ok
    | .request h ok => s.request cfg h ok
    | .store h => s.store h
    | .read h chunk => s.read h chunk
    | .send h w => s.send h w
    | .delete h => s.delete h
    | .close h => s.close h
    | .ping t w => some (s.write t .ping w)

/-- The stream whose raw request a step builds. -/
def building (s : Process) : ProcessAction → Option WsOpen
  | .request h _ =>
    match s.handlers h with
    | some (.dialled o _) => if (openBody o).isSome then some o else none
    | _ => none
  | _ => none

/-- A stream whose raw request is about to be built has a URL that parses. -/
def Parses (s : Process) (a : ProcessAction) : Prop :=
  (s.building a).all fun o => (cfg.parse o.url).isSome

instance decidableParses (s : Process) (a : ProcessAction) : Decidable (s.Parses cfg a) :=
  inferInstanceAs (Decidable (_ = true))

variable {cfg} {s s' : Process} {a : ProcessAction}

@[simp] theorem write_crashed (t : ℕ) (m : TunnelMessage) (w : WriteResult) :
    (s.write t m w).crashed = s.crashed := by
  unfold write
  split_ifs
  · rfl
  · cases w <;> rfl

theorem receive_crashed {t : ℕ} {m : TunnelMessage} (h : s.receive t m = some s') :
    s'.crashed = s.crashed := by
  unfold receive at h
  dsimp only at h
  split_ifs at h
  split at h
  · cases h
    rfl
  · cases h
    rfl
  · split at h <;> cases h <;> rfl
  · split at h <;> cases h <;> rfl
  · cases h
    rfl

theorem request_crashed {h : Task} {ok : Bool} (hc : s.crashed = none)
    (hs : s.request cfg h ok = some s') : s'.crashed = none ↔ s.Parses cfg (.request h ok) := by
  unfold request at hs
  rw [Parses, building]
  split at hs
  · rename_i o addr hh
    cases hb : openBody o with
    | none =>
      rw [hb] at hs
      cases hs
      simp [hc]
    | some body =>
      rw [hb] at hs
      dsimp only at hs
      cases hr : Go.buildRawRequest cfg o.method o.url o.headers body addr with
      | error p =>
        rw [hr] at hs
        cases hs
        obtain ⟨hu, -⟩ := (Go.buildRawRequest_eq_error cfg).mp hr
        simp [hu]
      | ok raw =>
        have hu : (cfg.parse o.url).isSome := by
          rw [Option.isSome_iff_ne_none]
          intro hn
          rw [(Go.buildRawRequest_eq_error cfg).mpr ⟨hn, rfl⟩] at hr
          cases hr
        rw [hr] at hs
        dsimp only at hs
        split_ifs at hs
        · cases hs
          simp [hc, hu]
        · cases hs
          simp [hc, hu]
  · cases hs

/-- The only panic is the one of `buildRawRequest`. -/
theorem step_crashed (hc : s.crashed = none) (hs : s.step cfg a = some s') :
    s'.crashed = none ↔ s.Parses cfg a := by
  unfold step at hs
  rw [hc] at hs
  simp only [Option.isSome_none, Bool.false_eq_true, if_false] at hs
  cases a with
  | request h ok => exact request_crashed hc hs
  | receive t m => simp [Parses, building, receive_crashed hs, hc]
  | finish t written =>
    simp only [finish] at hs
    split at hs <;> cases hs <;> simp [Parses, building, hc]
  | respond h headscale =>
    simp only [respond, Go.handleRequest_eq] at hs
    split at hs <;> cases hs
    simp [Parses, building, hc]
  | reply h w =>
    simp only [reply] at hs
    split at hs <;> cases hs
    simp [Parses, building, hc]
  | dial h ok =>
    simp only [dial] at hs
    split at hs
    · split at hs <;> cases hs <;> simp [Parses, building, hc]
    · cases hs
  | store h =>
    simp only [store] at hs
    split at hs <;> cases hs
    simp [Parses, building, hc]
  | read h chunk =>
    simp only [read] at hs
    split at hs
    · cases hs
      simp [Parses, building, hc]
    · split_ifs at hs
      cases hs
      simp [Parses, building, hc]
    · cases hs
  | send h w =>
    simp only [send] at hs
    split at hs <;> cases hs <;> simp [Parses, building, hc]
  | delete h =>
    simp only [delete] at hs
    split at hs <;> cases hs
    simp [Parses, building, hc]
  | close h =>
    simp only [close] at hs
    split at hs <;> cases hs
    simp [Parses, building, hc]
  | ping t w =>
    cases hs
    simp [Parses, building, hc]

end Process

/-- The sidecar under any sequence of messages and any interleaving of its goroutines. -/
def sidecar (cfg : Settings) : Machine Process ProcessAction where
  init := (· = Process.initial)
  step := Process.step cfg

/-- The sidecar survives a run exactly if every stream that gets as far as its raw request has a URL
that parses. A request is always answered. -/
theorem sidecar_survives_iff (cfg : Settings) {as : List ProcessAction} {s : Process}
    (hr : (sidecar cfg).exec .initial as = some s) :
    ((sidecar cfg).Along (fun s => s.crashed = none) .initial as ↔
      (sidecar cfg).Meets (fun s a => s.Parses cfg a) .initial as) ∧
    ∀ headscale req, Go.handleRequest cfg headscale req =
      .ok (handleRequest cfg.config headscale req) := by
  constructor
  · exact Machine.along_iff_meets (I := fun s => s.crashed = none) (fun s h => h)
      (fun s a s' hc hg hs => (Process.step_crashed hc hs).mpr hg)
      (fun s a s' hc hg hs h => hg ((Process.step_crashed hc hs).mp h)) rfl hr
  · intro headscale req
    exact Go.handleRequest_eq cfg headscale req

/-- A parser that rejects a lone percent sign. -/
def percentSettings : Settings where
  headscaleURL := str "http://headscale:8080"
  parse u :=
    if u = str "http://headscale:8080" then
      some ⟨str "http", str "headscale:8080", [], [], str "/"⟩
    else if u = str "%" then none
    else some ⟨[], [], u, [], u⟩

/-- A stream opened under a URL, up to its entry in the map. -/
def openRun (url : Bytes) : List ProcessAction :=
  [.receive 0 (.wsOpen ⟨str "s", str "GET", url, [], none, false⟩), .dial (0, 0) true,
    .request (0, 0) true]

theorem sidecar_survives_openRun :
    (sidecar percentSettings).Along (fun s => s.crashed = none) .initial (openRun (str "/ts2021")) := by
  have hr : ∃ s, (sidecar percentSettings).exec .initial (openRun (str "/ts2021")) = some s :=
    ⟨_, rfl⟩
  obtain ⟨s, hr⟩ := hr
  exact (sidecar_survives_iff percentSettings hr).1.mpr (by decide +kernel)

/-- One message kills the sidecar. -/
theorem percent_crashes :
    ((sidecar percentSettings).exec .initial (openRun (str "%"))).map Process.crashed =
      some (some .nilDereference) := by
  decide +kernel

end HeadFwd.Sidecar
