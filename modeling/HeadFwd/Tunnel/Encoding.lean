import HeadFwd.Document.Marshal
import HeadFwd.Tunnel.Streams

/-! # Frames of the tunnel

A message travels as one JSON text: an object with its type and its data, where the
data is a document of its own. What an end decodes from the text of a message is
that message with its invalid UTF-8 replaced, and a decoded message loses nothing when
it is encoded again.
-/

namespace HeadFwd.Tunnel

open Text Document Alphabet

/-! ## Fields -/

def frameFields : List (Member (Bytes × Option (Value Bytes))) :=
  [.of "type" decodeString Prod.fst fun m s => (s, m.2),
    .of "data" decodeRaw Prod.snd fun m d => (m.1, d)]

/-- The fields of a request, which are those of an opening too. -/
def requestFields : List (Member TunnelRequest) :=
  [.of "id" decodeString TunnelRequest.id fun r s => { r with id := s },
    .of "method" decodeString TunnelRequest.method fun r s => { r with method := s },
    .of "url" decodeString TunnelRequest.url fun r s => { r with url := s },
    .of "headers" decodeMap TunnelRequest.headers fun r h => { r with headers := h },
    .of "body" decodePointer TunnelRequest.body fun r b => { r with body := b },
    .of "isBinary" decodeBool TunnelRequest.isBinary fun r b => { r with isBinary := b }]

def responseFields : List (Member TunnelResponse) :=
  [.of "id" decodeString TunnelResponse.id fun r s => { r with id := s },
    .of "status" decodeInt TunnelResponse.status fun r n => { r with status := n },
    .of "headers" decodeMap TunnelResponse.headers fun r h => { r with headers := h },
    .of "body" decodePointer TunnelResponse.body fun r b => { r with body := b },
    .of "isBinary" decodeBool TunnelResponse.isBinary fun r b => { r with isBinary := b }]

def wsDataFields : List (Member WsData) :=
  [.of "id" decodeString WsData.id fun d s => { d with id := s },
    .of "data" decodeString WsData.data fun d s => { d with data := s },
    .of "isBinary" decodeBool WsData.isBinary fun d b => { d with isBinary := b }]

def wsCloseFields : List (Member WsClose) :=
  [.of "id" decodeString WsClose.id fun c s => { c with id := s },
    .of "code" decodeInt WsClose.code fun c n => { c with code := n },
    .of "reason" decodeString WsClose.reason fun c s => { c with reason := s }]

/-! ## Decoding -/

/-- The data of a message of one type. Data that is absent does not decode. -/
def decodeData {β : Type} (fields : List (Member β)) (zero : β) (of : β → TunnelMessage)
    (data : Option (Value Bytes)) : TunnelMessage :=
  match data.bind (decodeStruct fields zero) with
  | some b => of b
  | none => .other

def decodeMessage (type : Bytes) (data : Option (Value Bytes)) : TunnelMessage :=
  if type = str "request" then decodeData requestFields ⟨[], [], [], [], none, false⟩ .request data
  else if type = str "response" then
    decodeData responseFields ⟨[], 0, [], none, false⟩ .response data
  else if type = str "ws_open" then
    decodeData requestFields ⟨[], [], [], [], none, false⟩ .wsOpen data
  else if type = str "ws_data" then decodeData wsDataFields ⟨[], [], false⟩ .wsData data
  else if type = str "ws_close" then decodeData wsCloseFields ⟨[], 0, []⟩ .wsClose data
  else if type = str "ping" then .ping
  else if type = str "pong" then .pong
  else .other

/-- `ReadJSON`, and the decoding of the data by the type. Without a value the connection ends. -/
def decodeFrame (s : Bytes) : Option TunnelMessage := do
  let v ← readFirst s
  let m ← decodeStruct frameFields ([], none) v
  return decodeMessage m.1 m.2

/-! ## Encoding -/

section Documents

variable {σ τ : Type} (name : String → σ)

/-- Headers as members of an object. -/
def headersDoc (h : List (σ × σ)) : Value σ := .object (h.map fun p => (p.1, .string p.2))

/-- A request, its body and its flag if they are written. -/
def requestDoc (id method url : σ) (headers : List (σ × σ)) (body : Option σ)
    (flag : Option Bool) : Value σ :=
  .object ([(name "id", .string id), (name "method", .string method), (name "url", .string url),
    (name "headers", headersDoc headers)] ++ (body.toList.map fun b => (name "body", .string b)) ++
      flag.toList.map fun b => (name "isBinary", .bool b))

def responseDoc (id : σ) (status : ℤ) (headers : List (σ × σ)) (body : Option σ)
    (flag : Option Bool) : Value σ :=
  .object ([(name "id", .string id), (name "status", .number (formatInt status)),
    (name "headers", headersDoc headers)] ++ (body.toList.map fun b => (name "body", .string b)) ++
      flag.toList.map fun b => (name "isBinary", .bool b))

def wsDataDoc (id data : σ) (isBinary : Bool) : Value σ :=
  .object [(name "id", .string id), (name "data", .string data), (name "isBinary", .bool isBinary)]

def wsCloseDoc (id : σ) (code : Option ℤ) (reason : Option σ) : Value σ :=
  .object ((name "id", .string id) ::
    ((code.toList.map fun n => (name "code", .number (formatInt n))) ++
      reason.toList.map fun s => (name "reason", .string s)))

/-- A message with its type and, if it is written, its data. -/
def frameDoc (type : σ) (data : Option (Value σ)) : Value σ :=
  .object ((name "type", .string type) :: data.toList.map fun d => (name "data", d))

end Documents

/-- What `omitempty` leaves of a flag. -/
def omitFalse (b : Bool) : Option Bool := if b then some true else none

def requestValue (r : TunnelRequest) : Value Bytes :=
  requestDoc str r.id r.method r.url (sortKeys r.headers) r.body (omitFalse r.isBinary)

def responseValue (r : TunnelResponse) : Value Bytes :=
  responseDoc str r.id r.status (sortKeys r.headers) r.body (omitFalse r.isBinary)

def wsDataValue (d : WsData) : Value Bytes := wsDataDoc str d.id d.data d.isBinary

def wsCloseValue (c : WsClose) : Value Bytes :=
  wsCloseDoc str c.id (if c.code = 0 then none else some c.code)
    (if c.reason = [] then none else some c.reason)

/-- The type and the data of a message. A sidecar pings without data; a relay answers with an empty
object. -/
def TunnelMessage.frame : TunnelMessage → Option (Bytes × Value Bytes)
  | .request r => some (str "request", requestValue r)
  | .response r => some (str "response", responseValue r)
  | .wsOpen o => some (str "ws_open", requestValue o)
  | .wsData d => some (str "ws_data", wsDataValue d)
  | .wsClose c => some (str "ws_close", wsCloseValue c)
  | .ping => some (str "ping", .null)
  | .pong => some (str "pong", .object [])
  | .other => none

/-- `WriteJSON`, which ends the text with a newline. -/
def encodeFrame (m : TunnelMessage) : Option Bytes :=
  m.frame.map fun (type, data) => marshal (frameDoc str type (some data)) ++ [0x0A]

/-! ## Documents under a conversion -/

section Map

variable {σ τ : Type} {name : String → σ} (f : σ → τ)

theorem map_headersDoc (h : List (σ × σ)) :
    (headersDoc h).map f = headersDoc (h.map fun p => (f p.1, f p.2)) := by
  rw [headersDoc, Value.map, Value.mapMembers_eq, headersDoc, List.map_map, List.map_map]
  congr 1

theorem map_requestDoc (id method url : σ) (headers : List (σ × σ)) (body : Option σ)
    (flag : Option Bool) : (requestDoc name id method url headers body flag).map f =
      requestDoc (fun s => f (name s)) (f id) (f method) (f url)
        (headers.map fun p => (f p.1, f p.2)) (body.map f) flag := by
  rw [requestDoc, Value.map, Value.mapMembers_eq, requestDoc, ← map_headersDoc]
  cases body <;> cases flag <;> rfl

theorem map_responseDoc (id : σ) (status : ℤ) (headers : List (σ × σ)) (body : Option σ)
    (flag : Option Bool) : (responseDoc name id status headers body flag).map f =
      responseDoc (fun s => f (name s)) (f id) status (headers.map fun p => (f p.1, f p.2))
        (body.map f) flag := by
  rw [responseDoc, Value.map, Value.mapMembers_eq, responseDoc, ← map_headersDoc]
  cases body <;> cases flag <;> rfl

theorem map_wsDataDoc (id data : σ) (isBinary : Bool) : (wsDataDoc name id data isBinary).map f =
    wsDataDoc (fun s => f (name s)) (f id) (f data) isBinary := by
  rw [wsDataDoc, Value.map, Value.mapMembers_eq]
  rfl

theorem map_wsCloseDoc (id : σ) (code : Option ℤ) (reason : Option σ) :
    (wsCloseDoc name id code reason).map f =
      wsCloseDoc (fun s => f (name s)) (f id) code (reason.map f) := by
  rw [wsCloseDoc, Value.map, Value.mapMembers_eq, wsCloseDoc]
  cases code <;> cases reason <;> rfl

theorem map_frameDoc (type : σ) (data : Option (Value σ)) : (frameDoc name type data).map f =
    frameDoc (fun s => f (name s)) (f type) (data.map (Value.map f)) := by
  rw [frameDoc, Value.map, Value.mapMembers_eq, frameDoc]
  cases data <;> rfl

end Map

/-- The names of all members. -/
def memberNames : List String :=
  ["type", "data", "id", "method", "url", "headers", "body", "isBinary", "status", "code", "reason"]

section Names

variable {σ : Type} {name name' : String → σ} (h : ∀ n ∈ memberNames, name n = name' n)

include h

theorem requestDoc_congr : requestDoc name = requestDoc name' := by
  funext id method url headers body flag
  rw [requestDoc, requestDoc, h "id" (by decide), h "method" (by decide), h "url" (by decide),
    h "headers" (by decide), h "body" (by decide), h "isBinary" (by decide)]

theorem responseDoc_congr : responseDoc name = responseDoc name' := by
  funext id status headers body flag
  rw [responseDoc, responseDoc, h "id" (by decide), h "status" (by decide),
    h "headers" (by decide), h "body" (by decide), h "isBinary" (by decide)]

theorem wsDataDoc_congr : wsDataDoc name = wsDataDoc name' := by
  funext id data isBinary
  rw [wsDataDoc, wsDataDoc, h "id" (by decide), h "data" (by decide), h "isBinary" (by decide)]

theorem wsCloseDoc_congr : wsCloseDoc name = wsCloseDoc name' := by
  funext id code reason
  rw [wsCloseDoc, wsCloseDoc, h "id" (by decide), h "code" (by decide), h "reason" (by decide)]

theorem frameDoc_congr : frameDoc name = frameDoc name' := by
  funext type data
  rw [frameDoc, frameDoc, h "type" (by decide), h "data" (by decide)]

end Names

theorem sanitize_memberNames : ∀ n ∈ memberNames, sanitize (str n) = str n := by decide +kernel

/-! ## Documents are decoded -/

theorem nodup_foldName : ∀ names ∈ [["type", "data"],
    ["id", "method", "url", "headers", "body", "isBinary"],
    ["id", "status", "headers", "body", "isBinary"], ["id", "data", "isBinary"],
    ["id", "code", "reason"]], (names.map fun n => foldName (str n)).Nodup := by
  decide +kernel

theorem nodup_frameFields : (frameFields.map fun f => foldName f.name).Nodup :=
  nodup_foldName ["type", "data"] (by decide)

theorem nodup_requestFields : (requestFields.map fun f => foldName f.name).Nodup :=
  nodup_foldName ["id", "method", "url", "headers", "body", "isBinary"] (by decide)

theorem nodup_responseFields : (responseFields.map fun f => foldName f.name).Nodup :=
  nodup_foldName ["id", "status", "headers", "body", "isBinary"] (by decide)

theorem nodup_wsDataFields : (wsDataFields.map fun f => foldName f.name).Nodup :=
  nodup_foldName ["id", "data", "isBinary"] (by decide)

theorem nodup_wsCloseFields : (wsCloseFields.map fun f => foldName f.name).Nodup :=
  nodup_foldName ["id", "code", "reason"] (by decide)

theorem decode_requestDoc {headers : Headers} (hn : (headers.map Prod.fst).Nodup)
    (id method url : Bytes) (body : Option Bytes) (flag : Option Bool) :
    decodeStruct requestFields ⟨[], [], [], [], none, false⟩
      (requestDoc str id method url headers body flag) =
        some ⟨id, method, url, headers, body, flag.getD false⟩ := by
  have hid : ∀ r v, decodeMember requestFields r (str "id", v) =
      (decodeString v r.id).map fun s => { r with id := s } :=
    decodeMember_of nodup_requestFields (i := 0) rfl
  have hmethod : ∀ r v, decodeMember requestFields r (str "method", v) =
      (decodeString v r.method).map fun s => { r with method := s } :=
    decodeMember_of nodup_requestFields (i := 1) rfl
  have hurl : ∀ r v, decodeMember requestFields r (str "url", v) =
      (decodeString v r.url).map fun s => { r with url := s } :=
    decodeMember_of nodup_requestFields (i := 2) rfl
  have hheaders : ∀ r v, decodeMember requestFields r (str "headers", v) =
      (decodeMap v r.headers).map fun h => { r with headers := h } :=
    decodeMember_of nodup_requestFields (i := 3) rfl
  have hbody : ∀ r v, decodeMember requestFields r (str "body", v) =
      (decodePointer v r.body).map fun b => { r with body := b } :=
    decodeMember_of nodup_requestFields (i := 4) rfl
  have hflag : ∀ r v, decodeMember requestFields r (str "isBinary", v) =
      (decodeBool v r.isBinary).map fun b => { r with isBinary := b } :=
    decodeMember_of nodup_requestFields (i := 5) rfl
  have hmap : decodeMap (headersDoc headers) [] = some headers := decodeMap_object hn
  rw [requestDoc, decodeStruct, List.foldlM_append, List.foldlM_append]
  simp only [List.foldlM_cons, List.foldlM_nil, hid, hmethod, hurl, hheaders, decodeString, hmap,
    Option.map_some, Option.bind_eq_bind, Option.bind_some]
  cases body <;> cases flag <;>
    simp only [Option.toList_none, Option.toList_some, List.map_nil, List.map_cons,
      List.foldlM_cons, List.foldlM_nil, hbody, hflag, decodePointer, decodeBool, Option.map_some,
      Option.bind_eq_bind, Option.bind_some] <;> rfl

theorem decode_responseDoc {headers : Headers} (hn : (headers.map Prod.fst).Nodup) (id : Bytes)
    {status : ℤ} (hf : Document.Fits status) (body : Option Bytes) (flag : Option Bool) :
    decodeStruct responseFields ⟨[], 0, [], none, false⟩
      (responseDoc str id status headers body flag) =
        some ⟨id, status, headers, body, flag.getD false⟩ := by
  have hid : ∀ r v, decodeMember responseFields r (str "id", v) =
      (decodeString v r.id).map fun s => { r with id := s } :=
    decodeMember_of nodup_responseFields (i := 0) rfl
  have hstatus : ∀ r v, decodeMember responseFields r (str "status", v) =
      (decodeInt v r.status).map fun n => { r with status := n } :=
    decodeMember_of nodup_responseFields (i := 1) rfl
  have hheaders : ∀ r v, decodeMember responseFields r (str "headers", v) =
      (decodeMap v r.headers).map fun h => { r with headers := h } :=
    decodeMember_of nodup_responseFields (i := 2) rfl
  have hbody : ∀ r v, decodeMember responseFields r (str "body", v) =
      (decodePointer v r.body).map fun b => { r with body := b } :=
    decodeMember_of nodup_responseFields (i := 3) rfl
  have hflag : ∀ r v, decodeMember responseFields r (str "isBinary", v) =
      (decodeBool v r.isBinary).map fun b => { r with isBinary := b } :=
    decodeMember_of nodup_responseFields (i := 4) rfl
  have hmap : decodeMap (headersDoc headers) [] = some headers := decodeMap_object hn
  rw [responseDoc, decodeStruct, List.foldlM_append, List.foldlM_append]
  simp only [List.foldlM_cons, List.foldlM_nil, hid, hstatus, hheaders, decodeString, decodeInt,
    parseInt_formatInt hf, hmap, Option.map_some, Option.bind_eq_bind, Option.bind_some]
  cases body <;> cases flag <;>
    simp only [Option.toList_none, Option.toList_some, List.map_nil, List.map_cons,
      List.foldlM_cons, List.foldlM_nil, hbody, hflag, decodePointer, decodeBool, Option.map_some,
      Option.bind_eq_bind, Option.bind_some] <;> rfl

theorem decode_wsDataDoc (id data : Bytes) (isBinary : Bool) :
    decodeStruct wsDataFields ⟨[], [], false⟩ (wsDataDoc str id data isBinary) =
      some ⟨id, data, isBinary⟩ := by
  have hid : ∀ d v, decodeMember wsDataFields d (str "id", v) =
      (decodeString v d.id).map fun s => { d with id := s } :=
    decodeMember_of nodup_wsDataFields (i := 0) rfl
  have hdata : ∀ d v, decodeMember wsDataFields d (str "data", v) =
      (decodeString v d.data).map fun s => { d with data := s } :=
    decodeMember_of nodup_wsDataFields (i := 1) rfl
  have hflag : ∀ d v, decodeMember wsDataFields d (str "isBinary", v) =
      (decodeBool v d.isBinary).map fun b => { d with isBinary := b } :=
    decodeMember_of nodup_wsDataFields (i := 2) rfl
  rw [wsDataDoc, decodeStruct]
  simp only [List.foldlM_cons, List.foldlM_nil, hid, hdata, hflag, decodeString, decodeBool,
    Option.map_some, Option.bind_eq_bind, Option.bind_some]
  rfl

theorem decode_wsCloseDoc (id : Bytes) {code : Option ℤ} (hf : ∀ n ∈ code, Document.Fits n)
    (reason : Option Bytes) :
    decodeStruct wsCloseFields ⟨[], 0, []⟩ (wsCloseDoc str id code reason) =
      some ⟨id, code.getD 0, reason.getD []⟩ := by
  have hid : ∀ c v, decodeMember wsCloseFields c (str "id", v) =
      (decodeString v c.id).map fun s => { c with id := s } :=
    decodeMember_of nodup_wsCloseFields (i := 0) rfl
  have hcode : ∀ c v, decodeMember wsCloseFields c (str "code", v) =
      (decodeInt v c.code).map fun n => { c with code := n } :=
    decodeMember_of nodup_wsCloseFields (i := 1) rfl
  have hreason : ∀ c v, decodeMember wsCloseFields c (str "reason", v) =
      (decodeString v c.reason).map fun s => { c with reason := s } :=
    decodeMember_of nodup_wsCloseFields (i := 2) rfl
  rw [wsCloseDoc, decodeStruct, List.foldlM_cons, hid]
  simp only [decodeString, Option.map_some, Option.bind_eq_bind, Option.bind_some,
    List.foldlM_append]
  cases code with
  | none =>
    cases reason <;>
      simp only [Option.toList_none, Option.toList_some, List.map_nil, List.map_cons,
        List.foldlM_cons, List.foldlM_nil, hreason, decodeString, Option.map_some,
        Option.bind_eq_bind, Option.bind_some] <;> rfl
  | some n =>
    have hn := parseInt_formatInt (hf n rfl)
    cases reason <;>
      simp only [Option.toList_none, Option.toList_some, List.map_nil, List.map_cons,
        List.foldlM_cons, List.foldlM_nil, hcode, hreason, decodeString, decodeInt, hn,
        Option.map_some, Option.bind_eq_bind, Option.bind_some] <;> rfl

/-- The type and the data come out of an object as they went in. -/
theorem decode_frameDoc (type : Bytes) (data : Option (Value Bytes)) :
    decodeStruct frameFields ([], none) (frameDoc str type data) = some (type, data) := by
  have htype : ∀ m v, decodeMember frameFields m (str "type", v) =
      (decodeString v m.1).map fun s => (s, m.2) :=
    decodeMember_of nodup_frameFields (i := 0) rfl
  have hdata : ∀ m v, decodeMember frameFields m (str "data", v) = some (m.1, some v) :=
    decodeMember_of nodup_frameFields (i := 1) rfl
  rw [frameDoc, decodeStruct, List.foldlM_cons, htype]
  cases data with
  | none => rfl
  | some d => exact hdata _ d

/-! ## Frames arrive -/

def TunnelMessage.headers : TunnelMessage → Headers
  | .request r => r.headers
  | .response r => r.headers
  | .wsOpen o => o.headers
  | _ => []

/-- A message with its headers in another order. -/
def TunnelMessage.withHeaders : TunnelMessage → Headers → TunnelMessage
  | .request r, h => .request { r with headers := h }
  | .response r, h => .response { r with headers := h }
  | .wsOpen o, h => .wsOpen { o with headers := h }
  | m, _ => m

/-- The numbers of a message are integers of 64 bits. -/
def TunnelMessage.Fits : TunnelMessage → Prop
  | .response r => Document.Fits r.status
  | .wsClose c => Document.Fits c.code
  | _ => True

/-- The header names of a message stay distinct. -/
def TunnelMessage.Distinct (m : TunnelMessage) : Prop := (m.headers.map fun p => sanitize p.1).Nodup

section Whole

variable {σ : Type} {name : String → σ}

theorem whole_string (s : σ) : Whole (.string s) := by
  rw [Whole]
  trivial

theorem whole_bool (b : Bool) : Whole (.bool b : Value σ) := by
  rw [Whole]
  trivial

theorem whole_formatInt (n : ℤ) : Whole (.number (formatInt n) : Value σ) := by
  rw [Whole]
  exact integral_formatInt n

theorem whole_headersDoc (h : List (σ × σ)) : Whole (headersDoc h) := by
  rw [headersDoc, Whole, wholeMembers_iff]
  intro p hp
  obtain ⟨q, -, rfl⟩ := List.mem_map.mp hp
  exact whole_string q.2

/-- The members behind the headers of a request or a response. -/
theorem whole_bodyMembers (body : Option σ) (flag : Option Bool) :
    ∀ p ∈ (body.toList.map fun b => (name "body", Value.string b)) ++
      flag.toList.map fun b => (name "isBinary", Value.bool b), Whole p.2 := by
  rw [List.forall_mem_append]
  constructor
  · intro p hp
    obtain ⟨b, -, rfl⟩ := List.mem_map.mp hp
    exact whole_string b
  · intro p hp
    obtain ⟨b, -, rfl⟩ := List.mem_map.mp hp
    exact whole_bool b

theorem whole_requestDoc (id method url : σ) (headers : List (σ × σ)) (body : Option σ)
    (flag : Option Bool) : Whole (requestDoc name id method url headers body flag) := by
  rw [requestDoc, Whole, wholeMembers_iff, List.append_assoc, List.forall_mem_append]
  refine ⟨?_, whole_bodyMembers body flag⟩
  simp only [List.forall_mem_cons]
  exact ⟨whole_string id, whole_string method, whole_string url, whole_headersDoc headers,
    fun p hp => by cases hp⟩

theorem whole_responseDoc (id : σ) (status : ℤ) (headers : List (σ × σ)) (body : Option σ)
    (flag : Option Bool) : Whole (responseDoc name id status headers body flag) := by
  rw [responseDoc, Whole, wholeMembers_iff, List.append_assoc, List.forall_mem_append]
  refine ⟨?_, whole_bodyMembers body flag⟩
  simp only [List.forall_mem_cons]
  exact ⟨whole_string id, whole_formatInt status, whole_headersDoc headers, fun p hp => by cases hp⟩

theorem whole_wsDataDoc (id data : σ) (isBinary : Bool) :
    Whole (wsDataDoc name id data isBinary) := by
  rw [wsDataDoc, Whole, wholeMembers_iff]
  simp only [List.forall_mem_cons]
  exact ⟨whole_string id, whole_string data, whole_bool isBinary, fun p hp => by cases hp⟩

theorem whole_wsCloseDoc (id : σ) (code : Option ℤ) (reason : Option σ) :
    Whole (wsCloseDoc name id code reason) := by
  rw [wsCloseDoc, Whole, wholeMembers_iff, List.forall_mem_cons, List.forall_mem_append]
  refine ⟨whole_string id, ?_, ?_⟩
  · intro p hp
    obtain ⟨n, -, rfl⟩ := List.mem_map.mp hp
    exact whole_formatInt n
  · intro p hp
    obtain ⟨s, -, rfl⟩ := List.mem_map.mp hp
    exact whole_string s

theorem whole_frameDoc (type : σ) {data : Option (Value σ)} (hd : ∀ d ∈ data, Whole d) :
    Whole (frameDoc name type data) := by
  rw [frameDoc, Whole, wholeMembers_iff, List.forall_mem_cons]
  refine ⟨whole_string type, ?_⟩
  intro p hp
  obtain ⟨d, hmem, rfl⟩ := List.mem_map.mp hp
  exact hd d (Option.mem_toList.mp hmem)

end Whole

theorem whole_frame {m : TunnelMessage} {type : Bytes} {data : Value Bytes}
    (h : m.frame = some (type, data)) : Whole data := by
  cases m with
  | request r =>
    cases h
    exact whole_requestDoc ..
  | response r =>
    cases h
    exact whole_responseDoc ..
  | wsOpen o =>
    cases h
    exact whole_requestDoc ..
  | wsData d =>
    cases h
    exact whole_wsDataDoc ..
  | wsClose c =>
    cases h
    exact whole_wsCloseDoc ..
  | ping =>
    cases h
    rw [Whole]
    trivial
  | pong =>
    cases h
    rw [Whole, WholeMembers]
    trivial
  | other => cases h

/-- What the other end makes of headers whose names stay distinct. -/
def Headers.arrived (h : Headers) : Headers := Headers.wire (sortKeys h)

theorem arrived_perm (h : Headers) : h.arrived.Perm h.wire :=
  List.Perm.map _ (List.perm_insertionSort _ h)

theorem nodup_arrived {h : Headers} (hn : (h.map fun p => sanitize p.1).Nodup) :
    (h.arrived.map Prod.fst).Nodup := by
  have hkeys : h.wire.map Prod.fst = h.map fun p => sanitize p.1 := by
    rw [Headers.wire, List.map_map]
    rfl
  rw [((arrived_perm h).map Prod.fst).nodup_iff, hkeys]
  exact hn

theorem getD_omitFalse (b : Bool) : (omitFalse b).getD false = b := by cases b <;> rfl

section Data

theorem decodeData_of {β : Type} {fields : List (Member β)} {zero b : β} {v : Value Bytes}
    (h : decodeStruct fields zero v = some b) (of : β → TunnelMessage) :
    decodeData fields zero of (some v) = of b := by
  rw [decodeData, Option.bind_some, h]

theorem decode_requestValue {r : TunnelRequest} (hn : (r.headers.map fun p => sanitize p.1).Nodup) :
    decodeStruct requestFields ⟨[], [], [], [], none, false⟩ ((requestValue r).map sanitize) =
      some { r.wire with headers := Headers.arrived r.headers } := by
  rw [requestValue, map_requestDoc, requestDoc_congr sanitize_memberNames]
  refine (decode_requestDoc (nodup_arrived hn) _ _ _ _ _).trans ?_
  rw [getD_omitFalse]
  rfl

theorem decode_responseValue {r : TunnelResponse}
    (hn : (r.headers.map fun p => sanitize p.1).Nodup) (hf : Document.Fits r.status) :
    decodeStruct responseFields ⟨[], 0, [], none, false⟩ ((responseValue r).map sanitize) =
      some { r.wire with headers := Headers.arrived r.headers } := by
  rw [responseValue, map_responseDoc, responseDoc_congr sanitize_memberNames]
  refine (decode_responseDoc (nodup_arrived hn) _ hf _ _).trans ?_
  rw [getD_omitFalse]
  rfl

theorem decode_wsDataValue (d : WsData) :
    decodeStruct wsDataFields ⟨[], [], false⟩ ((wsDataValue d).map sanitize) =
      some ⟨sanitize d.id, sanitize d.data, d.isBinary⟩ := by
  rw [wsDataValue, map_wsDataDoc, wsDataDoc_congr sanitize_memberNames]
  exact decode_wsDataDoc _ _ _

theorem decode_wsCloseValue {c : WsClose} (hf : Document.Fits c.code) :
    decodeStruct wsCloseFields ⟨[], 0, []⟩ ((wsCloseValue c).map sanitize) =
      some ⟨sanitize c.id, c.code, sanitize c.reason⟩ := by
  have hcode : (if c.code = 0 then none else some c.code).getD 0 = c.code := by
    split_ifs with h
    · exact h.symm
    · rfl
  have hreason : ((if c.reason = [] then none else some c.reason).map sanitize).getD [] =
      sanitize c.reason := by
    split_ifs with h
    · rw [h]
      rfl
    · rfl
  rw [wsCloseValue, map_wsCloseDoc, wsCloseDoc_congr sanitize_memberNames]
  refine (decode_wsCloseDoc _ ?_ _).trans ?_
  · intro n hn
    split_ifs at hn
    · cases hn
    · rw [← Option.some.inj hn]
      exact hf
  · rw [hcode, hreason]

end Data

theorem decodeMessage_frame {m : TunnelMessage} {type : Bytes} {data : Value Bytes}
    (h : m.frame = some (type, data)) (hf : m.Fits) (hn : m.Distinct) :
    decodeMessage (sanitize type) (some (data.map sanitize)) =
      m.wire.withHeaders (Headers.arrived m.headers) := by
  cases m with
  | request r =>
    cases h
    exact decodeData_of (decode_requestValue hn) .request
  | response r =>
    cases h
    exact decodeData_of (decode_responseValue hn hf) .response
  | wsOpen o =>
    cases h
    exact decodeData_of (decode_requestValue hn) .wsOpen
  | wsData d =>
    cases h
    exact decodeData_of (decode_wsDataValue d) .wsData
  | wsClose c =>
    cases h
    exact decodeData_of (decode_wsCloseValue hf) .wsClose
  | ping =>
    cases h
    rfl
  | pong =>
    cases h
    rfl
  | other => cases h

/-- A text that is the document of a message decodes to that message, whatever encoder wrote it. -/
theorem decodeFrame_eq {s : Bytes} {type : Bytes} {data : Option (Value Bytes)}
    (h : readFirst s = some (frameDoc str type data)) :
    decodeFrame s = some (decodeMessage type data) := by
  rw [decodeFrame, h, Option.bind_eq_bind, Option.bind_some, decode_frameDoc]
  rfl

/-- The text of a message decodes to that message, its headers in some order. -/
theorem decodeFrame_encodeFrame {m : TunnelMessage} (hm : m ≠ .other) (hf : m.Fits)
    (hn : m.Distinct) : ∃ s order, encodeFrame m = some s ∧ order.Perm (Headers.wire m.headers) ∧
      decodeFrame s = some (m.wire.withHeaders order) := by
  obtain ⟨⟨type, data⟩, hframe⟩ : ∃ f, m.frame = some f := by
    cases m with
    | other => exact absurd rfl hm
    | _ => exact ⟨_, rfl⟩
  have hwhole : Whole (frameDoc str type (some data)) :=
    whole_frameDoc type fun d hd => Option.some.inj hd ▸ whole_frame hframe
  have hends : octets.Ends [0x0A] := by
    rintro a b ⟨rfl⟩ hb
    cases hb
    decide
  have hread : readFirst (marshal (frameDoc str type (some data)) ++ [0x0A]) =
      some (frameDoc str (sanitize type) (some (data.map sanitize))) := by
    have hmap : (frameDoc str type (some data)).map sanitize =
        frameDoc str (sanitize type) (some (data.map sanitize)) := by
      rw [map_frameDoc, frameDoc_congr sanitize_memberNames]
      rfl
    rw [← hmap]
    exact readFirst_marshal hwhole hends
  refine ⟨_, Headers.arrived m.headers, by rw [encodeFrame, hframe]; rfl, arrived_perm _, ?_⟩
  rw [decodeFrame_eq hread, decodeMessage_frame hframe hf hn]

/-- A response with bytes that are not UTF-8, and two headers. -/
def latinResponse : TunnelMessage :=
  .response ⟨str "1", 200, [(str "X", [0x63, 0xE9]), (str "Age", str "<0>")], some [0xE9], true⟩

theorem decodeFrame_latinResponse : ∃ s order, encodeFrame latinResponse = some s ∧
    order.Perm (Headers.wire latinResponse.headers) ∧
      decodeFrame s = some (latinResponse.wire.withHeaders order) := by
  apply decodeFrame_encodeFrame
  · decide
  · constructor <;> decide
  · unfold TunnelMessage.Distinct
    decide +kernel

/-! ## Decoded messages -/

/-- A message that the other end could have sent just so. -/
structure TunnelMessage.Sound (m : TunnelMessage) : Prop where
  wire : m.wire = m
  fits : m.Fits
  headers : ValidMap m.headers

theorem wire_of_validMap {h : Headers} (hv : ValidMap h) : h.wire = h := by
  rw [Headers.wire]
  conv_rhs => rw [← List.map_id h]
  apply List.map_congr_left
  intro p hp
  exact Prod.ext (hv.valid p hp).1 (hv.valid p hp).2

theorem map_sanitize {body : Option Bytes} (h : ∀ b ∈ body, ValidUtf8 b) :
    body.map sanitize = body := by
  cases body with
  | none => rfl
  | some b => exact congrArg some (h b rfl)

/-- What every field of a struct keeps makes a message sound, and data that does not decode is no
message. -/
theorem decodeData_sound {β : Type} {fields : List (Member β)} {zero : β} {of : β → TunnelMessage}
    {P : β → Prop} (hz : P zero)
    (hf : ∀ f ∈ fields, ∀ v b b', v.All ValidUtf8 → P b → f.decode v b = some b' → P b')
    (hof : ∀ b, P b → (of b).Sound) {data : Option (Value Bytes)}
    (hd : ∀ v ∈ data, v.All ValidUtf8) : (decodeData fields zero of data).Sound := by
  rw [decodeData]
  split
  · rename_i b hb
    obtain ⟨v, hmem, hv⟩ := Option.bind_eq_some_iff.mp hb
    exact hof b (decodeStruct_invariant hf hz (hd v hmem) hv)
  · exact ⟨rfl, trivial, validMap_nil⟩

structure TunnelRequest.Valid (r : TunnelRequest) : Prop where
  id : ValidUtf8 r.id
  method : ValidUtf8 r.method
  url : ValidUtf8 r.url
  headers : ValidMap r.headers
  body : ∀ b ∈ r.body, ValidUtf8 b

structure TunnelResponse.Valid (r : TunnelResponse) : Prop where
  id : ValidUtf8 r.id
  status : Document.Fits r.status
  headers : ValidMap r.headers
  body : ∀ b ∈ r.body, ValidUtf8 b

theorem valid_requestFields : ∀ f ∈ requestFields, ∀ v b b', v.All ValidUtf8 → b.Valid →
    f.decode v b = some b' → b'.Valid := by
  simp only [requestFields, List.forall_mem_cons]
  refine ⟨?_, ?_, ?_, ?_, ?_, ?_, fun f hf => by cases hf⟩ <;> intro v b b' hv hb h <;>
    obtain ⟨c, hc, rfl⟩ := Member.of_decode h
  · exact { hb with id := validUtf8_decodeString hv hb.id hc }
  · exact { hb with method := validUtf8_decodeString hv hb.method hc }
  · exact { hb with url := validUtf8_decodeString hv hb.url hc }
  · exact { hb with headers := validMap_decodeMap hv hb.headers hc }
  · exact { hb with body := validUtf8_decodePointer hv hc }
  · exact { hb with }

theorem valid_responseFields : ∀ f ∈ responseFields, ∀ v b b', v.All ValidUtf8 → b.Valid →
    f.decode v b = some b' → b'.Valid := by
  simp only [responseFields, List.forall_mem_cons]
  refine ⟨?_, ?_, ?_, ?_, ?_, fun f hf => by cases hf⟩ <;> intro v b b' hv hb h <;>
    obtain ⟨c, hc, rfl⟩ := Member.of_decode h
  · exact { hb with id := validUtf8_decodeString hv hb.id hc }
  · exact { hb with status := fits_decodeInt hb.status hc }
  · exact { hb with headers := validMap_decodeMap hv hb.headers hc }
  · exact { hb with body := validUtf8_decodePointer hv hc }
  · exact { hb with }

theorem valid_wsDataFields : ∀ f ∈ wsDataFields, ∀ v b b', v.All ValidUtf8 →
    ValidUtf8 b.id ∧ ValidUtf8 b.data → f.decode v b = some b' →
      ValidUtf8 b'.id ∧ ValidUtf8 b'.data := by
  simp only [wsDataFields, List.forall_mem_cons]
  refine ⟨?_, ?_, ?_, fun f hf => by cases hf⟩ <;> intro v b b' hv hb h <;>
    obtain ⟨c, hc, rfl⟩ := Member.of_decode h
  · exact ⟨validUtf8_decodeString hv hb.1 hc, hb.2⟩
  · exact ⟨hb.1, validUtf8_decodeString hv hb.2 hc⟩
  · exact hb

theorem valid_wsCloseFields : ∀ f ∈ wsCloseFields, ∀ v b b', v.All ValidUtf8 →
    ValidUtf8 b.id ∧ Document.Fits b.code ∧ ValidUtf8 b.reason → f.decode v b = some b' →
      ValidUtf8 b'.id ∧ Document.Fits b'.code ∧ ValidUtf8 b'.reason := by
  simp only [wsCloseFields, List.forall_mem_cons]
  refine ⟨?_, ?_, ?_, fun f hf => by cases hf⟩ <;> intro v b b' hv hb h <;>
    obtain ⟨c, hc, rfl⟩ := Member.of_decode h
  · exact ⟨validUtf8_decodeString hv hb.1 hc, hb.2⟩
  · exact ⟨hb.1, fits_decodeInt hb.2.1 hc, hb.2.2⟩
  · exact ⟨hb.1, hb.2.1, validUtf8_decodeString hv hb.2.2 hc⟩

theorem TunnelRequest.Valid.wire {r : TunnelRequest} (h : r.Valid) : r.wire = r := by
  rw [TunnelRequest.wire, show sanitize r.id = r.id from h.id,
    show sanitize r.method = r.method from h.method, show sanitize r.url = r.url from h.url,
    wire_of_validMap h.headers, map_sanitize h.body]

theorem TunnelResponse.Valid.wire {r : TunnelResponse} (h : r.Valid) : r.wire = r := by
  rw [TunnelResponse.wire, show sanitize r.id = r.id from h.id, wire_of_validMap h.headers,
    map_sanitize h.body]

theorem decodeMessage_sound (type : Bytes) {data : Option (Value Bytes)}
    (hdata : ∀ v ∈ data, v.All ValidUtf8) : (decodeMessage type data).Sound := by
  have hzero : TunnelRequest.Valid ⟨[], [], [], [], none, false⟩ :=
    ⟨rfl, rfl, rfl, validMap_nil, fun b hb => by cases hb⟩
  have hfits : Document.Fits 0 := by
    constructor <;> decide
  unfold decodeMessage
  split_ifs
  · refine decodeData_sound hzero valid_requestFields ?_ hdata
    exact fun r hr => ⟨congrArg TunnelMessage.request hr.wire, trivial, hr.headers⟩
  · refine decodeData_sound ?_ valid_responseFields ?_ hdata
    · exact ⟨rfl, hfits, validMap_nil, fun b hb => by cases hb⟩
    · exact fun r hr => ⟨congrArg TunnelMessage.response hr.wire, hr.status, hr.headers⟩
  · refine decodeData_sound hzero valid_requestFields ?_ hdata
    exact fun r hr => ⟨congrArg TunnelMessage.wsOpen hr.wire, trivial, hr.headers⟩
  · refine decodeData_sound ⟨rfl, rfl⟩ valid_wsDataFields ?_ hdata
    intro d hd
    refine ⟨?_, trivial, validMap_nil⟩
    rw [TunnelMessage.wire, show sanitize d.id = d.id from hd.1,
      show sanitize d.data = d.data from hd.2]
  · refine decodeData_sound ⟨rfl, hfits, rfl⟩ valid_wsCloseFields ?_ hdata
    intro c hc
    refine ⟨?_, hc.2.1, validMap_nil⟩
    rw [TunnelMessage.wire, show sanitize c.id = c.id from hc.1,
      show sanitize c.reason = c.reason from hc.2.2]
  · exact ⟨rfl, trivial, validMap_nil⟩
  · exact ⟨rfl, trivial, validMap_nil⟩
  · exact ⟨rfl, trivial, validMap_nil⟩

theorem decodeFrame_sound {s : Bytes} {m : TunnelMessage} (h : decodeFrame s = some m) :
    m.Sound := by
  have hfields : ∀ f ∈ frameFields, ∀ v b b', v.All ValidUtf8 →
      (∀ d ∈ b.2, Value.All ValidUtf8 d) → f.decode v b = some b' →
        ∀ d ∈ b'.2, Value.All ValidUtf8 d := by
    simp only [frameFields, List.forall_mem_cons]
    refine ⟨?_, ?_, fun f hf => by cases hf⟩ <;> intro v b b' hv hb h <;>
      obtain ⟨c, hc, rfl⟩ := Member.of_decode h
    · exact hb
    · cases hc
      rintro d ⟨rfl⟩
      exact hv
  obtain ⟨v, hv, h⟩ := Option.bind_eq_some_iff.mp h
  obtain ⟨⟨type, data⟩, hd, h⟩ := Option.bind_eq_some_iff.mp h
  cases h
  exact decodeMessage_sound type (decodeStruct_invariant hfields (fun d hd => by cases hd)
    (all_readFirst hv) hd)

/-- Whatever text a message came from, it is sent on and decoded again without loss. -/
theorem decodeFrame_again {s : Bytes} {m : TunnelMessage} (h : decodeFrame s = some m)
    (hm : m ≠ .other) : ∃ s' order, encodeFrame m = some s' ∧ order.Perm m.headers ∧
      decodeFrame s' = some (m.withHeaders order) := by
  obtain ⟨hwire, hfits, hheaders⟩ := decodeFrame_sound h
  have hdistinct : m.Distinct := by
    have hkeys : m.headers.map (fun p => sanitize p.1) = m.headers.map Prod.fst :=
      List.map_congr_left fun p hp => (hheaders.valid p hp).1
    rw [TunnelMessage.Distinct, hkeys]
    exact hheaders.nodup
  obtain ⟨s', order, hs, ho, hd⟩ := decodeFrame_encodeFrame hm hfits hdistinct
  rw [wire_of_validMap hheaders] at ho
  rw [hwire] at hd
  exact ⟨s', order, hs, ho, hd⟩

/-- A text that another program may have written: escapes, another case, a member twice, and more
behind the object. -/
def looseText : Bytes :=
  str "\x7b\"TYPE\": \"ping\", \"type\": \"ws_data\", \"data\":\x7b\"id\":\"\\u00e9\", "
    ++ str "\"data\":\"aGk=\",\"x\":[null]\x7d\x7d 1"

theorem decodeFrame_looseText : decodeFrame looseText =
    some (.wsData ⟨[0xC3, 0xA9], str "aGk=", false⟩) := by decide +kernel

theorem decodeFrame_looseText_again : ∃ (s' : Bytes) (order : Headers),
    encodeFrame (.wsData ⟨[0xC3, 0xA9], str "aGk=", false⟩) = some s' ∧ order.Perm [] ∧
      decodeFrame s' = some (.wsData ⟨[0xC3, 0xA9], str "aGk=", false⟩) :=
  decodeFrame_again decodeFrame_looseText (by decide)

end HeadFwd.Tunnel
