import HeadFwd.EndToEnd.Codecs
import HeadFwd.Js.Json
import HeadFwd.Tunnel.Encoding
import HeadFwd.Worker.Settled

/-! # Messages between the Worker and a sidecar

The Worker writes its messages with `JSON.stringify` and the sidecar decodes them into
structs; the sidecar encodes structs and the Worker reads them with `JSON.parse`. Both
ways the message arrives, and the answer to a request settles the client that waits
for it.
-/

namespace HeadFwd.EndToEnd

open Text Net Tunnel Transition Js Document

/-- The object that the Worker sends for a message. -/
def messageDoc : Worker.Message → Value JsString
  | .request r => frameDoc js (js "request")
      (some (requestDoc js r.id r.method r.url r.headers r.body (some r.isBinary)))
  | .wsOpen id method url headers => frameDoc js (js "ws_open")
      (some (requestDoc js id method url headers none none))
  | .wsData id data isBinary => frameDoc js (js "ws_data") (some (wsDataDoc js id data isBinary))
  | .wsClose id code reason => frameDoc js (js "ws_close")
      (some (wsCloseDoc js id (some (code : ℤ)) (some reason)))
  | .pong => frameDoc js (js "pong") none

/-- The headers of a message of the Worker. -/
def messageHeaders : Worker.Message → List (JsString × JsString)
  | .request r => r.headers
  | .wsOpen _ _ _ headers => headers
  | _ => []

/-- A message of the Worker as the sidecar decodes it. -/
def ofMessage : Worker.Message → TunnelMessage
  | .request r => .request (ofWorker r)
  | .wsOpen id method url headers => .wsOpen
      ⟨utf8 id, utf8 method, utf8 url, headers.map fun p => (utf8 p.1, utf8 p.2), none, false⟩
  | .wsData id data isBinary => .wsData ⟨utf8 id, utf8 data, isBinary⟩
  | .wsClose id code reason => .wsClose ⟨utf8 id, code, utf8 reason⟩
  | .pong => .pong

/-- The numbers of a message are integers of 64 bits. -/
def MessageFits : Worker.Message → Prop
  | .wsClose _ code _ => Document.Fits code
  | _ => True

theorem utf8_memberNames : ∀ n ∈ memberNames, utf8 (js n) = str n := by decide +kernel

theorem whole_messageDoc (m : Worker.Message) : Alphabet.Whole (messageDoc m) := by
  have hframe : ∀ (type : JsString) (d : Value JsString), Alphabet.Whole d →
      Alphabet.Whole (frameDoc js type (some d)) := by
    intro type d hd
    apply whole_frameDoc
    rintro _ ⟨rfl⟩
    exact hd
  cases m with
  | request r => exact hframe _ _ (whole_requestDoc ..)
  | wsOpen id method url headers => exact hframe _ _ (whole_requestDoc ..)
  | wsData id data isBinary => exact hframe _ _ (whole_wsDataDoc ..)
  | wsClose id code reason => exact hframe _ _ (whole_wsCloseDoc ..)
  | pong => exact whole_frameDoc _ fun d hd => by cases hd

theorem readFirst_frameDoc {type : JsString} {data : Option (Value JsString)}
    (h : Alphabet.Whole (frameDoc js type data)) :
    readFirst (utf8 (stringify (frameDoc js type data))) =
      some (frameDoc str (utf8 type) (data.map (Value.map utf8))) := by
  rw [← frameDoc_congr utf8_memberNames, ← map_frameDoc utf8]
  exact readFirst_stringify h

/-- The sidecar decodes every message as the Worker meant it. -/
theorem sidecar_decodes {m : Worker.Message} (hf : MessageFits m)
    (hn : ((messageHeaders m).map fun p => utf8 p.1).Nodup) :
    decodeFrame (utf8 (stringify (messageDoc m))) = some (ofMessage m) := by
  have hkeys : (((messageHeaders m).map fun p => (utf8 p.1, utf8 p.2)).map Prod.fst).Nodup := by
    rw [List.map_map]
    exact hn
  have hwhole := whole_messageDoc m
  cases m with
  | request r =>
    rw [messageDoc, decodeFrame_eq (readFirst_frameDoc hwhole), Option.map_some, map_requestDoc,
      requestDoc_congr utf8_memberNames]
    exact congrArg some (decodeData_of (decode_requestDoc hkeys _ _ _ _ _) .request)
  | wsOpen id method url headers =>
    rw [messageDoc, decodeFrame_eq (readFirst_frameDoc hwhole), Option.map_some, map_requestDoc,
      requestDoc_congr utf8_memberNames]
    exact congrArg some (decodeData_of (decode_requestDoc hkeys _ _ _ _ _) .wsOpen)
  | wsData id data isBinary =>
    rw [messageDoc, decodeFrame_eq (readFirst_frameDoc hwhole), Option.map_some, map_wsDataDoc,
      wsDataDoc_congr utf8_memberNames]
    exact congrArg some (decodeData_of (decode_wsDataDoc _ _ _) .wsData)
  | wsClose id code reason =>
    have hcode : ∀ n ∈ some (code : ℤ), Document.Fits n := by
      rintro _ ⟨rfl⟩
      exact hf
    rw [messageDoc, decodeFrame_eq (readFirst_frameDoc hwhole), Option.map_some, map_wsCloseDoc,
      wsCloseDoc_congr utf8_memberNames]
    exact congrArg some (decodeData_of (decode_wsCloseDoc _ hcode _) .wsClose)
  | pong => exact decodeFrame_eq (readFirst_frameDoc hwhole)

/-- A request with a lone surrogate in its body. -/
def surrogateRequest : Worker.TunnelRequest where
  id := js "1"
  method := js "POST"
  url := js "https://a.headfwd.net/x"
  headers := [(js "content-type", js "text/plain"), (js "x", [0xE9])]
  body := some [0xD800, 0x22]
  isBinary := false

theorem sidecar_decodes_surrogateRequest :
    decodeFrame (utf8 (stringify (messageDoc (.request surrogateRequest)))) =
      some (.request (ofWorker surrogateRequest)) :=
  sidecar_decodes (m := .request surrogateRequest) trivial (by decide +kernel)

/-! ## Messages of the sidecar -/

theorem ofUtf8_memberNames : ∀ n ∈ memberNames, ofUtf8 (str n) = js n := by decide +kernel

/-- The text of a WebSocket message as a string. -/
def decodeText (s : Bytes) : JsString := decodeUtf8 s

theorem decodeText_eq {s : Bytes} (h : ValidUtf8 s) : decodeText s = ofUtf8 s := by
  rw [decodeText, decodeUtf8, decodeRunes_eq_runes (invalid_notMem_runes h)]
  rfl

/-- The Worker parses whatever the sidecar sends. -/
theorem parseJson_encodeFrame {m : TunnelMessage} {type : Bytes} {data : Value Bytes}
    (hm : m.frame = some (type, data)) (number : Bytes → JsString) :
    ∃ text, encodeFrame m = some text ∧ parseJson number (decodeText text) =
      some (ofDocument number (frameDoc js (ofUtf8 type) (some (data.map ofUtf8)))) := by
  have hwhole : Alphabet.Whole (frameDoc str type (some data)) := by
    apply whole_frameDoc
    rintro _ ⟨rfl⟩
    exact whole_frame hm
  have hends : codeUnits.Ends (ofUtf8 [0x0A]) := by
    rintro a b ⟨rfl⟩ hb
    cases hb
    decide
  have hread := readDocument_marshal hwhole hends (by decide +kernel)
  rw [map_frameDoc, frameDoc_congr ofUtf8_memberNames] at hread
  refine ⟨marshal (frameDoc str type (some data)) ++ [0x0A], by rw [encodeFrame, hm]; rfl, ?_⟩
  rw [decodeText_eq (validUtf8_marshal_append hwhole (by decide +kernel)), parseJson, hread]
  rfl

section Objects

variable {number : Bytes → JsString}

theorem ofMembers_eq (members : List (JsString × Value JsString)) :
    ofMembers number members = members.map fun p => (p.1, ofDocument number p.2) := by
  induction members with
  | nil => rfl
  | cons p members ih => rw [ofMembers, ih, List.map_cons]

/-- The fields of an object whose names are distinct. -/
theorem ofDocument_object {members : List (JsString × Value JsString)} (names : List JsString)
    (h : names.Nodup) (hnames : members.map Prod.fst = names) :
    ofDocument number (.object members) =
      .object (members.map fun p => (p.1, ofDocument number p.2)) := by
  have hnodup : (([] ++ members.map fun p : JsString × Value JsString =>
      (p.1, ofDocument number p.2)).map Prod.fst).Nodup := by
    have hmembers : (members.map Prod.fst).Nodup := hnames ▸ h
    rw [List.nil_append, List.map_map]
    exact hmembers
  rw [ofDocument, ofMembers_eq]
  exact congrArg JsValue.object (foldl_insertKey hnodup)

theorem ofDocument_frameDoc (type : JsString) (data : Value JsString) :
    ofDocument number (frameDoc js type (some data)) =
      .object [(js "type", .string type), (js "data", ofDocument number data)] := by
  rw [frameDoc, Option.toList_some, List.map_singleton, ofDocument_object [js "type", js "data"]
    (by decide +kernel) rfl]
  simp only [List.map_cons, List.map_nil, ofDocument]

theorem ofDocument_headersDoc {headers : List (JsString × JsString)}
    (h : (headers.map Prod.fst).Nodup) : ofDocument number (headersDoc headers) =
      .object (headers.map fun p => (p.1, .string p.2)) := by
  have hnames : (headers.map fun p => (p.1, Value.string p.2)).map Prod.fst =
      headers.map Prod.fst := List.map_map
  rw [headersDoc, ofDocument_object _ h hnames, List.map_map]
  refine congrArg JsValue.object (List.map_congr_left fun p _ => ?_)
  rw [Function.comp_apply, ofDocument]

theorem ofDocument_responseDoc (id : JsString) (status : ℤ) (headers : List (JsString × JsString))
    (body : Option JsString) (flag : Option Bool) :
    ofDocument number (responseDoc js id status headers body flag) =
      .object ([(js "id", .string id), (js "status", .number (number (formatInt status))),
        (js "headers", ofDocument number (headersDoc headers))] ++
          (body.toList.map fun b => (js "body", .string b)) ++
            flag.toList.map fun b => (js "isBinary", .bool b)) := by
  have hnames : ((([js "id", js "status", js "headers"] ++ body.toList.map fun _ => js "body") ++
      flag.toList.map fun _ => js "isBinary")).Nodup := by
    cases body <;> cases flag <;>
      simp only [Option.toList_none, Option.toList_some, List.map_cons, List.map_nil,
        List.append_nil, List.cons_append, List.nil_append] <;> decide +kernel
  rw [responseDoc, ofDocument_object _ hnames]
  · cases body <;> cases flag <;>
      simp only [Option.toList_none, Option.toList_some, List.map_cons, List.map_nil,
        List.append_nil, List.cons_append, List.nil_append, ofDocument]
  · cases body <;> cases flag <;> rfl

theorem ofDocument_wsDataDoc (id data : JsString) (isBinary : Bool) :
    ofDocument number (wsDataDoc js id data isBinary) =
      .object [(js "id", .string id), (js "data", .string data), (js "isBinary", .bool isBinary)] := by
  rw [wsDataDoc, ofDocument_object [js "id", js "data", js "isBinary"] (by decide +kernel) rfl]
  simp only [List.map_cons, List.map_nil, ofDocument]

/-- What the Worker reads of a response. -/
structure Conveys (number : Bytes → JsString) (data : JsValue) (resp : TunnelResponse) : Prop where
  id : data.get (js "id") = some (.string (ofUtf8 resp.id))
  status : data.get (js "status") = some (.number (number (formatInt resp.status)))
  headers : ∃ fields : List (JsString × JsValue), data.get (js "headers") = some (.object fields) ∧
    fields.Perm (resp.headers.map fun p => (ofUtf8 p.1, .string (ofUtf8 p.2)))
  body : data.get (js "body") =
    some ((resp.body.map fun b => JsValue.string (ofUtf8 b)).getD .undefined)
  isBinary : data.get (js "isBinary") = some (if resp.isBinary then .bool true else .undefined)

theorem conveys_responseValue {resp : TunnelResponse}
    (hn : (resp.headers.map fun p => ofUtf8 p.1).Nodup) :
    Conveys number (ofDocument number ((responseValue resp).map ofUtf8)) resp := by
  have hperm : (sortKeys resp.headers).Perm resp.headers := List.perm_insertionSort _ _
  have hkeys : (((sortKeys resp.headers).map fun p => (ofUtf8 p.1, ofUtf8 p.2)).map
      Prod.fst).Nodup := by
    rw [List.map_map]
    exact (hperm.map _).nodup_iff.mpr hn
  have hfields : ((sortKeys resp.headers).map fun p => (ofUtf8 p.1, ofUtf8 p.2)).map
      (fun p => (p.1, JsValue.string p.2)) =
        (sortKeys resp.headers).map fun p => (ofUtf8 p.1, .string (ofUtf8 p.2)) := List.map_map
  rw [responseValue, map_responseDoc, responseDoc_congr ofUtf8_memberNames, ofDocument_responseDoc,
    ofDocument_headersDoc hkeys, hfields]
  obtain ⟨id, status, headers, body, isBinary⟩ := resp
  constructor
  · cases body <;> cases isBinary <;> rfl
  · cases body <;> cases isBinary <;> rfl
  · refine ⟨_, ?_, hperm.map _⟩
    cases body <;> cases isBinary <;> rfl
  · cases body <;> cases isBinary <;> rfl
  · cases body <;> cases isBinary <;> rfl

end Objects

theorem ofUtf8_utf8_ascii {s : JsString} (h : ∀ a ∈ s, a < 0x80) : ofUtf8 (utf8 s) = s := by
  have hbytes : ∃ t : Bytes, (∀ b ∈ t, b < 0x80) ∧ s = codeUnits.ascii t := by
    refine ⟨s.map UInt16.toUInt8, ?_, ?_⟩
    · intro b hb
      obtain ⟨a, ha, rfl⟩ := List.mem_map.mp hb
      have hlt : a.toNat < 128 := h a ha
      rw [UInt8.lt_iff_toNat_lt, UInt16.toNat_toUInt8]
      exact lt_of_le_of_lt (Nat.mod_le _ _) hlt
    · rw [Alphabet.ascii, List.map_map]
      conv_lhs => rw [← List.map_id s]
      apply List.map_congr_left
      intro a ha
      have hlt : a.toNat < 128 := h a ha
      rw [← UInt16.toNat_inj]
      change a.toNat = a.toUInt8.toUInt16.toNat
      rw [UInt8.toNat_toUInt16, UInt16.toNat_toUInt8, Nat.mod_eq_of_lt (by omega)]
  obtain ⟨t, ht, rfl⟩ := hbytes
  have hto := utf8_ascii ht []
  have hfrom := ofUtf8_ascii ht []
  rw [List.append_nil, utf8, List.append_nil] at hto
  rw [List.append_nil] at hfrom
  rw [hto, hfrom]
  exact List.append_nil _

theorem ascii_of_all {s : JsString} (h : (s.all fun a => decide (a < 0x80)) = true) :
    ∀ a ∈ s, a < 0x80 :=
  fun a ha => of_decide_eq_true (List.all_eq_true.mp h a ha)

/-- A request of the Worker and the answer to it, over the wire both ways: the sidecar has the
request as it was made, and its answer settles the client that waits for it if the platform can
rebuild it, and leaves that client without its entry if it cannot. -/
theorem answer_settles (number : Bytes → JsString) (p : Worker.Platform) (cfg : Sidecar.Config)
    (headscale : Sidecar.HeadscaleRequest → Option Sidecar.HeadscaleReply)
    {s : Worker.HeadscaleTunnel} {id : JsString} {i : ℕ} {r : Worker.ClientRequest}
    (hid : ∀ a ∈ id, a < 0x80) (hpending : s.pendingRequests.lookup id = some i)
    (hn : (r.headers.map fun p => utf8 p.1).Nodup)
    (hresp : ((Sidecar.handleRequest cfg headscale
      (ofWorker (Worker.tunnelRequest id r))).headers.map fun p => ofUtf8 p.1).Nodup) :
    ∃ req text data v, decodeFrame (utf8 (stringify (messageDoc
        (.request (Worker.tunnelRequest id r))))) = some (.request req) ∧
      req = ofWorker (Worker.tunnelRequest id r) ∧
      encodeFrame (.response (Sidecar.handleRequest cfg headscale req)) = some text ∧
      parseJson number (decodeText text) = some v ∧
      Conveys number data (Sidecar.handleRequest cfg headscale req) ∧
      s.handleTunnelMessage v (p.rebuilds data) =
        let left := { s with pendingRequests := s.pendingRequests.filter fun p => p.1 ≠ id }
        if p.rebuilds data then left.settle i (.resolved data) else left := by
  obtain ⟨req, hreq⟩ : ∃ req, req = ofWorker (Worker.tunnelRequest id r) := ⟨_, rfl⟩
  rw [← hreq] at hresp
  obtain ⟨text, htext, hparse⟩ := parseJson_encodeFrame
    (m := .response (Sidecar.handleRequest cfg headscale req)) rfl number
  have hconveys : Conveys number (ofDocument number ((responseValue (Sidecar.handleRequest cfg
      headscale req)).map ofUtf8)) (Sidecar.handleRequest cfg headscale req) :=
    conveys_responseValue hresp
  have hback : ofUtf8 (Sidecar.handleRequest cfg headscale req).id = id := by
    rw [Sidecar.handleRequest_id, hreq]
    exact ofUtf8_utf8_ascii hid
  have hdecode : decodeFrame (utf8 (stringify (messageDoc (.request (Worker.tunnelRequest id r))))) =
      some (.request req) := by
    rw [hreq]
    exact sidecar_decodes (m := .request (Worker.tunnelRequest id r)) trivial hn
  rw [ofDocument_frameDoc] at hparse
  obtain ⟨data, hdata⟩ : ∃ data, data = ofDocument number
    ((responseValue (Sidecar.handleRequest cfg headscale req)).map ofUtf8) := ⟨_, rfl⟩
  rw [← hdata] at hparse hconveys
  have htype : ofUtf8 (str "response") = js "response" := by decide +kernel
  have hget := hconveys.id
  rw [hback] at hget
  refine ⟨req, text, data, _, hdecode, hreq, htext, hparse, hconveys, ?_⟩
  rw [htype]
  change s.handleResponse data (p.rebuilds data) = _
  rw [Worker.HeadscaleTunnel.handleResponse, hget]
  simp only [hpending]

/-- What a WebSocket client sends is what the sidecar writes to Headscale, and what the sidecar
reads from Headscale is what the client is sent. -/
theorem bytes_cross (number : Bytes → JsString)
    (constructs : Worker.BodyInit → JsValue → JsValue → Bool) {s : Worker.HeadscaleTunnel}
    {id : JsString} {j k : ℕ} (hid : ∀ a ∈ id, a < 0x80)
    (hclient : s.clients j = some (.connected id)) (htunnel : s.tunnel = some k)
    (hconn : s.wsConnections.lookup id = some j) (b : Bytes) :
    (∃ s' m d, s.wsMessage j (.binary b) true = some s' ∧ s'.outbox k = s.outbox k ++ [m] ∧
      decodeFrame (utf8 (stringify (messageDoc m))) = some (.wsData d) ∧ d.id = utf8 id ∧
      Sidecar.payload d = some b) ∧
    ∃ text v data d, encodeFrame (.wsData ⟨utf8 id, encodeBase64 b, true⟩) = some text ∧
      parseJson number (decodeText text) = some v ∧
      s.handleTunnelMessage v true =
        { s with delivered := Function.update s.delivered j (s.delivered j ++ [data]) } ∧
      data.get (js "isBinary") = some (.bool true) ∧ data.get (js "data") = some d ∧
      (forgiving constructs).fromBase64 d = some b := by
  constructor
  · have hsend : s.wsMessage j (.binary b) true = some { s with
        outbox := Function.update s.outbox k
          (s.outbox k ++ [.wsData id (Worker.toBase64 b) true]) } := by
      unfold Worker.HeadscaleTunnel.wsMessage Worker.HeadscaleTunnel.send
      rw [hclient, htunnel]
      rfl
    have hdecode := sidecar_decodes (m := .wsData id (Worker.toBase64 b) true) trivial
      (by exact List.nodup_nil)
    refine ⟨_, _, _, hsend, Function.update_self .., hdecode, rfl, ?_⟩
    rw [Sidecar.payload, if_pos rfl, ofWorker_toBase64, decodeBase64_encodeBase64]
  · obtain ⟨text, htext, hparse⟩ := parseJson_encodeFrame
      (m := .wsData ⟨utf8 id, encodeBase64 b, true⟩) rfl number
    have htype : ofUtf8 (str "ws_data") = js "ws_data" := by decide +kernel
    have hbase : ofUtf8 (encodeBase64 b) = ofAscii (encodeBase64 b) := by
      rw [← units_runes_ascii fun c hc => lt_of_mem_encodeBase64 hc]
      exact (decodeText_eq (validUtf8_encodeBase64 b)).symm
    rw [ofDocument_frameDoc, htype, wsDataValue, map_wsDataDoc, wsDataDoc_congr ofUtf8_memberNames,
      ofDocument_wsDataDoc, ofUtf8_utf8_ascii hid, hbase] at hparse
    obtain ⟨data, hdata⟩ : ∃ data, data = JsValue.object [(js "id", .string id),
      (js "data", .string (ofAscii (encodeBase64 b))), (js "isBinary", .bool true)] := ⟨_, rfl⟩
    have hget : data.get (js "id") = some (.string id) := hdata ▸ rfl
    rw [← hdata] at hparse
    refine ⟨text, _, data, _, htext, hparse, ?_, hdata ▸ rfl, hdata ▸ rfl,
      fromBase64_forgiving constructs b⟩
    change s.handleClient data false true = _
    rw [Worker.HeadscaleTunnel.handleClient, hget]
    simp only [hconn, Bool.false_eq_true, if_false]

/-- A tunnel over which client 3 waits and client 5 has a WebSocket. -/
def busyTunnel : Worker.HeadscaleTunnel :=
  { Worker.HeadscaleTunnel.initial with
    tunnel := some 0
    accepted := 1
    pendingRequests := [(js "1", 3)]
    wsConnections := [(js "2", 5)]
    clients := Table.empty.set 5 (.connected (js "2")) }

/-- The answer to the health request when Headscale answers with a binary body. -/
def octetResponse : TunnelResponse :=
  Sidecar.handleRequest plainConfig (fun _ => some octetReply)
    (ofWorker (Worker.tunnelRequest (js "1") Worker.healthRequest))

theorem lenientPlatform_rebuilds {data : JsValue} (h : Conveys ofAscii data octetResponse) :
    Worker.lenientPlatform.rebuilds data = true := by
  obtain ⟨fields, hfields, hperm⟩ := h.headers
  have hheaders : octetResponse.headers =
      [(str "Content-Type", str "application/octet-stream")] := by decide +kernel
  rw [hheaders, List.map_singleton, List.perm_singleton] at hperm
  have hbody : octetResponse.body = some (encodeBase64 octetReply.body) := by decide +kernel
  have hbinary : octetResponse.isBinary = true := by decide +kernel
  have hstatus : octetResponse.status = 200 := by decide +kernel
  have hread := h.body
  rw [hbody] at hread
  unfold Worker.Platform.rebuilds
  rw [hread, h.isBinary, h.status, hfields, hperm, hbinary, hstatus]
  decide +kernel

theorem answer_settles_busyTunnel : ∃ req text data v,
    decodeFrame (utf8 (stringify (messageDoc
      (.request (Worker.tunnelRequest (js "1") Worker.healthRequest))))) = some (.request req) ∧
    encodeFrame (.response (Sidecar.handleRequest plainConfig (fun _ => some octetReply) req)) =
      some text ∧
    parseJson ofAscii (decodeText text) = some v ∧ Conveys ofAscii data octetResponse ∧
    Worker.lenientPlatform.rebuilds data = true ∧
    busyTunnel.handleTunnelMessage v true = Worker.HeadscaleTunnel.settle { busyTunnel with
      pendingRequests := busyTunnel.pendingRequests.filter fun p => p.1 ≠ js "1" } 3
        (.resolved data) := by
  obtain ⟨req, text, data, v, hdecode, hreq, htext, hparse, hconveys, hsettled⟩ :=
    answer_settles ofAscii Worker.lenientPlatform plainConfig (fun _ => some octetReply)
      (s := busyTunnel) (i := 3) (r := Worker.healthRequest)
      (ascii_of_all (s := js "1") (by decide +kernel)) (by decide +kernel) (by decide +kernel)
      (by decide +kernel)
  rw [hreq] at hconveys
  have hrebuilds := lenientPlatform_rebuilds hconveys
  rw [hrebuilds] at hsettled
  exact ⟨req, text, data, v, hdecode, htext, hparse, hconveys, hrebuilds, hsettled⟩

theorem bytes_cross_busyTunnel :
    (∃ s' m d, busyTunnel.wsMessage 5 (.binary [0, 0xFF]) true = some s' ∧
      s'.outbox 0 = busyTunnel.outbox 0 ++ [m] ∧
      decodeFrame (utf8 (stringify (messageDoc m))) = some (.wsData d) ∧ d.id = utf8 (js "2") ∧
      Sidecar.payload d = some [0, 0xFF]) ∧
    ∃ text v data d, encodeFrame (.wsData ⟨utf8 (js "2"), encodeBase64 [0, 0xFF], true⟩) =
        some text ∧
      parseJson ofAscii (decodeText text) = some v ∧
      busyTunnel.handleTunnelMessage v true = { busyTunnel with
        delivered := Function.update busyTunnel.delivered 5 (busyTunnel.delivered 5 ++ [data]) } ∧
      data.get (js "isBinary") = some (.bool true) ∧ data.get (js "data") = some d ∧
      (forgiving fun _ _ _ => true).fromBase64 d = some [0, 0xFF] :=
  bytes_cross ofAscii (fun _ _ _ => true) (ascii_of_all (by decide +kernel)) rfl rfl
    (by decide +kernel) [0, 0xFF]

end HeadFwd.EndToEnd
