import HeadFwd.EndToEnd.Headers
import HeadFwd.EndToEnd.Targets

/-! # The raw request of a stream

The sidecar opens a stream by writing a request to Headscale, and passes on bytes
as they come from then on. Headscale finds the end of the request by the length that
its head announces. That is the length the client announced, if it did, while the
body is the one that came over the tunnel.
-/

namespace HeadFwd.EndToEnd

open Text Net Tunnel

open scoped List

/-! ## Names -/

theorem foldCase_of_ascii {s : Bytes} (h : ∀ b ∈ s, b < 0x80) :
    Sidecar.foldCase s = toLower s := by
  induction s with
  | nil => rfl
  | cons b s ih =>
    simp only [List.mem_cons, forall_eq_or_imp] at h
    rw [Sidecar.foldCase.eq_def]
    split
    · rename_i heq
      cases heq
      exact absurd h.1 (by decide)
    · rename_i heq
      cases heq
      exact absurd h.1 (by decide)
    · rename_i heq
      cases heq
      rw [ih h.2]
      rfl
    · rename_i heq
      cases heq

/-- The canonical spelling of a name does not depend on the case of its letters. -/
theorem canonicalBytes_toLower (upper : Bool) (s : Bytes) :
    canonicalBytes upper (toLower s) = canonicalBytes upper s := by
  have hbyte : ∀ b, upperByte (lowerByte b) = upperByte b ∧ lowerByte (lowerByte b) = lowerByte b ∧
      (lowerByte b = chr '-' ↔ b = chr '-') :=
    forall_byte (by decide +kernel)
  induction s generalizing upper with
  | nil => rfl
  | cons b s ih =>
    obtain ⟨hup, hlow, hdash⟩ := hbyte b
    rw [toLower, List.map_cons, canonicalBytes, canonicalBytes, hup, hlow, decide_eq_decide.mpr hdash,
      ← ih]
    rfl

/-- A name in canonical spelling, made of token bytes. -/
structure IsName (k : Bytes) : Prop where
  canonical : canonicalHeaderKey k = k
  token : ∀ b ∈ k, isTokenByte b = true

theorem IsName.canonicalBytes {k : Bytes} (h : IsName k) : Net.canonicalBytes true k = k := by
  have hc := h.canonical
  rwa [canonicalHeaderKey, if_pos (List.all_eq_true.mpr h.token)] at hc

/-- Names that are equal but for case are equal. -/
theorem IsName.equalFold_iff {k k' : Bytes} (h : IsName k) (h' : IsName k') :
    Sidecar.equalFold k k' = true ↔ k = k' := by
  have hlt : ∀ {k : Bytes}, IsName k → Sidecar.foldCase k = toLower k := fun h =>
    foldCase_of_ascii fun b hb => isTokenByte_lt b (h.token b hb)
  rw [Sidecar.equalFold, decide_eq_true_eq, hlt h, hlt h']
  constructor
  · intro he
    rw [← h.canonicalBytes, ← canonicalBytes_toLower, he, canonicalBytes_toLower, h'.canonicalBytes]
  · exact congrArg toLower

theorem isName_host : IsName (str "Host") := ⟨by decide, by decide +kernel⟩

theorem isName_contentLength : IsName (str "Content-Length") :=
  ⟨by decide, by decide +kernel⟩

/-! ## Fields -/

/-- The fields of a map under one of its names. -/
theorem filter_name {fields : Headers} (hn : (fields.map Prod.fst).Nodup) {k v : Bytes}
    (hf : (k, v) ∈ fields) : fields.filter (fun f => f.1 = k) = [(k, v)] := by
  induction fields with
  | nil => cases hf
  | cons f fields ih =>
    rw [List.map_cons, List.nodup_cons] at hn
    rcases List.mem_cons.mp hf with rfl | hf
    · rw [List.filter_cons_of_pos (by simp), List.filter_eq_nil_iff.mpr]
      intro f hm
      have hne : f.1 ≠ k := fun he => hn.1 (List.mem_map.mpr ⟨f, hm, he⟩)
      simpa using hne
    · have hne : f.1 ≠ k := fun he => hn.1 (List.mem_map.mpr ⟨_, hf, he.symm⟩)
      rw [List.filter_cons_of_neg (by simpa using hne), ih hn.2 hf]

/-- The value that is sent under a name. -/
def sentValue (h : Header) (k : Bytes) : List Bytes :=
  match List.lookup k h with
  | some (v :: _) => [sanitize v]
  | _ => []

section Sent

variable {h : Header} {order : Headers}

/-- A field of the message has the first value of its name. -/
theorem exists_of_mem_order (hc : h.Canonical) (ho : order ~ (headersToMap h).wire)
    {f : Bytes × Bytes} (hf : f ∈ order) : ∃ v vs, (f.1, v :: vs) ∈ h ∧ f.2 = sanitize v := by
  obtain ⟨⟨k, v⟩, hv, rfl⟩ := List.mem_map.mp (ho.mem_iff.mp hf)
  obtain ⟨vs, hm⟩ := mem_headersToMap.mp hv
  have hk : sanitize k = k := sanitize_name hc hm
  refine ⟨v, vs, ?_, rfl⟩
  change (sanitize k, v :: vs) ∈ h
  rw [hk]
  exact hm

theorem isName_order (hc : h.Canonical) (ho : order ~ (headersToMap h).wire) {f : Bytes × Bytes}
    (hf : f ∈ order) : IsName f.1 := by
  obtain ⟨v, vs, hm, -⟩ := exists_of_mem_order hc ho hf
  exact ⟨hc.canonical _ hm, hc.token _ hm⟩

/-- The fields of the message under a name, in whatever order they come. -/
theorem filter_order (hc : h.Canonical) (ho : order ~ (headersToMap h).wire) (k : Bytes) :
    (order.filter fun f => f.1 = k).map Prod.snd = sentValue h k := by
  have hn : (order.map Prod.fst).Nodup := by
    rw [(ho.map Prod.fst).nodup_iff, wire_names hc]
    exact hc.nodup.sublist headersToMap_names
  by_cases hk : ∃ v, (k, v) ∈ order
  · obtain ⟨_, hv⟩ := hk
    obtain ⟨v, vs, hm, rfl⟩ := exists_of_mem_order hc ho hv
    rw [filter_name hn hv, sentValue, lookup_eq_some_of_mem hc.nodup hm]
    rfl
  · have hnone : sentValue h k = [] := by
      unfold sentValue
      split
      · rename_i v vs hl
        exact absurd ⟨_, ho.mem_iff.mpr (mem_wire hc (mem_of_lookup hl))⟩ hk
      · rfl
    rw [hnone, List.map_eq_nil_iff, List.filter_eq_nil_iff]
    rintro ⟨k', v⟩ hf he
    exact hk ⟨v, (of_decide_eq_true he) ▸ hf⟩

variable (method t body host : Bytes)

/-- The head that the sidecar writes. -/
def rawHead (order : Headers) : Head := ⟨method, t, rawFields order body host⟩

/-- The length that is added if there is a body and the message has none. -/
def addedLength (h : Header) (body : Bytes) : List Bytes :=
  if body ≠ [] ∧ sentValue h (str "Content-Length") = [] then [str (toString body.length)] else []

theorem filter_forwardedFields (hc : h.Canonical) (ho : order ~ (headersToMap h).wire)
    {k : Bytes} (hk : k ≠ str "Host") :
    ((forwardedFields order).filter fun f => canonicalHeaderKey f.1 = k).map Prod.snd =
      sentValue h k := by
  rw [forwardedFields, List.filter_filter, ← filter_order hc ho]
  congr 1
  apply List.filter_congr
  intro f hf
  have hname := isName_order hc ho hf
  rw [hname.canonical]
  by_cases he : f.1 = k
  · have hne : Sidecar.equalFold f.1 (str "Host") = false := by
      rw [Bool.eq_false_iff, ne_eq, hname.equalFold_iff isName_host, he]
      exact hk
    rw [hne, Bool.not_false, Bool.and_true]
  · rw [decide_eq_false he, Bool.false_and]

/-- The host of the client is not passed on. -/
theorem filter_forwardedFields_host (hc : h.Canonical) (ho : order ~ (headersToMap h).wire) :
    (forwardedFields order).filter (fun f => canonicalHeaderKey f.1 = str "Host") = [] := by
  rw [List.filter_eq_nil_iff]
  intro f hf he
  obtain ⟨hmem, hnot⟩ := List.mem_filter.mp hf
  have hname := isName_order hc ho hmem
  have he : canonicalHeaderKey f.1 = str "Host" := of_decide_eq_true he
  rw [(hname.equalFold_iff isName_host).mpr (hname.canonical.symm.trans he)] at hnot
  cases hnot

theorem any_contentLength (hc : h.Canonical) (ho : order ~ (headersToMap h).wire) :
    ((forwardedFields order).any fun f => Sidecar.equalFold f.1 (str "Content-Length")) = false ↔
      sentValue h (str "Content-Length") = [] := by
  rw [← filter_forwardedFields hc ho (by decide), List.map_eq_nil_iff, List.filter_eq_nil_iff,
    List.any_eq_false]
  refine forall_congr' fun f => imp_congr_right fun hf => not_congr ?_
  have hname := isName_order hc ho (List.mem_filter.mp hf).1
  rw [hname.equalFold_iff isName_contentLength, decide_eq_true_eq, hname.canonical]

/-- The fields that are written, by their values. -/
theorem rawFields_eq (hc : h.Canonical) (ho : order ~ (headersToMap h).wire) :
    rawFields order body host = forwardedFields order ++ (str "Host", host) ::
      (addedLength h body).map (str "Content-Length", ·) := by
  unfold rawFields addedLength
  simp only [any_contentLength hc ho]
  split_ifs
  · rfl
  · rfl

/-- What a head of the sidecar has under a name. -/
theorem rawHead_values (hc : h.Canonical) (ho : order ~ (headersToMap h).wire) (name : Bytes) :
    (rawHead method t body host order).values name =
      if canonicalHeaderKey name = str "Host" then [host]
      else if canonicalHeaderKey name = str "Content-Length" then
        sentValue h (str "Content-Length") ++ addedLength h body
      else sentValue h (canonicalHeaderKey name) := by
  have hhost : canonicalHeaderKey (str "Host") = str "Host" := isName_host.canonical
  have hlength : canonicalHeaderKey (str "Content-Length") = str "Content-Length" :=
    isName_contentLength.canonical
  have hne : str "Host" ≠ str "Content-Length" := by decide
  rw [Head.values, rawHead, rawFields_eq body host hc ho]
  generalize canonicalHeaderKey name = k
  simp only [List.filter_append, List.map_append, List.filter_cons, hhost, List.filter_map]
  by_cases hk : k = str "Host"
  · subst hk
    simp [filter_forwardedFields_host hc ho, hlength, Function.comp_def, hne.symm]
  · rw [filter_forwardedFields hc ho hk, if_neg hk]
    by_cases hkl : k = str "Content-Length"
    · subst hkl
      simp [hlength, Function.comp_def, hne]
    · simp [hlength, Function.comp_def, Ne.symm hk, Ne.symm hkl, hkl]

end Sent

/-! ## Requests -/

/-- What the server has seen to in a request for the path and query `t` by the time a handler runs.
The URL of a target in absolute form has an origin in front. The body of a request that announces
its length is read to that length or not at all. -/
structure Received (authority : Bytes → Option Bytes) (r : Relay.ClientRequest) (site t : Bytes) :
    Prop where
  method : isToken r.request.method = true
  target : chr ' ' ∉ t
  origin : site = [] ∨ Nonempty (Url.Origin authority site)
  ascii : ∀ b ∈ site, b < 0x80
  url : ∃ u, Url.parseRequestURI authority t = some u ∧ r.url = site ++ u.string
  header : r.request.header.Canonical
  name : ∀ f ∈ r.request.header, f.1 ≠ []
  value : ∀ f ∈ r.request.header, ∀ v ∈ f.2, (∀ b ∈ v, isFieldByte b = true) ∧
    (∀ b ∈ v.head?, isBlank b = false) ∧ ∀ b ∈ v.getLast?, isBlank b = false
  length : ∀ vs, (str "Content-Length", vs) ∈ r.request.header →
    ∃ v n, vs = [v] ∧ parseLength v = some n ∧ ∀ data ∈ r.body, data.length = n

/-- The body with which the stream is opened. -/
def openedBody (r : Relay.ClientRequest) : Bytes :=
  match r.body with
  | none => []
  | some data => if isText (r.request.header.get (str "Content-Type")) then sanitize data else data

theorem openBody_wire (id : Bytes) (r : Relay.ClientRequest) :
    Sidecar.openBody (Relay.tunnelRequest id r).wire = some (openedBody r) := by
  unfold Sidecar.openBody Relay.tunnelRequest Relay.readRequestBody TunnelRequest.wire openedBody
  cases r.body with
  | none => rfl
  | some data =>
    by_cases hd : data = []
    · simp [hd, sanitize_eq_nil.mpr]
    · cases isText (r.request.header.get (str "Content-Type")) with
      | true => simp [hd]
      | false =>
        have hwire : sanitize (encodeBase64 data) = encodeBase64 data := validUtf8_encodeBase64 data
        simp [hd, toBase64, hwire, decodeBase64_encodeBase64]

theorem isFieldByte_high (b : UInt8) : 0x80 ≤ b → isFieldByte b = true ∧ isBlank b = false :=
  forall_byte (p := fun b => 0x80 ≤ b → isFieldByte b = true ∧ isBlank b = false)
    (by decide +kernel) b

/-- A value stays plain when invalid UTF-8 in it is replaced. -/
theorem plainField_sanitize {k v : Bytes} (hk : isToken k = true)
    (hb : ∀ b ∈ v, isFieldByte b = true) (hhead : ∀ b ∈ v.head?, isBlank b = false)
    (hlast : ∀ b ∈ v.getLast?, isBlank b = false) : PlainField (k, sanitize v) where
  name := hk
  bytes b hm := by
    by_cases hlt : b < 0x80
    · exact hb b ((mem_sanitize hlt v).mp hm)
    · exact (isFieldByte_high b (not_lt.mp hlt)).1
  trimmed := by
    apply trimBlanks_eq_self
    · intro b hm
      by_cases hlt : b < 0x80
      · exact hhead b (head?_sanitize hlt hm)
      · exact (isFieldByte_high b (not_lt.mp hlt)).2
    · intro b hm
      by_cases hlt : b < 0x80
      · exact hlast b (getLast?_sanitize hlt hm)
      · exact (isFieldByte_high b (not_lt.mp hlt)).2

/-- Bytes that can stand in a field, none of them a blank. -/
theorem plainField_of_notBlank {k v : Bytes} (hk : isToken k = true)
    (hb : ∀ b ∈ v, isFieldByte b = true ∧ isBlank b = false) : PlainField (k, v) where
  name := hk
  bytes b hm := (hb b hm).1
  trimmed := trimBlanks_eq_self (fun b hm => (hb b (List.mem_of_head? hm)).2)
    fun b hm => (hb b (List.mem_of_getLast? hm)).2

/-- The bytes of an address that can be dialled. -/
def Dialled (addr : Bytes) : Prop := ∀ b ∈ addr, isControl b = false ∧ b ≠ chr ' '

section Framed

variable {authority : Bytes → Option Bytes} {r : Relay.ClientRequest} {site t addr : Bytes}
  {order : Headers}

theorem plainField_order (hr : Received authority r site t)
    (ho : order ~ (headersToMap r.request.header).wire) {f : Bytes × Bytes} (hf : f ∈ order) :
    PlainField f := by
  obtain ⟨v, vs, hm, hv⟩ := exists_of_mem_order hr.header ho hf
  obtain ⟨k, w⟩ := f
  dsimp only at hm hv
  subst hv
  obtain ⟨hb, hhead, hlast⟩ := hr.value _ hm v List.mem_cons_self
  refine plainField_sanitize ?_ hb hhead hlast
  rw [isToken, Bool.and_eq_true, List.all_eq_true]
  exact ⟨by simpa using hr.name _ hm, hr.header.token _ hm⟩

/-- Every field of the raw request reads as it is written. -/
theorem plainField_rawFields (hr : Received authority r site t)
    (ho : order ~ (headersToMap r.request.header).wire) (haddr : Dialled addr) (body : Bytes) :
    ∀ f ∈ rawFields order body addr, PlainField f := by
  rw [rawFields_eq body addr hr.header ho]
  simp only [List.mem_append, List.mem_cons, List.mem_map]
  rintro f (hf | rfl | ⟨v, hv, rfl⟩)
  · exact plainField_order hr ho (List.mem_filter.mp hf).1
  · apply plainField_of_notBlank (by decide)
    intro b hb
    obtain ⟨hctl, hblank⟩ := haddr b hb
    have htab : b ≠ 0x09 := by
      rintro rfl
      exact absurd hctl (by decide)
    simp [isFieldByte, isBlank, hctl, hblank, htab]
  · apply plainField_of_notBlank (by decide)
    unfold addedLength at hv
    split_ifs at hv
    · obtain rfl := List.mem_singleton.mp hv
      intro b hb
      have hd := isFieldByte_of_isDigit (digits_of_parseLength (parseLength_toString _) b hb)
      exact ⟨hd.1, hd.2.1⟩
    · cases hv

/-- The head has the values of the header of the client in their order, but for the host and for a
length that the client did not announce. -/
def HeadersKept (h : Header) (head : Head) : Prop :=
  ∀ name, canonicalHeaderKey name ≠ str "Host" →
    (canonicalHeaderKey name = str "Content-Length" → (h.values name).isSome) →
    head.values name = (h.values name).getD []

/-- A text is one request, with the method, the target and the header of the client, one line for the
host, and a body of the length that is announced. -/
def Framed (r : Relay.ClientRequest) (t host raw : Bytes) : Prop :=
  ∃ head body, parseHead raw = some (head, body) ∧ head.method = r.request.method ∧
    head.target = t ∧ HeadersKept r.request.header head ∧ head.values (str "Host") = [host] ∧
    head.contentLength = some body.length

/-- A length that was announced is the one of the body: it was read, and if it is text it is valid
UTF-8. -/
def LengthKept (r : Relay.ClientRequest) : Prop :=
  ∀ v, (str "Content-Length", [v]) ∈ r.request.header →
    match r.body with
    | none => parseLength v = some 0
    | some data => isText (r.request.header.get (str "Content-Type")) = true → ValidUtf8 data

theorem sentValue_eq_iff {h : Header} (hc : h.Canonical) {k : Bytes} {vs : List Bytes}
    (hf : (k, vs) ∈ h) : sentValue h k = vs ↔ vs.length ≤ 1 ∧ ∀ v ∈ vs, ValidUtf8 v := by
  rw [sentValue, lookup_eq_some_of_mem hc.nodup hf]
  cases vs with
  | nil => simp
  | cons v vs =>
    cases vs with
    | nil => simp [ValidUtf8]
    | cons w vs => simp

/-- The length that a client announced is passed on. -/
theorem sentValue_contentLength (hr : Received authority r site t) {v : Bytes}
    (hf : (str "Content-Length", [v]) ∈ r.request.header) :
    sentValue r.request.header (str "Content-Length") = [v] := by
  obtain ⟨w, n, hw, hn, -⟩ := hr.length [v] hf
  obtain rfl := (List.cons.inj hw).1
  apply (sentValue_eq_iff hr.header hf).mpr
  refine ⟨le_rfl, ?_⟩
  rintro x hx
  obtain rfl := List.mem_singleton.mp hx
  exact validUtf8_of_ascii fun b hb =>
    (isFieldByte_of_isDigit (digits_of_parseLength hn b hb)).2.2

theorem addedLength_of_announced (hr : Received authority r site t) {v : Bytes}
    (hf : (str "Content-Length", [v]) ∈ r.request.header) (body : Bytes) :
    addedLength r.request.header body = [] := by
  apply if_neg
  rw [sentValue_contentLength hr hf]
  exact fun h => List.cons_ne_nil _ _ h.2

/-- Nothing is added under a name of the client. -/
theorem rawHead_values_client (hr : Received authority r site t)
    (ho : order ~ (headersToMap r.request.header).wire) (method t' body : Bytes) {name : Bytes}
    (hhost : canonicalHeaderKey name ≠ str "Host")
    (hlength : canonicalHeaderKey name = str "Content-Length" →
      (r.request.header.values name).isSome) :
    (rawHead method t' body addr order).values name =
      sentValue r.request.header (canonicalHeaderKey name) := by
  rw [rawHead_values method t' body addr hr.header ho, if_neg hhost]
  by_cases hk : canonicalHeaderKey name = str "Content-Length"
  · obtain ⟨vs, hvs⟩ := Option.isSome_iff_exists.mp (hlength hk)
    rw [Header.values, hk] at hvs
    obtain ⟨v, n, rfl, -⟩ := hr.length vs (mem_of_lookup hvs)
    rw [if_pos hk, addedLength_of_announced hr (mem_of_lookup hvs), List.append_nil, hk]
  · rw [if_neg hk]

theorem headersKept_iff (hr : Received authority r site t)
    (ho : order ~ (headersToMap r.request.header).wire) (method t' body : Bytes) :
    HeadersKept r.request.header (rawHead method t' body addr order) ↔
      SingleValued (· = str "Host") r.request.header := by
  constructor
  · intro h k vs hf hk
    have hname : canonicalHeaderKey k = k := hr.header.canonical _ hf
    have hvalues : r.request.header.values k = some vs := by
      rw [Header.values, hname]
      exact lookup_eq_some_of_mem hr.header.nodup hf
    have hsome : canonicalHeaderKey k = str "Content-Length" →
        (r.request.header.values k).isSome := by
      rw [hvalues]
      exact fun _ => rfl
    have hhost : canonicalHeaderKey k ≠ str "Host" := fun he => hk (hname.symm.trans he)
    have hkept := h k hhost hsome
    rw [rawHead_values_client hr ho method t' body hhost hsome, hvalues, hname] at hkept
    exact (sentValue_eq_iff hr.header hf).mp hkept
  · intro h name hk hlength
    rw [rawHead_values_client hr ho method t' body hk hlength, Header.values]
    cases hl : List.lookup (canonicalHeaderKey name) r.request.header with
    | none => rw [sentValue, hl, Option.getD_none]
    | some vs =>
      have hf := mem_of_lookup hl
      exact (sentValue_eq_iff hr.header hf).mpr (h _ _ hf hk)

/-- What is announced if the client announced it, and if it did not. -/
theorem contentLength_of_announced (hr : Received authority r site t)
    (ho : order ~ (headersToMap r.request.header).wire) (method t' body : Bytes) {v : Bytes}
    (hf : (str "Content-Length", [v]) ∈ r.request.header) :
    (rawHead method t' body addr order).contentLength = parseLength v := by
  unfold Head.contentLength
  rw [rawHead_values method t' body addr hr.header ho, isName_contentLength.canonical,
    if_neg (by decide), if_pos rfl, addedLength_of_announced hr hf, sentValue_contentLength hr hf]
  rfl

theorem contentLength_of_unannounced (hr : Received authority r site t)
    (ho : order ~ (headersToMap r.request.header).wire) (method t' body : Bytes)
    (hf : List.lookup (str "Content-Length") r.request.header = none) :
    (rawHead method t' body addr order).contentLength = some body.length := by
  have hsent : sentValue r.request.header (str "Content-Length") = [] := by
    rw [sentValue, hf]
  unfold Head.contentLength
  rw [rawHead_values method t' body addr hr.header ho, isName_contentLength.canonical,
    if_neg (by decide), if_pos rfl, hsent, List.nil_append, addedLength, hsent]
  by_cases hb : body = []
  · rw [if_neg fun h => h.1 hb, hb]
    rfl
  · rw [if_pos ⟨hb, rfl⟩]
    exact parseLength_toString _

/-- The announced length is the one of the body exactly if that was not changed on the way. -/
theorem contentLength_iff (hr : Received authority r site t)
    (ho : order ~ (headersToMap r.request.header).wire) (method t' : Bytes) :
    (rawHead method t' (openedBody r) addr order).contentLength = some (openedBody r).length ↔
      LengthKept r := by
  cases hl : List.lookup (str "Content-Length") r.request.header with
  | none =>
    apply iff_of_true (contentLength_of_unannounced hr ho _ _ _ hl)
    intro v hf
    rw [lookup_eq_some_of_mem hr.header.nodup hf] at hl
    cases hl
  | some vs =>
    have hf := mem_of_lookup hl
    obtain ⟨v, n, rfl, hn, hbody⟩ := hr.length vs hf
    have honly : LengthKept r ↔ match r.body with
        | none => parseLength v = some 0
        | some data => isText (r.request.header.get (str "Content-Type")) = true →
          ValidUtf8 data := by
      constructor
      · exact fun h => h v hf
      · intro h w hw
        have hvw := (lookup_eq_some_of_mem hr.header.nodup hw).symm.trans hl
        obtain rfl := (List.cons.inj (Option.some.inj hvw)).1
        exact h
    rw [contentLength_of_announced hr ho _ _ _ hf, honly]
    unfold openedBody
    cases hb : r.body with
    | none => simp
    | some data =>
      have hlen := hbody data hb
      simp only [hn, Option.some.injEq]
      cases isText (r.request.header.get (str "Content-Type")) with
      | true =>
        simp only [if_true, forall_const]
        rw [← (length_sanitize data).2, hlen, eq_comm]
      | false => simp [hlen]

/-- A raw request with the target `t'` is read as one of the client exactly if that is its target,
and its header and its length are kept. -/
theorem framed_iff (hr : Received authority r site t)
    (ho : order ~ (headersToMap r.request.header).wire) (haddr : Dialled addr) {t' : Bytes}
    (hblank : chr ' ' ∉ t') (hnewline : 0x0A ∉ t') :
    Framed r t addr ((rawHead r.request.method t' (openedBody r) addr order).render ++
        openedBody r) ↔
      t' = t ∧ SingleValued (· = str "Host") r.request.header ∧ LengthKept r := by
  have hparse := parseHead_render (h := rawHead r.request.method t' (openedBody r) addr order)
    hr.method hblank hnewline (plainField_rawFields hr ho haddr _) (openedBody r)
  have hhost : (rawHead r.request.method t' (openedBody r) addr order).values (str "Host") =
      [addr] := by
    rw [rawHead_values _ _ _ _ hr.header ho, isName_host.canonical, if_pos rfl]
  constructor
  · rintro ⟨head, body, hread, -, htarget, hkept, -, hlength⟩
    obtain ⟨rfl, rfl⟩ := Prod.mk.inj (Option.some.inj (hread.symm.trans hparse))
    exact ⟨htarget, (headersKept_iff hr ho _ _ _).mp hkept, (contentLength_iff hr ho _ _).mp hlength⟩
  · rintro ⟨rfl, hsingle, hlength⟩
    exact ⟨_, _, hparse, rfl, rfl, (headersKept_iff hr ho _ _ _).mpr hsingle, hhost,
      (contentLength_iff hr ho _ _).mpr hlength⟩

/-- Whatever target is written, it has no byte at which a request line is cut. -/
theorem notMem_rawTarget {p : Bytes} {o : Option Bytes} {base t' : Bytes}
    (hp : chr '?' ∉ chr '/' :: p) (hr : Received authority r site (chr '/' :: p ++ queryText o))
    (ht : rawTarget (settings authority base) (sanitize r.url) = some t') :
    chr ' ' ∉ t' ∧ 0x0A ∉ t' := by
  obtain ⟨u, hu, hurl⟩ := hr.url
  obtain ⟨p', o', f, hsent⟩ := exists_sent hp hu
  rw [hurl, sanitize_append_of_ascii hr.ascii] at ht
  obtain ⟨e, hve, rfl⟩ := hsent.of_rawTarget hr.origin ht
  rw [Url.parseRequestURI, Url.parseRest_slash hp o (.inl rfl), Url.complete] at hu
  split_ifs at hu with hw
  rw [Url.wellFormed, Bool.and_eq_true, Bool.not_eq_true', List.any_eq_false] at hw
  have hnewline : 0x0A ∉ chr '/' :: p ++ queryText o := fun hm =>
    absurd (by decide : isControl 0x0A = true) (hw.1 _ hm)
  have hkeep : ∀ {c : UInt8}, c < 0x80 → isPathByte c = false →
      c ∉ chr '/' :: p ++ queryText o → c ∉ e ++ queryText o' := by
    intro c hc hpath hnot hm
    rcases List.mem_append.mp hm with hm | hm
    · exact notMem_of_validEncoded hve hpath hm
    · exact hnot (List.mem_append_right _ (hsent.ascii c hc hm))
  exact ⟨hkeep (by decide) (by decide) hr.target, hkeep (by decide) (by decide) hnewline⟩

/-- The target of a stream is kept if its path is in a valid encoding and its query is carried as it
is. Without an origin in front the path may not begin with two slashes. -/
def TargetKept (site p : Bytes) (o : Option Bytes) : Prop :=
  validEncoded p = true ∧ (site = [] → twoSlashes p = false) ∧ QueryKept o

theorem targetKept_iff {p : Bytes} {o : Option Bytes} {base : Bytes} (hp : chr '?' ∉ chr '/' :: p)
    (hr : Received authority r site (chr '/' :: p ++ queryText o)) :
    rawTarget (settings authority base) (sanitize r.url) = some (chr '/' :: p ++ queryText o) ↔
      TargetKept site (chr '/' :: p) o := by
  obtain ⟨u, hu, hurl⟩ := hr.url
  rw [hurl, sanitize_append_of_ascii hr.ascii, TargetKept]
  rcases hr.origin with rfl | ⟨⟨hs⟩⟩
  · rw [List.nil_append, relay_raw_iff hp hu]
    simp
  · have hne : site ≠ [] := by
      rintro rfl
      obtain ⟨c, s, hnil, -⟩ := hs.exists_cons
      cases hnil
    rw [site_raw_iff hs hp hu]
    simp [hne]

/-- The request with which a stream is opened reads as the one request of the client, in whatever
order its header is written, exactly if its target is kept, its header has single values in valid
UTF-8, and no length was announced for a body that could not be read or is changed on the way. -/
theorem stream_framed_iff (authority : Bytes → Option Bytes) (base id : Bytes) {site p addr : Bytes}
    {o : Option Bytes} {r : Relay.ClientRequest} (hp : chr '?' ∉ chr '/' :: p)
    (hr : Received authority r site (chr '/' :: p ++ queryText o)) (haddr : Dialled addr) :
    (∀ order, order ~ (Relay.tunnelRequest id r).wire.headers →
      ∃ body raw, Sidecar.openBody (Relay.tunnelRequest id r).wire = some body ∧
        Sidecar.Go.buildRawRequest (settings authority base) (Relay.tunnelRequest id r).wire.method
          (Relay.tunnelRequest id r).wire.url order body addr = .ok raw ∧
        Framed r (chr '/' :: p ++ queryText o) addr raw) ↔
      TargetKept site (chr '/' :: p) o ∧ SingleValued (· = str "Host") r.request.header ∧
        LengthKept r := by
  have hmethod : (Relay.tunnelRequest id r).wire.method = r.request.method := by
    have htoken := hr.method
    rw [isToken, Bool.and_eq_true, List.all_eq_true] at htoken
    exact validUtf8_of_ascii fun b hb => isTokenByte_lt b (htoken.2 b hb)
  have hurl : (Relay.tunnelRequest id r).wire.url = sanitize r.url := rfl
  have htarget : rawTarget (settings authority base) (sanitize r.url) = _ ↔ _ :=
    targetKept_iff hp hr
  rw [← htarget, hmethod, hurl]
  constructor
  · intro h
    obtain ⟨body, raw, hbody, hraw, hframed⟩ := h _ (List.Perm.refl _)
    obtain rfl := Option.some.inj ((openBody_wire id r).symm.trans hbody)
    obtain ⟨t', ht', rfl⟩ := buildRawRequest_eq_ok.mp hraw
    obtain ⟨hblank, hnewline⟩ := notMem_rawTarget hp hr ht'
    obtain ⟨rfl, hkept⟩ := (framed_iff hr (List.Perm.refl _) haddr hblank hnewline).mp hframed
    exact ⟨ht', hkept⟩
  · rintro ⟨ht, hkept⟩ order ho
    obtain ⟨hblank, hnewline⟩ := notMem_rawTarget hp hr ht
    refine ⟨openedBody r, _, openBody_wire id r, buildRawRequest_eq_ok.mpr ⟨_, ht, rfl⟩, ?_⟩
    exact (framed_iff hr ho haddr hblank hnewline).mpr ⟨rfl, hkept⟩

end Framed

/-- A client that opens a stream and announces a text of one byte. -/
def openHeader : Header :=
  [(str "Connection", [str "Upgrade"]), (str "Upgrade", [str "tailscale-control-protocol"]),
    (str "Content-Type", [str "text/plain"]), (str "Content-Length", [str "1"])]

def openRequest (body : Option Bytes) : Relay.ClientRequest where
  request := { method := str "POST", host := str "relay.example.net", remoteAddr := [], tls := true,
               header := openHeader }
  url := str "/ts2021"
  body := body

theorem openHeader_canonical : openHeader.Canonical :=
  ⟨by decide, by decide +kernel, by decide +kernel⟩

theorem openHeader_length : (str "Content-Length", [str "1"]) ∈ openHeader := by decide

theorem received_openRequest {body : Option Bytes} (hb : ∀ data ∈ body, data.length = 1) :
    Received hostOnly (openRequest body) [] (str "/ts2021") where
  method := (by decide : isToken (str "POST") = true)
  target := by decide
  origin := .inl rfl
  ascii := by simp
  url := by
    have htext : str "/ts2021" = [] ++ Url.string { path := str "/ts2021" } := by decide +kernel
    exact ⟨{ path := str "/ts2021" }, by decide +kernel, htext⟩
  header := openHeader_canonical
  name := (by decide : ∀ f ∈ openHeader, f.1 ≠ [])
  value := (by decide +kernel : ∀ f ∈ openHeader, ∀ v ∈ f.2, (∀ b ∈ v, isFieldByte b = true) ∧
    (∀ b ∈ v.head?, isBlank b = false) ∧ ∀ b ∈ v.getLast?, isBlank b = false)
  length vs hf := by
    have hvs := (lookup_eq_some_of_mem openHeader_canonical.nodup hf).symm.trans
      (lookup_eq_some_of_mem openHeader_canonical.nodup openHeader_length)
    exact ⟨str "1", 1, Option.some.inj hvs, by decide, hb⟩

theorem dialled_headscale : Dialled (str "headscale:8080") := by
  unfold Dialled
  decide +kernel

theorem stream_framed_iff_plain :
    let r := openRequest (some (str "a"))
    let o := (Relay.tunnelRequest (str "1") r).wire
    ∀ order, order ~ o.headers → ∃ body raw, Sidecar.openBody o = some body ∧
      Sidecar.Go.buildRawRequest (settings hostOnly (str "http://headscale:8080")) o.method o.url
        order body (str "headscale:8080") = .ok raw ∧
      Framed r (str "/ts2021") (str "headscale:8080") raw := by
  have hr : Received hostOnly (openRequest (some (str "a"))) [] (str "/ts2021") :=
    received_openRequest (by decide)
  apply (stream_framed_iff hostOnly (str "http://headscale:8080") (str "1") (p := str "ts2021")
    (o := none) (by decide) hr dialled_headscale).mpr
  refine ⟨⟨by decide, by decide, by simp [QueryKept]⟩, ?_, ?_⟩
  · intro k vs hf _
    have hall : ∀ f ∈ openHeader, f.2.length ≤ 1 ∧ ∀ v ∈ f.2, ValidUtf8 v := by decide +kernel
    exact hall (k, vs) hf
  · intro v _ _
    exact validUtf8_of_ascii (by decide +kernel)

/-- The request announces one byte and is followed by `n`. -/
def Misframed (body : Option Bytes) (n : ℕ) : Prop :=
  let o := (Relay.tunnelRequest (str "1") (openRequest body)).wire
  Received hostOnly (openRequest body) [] (str "/ts2021") ∧
    ∃ sent raw head, Sidecar.openBody o = some sent ∧
      Sidecar.Go.buildRawRequest (settings hostOnly (str "http://headscale:8080")) o.method o.url
        o.headers sent (str "headscale:8080") = .ok raw ∧
      parseHead raw = some (head, sent) ∧ head.contentLength = some 1 ∧ sent.length = n ∧
      ¬ Framed (openRequest body) (str "/ts2021") (str "headscale:8080") raw

theorem misframed_of_length {body : Option Bytes} (hb : ∀ data ∈ body, data.length = 1) {n : ℕ}
    (hlen : (openedBody (openRequest body)).length = n) (hne : n ≠ 1) : Misframed body n := by
  have hr := received_openRequest hb
  have ht : rawTarget (settings hostOnly (str "http://headscale:8080")) (sanitize (str "/ts2021")) =
      some (str "/ts2021") := by decide +kernel
  have hparse := parseHead_render (h := rawHead (str "POST") (str "/ts2021")
    (openedBody (openRequest body)) (str "headscale:8080") (headersToMap openHeader).wire) hr.method
    (by decide : chr ' ' ∉ str "/ts2021") (by decide : 0x0A ∉ str "/ts2021")
    (plainField_rawFields hr (List.Perm.refl _) dialled_headscale _) (openedBody (openRequest body))
  have hlength : (rawHead (str "POST") (str "/ts2021") (openedBody (openRequest body))
      (str "headscale:8080") (headersToMap openHeader).wire).contentLength = some 1 :=
    contentLength_of_announced hr (List.Perm.refl _) _ _ _ openHeader_length
  refine ⟨hr, openedBody (openRequest body), _, _, openBody_wire _ _,
    buildRawRequest_eq_ok.mpr ⟨_, ht, rfl⟩, hparse, hlength, hlen, ?_⟩
  rintro ⟨head, sent, hread, -, -, -, -, hannounced⟩
  obtain ⟨rfl, rfl⟩ := Prod.mk.inj (Option.some.inj (hread.symm.trans hparse))
  exact hne (hlen.symm.trans (Option.some.inj (hannounced.symm.trans hlength)))

/-- A byte that is not valid UTF-8 becomes three, two of which are read as stream data; a body that
could not be read leaves the length it announced, and stream data is read in its place. -/
theorem announced_length_differs : Misframed (some [0xE9]) 3 ∧ Misframed none 0 := by
  constructor
  · exact misframed_of_length (by decide) (by decide +kernel) (by decide)
  · exact misframed_of_length (by simp) rfl (by decide)

end HeadFwd.EndToEnd
