import HeadFwd.Net.Response
import HeadFwd.Text.Search
import HeadFwd.Text.Utf8
import HeadFwd.Transition.Table
import Mathlib.Algebra.Group.Int.Defs
import Mathlib.Data.FinEnum
import Mathlib.Data.Option.Basic
import Mathlib.Tactic.Common

/-! # The portal proxy of the app

The proxy reads one request from a connection, sends it over the tailnet and writes
the response back. Reading stops with the chunk in which the body is long enough,
and whatever that chunk holds goes along. The fields of the response are copied, and
the length of the data is added to the length that they may announce.
-/

namespace HeadFwd.Ios

open Text Net Transition

/-- What the proxy takes from Foundation: whether a URL parses, the text of a status, and lower
case. A text of a status is one line. -/
structure ProxyFoundation where
  url : Bytes → Bool
  localizedString : ℕ → Bytes
  lowercased : Bytes → Bytes
  newline_notMem : ∀ n, 0x0A ∉ localizedString n
  lowercased_ascii : ∀ s, (∀ b ∈ s, b < 0x80) → lowercased s = toLower s

/-- The chunks that a connection delivers. After the last one it is closed, or a receive fails. -/
structure Connection where
  chunks : List Bytes
  closed : Bool
  deriving DecidableEq, Repr

structure URLRequest where
  url : Bytes
  timeoutInterval : ℕ
  httpMethod : Bytes
  headers : Table Bytes Bytes
  httpBody : Option Bytes

/-- A response as `URLSession` delivers it: a status of three digits and fields that are legal. -/
structure HTTPURLResponse where
  statusCode : ℕ
  allHeaderFields : List (Bytes × Bytes)
  status_lo : 100 ≤ statusCode
  status_hi : statusCode < 1000
  plain : ∀ f ∈ allHeaderFields, PlainField f

/-- The tab and the encodings of the space characters. -/
def whitespaces : List Bytes :=
  [[0x09], [0x20], [0xC2, 0xA0], [0xE1, 0x9A, 0x80],
    [0xE2, 0x80, 0x80], [0xE2, 0x80, 0x81], [0xE2, 0x80, 0x82], [0xE2, 0x80, 0x83],
    [0xE2, 0x80, 0x84], [0xE2, 0x80, 0x85], [0xE2, 0x80, 0x86], [0xE2, 0x80, 0x87],
    [0xE2, 0x80, 0x88], [0xE2, 0x80, 0x89], [0xE2, 0x80, 0x8A], [0xE2, 0x80, 0xAF],
    [0xE2, 0x81, 0x9F], [0xE3, 0x80, 0x80]]

/-- `Int` of a text: digits after at most one sign, in 64 bits. -/
def int (s : Bytes) : Option ℤ :=
  let n : Option ℤ := match s with
    | [] => none
    | b :: digits =>
      if b = chr '-' then (parseLength digits).map fun k : ℕ => -(k : ℤ)
      else if b = chr '+' then (parseLength digits).map fun k : ℕ => (k : ℤ)
      else (parseLength s).map fun k : ℕ => (k : ℤ)
  n.filter fun n => -2 ^ 63 ≤ n ∧ n < 2 ^ 63

/-- The bytes up to the chunk that completes the head, and the chunks after it. -/
def readHead (buf : Bytes) : List Bytes → Option (Bytes × List Bytes)
  | [] => if (rangeOf crlf2 buf).isSome then some (buf, []) else none
  | chunk :: chunks =>
    if (rangeOf crlf2 buf).isSome then some (buf, chunk :: chunks)
    else if chunk = [] then none
    else if 1048576 < (buf ++ chunk).length then none
    else readHead (buf ++ chunk) chunks

/-- The body with the chunks up to the one that makes it long enough; `none` when a receive fails
before. -/
def readBody (closed : Bool) (contentLen : ℤ) (body : Bytes) : List Bytes → Option Bytes
  | [] => if (body.length : ℤ) < contentLen ∧ closed = false then none else some body
  | chunk :: chunks =>
    if (body.length : ℤ) < contentLen then
      if chunk = [] then some body else readBody closed contentLen (body ++ chunk) chunks
    else some body

section Forward

variable (F : ProxyFoundation) (targetBase : Bytes)

/-- One line of the head: the field it sets, and the length of the body. -/
def readField (acc : Table Bytes Bytes × ℤ) (line : Bytes) : Table Bytes Bytes × ℤ :=
  match cut (chr ':') line with
  | none => acc
  | some (name, value) =>
    let k := F.lowercased (trimming whitespaces name)
    let v := trimming whitespaces value
    (acc.1.set k v, if k = str "content-length" then (int v).getD acc.2 else acc.2)

/-- The method, the path, the fields and the length of the body. -/
def readSection (headerSection : Bytes) : Option (Bytes × Bytes × Table Bytes Bytes × ℤ) :=
  if ValidUtf8 headerSection then
    match splitCrlf headerSection with
    | [] => none
    | reqLine :: lines =>
      match splitByte (chr ' ') reqLine with
      | method :: path :: _ => some (method, path, lines.foldl (readField F) (Table.empty, 0))
      | _ => none
  else none

def skip : List Bytes :=
  [str "host", str "connection", str "keep-alive", str "proxy-connection",
    str "transfer-encoding", str "upgrade"]

def base : Bytes :=
  if targetBase.getLast? = some (chr '/') then targetBase.dropLast else targetBase

/-- The request that is sent upstream. -/
def request (conn : Connection) : Option URLRequest := do
  let (buf, chunks) ← readHead [] conn.chunks
  let sep ← rangeOf crlf2 buf
  let (method, path, hdrs, contentLen) ← readSection F (buf.take sep)
  let body ← readBody conn.closed contentLen (buf.drop (sep + crlf2.length)) chunks
  let url := base targetBase ++ path
  if F.url url then
    return {
      url
      timeoutInterval := 30
      httpMethod := method
      headers := fun k => if k ∈ skip then none else hdrs k
      httpBody := if 0 < contentLen then some body else none }
  else none

/-- The fields of a response that are copied. -/
def copied (http : HTTPURLResponse) : List (Bytes × Bytes) :=
  http.allHeaderFields.filter fun f =>
    !(F.lowercased f.1 = str "transfer-encoding" || F.lowercased f.1 = str "connection")

/-- The bytes of a response to the client. -/
def response (http : HTTPURLResponse) (data : Bytes) : Bytes :=
  str "HTTP/1.1 " ++ str (toString http.statusCode) ++ str " " ++
    F.localizedString http.statusCode ++ str "\r\n" ++ (copied F http).flatMap fieldLine ++
    str "Content-Length: " ++ str (toString data.length) ++ str "\r\nConnection: close\r\n\r\n" ++
    data

/-- What becomes of a request: it is sent upstream, or not, and a response is written, or not. -/
structure Forwarded where
  sent : Option URLRequest
  written : Option Bytes

/-- One connection, with what the session delivers if the request is sent; `none` is an error or no
response of HTTP. -/
def forward (session : Option (HTTPURLResponse × Bytes)) (conn : Connection) : Forwarded where
  sent := request F targetBase conn
  written := do
    let _ ← request F targetBase conn
    let (http, data) ← session
    return response F http data

end Forward

/-! ## Requests and responses as HTTP reads them -/

/-- The lengths that fields announce for a body. -/
def contentLengths (fields : List Bytes) : List (Option ℕ) :=
  (fieldValues (fields.filterMap parseField) (str "Content-Length")).map parseLength

/-- A request line, lines of fields, and a body that is as long as they announce. -/
structure ClientRequest where
  line : Bytes
  fields : List Bytes
  body : Bytes
  lines : Lines (line :: fields)
  requestLine : (parseRequestLine line).isSome
  readable : ∀ f ∈ fields, (parseField f).isSome
  announced : contentLengths fields ≠ []
  delimited : ∀ n ∈ contentLengths fields, n = some body.length
  sized : body.length < 2 ^ 63

namespace ClientRequest

variable (q : ClientRequest)

def target : Bytes := ((parseRequestLine q.line).map Prod.snd).getD []

def head : Bytes := crlf.intercalate (q.line :: q.fields)

def bytes : Bytes := q.head ++ crlf2 ++ q.body

/-- A connection that delivers the request and possibly more. No chunk is empty. -/
structure Delivery where
  conn : Connection
  nonempty : ∀ chunk ∈ conn.chunks, chunk ≠ []
  delivered : q.bytes <+: conn.chunks.flatten

/-- What a request needs to be sent on: a head of UTF-8 that has arrived before a megabyte has, and
a URL. -/
structure Accepted (F : ProxyFoundation) (targetBase : Bytes) (conn : Connection) : Prop where
  utf8 : ValidUtf8 q.head
  url : F.url (base targetBase ++ q.target) = true
  fits : ∃ front back, conn.chunks = front ++ back ∧
    (q.head ++ crlf2).length ≤ front.flatten.length ∧ front.flatten.length ≤ 1048576

/-- There is no body, or a chunk ends where the request does. -/
def Aligned (conn : Connection) : Prop :=
  q.body = [] ∨ ∃ front back, conn.chunks = front ++ back ∧ front.flatten = q.bytes

end ClientRequest

/-- The content codings that fields name. -/
def contentCodings (fields : List (Bytes × Bytes)) : List Bytes :=
  (fieldValues fields (str "Content-Encoding")).flatMap fun v =>
    ((splitByte (chr ',') v).map trimBlanks).filter (· ≠ [])

/-- The bytes are one response with these data, which are not encoded, and the only length it
announces is theirs. -/
structure Framed (data out : Bytes) : Prop where
  parsed : ∃ head, parseResponseHead out = some (head, data) ∧
    fieldValues head.fields (str "Transfer-Encoding") = [] ∧
    (∃ v, fieldValues head.fields (str "Content-Length") = [v] ∧
      parseLength v = some data.length) ∧
    ∀ c ∈ contentCodings head.fields, toLower c = str "identity"

/-- The server announces no length and no coding. -/
structure HTTPURLResponse.Bare (http : HTTPURLResponse) : Prop where
  length : fieldValues http.allHeaderFields (str "Content-Length") = []
  coding : ∀ c ∈ contentCodings http.allHeaderFields, toLower c = str "identity"

/-- The body goes upstream as the client sent it, and what is written frames the data. -/
structure Faithful (q : ClientRequest) (session : Option (HTTPURLResponse × Bytes))
    (x : Forwarded) : Prop where
  body : ∀ req, x.sent = some req → req.httpBody.getD [] = q.body
  framed : ∀ out, x.written = some out → ∃ http data, session = some (http, data) ∧
    Framed data out

section Reading

variable {buf b : Bytes} {chunks front back rest : List Bytes} {n : ℕ} {closed : Bool}

/-- A head that is found consists of the first chunks. -/
theorem readHead_some (h : readHead buf chunks = some (b, rest)) :
    (rangeOf crlf2 b).isSome ∧ ∃ front, chunks = front ++ rest ∧ b = buf ++ front.flatten := by
  induction chunks generalizing buf with
  | nil =>
    rw [readHead] at h
    split_ifs at h with hfound
    cases h
    exact ⟨hfound, [], rfl, by simp⟩
  | cons chunk chunks ih =>
    rw [readHead] at h
    split_ifs at h with hfound hempty hlong
    · cases h
      exact ⟨hfound, [], rfl, by simp⟩
    · obtain ⟨hb, front, rfl, rfl⟩ := ih h
      exact ⟨hb, chunk :: front, rfl, by simp⟩

/-- Reading the head stops inside any chunks that hold it. -/
theorem readHead_front (h : readHead buf (front ++ back) = some (b, rest))
    (hfound : (rangeOf crlf2 (buf ++ front.flatten)).isSome) :
    ∃ front', rest = front' ++ back ∧ b ++ front'.flatten = buf ++ front.flatten := by
  induction front generalizing buf with
  | nil =>
    rw [List.flatten_nil, List.append_nil] at hfound
    have hstop : readHead buf back = some (buf, back) := by
      cases back with
      | nil => rw [readHead, if_pos hfound]
      | cons chunk back => rw [readHead, if_pos hfound]
    obtain ⟨rfl, rfl⟩ := Prod.mk.inj (Option.some.inj (hstop.symm.trans h))
    exact ⟨[], rfl, by simp⟩
  | cons chunk front ih =>
    rw [List.cons_append, readHead] at h
    split_ifs at h with hhere hempty hlong
    · cases h
      exact ⟨chunk :: front, rfl, by simp⟩
    · obtain ⟨front', hrest, hb⟩ := ih h (by simpa using hfound)
      exact ⟨front', hrest, by simpa using hb⟩

/-- A head is read when the chunks that hold it do not exceed the megabyte. -/
theorem readHead_isSome_iff (hchunks : ∀ chunk ∈ chunks, chunk ≠ [])
    (hfound : ∀ front back, chunks = front ++ back →
      ((rangeOf crlf2 (buf ++ front.flatten)).isSome ↔ n ≤ (buf ++ front.flatten).length))
    (hbuf : buf.length ≤ 1048576) :
    (readHead buf chunks).isSome ↔ ∃ front back, chunks = front ++ back ∧
      n ≤ (buf ++ front.flatten).length ∧ (buf ++ front.flatten).length ≤ 1048576 := by
  have hhere := hfound [] chunks rfl
  rw [List.flatten_nil, List.append_nil] at hhere
  induction chunks generalizing buf with
  | nil =>
    rw [readHead]
    constructor
    · intro h
      split_ifs at h with hf
      · exact ⟨[], [], rfl, by simpa using hhere.mp hf, by simpa using hbuf⟩
      · cases h
    · rintro ⟨front, back, hsplit, hn, -⟩
      obtain ⟨rfl, rfl⟩ := List.append_eq_nil_iff.mp hsplit.symm
      rw [if_pos (hhere.mpr (by simpa using hn))]
      rfl
  | cons chunk chunks ih =>
    rw [readHead]
    by_cases hf : (rangeOf crlf2 buf).isSome
    · rw [if_pos hf]
      exact iff_of_true rfl ⟨[], chunk :: chunks, rfl, by simpa using hhere.mp hf,
        by simpa using hbuf⟩
    · rw [if_neg hf, if_neg (hchunks chunk List.mem_cons_self)]
      have hmore : ∀ front back, chunk :: chunks = front ++ back →
          n ≤ (buf ++ front.flatten).length →
          ∃ front', chunks = front' ++ back ∧ front = chunk :: front' := by
        intro front back hsplit hn
        cases front with
        | nil => exact absurd (hhere.mpr (by simpa using hn)) hf
        | cons c front =>
          obtain ⟨rfl, rfl⟩ := List.cons.inj hsplit
          exact ⟨front, rfl, rfl⟩
      by_cases hlong : 1048576 < (buf ++ chunk).length
      · rw [if_pos hlong]
        apply iff_of_false (by simp)
        rintro ⟨front, back, hsplit, hn, hlimit⟩
        obtain ⟨front, -, rfl⟩ := hmore front back hsplit hn
        simp only [List.flatten_cons, List.length_append] at hlong hlimit
        omega
      · have hnext : ∀ front back, chunks = front ++ back →
            ((rangeOf crlf2 (buf ++ chunk ++ front.flatten)).isSome ↔
              n ≤ (buf ++ chunk ++ front.flatten).length) := by
          rintro front back rfl
          have h := hfound (chunk :: front) back rfl
          rwa [List.flatten_cons, ← List.append_assoc] at h
        have hnow := hnext [] chunks rfl
        rw [List.flatten_nil, List.append_nil] at hnow
        have hrest := ih (fun c hc => hchunks c (List.mem_cons_of_mem chunk hc)) hnext
          (Nat.le_of_not_lt hlong) hnow
        rw [if_neg hlong]
        apply hrest.trans
        constructor
        · rintro ⟨front, back, rfl, hn, hlimit⟩
          exact ⟨chunk :: front, back, rfl, by simpa using hn, by simpa using hlimit⟩
        · rintro ⟨front, back, hsplit, hn, hlimit⟩
          obtain ⟨front, rfl, rfl⟩ := hmore front back hsplit hn
          exact ⟨front, back, rfl, by simpa using hn, by simpa using hlimit⟩

/-- A body that arrives is read with the chunk in which it ends. -/
theorem readBody_some (hchunks : ∀ chunk ∈ chunks, chunk ≠ [])
    (hn : n ≤ (buf ++ chunks.flatten).length) :
    ∃ front back, chunks = front ++ back ∧ n ≤ (buf ++ front.flatten).length ∧
      readBody closed n buf chunks = some (buf ++ front.flatten) := by
  induction chunks generalizing buf with
  | nil =>
    have hlen : ¬ (buf.length : ℤ) < n := by
      simp only [List.flatten_nil, List.append_nil] at hn
      omega
    exact ⟨[], [], rfl, hn, by simp [readBody, hlen]⟩
  | cons chunk chunks ih =>
    by_cases hlen : (buf.length : ℤ) < n
    · obtain ⟨front, back, rfl, hle, h⟩ :=
        @ih (buf ++ chunk) (fun c hc => hchunks c (List.mem_cons_of_mem chunk hc)) (by simpa using hn)
      refine ⟨chunk :: front, back, rfl, by simpa using hle, ?_⟩
      rw [readBody, if_pos hlen, if_neg (hchunks chunk List.mem_cons_self), h]
      simp
    · refine ⟨[], chunk :: chunks, rfl, by simp; omega, ?_⟩
      rw [readBody, if_neg hlen]
      simp

/-- When a chunk ends where the body does, nothing else is read. -/
theorem readBody_front (hchunks : ∀ chunk ∈ front, chunk ≠ [])
    (hn : (buf ++ front.flatten).length = n) :
    readBody closed n buf (front ++ back) = some (buf ++ front.flatten) := by
  induction front generalizing buf with
  | nil =>
    have hlen : ¬ (buf.length : ℤ) < n := by
      simp only [List.flatten_nil, List.append_nil] at hn
      omega
    cases back with
    | nil => simp [readBody, hlen]
    | cons chunk back => simp [readBody, hlen]
  | cons chunk front ih =>
    simp only [List.mem_cons, forall_eq_or_imp] at hchunks
    have hlen : (buf.length : ℤ) < n := by
      have hpos := List.length_pos_iff.mpr hchunks.1
      simp only [List.flatten_cons, List.length_append] at hn
      omega
    rw [List.cons_append, readBody, if_pos hlen, if_neg hchunks.1,
      ih hchunks.2 (by simpa using hn)]
    simp

end Reading

/-! ## What the proxy reads from a request -/

theorem int_of_parseLength {v : Bytes} {n : ℕ} (h : parseLength v = some n) (hn : n < 2 ^ 63) :
    int v = some (n : ℤ) := by
  have hdigits := digits_of_parseLength h
  cases v with
  | nil => cases h
  | cons b v =>
    have hminus : b ≠ chr '-' := by
      rintro rfl
      exact absurd (hdigits _ List.mem_cons_self) (by decide)
    have hplus : b ≠ chr '+' := by
      rintro rfl
      exact absurd (hdigits _ List.mem_cons_self) (by decide)
    have hrange : -2 ^ 63 ≤ (n : ℤ) ∧ (n : ℤ) < 2 ^ 63 := by omega
    rw [int, if_neg hminus, if_neg hplus, h, Option.map_some, Option.filter_some]
    exact if_pos (decide_eq_true hrange)

theorem trimBlanks_split (s : Bytes) : ∃ front back, s = front ++ trimBlanks s ++ back ∧
    (∀ b ∈ front, isBlank b = true) ∧ ∀ b ∈ back, isBlank b = true := by
  have hfront := List.takeWhile_append_dropWhile (p := isBlank) (l := s)
  have hback := List.takeWhile_append_dropWhile (p := isBlank) (l := (s.dropWhile isBlank).reverse)
  have hback' := congrArg List.reverse hback
  rw [List.reverse_append, List.reverse_reverse] at hback'
  refine ⟨s.takeWhile isBlank, ((s.dropWhile isBlank).reverse.takeWhile isBlank).reverse, ?_, ?_, ?_⟩
  · rw [trimBlanks, List.append_assoc, hback', hfront]
  · exact fun b hb => List.mem_takeWhile_imp hb
  · exact fun b hb => List.mem_takeWhile_imp (List.mem_reverse.mp hb)

/-- Digits between blanks are trimmed as HTTP trims them. -/
theorem trimming_whitespaces {value : Bytes} {n : ℕ} (h : parseLength (trimBlanks value) = some n) :
    trimming whitespaces value = trimBlanks value := by
  obtain ⟨front, back, hsplit, hfront, hback⟩ := trimBlanks_split value
  have hdigits := digits_of_parseLength h
  have hne : trimBlanks value ≠ [] := by
    intro hnil
    rw [hnil] at h
    cases h
  have hsp : ∀ p ∈ whitespaces, ∀ b ∈ p, isDigit b = false := by decide +kernel
  have hblank : ∀ b, isBlank b = true → ∀ t,
      whitespaces.find? (fun p => p.isPrefixOf (b :: t)) = some [b] ∧
        (whitespaces.map List.reverse).find? (fun p => p.isPrefixOf (b :: t)) = some [b] := by
    intro b hb t
    simp only [isBlank, Bool.or_eq_true, decide_eq_true_eq] at hb
    rcases hb with rfl | rfl <;> exact ⟨rfl, rfl⟩
  have hs : ∀ p ∈ whitespaces, ∀ b ∈ p, b ∉ trimBlanks value := by
    intro p hp b hb hm
    cases (hdigits b hm).symm.trans (hsp p hp b hb)
  rw [hsplit]
  apply (trimming_append (by decide) hs hne (fun b hb t => (hblank b (hfront b hb) t).1)
    (fun b hb t => (hblank b (hback b hb) t).2)).trans
  rw [← hsplit]

section Section

variable {F : ProxyFoundation} {fields : List Bytes} {n : ℕ}

theorem lowercased_token {name : Bytes} (h : isToken name = true) :
    F.lowercased (trimming whitespaces name) = toLower name := by
  rw [isToken, Bool.and_eq_true, List.all_eq_true] at h
  have hsp : ∀ p ∈ whitespaces, ∀ b ∈ p, isTokenByte b = false := by decide +kernel
  have hs : ∀ p ∈ whitespaces, ∀ b ∈ p, b ∉ name := by
    intro p hp b hb hm
    cases (h.2 b hm).symm.trans (hsp p hp b hb)
  rw [trimming_eq_self (by decide) hs (by simpa using h.1)]
  exact F.lowercased_ascii name fun b hb => isTokenByte_lt b (h.2 b hb)

/-- A line sets the length if its field has that name. -/
theorem readField_snd {line : Bytes} {f : Bytes × Bytes} (h : parseField line = some f)
    (acc : Table Bytes Bytes × ℤ) :
    (toLower f.1 = toLower (str "Content-Length") → parseLength f.2 = some n → n < 2 ^ 63 →
      (readField F acc line).2 = n) ∧
    (toLower f.1 ≠ toLower (str "Content-Length") → (readField F acc line).2 = acc.2) := by
  have hname : toLower (str "Content-Length") = str "content-length" := by decide
  unfold parseField at h
  split at h
  · cases h
  · rename_i name value hcut
    split_ifs at h with hv
    cases h
    rw [hname, readField, hcut]
    dsimp only
    rw [lowercased_token hv.1]
    constructor
    · intro hl hp hn
      rw [if_pos hl, trimming_whitespaces hp, int_of_parseLength hp hn]
      rfl
    · intro hl
      rw [if_neg hl]

theorem contentLengths_cons {line : Bytes} {f : Bytes × Bytes} (h : parseField line = some f) :
    contentLengths (line :: fields) =
      if toLower f.1 = toLower (str "Content-Length") then
        parseLength f.2 :: contentLengths fields
      else contentLengths fields := by
  simp only [contentLengths, fieldValues, List.filterMap_cons, h, List.filter_cons]
  split_ifs <;> simp_all

/-- All lines together set the length that they announce. -/
theorem foldl_readField (hr : ∀ line ∈ fields, (parseField line).isSome)
    (hl : ∀ m ∈ contentLengths fields, m = some n) (hn : n < 2 ^ 63)
    (acc : Table Bytes Bytes × ℤ) :
    (fields.foldl (readField F) acc).2 = if contentLengths fields = [] then acc.2 else n := by
  induction fields generalizing acc with
  | nil => rfl
  | cons line fields ih =>
    simp only [List.mem_cons, forall_eq_or_imp] at hr
    obtain ⟨f, hf⟩ := Option.isSome_iff_exists.mp hr.1
    obtain ⟨hset, hkeep⟩ := readField_snd (F := F) (n := n) hf acc
    rw [contentLengths_cons hf] at hl ⊢
    rw [List.foldl_cons]
    by_cases hname : toLower f.1 = toLower (str "Content-Length")
    · rw [if_pos hname] at hl
      simp only [List.mem_cons, forall_eq_or_imp] at hl
      rw [if_pos hname, if_neg (List.cons_ne_nil _ _), ih hr.2 hl.2, hset hname hl.1 hn, ite_self]
    · rw [if_neg hname] at hl
      rw [if_neg hname, ih hr.2 hl, hkeep hname]

/-- The head of a request is read as the client wrote it. -/
theorem ClientRequest.readSection_head (q : ClientRequest) (F : ProxyFoundation)
    (h : ValidUtf8 q.head) :
    ∃ method hdrs, readSection F q.head = some (method, q.target, hdrs, (q.body.length : ℤ)) := by
  have hsplit : splitCrlf q.head = q.line :: q.fields :=
    splitCrlf_intercalate q.lines (List.cons_ne_nil _ _)
  have hlength : (q.fields.foldl (readField F) (Table.empty, 0)).2 = q.body.length := by
    rw [foldl_readField q.readable q.delimited q.sized, if_neg q.announced]
  obtain ⟨⟨method, target⟩, hline⟩ := Option.isSome_iff_exists.mp q.requestLine
  have htarget : q.target = target := by rw [ClientRequest.target, hline]; rfl
  unfold parseRequestLine at hline
  split at hline
  · cases hline
  · rename_i m tail hcut
    split at hline
    · cases hline
    · rename_i t proto hcut'
      split_ifs at hline with hv
      cases hline
      obtain ⟨hone, hm⟩ := cut_eq_some hcut
      obtain ⟨rfl, ht⟩ := cut_eq_some hcut'
      refine ⟨method, (q.fields.foldl (readField F) (Table.empty, 0)).1, ?_⟩
      rw [readSection, if_pos h, hsplit]
      dsimp only
      rw [hone, splitByte_append hm, splitByte_append ht]
      dsimp only
      rw [← hlength, htarget]

end Section

namespace ClientRequest

variable {q : ClientRequest} {d : q.Delivery} {F : ProxyFoundation} {targetBase buf : Bytes}
  {front back rest : List Bytes}

/-- What has arrived holds the whole head exactly when it is long enough. -/
theorem rangeOf_delivered {p : Bytes} (h : p <+: d.conn.chunks.flatten) :
    rangeOf crlf2 p =
      if (q.head ++ crlf2).length ≤ p.length then some q.head.length else none := by
  obtain ⟨t, ht⟩ := h
  obtain ⟨u, hu⟩ := d.delivered
  have hstream : q.head ++ crlf2 ++ (q.body ++ u) = p ++ t := by
    rw [ht, ← hu, bytes, List.append_assoc _ q.body]
  have hhead : ∀ r, rangeOf crlf2 (q.head ++ crlf2 ++ r) = some q.head.length :=
    rangeOf_intercalate q.lines (List.cons_ne_nil _ _)
  split_ifs with hlen
  · obtain ⟨r, rfl⟩ := List.prefix_of_prefix_length_le ⟨_, hstream⟩ (List.prefix_append p t) hlen
    exact hhead r
  · rw [Option.eq_none_iff_forall_ne_some]
    intro i hi
    have hi' := rangeOf_append hi t
    rw [← hstream, hhead] at hi'
    cases hi'
    apply hlen
    rw [List.length_append]
    exact length_le_of_rangeOf hi

theorem prefix_flatten (h : d.conn.chunks = front ++ back) :
    front.flatten <+: d.conn.chunks.flatten := by
  rw [h, List.flatten_append]
  exact List.prefix_append _ _

theorem rangeOf_isSome_iff (h : d.conn.chunks = front ++ back) :
    (rangeOf crlf2 front.flatten).isSome ↔ (q.head ++ crlf2).length ≤ front.flatten.length := by
  rw [rangeOf_delivered (prefix_flatten h)]
  split_ifs with hlen
  · exact iff_of_true rfl hlen
  · exact iff_of_false (by simp) hlen

/-- When reading the head stops, the head is there and is found. -/
theorem readHead_head (h : readHead [] d.conn.chunks = some (buf, rest)) :
    ∃ r front, d.conn.chunks = front ++ rest ∧ buf = front.flatten ∧ buf = q.head ++ crlf2 ++ r ∧
      rangeOf crlf2 buf = some q.head.length := by
  obtain ⟨hfound, front, hsplit, hbuf⟩ := readHead_some h
  rw [List.nil_append] at hbuf
  have hpre : buf <+: d.conn.chunks.flatten := hbuf ▸ prefix_flatten hsplit
  have hlen : (q.head ++ crlf2).length ≤ buf.length := by
    rw [hbuf]
    apply (rangeOf_isSome_iff hsplit).mp
    rwa [← hbuf]
  have hrange : rangeOf crlf2 buf = some q.head.length := by rw [rangeOf_delivered hpre, if_pos hlen]
  obtain ⟨u, hu⟩ := d.delivered
  have hhead : q.head ++ crlf2 <+: buf := by
    apply List.prefix_of_prefix_length_le _ hpre hlen
    rw [← hu, bytes, List.append_assoc _ q.body]
    exact List.prefix_append _ _
  obtain ⟨r, hr⟩ := hhead
  exact ⟨r, front, hsplit, hbuf, hr.symm, hrange⟩

/-- The body that goes upstream, if any does, is what follows the head in the chunks read. -/
theorem request_of_readHead (h : readHead [] d.conn.chunks = some (buf, rest))
    (hv : ValidUtf8 q.head) :
    ∃ front back method headers, d.conn.chunks = front ++ back ∧
      q.bytes.length ≤ front.flatten.length ∧
      ((∃ front' back', d.conn.chunks = front' ++ back' ∧ front'.flatten = q.bytes) →
        front.flatten = q.bytes) ∧
      request F targetBase d.conn = if F.url (base targetBase ++ q.target) then some {
        url := base targetBase ++ q.target, timeoutInterval := 30, httpMethod := method, headers
        httpBody := if 0 < (q.body.length : ℤ) then
          some (front.flatten.drop (q.head ++ crlf2).length) else none } else none := by
  obtain ⟨r, front, hsplit, hbuf, rfl, hrange⟩ := readHead_head h
  have htake : (q.head ++ crlf2 ++ r).take q.head.length = q.head := by
    rw [List.append_assoc, List.take_left]
  have hdrop : (q.head ++ crlf2 ++ r).drop (q.head.length + crlf2.length) = r := by
    rw [← List.length_append, List.drop_left]
  have hchunks : ∀ chunk ∈ rest, chunk ≠ [] := fun c hc =>
    d.nonempty c (hsplit ▸ List.mem_append_right front hc)
  have hall : q.body.length ≤ (r ++ rest.flatten).length := by
    have htotal := congrArg (fun l : List Bytes => l.flatten.length) hsplit
    have hstream := d.delivered.length_le
    simp only [List.flatten_append, ← hbuf, bytes, List.length_append] at htotal hstream ⊢
    omega
  obtain ⟨method, hdrs, hsection⟩ := q.readSection_head F hv
  obtain ⟨front', back, hrest, hle, hbody⟩ := @readBody_some r rest _ d.conn.closed hchunks hall
  refine ⟨front ++ front', back, method, fun k => if k ∈ skip then none else hdrs k, ?_, ?_, ?_, ?_⟩
  · rw [hsplit, hrest, List.append_assoc]
  · simp only [List.flatten_append, ← hbuf, bytes, List.length_append] at hle ⊢
    omega
  · -- the loop ends where a chunk does
    rintro ⟨first, last, hcut, hfirst⟩
    have hfound' : (rangeOf crlf2 ([] ++ first.flatten)).isSome := by
      rw [List.nil_append, rangeOf_isSome_iff hcut, hfirst, bytes]
      exact (List.prefix_append _ _).length_le
    rw [hcut] at h
    obtain ⟨more, hmore, hjoin⟩ := readHead_front h hfound'
    rw [List.nil_append, hfirst, bytes, List.append_assoc, List.append_cancel_left_eq] at hjoin
    have hstop := @readBody_front r more last q.body.length d.conn.closed
      (fun c hc => hchunks c (hmore ▸ List.mem_append_left last hc)) (by rw [hjoin])
    rw [← hmore, hbody] at hstop
    rw [List.flatten_append, ← hbuf, bytes, List.append_assoc, Option.some.inj hstop, hjoin]
  · have hflat : (front ++ front').flatten.drop (q.head ++ crlf2).length = r ++ front'.flatten := by
      rw [List.flatten_append, ← hbuf, List.append_assoc, List.drop_left]
    rw [hflat, request, h]
    simp only [Option.bind_eq_bind, Option.bind_some, hrange, htake, hdrop, hsection, hbody]
    rfl

/-- A request is sent when its head has been read and both its head and its URL are legal. -/
theorem request_isSome_iff : (request F targetBase d.conn).isSome ↔ q.Accepted F targetBase d.conn := by
  have hread : (readHead [] d.conn.chunks).isSome ↔ ∃ front back, d.conn.chunks = front ++ back ∧
      (q.head ++ crlf2).length ≤ front.flatten.length ∧ front.flatten.length ≤ 1048576 := by
    apply readHead_isSome_iff d.nonempty
    · intro front back h
      rw [List.nil_append]
      exact rangeOf_isSome_iff h
    · exact Nat.zero_le _
  cases h : readHead [] d.conn.chunks with
  | none =>
    rw [request, h]
    rw [h] at hread
    exact iff_of_false (by simp) fun ha => absurd (hread.mpr ha.fits) (by simp)
  | some p =>
    obtain ⟨buf, rest⟩ := p
    rw [h] at hread
    by_cases hv : ValidUtf8 q.head
    · obtain ⟨front, back, method, headers, -, -, -, hreq⟩ :=
        @request_of_readHead q d F targetBase buf rest h hv
      by_cases hu : F.url (base targetBase ++ q.target)
      · rw [hreq, if_pos hu]
        exact iff_of_true rfl ⟨hv, hu, hread.mp rfl⟩
      · rw [hreq, if_neg hu]
        exact iff_of_false (by simp) fun ha => hu ha.url
    · obtain ⟨r, front, -, -, rfl, hrange⟩ := readHead_head h
      have htake : (q.head ++ crlf2 ++ r).take q.head.length = q.head := by
        rw [List.append_assoc, List.take_left]
      have hnone : request F targetBase d.conn = none := by
        rw [request, h]
        simp only [Option.bind_eq_bind, Option.bind_some, hrange, htake, readSection, if_neg hv,
          Option.bind_none]
      rw [hnone]
      exact iff_of_false (by simp) fun ha => hv ha.utf8

/-- What is sent is the body of the request exactly when no chunk reaches beyond it. -/
theorem request_body_iff {req : URLRequest} (h : request F targetBase d.conn = some req) :
    req.httpBody.getD [] = q.body ↔ q.Aligned d.conn := by
  have hacc : q.Accepted F targetBase d.conn := request_isSome_iff.mp (h ▸ rfl)
  obtain ⟨⟨buf, rest⟩, hread⟩ : ∃ p, readHead [] d.conn.chunks = some p := by
    cases hread : readHead [] d.conn.chunks with
    | none =>
      rw [request, hread] at h
      cases h
    | some p => exact ⟨p, rfl⟩
  obtain ⟨front, back, method, headers, hsplit, hlen, halign, hreq⟩ :=
    @request_of_readHead q d F targetBase buf rest hread hacc.utf8
  rw [hreq] at h
  split_ifs at h with hu hpos
  · cases h
    rw [Option.getD_some]
    constructor
    · intro hbody
      refine .inr ⟨front, back, hsplit, ?_⟩
      have hpre : q.bytes <+: front.flatten :=
        List.prefix_of_prefix_length_le d.delivered (prefix_flatten hsplit) hlen
      obtain ⟨more, hmore⟩ := hpre
      rw [← hmore, bytes, List.append_assoc, List.drop_left] at hbody
      rw [← hmore, List.self_eq_append_right.mp hbody.symm, List.append_nil]
    · rintro (hnil | hcut)
      · rw [hnil] at hpos
        cases hpos
      · rw [halign hcut, bytes, List.drop_left]
  · cases h
    have hnil : q.body = [] := by
      rw [← List.length_eq_zero_iff]
      omega
    exact iff_of_true hnil.symm (.inl hnil)

end ClientRequest

/-! ## What the proxy writes -/

section Response

variable {F : ProxyFoundation} {http : HTTPURLResponse} {data : Bytes}

def responseHead (F : ProxyFoundation) (http : HTTPURLResponse) (data : Bytes) : ResponseHead where
  status := http.statusCode
  reason := F.localizedString http.statusCode
  fields := copied F http ++ [(str "Content-Length", str (toString data.length)),
    (str "Connection", str "close")]

theorem parse_response : parseResponseHead (response F http data) =
    some (responseHead F http data, data) := by
  have hrender : response F http data = (responseHead F http data).render ++ data := by
    simp [response, responseHead, ResponseHead.render, List.flatMap_append, fieldLine, str]
  rw [hrender]
  apply parseResponseHead_render http.status_lo http.status_hi (F.newline_notMem _)
  intro f hf
  have hdigits := digits_of_parseLength (parseLength_toString data.length)
  simp only [responseHead, List.mem_append, List.mem_cons, List.not_mem_nil, or_false] at hf
  rcases hf with hf | rfl | rfl
  · exact http.plain f (List.mem_of_mem_filter hf)
  · refine ⟨rfl, fun b hb => (isFieldByte_of_isDigit (hdigits b hb)).1, trimBlanks_eq_self ?_ ?_⟩
    · exact fun b hb => (isFieldByte_of_isDigit (hdigits b (List.mem_of_mem_head? hb))).2.1
    · exact fun b hb => (isFieldByte_of_isDigit (hdigits b (List.mem_of_mem_getLast? hb))).2.1
  · exact ⟨rfl, by decide +kernel, by decide +kernel⟩

theorem lowercased_name {f : Bytes × Bytes} (hf : f ∈ http.allHeaderFields) :
    F.lowercased f.1 = toLower f.1 := by
  have hname := (http.plain f hf).name
  rw [isToken, Bool.and_eq_true, List.all_eq_true] at hname
  exact F.lowercased_ascii f.1 fun b hb => isTokenByte_lt b (hname.2 b hb)

/-- Two names are left out and no others. -/
theorem fieldValues_copied (name : Bytes) : fieldValues (copied F http) name =
    if toLower name = str "transfer-encoding" ∨ toLower name = str "connection" then []
    else fieldValues http.allHeaderFields name := by
  have hfilter : ∀ f ∈ http.allHeaderFields,
      (decide (toLower f.1 = toLower name) && !(F.lowercased f.1 = str "transfer-encoding" ||
        F.lowercased f.1 = str "connection")) =
      (decide (toLower f.1 = toLower name) && !decide (toLower name = str "transfer-encoding" ∨
        toLower name = str "connection")) := by
    intro f hf
    rw [lowercased_name hf, Bool.decide_or]
    by_cases h : toLower f.1 = toLower name
    · rw [h]
    · rw [decide_eq_false h, Bool.false_and, Bool.false_and]
  rw [fieldValues, copied, List.filter_filter, List.filter_congr hfilter]
  split_ifs with h
  · simp only [h, decide_true, Bool.not_true, Bool.and_false, List.filter_false, List.map_nil]
  · simp only [h, decide_false, Bool.not_false, Bool.and_true, fieldValues]

/-- The response frames its data when the server announced nothing about them. -/
theorem framed_iff : Framed data (response F http data) ↔ http.Bare := by
  have hlength : fieldValues (responseHead F http data).fields (str "Content-Length") =
      fieldValues http.allHeaderFields (str "Content-Length") ++ [str (toString data.length)] := by
    rw [responseHead, fieldValues_append, fieldValues_copied, if_neg (by decide)]
    rfl
  have hcoding : contentCodings (responseHead F http data).fields =
      contentCodings http.allHeaderFields := by
    have hnone : fieldValues [(str "Content-Length", str (toString data.length)),
        (str "Connection", str "close")] (str "Content-Encoding") = [] := rfl
    rw [contentCodings, responseHead, fieldValues_append, fieldValues_copied, if_neg (by decide),
      hnone, List.append_nil, contentCodings]
  constructor
  · rintro ⟨head, hparse, -, ⟨v, hv, -⟩, hc⟩
    rw [parse_response] at hparse
    cases hparse
    rw [hlength] at hv
    rw [hcoding] at hc
    have hone := congrArg List.length hv
    rw [List.length_append, List.length_singleton, List.length_singleton] at hone
    exact ⟨List.length_eq_zero_iff.mp (by omega), hc⟩
  · rintro ⟨hl, hc⟩
    refine ⟨responseHead F http data, parse_response, ?_, ⟨str (toString data.length), ?_,
      parseLength_toString _⟩, ?_⟩
    · rw [responseHead, fieldValues_append, fieldValues_copied, if_pos (by decide)]
      rfl
    · rw [hlength, hl, List.nil_append]
    · rwa [hcoding]

end Response

/-- What the session delivers for a request that was sent is written. -/
theorem written_of_accepted {F : ProxyFoundation} {targetBase : Bytes} {q : ClientRequest}
    {d : q.Delivery} (h : q.Accepted F targetBase d.conn) (http : HTTPURLResponse) (data : Bytes) :
    (forward F targetBase (some (http, data)) d.conn).written = some (response F http data) := by
  obtain ⟨req, hreq⟩ := Option.isSome_iff_exists.mp (ClientRequest.request_isSome_iff.mpr h)
  rw [forward, hreq]
  rfl

/-- The proxy passes a body and a response on unchanged exactly when no chunk reaches beyond the
request, and the server announces no length and no coding. -/
theorem forward_faithful_iff (F : ProxyFoundation) (targetBase : Bytes) (q : ClientRequest)
    (d : q.Delivery) (session : Option (HTTPURLResponse × Bytes)) :
    ((forward F targetBase session d.conn).sent.isSome ↔ q.Accepted F targetBase d.conn) ∧
      (Faithful q session (forward F targetBase session d.conn) ↔
        (q.Accepted F targetBase d.conn →
          q.Aligned d.conn ∧ ∀ http data, session = some (http, data) → http.Bare)) := by
  refine ⟨ClientRequest.request_isSome_iff, ?_⟩
  constructor
  · rintro ⟨hbody, hframed⟩ hacc
    obtain ⟨req, hreq⟩ := Option.isSome_iff_exists.mp (ClientRequest.request_isSome_iff.mpr hacc)
    refine ⟨(ClientRequest.request_body_iff hreq).mp (hbody req hreq), ?_⟩
    rintro http data rfl
    obtain ⟨http', data', hs, hf⟩ := hframed _ (written_of_accepted hacc http data)
    cases hs
    exact framed_iff.mp hf
  · intro h
    constructor
    · intro req hreq
      have hacc := ClientRequest.request_isSome_iff.mp (Option.isSome_of_eq_some hreq)
      exact (ClientRequest.request_body_iff hreq).mpr (h hacc).1
    · intro out hout
      cases hreq : request F targetBase d.conn with
      | none =>
        rw [forward, hreq] at hout
        cases hout
      | some req =>
        have hacc := ClientRequest.request_isSome_iff.mp (Option.isSome_of_eq_some hreq)
        cases session with
        | none =>
          rw [forward, hreq] at hout
          cases hout
        | some p =>
          obtain ⟨http, data⟩ := p
          rw [forward, hreq] at hout
          cases hout
          exact ⟨http, data, rfl, framed_iff.mpr ((h hacc).2 http data rfl)⟩

/-! ## A compressed response, and a request with another behind it -/

def plainFoundation : ProxyFoundation where
  url := fun _ => true
  localizedString := fun _ => str "no error"
  lowercased := toLower
  newline_notMem := fun _ => by decide +kernel
  lowercased_ascii := fun _ _ => rfl

def upload : ClientRequest where
  line := str "POST /api HTTP/1.1"
  fields := [str "Host: 127.0.0.1", str "content-length: 2"]
  body := str "ab"
  lines := by
    unfold Lines
    decide +kernel
  requestLine := by decide +kernel
  readable := by decide +kernel
  announced := by decide +kernel
  delimited := by decide +kernel
  sized := by decide

/-- The request in one chunk, with what the client sends after it. -/
def upload.delivery (after : Bytes) : upload.Delivery where
  conn := ⟨[upload.bytes ++ after], false⟩
  nonempty := by simp [ClientRequest.bytes, crlf2]
  delivered := by simp

def compressed : HTTPURLResponse where
  statusCode := 200
  allHeaderFields := [(str "Content-Encoding", str "gzip"), (str "Content-Length", str "23")]
  status_lo := by decide
  status_hi := by decide
  plain := by
    simp only [List.mem_cons, List.not_mem_nil, or_false]
    rintro f (rfl | rfl)
    · exact ⟨by decide +kernel, by decide +kernel, by decide +kernel⟩
    · exact ⟨by decide +kernel, by decide +kernel, by decide +kernel⟩

theorem upload.accepted {after : Bytes} (h : after.length ≤ 1000) :
    upload.Accepted plainFoundation (str "http://100.64.0.5:3001") (delivery after).conn := by
  have hhead : (upload.head ++ crlf2).length ≤ upload.bytes.length := by decide +kernel
  have hbytes : upload.bytes.length ≤ 1000 := by decide +kernel
  refine ⟨by decide +kernel, rfl, [upload.bytes ++ after], [], rfl, ?_, ?_⟩
  all_goals
    simp only [List.flatten_cons, List.flatten_nil, List.append_nil, List.length_append] at *
    omega

/-- The server's length and coding are written with decoded data, and the start of the next request
goes upstream with the body. -/
theorem forward_misframes :
    let base := str "http://100.64.0.5:3001"
    ¬ Faithful upload (some (compressed, str "abc"))
      (forward plainFoundation base (some (compressed, str "abc")) (upload.delivery []).conn) ∧
    ¬ Faithful upload none
      (forward plainFoundation base none (upload.delivery (str "GET")).conn) := by
  constructor
  · intro h
    obtain ⟨http, data, hs, hf⟩ :=
      h.framed _ (written_of_accepted (upload.accepted (by decide)) compressed (str "abc"))
    cases hs
    have hl := (framed_iff.mp hf).length
    revert hl
    decide +kernel
  · intro h
    have hsome := ClientRequest.request_isSome_iff.mpr (@upload.accepted (str "GET") (by decide))
    obtain ⟨req, hreq⟩ := Option.isSome_iff_exists.mp hsome
    have hbody : upload.body ≠ [] := by decide
    rcases (ClientRequest.request_body_iff hreq).mp (h.body req hreq) with hnil | hcut
    · exact hbody hnil
    · obtain ⟨front, back, hsplit, hflat⟩ := hcut
      cases front with
      | nil =>
        have hne : ([] : Bytes) ≠ upload.bytes := by decide +kernel
        exact hne hflat
      | cons chunk front =>
        obtain ⟨rfl, hrest⟩ := List.cons.inj hsplit
        obtain ⟨rfl, rfl⟩ := List.append_eq_nil_iff.mp hrest.symm
        have hlen := congrArg List.length hflat
        have hget : (str "GET").length = 3 := by decide
        simp only [List.flatten_cons, List.flatten_nil, List.append_nil, List.length_append] at hlen
        omega

end HeadFwd.Ios
