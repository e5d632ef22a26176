import HeadFwd.EndToEnd.Bodies
import HeadFwd.Net.Head
import HeadFwd.Net.Target
import HeadFwd.Sidecar.Panic

/-! # Request targets through the tunnel

The sidecar has two ways to ask Headscale for the target of a request. For a stream
it writes the target that `url.Parse` gives for the URL of the message. For a request
it appends the URL to the base URL of Headscale, where of a URL that is absolute it
takes the path as decoded, without encoding it again. The relay sends the target of
its client, the Worker a URL with its own origin in front of it.
-/

namespace HeadFwd.EndToEnd

open Text Net Tunnel

/-- A parsed URL as the sidecar reads it. -/
def ofUrl (u : Url) : Sidecar.URL where
  scheme := u.scheme
  host := u.host
  path := u.path
  rawQuery := u.rawQuery
  requestURI := u.requestURI

/-- The sidecar of a Headscale server, with `url.Parse`. -/
def settings (authority : Bytes → Option Bytes) (headscaleURL : Bytes) : Sidecar.Settings where
  headscaleURL
  parse u := (Url.parse authority u).map ofUrl

/-- The target that `forwardToHeadscale` asks for; `none` when the URL does not parse. -/
def forwardTarget (cfg : Sidecar.Settings) (url : Bytes) : Option Bytes :=
  (cfg.parse (cfg.headscaleURL ++ Sidecar.requestPath cfg.config url)).map Sidecar.URL.requestURI

/-- The target that `buildRawRequest` writes; `none` when it panics. -/
def rawTarget (cfg : Sidecar.Settings) (url : Bytes) : Option Bytes :=
  (cfg.parse url).map fun u => if u.requestURI = [] then str "/" else u.requestURI

theorem forwardTarget_of_headscaleRequest {cfg : Sidecar.Settings} {req : TunnelRequest}
    {q : Sidecar.HeadscaleRequest} (h : Sidecar.headscaleRequest cfg.config req = some q) :
    forwardTarget cfg req.url = (cfg.parse q.url).map Sidecar.URL.requestURI := by
  unfold Sidecar.headscaleRequest at h
  split at h
  · cases h
  · cases h
    rfl

/-- The fields of the message that are passed on: all but the host. -/
def forwardedFields (headers : Headers) : Headers :=
  headers.filter fun f => !Sidecar.equalFold f.1 (str "Host")

/-- The fields that `buildRawRequest` writes. It adds the address that is dialled, and the length of
the body if the message has none. -/
def rawFields (headers : Headers) (body host : Bytes) : Headers :=
  let fields := forwardedFields headers
  let hasContentLength := fields.any fun f => Sidecar.equalFold f.1 (str "Content-Length")
  fields ++ (str "Host", host) ::
    if body ≠ [] ∧ hasContentLength = false then
      [(str "Content-Length", str (toString body.length))]
    else []

/-- The raw request is a head with the target in it, and the body. -/
theorem buildRawRequest_eq_ok {cfg : Sidecar.Settings} {method url body host raw : Bytes}
    {headers : Headers} :
    Sidecar.Go.buildRawRequest cfg method url headers body host = .ok raw ↔
      ∃ t, rawTarget cfg url = some t ∧
        raw = Head.render ⟨method, t, rawFields headers body host⟩ ++ body := by
  have hhost : str "Host: " = str "Host" ++ str ": " := by decide
  have hlength : str "Content-Length: " = str "Content-Length" ++ str ": " := by decide
  unfold Sidecar.Go.buildRawRequest rawTarget
  cases hu : cfg.parse url with
  | none => simp [Sidecar.deref, bind, Except.bind]
  | some u =>
    let target := if u.requestURI = [] then str "/" else u.requestURI
    let fields := forwardedFields headers
    let hasContentLength := fields.any fun f => Sidecar.equalFold f.1 (str "Content-Length")
    have hline : fieldLine = fun f => f.1 ++ str ": " ++ f.2 ++ str "\r\n" := rfl
    change Except.ok (method ++ str " " ++ target ++ str " HTTP/1.1\r\n" ++
      fields.flatMap fieldLine ++ str "Host: " ++ host ++ str "\r\n" ++
      (if body ≠ [] ∧ hasContentLength = false then
        str "Content-Length: " ++ str (toString body.length) ++ str "\r\n"
      else []) ++ str "\r\n" ++ body) = Except.ok raw ↔
        ∃ t, some target = some t ∧ raw = Head.render ⟨method, t, fields ++ (str "Host", host) ::
          if body ≠ [] ∧ hasContentLength = false then
            [(str "Content-Length", str (toString body.length))]
          else []⟩ ++ body
    rw [Except.ok.injEq]
    simp only [Option.some.injEq, exists_eq_left', Head.render, hline, hhost, hlength]
    rw [eq_comm]
    apply Eq.congr_right
    split_ifs with hadd
    · simp
    · simp

section Parsed

variable {authority : Bytes → Option Bytes} {base : Bytes}

theorem forwardTarget_eq (url : Bytes) :
    forwardTarget (settings authority base) url =
      (Url.parse authority (base ++
        Sidecar.requestPath (settings authority base).config url)).map Url.requestURI := by
  unfold forwardTarget settings
  rw [Option.map_map]
  rfl

theorem rawTarget_eq (url : Bytes) :
    rawTarget (settings authority base) url = (Url.parse authority url).map Url.requestURI := by
  unfold rawTarget settings
  rw [Option.map_map]
  congr 1
  funext u
  exact if_neg u.requestURI_ne_nil

/-- A URL that begins with a slash is taken as it is. -/
theorem requestPath_slash (cfg : Sidecar.Config) (s : Bytes) :
    Sidecar.requestPath cfg (chr '/' :: s) = chr '/' :: s := by
  rw [Sidecar.requestPath, if_pos rfl]

/-- What follows the base URL is read as a path and a query. -/
theorem forwardTarget_slash (hb : Url.Origin authority base) {p : Bytes} {o f : Option Bytes}
    (hp : chr '?' ∉ chr '/' :: p) (hf : chr '#' ∉ chr '/' :: p ++ queryText o) :
    forwardTarget (settings authority base) (chr '/' :: p ++ queryText o ++ fragmentText f) =
      Url.target (chr '/' :: p) o f := by
  rw [forwardTarget_eq, List.cons_append, List.cons_append, requestPath_slash, ← List.cons_append,
    ← List.cons_append, Url.parse_origin hb hp hf]
  exact Url.complete_requestURI rfl o f

theorem rawTarget_site {site p : Bytes} {o f : Option Bytes} (hs : Url.Origin authority site)
    (hp : chr '?' ∉ chr '/' :: p) (hf : chr '#' ∉ chr '/' :: p ++ queryText o) :
    rawTarget (settings authority base) (site ++ (chr '/' :: p ++ queryText o ++ fragmentText f)) =
      Url.target (chr '/' :: p) o f := by
  rw [rawTarget_eq, Url.parse_origin hs hp hf]
  exact Url.complete_requestURI rfl o f

/-- Two slashes and no third begin an authority. -/
def twoSlashes (p : Bytes) : Bool := (str "//").isPrefixOf p && !(str "///").isPrefixOf p

theorem rawTarget_slash {p : Bytes} {o f : Option Bytes} (hp : chr '?' ∉ chr '/' :: p)
    (hf : chr '#' ∉ chr '/' :: p ++ queryText o) (hs : twoSlashes (chr '/' :: p) = false) :
    rawTarget (settings authority base) (chr '/' :: p ++ queryText o ++ fragmentText f) =
      Url.target (chr '/' :: p) o f := by
  have hauth : (str "///").isPrefixOf (chr '/' :: p) = true ∨
      (str "//").isPrefixOf (chr '/' :: p) = false := by
    simp only [twoSlashes, Bool.and_eq_false_iff, Bool.not_eq_false'] at hs
    exact hs.symm
  rw [rawTarget_eq, Url.parse_slash hp hf hauth]
  exact Url.complete_requestURI rfl o f

theorem rawTarget_twoSlashes {p t : Bytes} {o f : Option Bytes} (hp : chr '?' ∉ chr '/' :: p)
    (hf : chr '#' ∉ chr '/' :: p ++ queryText o) (hv : validEncoded (chr '/' :: p) = true)
    (hs : twoSlashes (chr '/' :: p) = true)
    (h : rawTarget (settings authority base) (chr '/' :: p ++ queryText o ++ fragmentText f) =
      some t) :
    ∃ p', validEncoded p' = true ∧ p'.length < (chr '/' :: p).length ∧ t = p' ++ queryText o := by
  rw [twoSlashes, Bool.and_eq_true, Bool.not_eq_true'] at hs
  obtain ⟨q, rfl⟩ : ∃ q, p = chr '/' :: q := by
    obtain ⟨r, hr⟩ := List.isPrefixOf_iff_prefix.mp hs.1
    exact ⟨r, (List.cons.inj hr).2.symm⟩
  have hthree : q.head? ≠ some (chr '/') := by
    intro hh
    obtain ⟨r, rfl⟩ := List.head?_eq_some_iff.mp hh
    simp [str, chr] at hs
  have hq : validEncoded q = true := by
    rw [validEncoded, List.all_eq_true] at hv ⊢
    exact fun b hb => hv b (List.mem_cons_of_mem _ (List.mem_cons_of_mem _ hb))
  rw [rawTarget_eq] at h
  obtain ⟨u, hu, rfl⟩ := Option.map_eq_some_iff.mp h
  exact Url.parse_twoSlashes hp hf hq hthree hu

end Parsed

/-! ## From a client of the relay -/

/-- A query is carried as it is if it is valid UTF-8 and no part of it looks like a fragment. -/
def QueryKept (o : Option Bytes) : Prop := ∀ q ∈ o, chr '#' ∉ q ∧ ValidUtf8 q

/-- The query as the sidecar reads it, and what it takes for a fragment. -/
theorem exists_sentQuery (o : Option Bytes) :
    ∃ o' f, queryText (o.map sanitize) = queryText o' ++ fragmentText f ∧ chr '#' ∉ queryText o' ∧
      (o' = o ↔ QueryKept o) ∧ (o' = o → f = none) := by
  cases o with
  | none => exact ⟨none, none, rfl, List.not_mem_nil, by simp [QueryKept], fun _ => rfl⟩
  | some q =>
    obtain ⟨q', f, hq', hq⟩ := exists_fragmentText (sanitize q)
    have hf : q' = q → f = none := by
      rintro rfl
      cases f with
      | none => rfl
      | some f =>
        have hmem : chr '#' ∈ sanitize q' := by
          rw [hq]
          exact List.mem_append_right _ List.mem_cons_self
        exact absurd ((mem_sanitize (by decide) q').mp hmem) hq'
    refine ⟨some q', f, ?_, ?_, ?_, ?_⟩
    · simp only [Option.map_some, queryText, hq, List.cons_append]
    · simp only [queryText, List.mem_cons, not_or]
      exact ⟨by decide, hq'⟩
    · simp only [QueryKept, Option.some.injEq, Option.mem_def, forall_eq']
      constructor
      · intro he
        have hnone := hf he
        subst he hnone
        rw [fragmentText, List.append_nil] at hq
        exact ⟨hq', hq⟩
      · rintro ⟨hnot, hv⟩
        have hv : sanitize q = q := hv
        cases f with
        | none =>
          rw [fragmentText, List.append_nil] at hq
          exact hq.symm.trans hv
        | some f =>
          have hmem : chr '#' ∈ q := by
            rw [← hv, hq]
            exact List.mem_append_right _ List.mem_cons_self
          exact absurd hmem hnot
    · exact fun he => hf (Option.some.inj he)

/-- A path in a valid encoding is asked for as it is. -/
theorem target_of_validEncoded {p t : Bytes} {o f : Option Bytes} (hv : validEncoded p = true)
    (h : Url.target p o f = some t) : t = p ++ queryText o := by
  unfold Url.target at h
  split_ifs at h
  obtain ⟨path, -, rfl⟩ := Option.map_eq_some_iff.mp h
  rw [normalPath, if_pos hv]

/-- The path, the query and the fragment that the sidecar reads in a URL of the relay, for a target
of a client. The path is in a valid encoding in any case. -/
structure Sent (p : Bytes) (o : Option Bytes) (url p' : Bytes) (o' f : Option Bytes) : Prop where
  url : url = chr '/' :: p' ++ queryText o' ++ fragmentText f
  valid : validEncoded (chr '/' :: p') = true
  hash : chr '#' ∉ queryText o'
  path : chr '/' :: p' = p ↔ validEncoded p = true
  query : o' = o ↔ QueryKept o
  fragment : o' = o → f = none
  ascii : ∀ b < 0x80, b ∈ queryText o' → b ∈ queryText o

section Relayed

variable {authority : Bytes → Option Bytes} {base p : Bytes} {o : Option Bytes} {u : Url}

theorem exists_sent (hp : chr '?' ∉ chr '/' :: p)
    (hu : Url.parseRequestURI authority (chr '/' :: p ++ queryText o) = some u) :
    ∃ p' o' f, Sent (chr '/' :: p) o (sanitize u.string) p' o' f := by
  rw [Url.parseRequestURI, Url.parseRest_slash hp o (.inl rfl)] at hu
  have hpath := (Url.complete_spec rfl hu).1
  obtain ⟨p', hp'⟩ := normalPath_slash hpath
  obtain ⟨o', f, hsent, hhash, hkept, hnone⟩ := exists_sentQuery o
  have hquery : sanitize (queryText o) = queryText (o.map sanitize) := by
    cases o with
    | none => rfl
    | some q => exact sanitize_append_of_ascii (a := [chr '?']) (by decide +kernel) q
  refine ⟨p', o', f, ?_, ?_, hhash, ?_, hkept, hnone, ?_⟩
  · rw [Url.complete_string hu, sanitize_append_of_ascii ascii_normalPath, hquery, hsent, hp',
      List.append_assoc]
  · rw [← hp']
    exact validEncoded_normalPath _ _
  · rw [← hp']
    exact normalPath_eq_self_iff
  · intro b hb hm
    rw [← mem_sanitize hb, hquery, hsent]
    exact List.mem_append_left _ hm

namespace Sent

variable {url p' : Bytes} {o' f : Option Bytes}

theorem notMem_mark (h : Sent p o url p' o' f) : chr '?' ∉ chr '/' :: p' :=
  notMem_of_validEncoded h.valid (by decide)

theorem notMem_hash (h : Sent p o url p' o' f) : chr '#' ∉ chr '/' :: p' ++ queryText o' := by
  rw [List.mem_append, not_or]
  exact ⟨notMem_of_validEncoded h.valid (by decide), h.hash⟩

/-- The target of the URL is the one of the client exactly if that is kept. -/
theorem target_iff (h : Sent (chr '/' :: p) o url p' o' f) (hp : chr '?' ∉ chr '/' :: p)
    (hu : Url.parseRequestURI authority (chr '/' :: p ++ queryText o) = some u) :
    Url.target (chr '/' :: p') o' f = some (chr '/' :: p ++ queryText o) ↔
      validEncoded (chr '/' :: p) = true ∧ QueryKept o := by
  constructor
  · intro ht
    obtain ⟨hpp, hoo⟩ := queryText_inj hp h.notMem_mark (target_of_validEncoded h.valid ht)
    exact ⟨h.path.mp hpp.symm, h.query.mp hoo.symm⟩
  · rintro ⟨hv, hq⟩
    have hoo := h.query.mpr hq
    rw [Url.parseRequestURI, Url.parseRest_slash hp o (.inl rfl)] at hu
    rw [h.path.mpr hv, h.fragment hoo, hoo, ← Url.complete_requestURI (u := {}) rfl, hu,
      Option.map_some, (Url.complete_spec rfl hu).2.2, normalPath_eq_self_iff.mpr hv]

/-- A stream is opened with this query and a path in a valid encoding, whether the URL has an origin
in front of it or not. -/
theorem of_rawTarget {site t : Bytes} (h : Sent p o url p' o' f)
    (hsite : site = [] ∨ Nonempty (Url.Origin authority site))
    (ht : rawTarget (settings authority base) (site ++ url) = some t) :
    ∃ e, validEncoded e = true ∧ t = e ++ queryText o' := by
  rw [h.url] at ht
  rcases hsite with rfl | ⟨⟨hs⟩⟩
  · rw [List.nil_append] at ht
    cases hs : twoSlashes (chr '/' :: p') with
    | true =>
      obtain ⟨e, hve, -, rfl⟩ := rawTarget_twoSlashes h.notMem_mark h.notMem_hash h.valid hs ht
      exact ⟨e, hve, rfl⟩
    | false =>
      rw [rawTarget_slash h.notMem_mark h.notMem_hash hs] at ht
      exact ⟨chr '/' :: p', h.valid, target_of_validEncoded h.valid ht⟩
  · rw [rawTarget_site hs h.notMem_mark h.notMem_hash] at ht
    exact ⟨chr '/' :: p', h.valid, target_of_validEncoded h.valid ht⟩

end Sent

/-- A stream is opened with the target of the client exactly if its path is in a valid encoding and
begins with no authority, and its query is carried as it is. -/
theorem relay_raw_iff (hp : chr '?' ∉ chr '/' :: p)
    (hu : Url.parseRequestURI authority (chr '/' :: p ++ queryText o) = some u) :
    rawTarget (settings authority base) (sanitize u.string) = some (chr '/' :: p ++ queryText o) ↔
      validEncoded (chr '/' :: p) = true ∧ twoSlashes (chr '/' :: p) = false ∧ QueryKept o := by
  obtain ⟨p', o', f, hsent⟩ := exists_sent hp hu
  rw [hsent.url]
  cases hs : twoSlashes (chr '/' :: p') with
  | true =>
    apply iff_of_false
    · intro hraw
      obtain ⟨e, hve, hlen, he⟩ :=
        rawTarget_twoSlashes hsent.notMem_mark hsent.notMem_hash hsent.valid hs hraw
      obtain ⟨rfl, -⟩ := queryText_inj hp (notMem_of_validEncoded hve (by decide)) he
      rw [hsent.path.mpr hve] at hlen
      exact hlen.false
    · rintro ⟨hv, hno, -⟩
      rw [hsent.path.mpr hv, hno] at hs
      cases hs
  | false =>
    rw [rawTarget_slash hsent.notMem_mark hsent.notMem_hash hs, hsent.target_iff hp hu]
    constructor
    · rintro ⟨hv, hq⟩
      rw [hsent.path.mpr hv] at hs
      exact ⟨hv, hs, hq⟩
    · exact fun h => ⟨h.1, h.2.2⟩

/-- Behind an origin a path may begin as it likes. -/
theorem site_raw_iff {site : Bytes} (hs : Url.Origin authority site) (hp : chr '?' ∉ chr '/' :: p)
    (hu : Url.parseRequestURI authority (chr '/' :: p ++ queryText o) = some u) :
    rawTarget (settings authority base) (site ++ sanitize u.string) =
        some (chr '/' :: p ++ queryText o) ↔
      validEncoded (chr '/' :: p) = true ∧ QueryKept o := by
  obtain ⟨p', o', f, hsent⟩ := exists_sent hp hu
  rw [hsent.url, rawTarget_site hs hsent.notMem_mark hsent.notMem_hash, hsent.target_iff hp hu]

theorem relay_target_iff (hb : Url.Origin authority base) (hp : chr '?' ∉ chr '/' :: p)
    (hu : Url.parseRequestURI authority (chr '/' :: p ++ queryText o) = some u) :
    (forwardTarget (settings authority base) (sanitize u.string) =
        some (chr '/' :: p ++ queryText o) ∧
      rawTarget (settings authority base) (sanitize u.string) =
        some (chr '/' :: p ++ queryText o)) ↔
      validEncoded (chr '/' :: p) = true ∧ twoSlashes (chr '/' :: p) = false ∧ QueryKept o := by
  have hiff : rawTarget (settings authority base) (sanitize u.string) = _ ↔ _ := relay_raw_iff hp hu
  constructor
  · exact fun h => hiff.mp h.2
  · intro h
    have hraw := hiff.mpr h
    refine ⟨?_, hraw⟩
    -- Without an authority both ways read the same path and query.
    obtain ⟨p', o', f, hsent⟩ := exists_sent hp hu
    have hs : twoSlashes (chr '/' :: p') = false := by
      rw [hsent.path.mpr h.1]
      exact h.2.1
    rw [hsent.url, rawTarget_slash hsent.notMem_mark hsent.notMem_hash hs] at hraw
    rw [hsent.url, forwardTarget_slash hb hsent.notMem_mark hsent.notMem_hash, hraw]

end Relayed

/-! ## From a client of the Worker -/

/-- A path that is the encoding of its own text, where no byte of the text looks like an escape, a
query or a fragment. -/
def PathKept (p : Bytes) : Prop :=
  ∃ path, unescape p = some path ∧ (∀ b ∈ path, isControl b = false ∧ b ∉ str "%?#") ∧
    p = normalPath path path

section Relayed

variable {authority : Bytes → Option Bytes} {base site : Bytes}

/-- The query that is appended to the path; one that is empty is left out. -/
def appendedQuery : Option Bytes → Option Bytes
  | some [] => none
  | o => o

theorem requestPath_site (hs : Url.Origin authority site) {p : Bytes} {o f : Option Bytes} {v : Url}
    (hv : Url.parse authority (site ++ (chr '/' :: p ++ queryText o ++ fragmentText f)) = some v)
    (hq : v.rawQuery = o.getD []) :
    Sidecar.requestPath (settings authority base).config
      (site ++ (chr '/' :: p ++ queryText o ++ fragmentText f)) =
        v.path ++ queryText (appendedQuery o) := by
  have hparse : (settings authority base).config.parseURL
      (site ++ (chr '/' :: p ++ queryText o ++ fragmentText f)) = some (v.path, v.rawQuery) := by
    change ((Url.parse authority _).map ofUrl).map _ = _
    rw [hv]
    rfl
  obtain ⟨c, s, rfl, hc⟩ := hs.exists_cons
  rw [List.cons_append] at hparse ⊢
  rw [Sidecar.requestPath, if_neg hc, hparse, hq]
  cases o with
  | none => simp [appendedQuery, queryText]
  | some q =>
    cases q with
    | nil => simp [appendedQuery, queryText]
    | cons b q => simp [appendedQuery, queryText]

/-- The appended path reads as itself if nothing in it looks like an escape, a query or a
fragment. -/
theorem target_path {path : Bytes} (o : Option Bytes) (hpath : ∀ b ∈ path, b ∉ str "%?#")
    (hctl : (path ++ queryText o).any isControl = false) :
    Url.target path o none = some (normalPath path path ++ queryText o) := by
  have hesc : chr '%' ∉ path := fun h => hpath _ h (by decide)
  unfold Url.target Url.wellFormed
  rw [hctl, unescape_of_notMem hesc]
  rfl

/-- The path that is appended is asked for as the one it was decoded from only if that was its
encoding. -/
theorem pathKept_of_target {p path : Bytes} {o : Option Bytes} (hp : chr '?' ∉ p)
    (hpath : unescape p = some (chr '/' :: path))
    (h : ∃ p' o' f', chr '/' :: path ++ queryText (appendedQuery o) =
        chr '/' :: p' ++ queryText o' ++ fragmentText f' ∧ chr '?' ∉ chr '/' :: p' ∧
      chr '#' ∉ chr '/' :: p' ++ queryText o' ∧
      Url.target (chr '/' :: p') o' f' = some (p ++ queryText o)) :
    o ≠ some [] ∧ PathKept p := by
  obtain ⟨p', o', f', hs, hmark, hhash, ht⟩ := h
  unfold Url.target at ht
  split_ifs at ht with hw
  obtain ⟨path', hpath', ht⟩ := Option.map_eq_some_iff.mp ht
  obtain ⟨hnormal, rfl⟩ := queryText_inj (notMem_normalPath (by decide) _ _) hp ht
  -- Decoding the path that is asked for gives the appended one back.
  have hsame : path' = chr '/' :: path := by
    have hdecode := unescape_normalPath hpath'
    rw [hnormal, hpath] at hdecode
    exact (Option.some.inj hdecode).symm
  subst hsame
  obtain ⟨hle, hlt⟩ := length_of_unescape hpath'
  obtain ⟨hpp, hquery⟩ := path_of_length_le hmark hs hle
  rw [hpp] at hlt hmark hhash hnormal hw
  constructor
  · rintro rfl
    cases hquery
  · refine ⟨chr '/' :: path, hpath, ?_, hnormal.symm⟩
    intro b hb
    rw [Url.wellFormed, Bool.and_eq_true, Bool.not_eq_true', List.any_eq_false] at hw
    refine ⟨by simpa using hw.1 b (List.mem_append_left _ hb), ?_⟩
    have hall : ∀ c ∈ str "%?#", c ∉ chr '/' :: path := by
      intro c hc
      have hc : c = chr '%' ∨ c = chr '?' ∨ c = chr '#' := by
        revert c
        decide +kernel
      rcases hc with rfl | rfl | rfl
      · exact fun hm => (hlt hm).false
      · exact hmark
      · exact fun hm => hhash (List.mem_append_left _ hm)
    exact fun hc => hall b hc hb

theorem worker_target_iff (hb : Url.Origin authority base) (hs : Url.Origin authority site)
    {p : Bytes} {o f : Option Bytes} (hp : chr '?' ∉ chr '/' :: p)
    (hf : chr '#' ∉ chr '/' :: p ++ queryText o) :
    (forwardTarget (settings authority base)
        (site ++ (chr '/' :: p ++ queryText o ++ fragmentText f)) =
          some (chr '/' :: p ++ queryText o) ∧
      rawTarget (settings authority base)
        (site ++ (chr '/' :: p ++ queryText o ++ fragmentText f)) =
          some (chr '/' :: p ++ queryText o)) ↔
      Url.wellFormed (chr '/' :: p) o f = true ∧ o ≠ some [] ∧ PathKept (chr '/' :: p) := by
  have hparse := Url.parse_origin (f := f) hs hp hf
  rw [rawTarget_eq, forwardTarget_eq, hparse]
  cases hv : Url.complete { scheme := toLower hs.scheme, host := hs.host } (chr '/' :: p) o f with
  | none =>
    have hnone := Url.complete_requestURI (u := { scheme := toLower hs.scheme, host := hs.host })
      (p := p) rfl o f
    rw [hv] at hnone
    apply iff_of_false
    · rintro ⟨-, hraw⟩
      cases hraw
    · rintro ⟨hw, -, path, hpath, -⟩
      rw [Url.target, if_pos hw, hpath] at hnone
      cases hnone
  | some v =>
    rw [hv] at hparse
    obtain ⟨hpath, hquery, huri⟩ := Url.complete_spec rfl hv
    obtain ⟨path, hslash, -⟩ := unescape_slash hpath
    have hw : Url.wellFormed (chr '/' :: p) o f = true := by
      unfold Url.complete at hv
      split_ifs at hv with hw
      exact hw
    rw [requestPath_site hs hparse hquery, Option.map_some, huri, and_iff_right hw, hslash]
    rw [hslash] at hpath
    constructor
    · rintro ⟨hfwd, -⟩
      apply pathKept_of_target hp hpath
      obtain ⟨p', o', f', hparts, hmark, hhash⟩ := exists_parts (path ++ queryText (appendedQuery o))
      refine ⟨p', o', f', hparts, hmark, hhash, ?_⟩
      rw [← hfwd, List.cons_append, hparts, Url.parse_origin hb hmark hhash]
      exact (Url.complete_requestURI rfl o' f').symm
    · rintro ⟨hne, path', hpath', hplain, hnormal⟩
      obtain rfl : path' = chr '/' :: path := Option.some.inj (hpath'.symm.trans hpath)
      have hq : appendedQuery o = o := by
        unfold appendedQuery
        split
        · exact absurd rfl hne
        · rfl
      have hmark : chr '?' ∉ chr '/' :: path := fun hm => (hplain _ hm).2 (by decide)
      have hhash : chr '#' ∉ chr '/' :: path ++ queryText o := by
        rw [List.mem_append, not_or] at hf ⊢
        exact ⟨fun hm => (hplain _ hm).2 (by decide), hf.2⟩
      have hctl : (chr '/' :: path ++ queryText o).any isControl = false := by
        rw [Url.wellFormed, Bool.and_eq_true, Bool.not_eq_true', List.any_append,
          Bool.or_eq_false_iff] at hw
        rw [List.any_append, Bool.or_eq_false_iff]
        refine ⟨?_, hw.1.2⟩
        rw [List.any_eq_false]
        exact fun b hb => by simp [(hplain b hb).1]
      have hvalid : validEncoded (chr '/' :: p) = true := by
        rw [hnormal]
        exact validEncoded_normalPath _ _
      have hfwd := Url.parse_origin (f := none) hb hmark hhash
      rw [fragmentText, List.append_nil] at hfwd
      rw [hq, hfwd, Url.complete_requestURI rfl, target_path o (fun b hb => (hplain b hb).2) hctl,
        ← hnormal, normalPath_eq_self_iff.mpr hvalid]
      exact ⟨rfl, rfl⟩

end Relayed

/-- Both ways of the sidecar ask for the target `t`. -/
def Asks (cfg : Sidecar.Settings) (url t : Bytes) : Prop :=
  forwardTarget cfg url = some t ∧ rawTarget cfg url = some t

/-- Both ways of the sidecar ask for the target of a client of the relay exactly if its path is in a
valid encoding, begins with no authority, and its query is carried as it is; of a client of the
Worker exactly if its URL parses, its path is the encoding of its own text, and its query is not an
empty one. -/
theorem targets_agree_iff (authority : Bytes → Option Bytes) {base : Bytes}
    (hb : Url.Origin authority base) :
    (∀ id (r : Relay.ClientRequest) p o u, chr '?' ∉ chr '/' :: p →
      Url.parseRequestURI authority (chr '/' :: p ++ queryText o) = some u → r.url = u.string →
      (Asks (settings authority base) (Relay.tunnelRequest id r).wire.url
          (chr '/' :: p ++ queryText o) ↔
        validEncoded (chr '/' :: p) = true ∧ twoSlashes (chr '/' :: p) = false ∧ QueryKept o)) ∧
    (∀ id (r : Worker.ClientRequest) site p o f, Nonempty (Url.Origin authority site) →
      chr '?' ∉ chr '/' :: p → chr '#' ∉ chr '/' :: p ++ queryText o →
      Js.utf8 r.url = site ++ (chr '/' :: p ++ queryText o ++ fragmentText f) →
      (Asks (settings authority base) (ofWorker (Worker.tunnelRequest id r)).url
          (chr '/' :: p ++ queryText o) ↔
        Url.wellFormed (chr '/' :: p) o f = true ∧ o ≠ some [] ∧ PathKept (chr '/' :: p))) := by
  constructor
  · intro id r p o u hp hu hr
    have hurl : (Relay.tunnelRequest id r).wire.url = sanitize u.string := congrArg sanitize hr
    rw [hurl]
    exact relay_target_iff hb hp hu
  · rintro id r site p o f ⟨hs⟩ hp hf hr
    have hurl : (ofWorker (Worker.tunnelRequest id r)).url =
        site ++ (chr '/' :: p ++ queryText o ++ fragmentText f) := hr
    rw [hurl]
    exact worker_target_iff hb hs hp hf

/-- An authority that is a host, with or without a port. -/
def hostOnly (a : Bytes) : Option Bytes := if validHost a then some a else none

def headscaleOrigin : Url.Origin hostOnly (str "http://headscale:8080") where
  scheme := str "http"
  text := str "headscale:8080"
  host := str "headscale:8080"
  eq := rfl
  valid := by decide
  plain := by decide +kernel
  reads := by decide

def workerOrigin : Url.Origin hostOnly (str "https://relay.example.net") where
  scheme := str "https"
  text := str "relay.example.net"
  host := str "relay.example.net"
  eq := rfl
  valid := by decide
  plain := by decide +kernel
  reads := by decide

/-- A request to the relay whose path has an encoded slash, and one to the Worker with a blank. -/
def keyRequest : Relay.ClientRequest where
  request := { method := str "GET", host := str "relay.example.net", remoteAddr := [], tls := true,
               header := [] }
  url := str "/node%2Fkey?v=1"
  body := none

def workerRequest (url : String) : Worker.ClientRequest where
  method := Js.js "GET"
  url := Js.js url
  headers := []
  body := none

theorem targets_agree_iff_key :
    let cfg := settings hostOnly (str "http://headscale:8080")
    Asks cfg (Relay.tunnelRequest (str "1") keyRequest).wire.url (str "/node%2Fkey?v=1") ∧
    Asks cfg (ofWorker (Worker.tunnelRequest (Js.js "1")
      (workerRequest "https://relay.example.net/node%20key?v=1"))).url (str "/node%20key?v=1") := by
  obtain ⟨hrelay, hworker⟩ := targets_agree_iff hostOnly headscaleOrigin
  constructor
  · let u : Url :=
      { path := str "/node/key", rawPath := str "/node%2Fkey", rawQuery := str "v=1" }
    apply (hrelay (str "1") keyRequest (str "node%2Fkey") (some (str "v=1")) u (by decide)
      (by decide +kernel) (by decide +kernel)).mpr
    refine ⟨by decide, by decide, ?_⟩
    rintro q ⟨⟩
    decide +kernel
  · apply (hworker (Js.js "1") (workerRequest "https://relay.example.net/node%20key?v=1")
      (str "https://relay.example.net") (str "node%20key") (some (str "v=1")) none ⟨workerOrigin⟩
      (by decide) (by decide) (by decide +kernel)).mpr
    exact ⟨by decide, by decide, str "/node key", by decide +kernel, by decide +kernel, by decide⟩

/-- Of an encoded slash the two ways make different targets. -/
theorem encodedSlash_differs :
    let cfg := settings hostOnly (str "http://headscale:8080")
    let url := (ofWorker (Worker.tunnelRequest (Js.js "1")
      (workerRequest "https://relay.example.net/node%2Fkey"))).url
    forwardTarget cfg url = some (str "/node/key") ∧ rawTarget cfg url = some (str "/node%2Fkey") ∧
      ¬ Asks cfg url (str "/node%2Fkey") := by
  intro cfg url
  have hfwd : forwardTarget cfg url = some (str "/node/key") := by decide +kernel
  refine ⟨hfwd, by decide +kernel, ?_⟩
  rintro ⟨h, -⟩
  exact absurd (hfwd.symm.trans h) (by decide +kernel)

end HeadFwd.EndToEnd
