import HeadFwd.Net.Url

/-! # Paths and request targets

How `net/url` takes a URL apart and writes a request target out of the parts. A path
is kept decoded, beside it the encoding it came in if that is not the default one.
What it is written as depends only on the path as it was read: an encoding that is
valid is kept, any other is replaced by the default one. The reading of an authority
is left open.
-/

namespace HeadFwd.Net

open Text

/-- Whether a byte is escaped in the default encoding of a path. -/
def shouldEscape (c : UInt8) : Bool :=
  !(isAlpha c || isDigit c || c ∈ str "-_.~" || c ∈ str "$&+,/:;=@")

/-- The bytes that may stand in an encoded path. -/
def isPathByte (c : UInt8) : Bool := c ∈ str "!$&'()*+,;=:@[]%" || !shouldEscape c

def validEncoded (s : Bytes) : Bool := s.all isPathByte

def upperHex (n : ℕ) : UInt8 := if n < 10 then UInt8.ofNat (48 + n) else UInt8.ofNat (55 + n)

def escapeByte (c : UInt8) : Bytes :=
  if shouldEscape c then [chr '%', upperHex (c.toNat / 16), upperHex (c.toNat % 16)] else [c]

/-- The default encoding of a path. -/
def escape (s : Bytes) : Bytes := s.flatMap escapeByte

/-- Undo percent-encoding; `none` is an error. -/
def unescape : Bytes → Option Bytes
  | [] => some []
  | b :: s =>
    if b = chr '%' then
      match s with
      | hi :: lo :: t => do
        let h ← hexVal hi
        let l ← hexVal lo
        let t ← unescape t
        return UInt8.ofNat (16 * h + l) :: t
      | _ => none
    else (unescape s).map (b :: ·)

/-- A parsed URL, without its user and its fragment. -/
structure Url where
  scheme : Bytes := []
  opaquePart : Bytes := []
  host : Bytes := []
  path : Bytes := []
  rawPath : Bytes := []
  forceQuery : Bool := false
  rawQuery : Bytes := []
  deriving DecidableEq

/-- The part before the first query mark, whether the query is there and empty, and the query. -/
def splitQuery (rest : Bytes) : Bytes × Bool × Bytes :=
  if rest.getLast? = some (chr '?') ∧ rest.count (chr '?') = 1 then (rest.dropLast, true, [])
  else (rest.takeWhile fun c => c ≠ chr '?', false, (rest.dropWhile fun c => c ≠ chr '?').drop 1)

namespace Url

def setPath (u : Url) (p : Bytes) : Option Url :=
  (unescape p).map fun path => { u with path, rawPath := if p = escape path then [] else p }

def escapedPath (u : Url) : Bytes :=
  if u.rawPath ≠ [] ∧ validEncoded u.rawPath = true ∧ unescape u.rawPath = some u.path then u.rawPath
  else if u.path = str "*" then str "*"
  else escape u.path

def requestURI (u : Url) : Bytes :=
  let result :=
    if u.opaquePart = [] then
      if u.escapedPath = [] then str "/" else u.escapedPath
    else if (str "//").isPrefixOf u.opaquePart then u.scheme ++ str ":" ++ u.opaquePart
    else u.opaquePart
  if u.forceQuery = true ∨ u.rawQuery ≠ [] then result ++ chr '?' :: u.rawQuery else result

/-- `String` of a URL with neither a scheme nor a host. -/
def string (u : Url) : Bytes :=
  let path := u.escapedPath
  let path := if chr ':' ∈ path.takeWhile (fun c => c ≠ chr '/') then str "./" ++ path else path
  if u.forceQuery = true ∨ u.rawQuery ≠ [] then path ++ chr '?' :: u.rawQuery else path

section Parse

variable (authority : Bytes → Option Bytes)

/-- `parse`, for a target of a request or not. `authority` gives the host. -/
def parseRest (viaRequest : Bool) (rawURL : Bytes) : Option Url :=
  if rawURL.any isControl then none
  else if rawURL = [] ∧ viaRequest = true then none
  else if rawURL = str "*" then some { path := str "*" }
  else match getScheme rawURL with
    | none => none
    | some (scheme, rest) =>
      let (rest, forceQuery, rawQuery) := splitQuery rest
      let u : Url := { scheme := toLower scheme, forceQuery, rawQuery }
      if (str "/").isPrefixOf rest = false then
        if scheme ≠ [] then some { u with opaquePart := rest }
        else if viaRequest = true then none
        else if chr ':' ∈ rest.takeWhile (fun c => c ≠ chr '/') then none
        else u.setPath rest
      else if (scheme ≠ [] ∨ viaRequest = false ∧ (str "///").isPrefixOf rest = false) ∧
          (str "//").isPrefixOf rest = true then
        match authority ((rest.drop 2).takeWhile fun c => c ≠ chr '/') with
        | none => none
        | some host => { u with host }.setPath ((rest.drop 2).dropWhile fun c => c ≠ chr '/')
      else u.setPath rest

/-- `Parse`, which reads the fragment to see that it decodes. -/
def parse (rawURL : Bytes) : Option Url :=
  let fragment := (rawURL.dropWhile fun c => c ≠ chr '#').drop 1
  match parseRest authority false (rawURL.takeWhile fun c => c ≠ chr '#') with
  | none => none
  | some u => if fragment ≠ [] ∧ unescape fragment = none then none else some u

def parseRequestURI (rawURL : Bytes) : Option Url := parseRest authority true rawURL

end Parse

end Url

/-! ## Encoding -/

theorem isPathByte_lt (b : UInt8) : isPathByte b = true → b < 0x80 :=
  forall_byte (p := fun b => isPathByte b = true → b < 0x80) (by decide +kernel) b

theorem isPathByte_upperHex : ∀ {n : ℕ}, n < 16 → isPathByte (upperHex n) = true := by
  decide +kernel

theorem isPathByte_escapeByte {b c : UInt8} (hc : c ∈ escapeByte b) : isPathByte c = true := by
  have hb : b.toNat < 256 := b.toNat_lt
  unfold escapeByte at hc
  split_ifs at hc with he
  · simp only [List.mem_cons, List.not_mem_nil, or_false] at hc
    rcases hc with rfl | rfl | rfl
    · decide
    · exact isPathByte_upperHex (by omega)
    · exact isPathByte_upperHex (by omega)
  · rw [List.mem_singleton.mp hc, isPathByte, eq_false_of_ne_true he]
    simp

theorem hexVal_upperHex : ∀ {n : ℕ}, n < 16 → hexVal (upperHex n) = some n := by
  decide

theorem not_shouldEscape_ne {b : UInt8} (h : shouldEscape b = false) : b ≠ chr '%' := by
  rintro rfl
  exact absurd h (by decide)

theorem validEncoded_escape (s : Bytes) : validEncoded (escape s) = true := by
  rw [validEncoded, List.all_eq_true]
  intro c hc
  obtain ⟨b, -, hb⟩ := List.mem_flatMap.mp hc
  exact isPathByte_escapeByte hb

theorem unescape_cons_of_ne {b : UInt8} (h : b ≠ chr '%') (s : Bytes) :
    unescape (b :: s) = (unescape s).map (b :: ·) := by
  rw [unescape.eq_def]
  simp only [if_neg h]

theorem unescape_percent (hi lo : UInt8) (t : Bytes) :
    unescape (chr '%' :: hi :: lo :: t) = (hexVal hi).bind fun h => (hexVal lo).bind fun l =>
      (unescape t).map (UInt8.ofNat (16 * h + l) :: ·) := by
  rw [unescape.eq_def]
  simp only [if_true]
  cases hexVal hi with
  | none => rfl
  | some h =>
    cases hexVal lo with
    | none => rfl
    | some l =>
      cases unescape t with
      | none => rfl
      | some u => rfl

theorem unescape_escapeByte (b : UInt8) (s : Bytes) :
    unescape (escapeByte b ++ s) = (unescape s).map (b :: ·) := by
  have hb : b.toNat < 256 := b.toNat_lt
  unfold escapeByte
  split_ifs with he
  · have hval : UInt8.ofNat (16 * (b.toNat / 16) + b.toNat % 16) = b := by
      rw [Nat.div_add_mod, UInt8.ofNat_toNat]
    simp only [List.cons_append, List.nil_append]
    rw [unescape_percent, hexVal_upperHex (by omega), hexVal_upperHex (by omega), Option.bind_some,
      Option.bind_some, hval]
  · exact unescape_cons_of_ne (not_shouldEscape_ne (eq_false_of_ne_true he)) s

/-- The default encoding decodes. -/
@[simp] theorem unescape_escape (s : Bytes) : unescape (escape s) = some s := by
  induction s with
  | nil => rfl
  | cons b s ih =>
    rw [escape, List.flatMap_cons, ← escape, unescape_escapeByte, ih, Option.map_some]

theorem unescape_of_notMem {s : Bytes} (h : chr '%' ∉ s) : unescape s = some s := by
  induction s with
  | nil => rfl
  | cons b s ih =>
    rw [List.mem_cons, not_or] at h
    rw [unescape_cons_of_ne (Ne.symm h.1), ih h.2, Option.map_some]

/-- Decoding shortens exactly what has escapes in it. -/
theorem length_of_unescape {s t : Bytes} (h : unescape s = some t) :
    t.length ≤ s.length ∧ (chr '%' ∈ s → t.length < s.length) := by
  induction s using unescape.induct generalizing t with
  | case1 =>
    cases h
    simp
  | case2 hi lo s ih =>
    rw [unescape_percent] at h
    obtain ⟨x, -, h⟩ := Option.bind_eq_some_iff.mp h
    obtain ⟨y, -, h⟩ := Option.bind_eq_some_iff.mp h
    obtain ⟨u, hu, rfl⟩ := Option.map_eq_some_iff.mp h
    have hlen := (ih hu).1
    simp only [List.length_cons]
    omega
  | case3 s hs =>
    rw [unescape.eq_def] at h
    simp only [if_true] at h
    cases h
  | case4 b s hb ih =>
    rw [unescape_cons_of_ne hb] at h
    obtain ⟨u, hu, rfl⟩ := Option.map_eq_some_iff.mp h
    obtain ⟨hle, hlt⟩ := ih hu
    simp only [List.length_cons, List.mem_cons]
    refine ⟨by omega, ?_⟩
    rintro (he | hm)
    · exact absurd he.symm hb
    · have := hlt hm
      omega

theorem notMem_of_validEncoded {s : Bytes} (h : validEncoded s = true) {c : UInt8}
    (hc : isPathByte c = false) : c ∉ s := fun hm => by
  rw [validEncoded, List.all_eq_true] at h
  cases (h c hm).symm.trans hc

/-- The encoding in which a path is written: its own if valid, else the default one. -/
def normalPath (p path : Bytes) : Bytes := if validEncoded p = true then p else escape path

theorem validEncoded_normalPath (p path : Bytes) : validEncoded (normalPath p path) = true := by
  unfold normalPath
  split_ifs with hv
  · exact hv
  · exact validEncoded_escape path

/-- Both encodings are of the same path. -/
theorem unescape_normalPath {p path : Bytes} (h : unescape p = some path) :
    unescape (normalPath p path) = some path := by
  unfold normalPath
  split_ifs
  · exact h
  · exact unescape_escape path

theorem normalPath_eq_self_iff {p path : Bytes} : normalPath p path = p ↔ validEncoded p = true := by
  constructor
  · intro h
    rw [← h]
    exact validEncoded_normalPath p path
  · exact fun h => if_pos h

/-- A path that begins with a slash keeps it. -/
theorem unescape_slash {p path : Bytes} (h : unescape (chr '/' :: p) = some path) :
    ∃ t, path = chr '/' :: t ∧ unescape p = some t := by
  rw [unescape_cons_of_ne (by decide)] at h
  obtain ⟨t, ht, rfl⟩ := Option.map_eq_some_iff.mp h
  exact ⟨t, rfl, ht⟩

theorem normalPath_slash {p path : Bytes} (h : unescape (chr '/' :: p) = some path) :
    ∃ t, normalPath (chr '/' :: p) path = chr '/' :: t := by
  unfold normalPath
  split_ifs
  · exact ⟨p, rfl⟩
  · obtain ⟨t, rfl, -⟩ := unescape_slash h
    exact ⟨escape t, rfl⟩

theorem ascii_normalPath {p path : Bytes} : ∀ b ∈ normalPath p path, b < 0x80 := by
  have hv := validEncoded_normalPath p path
  rw [validEncoded, List.all_eq_true] at hv
  exact fun b hb => isPathByte_lt b (hv b hb)

theorem notMem_normalPath {c : UInt8} (hc : isPathByte c = false) (p path : Bytes) :
    c ∉ normalPath p path :=
  notMem_of_validEncoded (validEncoded_normalPath p path) hc

namespace Url

/-- What is written of a path depends on its reading only. -/
theorem escapedPath_of_setPath {u v : Url} {p : Bytes} (hv : u.setPath p = some v)
    (hp : v.path ≠ str "*") : v.escapedPath = normalPath p v.path := by
  obtain ⟨path, hpath, rfl⟩ := Option.map_eq_some_iff.mp hv
  dsimp only at hp
  unfold escapedPath normalPath
  dsimp only
  by_cases hd : p = escape path
  · have hval : validEncoded p = true := hd ▸ validEncoded_escape path
    rw [if_pos hd, if_neg (fun h => h.1 rfl), if_neg hp, if_pos hval, ← hd]
  · rw [if_neg hd, if_neg hp]
    have hne : p ≠ [] := by
      rintro rfl
      cases hpath
      exact hd rfl
    by_cases hval : validEncoded p = true
    · rw [if_pos ⟨hne, hval, hpath⟩, if_pos hval]
    · rw [if_neg fun h => hval h.2.1, if_neg hval]

end Url

/-- A query with its mark, if there is one. -/
def queryText : Option Bytes → Bytes
  | none => []
  | some q => chr '?' :: q

/-- Every text is one without a query mark and a query. -/
theorem exists_queryText (s : Bytes) : ∃ p o, chr '?' ∉ p ∧ s = p ++ queryText o := by
  by_cases h : chr '?' ∈ s
  · obtain ⟨p, q, rfl, hp⟩ := List.eq_append_cons_of_mem h
    exact ⟨p, some q, hp, rfl⟩
  · exact ⟨s, none, h, by simp [queryText]⟩

theorem splitQuery_append {p : Bytes} (hp : chr '?' ∉ p) (o : Option Bytes) :
    splitQuery (p ++ queryText o) = (p, decide (o = some []), o.getD []) := by
  have hmark : ∀ {s : Bytes}, s.getLast? = some (chr '?') → chr '?' ∈ s := fun h =>
    List.mem_of_getLast? h
  have hcount : p.count (chr '?') = 0 := List.count_eq_zero.mpr hp
  cases o with
  | none =>
    have hwhile : ∀ b ∈ p, decide (b ≠ chr '?') = true := fun b hb =>
      decide_eq_true (ne_of_mem_of_not_mem hb hp)
    simp only [queryText, List.append_nil]
    rw [splitQuery, if_neg fun h => hp (hmark h.1), List.takeWhile_eq_self_iff.mpr hwhile,
      List.dropWhile_eq_nil_iff.mpr hwhile]
    rfl
  | some q =>
    simp only [queryText]
    cases q with
    | nil =>
      rw [splitQuery, if_pos]
      · simp
      · simp [hcount]
    | cons c q =>
      rw [splitQuery, if_neg, takeWhile_append_of_notMem hp, dropWhile_append_of_notMem hp]
      · simp
      · rintro ⟨hlast, hone⟩
        have hlast' : (c :: q).getLast? = some (chr '?') := by
          rw [← hlast, List.getLast?_append_cons, List.getLast?_cons_cons]
        have hpos : 0 < (c :: q).count (chr '?') := List.count_pos_iff.mpr (hmark hlast')
        rw [List.count_append, hcount, List.count_cons_self] at hone
        omega

/-- A target of a path and a query. -/
theorem Url.requestURI_eq {u : Url} {o : Option Bytes} (ho : u.opaquePart = [])
    (hf : u.forceQuery = decide (o = some [])) (hq : u.rawQuery = o.getD []) :
    u.requestURI = (if u.escapedPath = [] then str "/" else u.escapedPath) ++ queryText o := by
  unfold requestURI
  rw [if_pos ho, hf, hq]
  cases o with
  | none => simp [queryText]
  | some q =>
    cases q with
    | nil => simp [queryText]
    | cons c q => simp [queryText]

theorem Url.requestURI_ne_nil (u : Url) : u.requestURI ≠ [] := by
  have hresult : (if u.opaquePart = [] then
      if u.escapedPath = [] then str "/" else u.escapedPath
    else if (str "//").isPrefixOf u.opaquePart then u.scheme ++ str ":" ++ u.opaquePart
    else u.opaquePart) ≠ [] := by
    split_ifs with ho he _
    · decide
    · exact he
    · simp [ho]
    · exact ho
  unfold requestURI
  dsimp only
  by_cases hq : u.forceQuery = true ∨ u.rawQuery ≠ []
  · rw [if_pos hq]
    exact List.append_ne_nil_of_left_ne_nil hresult _
  · rw [if_neg hq]
    exact hresult

/-- A text without a colon before its first slash has no scheme. -/
theorem getScheme_slash (s : Bytes) : getScheme (chr '/' :: s) = some ([], chr '/' :: s) := by
  unfold getScheme
  split
  · rfl
  · rename_i h
    simp [indexByte, List.findIdx?_cons, chr] at h
  · rename_i i _ h
    rw [if_neg]
    cases i with
    | zero => contradiction
    | succ i => simp [validScheme, isAlpha, chr]

/-! ## Reading a URL -/

/-- A fragment with its mark, if there is one. -/
def fragmentText : Option Bytes → Bytes
  | none => []
  | some f => chr '#' :: f

/-- Every text is one without a fragment mark and a fragment. -/
theorem exists_fragmentText (s : Bytes) : ∃ t f, chr '#' ∉ t ∧ s = t ++ fragmentText f := by
  by_cases h : chr '#' ∈ s
  · obtain ⟨t, f, rfl, ht⟩ := List.eq_append_cons_of_mem h
    exact ⟨t, some f, ht, rfl⟩
  · exact ⟨s, none, h, by simp [fragmentText]⟩

/-- Every text that begins with a slash is a path with a query and a fragment. -/
theorem exists_parts (s : Bytes) : ∃ p o f,
    chr '/' :: s = chr '/' :: p ++ queryText o ++ fragmentText f ∧ chr '?' ∉ chr '/' :: p ∧
      chr '#' ∉ chr '/' :: p ++ queryText o := by
  obtain ⟨t, f, ht, hs⟩ := exists_fragmentText s
  obtain ⟨p, o, hp, rfl⟩ := exists_queryText t
  refine ⟨p, o, f, by rw [hs]; rfl, ?_, ?_⟩
  · rw [List.mem_cons, not_or]
    exact ⟨by decide, hp⟩
  · rw [List.cons_append, List.mem_cons, not_or]
    exact ⟨by decide, ht⟩

/-- A path that is followed by a query is no longer than what stands before the first mark only if
it has no mark itself. -/
theorem path_of_length_le {a p : Bytes} {o o' f : Option Bytes} (hp : chr '?' ∉ p)
    (h : a ++ queryText o' = p ++ queryText o ++ fragmentText f) (hle : a.length ≤ p.length) :
    p = a ∧ queryText o' = queryText o ++ fragmentText f := by
  rw [List.append_assoc, List.append_eq_append_iff] at h
  rcases h with ⟨r, rfl, hq⟩ | ⟨r, rfl, hq⟩
  · cases r with
    | nil => exact ⟨List.append_nil a, hq⟩
    | cons b r =>
      cases o' with
      | none => cases hq
      | some q =>
        have hb : chr '?' = b := (List.cons.inj hq).1
        exact absurd (List.mem_append_right _ (hb ▸ List.mem_cons_self)) hp
  · have hr : r = [] := by
      apply List.eq_nil_of_length_eq_zero
      rw [List.length_append] at hle
      omega
    subst hr
    exact ⟨(List.append_nil p).symm, hq.symm⟩

theorem queryText_inj {p p' : Bytes} {o o' : Option Bytes} (hp : chr '?' ∉ p) (hp' : chr '?' ∉ p')
    (h : p ++ queryText o = p' ++ queryText o') : p = p' ∧ o = o' := by
  have hwhile : ∀ {p : Bytes} {o : Option Bytes}, chr '?' ∉ p →
      (p ++ queryText o).takeWhile (fun c => c ≠ chr '?') = p := by
    intro p o hp
    cases o with
    | none =>
      simp only [queryText, List.append_nil]
      exact List.takeWhile_eq_self_iff.mpr fun b hb => decide_eq_true (ne_of_mem_of_not_mem hb hp)
    | some q => exact takeWhile_append_of_notMem hp q
  have hpp : p = p' := by
    rw [← hwhile hp (o := o), h, hwhile hp']
  subst hpp
  refine ⟨rfl, ?_⟩
  have hq := List.append_cancel_left h
  cases o with
  | none =>
    cases o' with
    | none => rfl
    | some q => cases hq
  | some q =>
    cases o' with
    | none => cases hq
    | some q' =>
      cases hq
      rfl

namespace Url

/-- No control byte is in the path or the query, and the fragment decodes. -/
def wellFormed (p : Bytes) (o f : Option Bytes) : Bool :=
  !(p ++ queryText o).any isControl && f.all fun f => (unescape f).isSome

/-- A URL completed by a path, a query and a fragment. -/
def complete (u : Url) (p : Bytes) (o f : Option Bytes) : Option Url :=
  if wellFormed p o f then
    { u with forceQuery := decide (o = some []), rawQuery := o.getD [] }.setPath p
  else none

/-- The target that is written for it. -/
def target (p : Bytes) (o f : Option Bytes) : Option Bytes :=
  if wellFormed p o f then (unescape p).map fun path => normalPath p path ++ queryText o else none

theorem complete_spec {u v : Url} (hu : u.opaquePart = []) {p : Bytes} {o f : Option Bytes}
    (h : u.complete (chr '/' :: p) o f = some v) :
    unescape (chr '/' :: p) = some v.path ∧ v.rawQuery = o.getD [] ∧
      v.requestURI = normalPath (chr '/' :: p) v.path ++ queryText o := by
  unfold complete at h
  split_ifs at h
  obtain ⟨path, hpath, hv⟩ := Option.map_eq_some_iff.mp h
  have hvpath : v.path = path := by rw [← hv]
  have hvopaque : v.opaquePart = [] := by
    rw [← hv]
    exact hu
  have hvforce : v.forceQuery = decide (o = some []) := by rw [← hv]
  have hvquery : v.rawQuery = o.getD [] := by rw [← hv]
  obtain ⟨t, rfl, -⟩ := unescape_slash hpath
  have hstar : v.path ≠ str "*" := by
    rw [hvpath]
    exact fun he => absurd (List.cons.inj he).1 (by decide)
  have hesc := escapedPath_of_setPath h hstar
  rw [hvpath] at hesc ⊢
  refine ⟨hpath, hvquery, ?_⟩
  have hne : v.escapedPath ≠ [] := by
    intro hn
    have hdecode := unescape_normalPath hpath
    rw [← hesc, hn] at hdecode
    cases hdecode
  rw [requestURI_eq hvopaque hvforce hvquery, if_neg hne, hesc]

/-- The text of such a URL is its target. -/
theorem complete_string {v : Url} {p : Bytes} {o f : Option Bytes}
    (h : complete {} (chr '/' :: p) o f = some v) :
    v.string = normalPath (chr '/' :: p) v.path ++ queryText o := by
  obtain ⟨hpath, -, huri⟩ := complete_spec rfl h
  rw [← huri]
  unfold complete at h
  split_ifs at h
  have hesc : v.escapedPath = normalPath (chr '/' :: p) v.path := by
    apply escapedPath_of_setPath h
    obtain ⟨t, ht, -⟩ := unescape_slash hpath
    rw [ht]
    exact fun he => absurd (List.cons.inj he).1 (by decide)
  obtain ⟨t, ht⟩ := normalPath_slash hpath
  have hopaque : v.opaquePart = [] := by
    obtain ⟨path, -, rfl⟩ := Option.map_eq_some_iff.mp h
    rfl
  have hcolon : chr ':' ∉ (chr '/' :: t).takeWhile fun c => c ≠ chr '/' := by simp
  unfold string requestURI
  rw [if_pos hopaque, hesc, ht]
  dsimp only
  rw [if_neg hcolon, if_neg (List.cons_ne_nil _ _)]

theorem complete_requestURI {u : Url} (hu : u.opaquePart = []) {p : Bytes} (o f : Option Bytes) :
    (u.complete (chr '/' :: p) o f).map requestURI = target (chr '/' :: p) o f := by
  cases hv : u.complete (chr '/' :: p) o f with
  | none =>
    unfold complete at hv
    unfold target
    split_ifs at hv ⊢
    · rw [Option.map_eq_none_iff.mp hv]
      rfl
    · rfl
  | some v =>
    obtain ⟨hpath, -, huri⟩ := complete_spec hu hv
    have hw : wellFormed (chr '/' :: p) o f = true := by
      unfold complete at hv
      split_ifs at hv with hw
      exact hw
    rw [target, if_pos hw, hpath, Option.map_some, Option.map_some, huri]

variable {authority : Bytes → Option Bytes}

/-- The fragment is cut off and looked at. -/
theorem parse_append {t : Bytes} (ht : chr '#' ∉ t) (f : Option Bytes) :
    parse authority (t ++ fragmentText f) =
      if (f.all fun f => (unescape f).isSome) then parseRest authority false t else none := by
  have hwhile : ∀ b ∈ t, decide (b ≠ chr '#') = true := fun b hb =>
    decide_eq_true (ne_of_mem_of_not_mem hb ht)
  unfold parse
  cases f with
  | none =>
    simp only [fragmentText, List.append_nil, List.takeWhile_eq_self_iff.mpr hwhile,
      List.dropWhile_eq_nil_iff.mpr hwhile, Option.all_none, if_true]
    cases parseRest authority false t with
    | none => rfl
    | some u => simp
  | some f =>
    simp only [fragmentText, takeWhile_append_of_notMem ht, dropWhile_append_of_notMem ht,
      List.drop_one, List.tail_cons, Option.all_some]
    cases parseRest authority false t with
    | none => simp
    | some u =>
      by_cases hf : unescape f = none
      · have hne : f ≠ [] := by
          rintro rfl
          cases hf
        simp [hf, hne]
      · simp [hf, Option.isSome_iff_ne_none]

/-- A text that begins with a slash and no authority is a path, a query and no more. -/
theorem parseRest_slash {viaRequest : Bool} {p : Bytes} (hp : chr '?' ∉ chr '/' :: p)
    (o : Option Bytes) (hauth : viaRequest = true ∨ (str "///").isPrefixOf (chr '/' :: p) = true ∨
      (str "//").isPrefixOf (chr '/' :: p) = false) :
    parseRest authority viaRequest (chr '/' :: p ++ queryText o) =
      complete {} (chr '/' :: p) o none := by
  have hstar : chr '/' :: p ++ queryText o ≠ str "*" := fun h =>
    absurd (List.cons.inj h).1 (by decide)
  have hslash : ¬ (str "/").isPrefixOf (chr '/' :: p) = false := by simp [str, chr]
  have hno : ¬ ((([] : Bytes) ≠ [] ∨
      viaRequest = false ∧ (str "///").isPrefixOf (chr '/' :: p) = false) ∧
        (str "//").isPrefixOf (chr '/' :: p) = true) := by
    rintro ⟨hnil | ⟨hvia, hthree⟩, htwo⟩
    · exact hnil rfl
    · rcases hauth with h | h | h
      · cases hvia.symm.trans h
      · cases hthree.symm.trans h
      · cases htwo.symm.trans h
  unfold parseRest complete wellFormed
  by_cases hctl : (chr '/' :: p ++ queryText o).any isControl = true
  · rw [if_pos hctl, hctl]
    rfl
  · rw [if_neg hctl, if_neg fun h => List.cons_ne_nil _ _ h.1, if_neg hstar]
    rw [List.cons_append, getScheme_slash, ← List.cons_append]
    simp only [splitQuery_append hp]
    rw [if_neg hslash, if_neg hno, eq_false_of_ne_true hctl]
    rfl

/-- A URL of a scheme and an authority, with nothing after them. -/
structure Origin (authority : Bytes → Option Bytes) (base : Bytes) where
  scheme : Bytes
  text : Bytes
  host : Bytes
  eq : base = scheme ++ chr ':' :: chr '/' :: chr '/' :: text
  valid : validScheme scheme = true
  plain : ∀ b ∈ text, isControl b = false ∧ b ∉ str "#?/"
  reads : authority text = some host

namespace Origin

variable {base : Bytes}

theorem text_plain (hb : Origin authority base) {c : UInt8} (hc : c ∈ str "#?/") : c ∉ hb.text :=
  fun h => (hb.plain c h).2 hc

theorem notMem_hash (hb : Origin authority base) : chr '#' ∉ base := by
  rw [hb.eq]
  simp only [List.mem_append, List.mem_cons, not_or]
  refine ⟨fun h => ?_, by decide, by decide, by decide, hb.text_plain (by decide)⟩
  exact (not_delimiter (.inl (isSchemeByte_of_mem hb.valid h))).2 (by decide)

/-- It begins with no slash. -/
theorem exists_cons (hb : Origin authority base) : ∃ c s, base = c :: s ∧ c ≠ chr '/' := by
  cases hs : hb.scheme with
  | nil =>
    have hvalid := hb.valid
    rw [hs] at hvalid
    cases hvalid
  | cons c t =>
    refine ⟨c, t ++ chr ':' :: chr '/' :: chr '/' :: hb.text, ?_, ?_⟩
    · exact hb.eq.trans (congrArg (· ++ chr ':' :: chr '/' :: chr '/' :: hb.text) hs)
    · rintro rfl
      have hbyte := isSchemeByte_of_mem hb.valid (hs ▸ List.mem_cons_self)
      exact absurd hbyte (by decide)

/-- It has no control byte of its own. -/
theorem any_isControl (hb : Origin authority base) (s : Bytes) :
    (base ++ s).any isControl = s.any isControl := by
  have hbase : base.any isControl = false := by
    rw [hb.eq, List.any_eq_false]
    intro b hm
    have hfalse : isControl b = false := by
      simp only [List.mem_append, List.mem_cons] at hm
      rcases hm with hm | rfl | rfl | rfl | hm
      · exact (not_delimiter (.inl (isSchemeByte_of_mem hb.valid hm))).1
      · decide
      · decide
      · decide
      · exact (hb.plain b hm).1
    simp [hfalse]
  rw [List.any_append, hbase, Bool.false_or]

end Origin

/-- What follows such a URL is read as a path and a query. -/
theorem parseRest_origin {base p : Bytes} (hb : Origin authority base)
    (hp : chr '?' ∉ chr '/' :: p) (o : Option Bytes) :
    parseRest authority false (base ++ (chr '/' :: p ++ queryText o)) =
      complete { scheme := toLower hb.scheme, host := hb.host } (chr '/' :: p) o none := by
  let rest := chr '/' :: chr '/' :: (hb.text ++ chr '/' :: p)
  have hsplit : base ++ (chr '/' :: p ++ queryText o) =
      hb.scheme ++ chr ':' :: (rest ++ queryText o) :=
    (congrArg (· ++ (chr '/' :: p ++ queryText o)) hb.eq).trans (by simp [rest])
  have hscheme : hb.scheme ≠ [] := fun h => by
    have hvalid := hb.valid
    rw [h] at hvalid
    cases hvalid
  have hstar : hb.scheme ++ chr ':' :: (rest ++ queryText o) ≠ str "*" := by
    intro h
    have hlen := congrArg List.length h
    simp [rest, str] at hlen
    omega
  have hmark : chr '?' ∉ rest := by
    simp only [rest, List.mem_cons, List.mem_append, not_or] at hp ⊢
    exact ⟨by decide, by decide, hb.text_plain (by decide), hp⟩
  have hslash : ¬ (str "/").isPrefixOf rest = false := by simp [rest, str, chr]
  have htwo : (str "//").isPrefixOf rest = true := by simp [rest, str, chr]
  have hdrop : rest.drop 2 = hb.text ++ chr '/' :: p := rfl
  unfold parseRest complete wellFormed
  rw [hb.any_isControl]
  by_cases hctl : (chr '/' :: p ++ queryText o).any isControl = true
  · rw [if_pos hctl, hctl]
    rfl
  · rw [if_neg hctl, hsplit, if_neg fun h => absurd h.2 Bool.false_ne_true, if_neg hstar,
      getScheme_append hb.valid]
    simp only [splitQuery_append hmark]
    rw [if_neg hslash, if_pos ⟨.inl hscheme, htwo⟩, hdrop,
      takeWhile_append_of_notMem (hb.text_plain (by decide)),
      dropWhile_append_of_notMem (hb.text_plain (by decide)), hb.reads, eq_false_of_ne_true hctl]
    rfl

theorem complete_fragment (u : Url) (p : Bytes) (o f : Option Bytes) :
    u.complete p o f =
      if (f.all fun f => (unescape f).isSome) then u.complete p o none else none := by
  unfold complete wellFormed
  cases f.all fun f => (unescape f).isSome with
  | true => simp
  | false => simp

theorem parse_origin {base p : Bytes} (hb : Origin authority base) {o f : Option Bytes}
    (hp : chr '?' ∉ chr '/' :: p) (hf : chr '#' ∉ chr '/' :: p ++ queryText o) :
    parse authority (base ++ (chr '/' :: p ++ queryText o ++ fragmentText f)) =
      complete { scheme := toLower hb.scheme, host := hb.host } (chr '/' :: p) o f := by
  have hnone : chr '#' ∉ base ++ (chr '/' :: p ++ queryText o) := by
    rw [List.mem_append, not_or]
    exact ⟨hb.notMem_hash, hf⟩
  rw [← List.append_assoc, parse_append hnone, parseRest_origin hb hp, complete_fragment _ _ _ f]

theorem parse_slash {p : Bytes} {o f : Option Bytes} (hp : chr '?' ∉ chr '/' :: p)
    (hf : chr '#' ∉ chr '/' :: p ++ queryText o) (hauth : (str "///").isPrefixOf (chr '/' :: p) = true ∨
      (str "//").isPrefixOf (chr '/' :: p) = false) :
    parse authority (chr '/' :: p ++ queryText o ++ fragmentText f) =
      complete {} (chr '/' :: p) o f := by
  rw [parse_append hf, parseRest_slash hp o (.inr hauth), complete_fragment _ _ _ f]

/-- After two slashes comes an authority, and only what follows it is the path. -/
theorem parseRest_twoSlashes {q : Bytes} {o : Option Bytes} {u : Url}
    (hq : chr '?' ∉ chr '/' :: chr '/' :: q) (hthree : q.head? ≠ some (chr '/'))
    (h : parseRest authority false (chr '/' :: chr '/' :: q ++ queryText o) = some u) :
    ∃ host, Url.setPath
        { scheme := toLower [], host, forceQuery := decide (o = some []), rawQuery := o.getD [] }
        (q.dropWhile fun c => c ≠ chr '/') = some u := by
  have hslash : ¬ (str "/").isPrefixOf (chr '/' :: chr '/' :: q) = false := by simp [str, chr]
  have htwo : (str "//").isPrefixOf (chr '/' :: chr '/' :: q) = true := by simp [str, chr]
  have hnot : (str "///").isPrefixOf (chr '/' :: chr '/' :: q) = false := by
    cases q with
    | nil => rfl
    | cons b q =>
      have hb : chr '/' ≠ b := fun he => hthree (by rw [he]; rfl)
      have hbeq : (chr '/' == b) = false := by simpa using hb
      change (chr '/' == chr '/' && (chr '/' == chr '/' && (chr '/' == b && true))) = false
      simp [hbeq]
  have hstar : chr '/' :: chr '/' :: q ++ queryText o ≠ str "*" := by
    intro he
    exact absurd (List.cons.inj he).1 (by decide)
  unfold parseRest at h
  by_cases hctl : (chr '/' :: chr '/' :: q ++ queryText o).any isControl = true
  · rw [if_pos hctl] at h
    cases h
  · rw [if_neg hctl, if_neg (by simp), if_neg hstar, List.cons_append, getScheme_slash,
      ← List.cons_append] at h
    simp only [splitQuery_append hq] at h
    rw [if_neg hslash, if_pos ⟨.inr ⟨trivial, hnot⟩, htwo⟩] at h
    split at h
    · cases h
    · rename_i host _
      exact ⟨host, h⟩

/-- So the path of the target is a shorter one. -/
theorem parse_twoSlashes {q : Bytes} {o f : Option Bytes} {u : Url}
    (hq : chr '?' ∉ chr '/' :: chr '/' :: q)
    (hf : chr '#' ∉ chr '/' :: chr '/' :: q ++ queryText o) (hv : validEncoded q = true)
    (hthree : q.head? ≠ some (chr '/'))
    (h : parse authority (chr '/' :: chr '/' :: q ++ queryText o ++ fragmentText f) = some u) :
    ∃ p, validEncoded p = true ∧ p.length < (chr '/' :: chr '/' :: q).length ∧
      u.requestURI = p ++ queryText o := by
  rw [parse_append hf] at h
  split_ifs at h
  obtain ⟨host, hset⟩ := parseRest_twoSlashes hq hthree h
  obtain ⟨path, hpath, hu⟩ := Option.map_eq_some_iff.mp hset
  have hsuffix : q.dropWhile (fun c => c ≠ chr '/') <:+ q := List.dropWhile_suffix _
  have hhead := List.head?_dropWhile_not (fun c => decide (c ≠ chr '/')) q
  set r := q.dropWhile fun c => c ≠ chr '/' with hr
  have hrv : validEncoded r = true := by
    rw [validEncoded, List.all_eq_true] at hv ⊢
    exact fun b hb => hv b (hsuffix.subset hb)
  have hstar : u.path ≠ str "*" := by
    rw [← hu]
    rintro rfl
    cases hcase : r with
    | nil =>
      rw [hcase] at hpath
      cases hpath
    | cons b t =>
      rw [hcase] at hhead hpath
      have hb : b = chr '/' := by simpa using hhead
      subst hb
      obtain ⟨t', ht', -⟩ := unescape_slash hpath
      exact absurd (List.cons.inj ht').1 (by decide)
  have hesc : u.escapedPath = r := by
    rw [escapedPath_of_setPath hset hstar]
    exact if_pos hrv
  have huri := requestURI_eq (u := u) (o := o) (by rw [← hu]) (by rw [← hu]) (by rw [← hu])
  refine ⟨if u.escapedPath = [] then str "/" else u.escapedPath, ?_, ?_, huri⟩
  · split_ifs
    · decide
    · rw [hesc]
      exact hrv
  · have hlen := hsuffix.length_le
    split_ifs
    · simp [str]
    · rw [hesc]
      simp only [List.length_cons]
      omega

end Url

end HeadFwd.Net
