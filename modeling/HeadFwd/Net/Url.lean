import HeadFwd.Net.Address
import Mathlib.Data.List.TakeWhile

/-! # The parts of a URL

The scheme of a URL ends at its first colon. The authority stands between the two
slashes after it and the next one. The query follows the first question mark; its
values are looked up as `url.Values` does. `urlHost` is stricter about what counts
as a scheme and a host, as `url.Parse` is.
-/

namespace HeadFwd.Net

open Text

def urlScheme (url : Bytes) : Option Bytes := (indexByte url (chr ':')).map fun i => url.take i

/-- What follows the scheme and its colon. -/
def urlRest (url : Bytes) : Option Bytes := (indexByte url (chr ':')).map fun i => url.drop (i + 1)

def urlAuthority (url : Bytes) : Option Bytes :=
  match urlRest url with
  | some (a :: b :: rest) =>
    if a = chr '/' ∧ b = chr '/' then some (rest.takeWhile fun c => c ≠ chr '/') else none
  | _ => none

def urlQuery (url : Bytes) : Bytes :=
  ((url.takeWhile fun c => c ≠ chr '#').dropWhile fun c => c ≠ chr '?').drop 1

/-- Undo percent-encoding, where a plus stands for a blank. -/
def queryUnescape : Bytes → Option Bytes
  | [] => some []
  | b :: s =>
    if b = chr '%' then
      match s with
      | hi :: lo :: t => do
        let h ← hexVal hi
        let l ← hexVal lo
        let t ← queryUnescape t
        return UInt8.ofNat (16 * h + l) :: t
      | _ => none
    else (queryUnescape s).map fun t => (if b = chr '+' then chr ' ' else b) :: t

/-- The value in a key-value pair, if the key is the one asked for. -/
def queryValue (key pair : Bytes) : Option Bytes := do
  if chr ';' ∈ pair then none
  let k ← queryUnescape (pair.takeWhile fun c => c ≠ chr '=')
  let v ← queryUnescape ((pair.dropWhile fun c => c ≠ chr '=').drop 1)
  if k = key then return v else none

/-- The first value of a key. -/
def queryGet (query key : Bytes) : Bytes :=
  ((splitByte (chr '&') query).findSome? (queryValue key)).getD []

theorem indexByte_append {a : Bytes} {c : UInt8} (h : c ∉ a) (s : Bytes) :
    indexByte (a ++ c :: s) c = some a.length := by
  rw [indexByte, List.findIdx?_append, List.findIdx?_eq_none_iff.mpr]
  · simp [List.findIdx?_cons]
  · intro b hb
    simpa using ne_of_mem_of_not_mem hb h

theorem takeWhile_append_of_notMem {a : Bytes} {c : UInt8} (h : c ∉ a) (s : Bytes) :
    (a ++ c :: s).takeWhile (fun b => b ≠ c) = a := by
  rw [List.takeWhile_append_of_pos]
  · simp
  · intro b hb
    simpa using ne_of_mem_of_not_mem hb h

/-- A URL written out of a scheme, an authority and what follows it. -/
theorem url_parts {scheme authority : Bytes} (hs : chr ':' ∉ scheme) (ha : chr '/' ∉ authority)
    (rest : Bytes) :
    urlScheme (scheme ++ str "://" ++ authority ++ str "/" ++ rest) = some scheme ∧
      urlAuthority (scheme ++ str "://" ++ authority ++ str "/" ++ rest) = some authority := by
  have hu : scheme ++ str "://" ++ authority ++ str "/" ++ rest =
      scheme ++ chr ':' :: (chr '/' :: chr '/' :: (authority ++ chr '/' :: rest)) := by
    simp [str, chr]
  have hi := indexByte_append hs (chr '/' :: chr '/' :: (authority ++ chr '/' :: rest))
  rw [hu]
  constructor
  · simp [urlScheme, hi]
  · have ho : urlRest (scheme ++ chr ':' :: (chr '/' :: chr '/' :: (authority ++ chr '/' :: rest)))
        = some (chr '/' :: chr '/' :: (authority ++ chr '/' :: rest)) := by
      simp [urlRest, hi]
    rw [urlAuthority, ho]
    simp only [and_self, if_true]
    rw [takeWhile_append_of_notMem ha]

theorem queryUnescape_of_plain {s : Bytes} (hp : chr '%' ∉ s) (hs : chr '+' ∉ s) :
    queryUnescape s = some s := by
  induction s with
  | nil => rfl
  | cons b s ih =>
    rw [List.mem_cons, not_or] at hp hs
    rw [queryUnescape.eq_def]
    simp only [if_neg (Ne.symm hp.1), ih hp.2 hs.2, Option.map_some, if_neg (Ne.symm hs.1)]

theorem splitByte_of_notMem {c : UInt8} {s : Bytes} (h : c ∉ s) : splitByte c s = [s] := by
  induction s with
  | nil => rfl
  | cons b s ih =>
    rw [List.mem_cons, not_or] at h
    rw [splitByte, if_neg (Ne.symm h.1), ih h.2]

theorem splitByte_append {c : UInt8} {a : Bytes} (h : c ∉ a) (s : Bytes) :
    splitByte c (a ++ c :: s) = a :: splitByte c s := by
  induction a with
  | nil => simp [splitByte]
  | cons b a ih =>
    rw [List.mem_cons, not_or] at h
    rw [List.cons_append, splitByte, if_neg (Ne.symm h.1), ih h.2]

theorem dropWhile_append_of_notMem {a : Bytes} {c : UInt8} (h : c ∉ a) (s : Bytes) :
    (a ++ c :: s).dropWhile (fun b => b ≠ c) = c :: s := by
  rw [List.dropWhile_append_of_pos]
  · simp
  · intro b hb
    simpa using ne_of_mem_of_not_mem hb h

/-- The bytes with a meaning of their own in a query. -/
def queryMarks : Bytes := str "#&;%+"

/-- Hexadecimal text stands in a query as it is. -/
theorem notMem_queryMarks {s : Bytes} {b : UInt8} (hb : b ∈ encodeHex s) : b ∉ queryMarks := by
  obtain ⟨n, hn, rfl⟩ := hexDigit_of_mem_encodeHex hb
  have hd : ∀ {n : ℕ}, n < 16 → hexDigit n ∉ queryMarks := by decide
  exact hd hn

/-- The value of a query of one pair, at the end of a URL. -/
theorem queryGet_urlQuery {base key value : Bytes} (hb : chr '?' ∉ base) (hb' : chr '#' ∉ base)
    (hk : chr '=' ∉ key) (hkm : ∀ b ∈ key, b ∉ queryMarks) (hv : ∀ b ∈ value, b ∉ queryMarks) :
    queryGet (urlQuery (base ++ chr '?' :: (key ++ chr '=' :: value))) key = value := by
  have hm : ∀ c ∈ queryMarks, c ∉ key ∧ c ∉ value := fun c hc =>
    ⟨fun h => hkm c h hc, fun h => hv c h hc⟩
  obtain ⟨hk1, hv1⟩ := hm (chr '#') (by decide)
  obtain ⟨hk2, hv2⟩ := hm (chr '&') (by decide)
  obtain ⟨hk3, hv3⟩ := hm (chr ';') (by decide)
  obtain ⟨hk4, hv4⟩ := hm (chr '%') (by decide)
  obtain ⟨hk5, hv5⟩ := hm (chr '+') (by decide)
  have hpair : ∀ c, c ≠ chr '=' → c ∉ key → c ∉ value → c ∉ key ++ chr '=' :: value := by
    intro c hc hck hcv h
    rcases List.mem_append.mp h with h | h
    · exact hck h
    · rcases List.mem_cons.mp h with h | h
      · exact hc h
      · exact hcv h
  have hq : urlQuery (base ++ chr '?' :: (key ++ chr '=' :: value)) = key ++ chr '=' :: value := by
    have hall : chr '#' ∉ base ++ chr '?' :: (key ++ chr '=' :: value) := by
      intro h
      rcases List.mem_append.mp h with h | h
      · exact hb' h
      · rcases List.mem_cons.mp h with h | h
        · revert h
          decide
        · exact hpair _ (by decide) hk1 hv1 h
    have ht : (base ++ chr '?' :: (key ++ chr '=' :: value)).takeWhile (fun c => c ≠ chr '#') =
        base ++ chr '?' :: (key ++ chr '=' :: value) := by
      rw [List.takeWhile_eq_self_iff]
      intro b hb
      simpa using ne_of_mem_of_not_mem hb hall
    rw [urlQuery, ht, dropWhile_append_of_notMem hb, List.drop_one, List.tail_cons]
  have hval : queryValue key (key ++ chr '=' :: value) = some value := by
    rw [queryValue, if_neg (hpair _ (by decide) hk3 hv3), takeWhile_append_of_notMem hk,
      dropWhile_append_of_notMem hk, List.drop_one, List.tail_cons,
      queryUnescape_of_plain hk4 hk5, queryUnescape_of_plain hv4 hv5]
    simp
  rw [queryGet, hq, splitByte_of_notMem (hpair _ (by decide) hk2 hv2), List.findSome?_cons, hval]
  rfl

def isAlpha (b : UInt8) : Bool := chr 'a' ≤ b && b ≤ chr 'z' || chr 'A' ≤ b && b ≤ chr 'Z'

/-- The bytes of a scheme after the first. -/
def isSchemeByte (b : UInt8) : Bool := isAlpha b || isDigit b || b ∈ str "+-."

def validScheme : Bytes → Bool
  | [] => false
  | b :: s => isAlpha b && s.all isSchemeByte

/-- The scheme, empty if there is none, and what follows it; `none` is an error. -/
def getScheme (url : Bytes) : Option (Bytes × Bytes) :=
  match indexByte url (chr ':') with
  | none => some ([], url)
  | some 0 => none
  | some i =>
    if validScheme (url.take i) then some (url.take i, url.drop (i + 1)) else some ([], url)

/-- The bytes of a host that are not percent-encoded. -/
def isHostByte (b : UInt8) : Bool :=
  isAlpha b || isDigit b || 0x80 ≤ b || b ∈ str "!$&'()*+,;=:[]<>\"-_.~"

def validOptionalPort : Bytes → Bool
  | [] => true
  | c :: s => c = chr ':' && s.all isDigit

/-- A host, in brackets or not, and its port. -/
def validHost (host : Bytes) : Bool :=
  host.all isHostByte &&
    if host.head? = some (chr '[') then
      match lastIndexByte host (chr ']') with
      | some i => validOptionalPort (host.drop (i + 1))
      | none => false
    else match lastIndexByte host (chr ':') with
      | some i => validOptionalPort (host.drop i)
      | none => true

def isControl (b : UInt8) : Bool := b < 0x20 || b = 0x7F

/-- The host and port of a URL; `none` when it does not parse or has no host. Percent-encoded hosts
are left out. -/
def urlHost (url : Bytes) : Option Bytes :=
  if url.any isControl then none
  else match getScheme (url.takeWhile fun c => c ≠ chr '#') with
    | none => none
    | some (scheme, rest) =>
      match rest.takeWhile (fun c => c ≠ chr '?') with
      | a :: b :: rest =>
        if a = chr '/' ∧ b = chr '/' ∧ (scheme ≠ [] ∨ rest.head? ≠ some (chr '/')) then
          let authority := rest.takeWhile fun c => c ≠ chr '/'
          let host := match lastIndexByte authority (chr '@') with
            | some i => authority.drop (i + 1)
            | none => authority
          if validHost host then some host else none
        else none
      | _ => none

theorem lastIndexByte_append {c : UInt8} {s : Bytes} (h : c ∉ s) (a : Bytes) :
    lastIndexByte (a ++ c :: s) c = some a.length := by
  have hr : (a ++ c :: s).reverse = s.reverse ++ c :: a.reverse := by simp
  rw [lastIndexByte, hr, indexByte_append (by simpa using h), Option.map_some]
  simp

theorem lastIndexByte_of_notMem {c : UInt8} {s : Bytes} (h : c ∉ s) : lastIndexByte s c = none := by
  have hi : indexByte s.reverse c = none := by
    refine List.findIdx?_eq_none_iff.mpr fun b hb => ?_
    simpa using ne_of_mem_of_not_mem (List.mem_reverse.mp hb) h
  rw [lastIndexByte, hi, Option.map_none]

/-- No delimiter of a URL is a byte of a scheme or a host. -/
theorem not_delimiter {b : UInt8} (h : isSchemeByte b = true ∨ isHostByte b = true) :
    isControl b = false ∧ b ∉ str "#?/@" := by
  revert b
  apply forall_byte
  decide +kernel

theorem isSchemeByte_of_mem {scheme : Bytes} (hs : validScheme scheme = true) {b : UInt8}
    (hb : b ∈ scheme) : isSchemeByte b = true := by
  cases scheme with
  | nil => cases hb
  | cons c s =>
    simp only [validScheme, Bool.and_eq_true, List.all_eq_true] at hs
    rcases List.mem_cons.mp hb with rfl | hb
    · simp [isSchemeByte, hs.1]
    · exact hs.2 b hb

theorem getScheme_append {scheme : Bytes} (hs : validScheme scheme = true) (rest : Bytes) :
    getScheme (scheme ++ chr ':' :: rest) = some (scheme, rest) := by
  have hc : chr ':' ∉ scheme := fun h => absurd (isSchemeByte_of_mem hs h) (by decide)
  have hi := indexByte_append hc rest
  cases scheme with
  | nil => cases hs
  | cons c s =>
    rw [getScheme, hi]
    simp only [List.length_cons]
    rw [← List.length_cons, List.take_left, if_pos hs]
    simp

theorem not_delimiter_of_validHost {host : Bytes} (hh : validHost host = true) {b : UInt8}
    (hb : b ∈ host) : isControl b = false ∧ b ∉ str "#?/@" := by
  simp only [validHost, Bool.and_eq_true, List.all_eq_true] at hh
  exact not_delimiter (.inr (hh.1 b hb))

/-- Nothing in front of the path ends the URL or makes it invalid. -/
theorem plain_of_mem_url {scheme host rest : Bytes} (hs : validScheme scheme = true)
    (hh : validHost host = true) (hc : ∀ b ∈ rest, isControl b = false ∧ b ≠ chr '#') {b : UInt8}
    (hb : b ∈ scheme ++ chr ':' :: chr '/' :: chr '/' :: (host ++ rest)) :
    isControl b = false ∧ b ≠ chr '#' := by
  have known : isControl b = false ∧ b ∉ str "#?/@" → isControl b = false ∧ b ≠ chr '#' := by
    rintro ⟨hctl, hb⟩
    exact ⟨hctl, fun he => hb (he ▸ by decide)⟩
  simp only [List.mem_append, List.mem_cons] at hb
  rcases hb with hb | rfl | rfl | rfl | hb | hb
  · exact known (not_delimiter (.inl (isSchemeByte_of_mem hs hb)))
  · decide
  · decide
  · decide
  · exact known (not_delimiter_of_validHost hh hb)
  · exact hc b hb

/-- The authority ends where the path begins. -/
theorem takeWhile_authority {host rest : Bytes} (hh : validHost host = true)
    (hr : rest = [] ∨ rest.head? = some (chr '/')) :
    (host ++ rest.takeWhile fun c => c ≠ chr '?').takeWhile (fun c => c ≠ chr '/') = host := by
  have hslash : ∀ b ∈ host, decide (b ≠ chr '/') = true := fun b hb =>
    decide_eq_true fun he => (not_delimiter_of_validHost hh hb).2 (he ▸ by decide)
  rw [List.takeWhile_append_of_pos hslash]
  rcases hr with rfl | hr
  · simp
  · obtain ⟨t, rfl⟩ : ∃ t, rest = chr '/' :: t := by
      cases rest with
      | nil => cases hr
      | cons b t => exact ⟨t, by rw [Option.some.inj hr]⟩
    have hq : decide (chr '/' ≠ chr '?') = true := by decide
    have hs : decide (chr '/' ≠ chr '/') = false := by decide
    simp only [List.takeWhile_cons, hq, hs, if_true, Bool.false_eq_true, if_false, List.append_nil]

/-- The host of a URL written out of a scheme, a host and a path with or without a query. -/
theorem urlHost_append {scheme host rest : Bytes} (hs : validScheme scheme = true)
    (hh : validHost host = true) (hr : rest = [] ∨ rest.head? = some (chr '/'))
    (hc : ∀ b ∈ rest, isControl b = false ∧ b ≠ chr '#') :
    urlHost (scheme ++ chr ':' :: chr '/' :: chr '/' :: (host ++ rest)) = some host := by
  set url := scheme ++ chr ':' :: chr '/' :: chr '/' :: (host ++ rest) with hurl
  have hall : ∀ b ∈ url, isControl b = false ∧ b ≠ chr '#' := fun b hb =>
    plain_of_mem_url hs hh hc hb
  have hctl : url.any isControl = false := by
    rw [List.any_eq_false]
    intro b hb
    simp [(hall b hb).1]
  have hfrag : url.takeWhile (fun c => c ≠ chr '#') = url :=
    List.takeWhile_eq_self_iff.mpr fun b hb => decide_eq_true (hall b hb).2
  have hquery : (chr '/' :: chr '/' :: (host ++ rest)).takeWhile (fun c => c ≠ chr '?') =
      chr '/' :: chr '/' :: (host ++ rest.takeWhile fun c => c ≠ chr '?') := by
    have hq : decide (chr '/' ≠ chr '?') = true := by decide
    have hmark : ∀ b ∈ host, decide (b ≠ chr '?') = true := fun b hb =>
      decide_eq_true fun he => (not_delimiter_of_validHost hh hb).2 (he ▸ by decide)
    simp only [List.takeWhile_cons, hq, if_true, List.takeWhile_append_of_pos hmark]
  have huser : lastIndexByte host (chr '@') = none :=
    lastIndexByte_of_notMem fun h => (not_delimiter_of_validHost hh h).2 (by decide)
  have hne : scheme ≠ [] := by
    rintro rfl
    cases hs
  rw [urlHost, hctl, if_neg Bool.false_ne_true, hfrag, hurl, getScheme_append hs]
  simp only [hquery]
  rw [if_pos ⟨trivial, trivial, .inl hne⟩]
  simp only [takeWhile_authority hh hr, huser, hh, if_true]

end HeadFwd.Net
