import Mathlib.Data.List.TakeWhile
import HeadFwd.Js.Decode

/-! # URLs in JavaScript

The parts of a URL that a handler reads off a request. The URL of a request is
written out by the platform: a scheme, a host in lower case with a port that is
not the default one, a path and a query.
-/

namespace HeadFwd.Js

open Text

/-- The code unit of an ASCII character. -/
def unit (c : Char) : UInt16 := UInt16.ofNat c.toNat

structure Url where
  hostname : JsString
  pathname : JsString
  search : JsString
  deriving DecidableEq, Repr

/-- `new URL` of a URL that is written out. -/
def parseUrl (url : JsString) : Url :=
  let rest := (url.dropWhile fun a => a ≠ unit ':').drop 3
  let path := rest.dropWhile fun a => a ≠ unit '/'
  { hostname := (rest.takeWhile fun a => a ≠ unit '/').takeWhile fun a => a ≠ unit ':'
    pathname := if path = [] then js "/" else path.takeWhile fun a => a ≠ unit '?'
    search := (path.dropWhile fun a => a ≠ unit '?').drop 1 }

/-- Escapes that are not followed by two digits stay. -/
def percentDecode : Bytes → Bytes
  | [] => []
  | b :: s =>
    if b = chr '%' then
      match s with
      | hi :: lo :: t =>
        match hexVal hi, hexVal lo with
        | some h, some l => UInt8.ofNat (16 * h + l) :: percentDecode t
        | _, _ => b :: percentDecode (hi :: lo :: t)
      | s => b :: percentDecode s
    else b :: percentDecode s

/-- A name or a value in a query. -/
def formDecode (s : JsString) : JsString :=
  (decodeRunes (percentDecode
    (utf8 (s.map fun a => if a = unit '+' then unit ' ' else a)))).flatMap units

/-- `searchParams.get`. -/
def searchParam (search name : JsString) : Option JsString :=
  (search.splitOn (unit '&')).findSome? fun pair =>
    if formDecode (pair.takeWhile fun a => a ≠ unit '=') = name then
      some (formDecode ((pair.dropWhile fun a => a ≠ unit '=').drop 1))
    else none

section Parts

variable {a : UInt16} {s t : JsString}

theorem takeWhile_append_unit (h : a ∉ s) (t : JsString) :
    (s ++ a :: t).takeWhile (fun b => b ≠ a) = s := by
  rw [List.takeWhile_append_of_pos]
  · simp
  · intro b hb
    simpa using ne_of_mem_of_not_mem hb h

theorem takeWhile_unit (h : a ∉ s) : s.takeWhile (fun b => b ≠ a) = s := by
  rw [List.takeWhile_eq_self_iff]
  intro b hb
  simpa using ne_of_mem_of_not_mem hb h

theorem dropWhile_append_unit (h : a ∉ s) (t : JsString) :
    (s ++ t).dropWhile (fun b => b ≠ a) = t.dropWhile fun b => b ≠ a := by
  rw [List.dropWhile_append_of_pos]
  intro b hb
  simpa using ne_of_mem_of_not_mem hb h

/-- A URL written out of a scheme, a host, a port or none, and a path or none. -/
theorem parseUrl_parts {scheme host port path : JsString} (hs : unit ':' ∉ scheme)
    (hc : unit ':' ∉ host) (hh : unit '/' ∉ host) (hport : port = [] ∨ port.head? = some (unit ':'))
    (hslash : unit '/' ∉ port) (hp : path = [] ∨ path.head? = some (unit '/')) :
    parseUrl (scheme ++ js "://" ++ host ++ port ++ path) =
      { hostname := host
        pathname := if path = [] then js "/" else path.takeWhile fun a => a ≠ unit '?'
        search := (path.dropWhile fun a => a ≠ unit '?').drop 1 } := by
  have hsplit : scheme ++ js "://" ++ host ++ port ++ path =
      scheme ++ unit ':' :: unit '/' :: unit '/' :: (host ++ port ++ path) := by
    simp [js, unit]
  have hrest : ((scheme ++ unit ':' :: unit '/' :: unit '/' :: (host ++ port ++ path)).dropWhile
      fun a => a ≠ unit ':').drop 3 = host ++ port ++ path := by
    rw [dropWhile_append_unit hs]
    simp
  have hauthority : unit '/' ∉ host ++ port := by
    rw [List.mem_append, not_or]
    exact ⟨hh, hslash⟩
  have hpath : (host ++ port ++ path).dropWhile (fun a => a ≠ unit '/') = path := by
    rw [dropWhile_append_unit hauthority]
    rcases hp with rfl | hp
    · rfl
    · obtain ⟨t, rfl⟩ := List.head?_eq_some_iff.mp hp
      simp
  have htake : (host ++ port ++ path).takeWhile (fun a => a ≠ unit '/') = host ++ port := by
    rcases hp with rfl | hp
    · rw [List.append_nil, takeWhile_unit hauthority]
    · obtain ⟨t, rfl⟩ := List.head?_eq_some_iff.mp hp
      exact takeWhile_append_unit hauthority t
  have hhost : (host ++ port).takeWhile (fun a => a ≠ unit ':') = host := by
    rcases hport with rfl | hport
    · rw [List.append_nil, takeWhile_unit hc]
    · obtain ⟨t, rfl⟩ := List.head?_eq_some_iff.mp hport
      exact takeWhile_append_unit hc t
  rw [parseUrl, hsplit]
  simp only [hrest, hpath, htake, hhost]

end Parts

section Form

variable {s : Bytes}

theorem percentDecode_of_notMem (h : chr '%' ∉ s) : percentDecode s = s := by
  induction s with
  | nil => rfl
  | cons b s ih =>
    rw [List.mem_cons, not_or] at h
    rw [percentDecode.eq_def]
    simp only [if_neg (Ne.symm h.1), ih h.2]

theorem units_runes_ascii (h : ∀ b ∈ s, b < 0x80) : (decodeRunes s).flatMap units = ofAscii s := by
  have hvalid := validUtf8_of_ascii h
  rw [decodeRunes_eq_runes (invalid_notMem_runes hvalid)]
  induction s with
  | nil => rfl
  | cons b s ih =>
    simp only [List.mem_cons, forall_eq_or_imp] at h
    rw [runes_ascii h.1, List.flatMap_cons, ih h.2 (validUtf8_of_ascii h.2)]
    simp [units, ofAscii]

theorem mem_ofAscii {b : UInt8} : b.toUInt16 ∈ ofAscii s ↔ b ∈ s :=
  List.mem_map_of_injective fun _ _ h => UInt8.toUInt16_inj.mp h

/-- ASCII text without escapes stands for itself. -/
theorem formDecode_ofAscii (h : ∀ b ∈ s, b < 0x80) (hp : chr '%' ∉ s) (hs : chr '+' ∉ s) :
    formDecode (ofAscii s) = ofAscii s := by
  have hplus : unit '+' ∉ ofAscii s := fun hm => hs (mem_ofAscii.mp hm)
  have hmap : (ofAscii s).map (fun a => if a = unit '+' then unit ' ' else a) = ofAscii s := by
    conv_rhs => rw [← List.map_id (ofAscii s)]
    apply List.map_congr_left
    intro a ha
    have hne : a ≠ unit '+' := fun he => hplus (he ▸ ha)
    exact if_neg hne
  rw [formDecode, hmap, utf8_ofAscii h, percentDecode_of_notMem hp, units_runes_ascii h]

/-- The value of the only parameter. -/
theorem searchParam_ofAscii (h : ∀ b ∈ s, b < 0x80) (hp : chr '%' ∉ s) (hs : chr '+' ∉ s)
    (ha : chr '&' ∉ s) : searchParam (js "auth=" ++ ofAscii s) (js "auth") = some (ofAscii s) := by
  have hand : unit '&' ∉ js "auth=" ++ ofAscii s := by
    rw [List.mem_append, not_or]
    exact ⟨by decide, fun hm => ha (mem_ofAscii.mp hm)⟩
  have hsplit : js "auth=" ++ ofAscii s = js "auth" ++ unit '=' :: ofAscii s := rfl
  have hname : formDecode (js "auth") = js "auth" :=
    @formDecode_ofAscii (str "auth") (by decide +kernel) (by decide) (by decide)
  rw [searchParam, List.splitOn_eq_singleton hand, hsplit]
  simp only [List.findSome?_cons]
  rw [takeWhile_append_unit (by decide), if_pos hname, dropWhile_append_unit (by decide)]
  simp only [List.dropWhile_cons, ne_eq, not_true_eq_false, decide_false, Bool.false_eq_true,
    if_false, List.drop_succ_cons, List.drop_zero]
  rw [formDecode_ofAscii h hp hs]

end Form

end HeadFwd.Js
