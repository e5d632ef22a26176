import HeadFwd.Js.Value
import HeadFwd.Text.Base64

/-! # Base64 in JavaScript

`btoa` takes a string of code units below 256. `atob` is forgiving: it skips white
space, and padding may be left out.
-/

namespace HeadFwd.Js

open Text

/-- `none` is an exception. -/
def btoa (s : JsString) : Option JsString :=
  if s.all fun a => a ≤ 0xFF then some (ofAscii (encodeBase64 (s.map UInt16.toUInt8))) else none

def isAsciiSpace (a : UInt16) : Bool :=
  a = 0x09 || a = 0x0A || a = 0x0C || a = 0x0D || a = 0x20

def sextet (a : UInt16) : Option ℕ := if a < 0x80 then base64Val a.toUInt8 else none

/-- One or two equals signs at the end of groups of four are removed. -/
def stripPadding (s : JsString) : JsString :=
  if s.length % 4 = 0 then
    if [0x3D, 0x3D].isSuffixOf s then s.dropLast.dropLast
    else if [0x3D].isSuffixOf s then s.dropLast
    else s
  else s

/-- The bytes of groups of 24 bits. The bits left over at the end are discarded. -/
def ofSextets : List ℕ → Bytes
  | w :: x :: y :: z :: s =>
    let n := w * 2 ^ 18 + x * 2 ^ 12 + y * 2 ^ 6 + z
    UInt8.ofNat (n / 2 ^ 16) :: UInt8.ofNat (n / 2 ^ 8) :: UInt8.ofNat n :: ofSextets s
  | [w, x, y] =>
    let n := w * 2 ^ 12 + x * 2 ^ 6 + y
    [UInt8.ofNat (n / 2 ^ 10), UInt8.ofNat (n / 2 ^ 2)]
  | [w, x] => [UInt8.ofNat ((w * 2 ^ 6 + x) / 2 ^ 4)]
  | _ => []

/-- `none` is an exception. -/
def atob (s : JsString) : Option JsString :=
  let data := stripPadding (s.filter fun a => !isAsciiSpace a)
  if data.length % 4 = 1 then none
  else (data.mapM sextet).map fun sextets => (ofSextets sextets).map UInt8.toUInt16

theorem btoa_ofAscii (s : Bytes) : btoa (ofAscii s) = some (ofAscii (encodeBase64 s)) := by
  have hall : (ofAscii s).all (fun a => a ≤ 0xFF) = true := by
    rw [List.all_eq_true]
    intro a ha
    obtain ⟨b, -, rfl⟩ := List.mem_map.mp ha
    have hb := b.toNat_lt
    simp only [UInt16.le_iff_toNat_le, UInt8.toNat_toUInt16, decide_eq_true_eq]
    exact Nat.le_of_lt_succ hb
  have hmap : (ofAscii s).map UInt16.toUInt8 = s := by
    rw [ofAscii, List.map_map]
    conv_rhs => rw [← List.map_id s]
    exact List.map_congr_left fun b _ => UInt8.toUInt8_toUInt16 b
  rw [btoa, if_pos hall, hmap]

/-- Text in base64 is digits of six bits each, padded to groups of four. -/
theorem encodeBase64_split (s : Bytes) : ∃ digits pad,
    encodeBase64 s = digits.map base64Digit ++ pad ∧ (∀ n ∈ digits, n < 64) ∧
      ofSextets digits = s ∧ (digits.length + pad.length) % 4 = 0 ∧
      (pad = [] ∨ pad = [chr '='] ∨ pad = [chr '=', chr '=']) := by
  have hbyte : ∀ (n : ℕ) (a : UInt8), n % 256 = a.toNat → UInt8.ofNat n = a := by
    intro n a h
    rw [← UInt8.toNat_inj, UInt8.toNat_ofNat']
    exact h
  fun_induction encodeBase64 s with
  | case1 => exact ⟨[], [], rfl, by simp, rfl, rfl, .inl rfl⟩
  | case2 a n =>
    have ha := a.toNat_lt
    refine ⟨[n / 2 ^ 18, n / 2 ^ 12 % 64], [chr '=', chr '='], rfl, ?_, ?_, by simp,
      .inr (.inr rfl)⟩
    · simp only [List.mem_cons, List.not_mem_nil, or_false, forall_eq_or_imp, forall_eq]
      omega
    · exact congrArg (fun b => [b]) (hbyte _ a (by omega))
  | case3 a b n =>
    have ha := a.toNat_lt
    have hb := b.toNat_lt
    refine ⟨[n / 2 ^ 18, n / 2 ^ 12 % 64, n / 2 ^ 6 % 64], [chr '='], rfl, ?_, ?_, by simp,
      .inr (.inl rfl)⟩
    · simp only [List.mem_cons, List.not_mem_nil, or_false, forall_eq_or_imp, forall_eq]
      omega
    · exact congr_arg₂ (fun a b => [a, b]) (hbyte _ a (by omega)) (hbyte _ b (by omega))
  | case4 a b c s n ih =>
    obtain ⟨digits, pad, he, hd, hs, hlen, hpad⟩ := ih
    have ha := a.toNat_lt
    have hb := b.toNat_lt
    have hc := c.toNat_lt
    refine ⟨n / 2 ^ 18 :: n / 2 ^ 12 % 64 :: n / 2 ^ 6 % 64 :: n % 64 :: digits, pad, ?_, ?_, ?_, ?_,
      hpad⟩
    · rw [he]
      rfl
    · simp only [List.mem_cons, forall_eq_or_imp]
      exact ⟨by omega, by omega, by omega, by omega, hd⟩
    · rw [ofSextets, hbyte _ a (by omega), hbyte _ b (by omega), hbyte _ c (by omega), hs]
    · simp only [List.length_cons]
      omega

/-- Padding is stripped from text that ends in no equals sign itself. -/
theorem stripPadding_append {s : JsString} {pad : Bytes} (hs : 0x3D ∉ s)
    (hlen : (s.length + pad.length) % 4 = 0)
    (hpad : pad = [] ∨ pad = [chr '='] ∨ pad = [chr '=', chr '=']) :
    stripPadding (s ++ ofAscii pad) = s := by
  have hend : ∀ t : JsString, 0x3D ∈ t → ¬ t.isSuffixOf s = true := by
    intro t ht h
    exact hs ((List.isSuffixOf_iff_suffix.mp h).subset ht)
  have hfour : (s ++ ofAscii pad).length % 4 = 0 := by
    rw [List.length_append, ofAscii, List.length_map]
    exact hlen
  rw [stripPadding, if_pos hfour]
  rcases hpad with rfl | rfl | rfl
  · have hnil : s ++ ofAscii [] = s := List.append_nil s
    rw [hnil, if_neg (hend _ (by simp)), if_neg (hend _ (by simp))]
  · have hone : s ++ ofAscii [chr '='] = s ++ [0x3D] := rfl
    have htwo : ¬ [0x3D, 0x3D].isSuffixOf (s ++ [0x3D]) = true := by
      intro h
      obtain ⟨t, ht⟩ := List.isSuffixOf_iff_suffix.mp h
      have hsplit : t ++ [0x3D] ++ [0x3D] = s ++ [0x3D] := by rw [← ht, List.append_assoc]; rfl
      apply hs
      rw [← List.append_cancel_right hsplit]
      exact List.mem_append_right t List.mem_cons_self
    rw [hone, if_neg htwo, if_pos (List.isSuffixOf_iff_suffix.mpr ⟨s, rfl⟩), List.dropLast_concat]
  · have htwo : s ++ ofAscii [chr '=', chr '='] = s ++ [0x3D] ++ [0x3D] := by
      rw [List.append_assoc]
      rfl
    have hsuffix : [0x3D, 0x3D] <:+ s ++ [0x3D] ++ [0x3D] := ⟨s, by rw [List.append_assoc]; rfl⟩
    rw [htwo, if_pos (List.isSuffixOf_iff_suffix.mpr hsuffix), List.dropLast_concat,
      List.dropLast_concat]

theorem sextet_base64Digit : ∀ {n : ℕ}, n < 64 → sextet (base64Digit n).toUInt16 = some n ∧
    isAsciiSpace (base64Digit n).toUInt16 = false ∧ (base64Digit n).toUInt16 ≠ 0x3D := by
  decide

theorem mapM_sextet {digits : List ℕ} (h : ∀ n ∈ digits, n < 64) :
    (ofAscii (digits.map base64Digit)).mapM sextet = some digits := by
  induction digits with
  | nil => rfl
  | cons n digits ih =>
    simp only [List.mem_cons, forall_eq_or_imp] at h
    have hrest := ih h.2
    rw [ofAscii] at hrest
    rw [ofAscii, List.map_cons, List.map_cons, List.mapM_cons, (sextet_base64Digit h.1).1, hrest]
    rfl

/-- `atob` gives back what `btoa` was given. -/
theorem atob_encodeBase64 (s : Bytes) : atob (ofAscii (encodeBase64 s)) = some (ofAscii s) := by
  obtain ⟨digits, pad, he, hd, hs, hlen, hpad⟩ := encodeBase64_split s
  have hunits : ofAscii (encodeBase64 s) = ofAscii (digits.map base64Digit) ++ ofAscii pad := by
    rw [he, ofAscii, List.map_append, ofAscii, ofAscii]
  have hdigit : ∀ a ∈ ofAscii (digits.map base64Digit), isAsciiSpace a = false ∧ a ≠ 0x3D := by
    intro a ha
    rw [ofAscii, List.map_map] at ha
    obtain ⟨n, hn, rfl⟩ := List.mem_map.mp ha
    exact (sextet_base64Digit (hd n hn)).2
  have hspace : (ofAscii (encodeBase64 s)).filter (fun a => !isAsciiSpace a) =
      ofAscii (encodeBase64 s) := by
    rw [List.filter_eq_self]
    intro a ha
    rw [hunits, List.mem_append] at ha
    rcases ha with ha | ha
    · rw [(hdigit a ha).1]
      rfl
    · rcases hpad with rfl | rfl | rfl
      · cases ha
      · obtain rfl := List.mem_singleton.mp ha
        decide
      · rcases List.mem_cons.mp ha with rfl | ha
        · decide
        · obtain rfl := List.mem_singleton.mp ha
          decide
  have hlength : (ofAscii (digits.map base64Digit)).length = digits.length := by
    rw [ofAscii, List.length_map, List.length_map]
  have hstrip : stripPadding (ofAscii (encodeBase64 s)) = ofAscii (digits.map base64Digit) := by
    rw [hunits]
    apply stripPadding_append
    · exact fun hm => (hdigit _ hm).2 rfl
    · rw [hlength]
      exact hlen
    · exact hpad
  have hshort : pad.length ≤ 2 := by
    rcases hpad with rfl | rfl | rfl <;> simp
  have hone : ¬ digits.length % 4 = 1 := by omega
  rw [atob, hspace, hstrip, hlength, if_neg hone, mapM_sextet hd, Option.map_some, hs, ofAscii]

end HeadFwd.Js
